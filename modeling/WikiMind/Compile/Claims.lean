import Mathlib.Algebra.Order.Ring.Rat
import Mathlib.Data.List.Dedup
import WikiMind.Compile.Draft
import WikiMind.Compile.Prompt

/-!
# What persisted claims cite

`_persist_claims` (`engine/compiler.py:895`) keeps of the span ids of a claim those of the spans the
compiler has loaded, and takes over its source ids as they are. Their number goes into the
confidence of the claim (`engine/confidence.py:175`), which asks for the number of distinct sources.
-/

namespace WikiMind.Compile

open WikiMind.Base WikiMind.Llm

/-- A source and its owner: `models/tables/source.py`. -/
structure OwnedSource where
  id : String
  userId : String
  deriving DecidableEq, Repr

/-- The rows a claim refers to. -/
structure Evidence where
  sources : List OwnedSource
  spans : List SourceSpan

/-- A persisted claim with its score. -/
structure ScoredClaim extends CompiledClaim where
  confidenceScore : Rat

/-- `_CLAIM_CONFIDENCE_BASELINES`: `engine/confidence.py:56`. -/
def claimBaseline : ConfidenceLevel → Rat
  | .sourced => 4 / 5
  | .mixed => 1 / 2
  | .inferred => 3 / 10
  | .opinion => 1 / 5

/-- `_clamp01`: `engine/confidence.py:69`. -/
def clamp01 (value : Rat) : Rat := if value < 0 then 0 else if 1 < value then 1 else value

/-- `compute_claim_confidence`, exactly: `engine/confidence.py:175`. -/
def computeClaimConfidence (level : ConfidenceLevel) (sourceCount : Nat) : Rat :=
  clamp01 (claimBaseline level + 1 / 5 * min 1 (sourceCount / 4))

/-- The source ids of a claim, the source that is compiled if it lists none:
`engine/compiler.py:916`. -/
def claimSourceIds (sourceId : String) (dto : CompiledClaimDTO) : List String :=
  if dto.sourceIds.isEmpty then [sourceId] else dto.sourceIds

/-- The row of a claim: `engine/compiler.py:915–944`. -/
def persistClaim (articleId : Nat) (userId sourceId : String) (validSpanIds : List String)
    (dto : CompiledClaimDTO) : ScoredClaim where
  articleId := articleId
  userId := userId
  text := dto.claim
  subjects := dto.subjects
  predicate := dto.predicate
  confidenceLevel := dto.confidence
  quote := dto.quote
  sourceIds := claimSourceIds sourceId dto
  sourceSpanIds := dto.sourceSpanIds.filter (· ∈ validSpanIds)
  confidenceScore := computeClaimConfidence dto.confidence (claimSourceIds sourceId dto).length

/-- `_persist_claims`, with the ids of the spans the compiler has loaded:
`engine/compiler.py:895`. -/
def persistClaims (articleId : Nat) (userId sourceId : String) (validSpanIds : List String)
    (claims : List CompiledClaimDTO) : List ScoredClaim :=
  claims.map (persistClaim articleId userId sourceId validSpanIds)

/-- The id is that of a source of the user. -/
def IsSource (e : Evidence) (userId id : String) : Prop :=
  ∃ s ∈ e.sources, s.id = id ∧ s.userId = userId

/-- The id is that of a span of the source. -/
def IsSpan (e : Evidence) (userId sourceId id : String) : Prop :=
  ∃ s ∈ e.spans, s.id = id ∧ s.sourceId = sourceId ∧ s.userId = userId

instance (e : Evidence) (userId id : String) : Decidable (IsSource e userId id) :=
  inferInstanceAs (Decidable (∃ s ∈ e.sources, s.id = id ∧ s.userId = userId))

instance (e : Evidence) (userId sourceId id : String) : Decidable (IsSpan e userId sourceId id) :=
  inferInstanceAs
    (Decidable (∃ s ∈ e.spans, s.id = id ∧ s.sourceId = sourceId ∧ s.userId = userId))

/-- How many sources of the user the ids name. -/
def realSources (e : Evidence) (userId : String) (ids : List String) : Nat :=
  (ids.filter (IsSource e userId ·)).dedup.length

/-- A row cites what exists: the spans of the source the response lists, distinct sources of the
user, and as many as its score counts. -/
structure CitesWhatExists (e : Evidence) (userId sourceId : String) (dto : CompiledClaimDTO)
    (claim : ScoredClaim) : Prop where
  spans : claim.sourceSpanIds = dto.sourceSpanIds.filter (IsSpan e userId sourceId ·)
  sources : ∀ id ∈ claim.sourceIds, IsSource e userId id
  distinct : claim.sourceIds.Nodup
  score : claim.confidenceScore =
    computeClaimConfidence claim.confidenceLevel (realSources e userId claim.sourceIds)

/-- A claim of a response the compiler can take over: of the spans it lists the compiler has loaded
those of the source, and the sources it lists are distinct ones of the user. -/
structure Backed (e : Evidence) (userId sourceId : String) (validSpanIds : List String)
    (dto : CompiledClaimDTO) : Prop where
  spans : ∀ id ∈ dto.sourceSpanIds, id ∈ validSpanIds ↔ IsSpan e userId sourceId id
  sources : ∀ id ∈ dto.sourceIds, IsSource e userId id
  distinct : dto.sourceIds.Nodup
  own : dto.sourceIds = [] → IsSource e userId sourceId

section Claims

variable {e : Evidence} {articleId : Nat} {userId sourceId : String} {validSpanIds : List String}
  {dto : CompiledClaimDTO}

/-- Two tests keep the same of a list exactly if they agree on it. -/
theorem filter_eq_filter_iff {p q : String → Prop} [DecidablePred p] [DecidablePred q]
    (l : List String) : l.filter (p ·) = l.filter (q ·) ↔ ∀ x ∈ l, p x ↔ q x := by
  constructor
  · intro h x hx
    have hmem : x ∈ l.filter (p ·) ↔ x ∈ l.filter (q ·) := by rw [h]
    simpa [List.mem_filter, hx] using hmem
  · intro h
    exact List.filter_congr fun x hx ↦ by simp [h x hx]

private theorem forall_claimSourceIds {p : String → Prop} :
    (∀ id ∈ claimSourceIds sourceId dto, p id) ↔
      (∀ id ∈ dto.sourceIds, p id) ∧ (dto.sourceIds = [] → p sourceId) := by
  unfold claimSourceIds
  cases dto.sourceIds with
  | nil => simp
  | cons id ids => simp

private theorem nodup_claimSourceIds :
    (claimSourceIds sourceId dto).Nodup ↔ dto.sourceIds.Nodup := by
  unfold claimSourceIds
  cases dto.sourceIds with
  | nil => simp
  | cons id ids => simp

/-- Distinct sources of the user are all counted. -/
theorem realSources_eq_length {ids : List String} (hreal : ∀ id ∈ ids, IsSource e userId id)
    (hdistinct : ids.Nodup) : realSources e userId ids = ids.length := by
  have hall : ids.filter (IsSource e userId ·) = ids :=
    List.filter_eq_self.mpr fun id hid ↦ decide_eq_true (hreal id hid)
  rw [realSources, hall, hdistinct.dedup]

/-- A row cites what exists exactly if its claim is backed. -/
theorem citesWhatExists_iff :
    CitesWhatExists e userId sourceId dto
        (persistClaim articleId userId sourceId validSpanIds dto) ↔
      Backed e userId sourceId validSpanIds dto := by
  constructor
  · rintro ⟨hspans, hsources, hdistinct, -⟩
    obtain ⟨hlisted, hown⟩ := forall_claimSourceIds.mp hsources
    exact ⟨(filter_eq_filter_iff _).mp hspans, hlisted, nodup_claimSourceIds.mp hdistinct, hown⟩
  · intro h
    have hsources := forall_claimSourceIds.mpr ⟨h.sources, h.own⟩
    have hdistinct : (claimSourceIds sourceId dto).Nodup := nodup_claimSourceIds.mpr h.distinct
    refine ⟨(filter_eq_filter_iff _).mpr h.spans, hsources, hdistinct, ?_⟩
    have hcount := realSources_eq_length hsources hdistinct
    simp only [persistClaim, hcount]

/-- Every row of a save cites what exists exactly if every claim of the response is backed. -/
theorem persistClaims_cite_iff (e : Evidence) (articleId : Nat) (userId sourceId : String)
    (validSpanIds : List String) (claims : List CompiledClaimDTO) :
    List.Forall₂ (CitesWhatExists e userId sourceId) claims
        (persistClaims articleId userId sourceId validSpanIds claims) ↔
      ∀ dto ∈ claims, Backed e userId sourceId validSpanIds dto := by
  unfold persistClaims
  rw [List.forall₂_map_right_iff, List.forall₂_same]
  exact forall₂_congr fun dto _ ↦ citesWhatExists_iff

/-- The rows are those a save adds. -/
theorem addClaims_claims (db : Tables) (articleId : Nat) (userId sourceId : String) (a : Attempt) :
    (addClaims db articleId userId sourceId a).claims =
      db.claims ++ (persistClaims articleId userId sourceId a.sourceSpans
        a.result.keyClaims).map (·.toCompiledClaim) := by
  simp [addClaims, persistClaims, persistClaim, claimSourceIds, Function.comp_def]

private theorem commitStep_eq_ok {before db' : Tables} {work : Except Exc Tables}
    {next : Tables → Except Exc Article × Tables} {article : Article}
    (h : commitStep before work next = (.ok article, db')) :
    ∃ db, work = .ok db ∧ next db = (.ok article, db') := by
  unfold commitStep at h
  cases work with
  | error err => cases h
  | ok db => exact ⟨db, rfl, h⟩

/-- A finished save has the claims of its first transaction and those of the response. -/
theorem claims_finishArticle {db db' : Tables} {a : Attempt} {article saved : Article}
    {resolved : List ResolvedBacklink}
    (h : finishArticle db userId sourceId a article resolved = (.ok saved, db')) :
    saved = article ∧ db'.claims = db.claims ++ (persistClaims article.id userId sourceId
      a.sourceSpans a.result.keyClaims).map (·.toCompiledClaim) := by
  unfold finishArticle at h
  obtain ⟨linked, hlinked, h⟩ := commitStep_eq_ok h
  obtain ⟨indexed, hindexed, h⟩ := commitStep_eq_ok h
  obtain ⟨backlinked, hbacklinked, h⟩ := commitStep_eq_ok h
  obtain ⟨claimed, hclaimed, h⟩ := commitStep_eq_ok h
  obtain ⟨done, hdone, h⟩ := commitStep_eq_ok h
  cases h
  obtain ⟨-, -, hdone⟩ := bind_eq_ok.mp hdone
  obtain ⟨-, -, hdone⟩ := bind_eq_ok.mp hdone
  cases hdone
  obtain ⟨-, -, hclaimed⟩ := bind_eq_ok.mp hclaimed
  cases hclaimed
  obtain ⟨-, -, hbacklinked⟩ := bind_eq_ok.mp hbacklinked
  cases hbacklinked
  obtain ⟨-, -, hindexed⟩ := bind_eq_ok.mp hindexed
  cases hindexed
  obtain ⟨-, -, hlinked⟩ := bind_eq_ok.mp hlinked
  obtain ⟨added, hadded, hlinked⟩ := bind_eq_ok.mp hlinked
  obtain ⟨-, -, hlinked⟩ := bind_eq_ok.mp hlinked
  cases hlinked
  refine ⟨rfl, ?_⟩
  rw [addClaims_claims]
  congr 1
  unfold addLinks at hadded
  dsimp only at hadded
  split at hadded
  · cases hadded
    rfl
  · cases hadded

/-- A save keeps old claims only, and adds the rows of its response. -/
theorem claims_saveArticle {env : TextEnv} {provider : Option Provider} {db db' : Tables}
    {a : Attempt} {article : Article}
    (h : saveArticle env userId sourceId provider db a = (.ok article, db')) :
    ∃ kept, kept ⊆ db.claims ∧ db'.claims = kept ++
      (persistClaims article.id userId sourceId a.sourceSpans a.result.keyClaims).map
        (·.toCompiledClaim) := by
  unfold saveArticle at h
  dsimp only at h
  split at h
  · cases h
  · split at h
    · cases h
    · next saved resolved written hwrite =>
      obtain ⟨rfl, hclaims⟩ := claims_finishArticle h
      refine ⟨written.claims, ?_, hclaims⟩
      obtain ⟨-, hwrites⟩ := writeArticle_eq_ok hwrite
      unfold Writes at hwrites
      split at hwrites
      · obtain ⟨-, rfl⟩ := hwrites
        exact List.Subset.refl _
      · obtain ⟨f, -, -, rfl⟩ := hwrites
        exact List.filter_sublist.subset

/-- A compiler that has loaded the spans of the source drops all others and no more. -/
theorem mem_loadSourceSpans_iff (d : Db) (sources : List OwnedSource) (id : String) :
    id ∈ (loadSourceSpans d userId sourceId).map (·.id) ↔
      IsSpan ⟨sources, d.spans⟩ userId sourceId id := by
  unfold loadSourceSpans IsSpan
  simp only [List.mem_map, List.mem_insertionSort, List.mem_filter, decide_eq_true_eq]
  constructor
  · rintro ⟨s, ⟨hs, hsource, huser⟩, hid⟩
    exact ⟨s, hs, hid, hsource, huser⟩
  · rintro ⟨s, hs, hid, hsource, huser⟩
    exact ⟨s, ⟨hs, hsource, huser⟩, hid⟩

/-- One source of one user, with a span. -/
def oneSource : Evidence := ⟨[⟨"s", "u"⟩], [⟨"p", "s", "u", "text", 0⟩]⟩

/-- A claim that lists its source twice, and one that does not exist. -/
def repeatedSources : CompiledClaimDTO :=
  ⟨"claim", .mixed, [], none, none, ["s", "s", "ghost"], ["p", "invented"]⟩

/-- The invented span is dropped, but the score counts three sources where there is one; and a new
compiler, which saves an approved draft, drops the span of the source too. -/
theorem sources_counted_unseen :
    (persistClaim 0 "u" "s" ["p"] repeatedSources).sourceSpanIds = ["p"] ∧
      (persistClaim 0 "u" "s" ["p"] repeatedSources).confidenceScore =
        computeClaimConfidence .mixed 3 ∧
      realSources oneSource "u" (persistClaim 0 "u" "s" ["p"] repeatedSources).sourceIds = 1 ∧
      ¬ List.Forall₂ (CitesWhatExists oneSource "u" "s") [repeatedSources]
        (persistClaims 0 "u" "s" ["p"] [repeatedSources]) ∧
      (persistClaim 0 "u" "s" Compiler.new.sourceSpans repeatedSources).sourceSpanIds = [] := by
  refine ⟨by decide, rfl, by decide, fun h ↦ ?_, by decide⟩
  obtain _ | ⟨hcites, -⟩ := h
  have hdistinct := hcites.distinct
  revert hdistinct
  decide

end Claims

end WikiMind.Compile
