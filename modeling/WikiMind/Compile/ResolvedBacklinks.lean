import Mathlib.Data.List.Sort
import WikiMind.Base.Text
import WikiMind.Compile.Resolver

/-!
# The resolver with its look-up tables

`resolve_backlink_candidates` (`engine/wikilink_resolver.py:53`) with the query it sends, the
two dictionaries it builds and both lists it returns. Titles are compared in lower case, then
as `normalize_title` (`engine/title_normalizer.py:33`) writes them.
-/

namespace WikiMind.Compile

open WikiMind.Base

/-- Replace each run of characters of a kind by one hyphen: `re.sub`. The flag says whether the
character before was of the kind. -/
def squeeze (kind : Char → Bool) : Bool → List Char → List Char
  | _, [] => []
  | inRun, c :: s =>
    if kind c then (if inRun then squeeze kind true s else '-' :: squeeze kind true s)
    else c :: squeeze kind false s

/-- `[a-z0-9]`. -/
def isAlnum (c : Char) : Bool := ('a' ≤ c && c ≤ 'z') || ('0' ≤ c && c ≤ '9')

/-- `normalize_title`, where `toAscii` decomposes a text and drops what is not ASCII:
`engine/title_normalizer.py:33`. -/
def normalizeTitle (toAscii : String → List Char) (s : String) : String :=
  let lower := (toAscii s).map Char.toLower
  let noApostrophes := lower.filter (· ≠ '\'')
  let hyphenated := squeeze (fun c ↦ ! isAlnum c && c ≠ '-') false noApostrophes
  let stripped := (hyphenated.dropWhile (· = '-')).rdropWhile (· = '-')
  String.ofList (squeeze (· = '-') false stripped)

example : normalizeTitle String.toList "-Karpathy's  LLM -- Wiki!" = "karpathys-llm-wiki" := by
  decide

private theorem of_mem_squeeze (kind p : Char → Prop) [DecidablePred kind] {s : List Char}
    (hs : ∀ c ∈ s, kind c ∨ p c) {inRun : Bool} {c : Char}
    (hc : c ∈ squeeze (kind ·) inRun s) : c = '-' ∨ p c := by
  induction s generalizing inRun with
  | nil => simp [squeeze] at hc
  | cons d s ih =>
    have ih := @ih fun c hc ↦ hs c (List.mem_cons_of_mem _ hc)
    by_cases hd : kind d
    · cases inRun with
      | true => exact ih (by simpa [squeeze, hd] using hc)
      | false =>
        obtain rfl | hc := List.mem_cons.mp (by simpa [squeeze, hd] using hc)
        · exact .inl rfl
        · exact ih hc
    · obtain rfl | hc := List.mem_cons.mp (by simpa [squeeze, hd] using hc)
      · exact .inr ((hs _ List.mem_cons_self).resolve_left hd)
      · exact ih hc

/-- A normalized title contains only `[a-z0-9-]`. -/
theorem of_mem_normalizeTitle {toAscii : String → List Char} {s : String} {c : Char}
    (hc : c ∈ (normalizeTitle toAscii s).toList) : c = '-' ∨ isAlnum c := by
  unfold normalizeTitle at hc
  rw [String.toList_ofList] at hc
  refine of_mem_squeeze (· = '-') (isAlnum ·) (fun d hd ↦ ?_) hc
  have hd := List.dropWhile_subset _ ((List.rdropWhile_prefix _ _).subset hd)
  -- what the first replacement leaves is a letter, a digit or a hyphen
  refine (of_mem_squeeze (fun d ↦ ! isAlnum d ∧ d ≠ '-')
    (fun d ↦ isAlnum d ∨ d = '-') (fun e _ ↦ ?_) (by simpa using hd)).elim .inl Or.symm
  by_cases halnum : isAlnum e
  · simp [halnum]
  · simp [halnum, or_comm, em]

/-- The text functions with the normalizer of the repository. -/
def withNormalizer (toAscii : String → List Char) (env : TextEnv) : TextEnv :=
  { env with normalizeTitle := normalizeTitle toAscii }

/-- A row of the article table with the time it was created at. -/
structure ArticleRow extends Article where
  createdAt : Nat

/-- How the database answers `ORDER BY created_at`. -/
abbrev CreatedOrder := Rows.OrderBy ArticleRow.createdAt

/-- Equal times in the order of the table. -/
def createdOrder : CreatedOrder := .stable _

/-- A resolved candidate with the title of its article: `engine/wikilink_resolver.py:30`. -/
structure TitledBacklink extends ResolvedBacklink where
  targetTitle : String
  deriving DecidableEq, Repr

/-- The answer of the resolver: `ResolvedBacklinks`. -/
structure ResolvedBacklinks where
  resolved : List TitledBacklink
  unresolved : List String
  deriving DecidableEq, Repr

/-- The candidates without white space around them; blank ones are dropped:
`engine/wikilink_resolver.py:84`. -/
def cleanCandidates (env : TextEnv) (candidates : List String) : List String :=
  (candidates.filter fun c ↦ c ≠ "" ∧ env.strip c ≠ "").map env.strip

/-- The articles the dictionaries are built from: `engine/wikilink_resolver.py:90–94`. -/
def loadArticles (order : CreatedOrder) (rows : List ArticleRow) (userId : String)
    (exclude : Option Nat) : List ArticleRow :=
  (order.select (rows.filter (·.userId = userId))).filter fun a ↦ some a.id ≠ exclude

/-- The dictionaries `by_lower` and `by_normalized`: `engine/wikilink_resolver.py:97–105`. -/
structure TitleIndex where
  byLower : List (String × ArticleRow)
  byNormalized : List (String × ArticleRow)

/-- The first article of each lower-case title, and of each normalized title that is not
empty. -/
def indexTitles (env : TextEnv) (articles : List ArticleRow) : TitleIndex where
  byLower := Rows.indexFirst (fun a ↦ some (env.lower a.title)) articles
  byNormalized := Rows.indexFirst (fun a ↦ truthy (some (env.normalizeTitle a.title))) articles

/-- The article a candidate stands for: `engine/wikilink_resolver.py:110–114`. -/
def TitleIndex.target (index : TitleIndex) (env : TextEnv) (candidate : String) :
    Option ArticleRow :=
  match index.byLower.lookup (env.lower candidate) with
  | some a => some a
  | none =>
    let norm := env.normalizeTitle candidate
    if norm = "" then none else index.byNormalized.lookup norm

/-- A candidate goes to one of the two lists, unless its article is there already:
`engine/wikilink_resolver.py:109–126`. -/
def placeCandidate (env : TextEnv) (index : TitleIndex) (relMap : List (String × String))
    (out : ResolvedBacklinks) (candidate : String) : ResolvedBacklinks :=
  match index.target env candidate with
  | none => { out with unresolved := out.unresolved ++ [candidate] }
  | some target =>
    { out with
      resolved := Rows.insertNew (·.targetId) out.resolved
        ⟨⟨candidate, target.id, (relMap.lookup (env.lower candidate)).getD "references"⟩,
          target.title⟩ }

/-- `resolve_backlink_candidates`: `engine/wikilink_resolver.py:53`. -/
def resolveBacklinks (env : TextEnv) (order : CreatedOrder) (rows : List ArticleRow)
    (userId : String) (exclude : Option Nat) (relMap : List (String × String))
    (candidates : List String) : ResolvedBacklinks :=
  let cleaned := cleanCandidates env candidates
  if cleaned = [] then ⟨[], []⟩
  else
    let index := indexTitles env (loadArticles order rows userId exclude)
    cleaned.foldl (placeCandidate env index relMap) ⟨[], []⟩

/-- An article of the user that is not the excluded one. -/
def Admissible (userId : String) (exclude : Option Nat) (a : ArticleRow) : Prop :=
  a.userId = userId ∧ some a.id ≠ exclude

/-- The title is that of the candidate up to case. -/
def ExactMatch (env : TextEnv) (candidate : String) (a : ArticleRow) : Prop :=
  env.lower a.title = env.lower candidate

/-- The normalized title is that of the candidate, and not empty. -/
def NormalizedMatch (env : TextEnv) (candidate : String) (a : ArticleRow) : Prop :=
  env.normalizeTitle candidate ≠ "" ∧ env.normalizeTitle a.title = env.normalizeTitle candidate

instance (userId : String) (exclude : Option Nat) : DecidablePred (Admissible userId exclude) :=
  fun a ↦ inferInstanceAs (Decidable (a.userId = userId ∧ some a.id ≠ exclude))

instance (env : TextEnv) (candidate : String) : DecidablePred (ExactMatch env candidate) :=
  fun a ↦ inferInstanceAs (Decidable (env.lower a.title = env.lower candidate))

instance (env : TextEnv) (candidate : String) : DecidablePred (NormalizedMatch env candidate) :=
  fun a ↦ inferInstanceAs (Decidable (env.normalizeTitle candidate ≠ "" ∧
    env.normalizeTitle a.title = env.normalizeTitle candidate))

/-- No admissible article has the title of the candidate. -/
def NoMatch (env : TextEnv) (rows : List ArticleRow) (userId : String) (exclude : Option Nat)
    (candidate : String) : Prop :=
  ∀ a ∈ rows, Admissible userId exclude a →
    ¬ ExactMatch env candidate a ∧ ¬ NormalizedMatch env candidate a

instance (env : TextEnv) (rows : List ArticleRow) (userId : String) (exclude : Option Nat) :
    DecidablePred (NoMatch env rows userId exclude) :=
  fun candidate ↦ inferInstanceAs (Decidable (∀ a ∈ rows, Admissible userId exclude a →
    ¬ ExactMatch env candidate a ∧ ¬ NormalizedMatch env candidate a))

/-- An article that was created no later than any other that fits. -/
structure Earliest (rows : List ArticleRow) (p : ArticleRow → Prop) (a : ArticleRow) :
    Prop where
  mem : a ∈ rows
  fits : p a
  first : ∀ b ∈ rows, p b → a.createdAt ≤ b.createdAt

/-- The article a candidate should be linked to: the earliest with its title, or where there is
none the earliest with its normalized title. -/
inductive IsTarget (env : TextEnv) (rows : List ArticleRow) (userId : String)
    (exclude : Option Nat) (candidate : String) (a : ArticleRow) : Prop
  | exact (h : Earliest rows (fun b ↦ Admissible userId exclude b ∧ ExactMatch env candidate b) a)
  | normalized
      (hexact : ∀ b ∈ rows, Admissible userId exclude b → ¬ ExactMatch env candidate b)
      (h : Earliest rows
        (fun b ↦ Admissible userId exclude b ∧ NormalizedMatch env candidate b) a)

/-- What the resolver should answer. -/
structure Resolves (env : TextEnv) (rows : List ArticleRow) (userId : String)
    (exclude : Option Nat) (candidates : List String) (out : ResolvedBacklinks) : Prop where
  unresolved : out.unresolved =
    (cleanCandidates env candidates).filter (NoMatch env rows userId exclude)
  resolved : ∀ c ∈ cleanCandidates env candidates, ¬ NoMatch env rows userId exclude c →
    ∃ a, IsTarget env rows userId exclude c a ∧ a.id ∈ out.resolved.map (·.targetId)
  distinct : (out.resolved.map (·.targetId)).Nodup
  targets : ∀ rb ∈ out.resolved, ∃ a ∈ rows, Admissible userId exclude a ∧
    rb.targetId = a.id ∧ rb.targetTitle = a.title ∧
    rb.candidateText ∈ cleanCandidates env candidates ∧
    IsTarget env rows userId exclude rb.candidateText a

section ResolvedBacklinks

variable {env : TextEnv} {order : CreatedOrder} {rows pool : List ArticleRow} {userId : String}
  {exclude : Option Nat} {relMap : List (String × String)} {candidate : String}
  {candidates : List String} {a : ArticleRow}

private theorem mem_loadArticles :
    a ∈ loadArticles order rows userId exclude ↔ a ∈ rows ∧ Admissible userId exclude a := by
  unfold loadArticles Admissible
  rw [List.mem_filter, (order.perm _).mem_iff, List.mem_filter]
  simp only [decide_eq_true_eq, and_assoc]

/-- The first article in the order of creation that fits is the earliest. -/
theorem earliest_of_find? {p : ArticleRow → Prop} [DecidablePred p]
    (h : (loadArticles order rows userId exclude).find? (p ·) = some a) :
    Earliest rows (fun b ↦ Admissible userId exclude b ∧ p b) a := by
  have hsorted : (loadArticles order rows userId exclude).Pairwise
      (·.createdAt ≤ ·.createdAt) := (order.sorted _).filter _
  have hfits : p a := by simpa using List.find?_some h
  obtain ⟨hmem, hadm⟩ := mem_loadArticles.mp (List.mem_of_find?_eq_some h)
  refine ⟨hmem, ⟨hadm, hfits⟩, ?_⟩
  rintro b hb ⟨hbadm, hbfits⟩
  obtain ⟨-, before, after, hsplit, hbefore⟩ := List.find?_eq_some_iff_append.mp h
  have hbpool : b ∈ loadArticles order rows userId exclude := mem_loadArticles.mpr ⟨hb, hbadm⟩
  rw [hsplit] at hbpool hsorted
  rw [List.mem_append, List.mem_cons] at hbpool
  obtain hbefore' | rfl | hafter := hbpool
  · exact absurd (hbefore b hbefore') (by simpa using hbfits)
  · exact le_rfl
  · exact (List.pairwise_cons.mp (List.pairwise_append.mp hsorted).2.1).1 b hafter

/-- The two dictionaries are asked one after the other. -/
theorem indexTitles_target (env : TextEnv) (pool : List ArticleRow) (candidate : String) :
    (indexTitles env pool).target env candidate =
      (pool.find? (ExactMatch env candidate ·)).or
        (pool.find? (NormalizedMatch env candidate ·)) := by
  unfold TitleIndex.target indexTitles
  simp only [Rows.lookup_indexFirst, Option.some.injEq]
  cases hexact : pool.find? (fun b ↦ decide (ExactMatch env candidate b)) with
  | some a =>
    have : pool.find? (fun b ↦ decide (env.lower b.title = env.lower candidate)) = some a := hexact
    rw [this, Option.some_or]
  | none =>
    have : pool.find? (fun b ↦ decide (env.lower b.title = env.lower candidate)) = none := hexact
    rw [this, Option.none_or]
    by_cases hnorm : env.normalizeTitle candidate = ""
    · have hnone : pool.find? (fun b ↦ decide (NormalizedMatch env candidate b)) = none := by
        simp [NormalizedMatch, hnorm]
      simp [hnorm, hnone]
    · simp only [hnorm, if_false, NormalizedMatch, ne_eq, not_false_eq_true, true_and]
      congr 1
      funext b
      simp only [truthy, Option.filter]
      grind

theorem target_spec
    (h : (indexTitles env (loadArticles order rows userId exclude)).target env candidate = some a) :
    IsTarget env rows userId exclude candidate a := by
  rw [indexTitles_target, Option.or_eq_some_iff] at h
  obtain hexact | ⟨hnone, hnormalized⟩ := h
  · exact .exact (earliest_of_find? hexact)
  · refine .normalized (fun b hb hadm hexact ↦ ?_) (earliest_of_find? hnormalized)
    have hb' := List.find?_eq_none.mp hnone b (mem_loadArticles.mpr ⟨hb, hadm⟩)
    exact hb' (by simpa using hexact)

variable (order) in
theorem target_eq_none_iff :
    (indexTitles env (loadArticles order rows userId exclude)).target env candidate = none ↔
      NoMatch env rows userId exclude candidate := by
  rw [indexTitles_target, Option.or_eq_none_iff, List.find?_eq_none, List.find?_eq_none]
  simp only [decide_eq_true_eq, NoMatch, mem_loadArticles]
  constructor
  · rintro ⟨hexact, hnormalized⟩ b hb hadm
    exact ⟨hexact b ⟨hb, hadm⟩, hnormalized b ⟨hb, hadm⟩⟩
  · intro h
    exact ⟨fun b hb ↦ (h b hb.1 hb.2).1, fun b hb ↦ (h b hb.1 hb.2).2⟩

/-- What a candidate adds to the resolved ones. -/
def resolvedFor (env : TextEnv) (index : TitleIndex) (relMap : List (String × String))
    (candidate : String) : Option TitledBacklink :=
  (index.target env candidate).map fun target ↦
    ⟨⟨candidate, target.id, (relMap.lookup (env.lower candidate)).getD "references"⟩,
      target.title⟩

/-- The loop filters the unresolved candidates and inserts the others by their article. -/
theorem foldl_placeCandidate (index : TitleIndex) (cs : List String) (out : ResolvedBacklinks) :
    cs.foldl (placeCandidate env index relMap) out =
      ⟨(cs.filterMap (resolvedFor env index relMap)).foldl (Rows.insertNew (·.targetId))
          out.resolved,
        out.unresolved ++ cs.filter fun c ↦ (index.target env c).isNone⟩ := by
  induction cs generalizing out with
  | nil => simp
  | cons c cs ih =>
    rw [List.foldl_cons, ih, placeCandidate]
    cases htarget : index.target env c with
    | none => simp [resolvedFor, htarget]
    | some target => simp [resolvedFor, htarget]

/-- The early return for no candidates is what the loop would answer. -/
theorem resolveBacklinks_eq :
    resolveBacklinks env order rows userId exclude relMap candidates =
      (cleanCandidates env candidates).foldl
        (placeCandidate env (indexTitles env (loadArticles order rows userId exclude)) relMap)
        ⟨[], []⟩ := by
  unfold resolveBacklinks
  by_cases hnone : cleanCandidates env candidates = []
  · simp [hnone]
  · simp [hnone]

private theorem unresolved_resolveBacklinks :
    (resolveBacklinks env order rows userId exclude relMap candidates).unresolved =
      (cleanCandidates env candidates).filter (NoMatch env rows userId exclude) := by
  rw [resolveBacklinks_eq, foldl_placeCandidate, List.nil_append]
  refine List.filter_congr fun c _ ↦ ?_
  rw [Bool.eq_iff_iff, Option.isNone_iff_eq_none, target_eq_none_iff, decide_eq_true_eq]

private theorem mem_resolved_resolveBacklinks {rb : TitledBacklink} :
    rb ∈ (resolveBacklinks env order rows userId exclude relMap candidates).resolved ↔
      ((cleanCandidates env candidates).filterMap (resolvedFor env
        (indexTitles env (loadArticles order rows userId exclude)) relMap)).find?
          (·.targetId = rb.targetId) = some rb := by
  rw [resolveBacklinks_eq, foldl_placeCandidate, Rows.mem_foldl_insertNew]
  simp

/-- A resolved candidate is one of the list, and has its target. -/
theorem resolved_sound {rb : TitledBacklink}
    (h : rb ∈ (resolveBacklinks env order rows userId exclude relMap candidates).resolved) :
    ∃ a ∈ rows, Admissible userId exclude a ∧ rb.targetId = a.id ∧ rb.targetTitle = a.title ∧
      rb.candidateText ∈ cleanCandidates env candidates ∧
      IsTarget env rows userId exclude rb.candidateText a := by
  obtain ⟨c, hc, hrb⟩ := List.mem_filterMap.mp
    (List.mem_of_find?_eq_some (mem_resolved_resolveBacklinks.mp h))
  obtain ⟨a, ha, rfl⟩ := Option.map_eq_some_iff.mp hrb
  have htarget := target_spec ha
  have hadm : a ∈ rows ∧ Admissible userId exclude a := by
    obtain ⟨h⟩ | ⟨-, h⟩ := htarget
    · exact ⟨h.mem, h.fits.1⟩
    · exact ⟨h.mem, h.fits.1⟩
  exact ⟨a, hadm.1, hadm.2, rfl, rfl, hc, htarget⟩

/-- A candidate that names an article has its target among the resolved ones. -/
theorem resolved_complete (hc : candidate ∈ cleanCandidates env candidates)
    (hmatch : ¬ NoMatch env rows userId exclude candidate) :
    ∃ a, IsTarget env rows userId exclude candidate a ∧ a.id ∈
      (resolveBacklinks env order rows userId exclude relMap candidates).resolved.map
        (·.targetId) := by
  rw [← target_eq_none_iff order, ← ne_eq, Option.ne_none_iff_exists'] at hmatch
  obtain ⟨a, ha⟩ := hmatch
  refine ⟨a, target_spec ha, ?_⟩
  let found := (cleanCandidates env candidates).filterMap (resolvedFor env
    (indexTitles env (loadArticles order rows userId exclude)) relMap)
  have hadds : ∃ rb ∈ found, rb.targetId = a.id :=
    ⟨_, List.mem_filterMap.mpr ⟨candidate, hc, by rw [resolvedFor, ha, Option.map_some]⟩, rfl⟩
  -- the first that has this article is the one that is kept
  obtain ⟨rb, hrb⟩ : ∃ rb, found.find? (·.targetId = a.id) = some rb := by
    rw [← Option.isSome_iff_exists, List.find?_isSome]
    simpa using hadds
  have hid : rb.targetId = a.id := by simpa using List.find?_some hrb
  exact List.mem_map.mpr ⟨rb, mem_resolved_resolveBacklinks.mpr (by rw [hid]; exact hrb), hid⟩

private theorem nodup_resolveBacklinks :
    ((resolveBacklinks env order rows userId exclude relMap candidates).resolved.map
      (·.targetId)).Nodup := by
  rw [resolveBacklinks_eq, foldl_placeCandidate]
  exact Rows.nodup_foldl_insertNew (by simp) _

private theorem loadArticles_toArticle :
    (loadArticles order rows userId exclude).map (·.toArticle) =
      candidatePool ((order.select (rows.filter (·.userId = userId))).map (·.toArticle)) userId
        exclude := by
  unfold loadArticles candidatePool
  rw [List.filter_map]
  congr 1
  refine List.filter_congr fun b hb ↦ ?_
  have huser := List.of_mem_filter ((order.perm _).mem_iff.mp hb)
  simp only [decide_eq_true_eq] at huser
  simp [huser]

private theorem resolveCandidate_toArticle (pool : List ArticleRow) (candidate : String) :
    resolveCandidate env (pool.map (·.toArticle)) candidate =
      ((indexTitles env pool).target env candidate).map (·.toArticle) := by
  rw [indexTitles_target]
  unfold resolveCandidate
  simp only [List.find?_map, Function.comp_def]
  have hexact : pool.find? (fun b ↦ decide (ExactMatch env candidate b)) =
      pool.find? fun b ↦ decide (env.lower b.title = env.lower candidate) := rfl
  rw [hexact]
  cases pool.find? fun b ↦ decide (env.lower b.title = env.lower candidate) with
  | some b => rfl
  | none =>
    by_cases hnorm : env.normalizeTitle candidate = ""
    · have hnone : pool.find? (fun b ↦ decide (NormalizedMatch env candidate b)) = none := by
        simp [NormalizedMatch, hnorm]
      simp [hnorm, hnone]
    · simp [hnorm, NormalizedMatch]

private theorem map_resolvedFor (hstrip : env.strip "" = "") :
    ((cleanCandidates env candidates).filterMap (resolvedFor env (indexTitles env pool) relMap)).map
        (·.toResolvedBacklink) =
      candidates.filterMap fun c ↦
        (namedArticle env (pool.map (·.toArticle)) c).map (answer env relMap c) := by
  rw [List.map_filterMap, cleanCandidates, List.filterMap_map, List.filterMap_filter]
  refine List.filterMap_congr fun c _ ↦ ?_
  by_cases hblank : env.strip c = ""
  · simp [namedArticle, hblank]
  · have hempty : c ≠ "" := fun h ↦ hblank (h ▸ hstrip)
    rw [if_pos (by simp [hempty, hblank]), namedArticle, if_neg hblank,
      resolveCandidate_toArticle]
    simp [resolvedFor, answer, Function.comp_def]

/-- On the rows in the order of their creation it resolves what the tables' resolver does. -/
theorem resolved_toResolvedBacklink (hstrip : env.strip "" = "") :
    (resolveBacklinks env order rows userId exclude relMap candidates).resolved.map
        (·.toResolvedBacklink) =
      resolveBacklinkCandidates env
        ((order.select (rows.filter (·.userId = userId))).map (·.toArticle)) userId exclude relMap
        candidates := by
  rw [resolveBacklinks_eq, foldl_placeCandidate, resolveBacklinkCandidates_eq,
    Rows.map_foldl_insertNew (fun _ ↦ rfl), List.map_nil, map_resolvedFor hstrip,
    loadArticles_toArticle]

/-- The non-blank candidates are partitioned. -/
theorem resolveBacklinks_resolves (toAscii : String → List Char) (env : TextEnv)
    (order : CreatedOrder) (rows : List ArticleRow) (userId : String) (exclude : Option Nat)
    (relMap : List (String × String)) (candidates : List String) :
    Resolves (withNormalizer toAscii env) rows userId exclude candidates
      (resolveBacklinks (withNormalizer toAscii env) order rows userId exclude relMap
        candidates) where
  unresolved := unresolved_resolveBacklinks
  resolved := fun _ hc hmatch ↦ resolved_complete hc hmatch
  distinct := nodup_resolveBacklinks
  targets := fun _ hrb ↦ resolved_sound hrb

end ResolvedBacklinks

end WikiMind.Compile
