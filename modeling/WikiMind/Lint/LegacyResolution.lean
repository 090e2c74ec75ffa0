import WikiMind.Base.Frame
import WikiMind.Lint.Findings

/-!
# Resolving a contradiction through its backlinks

The deprecated endpoint of `services/wiki.py:1129–1213`. It takes the ids of two articles from
the request, resolves the contradiction backlinks between them and forwards the resolution to
the records of `WikiMind.Lint.Findings`.
-/

namespace WikiMind.Lint.LegacyResolution

open WikiMind.Base WikiMind.Base.Rows WikiMind.Lint.Findings

/-- `models/tables/wiki.py:161`. -/
structure Backlink where
  sourceArticleId : String
  targetArticleId : String
  userId : String
  context : Option String
  relationType : String
  resolution : Option String
  resolutionNote : Option String
  resolvedAt : Option Nat
  resolvedBy : Option String
  deriving DecidableEq, Repr

/-- The primary key. -/
def Backlink.key (b : Backlink) : String × String := (b.sourceArticleId, b.targetArticleId)

/-- The tables of the lint findings with the backlinks. -/
structure Tables extends State where
  backlinks : List Backlink
  keys : (backlinks.map Backlink.key).Nodup

/-- `sorted({r.value for r in ContradictionResolution})`: `models/enums.py:200`. -/
def validResolutions : List String :=
  ["both_valid", "source_a_wins", "source_b_wins", "superseded"]

/-- `RelationType.CONTRADICTS`: `models/enums.py:30`. -/
def contradicts : String := "contradicts"

/-- A resolution: the ids, the resolution and the note of the request, the caller and the time. -/
structure Request where
  sourceId : String
  targetId : String
  resolution : String
  resolutionNote : Option String
  userId : String
  now : Nat

/-- `models/dto/wiki.py`. -/
structure ResolveContradictionResponse where
  resolved : Bool
  sourceId : String
  targetId : String
  resolution : String
  deriving DecidableEq, Repr

namespace Request
variable (r : Request)

/-- Both directions, as the loop of `services/wiki.py:1167` takes them. -/
def directions : List (String × String) :=
  [(r.sourceId, r.targetId), (r.targetId, r.sourceId)]

/-- The first row of one direction: `services/wiki.py:1168–1175`. -/
def lookup (backlinks : List Backlink) (direction : String × String) : Option Backlink :=
  backlinks.find? fun b ↦ b.key = direction ∧ b.relationType = contradicts

def found (backlinks : List Backlink) : List Backlink :=
  r.directions.filterMap (lookup backlinks)

/-- What the request writes to a backlink: `services/wiki.py:1182–1185`. -/
def resolve (b : Backlink) : Backlink :=
  { b with
    resolution := some r.resolution
    resolutionNote := r.resolutionNote
    resolvedAt := some r.now
    resolvedBy := some "user" }

/-- The loop over the backlinks that were found: `services/wiki.py:1181–1186`. -/
def resolveBacklinks (backlinks : List Backlink) : List Backlink :=
  (r.found backlinks).foldl
    (fun rows b ↦ Rows.modify (fun row ↦ row.key = b.key) r.resolve rows) backlinks

theorem resolveBacklinks_eq (backlinks : List Backlink) :
    r.resolveBacklinks backlinks =
      Rows.modify (fun row ↦ (r.found backlinks).any fun b ↦ row.key = b.key) r.resolve
        backlinks := by
  have hkey : ∀ b, (r.resolve b).key = b.key := fun _ ↦ rfl
  have htwice : ∀ b, r.resolve (r.resolve b) = r.resolve b := fun _ ↦ rfl
  exact foldl_modify_key hkey htwice (r.found backlinks) backlinks

private theorem keys_resolveBacklinks {backlinks : List Backlink}
    (h : (backlinks.map Backlink.key).Nodup) :
    ((r.resolveBacklinks backlinks).map Backlink.key).Nodup := by
  have hkey : ∀ b ∈ backlinks, ((r.found backlinks).any fun b' ↦ b.key = b'.key) = true →
      (r.resolve b).key = b.key := fun _ _ _ ↦ rfl
  rw [resolveBacklinks_eq, map_modify hkey]
  exact h

/-- `resolve_legacy_contradiction`: `services/wiki.py:1129–1213`. -/
def resolveLegacyContradiction (t : Tables) : Except Exc (ResolveContradictionResponse × Tables) :=
  if r.resolution ∉ validResolutions then
    .error (.httpException 422 ("resolution must be one of [" ++
      ", ".intercalate (validResolutions.map fun v ↦ "'" ++ v ++ "'") ++ "]"))
  else if r.found t.backlinks = [] then
    .error (.httpException 404 "Contradiction backlink not found")
  else
    .ok (⟨true, r.sourceId, r.targetId, r.resolution⟩,
      { toState := Findings.resolveLegacyContradiction t.toState r.userId r.sourceId r.targetId
          r.resolution
        backlinks := r.resolveBacklinks t.backlinks
        keys := r.keys_resolveBacklinks t.keys })

/-- The tables after a request: nothing is committed before the request succeeds. -/
def after (t : Tables) : Tables :=
  match r.resolveLegacyContradiction t with
  | .ok (_, t') => t'
  | .error _ => t

/-- The request is about a pair of articles. -/
def IsAbout (articleId articleId' : String) : Prop :=
  s(articleId, articleId') = s(r.sourceId, r.targetId)

/-- A step changes only backlinks and records of the caller that are about the two articles. -/
structure Confined (t t' : Tables) : Prop where
  backlinks : ChangesOnly
    (fun b ↦ b.userId = r.userId ∧ r.IsAbout b.sourceArticleId b.targetArticleId)
    t.backlinks t'.backlinks
  records : ChangesOnly (fun c ↦ c.userId = r.userId ∧ r.IsAbout c.articleAId c.articleBId)
    t.records t'.records
  rest : { t'.toState with records := t.records } = t.toState

/-- A backlink that contradicts, between the two articles of the request. -/
def Selects (b : Backlink) : Prop :=
  b.relationType = contradicts ∧ r.IsAbout b.sourceArticleId b.targetArticleId

/-- An active record of the caller between two articles out of the two of the request. -/
def SelectsRecord (c : Contradiction) : Prop :=
  c.userId = r.userId ∧ c.status = .active ∧ c.articleAId ∈ [r.sourceId, r.targetId] ∧
    c.articleBId ∈ [r.sourceId, r.targetId]

/-- What a request finds is the caller's: a contradicting backlink between the two articles is
the caller's or is as the request would leave it, and no active record of the caller
contradicts one of two different articles with itself. -/
structure Owned (t : Tables) : Prop where
  backlinks : ∀ b ∈ t.backlinks, r.Selects b → b.userId = r.userId ∨ r.resolve b = b
  records : ∀ c ∈ t.records, r.SelectsRecord c → c.articleAId = c.articleBId →
    r.sourceId = r.targetId

end Request

section
variable {r : Request} {t : Tables}

private theorem key_mem_directions {b : Backlink} :
    b.key ∈ r.directions ↔ r.IsAbout b.sourceArticleId b.targetArticleId := by
  simp [Request.directions, Request.IsAbout, Backlink.key]

private theorem mem_found {b : Backlink} :
    b ∈ r.found t.backlinks ↔ b ∈ t.backlinks ∧ r.Selects b := by
  unfold Request.found Request.Selects
  rw [List.mem_filterMap]
  constructor
  · rintro ⟨direction, hdirection, hlookup⟩
    have hb := List.find?_some hlookup
    simp only [Bool.decide_and, Bool.and_eq_true, decide_eq_true_eq] at hb
    exact ⟨List.mem_of_find?_eq_some hlookup, hb.2, key_mem_directions.mp (hb.1 ▸ hdirection)⟩
  · rintro ⟨hb, htype, habout⟩
    refine ⟨b.key, key_mem_directions.mpr habout, ?_⟩
    cases hlookup : Request.lookup t.backlinks b.key with
    | none =>
      have hnone := List.find?_eq_none.mp hlookup b hb
      simp [htype] at hnone
    | some b' =>
      have hb' := List.find?_some hlookup
      simp only [Bool.decide_and, Bool.and_eq_true, decide_eq_true_eq] at hb'
      rw [eq_of_nodup t.keys hb (List.mem_of_find?_eq_some hlookup) hb'.1]

private theorem any_found {b : Backlink} (hb : b ∈ t.backlinks) :
    ((r.found t.backlinks).any fun b' ↦ b.key = b'.key) = true ↔ r.Selects b := by
  rw [List.any_eq_true]
  constructor
  · rintro ⟨b', hb', hkey⟩
    obtain ⟨hmem, hselects⟩ := mem_found.mp hb'
    rw [← eq_of_nodup t.keys hmem hb (of_decide_eq_true hkey)] at hselects
    exact hselects
  · intro hselects
    exact ⟨b, mem_found.mpr ⟨hb, hselects⟩, decide_eq_true rfl⟩

/-- The backlinks change within the pair, and within the caller's rows if the backlinks that
are selected are. -/
theorem changesOnly_resolveBacklinks :
    ChangesOnly (fun b ↦ b.userId = r.userId ∧ r.IsAbout b.sourceArticleId b.targetArticleId)
        t.backlinks (r.resolveBacklinks t.backlinks) ↔
      ∀ b ∈ t.backlinks, r.Selects b → b.userId = r.userId ∨ r.resolve b = b := by
  rw [r.resolveBacklinks_eq, changesOnly_modify]
  refine forall₂_congr fun b hb ↦ ?_
  rw [any_found hb]
  refine forall_congr' fun hselects ↦ ?_
  have habout : r.IsAbout (r.resolve b).sourceArticleId (r.resolve b).targetArticleId :=
    hselects.2
  have huser : (r.resolve b).userId = b.userId := rfl
  simp only [hselects.2, habout, huser, and_true, and_self]
  exact or_comm

private theorem isAbout_iff {c : Contradiction} (h : r.SelectsRecord c) :
    r.IsAbout c.articleAId c.articleBId ↔
      (c.articleAId = c.articleBId → r.sourceId = r.targetId) := by
  obtain ⟨-, -, ha, hb⟩ := h
  simp only [List.mem_cons, List.not_mem_nil, or_false] at ha hb
  unfold Request.IsAbout
  rcases ha with ha | ha <;> rcases hb with hb | hb <;> simp [ha, hb, eq_comm]

/-- The records that change are the caller's, and are about the pair unless one contradicts an
article with itself. -/
theorem changesOnly_resolveRecords :
    ChangesOnly (fun c ↦ c.userId = r.userId ∧ r.IsAbout c.articleAId c.articleBId) t.records
        (Findings.resolveLegacyContradiction t.toState r.userId r.sourceId r.targetId
          r.resolution).records ↔
      ∀ c ∈ t.records, r.SelectsRecord c → c.articleAId = c.articleBId →
        r.sourceId = r.targetId := by
  unfold Findings.resolveLegacyContradiction
  rw [changesOnly_modify]
  refine forall₂_congr fun c _ ↦ ?_
  rw [decide_eq_true_eq]
  refine forall_congr' fun hselects ↦ ?_
  rw [← isAbout_iff hselects]
  have hsettled : Contradiction.settle r.userId .resolved (some r.resolution) c ≠ c := by
    intro heq
    have hstatus := congrArg Contradiction.status heq
    rw [hselects.2.1] at hstatus
    cases hstatus
  have huser : (Contradiction.settle r.userId .resolved (some r.resolution) c).userId =
      r.userId := hselects.1
  have hids : r.IsAbout
      (Contradiction.settle r.userId .resolved (some r.resolution) c).articleAId
      (Contradiction.settle r.userId .resolved (some r.resolution) c).articleBId ↔
      r.IsAbout c.articleAId c.articleBId := Iff.rfl
  simp [hsettled, huser, hids, hselects.1]

/-- A request that is refused changes nothing. -/
theorem confined_of_refused (h : r.after t = t) : r.Confined t (r.after t) := by
  rw [h]
  exact ⟨.refl _ _, .refl _ _, rfl⟩

private theorem found_eq_nil : r.found t.backlinks = [] ↔ ∀ b ∈ t.backlinks, ¬ r.Selects b := by
  rw [List.eq_nil_iff_forall_not_mem]
  simp only [mem_found, not_and]

/-- A request changes only rows of its caller that are about its two articles precisely when
it is refused or what it finds is the caller's. -/
theorem confined_iff (r : Request) (t : Tables) :
    r.Confined t (r.after t) ↔
      (r.resolution ∈ validResolutions → (∃ b ∈ t.backlinks, r.Selects b) → r.Owned t) := by
  by_cases hvalid : r.resolution ∈ validResolutions
  · by_cases hfound : r.found t.backlinks = []
    · have hnone : ¬ ∃ b ∈ t.backlinks, r.Selects b := by simpa using found_eq_nil.mp hfound
      refine iff_of_true (confined_of_refused ?_) fun _ hsome ↦ absurd hsome hnone
      simp [Request.after, Request.resolveLegacyContradiction, hvalid, hfound]
    · have hsome : ∃ b ∈ t.backlinks, r.Selects b := by simpa using mt found_eq_nil.mpr hfound
      simp only [hvalid, hsome, true_imp_iff]
      have hafter : r.after t = ⟨Findings.resolveLegacyContradiction t.toState r.userId r.sourceId
          r.targetId r.resolution, r.resolveBacklinks t.backlinks,
          r.keys_resolveBacklinks t.keys⟩ := by
        simp [Request.after, Request.resolveLegacyContradiction, hvalid, hfound]
      rw [hafter]
      constructor
      · rintro ⟨hbacklinks, hrecords, -⟩
        exact ⟨changesOnly_resolveBacklinks.mp hbacklinks, changesOnly_resolveRecords.mp hrecords⟩
      · rintro ⟨hbacklinks, hrecords⟩
        exact ⟨changesOnly_resolveBacklinks.mpr hbacklinks,
          changesOnly_resolveRecords.mpr hrecords, rfl⟩
  · refine iff_of_true (confined_of_refused ?_) fun h ↦ absurd h hvalid
    simp [Request.after, Request.resolveLegacyContradiction, hvalid]

end

/-- The backlink of one user and the request of another. -/
def bobs : Tables where
  toState := State.empty
  backlinks := [⟨"b1", "b2", "bob", none, contradicts, none, none, none, none⟩]
  keys := by decide

def alices : Request := ⟨"b1", "b2", "both_valid", none, "alice", 0⟩

/-- A user resolves another user's contradiction. -/
theorem other_user_resolved : ¬ ∀ (r : Request) (t : Tables), r.Confined t (r.after t) := by
  intro h
  have hmem := (h alices bobs).backlinks.mem (List.mem_singleton_self _) (by
    rintro ⟨huser, -⟩
    exact absurd huser (by decide))
  revert hmem
  decide

end WikiMind.Lint.LegacyResolution
