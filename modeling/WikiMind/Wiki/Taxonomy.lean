import WikiMind.Base.Parents
import WikiMind.Base.Rows
import WikiMind.Base.Run

/-!
# Concept taxonomy

The parent links between the concepts of a user (`services/taxonomy.py`). `upsert_concepts`
adds concepts without a parent; `rebuild_taxonomy` asks for a hierarchy, checks it and
rewrites all links of the user. No other code writes the links. Names are unique for a
user and identifiers are unique (`models/tables/wiki.py:146`).
-/

namespace WikiMind.Wiki

open WikiMind.Base

/-- A decoded JSON value. Of a number the code only sees whether it is zero. -/
inductive Json where
  | null
  | bool (b : Bool)
  | number (isZero : Bool)
  | str (s : String)
  | arr (items : List Json)
  | obj (fields : List (String × Json))

/-- A concept: `models/tables/wiki.py:146`. -/
structure Concept where
  id : String
  userId : String
  name : String
  parentId : Option String
  deriving DecidableEq, Repr

/-- The concept table with its keys. -/
structure ConceptTable where
  rows : List Concept
  nodup_id : (rows.map Concept.id).Nodup
  nodup_name : (rows.map fun c ↦ (c.userId, c.name)).Nodup

/-- The truth test of a value. -/
def Json.truthy : Json → Bool
  | .null => false
  | .bool b => b
  | .number isZero => ! isZero
  | .str s => s ≠ ""
  | .arr items => ! items.isEmpty
  | .obj fields => ! fields.isEmpty

/-- The value of a key, of which the last counts: `entry.get(key)`. -/
def Json.get (fields : List (String × Json)) (key : String) : Json :=
  (fields.reverse.lookup key).getD .null

/-- The test `value in concept_map`; lists and dicts cannot be looked up. -/
def Json.memOf (names : List String) : Json → Except Exc (Option String)
  | .str s => .ok (if s ∈ names then some s else none)
  | .arr _ | .obj _ => .error .typeError
  | _ => .ok none

/-- The known name a value stands for, if it is truthy: `services/taxonomy.py:385, 387`. -/
def knownName (names : List String) (value : Json) : Except Exc (Option String) :=
  if value.truthy then value.memOf names else .ok none

/-- A mapping of names to parents, as the list of its writes, the last first. -/
abbrev ParentMapping := List (String × Option String)

/-- The parent of a name, `none` for a root and for a name that is not mapped:
`parent_mapping.get(name)`. -/
def ParentMapping.parentOf (mapping : ParentMapping) (name : String) : Option String :=
  (mapping.lookup name).join

/-- The entry of a known name maps it to its known parent: `services/taxonomy.py:387–390`. -/
def addName (names : List String) (mapping : ParentMapping) (fields : List (String × Json)) :
    Option String → Except Exc ParentMapping
  | none => .ok mapping
  | some name =>
    (knownName names (Json.get fields "parent")).map fun parent ↦ (name, parent) :: mapping

/-- One entry of the response: `services/taxonomy.py:380–390`. -/
def addEntry (names : List String) (mapping : ParentMapping) :
    Json → Except Exc ParentMapping
  | .obj fields => do
    let name ← knownName names (Json.get fields "name")
    addName names mapping fields name
  | _ => .ok mapping

/-- `_build_parent_mapping`: `services/taxonomy.py:363`. -/
def buildParentMapping (hierarchy : List Json) (names : List String) :
    Except Exc ParentMapping :=
  hierarchy.foldlM (addEntry names) []

/-- Only mapped names have a parent. -/
theorem ParentMapping.mem_of_parentOf {mapping : ParentMapping} {name parent : String}
    (h : mapping.parentOf name = some parent) : (name, some parent) ∈ mapping := by
  unfold parentOf at h
  cases hlookup : mapping.lookup name with
  | none => simp [hlookup] at h
  | some value =>
    obtain ⟨before, after, hsplit, _⟩ := List.lookup_eq_some_iff.mp hlookup
    rw [hlookup] at h
    change value = some parent at h
    rw [hsplit, h]
    simp

private theorem filter_visited_lt {mapping : ParentMapping} {visited : List String}
    {current parent : String} (hnew : current ∉ visited)
    (h : mapping.parentOf current = some parent) :
    (mapping.filter (·.1 ∉ current :: visited)).length <
      (mapping.filter (·.1 ∉ visited)).length := by
  have hsplit : mapping.filter (·.1 ∉ current :: visited) =
      (mapping.filter (·.1 ∉ visited)).filter (·.1 ≠ current) := by
    rw [List.filter_filter]
    apply List.filter_congr
    intro x _
    simp
  rw [hsplit, List.length_filter_lt_length_iff_exists]
  have hmem := ParentMapping.mem_of_parentOf h
  exact ⟨(current, some parent), List.mem_filter.mpr ⟨hmem, by simpa using hnew⟩, by simp⟩

/-- The walk of `_has_cycles` from a name: `services/taxonomy.py:430–436`. -/
def revisits (mapping : ParentMapping) (visited : List String) (current : String) : Bool :=
  if _hnew : current ∈ visited then true
  else
    match _h : mapping.parentOf current with
    | none => false
    | some parent => revisits mapping (current :: visited) parent
termination_by (mapping.filter (·.1 ∉ visited)).length
decreasing_by exact filter_visited_lt _hnew _h

/-- `_has_cycles`: `services/taxonomy.py:420`. -/
def hasCycles (mapping : ParentMapping) : Bool :=
  mapping.any fun entry ↦ revisits mapping [] entry.1

/-- `_exceeds_max_depth`; a walk stops when it has more levels than allowed:
`services/taxonomy.py:440`. -/
def exceedsMaxDepth (mapping : ParentMapping) (maxDepth : Int) : Bool :=
  mapping.any fun entry ↦ longerThan mapping.parentOf maxDepth.toNat (some entry.1)

/-- The links of the concepts are set anew; the keys stay. -/
def ConceptTable.setParents (t : ConceptTable) (f : Concept → Option String) : ConceptTable where
  rows := t.rows.map fun c ↦ { c with parentId := f c }
  nodup_id := by simpa [List.map_map, Function.comp_def] using t.nodup_id
  nodup_name := by simpa [List.map_map, Function.comp_def] using t.nodup_name

/-- `concept_map`: the concept of the user with the name. `services/taxonomy.py:315`. -/
def ConceptTable.named (t : ConceptTable) (userId name : String) : Option Concept :=
  t.rows.find? fun c ↦ (c.userId, c.name) = (userId, name)

/-- `_apply_parent_mapping`: a concept without mapped parent becomes a root.
`services/taxonomy.py:394`. -/
def applyParentMapping (t : ConceptTable) (userId : String) (mapping : ParentMapping) :
    ConceptTable :=
  t.setParents fun c ↦
    if c.userId = userId then
      (mapping.parentOf c.name).bind fun parent ↦ (t.named userId parent).map Concept.id
    else c.parentId

/-- How a rebuild ends. -/
inductive Outcome where
  | rebuilt
  | skipped
  | raised (e : Exc)
  deriving DecidableEq, Repr

/-- The checks of a response that is a list, and the update, which may fail at its commit:
`services/taxonomy.py:343–360`. -/
def rebuildFrom (t : ConceptTable) (userId : String) (maxDepth : Int) (hierarchy : List Json)
    (commit : Except Exc Unit) : Outcome × ConceptTable :=
  match buildParentMapping hierarchy ((t.rows.filter (·.userId = userId)).map Concept.name) with
  | .error e => (.raised e, t)
  | .ok mapping =>
    if hasCycles mapping then (.skipped, t)
    else if exceedsMaxDepth mapping maxDepth then (.skipped, t)
    else
      match commit with
      | .error e => (.raised e, t)
      | .ok () => (.rebuilt, applyParentMapping t userId mapping)

/-- `rebuild_taxonomy`, with the decoded answer of the provider, if there is one:
`services/taxonomy.py:291`. -/
def rebuildTaxonomy (t : ConceptTable) (userId : String) (maxDepth : Int)
    (answer : Except Exc (Option Json)) (commit : Except Exc Unit) : Outcome × ConceptTable :=
  if (t.rows.filter (·.userId = userId)).isEmpty then (.skipped, t)
  else
    match answer with
    | .error e => (.raised e, t)
    | .ok (some (.arr hierarchy)) => rebuildFrom t userId maxDepth hierarchy commit
    | .ok _ => (.skipped, t)

/-- The parent of a concept by their identifiers. -/
def ConceptTable.parent (t : ConceptTable) (i : String) : Option String :=
  (t.rows.find? (·.id = i)).bind Concept.parentId

/-- The links of a user are a forest: ancestors are concepts of the user, no concept is its
own ancestor, and a chain has no more levels than allowed; one level cannot be avoided. -/
structure Forest (t : ConceptTable) (userId : String) (maxDepth : Int) : Prop where
  within : ∀ c ∈ t.rows, c.userId = userId → ∀ n i, climb t.parent n c.id = some i →
    ∃ p ∈ t.rows, p.id = i ∧ p.userId = userId
  acyclic : ∀ c ∈ t.rows, c.userId = userId → ∀ n, climb t.parent (n + 1) c.id ≠ some c.id
  depth : ∀ c ∈ t.rows, c.userId = userId → ∀ n, climb t.parent n c.id ≠ none →
    (n : Int) + 1 ≤ max 1 maxDepth

section Mapping

variable {mapping : ParentMapping}

/-- A walk that does not revisit a name ends. -/
theorem ends_of_revisits {visited : List String} {current : String}
    (h : revisits mapping visited current = false) :
    ∃ n, climb mapping.parentOf n current = none := by
  fun_induction revisits mapping visited current with
  | case1 => cases h
  | case2 visited current _ hroot => exact ⟨1, by rw [climb_succ, hroot]; rfl⟩
  | case3 visited current _ parent hparent ih =>
    obtain ⟨n, hn⟩ := ih h
    exact ⟨n + 1, by rw [climb_succ, hparent]; exact hn⟩

/-- A walk that revisits a name has passed a cycle, if the visited names lead to it. -/
theorem cycle_of_revisits {visited : List String} {current : String}
    (hvisited : ∀ a ∈ visited, ∃ n, climb mapping.parentOf (n + 1) a = some current)
    (h : revisits mapping visited current = true) : ¬ Acyclic mapping.parentOf := by
  fun_induction revisits mapping visited current with
  | case1 visited current hmem =>
    obtain ⟨n, hn⟩ := hvisited current hmem
    exact fun hacyclic ↦ hacyclic current n hn
  | case2 => cases h
  | case3 visited current _ parent hparent ih =>
    refine ih ?_ h
    intro a ha
    rcases List.mem_cons.mp ha with rfl | hold
    · exact ⟨0, by rw [climb_succ, hparent]; rfl⟩
    · obtain ⟨n, hn⟩ := hvisited a hold
      exact ⟨n + 1, by rw [climb_succ_last, hn]; exact hparent⟩

/-- A name that is not mapped is a root. -/
theorem parentOf_eq_none {name : String} (h : ∀ entry ∈ mapping, entry.1 ≠ name) :
    mapping.parentOf name = none := by
  cases hparent : mapping.parentOf name with
  | none => rfl
  | some parent => exact absurd rfl (h _ (ParentMapping.mem_of_parentOf hparent))

/-- The cycle check rejects exactly the mappings with a cycle. -/
theorem hasCycles_iff : hasCycles mapping = true ↔ ¬ Acyclic mapping.parentOf := by
  constructor
  · intro h
    obtain ⟨entry, _, hrevisits⟩ := List.any_eq_true.mp h
    exact cycle_of_revisits (fun a ha ↦ by cases ha) hrevisits
  · intro h
    by_contra hnone
    apply h
    apply acyclic_of_ends
    intro name
    by_cases hkey : ∃ entry ∈ mapping, entry.1 = name
    · obtain ⟨entry, hentry, rfl⟩ := hkey
      have hwalk := List.any_eq_false.mp (eq_false_of_ne_true hnone) entry hentry
      exact ends_of_revisits (by simpa using hwalk)
    · simp only [not_exists, not_and] at hkey
      exact ⟨1, by rw [climb_succ, parentOf_eq_none hkey]; rfl⟩

/-- A mapping that passes the depth check has no chain above the bound. -/
theorem ends_of_exceedsMaxDepth {maxDepth : Int} (h : exceedsMaxDepth mapping maxDepth = false)
    (name : String) : climb mapping.parentOf (max 1 maxDepth.toNat) name = none := by
  by_cases hkey : ∃ entry ∈ mapping, entry.1 = name
  · obtain ⟨entry, hentry, rfl⟩ := hkey
    have hwalk := List.any_eq_false.mp h entry hentry
    have hend := (longerThan_eq_false _).mp (by simpa using hwalk)
    exact climb_eq_none_of_le _ hend (Nat.le_max_right _ _)
  · simp only [not_exists, not_and] at hkey
    have hend : climb mapping.parentOf 1 name = none := by
      rw [climb_succ, parentOf_eq_none hkey]
      rfl
    exact climb_eq_none_of_le _ hend (Nat.le_max_left _ _)

/-- A known name is one of the names. -/
theorem mem_of_knownName {names : List String} {value : Json} {name : String}
    (h : knownName names value = .ok (some name)) : name ∈ names := by
  unfold knownName Json.memOf at h
  grind

/-- Parents of the mapping are names of the map, so that each has its concept. -/
theorem mem_of_buildParentMapping {hierarchy : List Json} {names : List String}
    {name parent : String}
    (h : buildParentMapping hierarchy names = .ok mapping)
    (hmem : (name, some parent) ∈ mapping) : parent ∈ names := by
  suffices hfold : ∀ start, (∀ entry ∈ start, ∀ p, entry.2 = some p → p ∈ names) →
      hierarchy.foldlM (addEntry names) start = .ok mapping →
      ∀ entry ∈ mapping, ∀ p, entry.2 = some p → p ∈ names from
    hfold [] (fun _ hx ↦ by cases hx) h _ hmem _ rfl
  clear h hmem
  induction hierarchy with
  | nil =>
    intro start hstart h
    cases h
    exact hstart
  | cons entry rest ih =>
    intro start hstart h
    rw [List.foldlM_cons] at h
    obtain ⟨next, hnext, h⟩ := bind_eq_ok.mp h
    refine ih next ?_ h
    cases entry with
    | obj fields =>
      obtain ⟨known, _, hadd⟩ := bind_eq_ok.mp hnext
      cases known with
      | none =>
        cases hadd
        exact hstart
      | some known =>
        unfold addName at hadd
        cases hparent : knownName names (Json.get fields "parent") with
        | error e => simp [hparent, Except.map] at hadd
        | ok value =>
          simp only [hparent, Except.map, Except.ok.injEq] at hadd
          subst hadd
          intro x hx p hp
          rcases List.mem_cons.mp hx with rfl | hold
          · change value = some p at hp
            subst hp
            exact mem_of_knownName hparent
          · exact hstart x hold p hp
    | _ =>
      cases hnext
      exact hstart

end Mapping

section Links

variable {t : ConceptTable} {userId : String} {maxDepth : Int}

/-- The parent function reads the row. -/
theorem parent_of_mem {c : Concept} (hc : c ∈ t.rows) : t.parent c.id = c.parentId := by
  unfold ConceptTable.parent
  rw [Rows.find?_of_nodup t.nodup_id hc]
  rfl

/-- A concept found by name is a concept of the user with that name. -/
theorem named_eq_some {name : String} {c : Concept} (h : t.named userId name = some c) :
    c ∈ t.rows ∧ c.userId = userId ∧ c.name = name := by
  have hkey := List.find?_some h
  simp only [decide_eq_true_eq, Prod.mk.injEq] at hkey
  exact ⟨List.mem_of_find?_eq_some h, hkey⟩

/-- After the update an ancestor of a concept is the concept of the ancestor of its name. -/
theorem climb_applyParentMapping {mapping : ParentMapping} {c : Concept} {n : Nat} {i : String}
    (hc : c ∈ (applyParentMapping t userId mapping).rows) (hu : c.userId = userId)
    (h : climb (applyParentMapping t userId mapping).parent n c.id = some i) :
    ∃ p ∈ (applyParentMapping t userId mapping).rows, p.id = i ∧ p.userId = userId ∧
      climb mapping.parentOf n c.name = some p.name := by
  induction n generalizing i with
  | zero =>
    cases h
    exact ⟨c, hc, rfl, hu, rfl⟩
  | succ n ih =>
    rw [climb_succ_last] at h
    obtain ⟨j, hj, hparent⟩ := Option.bind_eq_some_iff.mp h
    obtain ⟨p, hp, rfl, hpu, hpname⟩ := ih hj
    rw [parent_of_mem hp] at hparent
    obtain ⟨p₀, hp₀, rfl⟩ := List.mem_map.mp hp
    simp only [if_pos hpu] at hparent
    obtain ⟨name, hname, hnamed⟩ := Option.bind_eq_some_iff.mp hparent
    obtain ⟨r, hr, rfl⟩ := Option.map_eq_some_iff.mp hnamed
    obtain ⟨hrmem, hru, rfl⟩ := named_eq_some hr
    refine ⟨_, List.mem_map_of_mem hrmem, rfl, hru, ?_⟩
    rw [climb_succ_last, hpname]
    exact hname

/-- A mapping without cycle that passes the depth check makes a forest. -/
theorem forest_applyParentMapping {mapping : ParentMapping} (hacyclic : Acyclic mapping.parentOf)
    (h : exceedsMaxDepth mapping maxDepth = false) :
    Forest (applyParentMapping t userId mapping) userId maxDepth where
  within := by
    intro c hc hu n i hclimb
    obtain ⟨p, hp, hi, hpu, _⟩ := climb_applyParentMapping hc hu hclimb
    exact ⟨p, hp, hi, hpu⟩
  acyclic := by
    intro c hc hu n hclimb
    obtain ⟨p, hp, hi, _, hname⟩ := climb_applyParentMapping hc hu hclimb
    have hsame : p = c :=
      Rows.eq_of_nodup (applyParentMapping t userId mapping).nodup_id hc hp hi
    subst hsame
    exact hacyclic p.name n hname
  depth := by
    intro c hc hu n hclimb
    obtain ⟨i, hi⟩ := Option.ne_none_iff_exists'.mp hclimb
    obtain ⟨p, _, _, _, hname⟩ := climb_applyParentMapping hc hu hi
    by_contra hdeep
    have hle : max 1 maxDepth.toNat ≤ n := by omega
    rw [climb_eq_none_of_le _ (ends_of_exceedsMaxDepth h c.name) hle] at hname
    cases hname

/-- All a rebuild can do: leave the table, or apply a mapping without cycle that respects
the bound and whose parents are concepts of the user. -/
theorem rebuildTaxonomy_cases (t : ConceptTable) (userId : String) (maxDepth : Int)
    (answer : Except Exc (Option Json)) (commit : Except Exc Unit) :
    ((rebuildTaxonomy t userId maxDepth answer commit).1 ≠ .rebuilt ∧
      (rebuildTaxonomy t userId maxDepth answer commit).2 = t) ∨
    ∃ mapping, rebuildTaxonomy t userId maxDepth answer commit =
        (.rebuilt, applyParentMapping t userId mapping) ∧
      Acyclic mapping.parentOf ∧ exceedsMaxDepth mapping maxDepth = false := by
  unfold rebuildTaxonomy
  split
  · exact .inl ⟨by simp, rfl⟩
  split
  · exact .inl ⟨by simp, rfl⟩
  · unfold rebuildFrom
    split
    · exact .inl ⟨by simp, rfl⟩
    · next mapping _ =>
      by_cases hcycles : hasCycles mapping = true
      · rw [if_pos hcycles]
        exact .inl ⟨by simp, rfl⟩
      by_cases hdeep : exceedsMaxDepth mapping maxDepth = true
      · rw [if_neg hcycles, if_pos hdeep]
        exact .inl ⟨by simp, rfl⟩
      rw [if_neg hcycles, if_neg hdeep]
      split
      · exact .inl ⟨by simp, rfl⟩
      · right
        refine ⟨mapping, rfl, ?_, eq_false_of_ne_true hdeep⟩
        by_contra hcycle
        exact hcycles (hasCycles_iff.mpr hcycle)
  · exact .inl ⟨by simp, rfl⟩

/-- A concept without parent has no ancestor but itself. -/
theorem climb_of_root {c : Concept} (hc : c ∈ t.rows) (hroot : c.parentId = none) (n : Nat) :
    climb t.parent (n + 1) c.id = none := by
  rw [climb_succ, parent_of_mem hc, hroot]
  rfl

/-- A forest whose rows are kept stays one when only roots are added. -/
theorem Forest.extend {t' : ConceptTable} (h : Forest t userId maxDepth)
    (hkeep : ∀ c ∈ t.rows, c.userId = userId → c ∈ t'.rows)
    (hnew : ∀ c ∈ t'.rows, c.userId = userId → c ∈ t.rows ∨ c.parentId = none) :
    Forest t' userId maxDepth := by
  have hclimb : ∀ c ∈ t.rows, c.userId = userId → ∀ n,
      climb t'.parent n c.id = climb t.parent n c.id := by
    intro c hc hu
    apply climb_congr t.parent (h.within c hc hu)
    rintro _ ⟨p, hp, rfl, hpu⟩
    rw [parent_of_mem hp, parent_of_mem (hkeep p hp hpu)]
  refine ⟨?_, ?_, ?_⟩
  · intro c hc hu n i hi
    rcases hnew c hc hu with hold | hroot
    · rw [hclimb c hold hu] at hi
      obtain ⟨p, hp, hpi, hpu⟩ := h.within c hold hu n i hi
      exact ⟨p, hkeep p hp hpu, hpi, hpu⟩
    · cases n with
      | zero => exact ⟨c, hc, Option.some.inj hi, hu⟩
      | succ n =>
        rw [climb_of_root hc hroot] at hi
        cases hi
  · intro c hc hu n
    rcases hnew c hc hu with hold | hroot
    · rw [hclimb c hold hu]
      exact h.acyclic c hold hu n
    · simp [climb_of_root hc hroot]
  · intro c hc hu n hn
    rcases hnew c hc hu with hold | hroot
    · rw [hclimb c hold hu] at hn
      exact h.depth c hold hu n hn
    · cases n with
      | zero => omega
      | succ n => exact absurd (climb_of_root hc hroot n) hn

/-- A rebuild keeps the forests of all users. -/
theorem Forest.rebuild {owner : String} {answer : Except Exc (Option Json)}
    {commit : Except Exc Unit} (h : Forest t owner maxDepth) :
    Forest (rebuildTaxonomy t userId maxDepth answer commit).2 owner maxDepth := by
  rcases rebuildTaxonomy_cases t userId maxDepth answer commit with
    ⟨_, hsame⟩ | ⟨mapping, heq, hacyclic, hdepth⟩
  · rw [hsame]
    exact h
  rw [heq]
  by_cases hown : owner = userId
  · subst hown
    exact forest_applyParentMapping hacyclic hdepth
  · -- the rows of another user are written back as they were
    apply h.extend
    · intro c hc hu
      have hother : c.userId ≠ userId := fun heq ↦ hown (hu.symm.trans heq)
      exact List.mem_map.mpr ⟨c, hc, by simp only [if_neg hother]⟩
    · intro c hc hu
      left
      obtain ⟨c₀, hc₀, rfl⟩ := List.mem_map.mp hc
      have hother : c₀.userId ≠ userId := fun heq ↦ hown (hu.symm.trans heq)
      simpa only [if_neg hother] using hc₀

end Links

/-- For every answer and every table: a rebuild that applies the answer leaves a forest of
the user's concepts, one that does not leaves the table, and forests stay in either case. -/
theorem rebuildTaxonomy_forest (t : ConceptTable) (userId : String) (maxDepth : Int)
    (answer : Except Exc (Option Json)) (commit : Except Exc Unit) :
    ((rebuildTaxonomy t userId maxDepth answer commit).1 = .rebuilt →
        Forest (rebuildTaxonomy t userId maxDepth answer commit).2 userId maxDepth) ∧
      ((rebuildTaxonomy t userId maxDepth answer commit).1 ≠ .rebuilt →
        (rebuildTaxonomy t userId maxDepth answer commit).2 = t) ∧
      ∀ owner, Forest t owner maxDepth →
        Forest (rebuildTaxonomy t userId maxDepth answer commit).2 owner maxDepth := by
  refine ⟨fun hdone ↦ ?_, fun hnot ↦ ?_, fun owner h ↦ h.rebuild⟩
  · rcases rebuildTaxonomy_cases t userId maxDepth answer commit with
      ⟨hnot, _⟩ | ⟨mapping, heq, hacyclic, hdepth⟩
    · exact absurd hdone hnot
    · rw [heq]
      exact forest_applyParentMapping hacyclic hdepth
  · rcases rebuildTaxonomy_cases t userId maxDepth answer commit with
      ⟨_, hsame⟩ | ⟨mapping, heq, _⟩
    · exact hsame
    · rw [heq] at hnot
      exact absurd rfl hnot

/-- One insert of `upsert_concepts`: a concept with a known name is left, a new one is a root
with an identifier of its own. `services/taxonomy.py:104`. -/
def ConceptTable.insert (t : ConceptTable) (userId name id : String) : Option ConceptTable :=
  if hname : t.rows.any fun c ↦ (c.userId, c.name) = (userId, name) then some t
  else if hid : t.rows.any (·.id = id) then none
  else some {
    rows := t.rows ++ [⟨id, userId, name, none⟩]
    nodup_id := by
      rw [List.map_append, List.nodup_append]
      exact ⟨t.nodup_id, by simp, by simpa using hid⟩
    nodup_name := by
      rw [List.map_append, List.nodup_append]
      exact ⟨t.nodup_name, by simp, by simpa using hname⟩ }

/-- An insert keeps the forests of all users. -/
theorem Forest.insert {t t' : ConceptTable} {owner userId name id : String} {maxDepth : Int}
    (h : Forest t owner maxDepth) (hinsert : t.insert userId name id = some t') :
    Forest t' owner maxDepth := by
  unfold ConceptTable.insert at hinsert
  split at hinsert
  · cases hinsert
    exact h
  split at hinsert
  · cases hinsert
  · cases hinsert
    apply h.extend
    · exact fun c hc _ ↦ List.mem_append_left _ hc
    · intro c hc _
      rcases List.mem_append.mp hc with hold | hnew
      · exact .inl hold
      · rw [List.mem_singleton.mp hnew]
        exact .inr rfl

/-- The operations that write concepts. -/
inductive Write where
  | insert (userId name id : String)
  | rebuild (userId : String) (answer : Except Exc (Option Json)) (commit : Except Exc Unit)

/-- The concept table under inserts and rebuilds with one configured depth. -/
def taxonomy (maxDepth : Int) : Machine ConceptTable Write where
  step t
    | .insert userId name id => t.insert userId name id
    | .rebuild userId answer commit =>
      some (rebuildTaxonomy t userId maxDepth answer commit).2

/-- Before any concept is written. -/
def ConceptTable.empty : ConceptTable := ⟨[], List.nodup_nil, List.nodup_nil⟩

/-- In every reachable state the links of every user are a forest. -/
theorem taxonomy_always_forest (maxDepth : Int) (writes : List Write) :
    (taxonomy maxDepth).Always (fun t ↦ ∀ owner, Forest t owner maxDepth) .empty writes := by
  apply (taxonomy maxDepth).always_of_invariant
  · intro t write t' h hstep owner
    cases write with
    | insert userId name id => exact (h owner).insert hstep
    | rebuild userId answer commit =>
      cases hstep
      exact (h owner).rebuild
  · intro owner
    refine ⟨?_, ?_, ?_⟩ <;> intro c hc <;> cases hc

end WikiMind.Wiki
