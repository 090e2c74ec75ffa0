import Mathlib.Data.List.Induction
import Mathlib.Data.List.Nodup

/-!
# Dictionaries of sets

Library for dictionaries that collect the values of each key: `push` is
`d.setdefault(k, []).append(v)` and `add` is `d.setdefault(k, set()).add(v)`. A set is the list of
its elements in the order in which they were added. What a run collects are the pairs of the run.
-/

namespace WikiMind.Base.Multimap

variable {κ ν : Type} [DecidableEq κ]

/-- `d[k]`, for a key that is there. -/
def get (d : List (κ × List ν)) (k : κ) : List ν :=
  match d with
  | [] => []
  | entry :: d => if entry.1 = k then entry.2 else get d k

/-- Each key is there once, and each value once under its key. -/
structure Sound (d : List (κ × List ν)) : Prop where
  keys : (d.map Prod.fst).Nodup
  values : ∀ entry ∈ d, entry.2.Nodup

/-- An entry holds the values of its key. -/
theorem get_of_mem {d : List (κ × List ν)} (h : (d.map Prod.fst).Nodup) {entry : κ × List ν}
    (hmem : entry ∈ d) : get d entry.1 = entry.2 := by
  induction d with
  | nil => cases hmem
  | cons first d ih =>
    rw [List.map_cons, List.nodup_cons] at h
    rcases List.mem_cons.mp hmem with rfl | hmem
    · simp [get]
    · have hne : first.1 ≠ entry.1 := fun heq ↦ h.1 (heq ▸ List.mem_map_of_mem hmem)
      simp only [get, if_neg hne]
      exact ih h.2 hmem

/-- The values of a key are distinct. -/
theorem nodup_get {d : List (κ × List ν)} (h : Sound d) (k : κ) : (get d k).Nodup := by
  obtain ⟨hkeys, hvalues⟩ := h
  induction d with
  | nil => exact List.nodup_nil
  | cons entry d ih =>
    rw [List.map_cons, List.nodup_cons] at hkeys
    rw [List.forall_mem_cons] at hvalues
    unfold get
    split
    · exact hvalues.1
    · exact ih hkeys.2 hvalues.2

/-- `d.setdefault(k, []).append(v)`. -/
def push (d : List (κ × List ν)) (k : κ) (v : ν) : List (κ × List ν) :=
  match d with
  | [] => [(k, [v])]
  | entry :: d => if entry.1 = k then (k, entry.2 ++ [v]) :: d else entry :: push d k v

/-- The dictionary of the values of each key. -/
def group (pairs : List (κ × ν)) : List (κ × List ν) :=
  pairs.foldl (fun d p ↦ push d p.1 p.2) []

private theorem get_push (d : List (κ × List ν)) (k : κ) (v : ν) (j : κ) :
    get (push d k v) j = get d j ++ if j = k then [v] else [] := by
  induction d with
  | nil =>
    by_cases hj : k = j
    · subst hj
      simp [push, get]
    · simp [push, get, hj, Ne.symm hj]
  | cons entry d ih =>
    by_cases hk : entry.1 = k
    · subst hk
      by_cases hj : entry.1 = j
      · subst hj
        simp [push, get]
      · simp [push, get, hj, Ne.symm hj]
    · by_cases hj : entry.1 = j
      · subst hj
        simp [push, get, hk]
      · simp only [push, get, if_neg hk, if_neg hj, ih]

/-- A key has the values of its pairs, in their order. -/
theorem get_group (pairs : List (κ × ν)) (k : κ) :
    get (group pairs) k = (pairs.filter (·.1 = k)).map Prod.snd := by
  unfold group
  induction pairs using List.reverseRecOn with
  | nil => rfl
  | append_singleton pairs p ih =>
    rw [List.foldl_append, List.foldl_cons, List.foldl_nil, get_push, ih, List.filter_append,
      List.map_append, List.filter_singleton]
    by_cases hk : p.1 = k
    · simp [hk]
    · simp [hk, Ne.symm hk]

variable [DecidableEq ν]

/-- `d.setdefault(k, set()).add(v)`. -/
def add (d : List (κ × List ν)) (k : κ) (v : ν) : List (κ × List ν) :=
  match d with
  | [] => [(k, [v])]
  | entry :: d =>
    if entry.1 = k then (k, if v ∈ entry.2 then entry.2 else entry.2 ++ [v]) :: d
    else entry :: add d k v

/-- The dictionary of the pairs. -/
def collect (pairs : List (κ × ν)) : List (κ × List ν) :=
  pairs.foldl (fun d p ↦ add d p.1 p.2) []

private theorem mem_get_add {d : List (κ × List ν)} {k j : κ} {v x : ν} :
    x ∈ get (add d k v) j ↔ x ∈ get d j ∨ (j = k ∧ x = v) := by
  induction d with
  | nil =>
    by_cases hj : k = j
    · subst hj
      simp [add, get]
    · simp [add, get, hj, Ne.symm hj]
  | cons entry d ih =>
    by_cases hk : entry.1 = k
    · subst hk
      by_cases hj : entry.1 = j
      · subst hj
        by_cases hv : v ∈ entry.2
        · simp only [add, get, if_true, hv, true_and]
          exact ⟨.inl, fun h ↦ h.elim id fun hx ↦ hx ▸ hv⟩
        · simp [add, get, hv]
      · simp [add, get, hj, Ne.symm hj]
    · by_cases hj : entry.1 = j
      · subst hj
        simp [add, get, hk]
      · simp only [add, get, if_neg hk, if_neg hj, ih]

private theorem mem_keys_add {d : List (κ × List ν)} {k j : κ} {v : ν} :
    j ∈ (add d k v).map Prod.fst ↔ j ∈ d.map Prod.fst ∨ j = k := by
  induction d with
  | nil => simp [add]
  | cons entry d ih =>
    by_cases hk : entry.1 = k
    · subst hk
      simp only [add, if_true, List.map_cons, List.mem_cons]
      tauto
    · simp only [add, if_neg hk, List.map_cons, List.mem_cons, ih, or_assoc]

/-- An addition keeps keys and values distinct. -/
theorem Sound.add {d : List (κ × List ν)} (h : Sound d) (k : κ) (v : ν) : Sound (add d k v) := by
  obtain ⟨hkeys, hvalues⟩ := h
  induction d with
  | nil => exact ⟨by simp [Multimap.add], by simp [Multimap.add]⟩
  | cons entry d ih =>
    rw [List.map_cons, List.nodup_cons] at hkeys
    rw [List.forall_mem_cons] at hvalues
    by_cases hk : entry.1 = k
    · subst hk
      refine ⟨by simpa [Multimap.add] using hkeys, ?_⟩
      simp only [Multimap.add, if_true, List.forall_mem_cons]
      refine ⟨?_, hvalues.2⟩
      by_cases hv : v ∈ entry.2
      · rw [if_pos hv]
        exact hvalues.1
      · rw [if_neg hv, List.nodup_append]
        exact ⟨hvalues.1, List.nodup_singleton v, fun a ha b hb heq ↦
          hv (List.mem_singleton.mp hb ▸ heq ▸ ha)⟩
    · obtain ⟨hrest, hrestValues⟩ := ih hkeys.2 hvalues.2
      constructor
      · simp only [Multimap.add, if_neg hk, List.map_cons, List.nodup_cons, mem_keys_add, not_or]
        exact ⟨⟨hkeys.1, hk⟩, hrest⟩
      · simp only [Multimap.add, if_neg hk, List.forall_mem_cons]
        exact ⟨hvalues.1, hrestValues⟩

/-- A run of additions collects the pairs. -/
theorem collect_spec (pairs : List (κ × ν)) :
    Sound (collect pairs) ∧ (∀ k v, v ∈ get (collect pairs) k ↔ (k, v) ∈ pairs) ∧
      ∀ k, k ∈ (collect pairs).map Prod.fst ↔ ∃ v, (k, v) ∈ pairs := by
  unfold collect
  induction pairs using List.reverseRecOn with
  | nil => exact ⟨⟨List.nodup_nil, by simp⟩, by simp [get], by simp⟩
  | append_singleton pairs p ih =>
    obtain ⟨hsound, hget, hkeys⟩ := ih
    rw [List.foldl_append, List.foldl_cons, List.foldl_nil]
    refine ⟨hsound.add p.1 p.2, fun k v ↦ ?_, fun k ↦ ?_⟩
    · rw [mem_get_add, hget, List.mem_append, List.mem_singleton, Prod.ext_iff]
    · rw [mem_keys_add, hkeys]
      constructor
      · rintro (⟨v, hv⟩ | rfl)
        · exact ⟨v, List.mem_append_left _ hv⟩
        · exact ⟨p.2, List.mem_append_right _ List.mem_cons_self⟩
      · rintro ⟨v, hv⟩
        rcases List.mem_append.mp hv with hv | hv
        · exact .inl ⟨v, hv⟩
        · exact .inr (congrArg Prod.fst (List.mem_singleton.mp hv))

end WikiMind.Base.Multimap
