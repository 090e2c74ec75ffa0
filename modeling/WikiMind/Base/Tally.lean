import Mathlib.Algebra.BigOperators.Group.List.Basic
import Mathlib.Algebra.GroupWithZero.Nat
import Mathlib.Data.List.Nodup

/-!
# Counts by key

Library for dictionaries of counts in the order in which their keys came up: `bump` is
`counts[k] = counts.get(k, 0) + n`. A run of them counts what a sum over the run does, and has
each key once.
-/

namespace WikiMind.Base.Tally

variable {α κ : Type} [DecidableEq κ]

/-- `counts[k] = counts.get(k, 0) + n`. -/
def bump (counts : List (κ × Nat)) (k : κ) (n : Nat) : List (κ × Nat) :=
  match counts with
  | [] => [(k, n)]
  | entry :: counts =>
    if entry.1 = k then (k, entry.2 + n) :: counts else entry :: bump counts k n

/-- `counts.get(k, 0)`. -/
def get (counts : List (κ × Nat)) (k : κ) : Nat :=
  match counts with
  | [] => 0
  | entry :: counts => if entry.1 = k then entry.2 else get counts k

@[simp] theorem get_nil (k : κ) : get [] k = 0 := rfl

private theorem get_bump (counts : List (κ × Nat)) (k : κ) (n : Nat) (j : κ) :
    get (bump counts k n) j = get counts j + if j = k then n else 0 := by
  induction counts with
  | nil =>
    simp only [bump, get, eq_comm]
    split
    · simp
    · rfl
  | cons entry counts ih =>
    by_cases hk : entry.1 = k
    · subst hk
      by_cases hj : j = entry.1
      · subst hj
        simp [bump, get]
      · simp [bump, get, hj, Ne.symm hj]
    · by_cases hj : entry.1 = j
      · subst hj
        simp [bump, get, hk]
      · simp [bump, get, hk, hj, ih]

private theorem mem_keys_bump {counts : List (κ × Nat)} {k j : κ} {n : Nat} :
    j ∈ (bump counts k n).map Prod.fst ↔ j ∈ counts.map Prod.fst ∨ j = k := by
  induction counts with
  | nil => simp [bump]
  | cons entry counts ih =>
    by_cases hk : entry.1 = k
    · subst hk
      simp only [bump, if_true, List.map_cons, List.mem_cons]
      tauto
    · simp only [bump, hk, if_false, List.map_cons, List.mem_cons, ih, or_assoc]

private theorem nodup_bump {counts : List (κ × Nat)} (h : (counts.map Prod.fst).Nodup) (k : κ)
    (n : Nat) :
    ((bump counts k n).map Prod.fst).Nodup := by
  induction counts with
  | nil => simp [bump]
  | cons entry counts ih =>
    rw [List.map_cons, List.nodup_cons] at h
    by_cases hk : entry.1 = k
    · subst hk
      simpa [bump] using h
    · simp only [bump, if_neg hk, List.map_cons, List.nodup_cons, mem_keys_bump, not_or]
      exact ⟨⟨h.1, hk⟩, ih h.2⟩

/-- An entry of counts with distinct keys is the count of its key. -/
theorem get_of_mem {counts : List (κ × Nat)} (h : (counts.map Prod.fst).Nodup)
    {entry : κ × Nat} (hmem : entry ∈ counts) : get counts entry.1 = entry.2 := by
  induction counts with
  | nil => cases hmem
  | cons first counts ih =>
    rw [List.map_cons, List.nodup_cons] at h
    rcases List.mem_cons.mp hmem with rfl | hmem
    · simp [get]
    · have hne : first.1 ≠ entry.1 := fun heq ↦ h.1 (heq ▸ List.mem_map_of_mem hmem)
      simp only [get, hne, if_false]
      exact ih h.2 hmem

private theorem sum_bump (counts : List (κ × Nat)) (k : κ) (n : Nat) :
    ((bump counts k n).map Prod.snd).sum = (counts.map Prod.snd).sum + n := by
  induction counts with
  | nil => simp [bump]
  | cons entry counts ih =>
    by_cases hk : entry.1 = k
    · simp [bump, hk, Nat.add_right_comm]
    · simp [bump, hk, ih, Nat.add_assoc]

/-- Each count is read at its key. -/
theorem map_get_keys {counts : List (κ × Nat)} (h : (counts.map Prod.fst).Nodup) :
    (counts.map Prod.fst).map (get counts) = counts.map Prod.snd := by
  rw [List.map_map]
  exact List.map_congr_left fun _ hentry ↦ get_of_mem h hentry

/-- A loop that counts some of its items, each under its key. -/
def tally (key : α → κ) (weight : α → Nat) (counted : α → Bool) (items : List α) :
    List (κ × Nat) :=
  items.foldl (fun counts a ↦ if counted a then bump counts (key a) (weight a) else counts) []

section Run
variable {key : α → κ} {weight : α → Nat} {counted : α → Bool}

private theorem run_foldl (items : List α) (counts : List (κ × Nat))
    (h : (counts.map Prod.fst).Nodup) :
    let after := items.foldl
      (fun counts a ↦ if counted a then bump counts (key a) (weight a) else counts) counts
    (after.map Prod.fst).Nodup ∧
      (∀ k, get after k = get counts k +
        ((items.filter fun a ↦ counted a ∧ key a = k).map weight).sum) ∧
      ∀ k, k ∈ after.map Prod.fst ↔ k ∈ counts.map Prod.fst ∨
        ∃ a ∈ items, counted a ∧ key a = k := by
  induction items generalizing counts with
  | nil => exact ⟨h, by simp, by simp⟩
  | cons a items ih =>
    by_cases ha : counted a = true
    · obtain ⟨hnodup, hget, hmem⟩ := ih (bump counts (key a) (weight a)) (nodup_bump h _ _)
      simp only [List.foldl_cons, ha, if_true]
      refine ⟨hnodup, fun k ↦ ?_, fun k ↦ ?_⟩
      · rw [hget, get_bump, List.filter_cons]
        by_cases hk : key a = k
        · subst hk
          simp [ha, Nat.add_assoc]
        · simp [ha, hk, Ne.symm hk]
      · rw [hmem, mem_keys_bump, List.exists_mem_cons_iff]
        simp only [ha, true_and, eq_comm (a := k), or_assoc]
    · obtain ⟨hnodup, hget, hmem⟩ := ih counts h
      simp only [List.foldl_cons, ha]
      refine ⟨hnodup, fun k ↦ ?_, fun k ↦ ?_⟩
      · simpa [ha] using hget k
      · simpa [ha] using hmem k

/-- Each key is counted once. -/
theorem nodup_tally (items : List α) :
    ((tally key weight counted items).map Prod.fst).Nodup :=
  (run_foldl items [] List.nodup_nil).1

/-- The count of a key is the sum over the items that have it. -/
theorem get_tally (items : List α) (k : κ) : get (tally key weight counted items) k =
    ((items.filter fun a ↦ counted a ∧ key a = k).map weight).sum := by
  have hget := (@run_foldl _ _ _ key weight counted items [] List.nodup_nil).2.1 k
  rwa [get_nil, Nat.zero_add] at hget

/-- The keys are those of the items that are counted. -/
theorem mem_keys_tally {items : List α} {k : κ} :
    k ∈ (tally key weight counted items).map Prod.fst ↔ ∃ a ∈ items, counted a ∧ key a = k := by
  have hmem := (@run_foldl _ _ _ key weight counted items [] List.nodup_nil).2.2 k
  rwa [List.map_nil, or_iff_right List.not_mem_nil] at hmem

/-- All counts together are what was counted. -/
theorem sum_tally (items : List α) : ((tally key weight counted items).map Prod.snd).sum =
    ((items.filter counted).map weight).sum := by
  have hrun : ∀ counts : List (κ × Nat), ((items.foldl
      (fun counts a ↦ if counted a then bump counts (key a) (weight a) else counts)
      counts).map Prod.snd).sum =
        (counts.map Prod.snd).sum + ((items.filter counted).map weight).sum := by
    induction items with
    | nil => simp
    | cons a items ih =>
      intro counts
      by_cases ha : counted a = true
      · simp only [List.foldl_cons, ha, if_true, ih, sum_bump, List.filter_cons, List.map_cons,
          List.sum_cons, Nat.add_assoc]
      · simp [ha, ih]
  simpa [tally] using hrun []

end Run

/-- Items without weight do not matter to a sum. -/
theorem sum_filter_congr {p q : α → Bool} {weight : α → Nat} {items : List α}
    (h : ∀ a ∈ items, 0 < weight a → p a = q a) :
    ((items.filter p).map weight).sum = ((items.filter q).map weight).sum := by
  induction items with
  | nil => rfl
  | cons a items ih =>
    have hrest := ih fun b hb ↦ h b (List.mem_cons_of_mem _ hb)
    rcases Nat.eq_zero_or_pos (weight a) with hzero | hpos
    · cases hp : p a <;> cases hq : q a <;> simp [hp, hq, hzero, hrest]
    · have hsame := h a List.mem_cons_self hpos
      cases hp : p a <;> rw [hp] at hsame <;> simp [hp, ← hsame, hrest]

private theorem mem_keys_of_get_pos {counts : List (κ × Nat)} {k : κ} (h : 0 < get counts k) :
    k ∈ counts.map Prod.fst := by
  induction counts with
  | nil => cases h
  | cons entry counts ih =>
    by_cases hk : entry.1 = k
    · exact hk ▸ List.mem_cons_self
    · rw [get, if_neg hk] at h
      exact List.mem_cons_of_mem _ (ih h)

/-- The counts of different keys, all keys of the dictionary among them, add up to all of it. -/
theorem sum_get {counts : List (κ × Nat)} (h : (counts.map Prod.fst).Nodup) {ks : List κ}
    (hks : ks.Nodup) (hsub : counts.map Prod.fst ⊆ ks) :
    (ks.map (get counts)).sum = (counts.map Prod.snd).sum := by
  have hkept : ((ks.filter fun _ ↦ true).map (get counts)).sum =
      ((ks.filter fun k ↦ k ∈ counts.map Prod.fst).map (get counts)).sum :=
    sum_filter_congr fun k _ hpos ↦ (decide_eq_true (mem_keys_of_get_pos hpos)).symm
  have hperm : (ks.filter fun k ↦ k ∈ counts.map Prod.fst).Perm (counts.map Prod.fst) := by
    rw [List.perm_ext_iff_of_nodup (hks.filter _) h]
    intro k
    rw [List.mem_filter, decide_eq_true_eq]
    exact ⟨And.right, fun hk ↦ ⟨hsub hk, hk⟩⟩
  rw [List.filter_true] at hkept
  rw [hkept, (hperm.map _).sum_eq, map_get_keys h]

end WikiMind.Base.Tally
