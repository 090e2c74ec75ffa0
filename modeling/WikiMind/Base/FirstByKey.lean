import Mathlib.Data.List.Basic

/-!
# Rows inserted by key

Library for loops that append a row to a list unless a row of its key is there. What they leave
are the rows at the start and, for each new key, the first row that has it.
-/

namespace WikiMind.Base.Rows

variable {α κ : Type} [DecidableEq κ] {key : α → κ}

/-- Append a row, unless a row has its key. -/
def insertNew (key : α → κ) (rows : List α) (row : α) : List α :=
  if rows.any (key · = key row) then rows else rows ++ [row]

private theorem mem_insertNew {rows : List α} {row r : α} :
    r ∈ insertNew key rows row ↔ r ∈ rows ∨ (∀ x ∈ rows, key x ≠ key row) ∧ r = row := by
  unfold insertNew
  split
  · next htaken =>
    obtain ⟨x, hx, hkey⟩ := List.any_eq_true.mp htaken
    constructor
    · exact .inl
    · rintro (hold | ⟨hfree, -⟩)
      · exact hold
      · exact absurd (of_decide_eq_true hkey) (hfree x hx)
  · next hfree =>
    have hfree : ∀ x ∈ rows, key x ≠ key row := by simpa using hfree
    rw [List.mem_append, List.mem_singleton, and_iff_right hfree]

/-- No row has a key after an insertion that had it neither before nor in the new row. -/
theorem forall_insertNew_ne {rows : List α} {row : α} {k : κ} :
    (∀ x ∈ insertNew key rows row, key x ≠ k) ↔ (∀ x ∈ rows, key x ≠ k) ∧ key row ≠ k := by
  constructor
  · intro h
    refine ⟨fun x hx ↦ h x (mem_insertNew.mpr (.inl hx)), fun hrow ↦ ?_⟩
    by_cases hfree : ∀ x ∈ rows, key x ≠ key row
    · exact h row (mem_insertNew.mpr (.inr ⟨hfree, rfl⟩)) hrow
    · push Not at hfree
      obtain ⟨x, hx, hkey⟩ := hfree
      exact h x (mem_insertNew.mpr (.inl hx)) (hkey.trans hrow)
  · rintro ⟨hrows, hrow⟩ x hx
    rcases mem_insertNew.mp hx with hold | ⟨-, rfl⟩
    · exact hrows x hold
    · exact hrow

/-- A row is there after a run of insertions if it was before, or is the first of a key that
was not. -/
theorem mem_foldl_insertNew {rows new : List α} {r : α} :
    r ∈ new.foldl (insertNew key) rows ↔
      r ∈ rows ∨ (∀ x ∈ rows, key x ≠ key r) ∧ new.find? (key · = key r) = some r := by
  induction new generalizing rows with
  | nil => simp
  | cons row new ih =>
    rw [List.foldl_cons, ih, mem_insertNew, forall_insertNew_ne]
    by_cases hkey : key row = key r
    · -- the first row of this key is `row`, whatever follows
      rw [List.find?_cons_of_pos (by simpa using hkey), hkey]
      simp only [ne_eq, not_true_eq_false, and_false, false_and, or_false, Option.some.injEq,
        eq_comm]
    · rw [List.find?_cons_of_neg (by simpa using hkey)]
      have hother : r ≠ row := fun h ↦ hkey (h ▸ rfl)
      simp [hkey, hother]

/-- Keys stay distinct. -/
theorem nodup_insertNew {rows : List α} (h : (rows.map key).Nodup) (row : α) :
    ((insertNew key rows row).map key).Nodup := by
  unfold insertNew
  split
  · exact h
  · next hfree =>
    have hfree : ∀ x ∈ rows, key x ≠ key row := by simpa using hfree
    rw [List.map_append, List.nodup_append]
    refine ⟨h, by simp, ?_⟩
    intro k hk k' hk'
    obtain ⟨x, hx, rfl⟩ := List.mem_map.mp hk
    rw [List.map_singleton, List.mem_singleton] at hk'
    rw [hk']
    exact hfree x hx

/-- Insertions keep the keys distinct. -/
theorem nodup_foldl_insertNew {rows : List α} (h : (rows.map key).Nodup) (new : List α) :
    ((new.foldl (insertNew key) rows).map key).Nodup := by
  induction new generalizing rows with
  | nil => exact h
  | cons row new ih => exact ih (nodup_insertNew h row)

/-- Rows of another type with the same keys are inserted alike. -/
theorem map_foldl_insertNew {β : Type} {key' : β → κ} {f : α → β} (hf : ∀ x, key' (f x) = key x)
    (rows new : List α) :
    (new.foldl (insertNew key) rows).map f =
      (new.map f).foldl (insertNew key') (rows.map f) := by
  induction new generalizing rows with
  | nil => rfl
  | cons row new ih =>
    rw [List.foldl_cons, ih, List.map_cons, List.foldl_cons]
    congr 1
    unfold insertNew
    simp only [List.any_map, Function.comp_def, hf, apply_ite (List.map f), List.map_append,
      List.map_singleton]

/-- A dictionary of the rows that have a key, of which the first is kept. -/
def indexFirst (key : α → Option κ) (rows : List α) : List (κ × α) :=
  rows.foldl (fun dict row ↦
    match key row with
    | none => dict
    | some k => insertNew Prod.fst dict (k, row)) []

/-- It finds the first row of a key. -/
theorem lookup_indexFirst (key : α → Option κ) (rows : List α) (k : κ) :
    (indexFirst key rows).lookup k = rows.find? (key · = some k) := by
  have hrun : ∀ dict : List (κ × α), (rows.foldl (fun dict row ↦
      match key row with
      | none => dict
      | some k => insertNew Prod.fst dict (k, row)) dict).lookup k =
        (dict.lookup k).or (rows.find? (key · = some k)) := by
    induction rows with
    | nil => simp
    | cons row rows ih =>
      intro dict
      rw [List.foldl_cons, ih, List.find?_cons]
      cases hkey : key row with
      | none => simp
      | some k' =>
        dsimp only
        unfold insertNew
        split
        · next htaken =>
          by_cases hk : k' = k
          · -- the key is there already, so the row does not count
            obtain ⟨value, hvalue⟩ : ∃ value, dict.lookup k = some value := by
              obtain ⟨x, hx, hx'⟩ := List.any_eq_true.mp htaken
              have hxk : x.1 = k := (of_decide_eq_true hx').trans hk
              cases hlookup : dict.lookup k with
              | some value => exact ⟨value, rfl⟩
              | none =>
                have hne := List.lookup_eq_none_iff.mp hlookup x hx
                simp [hxk] at hne
            simp [hvalue]
          · simp [hk]
        · rw [List.lookup_append]
          by_cases hk : k' = k
          · subst hk
            simp
          · have hne : (k == k') = false := by simpa using Ne.symm hk
            simp [List.lookup_cons, hne, hk]
  simpa [indexFirst] using hrun []

end WikiMind.Base.Rows
