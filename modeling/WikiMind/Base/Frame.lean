import Mathlib.Data.List.Forall2
import WikiMind.Base.Rows

/-!
# What an operation changes

Library for frame conditions of tables. An operation changes only rows of a set when each
row is as it was, or was in the set and has stayed there. Nothing here names the application.
-/

namespace WikiMind.Base.Rows

variable {α κ : Type}

/-- Row by row, the second table is the first, up to rows that are in a set in both. -/
def ChangesOnly (own : α → Prop) (rows rows' : List α) : Prop :=
  List.Forall₂ (fun r r' ↦ r' = r ∨ own r ∧ own r') rows rows'

/-- Rows that stay are a change. -/
theorem ChangesOnly.refl (own : α → Prop) (rows : List α) : ChangesOnly own rows rows :=
  List.forall₂_same.mpr fun _ _ ↦ .inl rfl

/-- A row outside of the set is still there. -/
theorem ChangesOnly.mem {own : α → Prop} {rows rows' : List α} (h : ChangesOnly own rows rows')
    {r : α} (hr : r ∈ rows) (hother : ¬ own r) : r ∈ rows' := by
  unfold ChangesOnly at h
  induction h with
  | nil => exact hr
  | cons hrow _ ih =>
    rcases List.mem_cons.mp hr with rfl | hrest
    · have hsame := hrow.resolve_right fun hown ↦ hother hown.1
      exact hsame ▸ List.mem_cons_self ..
    · exact List.mem_cons_of_mem _ (ih hrest)

/-- A rewrite changes only rows of the set if what it does to each selected row is nothing, or
the row is of the set and stays there. -/
theorem changesOnly_modify {own : α → Prop} {p : α → Bool} {f : α → α} {rows : List α} :
    ChangesOnly own rows (modify p f rows) ↔
      ∀ r ∈ rows, p r = true → f r = r ∨ own r ∧ own (f r) := by
  unfold ChangesOnly modify
  rw [List.forall₂_map_right_iff, List.forall₂_same]
  refine forall₂_congr fun r _ ↦ ?_
  by_cases hp : p r = true
  · simp [hp]
  · simp [hp]

/-- Rewriting the rows with given keys one after another is one rewrite, if it is the same for
all and twice is once. -/
theorem foldl_modify_key [DecidableEq κ] {key : α → κ} {f : α → α}
    (hkey : ∀ r, key (f r) = key r) (hf : ∀ r, f (f r) = f r) (found rows : List α) :
    found.foldl (fun rows x ↦ modify (fun r ↦ key r = key x) f rows) rows =
      modify (fun r ↦ found.any fun x ↦ key r = key x) f rows := by
  induction found generalizing rows with
  | nil => simp [modify]
  | cons x found ih =>
    rw [List.foldl_cons, ih]
    unfold modify
    rw [List.map_map]
    refine List.map_congr_left fun r _ ↦ ?_
    by_cases hx : key r = key x
    · simp [hx, hkey, hf]
    · simp [hx]

end WikiMind.Base.Rows
