import Mathlib.Data.Option.Basic

/-!
# Chains of parents

Library for records that name a parent. `climb` follows the links, `longerThan` is the
check that a chain has more elements than a bound. A chain that ends does not return to
an element of itself.
-/

namespace WikiMind.Base

variable {α : Type*} (parent : α → Option α)

/-- The ancestor so many links up. -/
def climb : Nat → α → Option α
  | 0, a => some a
  | n + 1, a => (parent a).bind (climb n)

/-- Whether a chain has more elements than a bound, by following it so far. -/
def longerThan : Nat → Option α → Bool
  | _, none => false
  | 0, some _ => true
  | n + 1, some a => longerThan n (parent a)

/-- No element is an ancestor of itself. -/
def Acyclic : Prop := ∀ a n, climb parent (n + 1) a ≠ some a

@[simp] theorem climb_zero (a : α) : climb parent 0 a = some a := rfl

theorem climb_succ (n : Nat) (a : α) :
    climb parent (n + 1) a = (parent a).bind (climb parent n) := rfl

/-- Climbing composes. -/
theorem climb_add (m n : Nat) (a : α) :
    climb parent (m + n) a = (climb parent m a).bind (climb parent n) := by
  induction m generalizing a with
  | zero => rw [Nat.zero_add]; rfl
  | succ m ih =>
    rw [Nat.succ_add, climb_succ, climb_succ]
    cases parent a with
    | none => rfl
    | some b => exact ih b

/-- The last link of a climb instead of its first. -/
theorem climb_succ_last (n : Nat) (a : α) :
    climb parent (n + 1) a = (climb parent n a).bind parent := by
  rw [climb_add]
  cases climb parent n a with
  | none => rfl
  | some b =>
    show (parent b).bind some = parent b
    cases parent b <;> rfl

/-- A chain that has ended stays so. -/
theorem climb_eq_none_of_le {m n : Nat} {a : α} (h : climb parent m a = none) (hle : m ≤ n) :
    climb parent n a = none := by
  obtain ⟨k, rfl⟩ := Nat.exists_eq_add_of_le hle
  rw [climb_add, h]
  rfl

/-- The bound holds exactly where the chain ends within it. -/
theorem longerThan_eq_false {n : Nat} {a : α} :
    longerThan parent n (some a) = false ↔ climb parent n a = none := by
  induction n generalizing a with
  | zero => simp [longerThan]
  | succ n ih =>
    rw [longerThan, climb_succ]
    cases h : parent a with
    | none => simp [longerThan]
    | some b => exact ih

/-- An element that is its own ancestor has no last one. -/
theorem climb_ne_none_of_cycle {a : α} {n : Nat} (h : climb parent (n + 1) a = some a) (m : Nat) :
    climb parent m a ≠ none := by
  have hround : ∀ k, climb parent (k * (n + 1)) a = some a := by
    intro k
    induction k with
    | zero => rw [Nat.zero_mul]; rfl
    | succ k ih => rw [Nat.succ_mul, climb_add, ih]; exact h
  intro hnone
  have hle : m ≤ m * (n + 1) := Nat.le_mul_of_pos_right m (Nat.succ_pos n)
  have := climb_eq_none_of_le parent hnone hle
  rw [hround m] at this
  cases this

/-- Where every chain ends there is no cycle. -/
theorem acyclic_of_ends (h : ∀ a, ∃ n, climb parent n a = none) : Acyclic parent := by
  intro a n hcycle
  obtain ⟨m, hm⟩ := h a
  exact climb_ne_none_of_cycle parent hcycle m hm

/-- Two parent functions that agree along a chain have the same chain. -/
theorem climb_congr {parent' : α → Option α} {a : α} {S : α → Prop}
    (hin : ∀ n b, climb parent n a = some b → S b) (heq : ∀ b, S b → parent' b = parent b)
    (n : Nat) : climb parent' n a = climb parent n a := by
  induction n with
  | zero => rfl
  | succ n ih =>
    rw [climb_succ_last, climb_succ_last, ih]
    cases h : climb parent n a with
    | none => rfl
    | some b => exact heq b (hin n b h)

end WikiMind.Base
