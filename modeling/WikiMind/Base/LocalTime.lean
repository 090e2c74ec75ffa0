import Mathlib.Algebra.Order.Ring.Int

/-!
# Naive datetimes as local time

Library for Python's `datetime.timestamp` on a value without `tzinfo`, which is taken to be
local time. A zone is the local clock at each second of POSIX time; the search for the second
at which it shows a given reading is that of CPython. Nothing here names the application.
-/

namespace WikiMind.Base

/-- A time zone: what the local clock shows at each second of POSIX time. -/
structure Zone where
  localtime : Int → Int

namespace Zone

variable (z : Zone)

/-- The zone whose clocks are ahead of UTC by the same number of seconds all the time. -/
def fixed (offset : Int) : Zone := ⟨(· + offset)⟩

/-- How far the local clock is ahead. -/
def offset (u : Int) : Int := z.localtime u - u

/-- The second at which the local clock shows `t`, the earlier one where it does so twice;
where it never does, the later of the two that the offsets on either side of the gap give. -/
def mktime (t : Int) : Int :=
  let u₁ := t - z.offset t
  let b := if z.localtime u₁ = t then z.offset (u₁ - 86400) else z.offset u₁
  let u₂ := t - b
  if z.localtime u₁ = t ∧ z.offset t = b then u₁
  else if z.localtime u₂ = t then u₂
  else if z.localtime u₁ = t then u₁
  else max u₁ u₂

/-- `int(t.timestamp())` of a naive value in microseconds. -/
def timestamp (t : Int) : Int :=
  (z.mktime (t / 1000000) * 1000000 + t % 1000000).tdiv 1000000

@[simp] theorem offset_fixed (offset u : Int) : (fixed offset).offset u = offset := by
  simp [Zone.offset, fixed]

/-- A clock that is never behind shows its readings no later than UTC does. -/
theorem mktime_le (h : ∀ u, 0 ≤ z.offset u) (t : Int) : z.mktime t ≤ t := by
  have h₁ := h t
  have h₂ := h (t - z.offset t)
  have h₃ := h (t - z.offset t - 86400)
  unfold mktime
  dsimp only
  split_ifs <;> omega

/-- So a moment read from such a clock is not later than meant. -/
theorem timestamp_le (h : ∀ u, 0 ≤ z.offset u) {t : Int} (ht : 0 ≤ t) :
    z.timestamp t * 1000000 ≤ t := by
  have hle := z.mktime_le h (t / 1000000)
  unfold timestamp
  generalize z.mktime (t / 1000000) = u at hle
  rcases Int.le_total 0 (u * 1000000 + t % 1000000) with hpos | hneg
  · rw [Int.tdiv_eq_ediv_of_nonneg hpos]
    omega
  · -- towards zero, which a moment after 1970 is not before
    have hdiv := Int.tdiv_nonneg_of_nonpos_of_nonpos (a := u * 1000000 + t % 1000000)
      (b := -1000000) hneg (by decide)
    rw [Int.tdiv_neg] at hdiv
    omega

end Zone

end WikiMind.Base
