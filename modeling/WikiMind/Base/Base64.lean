import Mathlib.Data.List.Basic

/-!
# URL-safe base 64

Library about `urlsafe_b64encode` and `urlsafe_b64decode` of the standard library. The decoder
takes both alphabets, skips every other character and stops at the padding that completes four
characters; text that ends before four are complete is an error.
-/

namespace WikiMind.Base.Base64

def digit (n : Nat) : Char :=
  if n < 26 then Char.ofNat (65 + n)
  else if n < 52 then Char.ofNat (71 + n)
  else if n < 62 then Char.ofNat (n - 4)
  else if n = 62 then '-'
  else '_'

/-- The six bits of a character, of either alphabet. -/
def value (c : Char) : Option Nat :=
  let n := c.toNat
  if 65 ≤ n ∧ n ≤ 90 then some (n - 65)
  else if 97 ≤ n ∧ n ≤ 122 then some (n - 71)
  else if 48 ≤ n ∧ n ≤ 57 then some (n + 4)
  else if c = '-' ∨ c = '+' then some 62
  else if c = '_' ∨ c = '/' then some 63
  else none

/-- `urlsafe_b64encode`. -/
def encode : List UInt8 → List Char
  | a :: b :: c :: rest =>
    digit (a.toNat / 4) :: digit (a.toNat % 4 * 16 + b.toNat / 16) ::
      digit (b.toNat % 16 * 4 + c.toNat / 64) :: digit (c.toNat % 64) :: encode rest
  | [a, b] =>
    [digit (a.toNat / 4), digit (a.toNat % 4 * 16 + b.toNat / 16), digit (b.toNat % 16 * 4), '=']
  | [a] => [digit (a.toNat / 4), digit (a.toNat % 4 * 16), '=', '=']
  | [] => []

/-- The bytes of the rest of a text, behind so many characters of four, with the bits left over
from them and so many characters of padding. -/
def decodeFrom (quad left pads : Nat) : List Char → Option (List UInt8)
  | [] => if quad = 0 then some [] else none
  | c :: rest =>
    if c = '=' then
      if 2 ≤ quad then
        if 4 ≤ quad + (pads + 1) then some [] else decodeFrom quad left (pads + 1) rest
      else decodeFrom quad left pads rest
    else
      match value c, quad with
      | none, _ => decodeFrom quad left pads rest
      | some n, 0 => decodeFrom 1 n 0 rest
      | some n, 1 => (decodeFrom 2 (n % 16) 0 rest).map (UInt8.ofNat (left * 4 + n / 16) :: ·)
      | some n, 2 => (decodeFrom 3 (n % 4) 0 rest).map (UInt8.ofNat (left * 16 + n / 4) :: ·)
      | some n, _ => (decodeFrom 0 0 0 rest).map (UInt8.ofNat (left * 64 + n) :: ·)

/-- `urlsafe_b64decode`. -/
def decode (text : List Char) : Option (List UInt8) := decodeFrom 0 0 0 text

private theorem value_digit {n : Nat} (h : n < 64) : value (digit n) = some n := by
  have hall : ∀ n < 64, value (digit n) = some n := by decide
  exact hall n h

private theorem digit_ne_pad {n : Nat} (h : n < 64) : digit n ≠ '=' := by
  have hall : ∀ n < 64, digit n ≠ '=' := by decide
  exact hall n h

section
variable {n : Nat} (left pads : Nat) (rest : List Char)

attribute [local simp] decodeFrom in
private theorem decodeFrom_zero (h : n < 64) :
    decodeFrom 0 left pads (digit n :: rest) = decodeFrom 1 n 0 rest := by
  simp only [decodeFrom, if_neg (digit_ne_pad h), value_digit h]

private theorem decodeFrom_one (h : n < 64) :
    decodeFrom 1 left pads (digit n :: rest) =
      (decodeFrom 2 (n % 16) 0 rest).map (UInt8.ofNat (left * 4 + n / 16) :: ·) := by
  simp only [decodeFrom, if_neg (digit_ne_pad h), value_digit h]

private theorem decodeFrom_two (h : n < 64) :
    decodeFrom 2 left pads (digit n :: rest) =
      (decodeFrom 3 (n % 4) 0 rest).map (UInt8.ofNat (left * 16 + n / 4) :: ·) := by
  simp only [decodeFrom, if_neg (digit_ne_pad h), value_digit h]

private theorem decodeFrom_three (h : n < 64) :
    decodeFrom 3 left pads (digit n :: rest) =
      (decodeFrom 0 0 0 rest).map (UInt8.ofNat (left * 64 + n) :: ·) := by
  simp only [decodeFrom, if_neg (digit_ne_pad h), value_digit h]

end

private theorem ofNat_eq {a : UInt8} {n : Nat} (h : n = a.toNat) : UInt8.ofNat n = a := by
  rw [h, UInt8.ofNat_toNat]

attribute [local simp] encode in
/-- What is encoded is decoded. -/
@[simp] theorem decode_encode (bytes : List UInt8) : decode (encode bytes) = some bytes := by
  unfold decode
  fun_induction encode bytes with
  | case1 a b c rest ih =>
    have ha : a.toNat < 256 := a.toNat_lt_size
    have hb : b.toNat < 256 := b.toNat_lt_size
    have hc : c.toNat < 256 := c.toNat_lt_size
    rw [decodeFrom_zero _ _ _ (by omega), decodeFrom_one _ _ _ (by omega),
      decodeFrom_two _ _ _ (by omega), decodeFrom_three _ _ _ (by omega), ih]
    simp only [Option.map_some, Option.some.injEq, List.cons.injEq, and_true]
    exact ⟨ofNat_eq (by omega), ofNat_eq (by omega), ofNat_eq (by omega)⟩
  | case2 a b =>
    have ha : a.toNat < 256 := a.toNat_lt_size
    have hb : b.toNat < 256 := b.toNat_lt_size
    rw [decodeFrom_zero _ _ _ (by omega), decodeFrom_one _ _ _ (by omega),
      decodeFrom_two _ _ _ (by omega)]
    have hpad : decodeFrom 3 (b.toNat % 16 * 4 % 4) 0 ['='] = some [] := rfl
    simp only [hpad, Option.map_some, Option.some.injEq, List.cons.injEq, and_true]
    exact ⟨ofNat_eq (by omega), ofNat_eq (by omega)⟩
  | case3 a =>
    have ha : a.toNat < 256 := a.toNat_lt_size
    rw [decodeFrom_zero _ _ _ (by omega), decodeFrom_one _ _ _ (by omega)]
    have hpad : decodeFrom 2 (a.toNat % 4 * 16 % 16) 0 ['=', '='] = some [] := rfl
    simp only [hpad, Option.map_some, Option.some.injEq, List.cons.injEq, and_true]
    exact ofNat_eq (by omega)
  | case4 => rfl

/-- The characters of an encoded text. -/
theorem mem_encode {c : Char} {bytes : List UInt8} (h : c ∈ encode bytes) :
    c = '=' ∨ ∃ n < 64, c = digit n := by
  fun_induction encode bytes with
  | case1 a b d rest ih =>
    have ha : a.toNat < 256 := a.toNat_lt_size
    have hb : b.toNat < 256 := b.toNat_lt_size
    have hd : d.toNat < 256 := d.toNat_lt_size
    simp only [List.mem_cons] at h
    rcases h with rfl | rfl | rfl | rfl | h
    · exact .inr ⟨_, by omega, rfl⟩
    · exact .inr ⟨_, by omega, rfl⟩
    · exact .inr ⟨_, by omega, rfl⟩
    · exact .inr ⟨_, by omega, rfl⟩
    · exact ih h
  | case2 a b =>
    have ha : a.toNat < 256 := a.toNat_lt_size
    have hb : b.toNat < 256 := b.toNat_lt_size
    simp only [List.mem_cons, List.not_mem_nil, or_false] at h
    rcases h with rfl | rfl | rfl | rfl
    · exact .inr ⟨_, by omega, rfl⟩
    · exact .inr ⟨_, by omega, rfl⟩
    · exact .inr ⟨_, by omega, rfl⟩
    · exact .inl rfl
  | case3 a =>
    have ha : a.toNat < 256 := a.toNat_lt_size
    simp only [List.mem_cons, List.not_mem_nil, or_false] at h
    rcases h with rfl | rfl | rfl | rfl
    · exact .inr ⟨_, by omega, rfl⟩
    · exact .inr ⟨_, by omega, rfl⟩
    · exact .inl rfl
    · exact .inl rfl
  | case4 => cases h

/-- No encoded text has a colon. -/
theorem colon_not_mem_encode (bytes : List UInt8) : ':' ∉ encode bytes := by
  intro h
  have hall : ∀ n < 64, ':' ≠ digit n := by decide
  obtain h | ⟨n, hn, h⟩ := mem_encode h
  · exact absurd h (by decide)
  · exact hall n hn h

/-- Every group of four characters of the alphabets gives three bytes. -/
theorem length_decodeFrom {quad left pads : Nat} {text : List Char} {bytes : List UInt8}
    (hquad : quad < 4) (htext : ∀ c ∈ text, c ≠ '=' ∧ (value c).isSome = true)
    (h : decodeFrom quad left pads text = some bytes) :
    4 * (bytes.length + (quad - 1)) = 3 * (quad + text.length) := by
  induction text generalizing quad left pads bytes with
  | nil =>
    simp only [decodeFrom, Option.ite_none_right_eq_some, Option.some.injEq] at h
    obtain ⟨rfl, rfl⟩ := h
    rfl
  | cons c text ih =>
    obtain ⟨hpad, hvalue⟩ := htext c (List.mem_cons_self ..)
    obtain ⟨n, hn⟩ := Option.isSome_iff_exists.mp hvalue
    have hrest : ∀ d ∈ text, d ≠ '=' ∧ (value d).isSome = true :=
      fun d hd ↦ htext d (List.mem_cons_of_mem c hd)
    obtain rfl | rfl | rfl | rfl : quad = 0 ∨ quad = 1 ∨ quad = 2 ∨ quad = 3 := by omega
    · simp only [decodeFrom, if_neg hpad, hn] at h
      have hlength := ih (by omega) hrest h
      simp only [List.length_cons]
      omega
    · simp only [decodeFrom, if_neg hpad, hn, Option.map_eq_some_iff] at h
      obtain ⟨behind, hbehind, rfl⟩ := h
      have hlength := ih (by omega) hrest hbehind
      simp only [List.length_cons]
      omega
    · simp only [decodeFrom, if_neg hpad, hn, Option.map_eq_some_iff] at h
      obtain ⟨behind, hbehind, rfl⟩ := h
      have hlength := ih (by omega) hrest hbehind
      simp only [List.length_cons]
      omega
    · simp only [decodeFrom, if_neg hpad, hn, Option.map_eq_some_iff] at h
      obtain ⟨behind, hbehind, rfl⟩ := h
      have hlength := ih (by omega) hrest hbehind
      simp only [List.length_cons]
      omega

end WikiMind.Base.Base64
