import Mathlib.Data.List.Basic
import Mathlib.Data.List.TakeWhile
import WikiMind.Base.Hex
import WikiMind.Base.Utf8

/-!
# URLs and their parameters

Library for code that puts URLs together. A URL is cut at the first `#` and, before it, at the
first `?`; the query between them is cut at each `&` and its pieces at the first `=`. Names and
values are read as bytes, `+` as a blank and `%` with two hexadecimal digits as one byte. A
quoting replaces some characters by the digits of their bytes, of those that have no meaning
in a URL; it changes neither how a URL is cut nor what is read.
-/

namespace WikiMind.Base.Url

open WikiMind.Base.Hex

/-- The byte of two digits. -/
def hexByte (a b : Char) : Option UInt8 := do
  return UInt8.ofNat ((← hexValue a) * 16 + (← hexValue b))

/-- The bytes of a name or a value. -/
def decode : List Char → List UInt8
  | [] => []
  | '%' :: a :: b :: rest =>
    match hexByte a b with
    | some byte => byte :: decode rest
    | none => String.utf8EncodeChar '%' ++ decode (a :: b :: rest)
  | '+' :: rest => String.utf8EncodeChar ' ' ++ decode rest
  | c :: rest => String.utf8EncodeChar c ++ decode rest

/-- The digits of a byte. -/
def percent (byte : UInt8) : List Char :=
  ['%', upperDigit (byte.toNat / 16), upperDigit (byte.toNat % 16)]

/-- The characters a URL is made of: letters and digits, the other unreserved characters, the
reserved ones and `%`. -/
def isUrlChar (c : Char) : Bool :=
  c.isAlphanum || c ∈ ['-', '.', '_', '~', ':', '/', '?', '#', '[', ']', '@', '!', '$', '&', '\'',
    '(', ')', '*', '+', ',', ';', '=', '%']

/-- Which characters are left as they are when a URL is sent: at least those it is made of. -/
structure Quoting where
  keeps : Char → Bool
  keeps_urlChar : ∀ c, isUrlChar c = true → keeps c = true

def Quoting.char (q : Quoting) (c : Char) : List Char :=
  if q.keeps c then [c] else (String.utf8EncodeChar c).flatMap percent

/-- The text with the digits of the characters that are not left. -/
def Quoting.quote (q : Quoting) (s : List Char) : List Char := s.flatMap q.char

/-- The text has neither a `+` nor a `%` with two digits behind it. -/
structure Verbatim (s : List Char) : Prop where
  plus : '+' ∉ s
  percent : ∀ a b, (hexByte a b).isSome → ¬ ['%', a, b] <:+: s

/-- The name and the value of a piece of a query. -/
def parameter (piece : List Char) : List UInt8 × List UInt8 :=
  (decode (piece.takeWhile (· ≠ '=')), decode ((piece.dropWhile (· ≠ '=')).drop 1))

/-- The parameters of a query; empty pieces are none. -/
def parameters (query : List Char) : List (List UInt8 × List UInt8) :=
  ((query.splitOn '&').filter (· ≠ [])).map parameter

def beforeFragment (url : List Char) : List Char := url.takeWhile (· ≠ '#')

/-- The part of a URL with its scheme, its host and its path. -/
def hierarchy (url : List Char) : List Char := (beforeFragment url).takeWhile (· ≠ '?')

def query (url : List Char) : List Char := ((beforeFragment url).dropWhile (· ≠ '?')).drop 1

/-! ### Decoding -/

/-- A character read for itself. -/
theorem decode_cons {c : Char} (hpercent : c ≠ '%') (hplus : c ≠ '+') (rest : List Char) :
    decode (c :: rest) = String.utf8EncodeChar c ++ decode rest := by
  rw [decode]
  · intro a b rest' hc
    exact absurd hc hpercent
  · exact hplus

/-- A `%` that no two digits follow. -/
theorem decode_percent_cons {rest : List Char}
    (h : ∀ a b, (hexByte a b).isSome → ¬ [a, b] <+: rest) :
    decode ('%' :: rest) = String.utf8EncodeChar '%' ++ decode rest := by
  match rest with
  | [] => rfl
  | [a] => rfl
  | a :: b :: rest =>
    cases hbyte : hexByte a b with
    | none => simp only [decode, hbyte]
    | some byte =>
      refine absurd ?_ (h a b (by rw [hbyte]; rfl))
      exact List.prefix_append [a, b] rest

/-- Decoding makes no text longer. -/
theorem length_decode_le (s : List Char) : (decode s).length ≤ (encode s).length := by
  fun_induction decode s with
  | case1 => exact Nat.le_refl _
  | case2 a b rest byte hbyte ih =>
    rw [encode_cons, encode_cons, encode_cons]
    simp only [List.length_cons, List.length_append]
    have hpercent : (String.utf8EncodeChar '%').length = 1 := by decide
    omega
  | case3 a b rest hbyte ih =>
    rw [encode_cons, List.length_append, List.length_append]
    omega
  | case4 rest ih =>
    rw [encode_cons, List.length_append, List.length_append]
    exact Nat.add_le_add_left ih 1
  | case5 c rest hpercent hplus ih =>
    rw [encode_cons, List.length_append, List.length_append]
    omega

/-- The rest of a verbatim text is verbatim. -/
theorem Verbatim.of_cons {c : Char} {s : List Char} (h : Verbatim (c :: s)) : Verbatim s :=
  ⟨fun hmem ↦ h.plus (List.mem_cons_of_mem c hmem),
    fun a b hbyte hwithin ↦ h.percent a b hbyte (hwithin.trans (List.suffix_cons c s).isInfix)⟩

/-- A text without `+` and `%` is verbatim. -/
theorem verbatim_of_not_mem {s : List Char} (hplus : '+' ∉ s) (hpercent : '%' ∉ s) :
    Verbatim s :=
  ⟨hplus, fun _ _ _ h ↦ hpercent (h.subset (List.mem_cons_self ..))⟩

/-- A character other than a `+` keeps a text verbatim, unless it is the `%` of two digits. -/
theorem Verbatim.cons {c : Char} {s : List Char} (h : Verbatim s) (hplus : c ≠ '+')
    (hpercent : c = '%' → ∀ a b, (hexByte a b).isSome → ¬ [a, b] <+: s) : Verbatim (c :: s) := by
  constructor
  · rw [List.mem_cons, not_or]
    exact ⟨hplus.symm, h.plus⟩
  · intro a b hbyte hwithin
    rw [List.infix_cons_iff] at hwithin
    obtain hstart | htail := hwithin
    · obtain ⟨hc, hdigits⟩ := List.cons_prefix_cons.mp hstart
      exact hpercent hc.symm a b hbyte hdigits
    · exact h.percent a b hbyte htail

/-- A text is read as it is exactly when it is verbatim: two digits behind a `%` make it shorter,
and a `+` becomes another character. -/
theorem decode_eq_encode_iff (s : List Char) : decode s = encode s ↔ Verbatim s := by
  fun_induction decode s with
  | case1 => exact iff_of_true rfl ⟨List.not_mem_nil, fun a b _ h ↦ by simp at h⟩
  | case2 a b rest byte hbyte ih =>
    refine iff_of_false (fun h ↦ ?_) fun h ↦ ?_
    · have hlength := congrArg List.length h
      have hle := length_decode_le rest
      rw [encode_cons, encode_cons, encode_cons] at hlength
      simp only [List.length_cons, List.length_append] at hlength
      have hpercent : (String.utf8EncodeChar '%').length = 1 := by decide
      have ha : 0 < (String.utf8EncodeChar a).length :=
        List.length_pos_of_ne_nil String.utf8EncodeChar_ne_nil
      omega
    · exact h.percent a b (by rw [hbyte]; rfl) (List.prefix_append ['%', a, b] rest).isInfix
  | case3 a b rest hbyte ih =>
    rw [encode_cons, List.append_cancel_left_eq, ih]
    refine ⟨fun h ↦ h.cons (by decide) fun _ a' b' hbyte' hdigits ↦ ?_, Verbatim.of_cons⟩
    obtain ⟨rfl, hdigit⟩ := List.cons_prefix_cons.mp hdigits
    obtain ⟨rfl, -⟩ := List.cons_prefix_cons.mp hdigit
    rw [hbyte] at hbyte'
    cases hbyte'
  | case4 rest ih =>
    refine iff_of_false (fun h ↦ ?_) fun h ↦ h.plus (List.mem_cons_self ..)
    rw [encode_cons] at h
    exact absurd (eq_of_encoded_append h) (by decide)
  | case5 c rest hpercent hplus ih =>
    rw [encode_cons, List.append_cancel_left_eq, ih]
    refine ⟨fun h ↦ h.cons hplus fun hc a b _ hdigits ↦ ?_, Verbatim.of_cons⟩
    obtain ⟨rest', rfl⟩ := hdigits
    exact hpercent a b rest' hc rfl

/-! ### Quoting -/

private theorem isUrlChar_of_hexValue {c : Char} (h : (hexValue c).isSome) :
    isUrlChar c = true := by
  have hc : c.isAlphanum = true := by
    unfold hexValue at h
    unfold Char.isAlphanum Char.isAlpha Char.isUpper Char.isLower Char.isDigit
    simp only [Bool.or_eq_true, Bool.and_eq_true, decide_eq_true_eq, ge_iff_le,
      UInt32.le_iff_toNat_le]
    simp only [Char.toNat] at h
    split at h
    next hdigit => exact .inr hdigit
    next =>
      split at h
      next hlower => exact .inl (.inr ⟨hlower.1, hlower.2.trans (by decide)⟩)
      next =>
        split at h
        next hupper => exact .inl (.inl ⟨hupper.1, hupper.2.trans (by decide)⟩)
        next => cases h
  simp [isUrlChar, hc]

private theorem decode_percent (byte : UInt8) (rest : List Char) :
    decode (percent byte ++ rest) = byte :: decode rest := by
  have hlt : byte.toNat < 256 := byte.toNat_lt_size
  have hhigh := hexValue_upperDigit (n := byte.toNat / 16) (by omega)
  have hlow := hexValue_upperDigit (n := byte.toNat % 16) (by omega)
  have hbyte : hexByte (upperDigit (byte.toNat / 16)) (upperDigit (byte.toNat % 16)) =
      some byte := by
    simp only [hexByte, hhigh, hlow, Option.pure_def, Option.bind_eq_bind, Option.bind_some]
    rw [Nat.div_add_mod', UInt8.ofNat_toNat]
  simp only [percent, List.cons_append, List.nil_append, decode, hbyte]

private theorem decode_percents (bytes : List UInt8) (rest : List Char) :
    decode (bytes.flatMap percent ++ rest) = bytes ++ decode rest := by
  induction bytes with
  | nil => rfl
  | cons byte bytes ih =>
    rw [List.flatMap_cons, List.append_assoc, decode_percent, ih, List.cons_append]

/-- Only the characters a URL is made of are left. -/
def Quoting.strict : Quoting := ⟨isUrlChar, fun _ h ↦ h⟩

section
variable (q : Quoting)

private theorem Quoting.quote_cons (c : Char) (s : List Char) :
    q.quote (c :: s) = q.char c ++ q.quote s := List.flatMap_cons

private theorem Quoting.char_of_isUrlChar {c : Char} (h : isUrlChar c = true) : q.char c = [c] := by
  rw [Quoting.char, if_pos (q.keeps_urlChar c h)]

/-- What is written for a character begins with the character or with a `%`. -/
theorem Quoting.exists_char_eq (c : Char) :
    q.char c = [c] ∨ ∃ digits, q.char c = '%' :: digits := by
  unfold Quoting.char
  split
  · exact .inl rfl
  · right
    obtain ⟨byte, bytes, hbytes⟩ :=
      List.exists_cons_of_ne_nil (String.utf8EncodeChar_ne_nil (c := c))
    rw [hbytes, List.flatMap_cons]
    exact ⟨_, rfl⟩

/-- A digit at the front of a quoted text is the first character of the text. -/
theorem Quoting.exists_of_quote {a : Char} (ha : (hexValue a).isSome) {l s : List Char}
    (h : a :: l <+: q.quote s) : ∃ s', s = a :: s' ∧ l <+: q.quote s' := by
  cases s with
  | nil => exact absurd (List.prefix_nil.mp h) (List.cons_ne_nil a l)
  | cons c s =>
    rw [q.quote_cons] at h
    obtain hchar | ⟨digits, hchar⟩ := q.exists_char_eq c
    · rw [hchar] at h
      obtain ⟨rfl, hrest⟩ := List.cons_prefix_cons.mp h
      exact ⟨s, rfl, hrest⟩
    · rw [hchar] at h
      obtain ⟨rfl, -⟩ := List.cons_prefix_cons.mp h
      cases ha

/-- Quoting puts no digits behind a `%` that had none. -/
theorem Quoting.digits_of_quote {a b : Char} (hbyte : (hexByte a b).isSome) {s : List Char}
    (h : [a, b] <+: q.quote s) : [a, b] <+: s := by
  have hdigits : (hexValue a).isSome ∧ (hexValue b).isSome := by
    unfold hexByte at hbyte
    cases ha : hexValue a with
    | none => simp [ha] at hbyte
    | some m =>
      cases hb : hexValue b with
      | none => simp [ha, hb] at hbyte
      | some n => exact ⟨rfl, rfl⟩
  obtain ⟨s', rfl, hrest⟩ := q.exists_of_quote hdigits.1 h
  obtain ⟨s'', rfl, -⟩ := q.exists_of_quote hdigits.2 hrest
  exact List.prefix_append [a, b] s''

/-- Quoting does not change what is read. -/
theorem Quoting.decode_quote (s : List Char) : decode (q.quote s) = decode s := by
  fun_induction decode s with
  | case1 => rfl
  | case2 a b rest byte hbyte ih =>
    have hdigits : isUrlChar a = true ∧ isUrlChar b = true := by
      cases ha : hexValue a with
      | none => simp [hexByte, ha] at hbyte
      | some m =>
        cases hb : hexValue b with
        | none => simp [hexByte, ha, hb] at hbyte
        | some n =>
          exact ⟨isUrlChar_of_hexValue (by rw [ha]; rfl), isUrlChar_of_hexValue (by rw [hb]; rfl)⟩
    rw [q.quote_cons, q.quote_cons, q.quote_cons, q.char_of_isUrlChar (by decide),
      q.char_of_isUrlChar hdigits.1, q.char_of_isUrlChar hdigits.2]
    simp only [List.cons_append, List.nil_append, decode, hbyte, ih]
  | case3 a b rest hbyte ih =>
    rw [q.quote_cons, q.char_of_isUrlChar (by decide), List.singleton_append, decode_percent_cons,
      ih]
    intro a' b' hbyte' hdigits
    obtain ⟨rfl, hdigit⟩ := List.cons_prefix_cons.mp (q.digits_of_quote hbyte' hdigits)
    obtain ⟨rfl, -⟩ := List.cons_prefix_cons.mp hdigit
    rw [hbyte] at hbyte'
    cases hbyte'
  | case4 rest ih =>
    rw [q.quote_cons, q.char_of_isUrlChar (by decide), List.singleton_append, decode, ih]
  | case5 c rest hpercent hplus ih =>
    rw [q.quote_cons]
    by_cases hkeeps : q.keeps c = true
    · rw [Quoting.char, if_pos hkeeps, List.singleton_append]
      by_cases hc : c = '%'
      · subst hc
        rw [decode_percent_cons, ih]
        intro a b hbyte hdigits
        obtain ⟨rest', rfl⟩ := q.digits_of_quote hbyte hdigits
        exact hpercent a b rest' rfl rfl
      · rw [decode_cons hc hplus, ih]
    · rw [Quoting.char, if_neg hkeeps, decode_percents, ih]

end

/-! ### Cutting -/

/-- A character that is part of every URL and of no byte written with `%`. -/
structure IsDelimiter (d : Char) : Prop where
  isUrlChar : isUrlChar d = true
  ne_percent : d ≠ '%'
  ne_upperDigit : ∀ n < 16, d ≠ upperDigit n

private theorem IsDelimiter.not_mem_percent {d : Char} (h : IsDelimiter d) (byte : UInt8) :
    d ∉ percent byte := by
  have hlt : byte.toNat < 256 := byte.toNat_lt_size
  simp only [percent, List.mem_cons, List.not_mem_nil, or_false, not_or]
  exact ⟨h.ne_percent, h.ne_upperDigit _ (by omega), h.ne_upperDigit _ (by omega)⟩

section
variable (q : Quoting) {d : Char}

/-- No other character is quoted by a delimiter. -/
theorem IsDelimiter.not_mem_char (h : IsDelimiter d) {c : Char} (hc : c ≠ d) : d ∉ q.char c := by
  unfold Quoting.char
  split
  · rw [List.mem_singleton]
    exact hc.symm
  · intro hmem
    obtain ⟨byte, -, hbyte⟩ := List.mem_flatMap.mp hmem
    exact h.not_mem_percent byte hbyte

/-- A quoted text is cut at a delimiter where the text is cut. -/
theorem Quoting.takeWhile_quote (h : IsDelimiter d) (s : List Char) :
    (q.quote s).takeWhile (· ≠ d) = q.quote (s.takeWhile (· ≠ d)) := by
  induction s with
  | nil => rfl
  | cons c s ih =>
    rw [q.quote_cons]
    by_cases hc : c = d
    · subst hc
      simp [q.char_of_isUrlChar h.isUrlChar, Quoting.quote]
    · have hnone : ∀ x ∈ q.char c, decide (x ≠ d) = true := by
        intro x hx
        rw [decide_eq_true_eq]
        rintro rfl
        exact h.not_mem_char q hc hx
      rw [List.takeWhile_append_of_pos hnone, ih, List.takeWhile_cons_of_pos (by simpa using hc),
        q.quote_cons]

private theorem Quoting.dropWhile_quote (h : IsDelimiter d) (s : List Char) :
    (q.quote s).dropWhile (· ≠ d) = q.quote (s.dropWhile (· ≠ d)) := by
  have hwhole := List.takeWhile_append_dropWhile (p := fun c ↦ decide (c ≠ d)) (l := q.quote s)
  have hparts : q.quote s = q.quote (s.takeWhile (· ≠ d)) ++ q.quote (s.dropWhile (· ≠ d)) := by
    unfold Quoting.quote
    rw [← List.flatMap_append, List.takeWhile_append_dropWhile]
  rw [q.takeWhile_quote h] at hwhole
  exact List.append_cancel_left (hwhole.trans hparts)

private theorem Quoting.afterDelimiter_quote (h : IsDelimiter d) (s : List Char) :
    ((q.quote s).dropWhile (· ≠ d)).drop 1 = q.quote ((s.dropWhile (· ≠ d)).drop 1) := by
  rw [q.dropWhile_quote h]
  cases hrest : s.dropWhile (· ≠ d) with
  | nil => rfl
  | cons c rest =>
    have hc : c = d := by
      have hne : s.dropWhile (· ≠ d) ≠ [] := by rw [hrest]; exact List.cons_ne_nil c rest
      have hstop := List.head_dropWhile_not (fun c ↦ decide (c ≠ d)) hne
      simpa only [hrest, List.head_cons, decide_eq_false_iff_not, not_not] using hstop
    rw [hc, q.quote_cons, q.char_of_isUrlChar h.isUrlChar]
    rfl

/-- Characters before the first delimiter are part of the first piece. -/
theorem splitOn_append_of_not_mem {l : List Char} (hd : d ∉ l) (s : List Char) :
    (l ++ s).splitOn d = (s.splitOn d).modifyHead (l ++ ·) := by
  induction l with
  | nil =>
    obtain ⟨piece, pieces, hs⟩ := List.exists_cons_of_ne_nil (List.splitOn_ne_nil d s)
    simp [hs]
  | cons c l ih =>
    rw [List.mem_cons, not_or] at hd
    have hc : (c == d) = false := by simpa using Ne.symm hd.1
    rw [List.cons_append, List.splitOn_cons_eq_if_modifyHead, hc, ih hd.2]
    obtain ⟨piece, pieces, hs⟩ := List.exists_cons_of_ne_nil (List.splitOn_ne_nil d s)
    simp [hs]

private theorem Quoting.splitOn_quote (h : IsDelimiter d) (s : List Char) :
    (q.quote s).splitOn d = (s.splitOn d).map q.quote := by
  induction s with
  | nil => rfl
  | cons c s ih =>
    obtain ⟨piece, pieces, hs⟩ := List.exists_cons_of_ne_nil (List.splitOn_ne_nil d s)
    rw [q.quote_cons, List.splitOn_cons_eq_if_modifyHead]
    by_cases hc : c = d
    · subst hc
      rw [q.char_of_isUrlChar h.isUrlChar, List.singleton_append,
        List.splitOn_cons_eq_if_modifyHead, ih]
      simp [Quoting.quote]
    · rw [splitOn_append_of_not_mem (h.not_mem_char q hc), ih, hs, if_neg (by simpa using hc)]
      simp [q.quote_cons]

private theorem Quoting.quote_eq_nil_iff {s : List Char} : q.quote s = [] ↔ s = [] := by
  cases s with
  | nil => simp [Quoting.quote]
  | cons c s =>
    rw [q.quote_cons]
    obtain hchar | ⟨digits, hchar⟩ := q.exists_char_eq c <;> simp [hchar]

end

private theorem isDelimiter_of_mem {d : Char} (h : d ∈ ['#', '?', '&', '=']) : IsDelimiter d := by
  simp only [List.mem_cons, List.not_mem_nil, or_false] at h
  rcases h with rfl | rfl | rfl | rfl <;> exact ⟨by decide, by decide, by decide⟩

/-! ### Parameters -/

private theorem parameters_nil : parameters [] = [] := rfl

/-- The parameters of two queries with an `&` between them. -/
theorem parameters_append (s t : List Char) :
    parameters (s ++ '&' :: t) = parameters s ++ parameters t := by
  unfold parameters
  rw [List.splitOn_append_cons_self, List.filter_append, List.map_append]

/-- One parameter. -/
theorem parameter_eq {name : List Char} (hname : '=' ∉ name) (value : List Char) :
    parameter (name ++ '=' :: value) = (decode name, decode value) := by
  have hnone : ∀ c ∈ name, decide (c ≠ '=') = true := by
    intro c hc
    rw [decide_eq_true_eq]
    rintro rfl
    exact hname hc
  unfold parameter
  rw [List.takeWhile_append_of_pos hnone, List.dropWhile_append_of_pos hnone]
  simp

/-- The parameter of a piece that begins with a name. -/
theorem parameters_of_not_mem {name value : List Char} (hname : '=' ∉ name) (hand : '&' ∉ name)
    (hvalue : '&' ∉ value) :
    parameters (name ++ '=' :: value) = [(decode name, decode value)] := by
  have hnone : '&' ∉ name ++ '=' :: value := by simp [hand, hvalue]
  unfold parameters
  rw [List.splitOn_eq_singleton hnone, List.filter_cons_of_pos (by simp), List.filter_nil,
    List.map_singleton, parameter_eq hname]

private theorem length_encode_lt {s t : List Char} (h : s <+: t) (hne : s ≠ t) :
    (encode s).length < (encode t).length := by
  obtain ⟨rest, rfl⟩ := h
  rw [encode_append, List.length_append, Nat.lt_add_right_iff_pos]
  apply List.length_pos_of_ne_nil
  rw [Ne, encode_eq_nil_iff]
  rintro rfl
  exact hne (List.append_nil s).symm

/-- A query that ends with a name and the beginning of a text has the text as the value of the
name exactly when it has all of it and the text is verbatim and free of `&`. -/
theorem parameters_eq_singleton_iff {name value text : List Char} (hname : '=' ∉ name)
    (hand : '&' ∉ name) (hvalue : value <+: text) :
    parameters (name ++ '=' :: value) = [(decode name, encode text)] ↔
      value = text ∧ '&' ∉ text ∧ Verbatim text := by
  by_cases hmem : '&' ∈ value
  · refine iff_of_false (fun h ↦ ?_) ?_
    · obtain ⟨first, rest, rfl, hfirst⟩ := List.eq_append_cons_of_mem hmem
      rw [← List.cons_append, ← List.append_assoc, parameters_append,
        parameters_of_not_mem hname hand hfirst, List.singleton_append, List.cons.injEq,
        Prod.mk.injEq] at h
      have hshort := length_encode_lt ((List.prefix_append ..).trans hvalue)
        (s := first) (t := text) (by
          rintro rfl
          exact hfirst (hvalue.subset hmem))
      have hle := length_decode_le first
      rw [h.1.2] at hle
      omega
    · rintro ⟨rfl, hnone, -⟩
      exact hnone hmem
  · rw [parameters_of_not_mem hname hand hmem]
    simp only [List.cons.injEq, Prod.mk.injEq, true_and, and_true]
    constructor
    · intro h
      have hwhole : value = text := by
        by_contra hne
        have hshort := length_encode_lt hvalue hne
        have hle := length_decode_le value
        rw [h] at hle
        omega
      subst hwhole
      exact ⟨rfl, hmem, (decode_eq_encode_iff value).mp h⟩
    · rintro ⟨rfl, -, hverbatim⟩
      exact (decode_eq_encode_iff value).mpr hverbatim

section
variable (q : Quoting)

private theorem Quoting.parameter_quote (piece : List Char) :
    parameter (q.quote piece) = parameter piece := by
  have hdelimiter : IsDelimiter '=' := isDelimiter_of_mem (by decide)
  unfold parameter
  rw [q.takeWhile_quote hdelimiter, q.afterDelimiter_quote hdelimiter, q.decode_quote,
    q.decode_quote]

/-- A quoted query has the same parameters. -/
theorem Quoting.parameters_quote (s : List Char) : parameters (q.quote s) = parameters s := by
  have hdelimiter : IsDelimiter '&' := isDelimiter_of_mem (by decide)
  unfold parameters
  rw [q.splitOn_quote hdelimiter, List.filter_map, List.map_map]
  have hfilter : (fun piece ↦ decide (piece ≠ [])) ∘ q.quote = fun piece ↦ decide (piece ≠ []) := by
    funext piece
    simp [q.quote_eq_nil_iff]
  rw [hfilter]
  exact List.map_congr_left fun piece _ ↦ q.parameter_quote piece

private theorem Quoting.beforeFragment_quote (url : List Char) :
    beforeFragment (q.quote url) = q.quote (beforeFragment url) :=
  q.takeWhile_quote (isDelimiter_of_mem (by decide)) url

/-- A quoting keeps where the path ends. -/
theorem Quoting.hierarchy_quote (url : List Char) :
    hierarchy (q.quote url) = q.quote (hierarchy url) := by
  unfold hierarchy
  rw [q.beforeFragment_quote, q.takeWhile_quote (isDelimiter_of_mem (by decide))]

/-- A quoting keeps where the query is. -/
theorem Quoting.query_quote (url : List Char) : query (q.quote url) = q.quote (query url) := by
  unfold query
  rw [q.beforeFragment_quote, q.afterDelimiter_quote (isDelimiter_of_mem (by decide))]

end

/-! ### Adding parameters -/

/-- A URL with parameters added behind a `?` or, if it has one already, an `&`. -/
def extend (url parameters : List Char) : List Char :=
  url ++ (if '?' ∈ url then '&' else '?') :: parameters

private theorem takeWhile_ne_of_not_mem {d : Char} {s : List Char} (h : d ∉ s) (t : List Char) :
    (s ++ t).takeWhile (· ≠ d) = s ++ t.takeWhile (· ≠ d) := by
  apply List.takeWhile_append_of_pos
  intro c hc
  rw [decide_eq_true_eq]
  rintro rfl
  exact h hc

private theorem takeWhile_ne_of_mem {d : Char} {s : List Char} (h : d ∈ s) (t : List Char) :
    (s ++ t).takeWhile (· ≠ d) = s.takeWhile (· ≠ d) := by
  obtain ⟨first, rest, rfl, hfirst⟩ := List.eq_append_cons_of_mem h
  rw [List.append_assoc, takeWhile_ne_of_not_mem hfirst, takeWhile_ne_of_not_mem hfirst]
  simp

private theorem dropWhile_ne_of_mem {d : Char} {s : List Char} (h : d ∈ s) (t : List Char) :
    ((s ++ t).dropWhile (· ≠ d)).drop 1 = (s.dropWhile (· ≠ d)).drop 1 ++ t := by
  obtain ⟨first, rest, rfl, hfirst⟩ := List.eq_append_cons_of_mem h
  have hnone : ∀ c ∈ first, decide (c ≠ d) = true := by
    intro c hc
    rw [decide_eq_true_eq]
    rintro rfl
    exact hfirst hc
  rw [List.append_assoc, List.dropWhile_append_of_pos hnone, List.dropWhile_append_of_pos hnone]
  simp

/-- A text without `#` is part of the URL it begins. -/
theorem beforeFragment_append {s : List Char} (h : '#' ∉ s) (t : List Char) :
    beforeFragment (s ++ t) = s ++ beforeFragment t :=
  takeWhile_ne_of_not_mem h t

/-- A text without `#` has no fragment. -/
theorem beforeFragment_of_not_mem {s : List Char} (h : '#' ∉ s) : beforeFragment s = s := by
  simpa [beforeFragment] using beforeFragment_append h []

/-- Behind a fragment nothing is added but to the fragment. -/
theorem extend_of_fragment {url : List Char} (h : '#' ∈ url) (added : List Char) :
    hierarchy (extend url added) = hierarchy url ∧ query (extend url added) = query url := by
  have hbefore : beforeFragment (extend url added) = beforeFragment url :=
    takeWhile_ne_of_mem h _
  unfold hierarchy query
  rw [hbefore]
  exact ⟨rfl, rfl⟩

/-- In a URL without a fragment the parameters are added to those there are. -/
theorem extend_of_not_mem {url : List Char} (h : '#' ∉ url) (added : List Char) :
    hierarchy (extend url added) = hierarchy url ∧
      parameters (query (extend url added)) =
        parameters (query url) ++ parameters (beforeFragment added) := by
  have hself := beforeFragment_of_not_mem h
  have hbefore : beforeFragment (extend url added) =
      url ++ (if '?' ∈ url then '&' else '?') :: beforeFragment added := by
    unfold beforeFragment extend
    rw [takeWhile_ne_of_not_mem h, List.takeWhile_cons_of_pos]
    split <;> decide
  unfold hierarchy query
  rw [hbefore, hself]
  by_cases hquery : '?' ∈ url
  · rw [if_pos hquery, takeWhile_ne_of_mem hquery, dropWhile_ne_of_mem hquery, parameters_append]
    exact ⟨rfl, rfl⟩
  · have hwhole : url.takeWhile (· ≠ '?') = url := by
      simpa using takeWhile_ne_of_not_mem hquery []
    have hnone : ∀ c ∈ url, decide (c ≠ '?') = true := by
      intro c hc
      rw [decide_eq_true_eq]
      rintro rfl
      exact hquery hc
    rw [if_neg hquery, takeWhile_ne_of_not_mem hquery, hwhole,
      List.dropWhile_append_of_pos hnone, List.dropWhile_eq_nil_iff.mpr hnone]
    simp [parameters_nil]

end WikiMind.Base.Url
