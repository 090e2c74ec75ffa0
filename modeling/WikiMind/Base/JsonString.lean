import WikiMind.Base.Hex

/-!
# JSON strings

`json.dumps` of a text writes characters outside printable ASCII as escapes, those beyond
the first plane as two code units. Reading the result gives the text back.
-/

namespace WikiMind.Base.JsonString

open WikiMind.Base.Hex

/-- The escapes of two characters. -/
def short : List (Char × Char) :=
  [('"', '"'), ('\\', '\\'), ('\n', 'n'), ('\r', 'r'), ('\t', 't'), ('\x08', 'b'), ('\x0c', 'f')]

/-- The second character of the escape of a character. -/
def shortOf (c : Char) : Option Char := (short.find? (·.1 = c)).map (·.2)

/-- The character of an escape of two characters. -/
def unshort (e : Char) : Option Char := (short.find? (·.2 = e)).map (·.1)

/-- The escape of a code unit. -/
def codeUnit (n : Nat) : List Char :=
  ['\\', 'u', hexDigit (n / 4096), hexDigit (n / 256 % 16), hexDigit (n / 16 % 16),
    hexDigit (n % 16)]

def escapeChar (c : Char) : List Char :=
  match shortOf c with
  | some e => ['\\', e]
  | none =>
    if 0x20 ≤ c.toNat ∧ c.toNat ≤ 0x7e then [c]
    else if c.toNat < 0x10000 then codeUnit c.toNat
    else
      codeUnit (0xd800 + (c.toNat - 0x10000) / 0x400) ++
        codeUnit (0xdc00 + (c.toNat - 0x10000) % 0x400)

/-- `json.dumps` of a text. -/
def dumps (s : List Char) : List Char := '"' :: (s.flatMap escapeChar ++ ['"'])

/-- The text before a quote that ends the input. -/
def unescape : List Char → Option (List Char)
  | [] => none
  | '"' :: rest => if rest = [] then some [] else none
  | '\\' :: 'u' :: a :: b :: c :: d :: rest =>
    match unitValue a b c d with
    | none => none
    | some n =>
      if 0xd800 ≤ n ∧ n < 0xdc00 then
        match rest with
        | '\\' :: 'u' :: e :: f :: g :: h :: rest =>
          (unitValue e f g h).bind fun m ↦ (unescape rest).map
            (Char.ofNat (0x10000 + (n - 0xd800) * 0x400 + (m - 0xdc00)) :: ·)
        | _ => none
      else (unescape rest).map (Char.ofNat n :: ·)
  | '\\' :: e :: rest => (unshort e).bind fun c ↦ (unescape rest).map (c :: ·)
  | c :: rest => (unescape rest).map (c :: ·)

/-- `json.loads` of a string. -/
def loads : List Char → Option (List Char)
  | '"' :: rest => unescape rest
  | _ => none

private theorem unshort_of_shortOf {c e : Char} (h : shortOf c = some e) :
    e ≠ 'u' ∧ e ≠ '\n' ∧ unshort e = some c := by
  obtain ⟨p, hp, rfl⟩ := Option.map_eq_some_iff.mp h
  have hc : p.1 = c := by simpa using List.find?_some hp
  have hall : ∀ p ∈ short, p.2 ≠ 'u' ∧ p.2 ≠ '\n' ∧ unshort p.2 = some p.1 := by decide
  rw [← hc]
  exact hall p (List.mem_of_find?_eq_some hp)

/-- Quotes, backslashes and line feeds have short escapes. -/
theorem ne_of_shortOf {c : Char} (h : shortOf c = none) : c ≠ '"' ∧ c ≠ '\\' ∧ c ≠ '\n' := by
  refine ⟨?_, ?_, ?_⟩
  · rintro rfl
    cases h
  · rintro rfl
    cases h
  · rintro rfl
    cases h

private theorem unescape_plain {c : Char} (hquote : c ≠ '"') (hback : c ≠ '\\') (s : List Char) :
    unescape (c :: s) = (unescape s).map (c :: ·) := by
  rw [unescape]
  · exact hquote
  · intro a b c' d rest h
    exact absurd h hback
  · intro e rest h
    exact absurd h hback

private theorem unescape_short {e : Char} (hu : e ≠ 'u') (s : List Char) :
    unescape ('\\' :: e :: s) = (unshort e).bind fun c ↦ (unescape s).map (c :: ·) := by
  rw [unescape]
  intro a b c d rest h
  exact absurd h hu

private theorem unescape_codeUnit {n : Nat} (h : n < 0xd800 ∨ (0xdfff < n ∧ n < 0x10000))
    (s : List Char) :
    unescape (codeUnit n ++ s) = (unescape s).map (Char.ofNat n :: ·) := by
  have hvalue := unitValue_hexDigit (n := n) (by omega)
  have hsingle : ¬ (0xd800 ≤ n ∧ n < 0xdc00) := by omega
  simp only [codeUnit, List.cons_append, List.nil_append]
  rw [unescape, hvalue]
  simp only [hsingle, if_false]

private theorem unescape_pair {n m : Nat} (hn : 0xd800 ≤ n ∧ n < 0xdc00) (hm : m < 0x10000)
    (s : List Char) :
    unescape (codeUnit n ++ (codeUnit m ++ s)) =
      (unescape s).map (Char.ofNat (0x10000 + (n - 0xd800) * 0x400 + (m - 0xdc00)) :: ·) := by
  have hvalue := unitValue_hexDigit (n := n) (by omega)
  have hvalue' := unitValue_hexDigit (n := m) hm
  simp only [codeUnit, List.cons_append, List.nil_append]
  rw [unescape, hvalue]
  simp only [hn, and_self, if_true]
  rw [hvalue', Option.bind_some]

/-- Reading one escaped character. -/
theorem unescape_escapeChar (c : Char) (s : List Char) :
    unescape (escapeChar c ++ s) = (unescape s).map (c :: ·) := by
  have hvalid : c.toNat < 0xd800 ∨ (0xdfff < c.toNat ∧ c.toNat < 0x110000) := c.valid
  unfold escapeChar
  split
  · next e he =>
    obtain ⟨hu, -, hshort⟩ := unshort_of_shortOf he
    rw [List.cons_append, List.cons_append, unescape_short hu, hshort]
    rfl
  · next he =>
    obtain ⟨hquote, hback, -⟩ := ne_of_shortOf he
    split
    · exact unescape_plain hquote hback s
    · split
      · next hsmall =>
        rw [unescape_codeUnit (by omega), Char.ofNat_toNat]
      · next hlarge =>
        rw [List.append_assoc, unescape_pair (by omega) (by omega)]
        have hsum : 0x10000 + (0xd800 + (c.toNat - 0x10000) / 0x400 - 0xd800) * 0x400 +
            (0xdc00 + (c.toNat - 0x10000) % 0x400 - 0xdc00) = c.toNat := by omega
        rw [hsum, Char.ofNat_toNat]

private theorem unescape_escaped (s : List Char) :
    unescape (s.flatMap escapeChar ++ ['"']) = some s := by
  induction s with
  | nil => rfl
  | cons c s ih =>
    rw [List.flatMap_cons, List.append_assoc, unescape_escapeChar, ih]
    rfl

/-- A dumped text is read back. -/
theorem loads_dumps (s : List Char) : loads (dumps s) = some s := unescape_escaped s

private theorem newline_not_mem_codeUnit {n : Nat} (h : n < 0x10000) : '\n' ∉ codeUnit n := by
  have hall : ∀ n < 16, hexDigit n ≠ '\n' := by decide
  have h1 := hall (n / 4096) (by omega)
  have h2 := hall (n / 256 % 16) (by omega)
  have h3 := hall (n / 16 % 16) (by omega)
  have h4 := hall (n % 16) (by omega)
  simp [codeUnit, h1.symm, h2.symm, h3.symm, h4.symm]

private theorem newline_not_mem_escapeChar (c : Char) : '\n' ∉ escapeChar c := by
  have hvalid : c.toNat < 0xd800 ∨ (0xdfff < c.toNat ∧ c.toNat < 0x110000) := c.valid
  unfold escapeChar
  split
  · next e he =>
    obtain ⟨-, hne, -⟩ := unshort_of_shortOf he
    simp [hne.symm]
  · next he =>
    obtain ⟨-, -, hne⟩ := ne_of_shortOf he
    split
    · simp [hne.symm]
    · split
      · next hsmall => exact newline_not_mem_codeUnit hsmall
      · rw [List.mem_append, not_or]
        exact ⟨newline_not_mem_codeUnit (by omega), newline_not_mem_codeUnit (by omega)⟩

/-- A dumped text has no line break. -/
theorem newline_not_mem_dumps (s : List Char) : '\n' ∉ dumps s := by
  have hescaped : '\n' ∉ s.flatMap escapeChar := by
    rw [List.mem_flatMap]
    rintro ⟨c, -, hc⟩
    exact newline_not_mem_escapeChar c hc
  simp [dumps, hescaped]

end WikiMind.Base.JsonString
