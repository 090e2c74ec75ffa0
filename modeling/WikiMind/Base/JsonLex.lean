import Mathlib.Algebra.Order.Ring.Rat
import Mathlib.Data.List.Basic
import Mathlib.Data.List.Induction
import Mathlib.Data.List.TakeWhile
import WikiMind.Base.Hex
import WikiMind.Base.JsonValue

/-!
# The tokens of a JSON text

Library for code that cuts, repairs or wraps JSON texts. A text is read in two passes: the first
finds its string literals, the second decodes them and makes words of the characters between
them. What a raw control character in a string reads as is a parameter; JSON allows none. A
text breaks into the tokens of its parts at white space, at punctuation and behind a literal.
-/

namespace WikiMind.Base.Json

open WikiMind.Base.Hex

/-- White space between tokens. -/
def isBlank (c : Char) : Bool := c = ' ' || c = '\t' || c = '\n' || c = '\r'

/-- Punctuation. -/
def isPunct (c : Char) : Bool :=
  c = '[' || c = ']' || c = '{' || c = '}' || c = ',' || c = ':'

/-! ### String literals -/

/-- A character outside of literals, or the text of a literal between its quotes. -/
inductive Symbol where
  | char (c : Char)
  | literal (body : List Char)
  deriving DecidableEq, Repr

/-- Where a scan is: between literals, or in one with its text so far, or there behind a
backslash. -/
inductive Mode where
  | outside
  | inside (body : List Char)
  | escaped (body : List Char)
  deriving DecidableEq, Repr

/-- The symbols of a text and where its scan ends. -/
def scan : Mode → List Char → List Symbol × Mode
  | mode, [] => ([], mode)
  | .outside, c :: s =>
    if c = '"' then scan (.inside []) s else (scan .outside s).map (.char c :: ·) id
  | .inside body, c :: s =>
    if c = '"' then (scan .outside s).map (.literal body :: ·) id
    else if c = '\\' then scan (.escaped body) s
    else scan (.inside (body ++ [c])) s
  | .escaped body, c :: s => scan (.inside (body ++ ['\\', c])) s

/-- The escapes of two characters. -/
def shortEscapes : List (Char × Char) :=
  [('"', '"'), ('\\', '\\'), ('/', '/'), ('b', '\x08'), ('f', '\x0c'), ('n', '\n'), ('r', '\r'),
    ('t', '\t')]

/-- What raw control characters in strings read as. -/
abbrev Reading := Char → Option Char

/-- JSON has no raw control characters in strings. -/
def strict : Reading := fun _ ↦ none

/-- Control characters: U+0000 to U+001F. -/
def isControl (c : Char) : Bool := c.toNat < 32

/-- The code units of the text of a literal, or code points where it has characters. -/
def units (raw : Reading) : List Char → Option (List Nat)
  | [] => some []
  | '\\' :: 'u' :: a :: b :: c :: d :: rest =>
    (unitValue a b c d).bind fun n ↦ (units raw rest).map (n :: ·)
  | '\\' :: e :: rest =>
    (shortEscapes.lookup e).bind fun d ↦ (units raw rest).map (d.toNat :: ·)
  | c :: rest =>
    if c = '\\' then none
    else
      (if isControl c then raw c else some c).bind fun d ↦ (units raw rest).map (d.toNat :: ·)

def isHigh (n : Nat) : Bool := 0xd800 ≤ n && n < 0xdc00

def isLow (n : Nat) : Bool := 0xdc00 ≤ n && n < 0xe000

/-- The character of a code point; half of a pair, which no text holds, is U+FFFD. -/
def codePoint (n : Nat) : Char := if isHigh n || isLow n then '\ufffd' else Char.ofNat n

/-- The characters of code units, of which two may make one. -/
def joinUnits : List Nat → List Char
  | [] => []
  | [n] => [codePoint n]
  | n :: m :: rest =>
    if isHigh n && isLow m then
      Char.ofNat (0x10000 + (n - 0xd800) * 0x400 + (m - 0xdc00)) :: joinUnits rest
    else codePoint n :: joinUnits (m :: rest)

/-- The string of a literal. -/
def readLiteral (raw : Reading) (body : List Char) : Option (List Char) :=
  (units raw body).map joinUnits

/-! ### Tokens -/

/-- Punctuation, a string, or a word: what stands between other tokens. -/
inductive Token where
  | punct (c : Char)
  | str (s : List Char)
  | word (w : List Char)
  deriving DecidableEq, Repr

/-- The character of a word. -/
def Symbol.word? : Symbol → Option Char
  | .char c => if isBlank c || isPunct c then none else some c
  | .literal _ => none

/-- The tokens of a symbol that belongs to no word. -/
def Symbol.read (raw : Reading) : Symbol → Option (List Token)
  | .char c => some (if isPunct c then [.punct c] else [])
  | .literal body => (readLiteral raw body).map fun s ↦ [.str s]

/-- The word that ends here, if there is one. -/
def flush (word : List Char) : List Token := if word = [] then [] else [.word word]

/-- The tokens of symbols behind the start of a word. -/
def tokens (raw : Reading) : List Char → List Symbol → Option (List Token)
  | word, [] => some (flush word)
  | word, x :: rest =>
    match x.word? with
    | some c => tokens raw (word ++ [c]) rest
    | none => do return flush word ++ (← x.read raw) ++ (← tokens raw [] rest)

/-- The tokens of a text. -/
def lex (raw : Reading) (text : List Char) : Option (List Token) :=
  match scan .outside text with
  | (symbols, .outside) => tokens raw [] symbols
  | _ => none

section Literals

/-- How the text of a literal is written. -/
inductive Units (raw : Reading) : List Char → List Nat → Prop
  | nil : Units raw [] []
  | plain {c : Char} {rest : List Char} {us : List Nat} (hback : c ≠ '\\')
      (hplain : isControl c = false) (h : Units raw rest us) :
      Units raw (c :: rest) (c.toNat :: us)
  | control {c d : Char} {rest : List Char} {us : List Nat} (hcontrol : isControl c = true)
      (hread : raw c = some d) (h : Units raw rest us) : Units raw (c :: rest) (d.toNat :: us)
  | short {e d : Char} {rest : List Char} {us : List Nat} (hshort : shortEscapes.lookup e = some d)
      (h : Units raw rest us) : Units raw ('\\' :: e :: rest) (d.toNat :: us)
  | unit {a b c d : Char} {n : Nat} {rest : List Char} {us : List Nat}
      (hunit : unitValue a b c d = some n) (h : Units raw rest us) :
      Units raw ('\\' :: 'u' :: a :: b :: c :: d :: rest) (n :: us)

variable {raw : Reading}

attribute [local simp] scan units joinUnits tokens Symbol.read in
private theorem units_short {e : Char} (he : e ≠ 'u') (rest : List Char) :
    units raw ('\\' :: e :: rest) =
      (shortEscapes.lookup e).bind fun d ↦ (units raw rest).map (d.toNat :: ·) := by
  rw [units]
  intro a b c d rest' h
  exact absurd h he

private theorem units_plain {c : Char} (hc : c ≠ '\\') (rest : List Char) :
    units raw (c :: rest) = (if isControl c then raw c else some c).bind fun d ↦
      (units raw rest).map (d.toNat :: ·) := by
  rw [units, if_neg hc]
  · intro a b c' d rest' h
    exact absurd h hc
  · intro e rest' h
    exact absurd h hc

/-- The reader of a literal, and what a literal is. -/
theorem units_eq_some_iff {body : List Char} {us : List Nat} :
    units raw body = some us ↔ Units raw body us := by
  constructor
  · intro h
    fun_induction units raw body generalizing us with
    | case1 =>
      cases h
      exact .nil
    | case2 a b c d rest ih =>
      obtain ⟨n, hn, h⟩ := Option.bind_eq_some_iff.mp h
      obtain ⟨us, hus, rfl⟩ := Option.map_eq_some_iff.mp h
      exact .unit hn (ih hus)
    | case3 e rest _ ih =>
      obtain ⟨d, hd, h⟩ := Option.bind_eq_some_iff.mp h
      obtain ⟨us, hus, rfl⟩ := Option.map_eq_some_iff.mp h
      exact .short hd (ih hus)
    | case4 => cases h
    | case5 c rest _ _ hback ih =>
      obtain ⟨d, hd, h⟩ := Option.bind_eq_some_iff.mp h
      obtain ⟨us, hus, rfl⟩ := Option.map_eq_some_iff.mp h
      split at hd
      · next hcontrol => exact .control hcontrol hd (ih hus)
      · next hplain =>
        cases hd
        exact .plain hback (by simpa using hplain) (ih hus)
  · intro h
    induction h with
    | nil => rfl
    | plain hback hplain _ ih =>
      rw [units_plain hback, hplain, ih]
      rfl
    | @control c d rest us hcontrol hread _ ih =>
      have hback : c ≠ '\\' := by
        rintro rfl
        cases hcontrol
      rw [units_plain hback, hcontrol, if_pos rfl, hread, ih]
      rfl
    | @short e d rest us hshort _ ih =>
      have hu : e ≠ 'u' := by
        rintro rfl
        cases hshort
      rw [units_short hu, hshort, ih]
      rfl
    | unit hunit _ ih =>
      rw [units, hunit, ih]
      rfl

/-- A hexadecimal digit is no control character. -/
theorem not_isControl_of_hexValue {c : Char} {n : Nat} (h : hexValue c = some n) :
    isControl c = false := by
  simp only [isControl, decide_eq_false_iff_not]
  unfold hexValue at h
  dsimp only at h
  split at h
  · omega
  split at h
  · omega
  split at h
  · omega
  · cases h

/-- Neither is the letter of a short escape. -/
theorem not_isControl_of_lookup {e d : Char} (h : shortEscapes.lookup e = some d) :
    isControl e = false := by
  have hall : ∀ p ∈ shortEscapes, isControl p.1 = false := by decide
  obtain ⟨before, after, hescapes, -⟩ := List.lookup_eq_some_iff.mp h
  exact hall (e, d) (by rw [hescapes]; simp)

/-- A code unit is written with four digits. -/
theorem hexValue_of_unitValue {a b c d : Char} {n : Nat} (h : unitValue a b c d = some n) :
    ∀ x ∈ [a, b, c, d], ∃ k, hexValue x = some k := by
  unfold unitValue at h
  obtain ⟨i, ha, h⟩ := Option.bind_eq_some_iff.mp h
  obtain ⟨j, hb, h⟩ := Option.bind_eq_some_iff.mp h
  obtain ⟨k, hc, h⟩ := Option.bind_eq_some_iff.mp h
  obtain ⟨l, hd, -⟩ := Option.bind_eq_some_iff.mp h
  simp [ha, hb, hc, hd]

/-- A literal has no raw control characters. -/
theorem Units.not_isControl {body : List Char} {us : List Nat} (h : Units strict body us) :
    ∀ c ∈ body, isControl c = false := by
  induction h with
  | nil => exact List.forall_mem_nil _
  | plain _ hplain _ ih => exact List.forall_mem_cons.mpr ⟨hplain, ih⟩
  | control _ hread => cases hread
  | short hshort _ ih =>
    rw [List.forall_mem_cons, List.forall_mem_cons]
    exact ⟨rfl, not_isControl_of_lookup hshort, ih⟩
  | @unit a b c d n rest us hunit _ ih =>
    have hdigits : ∀ x ∈ [a, b, c, d], isControl x = false := fun x hx ↦
      (hexValue_of_unitValue hunit x hx).elim fun _ ↦ not_isControl_of_hexValue
    simp only [List.forall_mem_cons] at hdigits ⊢
    exact ⟨rfl, rfl, hdigits.1, hdigits.2.1, hdigits.2.2.1, hdigits.2.2.2.1, ih⟩

end Literals

section Scanning

/-- A scan goes on where it stopped. -/
theorem scan_append (mode : Mode) (a b : List Char) :
    scan mode (a ++ b) =
      ((scan mode a).1 ++ (scan (scan mode a).2 b).1, (scan (scan mode a).2 b).2) := by
  induction mode, a using scan.induct with
  | case1 mode => rfl
  | case2 s ih => simpa [scan] using ih
  | case3 c s hquote ih => simp [scan, hquote, ih]
  | case4 body s ih => simp [scan, ih]
  | case5 body s hquote ih => simpa [scan] using ih
  | case6 body c s hquote hback ih => simpa [scan, hquote, hback] using ih
  | case7 body c s ih => simpa [scan] using ih

/-- Without quotes there are no literals. -/
theorem scan_of_not_mem {s : List Char} (h : '"' ∉ s) :
    scan .outside s = (s.map .char, .outside) := by
  induction s with
  | nil => rfl
  | cons c s ih =>
    rw [List.mem_cons, not_or] at h
    rw [scan, if_neg (Ne.symm h.1), ih h.2]
    rfl

/-- The text of the literal a scan is in. -/
def Mode.text : Mode → List Char
  | .outside => []
  | .inside body => body
  | .escaped body => body ++ ['\\']

/-- The first symbol of a scan that starts in a literal is that. -/
theorem scan_inside_eq {mode : Mode} (hmode : mode ≠ .outside) {s : List Char}
    (h : (scan mode s).2 = .outside) :
    ∃ body rest, (scan mode s).1 = .literal body :: rest ∧ mode.text <+: body := by
  induction mode, s using scan.induct with
  | case1 mode => exact absurd h hmode
  | case2 | case3 => exact absurd rfl hmode
  | case4 body s ih =>
    rw [scan, if_pos rfl]
    exact ⟨body, _, rfl, List.prefix_refl _⟩
  | case5 body s hquote ih =>
    rw [scan, if_neg hquote, if_pos rfl] at h ⊢
    obtain ⟨body', rest, hscan, htext⟩ := ih (by simp) h
    exact ⟨body', rest, hscan, (List.prefix_append _ _).trans htext⟩
  | case6 body c s hquote hback ih =>
    rw [scan, if_neg hquote, if_neg hback] at h ⊢
    obtain ⟨body', rest, hscan, htext⟩ := ih (by simp) h
    exact ⟨body', rest, hscan, (List.prefix_append _ _).trans htext⟩
  | case7 body c s ih =>
    rw [scan] at h ⊢
    obtain ⟨body', rest, hscan, htext⟩ := ih (by simp) h
    refine ⟨body', rest, hscan, List.IsPrefix.trans ?_ htext⟩
    exact ⟨[c], by simp [Mode.text]⟩

end Scanning

section Tokens

variable {raw : Reading}

/-- A character of a word goes to the word before it. -/
theorem tokens_word {word : List Char} {x : Symbol} {c : Char} (h : x.word? = some c)
    (rest : List Symbol) :
    tokens raw word (x :: rest) = tokens raw (word ++ [c]) rest := by
  rw [tokens, h]

/-- The word before a symbol that is no word character ends there. -/
theorem tokens_cons {word : List Char} {x : Symbol} (hx : x.word? = none) {rest : List Symbol}
    {ts : List Token} :
    tokens raw word (x :: rest) = some ts ↔
      ∃ m q, x.read raw = some m ∧ tokens raw [] rest = some q ∧ ts = flush word ++ m ++ q := by
  have hunfold : tokens raw word (x :: rest) = (x.read raw).bind fun m ↦
      (tokens raw [] rest).bind fun q ↦ some (flush word ++ m ++ q) := by
    rw [tokens, hx]
    rfl
  rw [hunfold]
  constructor
  · intro h
    obtain ⟨m, hm, h⟩ := Option.bind_eq_some_iff.mp h
    obtain ⟨q, hq, h⟩ := Option.bind_eq_some_iff.mp h
    exact ⟨m, q, hm, hq, (Option.some.inj h).symm⟩
  · rintro ⟨m, q, hm, hq, rfl⟩
    rw [hm, hq]
    rfl

/-- A symbol that belongs to no word parts the tokens. -/
theorem tokens_break {x : Symbol} (hx : x.word? = none) {word : List Char} {a b : List Symbol}
    {ts : List Token} :
    tokens raw word (a ++ x :: b) = some ts ↔ ∃ p m q, tokens raw word a = some p ∧
      x.read raw = some m ∧ tokens raw [] b = some q ∧ ts = p ++ m ++ q := by
  induction word, a using tokens.induct generalizing ts with
  | case1 word =>
    rw [List.nil_append, tokens_cons hx, tokens]
    simp
  | case2 word y rest c hy ih =>
    rw [List.cons_append, tokens_word hy, tokens_word hy, ih]
  | case3 word y rest hy ih =>
    rw [List.cons_append, tokens_cons hy]
    constructor
    · rintro ⟨n, r, hn, hr, rfl⟩
      obtain ⟨p, m, q, hp, hm, hq, rfl⟩ := ih.mp hr
      refine ⟨_, m, q, (tokens_cons hy).mpr ⟨n, p, hn, hp, rfl⟩, hm, hq, ?_⟩
      simp only [List.append_assoc]
    · rintro ⟨p, m, q, hp, hm, hq, rfl⟩
      obtain ⟨n, r, hn, hr, rfl⟩ := (tokens_cons hy).mp hp
      refine ⟨n, _, hn, ih.mpr ⟨r, m, q, hr, hm, hq, rfl⟩, ?_⟩
      simp only [List.append_assoc]

/-- Behind the start of a word comes that word. -/
theorem head_tokens {word : List Char} (hword : word ≠ []) {symbols : List Symbol}
    {ts : List Token} (h : tokens raw word symbols = some ts) :
    ∃ w rest, ts = .word (word ++ w) :: rest := by
  induction word, symbols using tokens.induct generalizing ts with
  | case1 word =>
    cases h
    exact ⟨[], [], by simp [flush, hword]⟩
  | case2 word x rest c hx ih =>
    rw [tokens_word hx] at h
    obtain ⟨w, ts', rfl⟩ := ih (by simp) h
    exact ⟨c :: w, ts', by simp⟩
  | case3 word x rest hx ih =>
    obtain ⟨m, q, -, -, rfl⟩ := (tokens_cons hx).mp h
    exact ⟨[], m ++ q, by simp [flush, hword]⟩

/-- A word at the end is the last token. -/
theorem tokens_concat_word {word : List Char} {a : List Symbol} {x : Symbol} {c : Char}
    (hx : x.word? = some c) {ts : List Token} (h : tokens raw word (a ++ [x]) = some ts) :
    ∃ p w, ts = p ++ [.word w] := by
  induction word, a using tokens.induct generalizing ts with
  | case1 word =>
    rw [List.nil_append, tokens_word hx, tokens, flush, if_neg (by simp), Option.some.injEq] at h
    exact ⟨[], _, h.symm⟩
  | case2 word y rest d hy ih =>
    rw [List.cons_append, tokens_word hy] at h
    exact ih h
  | case3 word y rest hy ih =>
    obtain ⟨m, q, -, hq, rfl⟩ := (tokens_cons hy).mp h
    obtain ⟨p, w, rfl⟩ := ih hq
    exact ⟨flush word ++ m ++ p, w, by simp⟩

/-- The characters of words are in words. -/
theorem mem_word_tokens {word : List Char} {symbols : List Symbol} {ts : List Token}
    (h : tokens raw word symbols = some ts) {x : Symbol} (hx : x ∈ symbols) {c : Char}
    (hc : x.word? = some c) : ∃ w, .word w ∈ ts ∧ c ∈ w := by
  obtain ⟨a, b, rfl⟩ := List.append_of_mem hx
  induction word, a using tokens.induct generalizing ts with
  | case1 word =>
    rw [List.nil_append, tokens_word hc] at h
    obtain ⟨w, rest, rfl⟩ := head_tokens (by simp) h
    exact ⟨_, List.mem_cons_self, by simp⟩
  | case2 word y rest d hy ih =>
    rw [List.cons_append, tokens_word hy] at h
    exact ih h (by simp)
  | case3 word y rest hy ih =>
    rw [List.cons_append, tokens_cons hy] at h
    obtain ⟨m, q, -, hq, rfl⟩ := h
    obtain ⟨w, hw, hmem⟩ := ih hq (by simp)
    exact ⟨w, List.mem_append_right _ hw, hmem⟩

end Tokens

section Lexing

variable {raw : Reading}

/-- A text has tokens if its literals are closed and read. -/
theorem lex_eq_some_iff {s : List Char} {ts : List Token} :
    lex raw s = some ts ↔
      (scan .outside s).2 = .outside ∧ tokens raw [] (scan .outside s).1 = some ts := by
  unfold lex
  split
  · next symbols hscan => simp [hscan]
  · next hscan =>
    constructor
    · intro h
      cases h
    · rintro ⟨hmode, -⟩
      have heq : scan .outside s = ((scan .outside s).1, .outside) := Prod.ext rfl hmode
      exact absurd heq (hscan _)

/-- White space or punctuation. -/
def isBreak (c : Char) : Bool := isBlank c || isPunct c

/-- The tokens of white space or punctuation. -/
def breakTokens (c : Char) : List Token := if isPunct c then [.punct c] else []

/-- A quote breaks no word. -/
theorem ne_quote_of_isBreak {c : Char} (h : isBreak c = true) : c ≠ '"' := by
  rintro rfl
  cases h

/-- Punctuation breaks a word. -/
theorem isBreak_of_isPunct {c : Char} (h : isPunct c = true) : isBreak c = true := by
  rw [isBreak, h, Bool.or_true]

/-- Between literals a text breaks at white space and punctuation. -/
theorem lex_break {c : Char} (hc : isBreak c = true) {x y : List Char}
    (hx : (scan .outside x).2 = .outside) {ts : List Token} :
    lex raw (x ++ c :: y) = some ts ↔ ∃ p q, lex raw x = some p ∧ lex raw y = some q ∧
      ts = p ++ breakTokens c ++ q := by
  have hword : (Symbol.char c).word? = none := if_pos hc
  have hscan : scan .outside (c :: y) = (scan .outside y).map (.char c :: ·) id := by
    rw [scan, if_neg (ne_quote_of_isBreak hc)]
  rw [lex_eq_some_iff, scan_append, hx, hscan, Prod.map_fst, Prod.map_snd, tokens_break hword]
  simp only [lex_eq_some_iff, hx, true_and]
  constructor
  · rintro ⟨hy, p, m, q, hp, hm, hq, rfl⟩
    cases hm
    exact ⟨p, q, hp, ⟨hy, hq⟩, rfl⟩
  · rintro ⟨p, q, hp, ⟨hy, hq⟩, rfl⟩
    exact ⟨hy, p, _, q, hp, rfl, hq, rfl⟩

/-- The empty text has no tokens. -/
theorem lex_nil : lex raw [] = some [] := rfl

/-- A break is lexed on its own. -/
theorem lex_cons_break {c : Char} (hc : isBreak c = true) {s : List Char} {ts : List Token} :
    lex raw (c :: s) = some ts ↔ ∃ q, lex raw s = some q ∧ ts = breakTokens c ++ q := by
  have hlex : lex raw ([] ++ c :: s) = some ts ↔ ∃ p q, lex raw [] = some p ∧
      lex raw s = some q ∧ ts = p ++ breakTokens c ++ q := lex_break hc rfl
  rw [List.nil_append] at hlex
  simpa [lex_nil] using hlex

/-- Another character begins a literal or a word. -/
theorem lex_cons_other {c : Char} (hc : isBreak c ≠ true) {s : List Char} {ts : List Token}
    (h : lex raw (c :: s) = some ts) : ∃ t rest, ts = t :: rest ∧ ∀ d, t ≠ .punct d := by
  obtain ⟨hmode, htokens⟩ := lex_eq_some_iff.mp h
  by_cases hquote : c = '"'
  · rw [scan, if_pos hquote] at hmode htokens
    obtain ⟨body, rest, hsymbols, -⟩ := scan_inside_eq (by simp) hmode
    rw [hsymbols, tokens_cons rfl] at htokens
    obtain ⟨m, q, hm, -, rfl⟩ := htokens
    obtain ⟨str, -, rfl⟩ := Option.map_eq_some_iff.mp hm
    exact ⟨.str str, q, rfl, by simp⟩
  · have hword : (Symbol.char c).word? = some c := if_neg hc
    rw [scan, if_neg hquote, Prod.map_fst, tokens_word hword] at htokens
    obtain ⟨w, rest, rfl⟩ := head_tokens (by simp) htokens
    exact ⟨_, rest, rfl, by simp⟩

private theorem isPunct_of_isBlank {c : Char} (h : isBlank c = true) : isPunct c = false := by
  simp only [isBlank, Bool.or_eq_true, decide_eq_true_eq] at h
  rcases h with ((rfl | rfl) | rfl) | rfl <;> rfl

/-- White space in front has no tokens. -/
theorem lex_blank_append {a : List Char} (ha : ∀ c ∈ a, isBlank c = true) (s : List Char) :
    lex raw (a ++ s) = lex raw s := by
  induction a with
  | nil => rfl
  | cons c a ih =>
    rw [List.forall_mem_cons] at ha
    have hbreak : isBreak c = true := by rw [isBreak, ha.1, Bool.true_or]
    rw [List.cons_append, ← ih ha.2]
    ext ts
    rw [lex_cons_break hbreak]
    simp [breakTokens, isPunct_of_isBlank ha.1, eq_comm]

/-- White space behind has no tokens. -/
theorem lex_append_blank {s : List Char} (hs : (scan .outside s).2 = .outside) {b : List Char}
    (hb : ∀ c ∈ b, isBlank c = true) : lex raw (s ++ b) = lex raw s := by
  cases b with
  | nil => rw [List.append_nil]
  | cons c b =>
    rw [List.forall_mem_cons] at hb
    have hbreak : isBreak c = true := by rw [isBreak, hb.1, Bool.true_or]
    have hblank : lex raw b = some [] := by
      have hnil : lex raw (b ++ []) = lex raw [] := lex_blank_append hb.2 []
      rwa [List.append_nil, lex_nil] at hnil
    ext ts
    rw [lex_break hbreak hs, hblank]
    simp [breakTokens, isPunct_of_isBlank hb.1, eq_comm]

/-- A text that breaks in a literal has the string of that. -/
theorem lex_inside {x y : List Char} (hx : (scan .outside x).2 ≠ .outside) {ts : List Token}
    (h : lex raw (x ++ y) = some ts) :
    ∃ body us p q, Units raw body us ∧ (scan .outside x).2.text <+: body ∧
      tokens raw [] (scan .outside x).1 = some p ∧ ts = p ++ .str (joinUnits us) :: q := by
  rw [lex_eq_some_iff, scan_append] at h
  obtain ⟨hmode, htokens⟩ := h
  obtain ⟨body, rest, hsymbols, htext⟩ := scan_inside_eq hx hmode
  dsimp only at htokens
  rw [hsymbols, tokens_break rfl] at htokens
  obtain ⟨p, m, q, hp, hm, -, rfl⟩ := htokens
  obtain ⟨s, hs, rfl⟩ := Option.map_eq_some_iff.mp hm
  obtain ⟨us, hus, rfl⟩ := Option.map_eq_some_iff.mp hs
  exact ⟨body, us, p, q, units_eq_some_iff.mp hus, htext, hp, by simp⟩

/-- A line break is in no literal. -/
theorem outside_of_lex_newline {x y : List Char} {ts : List Token}
    (h : lex strict (x ++ '\n' :: y) = some ts) : (scan .outside x).2 = .outside := by
  by_contra hx
  have hstay : (scan .outside (x ++ ['\n'])).2 ≠ .outside ∧
      '\n' ∈ (scan .outside (x ++ ['\n'])).2.text := by
    rw [scan_append]
    cases hmode : (scan .outside x).2 with
    | outside => exact absurd hmode hx
    | inside body => simp [scan, Mode.text]
    | escaped body => simp [scan, Mode.text]
  rw [List.append_cons] at h
  obtain ⟨body, us, -, -, hunits, htext, -⟩ := lex_inside hstay.1 h
  cases hunits.not_isControl _ (htext.subset hstay.2)

/-- A text breaks into its lines. -/
theorem lex_newline {x y : List Char} {ts : List Token}
    (h : lex strict (x ++ '\n' :: y) = some ts) :
    ∃ p q, lex strict x = some p ∧ lex strict y = some q ∧ ts = p ++ q := by
  obtain ⟨p, q, hp, hq, rfl⟩ := (lex_break rfl (outside_of_lex_newline h)).mp h
  exact ⟨p, q, hp, hq, by simp [breakTokens, isPunct]⟩

/-- What a text with punctuation in front begins with. -/
theorem lex_punct_cons {s : List Char} {c : Char} {ts : List Token}
    (h : lex raw s = some (.punct c :: ts)) :
    ∃ blank rest, s = blank ++ c :: rest ∧ (∀ d ∈ blank, isBlank d = true) ∧
      lex raw rest = some ts := by
  induction s with
  | nil => cases h
  | cons d s ih =>
    by_cases hbreak : isBreak d = true
    · obtain ⟨q, hq, hts⟩ := (lex_cons_break hbreak).mp h
      unfold breakTokens at hts
      split at hts
      · cases hts
        exact ⟨[], s, rfl, List.forall_mem_nil _, hq⟩
      · next hpunct =>
        rw [List.nil_append] at hts
        subst hts
        obtain ⟨blank, rest, rfl, hblank, hrest⟩ := ih hq
        refine ⟨d :: blank, rest, rfl, List.forall_mem_cons.mpr ⟨?_, hblank⟩, hrest⟩
        simpa [isBreak, hpunct] using hbreak
    · obtain ⟨t, rest, hts, ht⟩ := lex_cons_other hbreak h
      exact absurd (List.cons.inj hts).1.symm (ht c)

/-- What a text with punctuation behind ends with. -/
theorem lex_concat_punct {s : List Char} {c : Char} {ts : List Token}
    (h : lex raw s = some (ts ++ [.punct c])) :
    ∃ rest blank, s = rest ++ c :: blank ∧ (∀ d ∈ blank, isBlank d = true) ∧
      lex raw rest = some ts := by
  induction s using List.reverseRecOn with
  | nil =>
    rw [lex_nil] at h
    simp at h
  | append_singleton s d ih =>
    by_cases hmode : (scan .outside s).2 = .outside
    · by_cases hbreak : isBreak d = true
      · obtain ⟨p, q, hp, hq, hts⟩ := (lex_break hbreak hmode).mp h
        rw [lex_nil, Option.some.injEq] at hq
        rw [← hq, List.append_nil] at hts
        unfold breakTokens at hts
        split at hts
        · obtain ⟨rfl, hpunct⟩ := List.append_inj' hts rfl
          cases hpunct
          exact ⟨s, [], rfl, List.forall_mem_nil _, hp⟩
        · next hpunct =>
          rw [List.append_nil] at hts
          rw [← hts] at hp
          obtain ⟨rest, blank, rfl, hblank, hrest⟩ := ih hp
          refine ⟨rest, blank ++ [d], by simp, ?_, hrest⟩
          rw [List.forall_mem_append]
          refine ⟨hblank, List.forall_mem_singleton.mpr ?_⟩
          simpa [isBreak, hpunct] using hbreak
      · obtain ⟨hend, htokens⟩ := lex_eq_some_iff.mp h
        rw [scan_append, hmode] at hend htokens
        by_cases hquote : d = '"'
        · simp [scan, hquote] at hend
        · have hscan : (scan .outside [d]).1 = [.char d] := by simp [scan, hquote]
          dsimp only at htokens
          rw [hscan] at htokens
          have hword : (Symbol.char d).word? = some d := if_neg hbreak
          obtain ⟨p, w, hts⟩ := tokens_concat_word hword htokens
          cases (List.append_inj' hts rfl).2
    · -- the literal that ends the text is the last token
      obtain ⟨hend, htokens⟩ := lex_eq_some_iff.mp h
      rw [scan_append] at hend htokens
      obtain ⟨body, hscan⟩ :
          ∃ body, (scan (scan .outside s).2 [d]).1 = [.literal body] := by
        cases hin : (scan .outside s).2 with
        | outside => exact absurd hin hmode
        | inside body =>
          rw [hin] at hend
          refine ⟨body, ?_⟩
          by_cases hquote : d = '"'
          · simp [scan, hquote]
          · by_cases hback : d = '\\' <;> simp [scan, hquote, hback] at hend
        | escaped body => simp [hin, scan] at hend
      dsimp only at htokens
      rw [hscan, tokens_break rfl] at htokens
      obtain ⟨p, m, q, -, hm, hq, hts⟩ := htokens
      obtain ⟨str, -, rfl⟩ := Option.map_eq_some_iff.mp hm
      cases hq
      rw [flush, if_pos rfl, List.append_nil] at hts
      cases (List.append_inj' hts rfl).2

/-- A text without tokens is white space. -/
theorem isBlank_of_lex_nil {s : List Char} (h : lex raw s = some []) :
    ∀ c ∈ s, isBlank c = true := by
  induction s with
  | nil => exact List.forall_mem_nil _
  | cons d s ih =>
    rw [List.forall_mem_cons]
    by_cases hbreak : isBreak d = true
    · obtain ⟨q, hq, hts⟩ := (lex_cons_break hbreak).mp h
      obtain ⟨hfront, rfl⟩ := List.append_eq_nil_iff.mp hts.symm
      have hpunct : isPunct d = false := by
        by_contra hpunct
        rw [Bool.not_eq_false] at hpunct
        simp [breakTokens, hpunct] at hfront
      rw [isBreak, hpunct, Bool.or_false] at hbreak
      exact ⟨hbreak, ih hq⟩
    · obtain ⟨t, rest, hts, -⟩ := lex_cons_other hbreak h
      cases hts

/-- The lines of a text have its tokens. -/
theorem lex_lines {s : List Char} {ts : List Token} (h : lex strict s = some ts) {l : List Char}
    (hl : l ∈ s.splitOn '\n') : ∃ q, lex strict l = some q ∧ q ⊆ ts := by
  have hlines : ∀ (ls : List (List Char)) (ts : List Token),
      lex strict (['\n'].intercalate ls) = some ts → l ∈ ls →
        ∃ q, lex strict l = some q ∧ q ⊆ ts := by
    intro ls
    induction ls with
    | nil => exact fun _ _ hmem ↦ absurd hmem List.not_mem_nil
    | cons first ls ih =>
      intro ts hts hmem
      cases ls with
      | nil =>
        rw [List.mem_singleton.mp hmem]
        rw [List.intercalate_singleton] at hts
        exact ⟨ts, hts, List.Subset.refl ts⟩
      | cons next ls =>
        rw [List.intercalate_cons_cons, List.append_assoc, List.singleton_append] at hts
        obtain ⟨p, q, hp, hq, rfl⟩ := lex_newline hts
        rcases List.mem_cons.mp hmem with rfl | hmem
        · exact ⟨p, hp, List.subset_append_left p q⟩
        · obtain ⟨q', hq', hsub⟩ := ih q hq hmem
          exact ⟨q', hq', List.Subset.trans hsub (List.subset_append_right p q)⟩
  exact hlines _ ts (by rwa [List.intercalate_splitOn]) hl

/-- Without literals the other characters of a text are in words. -/
theorem mem_word_lex {s : List Char} (hquote : '"' ∉ s) {ts : List Token}
    (h : lex raw s = some ts) {c : Char} (hc : c ∈ s) (hbreak : isBreak c ≠ true) :
    ∃ w, .word w ∈ ts ∧ c ∈ w := by
  obtain ⟨-, htokens⟩ := lex_eq_some_iff.mp h
  rw [scan_of_not_mem hquote] at htokens
  exact mem_word_tokens htokens (List.mem_map_of_mem hc) (if_neg hbreak)

end Lexing

end WikiMind.Base.Json
