import WikiMind.Base.JsonReading
import WikiMind.Base.JsonString

/-!
# Lists of strings in JSON

Library: `json.dumps` of a list of strings, which is read back, and a bound on the strings of a
text: each takes two quotes.
-/

namespace WikiMind.Base.Json

open WikiMind.Base.Hex

/-! ### Literals -/

section Literals

variable {raw : Reading}

/-- The code units of a character beyond the first plane are two, otherwise it is one. -/
def unitsOf (c : Char) : List Nat :=
  if c.toNat < 0x10000 then [c.toNat]
  else [0xd800 + (c.toNat - 0x10000) / 0x400, 0xdc00 + (c.toNat - 0x10000) % 0x400]

private theorem joinUnits_toNat (c : Char) (us : List Nat) :
    joinUnits (c.toNat :: us) = c :: joinUnits us := by
  have hvalid : c.toNat < 0xd800 ∨ (0xdfff < c.toNat ∧ c.toNat < 0x110000) := c.valid
  have hhigh : isHigh c.toNat = false := by
    simp only [isHigh, Bool.and_eq_false_iff, decide_eq_false_iff_not]
    omega
  have hlow : isLow c.toNat = false := by
    simp only [isLow, Bool.and_eq_false_iff, decide_eq_false_iff_not]
    omega
  have hpoint : codePoint c.toNat = c := by
    rw [codePoint, hhigh, hlow, Bool.or_self, if_neg Bool.false_ne_true, Char.ofNat_toNat]
  cases us with
  | nil => exact congrArg (fun d ↦ [d]) hpoint
  | cons m us =>
    rw [joinUnits, hhigh, Bool.false_and, if_neg Bool.false_ne_true, hpoint]

private theorem joinUnits_unitsOf (c : Char) (us : List Nat) :
    joinUnits (unitsOf c ++ us) = c :: joinUnits us := by
  have hvalid : c.toNat < 0xd800 ∨ (0xdfff < c.toNat ∧ c.toNat < 0x110000) := c.valid
  unfold unitsOf
  split
  · exact joinUnits_toNat c us
  · next hlarge =>
    have hhigh : isHigh (0xd800 + (c.toNat - 0x10000) / 0x400) = true := by
      simp only [isHigh, Bool.and_eq_true, decide_eq_true_eq]
      omega
    have hlow : isLow (0xdc00 + (c.toNat - 0x10000) % 0x400) = true := by
      simp only [isLow, Bool.and_eq_true, decide_eq_true_eq]
      omega
    have hsum : 0x10000 + (0xd800 + (c.toNat - 0x10000) / 0x400 - 0xd800) * 0x400 +
        (0xdc00 + (c.toNat - 0x10000) % 0x400 - 0xdc00) = c.toNat := by omega
    rw [List.cons_append, List.cons_append, List.nil_append, joinUnits, hhigh, hlow, Bool.and_self,
      if_pos rfl, hsum, Char.ofNat_toNat]

/-- A text without escapes and control characters is its own literal. -/
theorem readLiteral_plain {s : List Char} (hback : '\\' ∉ s)
    (hplain : ∀ c ∈ s, isControl c = false) : readLiteral raw s = some s := by
  rw [readLiteral_eq_some_iff]
  refine ⟨s.map Char.toNat, ?_, ?_⟩
  · induction s with
    | nil => exact .nil
    | cons c s ih =>
      rw [List.mem_cons, not_or] at hback
      rw [List.forall_mem_cons] at hplain
      exact .plain (Ne.symm hback.1) hplain.1 (ih hback.2 hplain.2)
  · clear hback hplain
    induction s with
    | nil => rfl
    | cons c s ih => rw [List.map_cons, joinUnits_toNat, ih]

/-- A text without quotes and backslashes is the body of a literal. -/
theorem body_plain {s : List Char} (hquote : '"' ∉ s) (hback : '\\' ∉ s) : Body s := by
  induction s with
  | nil => exact .nil
  | cons c s ih =>
    rw [List.mem_cons, not_or] at hquote hback
    exact .plain (Ne.symm hquote.1) (Ne.symm hback.1) (ih hquote.2 hback.2)

private theorem lookup_shortEscapes {c e : Char} (h : JsonString.shortOf c = some e) :
    shortEscapes.lookup e = some c := by
  have hall : ∀ p ∈ JsonString.short, shortEscapes.lookup p.2 = some p.1 := by decide
  obtain ⟨p, hp, rfl⟩ := Option.map_eq_some_iff.mp h
  have hc : p.1 = c := by simpa using List.find?_some hp
  rw [← hc]
  exact hall p (List.mem_of_find?_eq_some hp)

private theorem units_codeUnit {n : Nat} (h : n < 0x10000) {rest : List Char} {us : List Nat}
    (hrest : Units raw rest us) : Units raw (JsonString.codeUnit n ++ rest) (n :: us) :=
  .unit (unitValue_hexDigit h) hrest

/-- The escape of a character has its code units. -/
theorem units_escapeChar (c : Char) {rest : List Char} {us : List Nat}
    (hrest : Units raw rest us) :
    Units raw (JsonString.escapeChar c ++ rest) (unitsOf c ++ us) := by
  have hvalid : c.toNat < 0xd800 ∨ (0xdfff < c.toNat ∧ c.toNat < 0x110000) := c.valid
  unfold JsonString.escapeChar
  split
  · next e he =>
    have hsmall : ∀ p ∈ JsonString.short, p.1.toNat < 0x10000 := by decide
    obtain ⟨p, hp, -⟩ := Option.map_eq_some_iff.mp he
    have hc : p.1 = c := by simpa using List.find?_some hp
    rw [unitsOf, if_pos (hc ▸ hsmall p (List.mem_of_find?_eq_some hp))]
    exact .short (lookup_shortEscapes he) hrest
  · next he =>
    obtain ⟨-, hback, -⟩ := JsonString.ne_of_shortOf he
    split
    · next hprintable =>
      rw [unitsOf, if_pos (by omega)]
      refine .plain hback ?_ hrest
      simp only [isControl, decide_eq_false_iff_not]
      omega
    · split
      · next hsmall =>
        rw [unitsOf, if_pos hsmall]
        exact units_codeUnit hsmall hrest
      · next hlarge =>
        rw [unitsOf, if_neg hlarge, List.append_assoc]
        exact units_codeUnit (by omega) (units_codeUnit (by omega) hrest)

/-- What `json.dumps` makes of a string is read back. -/
theorem readLiteral_escaped (s : List Char) :
    readLiteral raw (s.flatMap JsonString.escapeChar) = some s := by
  rw [readLiteral_eq_some_iff]
  refine ⟨s.flatMap unitsOf, ?_, ?_⟩
  · induction s with
    | nil => exact .nil
    | cons c s ih =>
      rw [List.flatMap_cons, List.flatMap_cons]
      exact units_escapeChar c ih
  · induction s with
    | nil => rfl
    | cons c s ih => rw [List.flatMap_cons, joinUnits_unitsOf, ih]

private theorem body_codeUnit {n : Nat} (h : n < 0x10000) {rest : List Char} (hrest : Body rest) :
    Body (JsonString.codeUnit n ++ rest) := by
  have hall : ∀ n < 16, hexDigit n ≠ '"' ∧ hexDigit n ≠ '\\' := by decide
  have h1 := hall (n / 4096) (by omega)
  have h2 := hall (n / 256 % 16) (by omega)
  have h3 := hall (n / 16 % 16) (by omega)
  have h4 := hall (n % 16) (by omega)
  exact .escape (.plain h1.1 h1.2 (.plain h2.1 h2.2 (.plain h3.1 h3.2 (.plain h4.1 h4.2 hrest))))

private theorem body_escaped (s : List Char) : Body (s.flatMap JsonString.escapeChar) := by
  induction s with
  | nil => exact .nil
  | cons c s ih =>
    have hvalid : c.toNat < 0xd800 ∨ (0xdfff < c.toNat ∧ c.toNat < 0x110000) := c.valid
    rw [List.flatMap_cons]
    unfold JsonString.escapeChar
    split
    · exact .escape ih
    · next he =>
      obtain ⟨hquote, hback, -⟩ := JsonString.ne_of_shortOf he
      split
      · exact .plain hquote hback ih
      · split
        · next hsmall => exact body_codeUnit hsmall ih
        · next hlarge =>
          rw [List.append_assoc]
          exact body_codeUnit (by omega) (body_codeUnit (by omega) ih)

/-- A closed literal is a token. -/
theorem lex_literal {body s : List Char} (hbody : Body body) (hs : readLiteral raw body = some s)
    {rest : List Char} {ts : List Token} :
    lex raw ('"' :: (body ++ '"' :: rest)) = some ts ↔
      ∃ q, lex raw rest = some q ∧ ts = .str s :: q := by
  have hread : (Symbol.literal body).read raw = some [.str s] := by rw [Symbol.read, hs]; rfl
  rw [lex_eq_some_iff, hbody.scan_literal, Prod.map_fst, Prod.map_snd, tokens_cons rfl, hread]
  simp only [lex_eq_some_iff, id_eq]
  constructor
  · rintro ⟨hmode, m, q, hm, hq, rfl⟩
    cases hm
    exact ⟨q, ⟨hmode, hq⟩, rfl⟩
  · rintro ⟨q, ⟨hmode, hq⟩, rfl⟩
    exact ⟨hmode, _, q, rfl, hq, rfl⟩

end Literals

/-! ### Lists of strings -/

/-- A list of strings as a value. -/
def strings (items : List (List Char)) : JsonValue :=
  .arr (items.map fun s ↦ .str (String.ofList s))

/-- `json.dumps` of a list of strings. -/
def dumpsStrings (items : List (List Char)) : List Char :=
  '[' :: (", ".toList.intercalate (items.map JsonString.dumps) ++ [']'])

/-- The tokens of a list of strings. -/
def stringTokens (items : List (List Char)) : List Token :=
  .punct '[' :: (commaSeparated (items.map fun s ↦ [.str s]) ++ [.punct ']'])

/-- The tokens of a list of strings are its value. -/
theorem value_stringTokens (items : List (List Char)) :
    Value (stringTokens items) (strings items) := by
  have h : Value (.punct '[' :: (commaSeparated ((items.map fun s ↦
      ([Token.str s], JsonValue.str (String.ofList s))).map fun p ↦ p.1) ++ [.punct ']']))
      (.arr ((items.map fun s ↦ ([Token.str s], JsonValue.str (String.ofList s))).map
        fun p ↦ p.2)) := by
    refine .arr _ fun p hp ↦ ?_
    obtain ⟨s, -, rfl⟩ := List.mem_map.mp hp
    exact .str s
  rw [List.map_map, List.map_map] at h
  exact h

private theorem lex_dumps (s rest : List Char) {raw : Reading} {ts : List Token} :
    lex raw (JsonString.dumps s ++ rest) = some ts ↔
      ∃ q, lex raw rest = some q ∧ ts = .str s :: q := by
  rw [JsonString.dumps, List.cons_append, List.append_assoc, List.singleton_append]
  exact lex_literal (body_escaped s) (readLiteral_escaped s)

/-- What `json.dumps` makes of a list of strings has their tokens. -/
theorem lex_dumpsStrings (raw : Reading) (items : List (List Char)) :
    lex raw (dumpsStrings items) = some (stringTokens items) := by
  have hitems : lex raw (", ".toList.intercalate (items.map JsonString.dumps) ++ [']']) =
      some (commaSeparated (items.map fun s ↦ [.str s]) ++ [.punct ']']) := by
    induction items with
    | nil => exact (lex_cons_break rfl).mpr ⟨[], lex_nil, rfl⟩
    | cons s items ih =>
      cases items with
      | nil =>
        rw [List.map_singleton, List.map_singleton, List.intercalate_singleton,
          commaSeparated_singleton]
        exact (lex_dumps s [']']).mpr ⟨_, (lex_cons_break rfl).mpr ⟨[], lex_nil, rfl⟩, rfl⟩
      | cons next items =>
        rw [List.map_cons, List.map_cons, List.intercalate_cons_cons, List.append_assoc,
          List.append_assoc, List.map_cons, List.map_cons, commaSeparated_cons_cons,
          List.append_assoc]
        refine (lex_dumps s _).mpr ⟨_, ?_, rfl⟩
        refine (lex_cons_break (c := ',') rfl).mpr ⟨_, ?_, rfl⟩
        exact (lex_cons_break (c := ' ') rfl).mpr ⟨_, ih, rfl⟩
  exact (lex_cons_break rfl).mpr ⟨_, hitems, rfl⟩

/-! ### The number of strings -/

/-- A token is a string. -/
def Token.isStr : Token → Bool
  | .str _ => true
  | _ => false

/-- A symbol is a literal. -/
def Symbol.isLiteral : Symbol → Bool
  | .literal _ => true
  | .char _ => false

/-- Each literal of a scan takes two quotes, of which the first may stand before it. -/
theorem countP_scan (mode : Mode) (s : List Char) :
    2 * (scan mode s).1.countP Symbol.isLiteral ≤
      s.count '"' + if mode = .outside then 0 else 1 := by
  induction mode, s using scan.induct with
  | case1 mode => simp [scan]
  | case2 s ih =>
    rw [scan, if_pos rfl, List.count_cons_self]
    simpa using ih
  | case3 c s hquote ih =>
    rw [scan, if_neg hquote, List.count_cons_of_ne hquote]
    simpa [Symbol.isLiteral] using ih
  | case4 body s ih =>
    rw [scan, if_pos rfl, List.count_cons_self]
    simp only [if_pos, Prod.map_fst, List.countP_cons, Symbol.isLiteral] at ih ⊢
    simp
    omega
  | case5 body s hquote ih =>
    rw [scan, if_neg hquote, if_pos rfl, List.count_cons_of_ne hquote]
    simpa using ih
  | case6 body c s hquote hback ih =>
    rw [scan, if_neg hquote, if_neg hback, List.count_cons_of_ne hquote]
    simpa using ih
  | case7 body c s ih =>
    rw [scan]
    refine (ih.trans ?_)
    simpa using List.count_le_count_cons

private theorem countP_flush (word : List Char) : (flush word).countP Token.isStr = 0 := by
  unfold flush
  split <;> rfl

/-- The strings of tokens are the literals of their symbols. -/
theorem countP_tokens {raw : Reading} {word : List Char} {symbols : List Symbol} {ts : List Token}
    (h : tokens raw word symbols = some ts) :
    ts.countP Token.isStr = symbols.countP Symbol.isLiteral := by
  induction word, symbols using tokens.induct generalizing ts with
  | case1 word =>
    cases h
    exact countP_flush word
  | case2 word x rest c hx ih =>
    rw [tokens_word hx] at h
    cases x with
    | literal body => cases hx
    | char d => simpa [Symbol.isLiteral] using ih h
  | case3 word x rest hx ih =>
    obtain ⟨m, q, hm, hq, rfl⟩ := (tokens_cons hx).mp h
    rw [List.countP_append, List.countP_append, countP_flush, ih hq, List.countP_cons, Nat.zero_add,
      Nat.add_comm]
    congr 1
    cases x with
    | char c =>
      cases hm
      by_cases hpunct : isPunct c = true <;> simp [hpunct, Token.isStr, Symbol.isLiteral]
    | literal body =>
      obtain ⟨s, -, rfl⟩ := Option.map_eq_some_iff.mp hm
      rfl

/-- A text has at most half as many strings as quotes. -/
theorem countP_lex {raw : Reading} {s : List Char} {ts : List Token} (h : lex raw s = some ts) :
    2 * ts.countP Token.isStr ≤ s.count '"' := by
  rw [countP_tokens (lex_eq_some_iff.mp h).2]
  simpa using countP_scan .outside s

private theorem countP_commaSeparated (items : List (List Token)) :
    (commaSeparated items).countP Token.isStr = (items.map (List.countP Token.isStr)).sum := by
  induction items with
  | nil => rfl
  | cons ts items ih =>
    cases items with
    | nil => simp
    | cons next items =>
      rw [commaSeparated_cons_cons, List.countP_append, List.countP_cons, ih]
      simp [Token.isStr]

/-- A word is no string and no array. -/
theorem brackets_of_wordValue {w : List Char} {v : JsonValue} (h : wordValue w = some v) :
    brackets v = none ∧ ∀ s, v ≠ .str s := by
  unfold wordValue at h
  split at h
  · cases h
    exact ⟨rfl, by simp⟩
  split at h
  · cases h
    exact ⟨rfl, by simp⟩
  split at h
  · cases h
    exact ⟨rfl, by simp⟩
  · obtain ⟨q, -, rfl⟩ := Option.map_eq_some_iff.mp h
    exact ⟨rfl, by simp⟩

/-- A string is one token. -/
theorem Value.eq_of_str {ts : List Token} {s : String} (h : Value ts (.str s)) :
    ∃ t, ts = [.str t] := by
  cases h with
  | word hw => exact absurd rfl ((brackets_of_wordValue hw).2 s)
  | str t => exact ⟨t, rfl⟩

/-- The parts of an array. -/
theorem Value.parts_of_arr {ts : List Token} {vs : List JsonValue} (h : Value ts (.arr vs)) :
    ∃ parts : List (List Token × JsonValue), vs = parts.map (fun p ↦ p.2) ∧
      ts = .punct '[' :: (commaSeparated (parts.map fun p ↦ p.1) ++ [.punct ']']) ∧
      ∀ p ∈ parts, Value p.1 p.2 := by
  cases h with
  | word hw => cases (brackets_of_wordValue hw).1
  | arr parts hparts => exact ⟨parts, rfl, rfl, hparts⟩

/-- The tokens of a list of strings hold these. -/
theorem Value.countP_strings {ts : List Token} {items : List (List Char)}
    (h : Value ts (strings items)) : ts.countP Token.isStr = items.length := by
  obtain ⟨parts, hvalues, rfl, hparts⟩ := h.parts_of_arr
  have hone : ∀ p ∈ parts, p.1.countP Token.isStr = 1 := by
    intro p hp
    have hmem : p.2 ∈ items.map fun s ↦ JsonValue.str (String.ofList s) :=
      hvalues ▸ List.mem_map_of_mem hp
    obtain ⟨s, -, hs⟩ := List.mem_map.mp hmem
    obtain ⟨t, ht⟩ := (hs ▸ hparts p hp : Value p.1 (.str (String.ofList s))).eq_of_str
    rw [ht]
    rfl
  have hlength : parts.length = items.length := by
    have hmap := congrArg List.length hvalues
    rwa [List.length_map, List.length_map, eq_comm] at hmap
  have hsum : ((parts.map fun p ↦ p.1).map (List.countP Token.isStr)).sum = parts.length := by
    have hcounts : parts.map (List.countP Token.isStr ∘ fun p ↦ p.1) = parts.map fun _ ↦ 1 :=
      List.map_congr_left hone
    rw [List.map_map, hcounts]
    simp
  rw [List.countP_cons, List.countP_append, countP_commaSeparated, hsum, hlength]
  rfl

end WikiMind.Base.Json
