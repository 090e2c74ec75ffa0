import Mathlib.Algebra.Field.Rat
import WikiMind.Base.JsonLex

/-!
# The grammar of JSON

Library: the values that sequences of tokens stand for, and a reader that finds them. The reader
finds exactly these, so a sequence has one value at most and no value goes on behind its end.
-/

namespace WikiMind.Base.Json

/-! ### Words -/

/-- The number digits stand for. -/
def digitsValue (digits : List Char) : Nat :=
  digits.foldl (fun n d ↦ n * 10 + (d.toNat - 48)) 0

/-- A fraction at the start of a text, and what is behind it. -/
def fraction? : List Char → Option (ℚ × List Char)
  | '.' :: s =>
    let digits := s.takeWhile Char.isDigit
    if digits = [] then none
    else some (digitsValue digits / 10 ^ digits.length, s.dropWhile Char.isDigit)
  | s => some (0, s)

/-- The digits of an exponent, which end its text. -/
def exponentDigits? (digits : List Char) : Option Nat :=
  if digits ≠ [] ∧ digits.all Char.isDigit then some (digitsValue digits) else none

/-- An exponent. -/
def exponent? : List Char → Option Int
  | [] => some 0
  | e :: s =>
    if e = 'e' ∨ e = 'E' then
      match s with
      | '-' :: s => (exponentDigits? s).map Int.negOfNat
      | '+' :: s => (exponentDigits? s).map Int.ofNat
      | s => (exponentDigits? s).map Int.ofNat
    else none

/-- A number without its sign. -/
def unsigned? (s : List Char) : Option ℚ :=
  let whole := s.takeWhile Char.isDigit
  if whole = [] ∨ (whole.head? = some '0' ∧ whole ≠ ['0']) then none
  else
    (fraction? (s.dropWhile Char.isDigit)).bind fun (fraction, rest) ↦
      (exponent? rest).map fun exponent ↦ (digitsValue whole + fraction) * 10 ^ exponent

/-- A number. -/
def number? : List Char → Option ℚ
  | '-' :: s => (unsigned? s).map fun q ↦ -q
  | s => unsigned? s

/-- The value of a word. -/
def wordValue (w : List Char) : Option JsonValue :=
  if w = "null".toList then some .null
  else if w = "true".toList then some (.bool true)
  else if w = "false".toList then some (.bool false)
  else (number? w).map .num

/-! ### Values -/

/-- The tokens of a list, between which there are commas. -/
def commaSeparated (items : List (List Token)) : List Token := [.punct ','].intercalate items

/-- The tokens a value is written with. -/
inductive Value : List Token → JsonValue → Prop
  | word {w : List Char} {v : JsonValue} (h : wordValue w = some v) : Value [.word w] v
  | str (s : List Char) : Value [.str s] (.str (String.ofList s))
  | arr (items : List (List Token × JsonValue)) (h : ∀ p ∈ items, Value p.1 p.2) :
      Value (.punct '[' :: (commaSeparated (items.map fun p ↦ p.1) ++ [.punct ']']))
        (.arr (items.map fun p ↦ p.2))
  | obj (fields : List (List Char × List Token × JsonValue))
      (h : ∀ p ∈ fields, Value p.2.1 p.2.2) :
      Value (.punct '{' :: (commaSeparated (fields.map fun p ↦
          .str p.1 :: .punct ':' :: p.2.1) ++ [.punct '}']))
        (.obj (fields.map fun p ↦ (String.ofList p.1, p.2.2)))

/-- A text is written for a value, if raw control characters are read in some way. -/
def Denotes (raw : Reading) (text : List Char) (v : JsonValue) : Prop :=
  ∃ ts, lex raw text = some ts ∧ Value ts v

/-! ### The reader -/

/-- Reads a part of a text at its start. -/
abbrev Reader (α : Type) := List Token → Option (α × List Token)

/-- One part or more up to a closing bracket. -/
def readMany {α : Type} (close : Char) (one : Reader α) : Nat → Reader (List α)
  | 0, _ => none
  | n + 1, ts =>
    match one ts with
    | some (x, .punct c :: rest) =>
      if c = ',' then (readMany close one n rest).map fun (xs, rest) ↦ (x :: xs, rest)
      else if c = close then some ([x], rest)
      else none
    | _ => none

/-- Any number of parts up to a closing bracket. -/
def readList {α : Type} (close : Char) (one : Reader α) (n : Nat) : Reader (List α)
  | .punct c :: rest =>
    if c = close then some ([], rest) else readMany close one n (.punct c :: rest)
  | ts => readMany close one n ts

/-- A field of an object. -/
def readField (value : Reader JsonValue) : Reader (String × JsonValue)
  | .str key :: .punct ':' :: rest =>
    (value rest).map fun (v, rest) ↦ ((String.ofList key, v), rest)
  | _ => none

/-- A value; the counter bounds its depth and lengths. -/
def readValue : Nat → Reader JsonValue
  | 0, _ => none
  | n + 1, ts =>
    match ts with
    | .word w :: rest => (wordValue w).map fun v ↦ (v, rest)
    | .str s :: rest => some (.str (String.ofList s), rest)
    | .punct c :: rest =>
      if c = '[' then (readList ']' (readValue n) n rest).map fun (xs, rest) ↦ (.arr xs, rest)
      else if c = '{' then
        (readList '}' (readField (readValue n)) n rest).map fun (fs, rest) ↦ (.obj fs, rest)
      else none
    | [] => none

/-- The value of a text. -/
def read (raw : Reading) (text : List Char) : Option JsonValue :=
  match lex raw text with
  | none => none
  | some ts =>
    match readValue ts.length ts with
    | some (v, []) => some v
    | _ => none

section Words

/-- The characters of words. -/
def isWordChar (c : Char) : Bool := c.isDigit || "+-.Eaeflnrstu".toList.contains c

private theorem isWordChar_of_isDigit {c : Char} (h : c.isDigit = true) : isWordChar c = true := by
  rw [isWordChar, h, Bool.true_or]

private theorem isWordChar_of_exponentDigits {digits : List Char} {n : Nat}
    (h : exponentDigits? digits = some n) : ∀ c ∈ digits, isWordChar c = true := by
  unfold exponentDigits? at h
  split at h
  · next hdigits => exact fun c hc ↦ isWordChar_of_isDigit (List.all_eq_true.mp hdigits.2 c hc)
  · cases h

private theorem isWordChar_of_exponent {s : List Char} {e : Int} (h : exponent? s = some e) :
    ∀ c ∈ s, isWordChar c = true := by
  unfold exponent? at h
  split at h
  · exact List.forall_mem_nil _
  · next e s =>
    split at h
    · next he =>
      rw [List.forall_mem_cons]
      refine ⟨by rcases he with rfl | rfl <;> rfl, ?_⟩
      split at h
      · obtain ⟨n, hn, -⟩ := Option.map_eq_some_iff.mp h
        exact List.forall_mem_cons.mpr ⟨rfl, isWordChar_of_exponentDigits hn⟩
      · obtain ⟨n, hn, -⟩ := Option.map_eq_some_iff.mp h
        exact List.forall_mem_cons.mpr ⟨rfl, isWordChar_of_exponentDigits hn⟩
      · obtain ⟨n, hn, -⟩ := Option.map_eq_some_iff.mp h
        exact isWordChar_of_exponentDigits hn
    · cases h

private theorem isWordChar_of_takeWhile (s : List Char) :
    ∀ c ∈ s.takeWhile Char.isDigit, isWordChar c = true :=
  fun _ hc ↦ isWordChar_of_isDigit (List.mem_takeWhile_imp hc)

private theorem isWordChar_of_fraction {s rest : List Char} {q : ℚ}
    (h : fraction? s = some (q, rest))
    (hrest : ∀ c ∈ rest, isWordChar c = true) : ∀ c ∈ s, isWordChar c = true := by
  unfold fraction? at h
  split at h
  · next s =>
    dsimp only at h
    split at h
    · cases h
    · cases h
      rw [List.forall_mem_cons]
      refine ⟨rfl, ?_⟩
      rw [← List.takeWhile_append_dropWhile (p := Char.isDigit) (l := s), List.forall_mem_append]
      exact ⟨isWordChar_of_takeWhile s, hrest⟩
  · cases h
    exact hrest

private theorem isWordChar_of_unsigned {s : List Char} {q : ℚ} (h : unsigned? s = some q) :
    ∀ c ∈ s, isWordChar c = true := by
  unfold unsigned? at h
  dsimp only at h
  split at h
  · cases h
  · obtain ⟨⟨f, rest⟩, hfraction, h⟩ := Option.bind_eq_some_iff.mp h
    obtain ⟨e, hexponent, -⟩ := Option.map_eq_some_iff.mp h
    rw [← List.takeWhile_append_dropWhile (p := Char.isDigit) (l := s), List.forall_mem_append]
    exact ⟨isWordChar_of_takeWhile s,
      isWordChar_of_fraction hfraction (isWordChar_of_exponent hexponent)⟩

private theorem isWordChar_of_number {s : List Char} {q : ℚ} (h : number? s = some q) :
    ∀ c ∈ s, isWordChar c = true := by
  unfold number? at h
  split at h
  · obtain ⟨q, hq, -⟩ := Option.map_eq_some_iff.mp h
    exact List.forall_mem_cons.mpr ⟨rfl, isWordChar_of_unsigned hq⟩
  · exact isWordChar_of_unsigned h

private theorem isWordChar_of_wordValue {w : List Char} {v : JsonValue} (h : wordValue w = some v) :
    ∀ c ∈ w, isWordChar c = true := by
  unfold wordValue at h
  split at h
  · next hw =>
    rw [hw]
    exact List.all_eq_true.mp rfl
  split at h
  · next hw =>
    rw [hw]
    exact List.all_eq_true.mp rfl
  split at h
  · next hw =>
    rw [hw]
    exact List.all_eq_true.mp rfl
  · obtain ⟨q, hq, -⟩ := Option.map_eq_some_iff.mp h
    exact isWordChar_of_number hq

end Words

section Lists

variable {α ι : Type} {close : Char} {one : Reader α} {part : ι → List Token} {value : ι → α}

@[simp] theorem commaSeparated_nil : commaSeparated [] = [] := rfl

@[simp] theorem commaSeparated_singleton (ts : List Token) : commaSeparated [ts] = ts := by
  simp [commaSeparated]

@[simp] theorem commaSeparated_cons_cons (ts next : List Token) (items : List (List Token)) :
    commaSeparated (ts :: next :: items) =
      ts ++ .punct ',' :: commaSeparated (next :: items) := by
  simp [commaSeparated]

private theorem readMany_complete (hclose : close ≠ ',') {items : List ι} (hne : items ≠ [])
    (hone : ∀ p ∈ items, ∀ rest, one (part p ++ rest) = some (value p, rest)) {n : Nat}
    (hn : items.length ≤ n) (rest : List Token) :
    readMany close one n (commaSeparated (items.map part) ++ .punct close :: rest) =
      some (items.map value, rest) := by
  induction items generalizing n with
  | nil => exact absurd rfl hne
  | cons p items ih =>
    obtain ⟨n, rfl⟩ : ∃ k, n = k + 1 := ⟨n - 1, by rw [List.length_cons] at hn; omega⟩
    rw [List.forall_mem_cons] at hone
    rw [readMany]
    cases items with
    | nil =>
      rw [List.map_singleton, commaSeparated_singleton, hone.1]
      dsimp only
      rw [if_neg hclose, if_pos rfl]
      rfl
    | cons next items =>
      have htail := ih (by simp) hone.2 (Nat.le_of_succ_le_succ hn)
      rw [List.map_cons] at htail
      rw [List.map_cons, List.map_cons, commaSeparated_cons_cons, List.append_assoc, hone.1,
        List.cons_append]
      dsimp only
      rw [if_pos rfl, htail]
      rfl

/-- What the reader of many parts finds, if that of one finds parts that are written so. -/
theorem readMany_sound {P : List Token → α → Prop}
    (hone : ∀ ts x rest, one ts = some (x, rest) → ∃ part, ts = part ++ rest ∧ P part x) {n : Nat}
    {ts rest : List Token} {xs : List α} (h : readMany close one n ts = some (xs, rest)) :
    ∃ items : List (List Token × α), items ≠ [] ∧
      ts = commaSeparated (items.map fun p ↦ p.1) ++ .punct close :: rest ∧
      xs = items.map (fun p ↦ p.2) ∧ ∀ p ∈ items, P p.1 p.2 := by
  induction n generalizing ts xs with
  | zero => cases h
  | succ n ih =>
    rw [readMany] at h
    split at h
    · next x c behind hfirst =>
      obtain ⟨part, rfl, hpart⟩ := hone _ _ _ hfirst
      split at h
      · next hcomma =>
        obtain ⟨⟨ys, rest'⟩, hmany, heq⟩ := Option.map_eq_some_iff.mp h
        cases heq
        obtain ⟨items, hne, rfl, rfl, hitems⟩ := ih hmany
        refine ⟨(part, x) :: items, List.cons_ne_nil _ _, ?_, rfl,
          List.forall_mem_cons.mpr ⟨hpart, hitems⟩⟩
        obtain ⟨next, items, rfl⟩ := List.exists_cons_of_ne_nil hne
        simp [hcomma]
      · split at h
        · next hclose =>
          cases h
          exact ⟨[(part, x)], by simp, by simp [hclose], rfl, by simpa using hpart⟩
        · cases h
    · cases h

private theorem readList_eq {n : Nat} {ts : List Token} (h : ts.head? ≠ some (.punct close)) :
    readList close one n ts = readMany close one n ts := by
  unfold readList
  split
  · next c rest =>
    rw [if_neg]
    rintro rfl
    exact h rfl
  · rfl

private theorem readList_complete (hclose : close ≠ ',') {items : List ι}
    (hone : ∀ p ∈ items, ∀ rest, one (part p ++ rest) = some (value p, rest))
    (hhead : ∀ p ∈ items, ∃ t behind, part p = t :: behind ∧ t ≠ .punct close) {n : Nat}
    (hn : items.length ≤ n) (rest : List Token) :
    readList close one n (commaSeparated (items.map part) ++ .punct close :: rest) =
      some (items.map value, rest) := by
  cases items with
  | nil =>
    rw [List.map_nil, commaSeparated_nil, List.nil_append, readList, if_pos rfl]
    rfl
  | cons p items =>
    rw [readList_eq]
    · exact readMany_complete hclose (List.cons_ne_nil _ _) hone hn rest
    · obtain ⟨t, behind, hp, ht⟩ := hhead p List.mem_cons_self
      have hfirst : ∃ behind, commaSeparated ((p :: items).map part) = t :: behind := by
        cases items with
        | nil => exact ⟨behind, by simp [hp]⟩
        | cons next items =>
          rw [List.map_cons, List.map_cons, commaSeparated_cons_cons, hp, List.cons_append]
          exact ⟨_, rfl⟩
      obtain ⟨behind, hfirst⟩ := hfirst
      rw [hfirst, List.cons_append, List.head?_cons]
      simpa using ht

private theorem readList_sound {P : List Token → α → Prop}
    (hone : ∀ ts x rest, one ts = some (x, rest) → ∃ part, ts = part ++ rest ∧ P part x) {n : Nat}
    {ts rest : List Token} {xs : List α} (h : readList close one n ts = some (xs, rest)) :
    ∃ items : List (List Token × α),
      ts = commaSeparated (items.map fun p ↦ p.1) ++ .punct close :: rest ∧
      xs = items.map (fun p ↦ p.2) ∧ ∀ p ∈ items, P p.1 p.2 := by
  unfold readList at h
  split at h
  · split at h
    · next hclose =>
      cases h
      exact ⟨[], by simp [hclose], rfl, List.forall_mem_nil _⟩
    · obtain ⟨items, -, hitems⟩ := readMany_sound hone h
      exact ⟨items, hitems⟩
  · obtain ⟨items, -, hitems⟩ := readMany_sound hone h
    exact ⟨items, hitems⟩

/-- A list is at least as long as each of its parts, and as their number. -/
theorem length_commaSeparated {items : List (List Token)} (h : ∀ ts ∈ items, ts ≠ []) :
    items.length ≤ (commaSeparated items).length ∧
      ∀ ts ∈ items, ts.length ≤ (commaSeparated items).length := by
  induction items with
  | nil => exact ⟨Nat.le_refl _, List.forall_mem_nil _⟩
  | cons ts items ih =>
    rw [List.forall_mem_cons] at h
    have hpos := List.length_pos_of_ne_nil h.1
    obtain ⟨hcount, hall⟩ := ih h.2
    cases items with
    | nil => simpa using Nat.succ_le_of_lt hpos
    | cons next items =>
      have hlong : (commaSeparated (ts :: next :: items)).length =
          ts.length + 1 + (commaSeparated (next :: items)).length := by
        rw [commaSeparated_cons_cons, List.length_append, List.length_cons]
        omega
      rw [hlong]
      constructor
      · rw [List.length_cons]
        omega
      · exact List.forall_mem_cons.mpr ⟨by omega, fun a ha ↦ (hall a ha).trans (by omega)⟩

end Lists

section Reading

variable {raw : Reading}

/-- What a value begins with is no closing bracket. -/
theorem Value.head {ts : List Token} {v : JsonValue} (h : Value ts v) :
    ∃ t part, ts = t :: part ∧ t ≠ .punct ']' := by
  cases h with
  | word => exact ⟨_, _, rfl, by simp⟩
  | str => exact ⟨_, _, rfl, by simp⟩
  | arr => exact ⟨_, _, rfl, by simp⟩
  | obj => exact ⟨_, _, rfl, by simp⟩

/-- A value has a token. -/
theorem Value.ne_nil {ts : List Token} {v : JsonValue} (h : Value ts v) : ts ≠ [] := by
  obtain ⟨t, part, rfl, -⟩ := h.head
  exact List.cons_ne_nil t part

/-- The reader finds every value that is written. -/
theorem Value.readValue {ts : List Token} {v : JsonValue} (h : Value ts v) {n : Nat}
    (hn : ts.length ≤ n) (rest : List Token) : readValue n (ts ++ rest) = some (v, rest) := by
  induction h generalizing n rest with
  | word hw =>
    obtain ⟨n, rfl⟩ : ∃ k, n = k + 1 := ⟨n - 1, by rw [List.length_cons] at hn; omega⟩
    rw [List.singleton_append, Json.readValue, hw]
    rfl
  | str s =>
    obtain ⟨n, rfl⟩ : ∃ k, n = k + 1 := ⟨n - 1, by rw [List.length_cons] at hn; omega⟩
    rfl
  | arr items hitems ih =>
    rw [List.length_cons, List.length_append, List.length_singleton] at hn
    obtain ⟨n, rfl⟩ : ∃ k, n = k + 1 := ⟨n - 1, by omega⟩
    have hne : ∀ ts ∈ items.map fun p ↦ p.1, ts ≠ [] :=
      List.forall_mem_map.mpr fun p hp ↦ (hitems p hp).ne_nil
    have hlength := length_commaSeparated hne
    rw [List.length_map] at hlength
    rw [List.cons_append, List.append_assoc, List.singleton_append, Json.readValue, if_pos rfl,
      readList_complete (by decide) (fun p hp ↦ ih p hp ?_)
        (fun p hp ↦ (hitems p hp).head) (by omega) rest]
    · rfl
    · have hle := hlength.2 p.1 (List.mem_map_of_mem hp)
      omega
  | obj fields hfields ih =>
    rw [List.length_cons, List.length_append, List.length_singleton] at hn
    obtain ⟨n, rfl⟩ : ∃ k, n = k + 1 := ⟨n - 1, by omega⟩
    have hne : ∀ ts ∈ fields.map fun p ↦ .str p.1 :: .punct ':' :: p.2.1, ts ≠ [] :=
      List.forall_mem_map.mpr fun p _ ↦ List.cons_ne_nil _ _
    have hlength := length_commaSeparated hne
    rw [List.length_map] at hlength
    have hfield : ∀ p ∈ fields, ∀ rest, readField (Json.readValue n)
        (.str p.1 :: .punct ':' :: p.2.1 ++ rest) = some ((String.ofList p.1, p.2.2), rest) := by
      intro p hp rest
      have hle := hlength.2 _ (List.mem_map_of_mem hp)
      rw [List.length_cons, List.length_cons] at hle
      rw [List.cons_append, List.cons_append, readField, ih p hp (by omega) rest]
      rfl
    rw [List.cons_append, List.append_assoc, List.singleton_append, Json.readValue,
      if_neg (by decide), if_pos rfl, readList_complete (by decide) hfield
        (fun p _ ↦ ⟨_, _, rfl, by simp⟩) (by omega) rest]
    rfl

/-- A list of values that are each of some form is a list of that form. -/
theorem exists_map_eq {β γ : Type} {g : γ → β} {Q : γ → Prop} {items : List β}
    (h : ∀ p ∈ items, ∃ f, p = g f ∧ Q f) : ∃ fs : List γ, items = fs.map g ∧ ∀ f ∈ fs, Q f := by
  induction items with
  | nil => exact ⟨[], rfl, List.forall_mem_nil _⟩
  | cons p items ih =>
    obtain ⟨⟨f, rfl, hf⟩, hitems⟩ := List.forall_mem_cons.mp h
    obtain ⟨fs, rfl, hfs⟩ := ih hitems
    exact ⟨f :: fs, rfl, List.forall_mem_cons.mpr ⟨hf, hfs⟩⟩

/-- What the reader of a field finds. -/
theorem readField_sound {value : Reader JsonValue} {P : List Token → JsonValue → Prop}
    (hvalue : ∀ ts v rest, value ts = some (v, rest) → ∃ part, ts = part ++ rest ∧ P part v)
    (ts : List Token) (x : String × JsonValue) (rest : List Token)
    (h : readField value ts = some (x, rest)) :
    ∃ part, ts = part ++ rest ∧ ∃ f : List Char × List Token × JsonValue,
      (part, x) = (.str f.1 :: .punct ':' :: f.2.1, String.ofList f.1, f.2.2) ∧ P f.2.1 f.2.2 := by
  unfold readField at h
  split at h
  · next key behind =>
    obtain ⟨⟨v, rest'⟩, hv, heq⟩ := Option.map_eq_some_iff.mp h
    cases heq
    obtain ⟨part, rfl, hpart⟩ := hvalue _ _ _ hv
    exact ⟨.str key :: .punct ':' :: part, rfl, (key, part, v), rfl, hpart⟩
  · cases h

/-- The reader finds only values that are written. -/
theorem readValue_sound {n : Nat} {ts rest : List Token} {v : JsonValue}
    (h : Json.readValue n ts = some (v, rest)) : ∃ part, ts = part ++ rest ∧ Value part v := by
  induction n generalizing ts rest v with
  | zero => cases h
  | succ n ih =>
    rw [Json.readValue.eq_def] at h
    dsimp only at h
    split at h
    · next w behind =>
      obtain ⟨v, hv, heq⟩ := Option.map_eq_some_iff.mp h
      cases heq
      exact ⟨[.word w], rfl, .word hv⟩
    · next s behind =>
      cases h
      exact ⟨[.str s], rfl, .str s⟩
    · next c behind =>
      split at h
      · next hopen =>
        obtain ⟨⟨xs, rest'⟩, hlist, heq⟩ := Option.map_eq_some_iff.mp h
        cases heq
        obtain ⟨items, rfl, rfl, hitems⟩ := readList_sound (fun _ _ _ h ↦ ih h) hlist
        refine ⟨_, ?_, .arr items hitems⟩
        simp [hopen]
      split at h
      · next hopen =>
        obtain ⟨⟨xs, rest'⟩, hlist, heq⟩ := Option.map_eq_some_iff.mp h
        cases heq
        obtain ⟨items, rfl, rfl, hitems⟩ :=
          readList_sound (readField_sound fun _ _ _ h ↦ ih h) hlist
        obtain ⟨fields, rfl, hfields⟩ := exists_map_eq hitems
        simp only [List.map_map]
        refine ⟨_, ?_, Value.obj fields hfields⟩
        simp [hopen, Function.comp_def]
      · cases h
    · cases h

/-- The reader of texts finds exactly the values they are written for. -/
theorem read_eq_some_iff {text : List Char} {v : JsonValue} :
    read raw text = some v ↔ Denotes raw text v := by
  unfold read Denotes
  cases hlex : lex raw text with
  | none => simp
  | some ts =>
    simp only [Option.some.injEq, exists_eq_left']
    constructor
    · intro h
      split at h
      · next v' hread =>
        cases h
        obtain ⟨part, rfl, hvalue⟩ := readValue_sound hread
        rwa [List.append_nil]
      · cases h
    · intro h
      have hread := h.readValue (Nat.le_refl _) []
      rw [List.append_nil] at hread
      rw [hread]

/-- No value goes on behind the end of another, and no sequence of tokens has two. -/
theorem Value.of_append {ts rest : List Token} {v w : JsonValue} (hv : Value ts v)
    (hw : Value (ts ++ rest) w) : rest = [] ∧ v = w := by
  have hshort := hv.readValue (List.sublist_append_left ts rest).length_le rest
  have hlong := hw.readValue (Nat.le_refl _) []
  rw [List.append_nil, hshort] at hlong
  cases hlong
  exact ⟨rfl, rfl⟩

/-- A text has one value. -/
theorem Denotes.unique {text : List Char} {v w : JsonValue} (hv : Denotes raw text v)
    (hw : Denotes raw text w) : v = w := by
  obtain ⟨ts, hts, hv⟩ := hv
  obtain ⟨ts', hts', hw⟩ := hw
  cases hts.symm.trans hts'
  rw [← List.append_nil ts] at hw
  exact (hv.of_append hw).2

private theorem mem_commaSeparated {t : Token} {items : List (List Token)}
    (h : t ∈ commaSeparated items) : t = .punct ',' ∨ ∃ item ∈ items, t ∈ item := by
  induction items with
  | nil => cases h
  | cons item items ih =>
    cases items with
    | nil =>
      rw [commaSeparated_singleton] at h
      exact .inr ⟨item, List.mem_cons_self, h⟩
    | cons next items =>
      rw [commaSeparated_cons_cons, List.mem_append, List.mem_cons] at h
      rcases h with h | h | h
      · exact .inr ⟨item, List.mem_cons_self, h⟩
      · exact .inl h
      · exact (ih h).imp id fun ⟨item, hitem, hmem⟩ ↦ ⟨item, List.mem_cons_of_mem _ hitem, hmem⟩

/-- The words of a value have values. -/
theorem Value.isWordChar {ts : List Token} {v : JsonValue} (h : Value ts v) {w : List Char}
    (hw : .word w ∈ ts) : ∀ c ∈ w, isWordChar c = true := by
  induction h with
  | word hvalue =>
    cases List.mem_singleton.mp hw
    exact isWordChar_of_wordValue hvalue
  | str s => simp at hw
  | arr items _ ih =>
    rw [List.mem_cons, List.mem_append] at hw
    rcases hw with hw | hw | hw
    · cases hw
    · rcases mem_commaSeparated hw with hw | ⟨item, hitem, hmem⟩
      · cases hw
      · obtain ⟨p, hp, rfl⟩ := List.mem_map.mp hitem
        exact ih p hp hmem
    · simp at hw
  | obj fields _ ih =>
    rw [List.mem_cons, List.mem_append] at hw
    rcases hw with hw | hw | hw
    · cases hw
    · rcases mem_commaSeparated hw with hw | ⟨item, hitem, hmem⟩
      · cases hw
      · obtain ⟨p, hp, rfl⟩ := List.mem_map.mp hitem
        rw [List.mem_cons, List.mem_cons] at hmem
        rcases hmem with hmem | hmem | hmem
        · cases hmem
        · cases hmem
        · exact ih p hp hmem
    · simp at hw

/-- The brackets of objects and arrays. -/
def brackets : JsonValue → Option (Char × Char)
  | .obj _ => some ('{', '}')
  | .arr _ => some ('[', ']')
  | _ => none

/-- Brackets are punctuation. -/
theorem isPunct_brackets {v : JsonValue} {opening closing : Char}
    (h : brackets v = some (opening, closing)) :
    isPunct opening = true ∧ isPunct closing = true := by
  unfold brackets at h
  split at h <;> cases h <;> exact ⟨rfl, rfl⟩

/-- A value stands between its brackets, or it is one token. -/
theorem Value.eq_brackets {ts : List Token} {v : JsonValue} (h : Value ts v) :
    (∃ opening closing inner, brackets v = some (opening, closing) ∧
      ts = .punct opening :: (inner ++ [.punct closing])) ∨
    brackets v = none ∧
      ((∃ w, ts = [.word w]) ∨ ∃ s, ts = [.str s] ∧ v = .str (String.ofList s)) := by
  cases h with
  | @word w v hw =>
    refine .inr ⟨?_, .inl ⟨w, rfl⟩⟩
    unfold wordValue at hw
    split at hw
    · cases hw
      rfl
    split at hw
    · cases hw
      rfl
    split at hw
    · cases hw
      rfl
    · obtain ⟨q, -, rfl⟩ := Option.map_eq_some_iff.mp hw
      rfl
  | str s => exact .inr ⟨rfl, .inr ⟨s, rfl, rfl⟩⟩
  | arr items => exact .inl ⟨_, _, _, rfl, rfl⟩
  | obj fields => exact .inl ⟨_, _, _, rfl, rfl⟩

/-- The text of an object or an array: white space, its brackets, white space. -/
theorem Denotes.eq_brackets {text : List Char} {v : JsonValue} {opening closing : Char}
    (hv : brackets v = some (opening, closing)) (h : Denotes raw text v) :
    ∃ before inner after, text = before ++ (opening :: (inner ++ [closing]) ++ after) ∧
      (∀ c ∈ before, isBlank c = true) ∧ (∀ c ∈ after, isBlank c = true) ∧
      (scan .outside (opening :: inner)).2 = .outside ∧
      Denotes raw (opening :: (inner ++ [closing])) v := by
  obtain ⟨ts, hts, hvalue⟩ := h
  obtain ⟨hopening, hclosing⟩ := isPunct_brackets hv
  rcases hvalue.eq_brackets with ⟨o, c, inner, hbrackets, rfl⟩ | ⟨hnone, -⟩
  · cases hv.symm.trans hbrackets
    obtain ⟨before, rest, rfl, hbefore, hrest⟩ := lex_punct_cons hts
    obtain ⟨inner', after, rfl, hafter, hinner⟩ := lex_concat_punct hrest
    have hscan := (lex_eq_some_iff.mp hinner).1
    have hend : lex raw (inner' ++ [closing]) = some (inner ++ [.punct closing]) :=
      (lex_break (isBreak_of_isPunct hclosing) hscan).mpr ⟨inner, [], hinner, lex_nil,
        by simp [breakTokens, hclosing]⟩
    have hcore : lex raw ([] ++ opening :: (inner' ++ [closing])) =
        some (.punct opening :: (inner ++ [.punct closing])) :=
      (lex_break (isBreak_of_isPunct hopening) rfl).mpr
        ⟨[], _, lex_nil, hend, by simp [breakTokens, hopening]⟩
    refine ⟨before, inner', after, by simp, hbefore, hafter, ?_, _, hcore, hvalue⟩
    rw [scan, if_neg (ne_quote_of_isBreak (isBreak_of_isPunct hopening)), Prod.map_snd, hscan]
    rfl
  · rw [hnone] at hv
    cases hv

/-- An object or an array begins with its bracket. -/
theorem Denotes.brackets_eq_none {d : Char} {s : List Char} {w : JsonValue}
    (hblank : isBlank d = false) (hd : d ≠ '[' ∧ d ≠ '{') (h : Denotes raw (d :: s) w) :
    brackets w = none := by
  obtain ⟨ts, hts, hvalue⟩ := h
  rcases hvalue.eq_brackets with ⟨o, c, inner, hbrackets, rfl⟩ | ⟨hnone, -⟩
  · have hdo : d = o := by
      obtain ⟨blank, rest, heq, hall, -⟩ := lex_punct_cons hts
      cases blank with
      | nil => exact (List.cons.inj heq).1
      | cons b blank =>
        rw [← (List.cons.inj heq).1] at hall
        rw [hall d List.mem_cons_self] at hblank
        cases hblank
    unfold brackets at hbrackets
    split at hbrackets <;> cases hbrackets
    · exact absurd hdo hd.2
    · exact absurd hdo hd.1
  · exact hnone

/-- Between other characters the text of an object or an array makes no value but a string. -/
theorem Denotes.eq_str {opening closing d : Char} {before inner : List Char} {after : List Char}
    {w : JsonValue} (hopening : isPunct opening = true) (hblank : isBlank d = false)
    (hd : d ≠ '[' ∧ d ≠ '{')
    (h : Denotes raw (d :: before ++ (opening :: (inner ++ [closing]) ++ after)) w) :
    ∃ s, w = .str s := by
  have hnone := h.brackets_eq_none hblank hd
  obtain ⟨ts, hts, hvalue⟩ := h
  rcases hvalue.eq_brackets with ⟨o, c, inner', hbrackets, -⟩ | ⟨-, ⟨w', hword⟩ | ⟨s, -, rfl⟩⟩
  · rw [hnone] at hbrackets
    cases hbrackets
  · -- a word has neither brackets nor literals
    exfalso
    rw [hword] at hts
    rw [List.cons_append] at hts
    by_cases hscan : (scan .outside (d :: before)).2 = .outside
    · obtain ⟨p, q, -, -, hsplit⟩ :=
        (lex_break (isBreak_of_isPunct hopening) hscan).mp hts
      cases p <;> simp [breakTokens, hopening] at hsplit
    · obtain ⟨body, us, p, q, -, -, -, hsplit⟩ := lex_inside hscan hts
      cases p <;> simp at hsplit
  · exact ⟨_, rfl⟩

/-- Behind the text of an object or an array nothing stands but white space. -/
theorem Denotes.blank_behind {opening closing : Char} {inner after : List Char} {v w : JsonValue}
    (hclosing : isPunct closing = true) (hscan : (scan .outside (opening :: inner)).2 = .outside)
    (hv : Denotes raw (opening :: (inner ++ [closing])) v)
    (h : Denotes raw (opening :: (inner ++ [closing]) ++ after) w) :
    lex raw after = some [] := by
  obtain ⟨ts, hts, hvalue⟩ := hv
  obtain ⟨ts', hts', hvalue'⟩ := h
  have hbreak := isBreak_of_isPunct hclosing
  rw [← List.cons_append] at hts
  rw [List.cons_append, List.append_assoc, List.singleton_append, ← List.cons_append] at hts'
  obtain ⟨p, q, hp, hq, rfl⟩ := (lex_break hbreak hscan).mp hts
  obtain ⟨p', q', hp', hq', rfl⟩ := (lex_break hbreak hscan).mp hts'
  cases hp.symm.trans hp'
  rw [lex_nil, Option.some.injEq] at hq
  rw [← hq, List.append_nil] at hvalue
  rw [hq', (hvalue.of_append hvalue').1]

/-- White space around a text does not count. -/
theorem denotes_blank_around {before text after : List Char} {v : JsonValue}
    (hbefore : ∀ c ∈ before, isBlank c = true) (hscan : (scan .outside text).2 = .outside)
    (hafter : ∀ c ∈ after, isBlank c = true) :
    Denotes raw (before ++ (text ++ after)) v ↔ Denotes raw text v := by
  rw [Denotes, Denotes, lex_blank_append hbefore, lex_append_blank hscan hafter]

/-- White space around a text changes nothing. -/
theorem Denotes.blank_around {before text after : List Char} {v : JsonValue}
    (hbefore : ∀ c ∈ before, isBlank c = true) (h : Denotes raw text v)
    (hafter : ∀ c ∈ after, isBlank c = true) : Denotes raw (before ++ (text ++ after)) v := by
  obtain ⟨ts, hts, hvalue⟩ := h
  exact (denotes_blank_around hbefore (lex_eq_some_iff.mp hts).1 hafter).mpr ⟨ts, hts, hvalue⟩

/-- What the text of an object or an array stands for with a text around it: the same within white
space, and a string or nothing otherwise. -/
theorem Denotes.framed {opening closing : Char} {before inner after : List Char} {v w : JsonValue}
    (hv : brackets v = some (opening, closing))
    (hscan : (scan .outside (opening :: inner)).2 = .outside)
    (hcore : Denotes raw (opening :: (inner ++ [closing])) v)
    (hplain : '[' ∉ before ∧ '{' ∉ before)
    (h : Denotes raw (before ++ (opening :: (inner ++ [closing]) ++ after)) w) :
    ((∀ c ∈ before, isBlank c = true) ∧ (∀ c ∈ after, isBlank c = true) ∧ w = v) ∨
      ∃ s, w = .str s := by
  obtain ⟨hopening, hclosing⟩ := isPunct_brackets hv
  have hpad : ∀ c ∈ before.takeWhile isBlank, isBlank c = true :=
    fun c hc ↦ List.mem_takeWhile_imp hc
  have hsplit : before.takeWhile isBlank ++ before.dropWhile isBlank = before :=
    List.takeWhile_append_dropWhile
  have hrest : Denotes raw (before.dropWhile isBlank ++
      (opening :: (inner ++ [closing]) ++ after)) w := by
    obtain ⟨ts, hts, hvalue⟩ := h
    rw [← hsplit, List.append_assoc, lex_blank_append hpad] at hts
    exact ⟨ts, hts, hvalue⟩
  cases hdrop : before.dropWhile isBlank with
  | nil =>
    rw [hdrop, List.nil_append] at hrest
    have hafter := isBlank_of_lex_nil (hcore.blank_behind hclosing hscan hrest)
    rw [hdrop, List.append_nil] at hsplit
    rw [hsplit] at hpad
    exact .inl ⟨hpad, hafter, hrest.unique (hcore.blank_around (List.forall_mem_nil _) hafter)⟩
  | cons d rest =>
    rw [hdrop] at hrest
    have hd : isBlank d = false := by
      have hhead := List.head?_dropWhile_not isBlank before
      rw [hdrop, List.head?_cons] at hhead
      simpa using hhead
    have hmem : d ∈ before := by
      rw [← hsplit, hdrop]
      simp
    refine .inr (hrest.eq_str hopening hd ⟨?_, ?_⟩)
    · rintro rfl
      exact hplain.1 hmem
    · rintro rfl
      exact hplain.2 hmem

/-- The text of an object begins with its brace. -/
theorem Denotes.brackets_of_brace {rest : List Char} {w : JsonValue}
    (h : Denotes raw ('{' :: rest) w) : brackets w = some ('{', '}') := by
  obtain ⟨ts, hts, hvalue⟩ := h
  obtain ⟨q, -, rfl⟩ := (lex_cons_break rfl).mp hts
  rcases hvalue.eq_brackets with ⟨o, c, inner, hbrackets, hshape⟩ | ⟨-, ⟨w, hw⟩ | ⟨s, hs, -⟩⟩
  · cases hshape
    unfold brackets at hbrackets ⊢
    split at hbrackets <;> cases hbrackets
    rfl
  · cases hw
  · cases hs

/-- A string or a word stands in one line. -/
theorem Denotes.blank_of_newline {x y : List Char} {w : JsonValue} (hw : brackets w = none)
    (h : Denotes strict (x ++ '\n' :: y) w) :
    (∀ c ∈ x, isBlank c = true) ∨ ∀ c ∈ y, isBlank c = true := by
  obtain ⟨ts, hts, hvalue⟩ := h
  obtain ⟨p, q, hp, hq, rfl⟩ := lex_newline hts
  have hone : ∃ t, p ++ q = [t] := by
    rcases hvalue.eq_brackets with ⟨o, c, inner, hbrackets, -⟩ | ⟨-, ⟨w, hw⟩ | ⟨s, hs, -⟩⟩
    · rw [hw] at hbrackets
      cases hbrackets
    · exact ⟨_, hw⟩
    · exact ⟨_, hs⟩
  obtain ⟨t, ht⟩ := hone
  rcases List.append_eq_singleton_iff.mp ht with ⟨rfl, -⟩ | ⟨-, rfl⟩
  · exact .inl (isBlank_of_lex_nil hp)
  · exact .inr (isBlank_of_lex_nil hq)

end Reading

end WikiMind.Base.Json
