import WikiMind.Base.JsonGrammar

/-!
# Raw control characters in JSON strings

Library: texts that are JSON but for control characters in their strings. How those are read is a
parameter of the grammar; here two ways of reading are compared, and literals are taken apart by
how they are written.
-/

namespace WikiMind.Base.Json

/-- Raw control characters stand for themselves. -/
def kept : Reading := some

section Readings

variable {raw raw' : Reading}

/-- A text that is read more strictly is read alike. -/
theorem Units.mono (hraw : ∀ c d, raw c = some d → raw' c = some d) {body : List Char}
    {us : List Nat} (h : Units raw body us) : Units raw' body us := by
  induction h with
  | nil => exact .nil
  | plain hback hplain _ ih => exact .plain hback hplain ih
  | control hcontrol hread _ ih => exact .control hcontrol (hraw _ _ hread) ih
  | short hshort _ ih => exact .short hshort ih
  | unit hunit _ ih => exact .unit hunit ih

/-- What is read in one way is read in another one that reads all control characters. -/
theorem Units.reread (hraw : ∀ c, ∃ d, raw' c = some d) {body : List Char} {us : List Nat}
    (h : Units raw body us) : ∃ us', Units raw' body us' := by
  induction h with
  | nil => exact ⟨_, .nil⟩
  | plain hback hplain _ ih =>
    obtain ⟨us', ih⟩ := ih
    exact ⟨_, .plain hback hplain ih⟩
  | @control c _ _ _ hcontrol _ _ ih =>
    obtain ⟨us', ih⟩ := ih
    obtain ⟨d, hd⟩ := hraw c
    exact ⟨_, .control hcontrol hd ih⟩
  | short hshort _ ih =>
    obtain ⟨us', ih⟩ := ih
    exact ⟨_, .short hshort ih⟩
  | unit hunit _ ih =>
    obtain ⟨us', ih⟩ := ih
    exact ⟨_, .unit hunit ih⟩

/-- The text of a literal is that of its code units. -/
theorem readLiteral_eq_some_iff {body s : List Char} :
    readLiteral raw body = some s ↔ ∃ us, Units raw body us ∧ joinUnits us = s := by
  rw [readLiteral, Option.map_eq_some_iff]
  simp only [units_eq_some_iff]

/-- Tokens are related if the strings of literals are. -/
theorem tokens_rel {R : Token → Token → Prop} (hrefl : ∀ t, R t t)
    (hliteral : ∀ {body us}, Units raw body us →
      ∃ us', Units raw' body us' ∧ R (.str (joinUnits us)) (.str (joinUnits us')))
    {word : List Char} {symbols : List Symbol} {ts : List Token}
    (h : tokens raw word symbols = some ts) :
    ∃ ts', tokens raw' word symbols = some ts' ∧ List.Forall₂ R ts ts' := by
  have hsame : ∀ us : List Token, List.Forall₂ R us us :=
    fun us ↦ List.forall₂_same.mpr fun _ _ ↦ hrefl _
  induction word, symbols using tokens.induct generalizing ts with
  | case1 word =>
    rw [tokens, Option.some.injEq] at h
    exact ⟨ts, by rw [tokens, h], hsame ts⟩
  | case2 word x rest c hx ih =>
    rw [tokens_word hx] at h ⊢
    exact ih h
  | case3 word x rest hx ih =>
    obtain ⟨m, q, hm, hq, rfl⟩ := (tokens_cons hx).mp h
    obtain ⟨q', hq', hrel⟩ := ih hq
    obtain ⟨m', hm', hread⟩ : ∃ m', x.read raw' = some m' ∧ List.Forall₂ R m m' := by
      cases x with
      | char c =>
        cases hm
        exact ⟨_, rfl, hsame _⟩
      | literal body =>
        obtain ⟨s, hs, rfl⟩ := Option.map_eq_some_iff.mp hm
        obtain ⟨us, hus, rfl⟩ := readLiteral_eq_some_iff.mp hs
        obtain ⟨us', hus', hstr⟩ := hliteral hus
        refine ⟨[.str (joinUnits us')], ?_, .cons hstr .nil⟩
        rw [Symbol.read, readLiteral_eq_some_iff.mpr ⟨us', hus', rfl⟩]
        rfl
    exact ⟨flush word ++ m' ++ q', (tokens_cons hx).mpr ⟨m', q', hm', hq', rfl⟩,
      List.rel_append (List.rel_append (hsame _) hread) hrel⟩

/-- A text that is read more strictly has the same value. -/
theorem Denotes.mono (hraw : ∀ c d, raw c = some d → raw' c = some d) {text : List Char}
    {v : JsonValue} (h : Denotes raw text v) : Denotes raw' text v := by
  obtain ⟨ts, hts, hvalue⟩ := h
  obtain ⟨hmode, htokens⟩ := lex_eq_some_iff.mp hts
  obtain ⟨ts', htokens', heq⟩ :=
    tokens_rel (fun _ ↦ Eq.refl _) (fun hus ↦ ⟨_, hus.mono hraw, rfl⟩) htokens
  rw [List.forall₂_eq_eq_eq] at heq
  rw [← heq] at htokens'
  exact ⟨ts, lex_eq_some_iff.mpr ⟨hmode, htokens'⟩, hvalue⟩

/-- The literals of a text are read. -/
theorem tokens_literal {word body : List Char} {symbols : List Symbol} {ts : List Token}
    (h : tokens raw word symbols = some ts) (hbody : .literal body ∈ symbols) :
    ∃ us, Units raw body us := by
  obtain ⟨a, b, rfl⟩ := List.append_of_mem hbody
  obtain ⟨p, m, q, -, hm, -⟩ := (tokens_break rfl).mp h
  obtain ⟨s, hs, -⟩ := Option.map_eq_some_iff.mp hm
  obtain ⟨us, hus, -⟩ := readLiteral_eq_some_iff.mp hs
  exact ⟨us, hus⟩

/-- Tokens that differ in their strings only. -/
def Alike (t t' : Token) : Prop := t' = t ∨ (∃ s, t = .str s) ∧ ∃ s, t' = .str s

private theorem forall₂_append {α β : Type} {R : α → β → Prop} {a b : List α} {c : List β}
    (h : List.Forall₂ R (a ++ b) c) :
    ∃ d e, c = d ++ e ∧ List.Forall₂ R a d ∧ List.Forall₂ R b e := by
  induction a generalizing c with
  | nil => exact ⟨[], c, rfl, .nil, h⟩
  | cons x a ih =>
    cases h with
    | cons hx h =>
      obtain ⟨d, e, rfl, hd, he⟩ := ih h
      exact ⟨_ :: d, e, rfl, .cons hx hd, he⟩

private theorem alike_punct {c : Char} {t : Token} (h : Alike (.punct c) t) : t = .punct c := by
  rcases h with h | ⟨⟨s, hs⟩, -⟩
  · exact h
  · cases hs

private theorem alike_str {s : List Char} {t : Token} (h : Alike (.str s) t) :
    ∃ s', t = .str s' := by
  rcases h with h | ⟨-, h⟩
  · exact ⟨s, h⟩
  · exact h

/-- Lists of parts that are alike. -/
theorem alike_commaSeparated {items : List (List Token)} {ts : List Token}
    (h : List.Forall₂ Alike (commaSeparated items) ts) :
    ∃ items', ts = commaSeparated items' ∧ List.Forall₂ (List.Forall₂ Alike) items items' := by
  induction items generalizing ts with
  | nil =>
    cases h
    exact ⟨[], rfl, .nil⟩
  | cons item items ih =>
    cases items with
    | nil =>
      rw [commaSeparated_singleton] at h
      exact ⟨[ts], (commaSeparated_singleton ts).symm, .cons h .nil⟩
    | cons next items =>
      rw [commaSeparated_cons_cons] at h
      obtain ⟨part, rest, rfl, hpart, hrest⟩ := forall₂_append h
      cases hrest with
      | cons hcomma hrest =>
        obtain ⟨items', rfl, hitems⟩ := ih hrest
        cases hitems with
        | cons hnext hitems =>
          refine ⟨part :: _ :: _, ?_, .cons hpart (.cons hnext hitems)⟩
          rw [commaSeparated_cons_cons, alike_punct hcomma]

/-- Parts that are alike are of the form that each of them has. -/
theorem exists_map_of_alike {ι γ : Type} {part : ι → List Token} {g : γ → List Token}
    {Q : γ → Prop} {items : List ι} {parts : List (List Token)}
    (hone : ∀ p ∈ items, ∀ ts, List.Forall₂ Alike (part p) ts → ∃ f, ts = g f ∧ Q f)
    (h : List.Forall₂ (List.Forall₂ Alike) (items.map part) parts) :
    ∃ fs : List γ, parts = fs.map g ∧ ∀ f ∈ fs, Q f := by
  induction items generalizing parts with
  | nil =>
    cases h
    exact ⟨[], rfl, List.forall_mem_nil _⟩
  | cons p items ih =>
    rw [List.forall_mem_cons] at hone
    cases h with
    | cons hp h =>
      obtain ⟨f, rfl, hf⟩ := hone.1 _ hp
      obtain ⟨fs, rfl, hfs⟩ := ih hone.2 h
      exact ⟨f :: fs, rfl, List.forall_mem_cons.mpr ⟨hf, hfs⟩⟩

/-- Tokens that are alike make values of one shape. -/
theorem Value.alike {ts ts' : List Token} {v : JsonValue} (h : Value ts v)
    (halike : List.Forall₂ Alike ts ts') : ∃ v', Value ts' v' ∧ brackets v' = brackets v := by
  induction h generalizing ts' with
  | @word w v hw =>
    cases halike with
    | cons ht hnil =>
      cases hnil
      rcases ht with rfl | ⟨⟨s, hs⟩, -⟩
      · exact ⟨v, .word hw, rfl⟩
      · cases hs
  | str s =>
    cases halike with
    | cons ht hnil =>
      cases hnil
      obtain ⟨s', rfl⟩ := alike_str ht
      exact ⟨_, .str s', rfl⟩
  | arr items hitems ih =>
    cases halike with
    | cons hopen halike =>
      obtain ⟨middle, rest, rfl, hmiddle, hrest⟩ := forall₂_append halike
      cases hrest with
      | cons hclose hnil =>
        cases hnil
        obtain ⟨parts, rfl, hparts⟩ := alike_commaSeparated hmiddle
        obtain ⟨items', rfl, hitems'⟩ : ∃ items' : List (List Token × JsonValue),
            parts = items'.map (fun p ↦ p.1) ∧ ∀ p ∈ items', Value p.1 p.2 := by
          refine exists_map_of_alike (fun p hp ts hts ↦ ?_) hparts
          obtain ⟨v', hv', -⟩ := ih p hp hts
          exact ⟨(ts, v'), rfl, hv'⟩
        rw [alike_punct hopen, alike_punct hclose]
        exact ⟨_, .arr items' hitems', rfl⟩
  | obj fields hfields ih =>
    cases halike with
    | cons hopen halike =>
      obtain ⟨middle, rest, rfl, hmiddle, hrest⟩ := forall₂_append halike
      cases hrest with
      | cons hclose hnil =>
        cases hnil
        obtain ⟨parts, rfl, hparts⟩ := alike_commaSeparated hmiddle
        obtain ⟨fields', rfl, hfields'⟩ : ∃ fields' : List (List Char × List Token × JsonValue),
            parts = fields'.map (fun p ↦ .str p.1 :: .punct ':' :: p.2.1) ∧
              ∀ p ∈ fields', Value p.2.1 p.2.2 := by
          refine exists_map_of_alike (fun p hp ts hts ↦ ?_) hparts
          cases hts with
          | cons hkey hts =>
            cases hts with
            | cons hcolon hts =>
              obtain ⟨key, rfl⟩ := alike_str hkey
              rw [alike_punct hcolon]
              obtain ⟨v', hv', -⟩ := ih p hp hts
              exact ⟨(key, _, v'), rfl, hv'⟩
        rw [alike_punct hopen, alike_punct hclose]
        exact ⟨_, .obj fields' hfields', rfl⟩

/-- A text has values of one shape in all readings that read all control characters. -/
theorem Denotes.reread (hraw : ∀ c, ∃ d, raw' c = some d) {text : List Char} {v : JsonValue}
    (h : Denotes raw text v) : ∃ v', Denotes raw' text v' ∧ brackets v' = brackets v := by
  obtain ⟨ts, hts, hvalue⟩ := h
  obtain ⟨hmode, htokens⟩ := lex_eq_some_iff.mp hts
  have hrefl : ∀ t, Alike t t := fun _ ↦ .inl rfl
  have hstr : ∀ s s', Alike (.str s) (.str s') := fun s s' ↦ .inr ⟨⟨s, rfl⟩, s', rfl⟩
  obtain ⟨ts', htokens', halike⟩ := tokens_rel hrefl
    (fun hus ↦ (hus.reread hraw).imp fun us' h ↦ ⟨h, hstr _ (joinUnits us')⟩) htokens
  obtain ⟨v', hvalue', hbrackets⟩ := hvalue.alike halike
  exact ⟨v', ⟨ts', lex_eq_some_iff.mpr ⟨hmode, htokens'⟩, hvalue'⟩, hbrackets⟩

/-- Behind an object or an array nothing stands but white space. -/
theorem Denotes.blank_of_append {x y : List Char} {v w : JsonValue}
    (hv : (brackets v).isSome = true) (h : Denotes raw x v) (hw : Denotes raw (x ++ y) w) :
    ∀ c ∈ y, isBlank c = true := by
  obtain ⟨⟨opening, closing⟩, hbrackets⟩ := Option.isSome_iff_exists.mp hv
  obtain ⟨before, inner, after, rfl, hbefore, hafter, hscan, hcore⟩ := h.eq_brackets hbrackets
  obtain ⟨ts, hts, hvalue⟩ := hw
  rw [List.append_assoc, lex_blank_append hbefore, List.append_assoc] at hts
  have hbehind := hcore.blank_behind (isPunct_brackets hbrackets).2 hscan ⟨ts, hts, hvalue⟩
  exact fun c hc ↦ isBlank_of_lex_nil hbehind c (List.mem_append_right _ hc)

end Readings

/-! ### The text of literals -/

/-- A text between two quotes: a quote or a backslash stands only behind a backslash. -/
inductive Body : List Char → Prop
  | nil : Body []
  | plain {c : Char} {rest : List Char} (hquote : c ≠ '"') (hback : c ≠ '\\') (h : Body rest) :
      Body (c :: rest)
  | escape {c : Char} {rest : List Char} (h : Body rest) : Body ('\\' :: c :: rest)

section Bodies

variable {body : List Char}

/-- Behind an opening quote the literal is closed, or the text ends in it. -/
theorem exists_body (s : List Char) :
    (∃ body rest, s = body ++ '"' :: rest ∧ Body body) ∨
      ∃ body tail, s = body ++ tail ∧ Body body ∧ (tail = [] ∨ tail = ['\\']) := by
  induction hn : s.length using Nat.strong_induction_on generalizing s with
  | _ n ih =>
    cases s with
    | nil => exact .inr ⟨[], [], rfl, .nil, .inl rfl⟩
    | cons c s =>
      rw [List.length_cons] at hn
      by_cases hquote : c = '"'
      · exact .inl ⟨[], s, by rw [hquote]; rfl, .nil⟩
      by_cases hback : c = '\\'
      · subst hback
        cases s with
        | nil => exact .inr ⟨[], ['\\'], rfl, .nil, .inr rfl⟩
        | cons e s =>
          rw [List.length_cons] at hn
          obtain ⟨body, rest, rfl, hbody⟩ | ⟨body, tail, rfl, hbody, htail⟩ := ih _ (by omega) s rfl
          · exact .inl ⟨'\\' :: e :: body, rest, rfl, .escape hbody⟩
          · exact .inr ⟨'\\' :: e :: body, tail, rfl, .escape hbody, htail⟩
      · obtain ⟨body, rest, rfl, hbody⟩ | ⟨body, tail, rfl, hbody, htail⟩ := ih _ (by omega) s rfl
        · exact .inl ⟨c :: body, rest, rfl, .plain hquote hback hbody⟩
        · exact .inr ⟨c :: body, tail, rfl, .plain hquote hback hbody, htail⟩

/-- The text of a literal is scanned into it. -/
theorem Body.scan (h : Body body) (front rest : List Char) :
    scan (.inside front) (body ++ rest) = Json.scan (.inside (front ++ body)) rest := by
  induction h generalizing front with
  | nil => rw [List.append_nil, List.nil_append]
  | plain hquote hback _ ih =>
    rw [List.cons_append, Json.scan, if_neg hquote, if_neg hback, ih, List.append_assoc]
    rfl
  | escape _ ih =>
    rw [List.cons_append, List.cons_append, Json.scan, if_neg (by decide), if_pos rfl, Json.scan,
      ih, List.append_assoc]
    rfl

/-- A closed literal is a symbol. -/
theorem Body.scan_literal (h : Body body) (rest : List Char) :
    Json.scan .outside ('"' :: (body ++ '"' :: rest)) =
      (Json.scan .outside rest).map (.literal body :: ·) id := by
  rw [Json.scan, if_pos rfl, h.scan, Json.scan, if_pos rfl]
  rfl

/-- A text that ends in a literal has no symbol of it. -/
theorem Body.scan_open (h : Body body) {tail : List Char} (htail : tail = [] ∨ tail = ['\\']) :
    ∃ mode, mode ≠ .outside ∧ Json.scan .outside ('"' :: (body ++ tail)) = ([], mode) := by
  rw [Json.scan, if_pos rfl, h.scan]
  rcases htail with rfl | rfl
  · exact ⟨_, by simp, rfl⟩
  · exact ⟨.escaped ([] ++ body), by simp, rfl⟩

end Bodies

end WikiMind.Base.Json
