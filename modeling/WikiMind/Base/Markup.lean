import WikiMind.Base.Rewrite

/-!
# Nesting of markup

A markup text is read character by character: a tag stands between angle brackets, and what
double quotes enclose in it belongs to an attribute. The open elements form a stack, and
rules say which element has no closing tag, which may open where, and in which the text is
taken down. A rewriting that puts elements around whole elements changes nothing for what
follows.
-/

namespace WikiMind.Base.Markup

open Computability

/-- A character of the text or a tag by the name of its element. -/
inductive Token where
  | text (c : Char)
  | start (name : List Char)
  | stop (name : List Char)
  deriving DecidableEq, Repr

/-- The tag with a body: a slash and the name, or the name and the attributes. -/
def Token.ofBody : List Char → Token
  | '/' :: name => .stop name
  | body => .start (body.takeWhile (· ≠ ' '))

/-- Where a reader stands: in the text, or in a tag of which it has read a part. -/
inductive Reading where
  | text
  | tag (body : List Char) (quoted : Bool)

/-- The tokens of a text, read on from a place; a tag that does not end counts as a tag. -/
def tokensFrom : Reading → List Char → List Token
  | .text, [] => []
  | .tag body _, [] => [.ofBody body]
  | .text, c :: s => if c = '<' then tokensFrom (.tag [] false) s else .text c :: tokensFrom .text s
  | .tag body quoted, c :: s =>
    if c = '>' ∧ quoted = false then .ofBody body :: tokensFrom .text s
    else tokensFrom (.tag (body ++ [c]) (quoted != (c == '"'))) s

/-- The tokens of a text. -/
def tokensOf (w : List Char) : List Token := tokensFrom .text w

/-- A text that ends outside of its tags. -/
def Whole (w : List Char) : Prop := ∀ s, tokensOf (w ++ s) = tokensOf w ++ tokensOf s

section Reading

@[simp] theorem tokensOf_nil : tokensOf [] = [] := rfl

attribute [local simp] tokensFrom in
/-- A character outside tags is a token. -/
theorem tokensOf_cons_of_ne {c : Char} (h : c ≠ '<') (s : List Char) :
    tokensOf (c :: s) = .text c :: tokensOf s := by
  simp only [tokensOf, tokensFrom, if_neg h]

private theorem tokensOf_cons_lt (s : List Char) :
    tokensOf ('<' :: s) = tokensFrom (.tag [] false) s := by
  simp only [tokensOf, tokensFrom, if_pos]

private theorem tokensFrom_cons_gt (body s : List Char) :
    tokensFrom (.tag body false) ('>' :: s) = .ofBody body :: tokensOf s := by
  simp [tokensFrom, tokensOf]

private theorem tokensFrom_cons_quote (body s : List Char) (quoted : Bool) :
    tokensFrom (.tag body quoted) ('"' :: s) = tokensFrom (.tag (body ++ ['"']) !quoted) s := by
  simp [tokensFrom]

/-- Outside of quotes a part of a tag is read on to the next bracket or quote. -/
theorem tokensFrom_plain {w : List Char} (hquote : '"' ∉ w) (hclose : '>' ∉ w)
    (body s : List Char) :
    tokensFrom (.tag body false) (w ++ s) = tokensFrom (.tag (body ++ w) false) s := by
  induction w generalizing body with
  | nil => simp
  | cons c w ih =>
    have hc : c ≠ '>' := fun h ↦ hclose (h ▸ List.mem_cons_self)
    have hc' : (c == '"') = false := by
      simpa using fun h : c = '"' ↦ hquote (h ▸ List.mem_cons_self)
    rw [List.cons_append, tokensFrom, if_neg (fun h ↦ hc h.1), hc', Bool.bne_false,
      ih (fun h ↦ hquote (List.mem_cons_of_mem _ h)) (fun h ↦ hclose (List.mem_cons_of_mem _ h))]
    simp

/-- Within quotes everything up to the closing quote is read on. -/
theorem tokensFrom_quoted {w : List Char} (hquote : '"' ∉ w) (body s : List Char) :
    tokensFrom (.tag body true) (w ++ s) = tokensFrom (.tag (body ++ w) true) s := by
  induction w generalizing body with
  | nil => simp
  | cons c w ih =>
    have hc : (c == '"') = false := by
      simpa using fun h : c = '"' ↦ hquote (h ▸ List.mem_cons_self)
    rw [List.cons_append, tokensFrom, if_neg (by simp), hc, Bool.bne_false,
      ih fun h ↦ hquote (List.mem_cons_of_mem _ h)]
    simp

/-- A tag is one token. -/
theorem tokensOf_tag {body : List Char} (hquote : '"' ∉ body) (hclose : '>' ∉ body)
    (s : List Char) : tokensOf ('<' :: (body ++ '>' :: s)) = .ofBody body :: tokensOf s := by
  rw [tokensOf_cons_lt, tokensFrom_plain hquote hclose, List.nil_append, tokensFrom_cons_gt]

/-- A tag with one attribute, whose value is in quotes. -/
theorem tokensOf_tag_attribute {body value : List Char} (hquote : '"' ∉ body)
    (hclose : '>' ∉ body) (hvalue : '"' ∉ value) (s : List Char) :
    tokensOf ('<' :: (body ++ '"' :: (value ++ '"' :: '>' :: s))) =
      .ofBody (body ++ '"' :: (value ++ ['"'])) :: tokensOf s := by
  rw [tokensOf_cons_lt, tokensFrom_plain hquote hclose, List.nil_append, tokensFrom_cons_quote,
    Bool.not_false, tokensFrom_quoted hvalue, tokensFrom_cons_quote, Bool.not_true,
    tokensFrom_cons_gt]
  simp

/-- A text that is read as one token is whole. -/
theorem whole_of_tokens {w : List Char} {token : Token}
    (h : ∀ s, tokensOf (w ++ s) = token :: tokensOf s) : Whole w := by
  intro s
  have hnil := h []
  rw [List.append_nil, tokensOf_nil] at hnil
  rw [h, hnil]
  rfl

/-- The empty text cuts no tag. -/
theorem whole_nil : Whole [] := fun _ ↦ rfl

/-- A character other than `<` cuts no tag. -/
theorem whole_char {c : Char} (h : c ≠ '<') : Whole [c] := by
  have htokens : ∀ s, tokensOf ([c] ++ s) = .text c :: tokensOf s := tokensOf_cons_of_ne h
  exact whole_of_tokens htokens

/-- Texts that cut no tag, one after the other. -/
theorem Whole.append {w v : List Char} (hw : Whole w) (hv : Whole v) : Whole (w ++ v) := by
  intro s
  rw [List.append_assoc, hw, hv, hw, List.append_assoc]

/-- Many texts that cut no tag cut none. -/
theorem whole_of_mem_kstar {A : Language Char} (hA : ∀ a ∈ A, Whole a) {w : List Char}
    (hw : w ∈ A∗) : Whole w := by
  obtain ⟨pieces, rfl, hpieces⟩ := Language.mem_kstar.mp hw
  clear hw
  induction pieces with
  | nil => exact whole_nil
  | cons a pieces ih =>
    rw [List.flatten_cons]
    exact (hA a (hpieces a List.mem_cons_self)).append
      (ih fun b hb ↦ hpieces b (List.mem_cons_of_mem _ hb))

/-- The tokens of a text are those of its pieces. -/
theorem tokens_of_mem_kstar {A : Language Char} (hA : ∀ a ∈ A, Whole a) {P : Token → Prop}
    (hP : ∀ a ∈ A, ∀ token ∈ tokensOf a, P token) {w : List Char} (hw : w ∈ A∗) :
    ∀ token ∈ tokensOf w, P token := by
  obtain ⟨pieces, rfl, hpieces⟩ := Language.mem_kstar.mp hw
  clear hw
  induction pieces with
  | nil => simp
  | cons a pieces ih =>
    have ha := hpieces a List.mem_cons_self
    rw [List.flatten_cons, hA a ha]
    intro token htoken
    obtain hfirst | hrest := List.mem_append.mp htoken
    · exact hP a ha token hfirst
    · exact ih (fun b hb ↦ hpieces b (List.mem_cons_of_mem _ hb)) token hrest

end Reading

/-- Which elements have no closing tag, which may open inside of others, and inside of which
the text is taken down; the innermost of the open elements comes first. -/
structure Rules where
  isVoid : List Char → Bool
  mayOpen : List (List Char) → List Char → Bool
  takesDown : List (List Char) → Bool

/-- What a reader knows at a place: the open elements and the text taken down. -/
structure Page where
  elements : List (List Char)
  shown : List Char
  deriving DecidableEq, Repr

/-- The page before its first token. -/
def Page.blank : Page := ⟨[], []⟩

/-- A page read within further elements, behind another text. -/
def Page.within (page : Page) (below : List (List Char)) (before : List Char) : Page :=
  ⟨page.elements ++ below, before ++ page.shown⟩

namespace Rules

variable (rules : Rules)

/-- The page after a token, if the token is in its place. -/
def enter (page : Page) : Token → Option Page
  | .text c =>
    some (if rules.takesDown page.elements then { page with shown := page.shown ++ [c] } else page)
  | .start name =>
    if rules.mayOpen page.elements name then
      some (if rules.isVoid name then page else { page with elements := name :: page.elements })
    else none
  | .stop name =>
    if page.elements.head? = some name then some { page with elements := page.elements.tail }
    else none

/-- The page after a text, if each of its tags is in its place. -/
def through (w : List Char) (page : Page) : Option Page := (tokensOf w).foldlM rules.enter page

@[simp] theorem through_nil (page : Page) : rules.through [] page = some page := rfl

/-- A page goes on where it stopped. -/
theorem through_append {w : List Char} (hw : Whole w) (s : List Char) (page : Page) :
    rules.through (w ++ s) page = (rules.through w page).bind (rules.through s) := by
  unfold through
  rw [hw, List.foldlM_append]
  rfl

/-- A text that is one token. -/
theorem through_token {w : List Char} {token : Token}
    (h : ∀ s, tokensOf (w ++ s) = token :: tokensOf s) (s : List Char) (page : Page) :
    rules.through (w ++ s) page = (rules.enter page token).bind (rules.through s) := by
  unfold through
  rw [h, List.foldlM_cons]
  rfl

variable {rules}

/-- Outside of the elements whose text is taken down, characters leave the page alone. -/
theorem through_unseen {w : List Char} (hw : '<' ∉ w) {page : Page}
    (hpage : rules.takesDown page.elements = false) : rules.through w page = some page := by
  induction w with
  | nil => rfl
  | cons c w ih =>
    have hc : c ≠ '<' := fun h ↦ hw (h ▸ List.mem_cons_self)
    unfold through at ih ⊢
    rw [tokensOf_cons_of_ne hc, List.foldlM_cons, enter, hpage, if_neg Bool.false_ne_true]
    exact ih fun h ↦ hw (List.mem_cons_of_mem _ h)

/-- A text outside tags is shown. -/
theorem through_seen {w : List Char} (hw : '<' ∉ w) {page : Page}
    (hpage : rules.takesDown page.elements) :
    rules.through w page = some { page with shown := page.shown ++ w } := by
  induction w generalizing page with
  | nil => simp
  | cons c w ih =>
    have hc : c ≠ '<' := fun h ↦ hw (h ▸ List.mem_cons_self)
    unfold through at ih ⊢
    rw [tokensOf_cons_of_ne hc, List.foldlM_cons, enter, if_pos hpage]
    have hnext : rules.takesDown { page with shown := page.shown ++ [c] }.elements := hpage
    simpa using ih (fun h ↦ hw (List.mem_cons_of_mem _ h)) hnext

private theorem enter_within {page page' : Page} {below : List (List Char)} {before : List Char}
    {token : Token} (hopen : ∀ name, token = .start name → rules.mayOpen page.elements name →
      rules.mayOpen (page.elements ++ below) name)
    (htakes : rules.takesDown (page.elements ++ below) = rules.takesDown page.elements)
    (h : rules.enter page token = some page') :
    rules.enter (page.within below before) token = some (page'.within below before) := by
  cases token with
  | text c =>
    change rules.takesDown (page.within below before).elements = _ at htakes
    cases h
    by_cases hdown : rules.takesDown page.elements
    · rw [enter, if_pos (htakes.trans hdown), if_pos hdown]
      simp [Page.within]
    · rw [enter, if_neg (by rwa [htakes]), if_neg hdown]
  | start name =>
    simp only [enter, Option.ite_none_right_eq_some, Option.some.injEq] at h
    obtain ⟨hmay, rfl⟩ := h
    have hmay' : rules.mayOpen (page.within below before).elements name := hopen name rfl hmay
    rw [enter, if_pos hmay']
    split
    · rfl
    · rfl
  | stop name =>
    simp only [enter, Option.ite_none_right_eq_some, Option.some.injEq] at h
    obtain ⟨hhead, rfl⟩ := h
    obtain ⟨elements, shown⟩ := page
    cases elements with
    | nil => cases hhead
    | cons top elements =>
      rw [enter, if_pos]
      · rfl
      · exact hhead

/-- An element that is open behind a text was open before it or opens in it. -/
theorem mem_elements_of_through {w : List Char} {page page' : Page}
    (h : rules.through w page = some page') {name : List Char} (hname : name ∈ page'.elements) :
    name ∈ page.elements ∨ Token.start name ∈ tokensOf w := by
  unfold through at h
  generalize tokensOf w = tokens at h ⊢
  induction tokens generalizing page with
  | nil =>
    cases h
    exact .inl hname
  | cons token tokens ih =>
    rw [List.foldlM_cons] at h
    obtain ⟨next, hnext, hrest⟩ := Option.bind_eq_some_iff.mp h
    obtain hmem | hmem := ih hrest
    · cases token with
      | text c =>
        cases hnext
        left
        split at hmem
        · exact hmem
        · exact hmem
      | start opened =>
        simp only [enter, Option.ite_none_right_eq_some, Option.some.injEq] at hnext
        obtain ⟨-, rfl⟩ := hnext
        split at hmem
        · exact .inl hmem
        · obtain rfl | hmem := List.mem_cons.mp hmem
          · exact .inr List.mem_cons_self
          · exact .inl hmem
      | stop closed =>
        simp only [enter, Option.ite_none_right_eq_some, Option.some.injEq] at hnext
        obtain ⟨-, rfl⟩ := hnext
        exact .inl (List.mem_of_mem_tail hmem)
    · exact .inr (List.mem_cons_of_mem _ hmem)

/-- What is in its place on a page is so within further elements, if these let every element
open that opens in the text and take down no more of it. -/
theorem through_within {w : List Char} {page page' : Page} (below : List (List Char))
    (before : List Char)
    (hopen : ∀ above name, Token.start name ∈ tokensOf w → rules.mayOpen above name →
      rules.mayOpen (above ++ below) name)
    (htakes : ∀ above, rules.takesDown (above ++ below) = rules.takesDown above)
    (h : rules.through w page = some page') :
    rules.through w (page.within below before) = some (page'.within below before) := by
  unfold through at h ⊢
  generalize tokensOf w = tokens at h hopen
  induction tokens generalizing page with
  | nil =>
    cases h
    rfl
  | cons token tokens ih =>
    rw [List.foldlM_cons] at h ⊢
    obtain ⟨next, hnext, hrest⟩ := Option.bind_eq_some_iff.mp h
    have henter : rules.enter (page.within below before) token =
        some (next.within below before) := by
      apply enter_within _ (htakes _) hnext
      rintro name rfl
      exact hopen page.elements name List.mem_cons_self
    rw [henter]
    exact ih hrest fun above name hname ↦ hopen above name (List.mem_cons_of_mem _ hname)

/-- Rewriting changes nothing for the page if what stands in the place of a match does to it
what the match did, at the place where the match starts. -/
theorem through_rewrite {delimiter : Char → Prop} {A : Language Char} (hA : Solid delimiter A)
    (hwhole : ∀ a ∈ A, Whole a) {find : Pattern Char}
    (hstart : ∀ c s, (find (c :: s)).isSome → delimiter c)
    (fits : List Char → List Char → Prop)
    (hfind : ∀ before c s behind replacement, before ∈ A∗ → c :: s ∈ A∗ →
      find (c :: s) = some (behind, replacement) → fits before (c :: s) →
      s.drop behind ∈ A∗ ∧ Whole replacement ∧ ∃ found ∈ A∗, c :: s = found ++ s.drop behind ∧
        ∀ page, rules.through before .blank = some page →
          rules.through replacement page = rules.through found page)
    {before s : List Char} {page : Page} (hs : s ∈ A∗) (hbefore : before ∈ A∗)
    (hpage : rules.through before .blank = some page)
    (hfits : ∀ m ∈ matchesFrom find 0 before s, fits m.1 m.2) :
    rules.through (rewrite find 0 s) page = rules.through s page := by
  induction hn : s.length using Nat.strong_induction_on generalizing before s page with
  | _ n ih =>
    obtain ⟨pieces, rfl, hpieces⟩ := Language.mem_kstar_iff_exists_nonempty.mp hs
    cases pieces with
    | nil => rfl
    | cons a pieces =>
      obtain ⟨ha, hne⟩ := hpieces a List.mem_cons_self
      have hrest : pieces.flatten ∈ A∗ :=
        Language.join_mem_kstar fun b hb ↦ (hpieces b (List.mem_cons_of_mem _ hb)).1
      obtain ⟨c, a', rfl⟩ := List.exists_cons_of_ne_nil hne
      rw [List.flatten_cons, List.cons_append] at hs hn hfits ⊢
      rw [List.length_cons, List.length_append] at hn
      -- either way the text goes on behind a whole part that has the same effect in both
      have hnext {part text : List Char} (hpart : part ∈ A∗) (htext : text ∈ A∗)
          (hlt : text.length < n)
          (hmatches : ∀ m ∈ matchesFrom find 0 (before ++ part) text, fits m.1 m.2) :
          (rules.through part page).bind (rules.through (rewrite find 0 text)) =
            (rules.through part page).bind (rules.through text) := by
        cases hthrough : rules.through part page with
        | none => rfl
        | some next =>
          rw [Option.bind_some, Option.bind_some]
          apply ih _ hlt htext (append_mem_kstar hbefore hpart) _ hmatches rfl
          have hwholeBefore := whole_of_mem_kstar hwhole hbefore
          rw [through_append rules hwholeBefore, hpage, Option.bind_some, hthrough]
      cases hc : find (c :: (a' ++ pieces.flatten)) with
      | some match' =>
        obtain ⟨behind, replacement⟩ := match'
        rw [matchesFrom_replace hc] at hfits
        obtain ⟨hbehind, hreplacement, found, hfound, hsplit, heffect⟩ :=
          hfind _ _ _ _ _ hbefore hs hc (hfits _ List.mem_cons_self)
        have htake : (c :: (a' ++ pieces.flatten)).take (behind + 1) = found := by
          have hrejoined := List.take_append_drop (behind + 1) (c :: (a' ++ pieces.flatten))
          rw [List.drop_succ_cons] at hrejoined
          exact List.append_cancel_right (hrejoined.trans hsplit)
        rw [htake] at hfits
        rw [rewrite_replace hc, through_append rules hreplacement, heffect page hpage]
        conv_rhs => rw [hsplit, through_append rules (whole_of_mem_kstar hwhole hfound)]
        apply hnext hfound hbehind
        · rw [List.length_drop, List.length_append]
          omega
        · exact fun m hm ↦ hfits m (List.mem_cons_of_mem _ hm)
      | none =>
        obtain ⟨hrewrite, hmatches⟩ := hA.keep_piece hstart ha hc
        rw [hmatches] at hfits
        have hpiece := hwhole _ ha
        rw [hrewrite, ← List.cons_append, through_append rules hpiece,
          through_append rules hpiece]
        exact hnext (mem_kstar_of_mem ha) hrest (by omega) hfits

end Rules

end WikiMind.Base.Markup
