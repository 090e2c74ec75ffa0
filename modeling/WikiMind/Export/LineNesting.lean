import WikiMind.Base.Markup
import WikiMind.Export.SafeHtml

/-!
# Nesting of a formatted line

`_inline_format` of `services/export.py` rewrites code, bold, italic and link marks one after
the other, and the later rewritings look for their marks in the tags and the code that the
earlier ones made. Where each match lies outside of code and has whole elements between its
marks, every element of the line is closed within its parent and code is shown as it was
written.
-/

namespace WikiMind.Export

open WikiMind.Base WikiMind.Base.Markup Computability

def codeName : List Char := "code".toList

def preName : List Char := "pre".toList

/-- The elements that stand apart from lists: headings and code blocks. -/
def apartFromLists : List (List Char) := ["h1", "h2", "h3", "h4", "pre"].map String.toList

/-- A list is open. -/
def listOpen (elements : List (List Char)) : Bool :=
  elements.any fun name ↦ name = "ul".toList || name = "ol".toList

/-- What a page may hold: a rule is never closed, nothing opens in code, and no heading or
code block opens in a list. The text of inline code is taken down. -/
def pageRules : Rules where
  isVoid name := name = "hr".toList
  mayOpen elements name :=
    elements.head? ≠ some codeName && !(listOpen elements && apartFromLists.contains name)
  takesDown elements :=
    elements.head? = some codeName && elements.tail.head? ≠ some preName

/-- Every element of the text is closed by a tag of its name before its parent is, and none
opens out of its place. -/
def Nested (html : List Char) : Prop := (pageRules.through html .blank).any (·.elements = [])

instance (html : List Char) : Decidable (Nested html) := inferInstanceAs (Decidable (_ = true))

/-- The place behind a text is in code. -/
def InCode (before : List Char) : Prop :=
  (pageRules.through before .blank).any (·.elements.head? = some codeName)

instance (before : List Char) : Decidable (InCode before) :=
  inferInstanceAs (Decidable (_ = true))

/-- One rewriting of a line, with the text that a match at the head keeps and the text that
it puts into an attribute. -/
structure InlineStep where
  find : Pattern Char
  inner : List Char → List Char
  aside : List Char → List Char

/-- What stands between two equal fences. -/
def fenced (mark : Char) (width : Nat) (s : List Char) : List Char :=
  (s.drop width).takeWhile (· ≠ mark)

def codeStep : InlineStep := ⟨enclosed '\x60' 1 (element "code"), fenced '\x60' 1, fun _ ↦ []⟩

def boldStep : InlineStep := ⟨enclosed '*' 2 (element "strong"), fenced '*' 2, fun _ ↦ []⟩

def italicStep : InlineStep := ⟨enclosed '*' 1 (element "em"), fenced '*' 1, fun _ ↦ []⟩

def linkStep : InlineStep := ⟨link, linkText, linkUrl⟩

/-- No match of the rewriting starts in code, whole elements stand between its marks and no
tag stands in an address. -/
def InlineStep.Apart (step : InlineStep) (text : List Char) : Prop :=
  ∀ m ∈ matchesFrom step.find 0 [] text,
    ¬ InCode m.1 ∧ Nested (step.inner m.2) ∧ '<' ∉ step.aside m.2

instance (step : InlineStep) (text : List Char) : Decidable (step.Apart text) :=
  inferInstanceAs (Decidable (∀ m ∈ matchesFrom step.find 0 [] text,
    ¬ InCode m.1 ∧ Nested (step.inner m.2) ∧ '<' ∉ step.aside m.2))

/-- Each rewriting in turn meets a text whose elements it leaves apart. -/
def EachApart : List InlineStep → List Char → Prop
  | [], _ => True
  | step :: steps, text => step.Apart text ∧ EachApart steps (rewrite step.find 0 text)

instance decidableEachApart : ∀ steps text, Decidable (EachApart steps text)
  | [], _ => .isTrue trivial
  | step :: steps, text =>
    have := decidableEachApart steps (rewrite step.find 0 text)
    inferInstanceAs (Decidable (_ ∧ _))

/-- The rewritings of a line, in the order of `_inline_format`. -/
def inlineSteps : List InlineStep := [codeStep, boldStep, italicStep, linkStep]

private theorem inlineFormat_eq (text : List Char) :
    inlineFormat text =
      inlineSteps.foldl (fun result step ↦ rewrite step.find 0 result) (escapeHtml text) := rfl

/-- What stands between the code marks of a text, one run after the other. -/
def inlineCode (text : List Char) : List Char :=
  (matchesFrom codeStep.find 0 [] (escapeHtml text)).flatMap fun m ↦ codeStep.inner m.2

section Tags

/-- The elements of a line without links. -/
def inlineTags : List String := ["code", "strong", "em"]

/-- A character other than `<`. -/
def charPiece : Language Char := {w | ∃ c, c ≠ '<' ∧ w = [c]}

/-- A character other than `<`, or a tag of a line without links. -/
def inlinePiece : Language Char :=
  {w | w ∈ charPiece ∨ ∃ tag ∈ inlineTags, w = openTag tag ∨ w = closeTag tag}

/-- A character other than `<`, or a tag of a line. -/
def formattedPiece : Language Char :=
  {w | w ∈ inlinePiece ∨ w = closeTag "a" ∨ ∃ href, '"' ∉ href ∧ w = linkTag href}

theorem tokensOf_openTag {tag : String} (h : tag ∈ "a" :: "hr" :: elementTags) (s : List Char) :
    tokensOf (openTag tag ++ s) = .start tag.toList :: tokensOf s := by
  have hall : ∀ tag ∈ "a" :: "hr" :: elementTags, '"' ∉ tag.toList ∧ '>' ∉ tag.toList ∧
      Token.ofBody tag.toList = .start tag.toList := by decide
  obtain ⟨hquote, hclose, hbody⟩ := hall tag h
  rw [openTag, List.cons_append, List.append_assoc, List.singleton_append,
    tokensOf_tag hquote hclose, hbody]

theorem tokensOf_closeTag {tag : String} (h : tag ∈ "a" :: "hr" :: elementTags)
    (s : List Char) : tokensOf (closeTag tag ++ s) = .stop tag.toList :: tokensOf s := by
  have hall : ∀ tag ∈ "a" :: "hr" :: elementTags, '"' ∉ '/' :: tag.toList ∧
      '>' ∉ '/' :: tag.toList := by decide
  obtain ⟨hquote, hclose⟩ := hall tag h
  have hsplit : closeTag tag ++ s = '<' :: (('/' :: tag.toList) ++ '>' :: s) := by
    simp [closeTag]
  rw [hsplit, tokensOf_tag hquote hclose]
  rfl

theorem tokensOf_linkTag {href : List Char} (h : '"' ∉ href) (s : List Char) :
    tokensOf (linkTag href ++ s) = .start ['a'] :: tokensOf s := by
  have hstart : "<a href=\"".toList = '<' :: ("a href=".toList ++ ['"']) := by decide
  have hsplit : linkTag href ++ s =
      '<' :: ("a href=".toList ++ '"' :: (href ++ '"' :: '>' :: s)) := by
    rw [linkTag_append, hstart]
    simp
  rw [hsplit, tokensOf_tag_attribute (by decide) (by decide) h]
  rfl

/-- The elements of a line. -/
def lineElements : List (List Char) := ["a", "code", "strong", "em"].map String.toList

private theorem inlineTags_subset :
    ∀ tag ∈ inlineTags, tag ∈ "a" :: "hr" :: elementTags := by decide

private theorem solid_inlinePiece : Solid IsMark inlinePiece := by
  rintro w (⟨c, -, rfl⟩ | ⟨tag, htag, hw⟩) d hd hmark
  · rw [List.mem_singleton.mp hd]
  · have hnone : (inlineTags.all fun tag ↦
        (openTag tag ++ closeTag tag).all fun d ↦ decide ¬ IsMark d) = true := by decide
    simp only [List.all_eq_true, decide_eq_true_eq] at hnone
    refine absurd hmark (hnone tag htag d (List.mem_append.mpr ?_))
    obtain rfl | rfl := hw
    · exact .inl hd
    · exact .inr hd

/-- A piece of a line is one token, and a tag that opens is that of an element of a line. -/
theorem formattedPiece_token {a : List Char} (ha : a ∈ formattedPiece) :
    ∃ token, (∀ s, tokensOf (a ++ s) = token :: tokensOf s) ∧
      ∀ name, token = .start name → name ∈ lineElements := by
  rcases ha with (⟨c, hc, rfl⟩ | ⟨tag, htag, rfl | rfl⟩) | rfl | ⟨href, hhref, rfl⟩
  · exact ⟨.text c, tokensOf_cons_of_ne hc, by simp⟩
  · refine ⟨_, tokensOf_openTag (inlineTags_subset tag htag), ?_⟩
    rintro name ⟨rfl⟩
    have hall : ∀ tag ∈ inlineTags, tag.toList ∈ lineElements := by decide
    exact hall tag htag
  · exact ⟨_, tokensOf_closeTag (inlineTags_subset tag htag), by simp⟩
  · exact ⟨_, tokensOf_closeTag (by decide : "a" ∈ "a" :: "hr" :: elementTags), by simp⟩
  · refine ⟨_, tokensOf_linkTag hhref, ?_⟩
    rintro name ⟨rfl⟩
    decide

private theorem whole_formattedPiece : ∀ a ∈ formattedPiece, Whole a := by
  intro a ha
  obtain ⟨token, htoken, -⟩ := formattedPiece_token ha
  exact whole_of_tokens htoken

private theorem whole_inlinePiece : ∀ a ∈ inlinePiece, Whole a := fun a ha ↦
  whole_formattedPiece a (.inl ha)

private theorem whole_charPiece :
    ∀ a ∈ charPiece, Whole a := fun a ha ↦ whole_inlinePiece a (.inl ha)

/-- Only elements of a line open in a formatted text. -/
theorem start_of_formatted {w : List Char} (hw : w ∈ formattedPiece∗) {name : List Char}
    (h : Token.start name ∈ tokensOf w) : name ∈ lineElements := by
  have htokens : ∀ a ∈ formattedPiece, ∀ token ∈ tokensOf a,
      ∀ name, token = .start name → name ∈ lineElements := by
    intro a ha token htoken
    obtain ⟨token', htoken', hname⟩ := formattedPiece_token ha
    have ha' := htoken' []
    rw [List.append_nil] at ha'
    rw [ha', tokensOf_nil, List.mem_singleton] at htoken
    exact htoken ▸ hname
  exact tokens_of_mem_kstar whole_formattedPiece htokens hw _ h name rfl

/-- A formatted text does within an element what it does on its own, unless the element is
code. -/
theorem formatted_within {w : List Char} (hw : w ∈ formattedPiece∗) {page : Page}
    (h : pageRules.through w .blank = some page) (below : List (List Char)) (before : List Char)
    (hcode : below.head? ≠ some codeName) (hpre : below.head? ≠ some preName) :
    pageRules.through w ⟨below, before⟩ =
      some ⟨page.elements ++ below, before ++ page.shown⟩ := by
  have happart : ∀ name ∈ lineElements, name ∉ apartFromLists := by decide
  have hwithin := Rules.through_within below before ?_ ?_ h
  · simpa [Page.within, Page.blank] using hwithin
  · intro above name hname hmay
    have hname' := happart name (start_of_formatted hw hname)
    simp only [pageRules, List.contains_eq_mem, hname', decide_false, Bool.and_false,
      Bool.not_false, Bool.and_true, decide_eq_true_eq] at hmay ⊢
    cases above with
    | nil => exact hcode
    | cons top above => exact hmay
  · intro above
    cases above with
    | nil => simp [pageRules, hcode]
    | cons top above =>
      cases above with
      | nil => simp [pageRules, List.head?_eq_getElem? ▸ hpre]
      | cons _ _ => rfl

/-- Only elements of a line are open behind a formatted text. -/
theorem elements_of_formatted {w : List Char} (hw : w ∈ formattedPiece∗) {page : Page}
    (h : pageRules.through w .blank = some page) : page.elements.head? ≠ some preName := by
  intro hpre
  obtain hnone | hstart := Rules.mem_elements_of_through h (List.mem_of_head? hpre)
  · cases hnone
  · exact absurd (start_of_formatted hw hstart) (by decide)

end Tags

section Elements

/-- The elements whose text is not code. -/
def proseTags : List String :=
  ["a", "h1", "h2", "h3", "h4", "blockquote", "li", "p", "strong", "em"]

theorem through_openTag {tag : String} (htag : tag ∈ "a" :: elementTags) (page : Page)
    (hmay : pageRules.mayOpen page.elements tag.toList) (s : List Char) :
    pageRules.through (openTag tag ++ s) page =
      pageRules.through s ⟨tag.toList :: page.elements, page.shown⟩ := by
  have hvoid : ∀ tag ∈ "a" :: elementTags, tag ∈ "a" :: "hr" :: elementTags ∧
      pageRules.isVoid tag.toList = false := by decide
  obtain ⟨hmem, hvoid⟩ := hvoid tag htag
  rw [Rules.through_token _ (tokensOf_openTag hmem), Rules.enter, if_pos hmay, hvoid]
  rfl

theorem through_closeTag {tag : String} (htag : tag ∈ "a" :: elementTags)
    (elements : List (List Char)) (shown s : List Char) :
    pageRules.through (closeTag tag ++ s) ⟨tag.toList :: elements, shown⟩ =
      pageRules.through s ⟨elements, shown⟩ := by
  have hmem : ∀ tag ∈ "a" :: elementTags, tag ∈ "a" :: "hr" :: elementTags := by decide
  rw [Rules.through_token _ (tokensOf_closeTag (hmem tag htag)), Rules.enter, if_pos (by rfl)]
  rfl

/-- A formatted text between the tags of an element leaves the same elements open. -/
theorem through_around {opening inner shown : List Char} {tag : String} (htag : tag ∈ proseTags)
    (hopening : ∀ s, tokensOf (opening ++ s) = .start tag.toList :: tokensOf s)
    (hinner : inner ∈ formattedPiece∗)
    (hthrough : pageRules.through inner .blank = some ⟨[], shown⟩) {page : Page}
    (hmay : pageRules.mayOpen page.elements tag.toList) :
    pageRules.through (opening ++ inner ++ closeTag tag) page =
      some ⟨page.elements, page.shown ++ shown⟩ := by
  have hprose : ∀ tag ∈ proseTags, tag ∈ "a" :: elementTags ∧ tag.toList ≠ codeName ∧
      tag.toList ≠ preName ∧ pageRules.isVoid tag.toList = false := by decide
  obtain ⟨hmem, hcode, hpre, hvoid⟩ := hprose tag htag
  have henter : pageRules.enter page (.start tag.toList) =
      some ⟨tag.toList :: page.elements, page.shown⟩ := by
    rw [Rules.enter, if_pos hmay, hvoid]
    rfl
  have hwithin := formatted_within hinner hthrough (tag.toList :: page.elements) page.shown
    (by simpa using hcode) (by simpa using hpre)
  rw [List.append_assoc, Rules.through_token _ hopening, henter, Option.bind_some,
    Rules.through_append _ (whole_of_mem_kstar whole_formattedPiece hinner), hwithin,
    Option.bind_some]
  have hclose := through_closeTag hmem page.elements (page.shown ++ shown) []
  rwa [List.append_nil] at hclose

private theorem mayOpen_of_line {tag : String} (htag : tag ∈ "a" :: inlineTags)
    {elements : List (List Char)} (h : elements.head? ≠ some codeName) :
    pageRules.mayOpen elements tag.toList := by
  have happart : ∀ tag ∈ "a" :: inlineTags, tag.toList ∉ apartFromLists := by decide
  simpa [pageRules, happart tag htag] using h

end Elements

section Steps

private theorem nested_iff {w : List Char} :
    Nested w ↔ ∃ shown, pageRules.through w .blank = some ⟨[], shown⟩ := by
  unfold Nested
  rw [Option.any_eq_true]
  constructor
  · rintro ⟨⟨elements, shown⟩, h, hnil⟩
    obtain rfl : elements = [] := by simpa using hnil
    exact ⟨shown, h⟩
  · rintro ⟨shown, h⟩
    exact ⟨_, h, by simp⟩

private theorem head_of_not_inCode {before : List Char} (h : ¬ InCode before) {page : Page}
    (hpage : pageRules.through before .blank = some page) :
    page.elements.head? ≠ some codeName := by
  intro hcode
  apply h
  unfold InCode
  rw [hpage]
  simpa using hcode

private theorem fenced_eq {mark : Char} {width : Nat} {run : List Char} (hwidth : 0 < width)
    (hrun : mark ∉ run) (rest : List Char) :
    fenced mark width (List.replicate width mark ++ (run ++ (List.replicate width mark ++ rest))) =
      run := by
  obtain ⟨w, rfl⟩ := Nat.exists_eq_succ_of_ne_zero hwidth.ne'
  unfold fenced
  rw [List.drop_left' (List.length_replicate ..), List.replicate_succ, List.cons_append]
  exact takeWhile_ne_append hrun _

private theorem marks_mem {A : Language Char} (hA : ∀ a ∈ charPiece, a ∈ A) {mark : Char}
    (h : mark ≠ '<') (width : Nat) : List.replicate width mark ∈ A∗ := by
  apply mem_kstar_of_chars
  intro c hc
  rw [List.eq_of_mem_replicate hc]
  exact hA _ ⟨mark, h, rfl⟩

private theorem not_lt_of_mem_marks {mark : Char} (h : mark ≠ '<') (width : Nat) :
    '<' ∉ List.replicate width mark := fun hmem ↦ h (List.eq_of_mem_replicate hmem).symm

private theorem whole_of_no_lt {w : List Char} (hw : '<' ∉ w) : Whole w :=
  whole_of_mem_kstar whole_charPiece
    (mem_kstar_of_chars fun c hc ↦ ⟨c, fun heq ↦ hw (heq ▸ hc), rfl⟩)

/-- Outside of code a text between marks does to a page what the text does. -/
theorem through_marked {w front back : List Char} (hw : w ∈ formattedPiece∗)
    (hfront : '<' ∉ front) (hback : '<' ∉ back) {page page' : Page}
    (hcode : page.elements.head? ≠ some codeName) (hcode' : page'.elements.head? ≠ some codeName)
    (h : pageRules.through w page = some page') :
    pageRules.through (front ++ (w ++ back)) page = some page' := by
  have hunseen {marks : List Char} (hmarks : '<' ∉ marks) {page : Page}
      (h : page.elements.head? ≠ some codeName) : pageRules.through marks page = some page :=
    Rules.through_unseen hmarks (by simp [pageRules, h])
  rw [Rules.through_append _ (whole_of_no_lt hfront), hunseen hfront hcode, Option.bind_some,
    Rules.through_append _ (whole_of_mem_kstar whole_formattedPiece hw), h, Option.bind_some,
    hunseen hback hcode']

private theorem inlinePiece_le {w : List Char} (hw : w ∈ inlinePiece∗) : w ∈ formattedPiece∗ :=
  mem_kstar_of_subset (fun _ h ↦ .inl h) hw

/-- Bold and italic marks around whole elements, outside of code, leave the page as it was. -/
theorem through_fences {mark : Char} {width : Nat} {tag : String} {aside : List Char → List Char}
    (htag : tag ∈ ["strong", "em"]) (hmark : IsMark mark) (hne : mark ≠ '<')
    (hwidth : 0 < width) {s : List Char} (hs : s ∈ inlinePiece∗)
    (hapart : InlineStep.Apart ⟨enclosed mark width (element tag), fenced mark width, aside⟩ s) :
    pageRules.through (rewrite (enclosed mark width (element tag)) 0 s) .blank =
      pageRules.through s .blank := by
  have htags : ∀ tag ∈ ["strong", "em"], tag ∈ proseTags ∧ tag ∈ "a" :: inlineTags ∧
      tag ∈ "a" :: "hr" :: elementTags := by decide
  obtain ⟨hprose, hline, hmem⟩ := htags tag htag
  have hle {w : List Char} := inlinePiece_le (w := w)
  apply Rules.through_rewrite solid_inlinePiece whole_inlinePiece
    (fun c s h ↦ by rwa [enclosed_start hwidth h])
    (fun before rest ↦ ¬ InCode before ∧ Nested (fenced mark width rest)) _ hs
    (Language.nil_mem_kstar _) rfl fun m hm ↦ ⟨(hapart m hm).1, (hapart m hm).2.1⟩
  rintro before c s behind replacement hbefore hpiece hfound ⟨hcode, hnested⟩
  obtain ⟨run, hrun, hnone, rfl, hrest, hsplit⟩ :=
    solid_inlinePiece.enclosed_eq_some hmark hwidth hpiece hfound
  rw [hsplit, fenced_eq hwidth hnone] at hnested
  obtain ⟨shown, hthrough⟩ := nested_iff.mp hnested
  have hmarks := marks_mem (A := inlinePiece) (fun _ h ↦ .inl h) hne width
  refine ⟨hrest, ?_, List.replicate width mark ++ (run ++ List.replicate width mark),
    append_mem_kstar hmarks (append_mem_kstar hrun hmarks), ?_, fun page hpage ↦ ?_⟩
  · exact ((whole_of_tokens (tokensOf_openTag hmem)).append
      (whole_of_mem_kstar whole_inlinePiece hrun)).append (whole_of_tokens (tokensOf_closeTag hmem))
  · simpa using hsplit
  · have hhead := head_of_not_inCode hcode hpage
    have hpre := elements_of_formatted (hle hbefore) hpage
    have hwithin : pageRules.through run page = some ⟨page.elements, page.shown ++ shown⟩ :=
      formatted_within (hle hrun) hthrough page.elements page.shown hhead hpre
    have hmarks := not_lt_of_mem_marks hne width
    rw [through_marked (hle hrun) hmarks hmarks hhead (by exact hhead) hwithin]
    exact through_around hprose (tokensOf_openTag hmem) (hle hrun) hthrough
      (mayOpen_of_line hline hhead)

/-- The replacement of a link outside of code is its text, in a link or not. -/
theorem through_replaceLink {text url shown : List Char} (htext : text ∈ formattedPiece∗)
    (hthrough : pageRules.through text .blank = some ⟨[], shown⟩) {page : Page}
    (hcode : page.elements.head? ≠ some codeName) (hpre : page.elements.head? ≠ some preName) :
    pageRules.through (replaceLink text url) page =
      some ⟨page.elements, page.shown ++ shown⟩ := by
  unfold replaceLink
  split
  · exact through_around (by decide) (tokensOf_linkTag (quote_escaped url)) htext hthrough
      (mayOpen_of_line (by decide) hcode)
  · exact formatted_within htext hthrough page.elements page.shown hcode hpre

private theorem replaceLink_mem {text url : List Char} (htext : text ∈ inlinePiece∗) :
    replaceLink text url ∈ formattedPiece∗ := by
  unfold replaceLink
  split
  · apply append_mem_kstar (append_mem_kstar _ (inlinePiece_le htext))
    · exact mem_kstar_of_mem (.inr (.inl rfl))
    · exact mem_kstar_of_mem (.inr (.inr ⟨_, quote_escaped url, rfl⟩))
  · exact inlinePiece_le htext

/-- Links around whole elements, outside of code, leave the page as it was. -/
theorem through_links {s : List Char} (hs : s ∈ inlinePiece∗) (hapart : linkStep.Apart s) :
    pageRules.through (rewrite link 0 s) .blank = pageRules.through s .blank := by
  apply Rules.through_rewrite solid_inlinePiece whole_inlinePiece (fun _ _ ↦ link_start)
    (fun before rest ↦ ¬ InCode before ∧ Nested (linkText rest) ∧ '<' ∉ linkUrl rest) _ hs
    (Language.nil_mem_kstar _) rfl hapart
  rintro before c s behind replacement hbefore hpiece hfound ⟨hcode, hnested, hurl⟩
  obtain ⟨text, htext, url, hurlMem, hbracket, hparenthesis, rfl, hrest, hsplit⟩ :=
    link_pieces solid_inlinePiece hpiece hfound
  rw [hsplit] at hnested hurl
  rw [linkText_eq hbracket] at hnested
  rw [linkUrl_eq hbracket hparenthesis] at hurl
  obtain ⟨shown, hthrough⟩ := nested_iff.mp hnested
  have hmark {c : Char} (h : c ≠ '<') : [c] ∈ inlinePiece∗ := mem_kstar_of_mem (.inl ⟨c, h, rfl⟩)
  have hback : ']' :: '(' :: (url ++ [')']) ∈ inlinePiece∗ :=
    append_mem_kstar (hmark (c := ']') (by decide))
      (append_mem_kstar (hmark (c := '(') (by decide))
        (append_mem_kstar hurlMem (hmark (by decide))))
  refine ⟨hrest, whole_of_mem_kstar whole_formattedPiece (replaceLink_mem htext),
    ['['] ++ (text ++ ']' :: '(' :: (url ++ [')'])),
    append_mem_kstar (hmark (by decide)) (append_mem_kstar htext hback), ?_, fun page hpage ↦ ?_⟩
  · simpa using hsplit
  · have hhead := head_of_not_inCode hcode hpage
    have hpre := elements_of_formatted (inlinePiece_le hbefore) hpage
    have hwithin : pageRules.through text page = some ⟨page.elements, page.shown ++ shown⟩ :=
      formatted_within (inlinePiece_le htext) hthrough page.elements page.shown hhead hpre
    rw [through_marked (inlinePiece_le htext) (by decide) (by simpa using hurl) hhead
      (by exact hhead) hwithin]
    exact through_replaceLink (inlinePiece_le htext) hthrough hhead hpre

private theorem through_codeElement {run : List Char} (hrun : '<' ∉ run) (shown : List Char) :
    pageRules.through (element "code" run) ⟨[], shown⟩ = some ⟨[], shown ++ run⟩ := by
  have hmem : "code" ∈ "a" :: elementTags := by decide
  have hseen : pageRules.through run ⟨[codeName], shown⟩ = some ⟨[codeName], shown ++ run⟩ :=
    Rules.through_seen hrun rfl
  rw [element, List.append_assoc, through_openTag hmem ⟨[], shown⟩ rfl,
    Rules.through_append _ (whole_of_no_lt hrun)]
  change (pageRules.through run ⟨[codeName], shown⟩).bind _ = _
  rw [hseen, Option.bind_some]
  have hclose := through_closeTag hmem [] (shown ++ run) []
  rwa [List.append_nil] at hclose

/-- The code marks of a text without tags: each run is shown as it stands. -/
theorem through_code {s : List Char} (hs : '<' ∉ s) (before shown : List Char) :
    pageRules.through (rewrite codeStep.find 0 s) ⟨[], shown⟩ = some ⟨[], shown ++
      (matchesFrom codeStep.find 0 before s).flatMap fun m ↦ codeStep.inner m.2⟩ := by
  induction hn : s.length using Nat.strong_induction_on generalizing s before shown with
  | _ n ih =>
    cases s with
    | nil => simp [rewrite, matchesFrom]
    | cons c s =>
      rw [List.length_cons] at hn
      have hc : c ≠ '<' := fun h ↦ hs (h ▸ List.mem_cons_self)
      have htail : '<' ∉ s := fun h ↦ hs (List.mem_cons_of_mem _ h)
      cases hfound : codeStep.find (c :: s) with
      | none =>
        rw [rewrite_keep hfound, matchesFrom_keep hfound, ← List.singleton_append,
          Rules.through_token _ (tokensOf_cons_of_ne hc)]
        exact ih _ (by omega) htail _ shown rfl
      | some found =>
        obtain ⟨behind, replacement⟩ := found
        obtain ⟨run, hsplit, rfl, hnone⟩ := enclosed_eq_some (by decide) hfound
        have hrun : '<' ∉ run := by
          intro h
          apply hs
          rw [hsplit]
          simp [h]
        have hrest : '<' ∉ s.drop behind := fun h ↦ htail (List.mem_of_mem_drop h)
        have hinner : codeStep.inner (c :: s) = run := by
          rw [hsplit]
          exact fenced_eq Nat.one_pos hnone _
        have hmem : "code" ∈ "a" :: "hr" :: elementTags := by decide
        have hwhole : Whole (element "code" run) :=
          ((whole_of_tokens (tokensOf_openTag hmem)).append (whole_of_no_lt hrun)).append
            (whole_of_tokens (tokensOf_closeTag hmem))
        rw [rewrite_replace hfound, matchesFrom_replace hfound, List.flatMap_cons, hinner,
          Rules.through_append _ hwhole, through_codeElement hrun, Option.bind_some,
          ih _ _ hrest _ _ rfl, List.append_assoc]
        rw [List.length_drop]
        omega

private theorem rewrite_inline_mem {mark : Char} {width : Nat} {tag : String} (hmark : IsMark mark)
    (hwidth : 0 < width) (htag : tag ∈ inlineTags) {s : List Char} (hs : s ∈ inlinePiece∗) :
    rewrite (enclosed mark width (element tag)) 0 s ∈ inlinePiece∗ := by
  apply rewrite_enclosed_mem solid_inlinePiece hmark hwidth _ hs
  intro run hrun
  apply append_mem_kstar (append_mem_kstar _ hrun)
  · exact mem_kstar_of_mem (.inr ⟨tag, htag, .inr rfl⟩)
  · exact mem_kstar_of_mem (.inr ⟨tag, htag, .inl rfl⟩)

/-- A line whose rewritings leave the elements apart is nested, and shows its code as it
stands. -/
theorem through_inlineFormat {text : List Char}
    (h : EachApart inlineSteps (escapeHtml text)) :
    inlineFormat text ∈ formattedPiece∗ ∧
      pageRules.through (inlineFormat text) .blank = some ⟨[], inlineCode text⟩ := by
  obtain ⟨-, hbold, hitalic, hlink, -⟩ := h
  have hescaped : escapeHtml text ∈ inlinePiece∗ :=
    mem_kstar_of_chars fun c hc ↦ .inl ⟨c, fun heq ↦ escapeHtml_no_lt text (heq ▸ hc), rfl⟩
  have hcode : rewrite codeStep.find 0 (escapeHtml text) ∈ inlinePiece∗ :=
    rewrite_inline_mem (by decide) (by decide) (by decide) hescaped
  have hstrong : rewrite boldStep.find 0 _ ∈ inlinePiece∗ :=
    rewrite_inline_mem (by decide) (by decide) (by decide) hcode
  have hem : rewrite italicStep.find 0 _ ∈ inlinePiece∗ :=
    rewrite_inline_mem (by decide) (by decide) (by decide) hstrong
  constructor
  · apply solid_inlinePiece.rewrite_mem (fun _ ↦ .inl) (fun _ _ ↦ link_start) _ hem
    intro c s behind replacement hpiece hfound
    obtain ⟨linked, htext, url, -, -, -, rfl, hrest, -⟩ :=
      link_pieces solid_inlinePiece hpiece hfound
    exact ⟨replaceLink_mem htext, hrest⟩
  · calc pageRules.through (inlineFormat text) .blank
      _ = pageRules.through (rewrite italicStep.find 0 _) .blank := through_links hem hlink
      _ = pageRules.through (rewrite boldStep.find 0 _) .blank :=
        through_fences (by decide) (by decide) (by decide) (by decide) hstrong hitalic
      _ = pageRules.through (rewrite codeStep.find 0 (escapeHtml text)) .blank :=
        through_fences (by decide) (by decide) (by decide) (by decide) hcode hbold
      _ = some ⟨[], inlineCode text⟩ := through_code (escapeHtml_no_lt text) [] []

end Steps

end WikiMind.Export
