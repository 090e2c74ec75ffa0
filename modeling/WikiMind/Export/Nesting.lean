import WikiMind.Base.Run
import WikiMind.Export.LineNesting

/-!
# Nesting of a converted text

`_markdown_to_html` of `services/export.py` opens and closes lists, code blocks and the
elements of a line; a fence does not close the list before it. Where the elements of each line
are nested and no code block opens in a list, every element of the page is closed within its
parent, no list reaches into a heading or a code block, and inline code is shown as it was
written.
-/

namespace WikiMind.Export

open WikiMind.Base WikiMind.Base.Markup Computability

variable (isdigit : Char → Bool)

/-- What stands between code marks outside of code blocks, line by line. -/
def writtenCode : Bool → List (List Char) → List Char
  | _, [] => []
  | inCodeBlock, line :: lines =>
    if startsWith (strip line) "\x60\x60\x60" then writtenCode (!inCodeBlock) lines
    else if inCodeBlock then writtenCode inCodeBlock lines
    else inlineCode (formattedText isdigit (strip line)) ++ writtenCode inCodeBlock lines

/-- The page is nested, no list is open at a heading, a code block or the end, and inline
code contains nothing but what was written between its marks. -/
def WellNested (markdownText : List Char) : Prop :=
  pageRules.through (markdownToHtml isdigit markdownText) .blank =
    some ⟨[], writtenCode isdigit false (markdownText.splitOn '\n')⟩

instance (markdownText : List Char) : Decidable (WellNested isdigit markdownText) :=
  inferInstanceAs (Decidable (_ = _))

/-- The converter before its first line. -/
def Conversion.start : Conversion := ⟨[], false, ⟨false, .none⟩⟩

/-- The converter, line by line. -/
def converter : Machine Conversion (List Char) := .ofFun (convertLine isdigit)

/-- A line outside of code blocks whose rewritings leave the elements apart. -/
def LineApart (c : Conversion) (line : List Char) : Prop :=
  c.inCodeBlock = false → startsWith (strip line) "\x60\x60\x60" = false →
    EachApart inlineSteps (escapeHtml (formattedText isdigit (strip line)))

/-- A line that opens no code block while a list is open. -/
def FenceOutsideList (c : Conversion) (line : List Char) : Prop :=
  startsWith (strip line) "\x60\x60\x60" → c.inCodeBlock = false → c.state.inList = false

section Lines

/-- The elements that the list context leaves open. -/
def ListState.elements (state : ListState) : List (List Char) :=
  if state.inList then [if state.listType = .ol then "ol".toList else "ul".toList] else []

/-- The elements that are open between two lines. -/
def Conversion.elements (c : Conversion) : List (List Char) :=
  (if c.inCodeBlock then [codeName, preName] else []) ++ c.state.elements

/-- The line continues the list that is open. -/
def goesOn (stripped : List Char) : Bool :=
  ["- ", "* ", "1.", "2.", "3.", "4.", "5."].any (startsWith stripped ·)

private theorem ListState.elements_head (state : ListState) (name : List Char)
    (h : name ≠ "ul".toList ∧ name ≠ "ol".toList) : state.elements.head? ≠ some name := by
  unfold ListState.elements
  split
  · split
    · simpa using h.2.symm
    · simpa using h.1.symm
  · simp

theorem ListState.mayOpen (state : ListState) {name : List Char}
    (h : name ∉ apartFromLists ∨ state.inList = false) :
    pageRules.mayOpen state.elements name := by
  have hhead := state.elements_head codeName (by decide)
  simp only [pageRules, List.contains_eq_mem, hhead, ne_eq, not_false_eq_true, decide_true,
    Bool.true_and, Bool.not_eq_true', Bool.and_eq_false_iff, decide_eq_false_iff_not]
  obtain h | h := h
  · exact .inr h
  · left
    simp [ListState.elements, h, listOpen]

/-- A formatted element between lines. -/
theorem through_line {text : List Char} (h : EachApart inlineSteps (escapeHtml text))
    {tag : String} (htag : tag ∈ proseTags) (helement : tag ∈ elementTags) {state : ListState}
    (hmay : tag.toList ∉ apartFromLists ∨ state.inList = false) (shown : List Char) :
    pageRules.through (element tag (inlineFormat text)) ⟨state.elements, shown⟩ =
      some ⟨state.elements, shown ++ inlineCode text⟩ := by
  obtain ⟨hmem, hthrough⟩ := through_inlineFormat h
  have hopening : tag ∈ "a" :: "hr" :: elementTags :=
    List.mem_cons_of_mem _ (List.mem_cons_of_mem _ helement)
  exact through_around htag (tokensOf_openTag hopening) hmem hthrough (state.mayOpen hmay)

private theorem through_newline {elements : List (List Char)} (h : elements.head? ≠ some codeName)
    (shown : List Char) : pageRules.through ['\n'] ⟨elements, shown⟩ = some ⟨elements, shown⟩ :=
  Rules.through_unseen (by decide) (by simp [pageRules, h])

/-- The list that an item opens, unless one is open. -/
theorem through_open (state : ListState) {listType : ListType} {tag : String}
    (h : listType = .ul ∧ tag = "ul" ∨ listType = .ol ∧ tag = "ol") (shown : List Char) :
    Whole (state.open listType tag).1 ∧
      pageRules.through (state.open listType tag).1 ⟨state.elements, shown⟩ =
        some ⟨(state.open listType tag).2.elements, shown⟩ := by
  have htag : tag ∈ "a" :: elementTags := by
    obtain ⟨-, rfl⟩ | ⟨-, rfl⟩ := h
    · decide
    · decide
  have hapart : tag.toList ∉ apartFromLists := by
    obtain ⟨-, rfl⟩ | ⟨-, rfl⟩ := h
    · decide
    · decide
  have helements : (⟨true, listType⟩ : ListState).elements = [tag.toList] := by
    obtain ⟨rfl, rfl⟩ | ⟨rfl, rfl⟩ := h
    · rfl
    · rfl
  cases hlist : state.inList with
  | true =>
    have hopen : state.open listType tag = ([], state) := by simp [ListState.open, hlist]
    rw [hopen]
    exact ⟨whole_nil, rfl⟩
  | false =>
    have hopen : state.open listType tag = (openTag tag ++ ['\n'], ⟨true, listType⟩) := by
      simp [ListState.open, hlist]
    have hnone : state.elements = [] := by simp [ListState.elements, hlist]
    have hhead := (⟨true, listType⟩ : ListState).elements_head codeName (by decide)
    rw [hopen]
    constructor
    · have hmem : tag ∈ "a" :: "hr" :: elementTags := by
        obtain ⟨-, rfl⟩ | ⟨-, rfl⟩ := h
        · decide
        · decide
      exact (whole_of_tokens (tokensOf_openTag hmem)).append (whole_char (by decide))
    · have hmay := state.mayOpen (.inl hapart)
      rw [through_openTag htag _ hmay, hnone, ← helements]
      exact through_newline hhead shown

/-- The list that is open is closed. -/
theorem through_close {state : ListState} (h : state.inList = true) (shown : List Char) :
    Whole state.close ∧
      pageRules.through state.close ⟨state.elements, shown⟩ = some ⟨[], shown⟩ := by
  have hol : "ol" ∈ "a" :: "hr" :: elementTags := by decide
  have hul : "ul" ∈ "a" :: "hr" :: elementTags := by decide
  unfold ListState.close ListState.elements
  rw [if_pos h]
  split
  · have hclose := through_closeTag (by decide : "ol" ∈ "a" :: elementTags) [] shown []
    rw [List.append_nil] at hclose
    exact ⟨whole_of_tokens (tokensOf_closeTag hol), hclose⟩
  · have hclose := through_closeTag (by decide : "ul" ∈ "a" :: elementTags) [] shown []
    rw [List.append_nil] at hclose
    exact ⟨whole_of_tokens (tokensOf_closeTag hul), hclose⟩

private theorem head_of_startsWith {s : List Char} {t : String} (ht : t.toList ≠ [])
    (h : startsWith s t) : s.head? = t.toList.head? := by
  obtain ⟨rest, rfl⟩ := List.isPrefixOf_iff_prefix.mp h
  exact List.head?_append_of_ne_nil _ ht

/-- No heading continues a list. -/
theorem goesOn_of_hash {stripped : List Char} (h : stripped.head? = some '#') :
    goesOn stripped = false := by
  rw [goesOn, List.any_eq_false]
  intro mark hmark hstarts
  have hheads : ∀ mark ∈ ["- ", "* ", "1.", "2.", "3.", "4.", "5."],
      mark.toList ≠ [] ∧ mark.toList.head? ≠ some '#' := by decide
  obtain ⟨hne, hhead⟩ := hheads mark hmark
  exact hhead (head_of_startsWith hne hstarts ▸ h)

private theorem through_rule {elements : List (List Char)} (h : elements.head? ≠ some codeName)
    (shown : List Char) :
    pageRules.through (openTag "hr") ⟨elements, shown⟩ = some ⟨elements, shown⟩ := by
  have hmay : pageRules.mayOpen elements "hr".toList := by
    have hapart : "hr".toList ∉ apartFromLists := by decide
    simp only [pageRules, List.contains_eq_mem, h, hapart, decide_false, Bool.and_false,
      Bool.not_false, Bool.and_true, ne_eq, not_false_eq_true, decide_true]
  have htoken := Rules.through_token pageRules
    (tokensOf_openTag (by decide : "hr" ∈ "a" :: "hr" :: elementTags)) [] ⟨elements, shown⟩
  rw [List.append_nil, Rules.enter, if_pos hmay] at htoken
  exact htoken

/-- An item, with the tag of its list if it opens one. -/
theorem through_item {text : List Char} (h : EachApart inlineSteps (escapeHtml text))
    (state : ListState) {listType : ListType} {tag : String}
    (htag : listType = .ul ∧ tag = "ul" ∨ listType = .ol ∧ tag = "ol") (shown : List Char) :
    pageRules.through ((state.open listType tag).1 ++ element "li" (inlineFormat text))
        ⟨state.elements, shown⟩ =
      some ⟨(state.open listType tag).2.elements, shown ++ inlineCode text⟩ := by
  obtain ⟨hwhole, hopen⟩ := through_open state htag shown
  rw [Rules.through_append _ hwhole, hopen, Option.bind_some]
  exact through_line h (by decide) (by decide) (.inl (by decide)) shown

/-- The element of a line leaves the list context open and shows the code of the line. -/
theorem through_lineToElement {stripped : List Char} {state : ListState}
    (h : EachApart inlineSteps (escapeHtml (formattedText isdigit stripped)))
    (hlist : goesOn stripped = false → state.inList = false) (shown : List Char) :
    pageRules.through (lineToElement isdigit stripped state).1 ⟨state.elements, shown⟩ =
      some ⟨(lineToElement isdigit stripped state).2.elements,
        shown ++ inlineCode (formattedText isdigit stripped)⟩ := by
  have hheading {t : String} (ht : t.toList ≠ [] ∧ t.toList.head? = some '#')
      (hstarts : startsWith stripped t) : state.inList = false :=
    hlist (goesOn_of_hash ((head_of_startsWith ht.1 hstarts).trans ht.2))
  unfold lineToElement
  unfold formattedText at h ⊢
  by_cases h1 : startsWith stripped "# "
  · rw [if_pos h1] at h ⊢
    rw [if_pos h1]
    exact through_line h (by decide) (by decide) (.inr (hheading (by decide) h1)) shown
  rw [if_neg h1] at h ⊢
  rw [if_neg h1]
  by_cases h2 : startsWith stripped "## "
  · rw [if_pos h2] at h ⊢
    rw [if_pos h2]
    exact through_line h (by decide) (by decide) (.inr (hheading (by decide) h2)) shown
  rw [if_neg h2] at h ⊢
  rw [if_neg h2]
  by_cases h3 : startsWith stripped "### "
  · rw [if_pos h3] at h ⊢
    rw [if_pos h3]
    exact through_line h (by decide) (by decide) (.inr (hheading (by decide) h3)) shown
  rw [if_neg h3] at h ⊢
  rw [if_neg h3]
  by_cases h4 : startsWith stripped "#### "
  · rw [if_pos h4] at h ⊢
    rw [if_pos h4]
    exact through_line h (by decide) (by decide) (.inr (hheading (by decide) h4)) shown
  rw [if_neg h4] at h ⊢
  rw [if_neg h4]
  by_cases hquote : startsWith stripped "> "
  · rw [if_pos hquote] at h ⊢
    rw [if_pos hquote]
    exact through_line h (by decide) (by decide) (.inl (by decide)) shown
  rw [if_neg hquote] at h ⊢
  rw [if_neg hquote]
  by_cases hitem : startsWith stripped "- " || startsWith stripped "* "
  · rw [if_pos hitem] at h ⊢
    rw [if_pos hitem]
    exact through_item h state (.inl ⟨rfl, rfl⟩) shown
  rw [if_neg hitem] at h ⊢
  rw [if_neg hitem]
  cases hordered : orderedItem isdigit stripped with
  | some text =>
    rw [hordered] at h
    exact through_item h state (.inr ⟨rfl, rfl⟩) shown
  | none =>
    rw [hordered] at h
    dsimp only at h ⊢
    split at h
    · next hrule =>
      rw [if_pos (List.contains_iff_mem.mp hrule), if_pos hrule]
      have hnil : inlineCode [] = [] := rfl
      rw [hnil, List.append_nil]
      exact through_rule (state.elements_head codeName (by decide)) shown
    · next hrule =>
      rw [if_neg fun hmem ↦ hrule (List.contains_iff_mem.mpr hmem), if_neg hrule]
      exact through_line h (by decide) (by decide) (.inl (by decide)) shown

/-- The end of a list before a line that does not go on with it. -/
theorem through_leave (stripped : List Char) (state : ListState) (shown : List Char) :
    ∃ closed state', (closed, state') = (if state.inList && !goesOn stripped
          then (state.close ++ ['\n'], { state with inList := false }) else ([], state)) ∧
      Whole closed ∧
      pageRules.through closed ⟨state.elements, shown⟩ = some ⟨state'.elements, shown⟩ ∧
      (goesOn stripped = false → state'.inList = false) := by
  by_cases hleaves : state.inList && !goesOn stripped
  · refine ⟨_, _, (if_pos hleaves).symm, ?_⟩
    rw [Bool.and_eq_true] at hleaves
    obtain ⟨hwhole, hclose⟩ := through_close hleaves.1 shown
    refine ⟨hwhole.append (whole_char (by decide)), ?_, fun _ ↦ rfl⟩
    rw [Rules.through_append _ hwhole, hclose, Option.bind_some]
    exact through_newline (by decide) shown
  · refine ⟨_, _, (if_neg hleaves).symm, whole_nil, rfl, fun hgoes ↦ ?_⟩
    simpa [hgoes] using hleaves

/-- The page after the parts of a conversion, each of which ends a line. -/
def throughAll (parts : List (List Char)) (page : Page) : Option Page :=
  parts.foldlM (fun page part ↦ (pageRules.through part page).bind (pageRules.through ['\n'])) page

private theorem throughAll_append (parts more : List (List Char)) (page : Page) :
    throughAll (parts ++ more) page = (throughAll parts page).bind (throughAll more) :=
  List.foldlM_append

/-- The element of a line, behind the end of a list that does not go on. -/
theorem through_convertBlockElement {stripped : List Char} {state : ListState}
    (h : EachApart inlineSteps (escapeHtml (formattedText isdigit stripped)))
    (shown : List Char) :
    throughAll (convertBlockElement isdigit stripped state).1.toList ⟨state.elements, shown⟩ =
      some ⟨(convertBlockElement isdigit stripped state).2.elements,
        shown ++ inlineCode (formattedText isdigit stripped)⟩ := by
  obtain ⟨closed, state', hleave, hwhole, hclosed, hlist⟩ := through_leave stripped state shown
  have hblock : convertBlockElement isdigit stripped state =
      if stripped = [] then (if closed = [] then none else some closed, state')
      else (some (closed ++ (lineToElement isdigit stripped state').1),
        (lineToElement isdigit stripped state').2) := by
    have hgoes : ["- ", "* ", "1.", "2.", "3.", "4.", "5."].any (startsWith stripped ·) =
        goesOn stripped := rfl
    dsimp only [convertBlockElement]
    rw [hgoes]
    split at hleave
    · next hleaves =>
      cases hleave
      simp only [hleaves, if_true]
    · next hleaves =>
      cases hleave
      simp only [hleaves, if_false, Bool.false_eq_true, List.nil_append]
  have hnewline (state : ListState) (shown : List Char) :
      pageRules.through ['\n'] ⟨state.elements, shown⟩ = some ⟨state.elements, shown⟩ :=
    through_newline (state.elements_head codeName (by decide)) shown
  rw [hblock]
  by_cases hempty : stripped = []
  · subst hempty
    have hnil : inlineCode (formattedText isdigit []) = [] := rfl
    rw [if_pos rfl, hnil, List.append_nil]
    by_cases hclosedNil : closed = []
    · rw [if_pos hclosedNil]
      rw [hclosedNil] at hclosed
      exact hclosed
    · rw [if_neg hclosedNil]
      simp only [throughAll, Option.toList_some, List.foldlM_cons, List.foldlM_nil, hclosed,
        Option.bind_some, hnewline]
      rfl
  · have hline := through_lineToElement isdigit h hlist shown
    rw [if_neg hempty]
    simp only [throughAll, Option.toList_some, List.foldlM_cons, List.foldlM_nil,
      Rules.through_append _ hwhole, hclosed, Option.bind_some, hline, hnewline]
    rfl

end Lines

section Conversions

/-- No list is open in a code block, and the parts so far are nested and show the code that
was written. -/
structure Conversion.Sound (c : Conversion) (shown : List Char) : Prop where
  apart : c.inCodeBlock = true → c.state.inList = false
  through : throughAll c.htmlParts .blank = some ⟨c.elements, shown⟩

private theorem Conversion.takesDown_elements (c : Conversion) :
    pageRules.takesDown c.elements = false := by
  unfold Conversion.elements
  split
  · rfl
  · have hhead := c.state.elements_head codeName (by decide)
    simp [pageRules, hhead]

/-- The tags of a code block, outside of lists. -/
theorem through_fence (inCodeBlock : Bool) (shown : List Char) :
    pageRules.through
        (if inCodeBlock then closeTag "code" ++ closeTag "pre" else openTag "pre" ++ openTag "code")
        ⟨if inCodeBlock then [codeName, preName] else [], shown⟩ =
      some ⟨if inCodeBlock then [] else [codeName, preName], shown⟩ := by
  have hcode : "code" ∈ "a" :: elementTags := by decide
  have hpre : "pre" ∈ "a" :: elementTags := by decide
  cases inCodeBlock with
  | true =>
    have hclose := through_closeTag hpre [] shown []
    rw [List.append_nil] at hclose
    exact (through_closeTag hcode [preName] shown (closeTag "pre")).trans hclose
  | false =>
    have hopen := through_openTag hcode ⟨[preName], shown⟩ rfl []
    rw [List.append_nil] at hopen
    exact (through_openTag hpre ⟨[], shown⟩ rfl (openTag "code")).trans hopen

private theorem throughAll_singleton (c : Conversion) {part : List Char} {page : Page}
    {shown : List Char} (h : pageRules.through part page = some ⟨c.elements, shown⟩) :
    throughAll [part] page = some ⟨c.elements, shown⟩ := by
  have hnewline : pageRules.through ['\n'] ⟨c.elements, shown⟩ = some ⟨c.elements, shown⟩ :=
    Rules.through_unseen (by decide) c.takesDown_elements
  simp only [throughAll, List.foldlM_cons, List.foldlM_nil, h, Option.bind_some, hnewline]
  rfl

/-- The code of one line. -/
def lineCode (c : Conversion) (line : List Char) : List Char :=
  if startsWith (strip line) "\x60\x60\x60" || c.inCodeBlock then []
  else inlineCode (formattedText isdigit (strip line))

private theorem writtenCode_cons (c : Conversion) (line : List Char) (lines : List (List Char)) :
    writtenCode isdigit c.inCodeBlock (line :: lines) =
      lineCode isdigit c line ++
        writtenCode isdigit (convertLine isdigit c line).inCodeBlock lines := by
  rw [writtenCode]
  unfold lineCode convertLine
  by_cases hfence : startsWith (strip line) "\x60\x60\x60"
  · simp only [hfence, if_true, Bool.true_or, List.nil_append]
  · cases hblock : c.inCodeBlock with
    | true =>
      simp only [hfence, Bool.false_eq_true, if_true, if_false, Bool.or_true, List.nil_append]
    | false => simp only [hfence, Bool.false_eq_true, if_false, Bool.or_false]

/-- A line keeps a conversion sound if its rewritings leave the elements apart and it opens
no code block in a list. -/
theorem Conversion.Sound.convertLine {c : Conversion} {line shown : List Char}
    (hc : c.Sound shown) (hapart : LineApart isdigit c line) (hfence : FenceOutsideList c line) :
    (convertLine isdigit c line).Sound (shown ++ lineCode isdigit c line) := by
  unfold Export.convertLine lineCode
  by_cases hstarts : startsWith (strip line) "\x60\x60\x60"
  · have hlist : c.state.inList = false := by
      cases hblock : c.inCodeBlock with
      | true => exact hc.apart hblock
      | false => exact hfence hstarts hblock
    have hnone : c.state.elements = [] := by simp [ListState.elements, hlist]
    rw [if_pos hstarts, hstarts, Bool.true_or, if_pos rfl, List.append_nil]
    refine ⟨fun _ ↦ hlist, ?_⟩
    rw [throughAll_append, hc.through, Option.bind_some]
    apply throughAll_singleton
    have hthrough := through_fence c.inCodeBlock shown
    unfold Conversion.elements
    rw [hnone, List.append_nil, List.append_nil, hthrough]
    cases c.inCodeBlock with
    | true => rfl
    | false => rfl
  · rw [if_neg hstarts]
    rw [Bool.not_eq_true] at hstarts
    rw [hstarts, Bool.false_or]
    by_cases hblock : c.inCodeBlock
    · rw [if_pos hblock, if_pos hblock, List.append_nil]
      refine ⟨hc.apart, ?_⟩
      rw [throughAll_append, hc.through, Option.bind_some]
      exact throughAll_singleton _
        (Rules.through_unseen (escapeHtml_no_lt line) c.takesDown_elements)
    · rw [if_neg hblock, if_neg hblock]
      refine ⟨fun h ↦ absurd h hblock, ?_⟩
      have helements : c.elements = c.state.elements := by simp [Conversion.elements, hblock]
      have hline := hapart (by simpa using hblock) hstarts
      rw [throughAll_append, hc.through, Option.bind_some, helements,
        through_convertBlockElement isdigit hline shown]
      simp [Conversion.elements, hblock]

/-- A code block that opens in a list breaks the page for good. -/
theorem throughAll_of_fenceInList {c : Conversion} {line shown : List Char} (hc : c.Sound shown)
    (h : ¬ FenceOutsideList c line) :
    throughAll (convertLine isdigit c line).htmlParts .blank = none := by
  unfold FenceOutsideList at h
  push Not at h
  obtain ⟨hstarts, hblock, hlist⟩ := h
  replace hlist : c.state.inList = true := by simpa using hlist
  have helements : c.elements = c.state.elements := by simp [Conversion.elements, hblock]
  have hclosed : pageRules.mayOpen c.state.elements preName = false := by
    unfold ListState.elements
    rw [if_pos hlist]
    split
    · decide
    · decide
  have hnone : pageRules.enter ⟨c.state.elements, shown⟩ (.start preName) = none := by
    rw [Rules.enter, if_neg (by simp [hclosed])]
  unfold convertLine
  rw [if_pos hstarts, hblock]
  simp only [Bool.false_eq_true, if_false]
  rw [throughAll_append, hc.through, Option.bind_some, helements, throughAll, List.foldlM_cons,
    Rules.through_token _ (tokensOf_openTag (by decide))]
  change ((((pageRules.enter ⟨c.state.elements, shown⟩ (.start preName)).bind _).bind _).bind _) = _
  rw [hnone]
  rfl

private theorem convertLine_htmlParts (c : Conversion) (line : List Char) :
    ∃ parts, (convertLine isdigit c line).htmlParts = c.htmlParts ++ parts := by
  dsimp only [convertLine]
  split
  · exact ⟨_, rfl⟩
  · split
    · exact ⟨_, rfl⟩
    · exact ⟨_, rfl⟩

theorem foldl_convertLine_htmlParts (lines : List (List Char)) (c : Conversion) :
    ∃ parts, (lines.foldl (convertLine isdigit) c).htmlParts = c.htmlParts ++ parts := by
  induction lines generalizing c with
  | nil => exact ⟨[], by simp⟩
  | cons line lines ih =>
    obtain ⟨rest, hrest⟩ := ih (convertLine isdigit c line)
    obtain ⟨parts, hparts⟩ := convertLine_htmlParts isdigit c line
    exact ⟨parts ++ rest, by rw [List.foldl_cons, hrest, hparts, List.append_assoc]⟩

/-- What is open behind the last line is closed. -/
theorem Conversion.Sound.finalParts {c : Conversion} {shown : List Char} (hc : c.Sound shown) :
    throughAll c.finalParts .blank = some ⟨[], shown⟩ := by
  unfold Conversion.finalParts
  rw [throughAll_append, throughAll_append, hc.through, Option.bind_some]
  cases hblock : c.inCodeBlock with
  | true =>
    have hlist := hc.apart hblock
    have hfence := through_fence true shown
    rw [if_pos rfl, if_neg (by simp [hlist])]
    unfold Conversion.elements ListState.elements
    rw [hblock, hlist]
    exact throughAll_singleton ⟨[], false, ⟨false, .none⟩⟩ hfence
  | false =>
    have helements : c.elements = c.state.elements := by simp [Conversion.elements, hblock]
    rw [helements, if_neg Bool.false_ne_true]
    cases hlist : c.state.inList with
    | true =>
      have hclosed := (through_close hlist shown).2
      rw [if_pos rfl, throughAll_singleton ⟨[], false, ⟨false, .none⟩⟩ hclosed]
      rfl
    | false =>
      have hnone : c.state.elements = [] := by simp [ListState.elements, hlist]
      rw [if_neg Bool.false_ne_true, hnone]
      rfl

/-- In conversions whose lines leave the elements apart, the page is nested exactly when no
code block opens in a list. -/
theorem throughAll_finalParts_iff (lines : List (List Char)) {c : Conversion}
    {shown : List Char} (hc : c.Sound shown)
    (hapart : (converter isdigit).Guarded (LineApart isdigit) c lines) :
    throughAll (lines.foldl (convertLine isdigit) c).finalParts .blank =
        some ⟨[], shown ++ writtenCode isdigit c.inCodeBlock lines⟩ ↔
      (converter isdigit).Guarded FenceOutsideList c lines := by
  induction lines generalizing c shown with
  | nil =>
    have hfinal := hc.finalParts
    simp only [List.foldl_nil, writtenCode, List.append_nil, hfinal, Machine.Guarded]
  | cons line lines ih =>
    obtain ⟨hline, hrest⟩ := hapart _ rfl
    rw [List.foldl_cons, writtenCode_cons, ← List.append_assoc]
    by_cases hfence : FenceOutsideList c line
    · rw [ih (hc.convertLine isdigit hline hfence) hrest]
      constructor
      · intro hguarded c' hc'
        cases hc'
        exact ⟨hfence, hguarded⟩
      · intro hguarded
        exact (hguarded _ rfl).2
    · have hnone := throughAll_of_fenceInList isdigit hc hfence
      obtain ⟨parts, hparts⟩ :=
        foldl_convertLine_htmlParts isdigit lines (convertLine isdigit c line)
      unfold Conversion.finalParts
      rw [hparts, throughAll_append, throughAll_append, throughAll_append, hnone]
      constructor
      · intro h
        cases h
      · intro hguarded
        exact absurd (hguarded _ rfl).1 hfence

end Conversions

section Pages

private theorem whole_safe {w : List Char} (hw : w ∈ safeHtml ignoreCase) : Whole w := by
  apply whole_of_mem_kstar _ hw
  rintro a ((⟨c, hc, rfl⟩ | htag) | ⟨href, hhref, rfl⟩)
  · exact whole_char hc
  · simp only [fixedTags, List.mem_append, List.mem_map, List.mem_cons, List.not_mem_nil,
      or_false] at htag
    have hmem {tag : String} (htag : tag ∈ elementTags) : tag ∈ "a" :: "hr" :: elementTags :=
      List.mem_cons_of_mem _ (List.mem_cons_of_mem _ htag)
    obtain (⟨tag, htag, rfl⟩ | ⟨tag, htag, rfl⟩) | rfl | rfl := htag
    · exact whole_of_tokens (tokensOf_openTag (hmem htag))
    · exact whole_of_tokens (tokensOf_closeTag (hmem htag))
    · exact whole_of_tokens (tokensOf_openTag (by decide))
    · exact whole_of_tokens (tokensOf_closeTag (by decide))
  · exact whole_of_tokens (tokensOf_linkTag hhref.unquoted)

/-- A line end changes no page whose elements are closed, and closes none. -/
theorem newline_eq_some_iff {page : Page} {shown : List Char} :
    pageRules.through ['\n'] page = some ⟨[], shown⟩ ↔ page = ⟨[], shown⟩ := by
  obtain ⟨elements, before⟩ := page
  have hread : pageRules.through ['\n'] ⟨elements, before⟩ =
      some (if pageRules.takesDown elements then ⟨elements, before ++ ['\n']⟩
        else ⟨elements, before⟩) := rfl
  rw [hread, Option.some.injEq]
  cases elements with
  | nil => exact Iff.rfl
  | cons name elements =>
    constructor
    · intro h
      split at h
      · cases h
      · cases h
    · intro h
      cases h

/-- The parts joined by line ends make the page that they make line by line. -/
theorem through_intercalate {parts : List (List Char)} (hparts : ∀ part ∈ parts, Whole part)
    {page : Page} {shown : List Char} :
    pageRules.through (['\n'].intercalate parts) page = some ⟨[], shown⟩ ↔
      throughAll parts page = some ⟨[], shown⟩ := by
  induction parts generalizing page with
  | nil => exact Iff.rfl
  | cons part parts ih =>
    have hpart := hparts part List.mem_cons_self
    cases parts with
    | nil =>
      have hlast : throughAll [part] page =
          (pageRules.through part page).bind (pageRules.through ['\n']) := by
        simp [throughAll]
      rw [hlast, Option.bind_eq_some_iff]
      simp only [List.intercalate_singleton, newline_eq_some_iff]
      simp
    | cons next parts =>
      have hnewline : Whole ['\n'] := whole_char (by decide)
      have hall : throughAll (part :: next :: parts) page =
          ((pageRules.through part page).bind (pageRules.through ['\n'])).bind
            (throughAll (next :: parts)) := rfl
      rw [List.intercalate_cons_cons, Rules.through_append _ (hpart.append hnewline),
        Rules.through_append _ hpart, hall, Option.bind_eq_some_iff, Option.bind_eq_some_iff]
      constructor
      · rintro ⟨between, hbetween, h⟩
        exact ⟨between, hbetween, (ih fun p hp ↦ hparts p (List.mem_cons_of_mem _ hp)).mp h⟩
      · rintro ⟨between, hbetween, h⟩
        exact ⟨between, hbetween, (ih fun p hp ↦ hparts p (List.mem_cons_of_mem _ hp)).mpr h⟩

instance (c : Conversion) (line : List Char) : Decidable (LineApart isdigit c line) :=
  inferInstanceAs (Decidable (_ → _ → _))

instance (c : Conversion) (line : List Char) : Decidable (FenceOutsideList c line) :=
  inferInstanceAs (Decidable (_ → _ → _))

/-- Where the rewritings of every line leave the elements apart, a text is converted to a
nested page exactly when no code block opens in a list. -/
theorem wellNested_iff (markdownText : List Char)
    (hapart : (converter isdigit).Guarded (LineApart isdigit) .start (markdownText.splitOn '\n')) :
    WellNested isdigit markdownText ↔
      (converter isdigit).Guarded FenceOutsideList .start (markdownText.splitOn '\n') := by
  have hsound : Conversion.start.Sound [] := ⟨fun _ ↦ rfl, rfl⟩
  unfold WellNested
  rw [markdownToHtml_eq, through_intercalate fun part hpart ↦ whole_safe
    (finalParts_safe isdigit _ (by simp) part hpart)]
  exact throughAll_finalParts_iff isdigit _ hsound hapart

/-- A list, a code block and a line with code, bold text and a link. -/
theorem wellNested_page :
    WellNested Char.isDigit
      "- a\n\n\x60\x60\x60\n*x*\n\x60\x60\x60\n\x60b*\x60 **c** [d](http://e)".toList :=
  (wellNested_iff Char.isDigit _ (by decide +kernel)).mpr (by decide +kernel)

/-- A code block in a list, and bold marks in code. -/
theorem not_wellNested :
    ¬ WellNested Char.isDigit "- a\n\x60\x60\x60\nx".toList ∧
      ¬ WellNested Char.isDigit "\x60**x**\x60".toList := by
  decide +kernel

end Pages

end WikiMind.Export
