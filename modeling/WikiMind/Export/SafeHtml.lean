import WikiMind.Export.Html

/-!
# The markup of a converted text

A converted text is a sequence of characters other than `<`, of the converter's own tags
and of opening link tags. Escaping leaves characters only. Each rewriting starts at a
character that no fixed tag contains, so it moves whole tags, and the link rewriting, which
comes last, puts tags into an address as a whole.
-/

namespace WikiMind.Export

open WikiMind.Base Computability

/-- The tags that open and close an element. -/
def elementTags : List String :=
  ["h1", "h2", "h3", "h4", "blockquote", "ul", "ol", "li", "p", "pre", "code", "strong", "em"]

/-- The tags without an attribute. -/
def fixedTags : List (List Char) :=
  elementTags.map openTag ++ elementTags.map closeTag ++ [openTag "hr", closeTag "a"]

/-- A character other than `<`, or a fixed tag. -/
def plainPiece : Language Char := {w | (∃ c, c ≠ '<' ∧ w = [c]) ∨ w ∈ fixedTags}

/-- An address for a link: every `<` belongs to a fixed tag, there is no double quote, and
without ASCII control characters and spaces it starts with an allowed scheme. -/
structure SafeHref (same : Char → Char → Bool) (href : List Char) : Prop where
  plain : href ∈ plainPiece∗
  unquoted : '"' ∉ href
  scheme : allowedUrlSchemes same (href.filter fun c ↦ 0x20 < c.toNat ∧ c.toNat ≠ 0x7f)

/-- An opening link tag with a safe address. -/
def linkPiece (same : Char → Char → Bool) : Language Char :=
  {w | ∃ href, SafeHref same href ∧ w = linkTag href}

/-- Markup that consists of text, the fixed tags and safe links. -/
def safeHtml (same : Char → Char → Bool) : Language Char := (plainPiece + linkPiece same)∗

/-- No letter of an allowed scheme is taken for a double quote or for a deletion. -/
def ApartFromMarks (same : Char → Char → Bool) : Prop :=
  ∀ scheme ∈ allowedSchemes, ∀ letter ∈ scheme,
    same letter '"' = false ∧ same letter '\x7f' = false

/-- The characters at which a rewriting starts. -/
def IsMark (c : Char) : Prop := c ∈ ['\x60', '*', '[', ']', '(', ')']

instance : DecidablePred IsMark := fun c ↦
  inferInstanceAs (Decidable (c ∈ ['\x60', '*', '[', ']', '(', ')']))

section Plain

private theorem char_mem_plainPiece {c : Char} (h : c ≠ '<') : [c] ∈ plainPiece := .inl ⟨c, h, rfl⟩

private theorem tag_mem_plainPiece {tag : List Char} (h : tag ∈ fixedTags) :
    tag ∈ plainPiece := .inr h

private theorem plain_of_no_lt {s : List Char} (h : '<' ∉ s) : s ∈ plainPiece∗ :=
  mem_kstar_of_chars fun _ hc ↦ char_mem_plainPiece fun heq ↦ h (heq ▸ hc)

/-- No fixed tag contains a mark. -/
theorem solid_plainPiece : Solid IsMark plainPiece := by
  rintro w (⟨c, -, rfl⟩ | hw) d hd hmark
  · rw [List.mem_singleton.mp hd]
  · have hnone : (fixedTags.all fun tag ↦ tag.all fun d ↦ decide ¬ IsMark d) = true := by decide
    simp only [List.all_eq_true, decide_eq_true_eq] at hnone
    exact absurd hmark (hnone w hw d hd)

private theorem openTag_mem {tag : String} (h : tag ∈ elementTags) : openTag tag ∈ plainPiece∗ := by
  apply mem_kstar_of_mem
  apply tag_mem_plainPiece
  simp only [fixedTags, List.mem_append, List.mem_map]
  exact .inl (.inl ⟨tag, h, rfl⟩)

private theorem closeTag_mem {tag : String} (h : tag ∈ elementTags) :
    closeTag tag ∈ plainPiece∗ := by
  apply mem_kstar_of_mem
  apply tag_mem_plainPiece
  simp only [fixedTags, List.mem_append, List.mem_map]
  exact .inl (.inr ⟨tag, h, rfl⟩)

theorem plainPiece_le (same : Char → Char → Bool) :
    ∀ w ∈ plainPiece, w ∈ plainPiece + linkPiece same := fun _ h ↦ .inl h

theorem escapeHtml_no_lt (text : List Char) : '<' ∉ escapeHtml text := by
  have hamp : '<' ∉ "&amp;".toList := by decide
  have hlt : '<' ∉ "&lt;".toList := by decide
  have hgt : '<' ∉ "&gt;".toList := by decide
  simp only [escapeHtml, mem_replaceChar, hamp, hlt, hgt, ne_eq, not_true_eq_false, and_false,
    or_self, false_and, not_false_eq_true]

private theorem escapeHtml_plain (text : List Char) : escapeHtml text ∈ plainPiece∗ :=
  plain_of_no_lt (escapeHtml_no_lt text)

/-- An element around text of some pieces is such a text. -/
theorem element_mem {A : Language Char} (hA : ∀ w ∈ plainPiece, w ∈ A) {tag : String}
    {text : List Char} (htag : tag ∈ elementTags) (htext : text ∈ A∗) : element tag text ∈ A∗ :=
  append_mem_kstar (append_mem_kstar (mem_kstar_of_subset hA (openTag_mem htag)) htext)
    (mem_kstar_of_subset hA (closeTag_mem htag))

/-- A rewriting between fences keeps a text in its pieces if they have room for the element. -/
theorem rewrite_enclosed_mem {A : Language Char} (hA : Solid IsMark A) {mark : Char}
    {width : Nat} {replace : List Char → List Char} (hmark : IsMark mark) (hwidth : 0 < width)
    (hreplace : ∀ run ∈ A∗, replace run ∈ A∗) {s : List Char} (hs : s ∈ A∗) :
    rewrite (enclosed mark width replace) 0 s ∈ A∗ := by
  apply hA.rewrite_mem (fun _ h ↦ h) _ _ hs
  · intro c s h
    rwa [enclosed_start hwidth h]
  · intro c s behind replacement hmem hfound
    obtain ⟨run, hrun, -, rfl, hrest, -⟩ := hA.enclosed_eq_some hmark hwidth hmem hfound
    exact ⟨hreplace run hrun, hrest⟩

/-- The rewritings before the links keep a text plain. -/
theorem rewrite_enclosed_plain {mark : Char} {width : Nat} {tag : String} (hmark : IsMark mark)
    (hwidth : 0 < width) (htag : tag ∈ elementTags) {s : List Char} (hs : s ∈ plainPiece∗) :
    rewrite (enclosed mark width (element tag)) 0 s ∈ plainPiece∗ :=
  rewrite_enclosed_mem solid_plainPiece hmark hwidth
    (fun _ hrun ↦ element_mem (fun _ h ↦ h) htag hrun) hs

end Plain

section Link

private theorem link_eq_some {c : Char} {s replacement : List Char} {behind : Nat}
    (h : link (c :: s) = some (behind, replacement)) :
    ∃ text url, c = '[' ∧ s = text ++ ']' :: '(' :: (url ++ ')' :: s.drop behind) ∧
      replacement = replaceLink text url ∧ ']' ∉ text ∧ ')' ∉ url := by
  unfold link at h
  split at h
  · next s' heq =>
    obtain ⟨rfl, rfl⟩ := List.cons.inj heq
    split at h
    · next text rest htext =>
      split at h
      · next url rest' hurl =>
        cases h
        obtain ⟨hs, -, hbracket⟩ := runBefore_eq_some htext
        obtain ⟨hrest, -, hparenthesis⟩ := runBefore_eq_some hurl
        refine ⟨text, url, rfl, ?_, rfl, hbracket, hparenthesis⟩
        have hsplit : s = (text ++ ']' :: '(' :: url ++ [')']) ++ rest' := by
          rw [hs, hrest]
          simp
        have hdrop : s.drop (text.length + url.length + 3) = rest' := by
          rw [hsplit]
          apply List.drop_left'
          simp only [List.length_append, List.length_cons, List.length_nil]
          omega
        rw [hdrop, hsplit]
        simp
      · cases h
    · cases h
  · cases h

/-- The pieces of a link in a text of solid pieces. -/
theorem link_pieces {A : Language Char} (hA : Solid IsMark A) {c : Char}
    {s replacement : List Char} {behind : Nat} (hs : c :: s ∈ A∗)
    (h : link (c :: s) = some (behind, replacement)) :
    ∃ text ∈ A∗, ∃ url ∈ A∗, ']' ∉ text ∧ ')' ∉ url ∧ replacement = replaceLink text url ∧
      s.drop behind ∈ A∗ ∧
      c :: s = '[' :: (text ++ ']' :: '(' :: (url ++ ')' :: s.drop behind)) := by
  obtain ⟨text, url, rfl, hsplit, hreplacement, hbracket, hparenthesis⟩ := link_eq_some h
  rw [hsplit] at hs
  obtain ⟨-, hs⟩ := hA.split (d := '[') (x := []) (by decide) hs
  obtain ⟨htext, hs⟩ := hA.split (d := ']') (by decide) hs
  obtain ⟨-, hs⟩ := hA.split (d := '(') (x := []) (by decide) hs
  obtain ⟨hurl, hrest⟩ := hA.split (d := ')') (by decide) hs
  exact ⟨text, htext, url, hurl, hbracket, hparenthesis, hreplacement, hrest,
    congrArg _ hsplit⟩

/-- A link starts at its bracket. -/
theorem link_start {c : Char} {s : List Char} (h : (link (c :: s)).isSome) : IsMark c := by
  obtain ⟨⟨behind, replacement⟩, hfound⟩ := Option.isSome_iff_exists.mp h
  obtain ⟨-, -, rfl, -⟩ := link_eq_some hfound
  decide

theorem startsWithBy_take {same : Char → Char → Bool} (letters s : List Char) :
    startsWithBy same letters (s.take letters.length) = startsWithBy same letters s := by
  induction letters generalizing s with
  | nil => rfl
  | cons letter letters ih =>
    cases s with
    | nil => rfl
    | cons c s => exact congrArg (same letter c && ·) (ih s)

/-- What passes the check is kept by a further removal and by the escape of quotes. -/
theorem take_escaped {same : Char → Char → Bool} {letters url : List Char}
    (hletters : ∀ letter ∈ letters, same letter '"' = false ∧ same letter '\x7f' = false)
    (h : startsWithBy same letters (url.filter fun c ↦ 0x20 < c.toNat)) :
    ((replaceChar '"' "&quot;" url).filter fun c ↦
        0x20 < c.toNat ∧ c.toNat ≠ 0x7f).take letters.length =
      (url.filter fun c ↦ 0x20 < c.toNat).take letters.length := by
  induction url generalizing letters with
  | nil => rfl
  | cons c url ih =>
    cases letters with
    | nil => rfl
    | cons letter letters =>
      obtain ⟨hquote, hdelete⟩ := hletters letter List.mem_cons_self
      by_cases hc : 0x20 < c.toNat
      · rw [List.filter_cons_of_pos (by simpa using hc)] at h ⊢
        simp only [startsWithBy, Bool.and_eq_true] at h
        have hne : c ≠ '"' := by
          rintro rfl
          exact absurd h.1 (by simp [hquote])
        have hne' : c.toNat ≠ 0x7f := by
          intro heq
          have : c = '\x7f' := by
            rw [← Char.toNat_inj, heq]
            rfl
          exact absurd h.1 (by simp [this, hdelete])
        rw [replaceChar_cons_of_ne hne, List.filter_cons_of_pos (by simpa using ⟨hc, hne'⟩),
          List.length_cons, List.take_succ_cons, List.take_succ_cons,
          ih (fun l hl ↦ hletters l (List.mem_cons_of_mem _ hl)) h.2]
      · have hne : c ≠ '"' := by
          rintro rfl
          exact hc (by decide)
        rw [List.filter_cons_of_neg (by simpa using hc)] at h ⊢
        rw [replaceChar_cons_of_ne hne, List.filter_cons_of_neg (by simp [hc])]
        exact ih hletters h

theorem quote_escaped (url : List Char) : '"' ∉ replaceChar '"' "&quot;" url := by
  simp [mem_replaceChar]

private theorem safeHref_of_allowed {same : Char → Char → Bool} (hsame : ApartFromMarks same)
    {url : List Char} (hurl : url ∈ plainPiece∗)
    (hallowed : allowedUrlSchemes same (url.filter fun c ↦ 0x20 < c.toNat)) :
    SafeHref same (replaceChar '"' "&quot;" url) where
  plain := by
    apply flatMap_mem_kstar _ hurl
    rintro w (⟨c, hc, rfl⟩ | hw)
    · apply plain_of_no_lt
      have hquot : '<' ∉ "&quot;".toList := by decide
      simp only [List.flatMap_cons, List.flatMap_nil, List.append_nil]
      split
      · exact hquot
      · simpa using hc.symm
    · -- no fixed tag has a quote
      have hquote : ∀ tag ∈ fixedTags, replaceChar '"' "&quot;" tag = tag := by decide
      rw [show w.flatMap _ = w from hquote w hw]
      exact mem_kstar_of_mem (tag_mem_plainPiece hw)
  unquoted := quote_escaped url
  scheme := by
    obtain ⟨scheme, hscheme, hstarts⟩ := List.any_eq_true.mp hallowed
    refine List.any_eq_true.mpr ⟨scheme, hscheme, ?_⟩
    rw [← startsWithBy_take, take_escaped (hsame scheme hscheme) hstarts, startsWithBy_take]
    exact hstarts

theorem ignoreCase_apart : ApartFromMarks ignoreCase := by
  have h : (allowedSchemes.all fun scheme ↦ scheme.all fun letter ↦
      ! ignoreCase letter '"' && ! ignoreCase letter '\x7f') = true := by decide
  simpa [ApartFromMarks] using h

theorem sanitizeUrl_eq_some {url cleaned : List Char} (h : sanitizeUrl url = some cleaned) :
    cleaned = url.filter (fun c ↦ 0x20 < c.toNat) ∧ allowedUrlSchemes ignoreCase cleaned := by
  dsimp only [sanitizeUrl] at h
  split at h
  · next hallowed =>
    cases h
    exact ⟨rfl, hallowed⟩
  · cases h

private theorem closeTag_a_mem : closeTag "a" ∈ plainPiece∗ :=
  mem_kstar_of_mem (tag_mem_plainPiece (by decide))

/-- A link is safe if what `_sanitize_url` lets through has an allowed scheme. -/
theorem replaceLink_safe {same : Char → Char → Bool} (hsame : ApartFromMarks same)
    {text url : List Char} (htext : text ∈ plainPiece∗) (hurl : url ∈ plainPiece∗)
    (hallowed : ∀ cleaned ∈ sanitizeUrl url, allowedUrlSchemes same cleaned) :
    replaceLink text url ∈ safeHtml same := by
  have hle {s : List Char} (hs : s ∈ plainPiece∗) : s ∈ safeHtml same :=
    mem_kstar_of_subset (plainPiece_le same) hs
  unfold replaceLink
  split
  · next cleaned hcleaned =>
    have hscheme := hallowed cleaned hcleaned
    rw [(sanitizeUrl_eq_some hcleaned).1] at hscheme
    have htag : linkTag (replaceChar '"' "&quot;" url) ∈ linkPiece same :=
      ⟨_, safeHref_of_allowed hsame hurl hscheme, rfl⟩
    exact append_mem_kstar (append_mem_kstar (mem_kstar_of_mem (.inr htag)) (hle htext))
      (hle closeTag_a_mem)
  · exact hle htext

/-- A text before its links are rewritten: code, bold and italic marks are. -/
def emphasized (text : List Char) : List Char :=
  rewrite (enclosed '*' 1 (element "em")) 0
    (rewrite (enclosed '*' 2 (element "strong")) 0
      (rewrite (enclosed '\x60' 1 (element "code")) 0 (escapeHtml text)))

private theorem emphasized_plain (text : List Char) : emphasized text ∈ plainPiece∗ := by
  have hcode : rewrite (enclosed '\x60' 1 (element "code")) 0 (escapeHtml text) ∈ plainPiece∗ :=
    rewrite_enclosed_plain (by decide) (by decide) (by decide) (escapeHtml_plain text)
  have hstrong : rewrite (enclosed '*' 2 (element "strong")) 0 _ ∈ plainPiece∗ :=
    rewrite_enclosed_plain (by decide) (by decide) (by decide) hcode
  exact rewrite_enclosed_plain (by decide) (by decide) (by decide) hstrong

/-- The text of a link at the head of a text. -/
def linkText (s : List Char) : List Char := (s.drop 1).takeWhile (· ≠ ']')

/-- The address of a link at the head of a text. -/
def linkUrl (s : List Char) : List Char :=
  (s.drop ((linkText s).length + 3)).takeWhile (· ≠ ')')

theorem linkText_eq {text : List Char} (h : ']' ∉ text) (rest : List Char) :
    linkText ('[' :: (text ++ ']' :: rest)) = text := by
  unfold linkText
  rw [List.drop_succ_cons, List.drop_zero]
  exact takeWhile_ne_append h _

theorem linkUrl_eq {text url : List Char} (htext : ']' ∉ text) (hurl : ')' ∉ url)
    (rest : List Char) :
    linkUrl ('[' :: (text ++ ']' :: '(' :: (url ++ ')' :: rest))) = url := by
  have hdrop : ('[' :: (text ++ ']' :: '(' :: (url ++ ')' :: rest))).drop (text.length + 3) =
      url ++ ')' :: rest := by
    rw [List.drop_succ_cons, ← List.drop_drop, List.drop_left]
    rfl
  unfold linkUrl
  rw [linkText_eq htext, hdrop]
  exact takeWhile_ne_append hurl _

/-- A formatted text is safe if what `_sanitize_url` lets through of the addresses of its links
has an allowed scheme. -/
theorem inlineFormat_mem {same : Char → Char → Bool} (hsame : ApartFromMarks same)
    {text : List Char} (hallowed : ∀ m ∈ matchesFrom link 0 [] (emphasized text),
      ∀ cleaned ∈ sanitizeUrl (linkUrl m.2), allowedUrlSchemes same cleaned) :
    inlineFormat text ∈ safeHtml same := by
  apply solid_plainPiece.rewrite_mem_of_fits (plainPiece_le same) (fun _ _ ↦ link_start)
    (fun s ↦ ∀ cleaned ∈ sanitizeUrl (linkUrl s), allowedUrlSchemes same cleaned) _
    (emphasized_plain text) hallowed
  intro c s behind replacement hplain hfound hscheme
  obtain ⟨linked, hlinked, url, hurl, hbracket, hparenthesis, rfl, hrest, hsplit⟩ :=
    link_pieces solid_plainPiece hplain hfound
  rw [hsplit, linkUrl_eq hbracket hparenthesis] at hscheme
  exact ⟨replaceLink_safe hsame hlinked hurl hscheme, hrest⟩

/-- A formatted text is safe, whatever the text is. -/
theorem inlineFormat_safe (text : List Char) : inlineFormat text ∈ safeHtml ignoreCase :=
  inlineFormat_mem ignoreCase_apart fun _ _ _ h ↦ (sanitizeUrl_eq_some h).2

end Link

section Lines

private theorem newline_plain : ['\n'] ∈ plainPiece∗ := plain_of_no_lt (by decide)

private theorem ListState.close_plain (state : ListState) : state.close ∈ plainPiece∗ := by
  unfold ListState.close
  split
  · exact closeTag_mem (by decide)
  · exact closeTag_mem (by decide)

private theorem ListState.open_plain (state : ListState) (listType : ListType) {tag : String}
    (htag : tag ∈ elementTags) : (state.open listType tag).1 ∈ plainPiece∗ := by
  unfold ListState.open
  split
  · exact Language.nil_mem_kstar _
  · exact append_mem_kstar (openTag_mem htag) newline_plain

variable (isdigit : Char → Bool)

/-- The text of a line that is formatted, empty if there is none. -/
def formattedText (stripped : List Char) : List Char :=
  if startsWith stripped "# " then stripped.drop 2
  else if startsWith stripped "## " then stripped.drop 3
  else if startsWith stripped "### " then stripped.drop 4
  else if startsWith stripped "#### " then stripped.drop 5
  else if startsWith stripped "> " then stripped.drop 2
  else if startsWith stripped "- " || startsWith stripped "* " then stripped.drop 2
  else
    match orderedItem isdigit stripped with
    | some text => lstrip text
    | none =>
      if ["---".toList, "***".toList, "___".toList].contains stripped then [] else stripped

/-- The formatted texts of a page, line by line. -/
def formattedTexts : Bool → List (List Char) → List (List Char)
  | _, [] => []
  | inCodeBlock, line :: lines =>
    if startsWith (strip line) "\x60\x60\x60" then formattedTexts (!inCodeBlock) lines
    else if inCodeBlock then formattedTexts inCodeBlock lines
    else formattedText isdigit (strip line) :: formattedTexts inCodeBlock lines

/-- The element of a line is its formatted text between tags, behind a list that it may open,
or a rule. -/
theorem lineToElement_eq (stripped : List Char) (state : ListState) :
    (∃ front ∈ plainPiece∗, ∃ tag ∈ elementTags, (lineToElement isdigit stripped state).1 =
        front ++ element tag (inlineFormat (formattedText isdigit stripped))) ∨
      (lineToElement isdigit stripped state).1 = openTag "hr" ∧
        formattedText isdigit stripped = [] := by
  have hnil : [] ∈ plainPiece∗ := Language.nil_mem_kstar _
  unfold lineToElement formattedText
  by_cases h1 : startsWith stripped "# "
  · rw [if_pos h1, if_pos h1]
    exact .inl ⟨[], hnil, "h1", by decide, rfl⟩
  rw [if_neg h1, if_neg h1]
  by_cases h2 : startsWith stripped "## "
  · rw [if_pos h2, if_pos h2]
    exact .inl ⟨[], hnil, "h2", by decide, rfl⟩
  rw [if_neg h2, if_neg h2]
  by_cases h3 : startsWith stripped "### "
  · rw [if_pos h3, if_pos h3]
    exact .inl ⟨[], hnil, "h3", by decide, rfl⟩
  rw [if_neg h3, if_neg h3]
  by_cases h4 : startsWith stripped "#### "
  · rw [if_pos h4, if_pos h4]
    exact .inl ⟨[], hnil, "h4", by decide, rfl⟩
  rw [if_neg h4, if_neg h4]
  by_cases hquote : startsWith stripped "> "
  · rw [if_pos hquote, if_pos hquote]
    exact .inl ⟨[], hnil, "blockquote", by decide, rfl⟩
  rw [if_neg hquote, if_neg hquote]
  by_cases hitem : startsWith stripped "- " || startsWith stripped "* "
  · rw [if_pos hitem, if_pos hitem]
    exact .inl ⟨_, state.open_plain .ul (by decide : "ul" ∈ elementTags), "li", by decide, rfl⟩
  rw [if_neg hitem, if_neg hitem]
  cases orderedItem isdigit stripped with
  | some text =>
    exact .inl ⟨_, state.open_plain .ol (by decide : "ol" ∈ elementTags), "li", by decide, rfl⟩
  | none =>
    dsimp only
    by_cases hrule : stripped ∈ ["---".toList, "***".toList, "___".toList]
    · rw [if_pos hrule, if_pos (List.contains_iff_mem.mpr hrule)]
      exact .inr ⟨rfl, rfl⟩
    · rw [if_neg hrule, if_neg fun h ↦ hrule (List.contains_iff_mem.mp h)]
      exact .inl ⟨[], hnil, "p", by decide, rfl⟩

section Cases
variable {c : Conversion} {line : List Char}

theorem convertLine_fence (h : startsWith (strip line) "\x60\x60\x60") :
    convertLine isdigit c line = { c with
      htmlParts := c.htmlParts ++ [if c.inCodeBlock then closeTag "code" ++ closeTag "pre"
        else openTag "pre" ++ openTag "code"]
      inCodeBlock := !c.inCodeBlock } := if_pos h

theorem convertLine_code (h : ¬ startsWith (strip line) "\x60\x60\x60")
    (hblock : c.inCodeBlock = true) : convertLine isdigit c line =
      { c with htmlParts := c.htmlParts ++ [escapeHtml line] } := (if_neg h).trans (if_pos hblock)

theorem convertLine_text (h : ¬ startsWith (strip line) "\x60\x60\x60")
    (hblock : c.inCodeBlock = false) : convertLine isdigit c line = { c with
      htmlParts := c.htmlParts ++ (convertBlockElement isdigit (strip line) c.state).1.toList
      state := (convertBlockElement isdigit (strip line) c.state).2 } :=
  (if_neg h).trans (if_neg (by simp [hblock]))

end Cases

section Pieces
variable {A : Language Char} (hA : ∀ w ∈ plainPiece, w ∈ A)
include hA

private theorem plain_mem {s : List Char} (h : s ∈ plainPiece∗) : s ∈ A∗ := mem_kstar_of_subset hA h

private theorem lineToElement_mem {stripped : List Char} (state : ListState)
    (hinline : inlineFormat (formattedText isdigit stripped) ∈ A∗) :
    (lineToElement isdigit stripped state).1 ∈ A∗ := by
  obtain ⟨front, hfront, tag, htag, heq⟩ | ⟨heq, -⟩ := lineToElement_eq isdigit stripped state
  · rw [heq]
    exact append_mem_kstar (plain_mem hA hfront) (element_mem hA htag hinline)
  · have hrule : openTag "hr" ∈ fixedTags := by decide
    rw [heq]
    exact plain_mem hA (mem_kstar_of_mem (tag_mem_plainPiece hrule))

private theorem convertBlockElement_mem {stripped : List Char} (state : ListState)
    (hinline : inlineFormat (formattedText isdigit stripped) ∈ A∗) :
    ∀ part ∈ (convertBlockElement isdigit stripped state).1, part ∈ A∗ := by
  have hclosed (leaves : Bool) : (if leaves then state.close ++ ['\n'] else []) ∈ A∗ := by
    split
    · exact plain_mem hA (append_mem_kstar state.close_plain newline_plain)
    · exact Language.nil_mem_kstar _
  intro part hpart
  dsimp only [convertBlockElement] at hpart
  split at hpart
  · rw [Option.mem_ite_none_left] at hpart
    obtain ⟨-, hpart⟩ := hpart
    cases hpart
    exact hclosed _
  · cases hpart
    exact append_mem_kstar (hclosed _) (lineToElement_mem isdigit hA _ hinline)

/-- The lines keep the parts made of pieces if the formatted texts are. -/
theorem foldl_convertLine_mem {lines : List (List Char)} {c : Conversion}
    (hinline : ∀ text ∈ formattedTexts isdigit c.inCodeBlock lines, inlineFormat text ∈ A∗)
    (hc : ∀ part ∈ c.htmlParts, part ∈ A∗) :
    ∀ part ∈ (lines.foldl (convertLine isdigit) c).htmlParts, part ∈ A∗ := by
  induction lines generalizing c with
  | nil => exact hc
  | cons line lines ih =>
    rw [formattedTexts] at hinline
    rw [List.foldl_cons]
    by_cases hfence : startsWith (strip line) "\x60\x60\x60"
    · rw [if_pos hfence] at hinline
      rw [convertLine_fence isdigit hfence]
      refine ih hinline (List.forall_mem_append.mpr ⟨hc, List.forall_mem_singleton.mpr ?_⟩)
      split
      · exact plain_mem hA (append_mem_kstar (closeTag_mem (by decide)) (closeTag_mem (by decide)))
      · exact plain_mem hA (append_mem_kstar (openTag_mem (by decide)) (openTag_mem (by decide)))
    rw [if_neg hfence] at hinline
    cases hblock : c.inCodeBlock with
    | true =>
      rw [hblock, if_pos rfl] at hinline
      rw [convertLine_code isdigit hfence hblock]
      refine ih (hblock.symm ▸ hinline) (List.forall_mem_append.mpr
        ⟨hc, List.forall_mem_singleton.mpr (plain_mem hA (escapeHtml_plain line))⟩)
    | false =>
      rw [hblock, if_neg Bool.false_ne_true, List.forall_mem_cons] at hinline
      rw [convertLine_text isdigit hfence hblock]
      refine ih (hblock.symm ▸ hinline.2) (List.forall_mem_append.mpr ⟨hc, fun part hpart ↦ ?_⟩)
      exact convertBlockElement_mem isdigit hA _ hinline.1 part (by simpa using hpart)

end Pieces

/-- The parts of a page behind the last line. -/
def Conversion.finalParts (c : Conversion) : List (List Char) :=
  c.htmlParts ++ (if c.state.inList then [c.state.close] else []) ++
    (if c.inCodeBlock then [closeTag "code" ++ closeTag "pre"] else [])

theorem markdownToHtml_eq (markdownText : List Char) :
    markdownToHtml isdigit markdownText = ['\n'].intercalate
      ((markdownText.splitOn '\n').foldl (convertLine isdigit)
        ⟨[], false, ⟨false, .none⟩⟩).finalParts :=
  rfl

private theorem finalParts_mem {A : Language Char} (hA : ∀ w ∈ plainPiece, w ∈ A)
    {lines : List (List Char)} {c : Conversion}
    (hinline : ∀ text ∈ formattedTexts isdigit c.inCodeBlock lines, inlineFormat text ∈ A∗)
    (hc : ∀ part ∈ c.htmlParts, part ∈ A∗) :
    ∀ part ∈ (lines.foldl (convertLine isdigit) c).finalParts, part ∈ A∗ := by
  intro part hpart
  obtain hparts | hclose := List.mem_append.mp hpart
  · obtain hlines | hlist := List.mem_append.mp hparts
    · exact foldl_convertLine_mem isdigit hA hinline hc part hlines
    · split at hlist
      · rw [List.mem_singleton.mp hlist]
        exact plain_mem hA (ListState.close_plain _)
      · cases hlist
  · split at hclose
    · rw [List.mem_singleton.mp hclose]
      exact plain_mem hA (append_mem_kstar (closeTag_mem (by decide)) (closeTag_mem (by decide)))
    · cases hclose

theorem finalParts_safe (lines : List (List Char)) {c : Conversion}
    (hc : ∀ part ∈ c.htmlParts, part ∈ safeHtml ignoreCase) :
    ∀ part ∈ (lines.foldl (convertLine isdigit) c).finalParts, part ∈ safeHtml ignoreCase :=
  finalParts_mem isdigit (plainPiece_le ignoreCase) (fun text _ ↦ inlineFormat_safe text) hc

/-- A converted text is made of pieces if its formatted texts are. -/
theorem markdownToHtml_mem {A : Language Char} (hA : ∀ w ∈ plainPiece, w ∈ A)
    {markdownText : List Char}
    (hinline : ∀ text ∈ formattedTexts isdigit false (markdownText.splitOn '\n'),
      inlineFormat text ∈ A∗) : markdownToHtml isdigit markdownText ∈ A∗ := by
  rw [markdownToHtml_eq]
  exact intercalate_mem_kstar (plain_mem hA newline_plain)
    (finalParts_mem isdigit hA hinline (by simp))

/-- Every converted text is safe markup, whatever the text is; the scheme of an address is
compared as `re.IGNORECASE` compares. -/
theorem markdownToHtml_safe (markdownText : List Char) :
    markdownToHtml isdigit markdownText ∈ safeHtml ignoreCase :=
  markdownToHtml_mem isdigit (plainPiece_le ignoreCase) fun text _ ↦ inlineFormat_safe text

/-- A letter of a pattern, in either case. -/
def asciiCase (letter c : Char) : Bool := c.toLower = letter

theorem exists_tag_of_safe {same : Char → Char → Bool} {s : List Char}
    (h : '<' :: s ∈ safeHtml same) :
    (∃ tag ∈ fixedTags, ∃ rest ∈ safeHtml same, '<' :: s = tag ++ rest) ∨
      ∃ href, SafeHref same href ∧ ∃ rest, '<' :: s = linkTag href ++ rest := by
  obtain ⟨a, rest, ha, hrest, rfl⟩ := exists_head_of_mem_kstar h
  rcases ha with (⟨c, hc, hw⟩ | htag) | ⟨href, hhref, hw⟩
  · exact absurd (List.cons.inj hw).1.symm hc
  · exact .inl ⟨_, htag, rest, hrest, rfl⟩
  · exact .inr ⟨href, hhref, rest, by rw [← hw, List.cons_append]⟩

theorem linkTag_append (href rest : List Char) :
    linkTag href ++ rest = "<a href=\"".toList ++ (href ++ '"' :: '>' :: rest) := by
  have hend : "\">".toList = ['"', '>'] := by decide
  unfold linkTag
  generalize "<a href=\"".toList = start
  rw [hend, List.append_assoc, List.append_assoc]
  rfl

/-- The address of a link tag at the head of a text. -/
theorem href_eq_takeWhile {href rest s : List Char} (hquote : '"' ∉ href)
    (h : s = linkTag href ++ rest) : href = (s.drop 9).takeWhile (· ≠ '"') := by
  have hlength : "<a href=\"".toList.length = 9 := by decide
  have hdrop : s.drop 9 = href ++ '"' :: '>' :: rest := by
    rw [h, linkTag_append, List.drop_left' hlength]
  rw [hdrop, List.takeWhile_append_of_pos, List.takeWhile_cons_of_neg (by simp),
    List.append_nil]
  intro c hc
  have hne : c ≠ '"' := by
    rintro rfl
    exact hquote hc
  simpa using hne

/-- The content of a shared page is safe. -/
theorem contentHtml_safe (content : Option (List Char)) :
    contentHtml isdigit content ∈ safeHtml ignoreCase := by
  unfold contentHtml
  split
  · split
    · exact Language.nil_mem_kstar _
    · exact markdownToHtml_safe isdigit _
  · exact Language.nil_mem_kstar _

end Lines

end WikiMind.Export
