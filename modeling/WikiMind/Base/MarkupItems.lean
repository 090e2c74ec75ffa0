import WikiMind.Base.Markup
import WikiMind.Base.Text

/-!
# Markup item by item

A markup text is a list of characters and tags; a tag is kept with its body, as it stands
between the angle brackets, attributes included. Reading a text that was written from such
items gives the items back, if no character among them opens a tag and each body would be read
to its end. Escaping writes any text without characters that open or close a tag or a quote,
and reading the references gives the text back.
-/

namespace WikiMind.Base.Markup

/-- A character, or a tag by its body. -/
inductive Item where
  | text (c : Char)
  | tag (body : List Char)
  deriving DecidableEq, Repr

/-- The characters of an item. -/
def Item.write : Item → List Char
  | .text c => [c]
  | .tag body => '<' :: (body ++ ['>'])

/-- The items of a text, read on from a place; a tag that does not end counts as a tag. -/
def itemsFrom : Reading → List Char → List Item
  | .text, [] => []
  | .tag body _, [] => [.tag body]
  | .text, c :: s => if c = '<' then itemsFrom (.tag [] false) s else .text c :: itemsFrom .text s
  | .tag body quoted, c :: s =>
    if c = '>' ∧ quoted = false then .tag body :: itemsFrom .text s
    else itemsFrom (.tag (body ++ [c]) (quoted != (c == '"'))) s

/-- The items of a text. -/
def itemsOf (w : List Char) : List Item := itemsFrom .text w

/-- A text as items. -/
def textItems (w : List Char) : List Item := w.map Item.text

/-- A text after which a reader is outside of the tags, wherever it goes on. -/
def Closed (w : List Char) : Prop := ∀ s, itemsOf (w ++ s) = itemsOf w ++ itemsOf s

/-- Whether a reader is outside of the tags behind a text. -/
def endsOutside : Reading → List Char → Bool
  | .text, [] => true
  | .tag _ _, [] => false
  | .text, c :: s => if c = '<' then endsOutside (.tag [] false) s else endsOutside .text s
  | .tag body quoted, c :: s =>
    if c = '>' ∧ quoted = false then endsOutside .text s
    else endsOutside (.tag (body ++ [c]) (quoted != (c == '"'))) s

/-- Outside of quotes a tag does not end, and the quotes are closed. -/
def endsQuote : Bool → List Char → Bool
  | quoted, [] => !quoted
  | quoted, c :: body => !(c = '>' && !quoted) && endsQuote (quoted != (c == '"')) body

section Reading
variable {w v body : List Char}

private theorem itemsOf_cons_of_ne {c : Char} (h : c ≠ '<') (s : List Char) :
    itemsOf (c :: s) = .text c :: itemsOf s := by
  simp only [itemsOf, itemsFrom, if_neg h]

/-- Read to its end, a body gives its tag. -/
theorem itemsFrom_body {quoted : Bool} (h : endsQuote quoted body = true) (before s : List Char) :
    itemsFrom (.tag before quoted) (body ++ '>' :: s) = .tag (before ++ body) :: itemsOf s := by
  induction body generalizing before quoted with
  | nil =>
    have hquoted : quoted = false := by simpa [endsQuote] using h
    simp [itemsFrom, itemsOf, hquoted]
  | cons c body ih =>
    simp only [endsQuote, Bool.and_eq_true, Bool.not_eq_true', Bool.and_eq_false_iff,
      decide_eq_false_iff_not, Bool.not_eq_false'] at h
    have hend : ¬ (c = '>' ∧ quoted = false) := by
      rintro ⟨hc, hquoted⟩
      rcases h.1 with hne | htrue
      · exact hne hc
      · rw [hquoted] at htrue
        cases htrue
    rw [List.cons_append, itemsFrom, if_neg hend, ih h.2]
    simp

private theorem itemsOf_tag (h : endsQuote false body = true) (s : List Char) :
    itemsOf ('<' :: (body ++ '>' :: s)) = .tag body :: itemsOf s := by
  change itemsFrom .text ('<' :: (body ++ '>' :: s)) = _
  rw [itemsFrom, if_pos rfl, itemsFrom_body h]
  rfl

/-- A body with quotes around a text without any. -/
theorem endsQuote_attribute {value rest : List Char} (hquote : '"' ∉ body) (hclose : '>' ∉ body)
    (hvalue : '"' ∉ value) :
    endsQuote false (body ++ '"' :: (value ++ '"' :: rest)) = endsQuote false rest := by
  have hopen : ∀ {quoted : Bool} {w : List Char}, '"' ∉ w → (quoted = false → '>' ∉ w) →
      ∀ s, endsQuote quoted (w ++ s) = endsQuote quoted s := by
    intro quoted w hw hgt s
    induction w with
    | nil => rfl
    | cons c w ih =>
      have hc : (c == '"') = false := by
        simpa using fun h : c = '"' ↦ hw (h ▸ List.mem_cons_self)
      have hgt' : (decide (c = '>') && !quoted) = false := by
        cases quoted with
        | true => simp
        | false => simpa using fun h : c = '>' ↦ hgt rfl (h ▸ List.mem_cons_self)
      rw [List.cons_append, endsQuote, hgt', hc, Bool.bne_false,
        ih (fun h ↦ hw (List.mem_cons_of_mem _ h)) fun hq h ↦ hgt hq (List.mem_cons_of_mem _ h)]
      rfl
  calc endsQuote false (body ++ '"' :: (value ++ '"' :: rest))
      = endsQuote false ('"' :: (value ++ '"' :: rest)) := hopen hquote (fun _ ↦ hclose) _
    _ = endsQuote true (value ++ '"' :: rest) := by simp [endsQuote]
    _ = endsQuote true ('"' :: rest) := hopen hvalue (fun h ↦ by cases h) _
    _ = endsQuote false rest := by simp [endsQuote]

/-- What is written from items is read as the items. -/
theorem itemsOf_write {items : List Item}
    (htext : ∀ c, Item.text c ∈ items → c ≠ '<')
    (htag : ∀ body, Item.tag body ∈ items → endsQuote false body = true) (s : List Char) :
    itemsOf (items.flatMap Item.write ++ s) = items ++ itemsOf s := by
  induction items with
  | nil => rfl
  | cons item items ih =>
    have hrest := ih (fun c hc ↦ htext c (List.mem_cons_of_mem _ hc))
      fun body hbody ↦ htag body (List.mem_cons_of_mem _ hbody)
    rw [List.flatMap_cons, List.append_assoc]
    cases item with
    | text c =>
      rw [Item.write, List.singleton_append,
        itemsOf_cons_of_ne (htext c List.mem_cons_self), hrest]
      rfl
    | tag body =>
      rw [Item.write, List.cons_append, List.append_assoc, List.singleton_append,
        itemsOf_tag (htag body List.mem_cons_self), hrest]
      rfl

/-- Items are closed where none of them opens a tag. -/
theorem closed_write {items : List Item} (htext : ∀ c, Item.text c ∈ items → c ≠ '<')
    (htag : ∀ body, Item.tag body ∈ items → endsQuote false body = true) :
    Closed (items.flatMap Item.write) ∧ itemsOf (items.flatMap Item.write) = items := by
  have hread := itemsOf_write htext htag
  have hself : itemsOf (items.flatMap Item.write) = items := by
    have hnil := hread []
    rwa [List.append_nil, show itemsOf [] = [] from rfl, List.append_nil] at hnil
  exact ⟨fun s ↦ by rw [hread, hself], hself⟩

/-- The empty text is closed. -/
theorem closed_nil : Closed [] := fun _ ↦ rfl

/-- Closed texts, one after the other. -/
theorem Closed.append (hw : Closed w) (hv : Closed v) : Closed (w ++ v) := by
  intro s
  rw [List.append_assoc, hw, hv, hw, List.append_assoc]

/-- A text without an opening bracket is read character by character. -/
theorem itemsOf_text (h : '<' ∉ w) (s : List Char) :
    itemsOf (w ++ s) = textItems w ++ itemsOf s := by
  induction w with
  | nil => rfl
  | cons c w ih =>
    rw [List.cons_append, itemsOf_cons_of_ne fun hc ↦ h (hc ▸ List.mem_cons_self),
      ih fun hmem ↦ h (List.mem_cons_of_mem _ hmem)]
    rfl

/-- A text without tags is closed and has only texts. -/
theorem closed_of_no_lt (h : '<' ∉ w) : Closed w ∧ itemsOf w = textItems w := by
  have hself : itemsOf w = textItems w := by
    have hnil := itemsOf_text h []
    rwa [List.append_nil, show itemsOf [] = [] from rfl, List.append_nil] at hnil
  exact ⟨fun s ↦ by rw [itemsOf_text h, hself], hself⟩

private theorem itemsFrom_append {reading : Reading} (h : endsOutside reading w = true)
    (s : List Char) :
    itemsFrom reading (w ++ s) = itemsFrom reading w ++ itemsOf s := by
  induction w generalizing reading with
  | nil =>
    cases reading with
    | text => rfl
    | tag body quoted => cases h
  | cons c w ih =>
    cases reading with
    | text =>
      simp only [endsOutside] at h
      simp only [List.cons_append, itemsFrom]
      split at h
      · next hc => rw [if_pos hc, if_pos hc, ih h]
      · next hc => rw [if_neg hc, if_neg hc, ih h, List.cons_append]
    | tag body quoted =>
      simp only [endsOutside] at h
      simp only [List.cons_append, itemsFrom]
      split at h
      · next hc => rw [if_pos hc, if_pos hc, ih h, List.cons_append]
      · next hc => rw [if_neg hc, if_neg hc, ih h]

/-- A text that ends outside of tags is closed. -/
theorem closed_of_endsOutside (h : endsOutside .text w = true) : Closed w := itemsFrom_append h

end Reading

/-! ### Tags and shown texts -/

/-- The bodies of the tags of a text, in order. -/
def tagsOf (w : List Char) : List (List Char) :=
  (itemsOf w).filterMap fun
    | .text _ => none
    | .tag body => some body

/-- An element by the body of its opening tag shows a text, up to references. -/
def Shows (unescape : List Char → List Char) (page body text : List Char) : Prop :=
  ∃ before written after, itemsOf page = before ++ .tag body ::
      (textItems written ++ .tag ('/' :: body.takeWhile (· ≠ ' ')) :: after) ∧
    unescape written = text

section Shown
variable {w v body text written : List Char} {unescape : List Char → List Char}

/-- The tags of a closed text come first. -/
theorem tagsOf_append (hw : Closed w) (s : List Char) :
    tagsOf (w ++ s) = tagsOf w ++ tagsOf s := by
  unfold tagsOf
  rw [hw, List.filterMap_append]

/-- A text without `<` has no tags. -/
theorem tagsOf_of_no_lt (h : '<' ∉ w) : tagsOf w = [] := by
  unfold tagsOf
  rw [(closed_of_no_lt h).2, textItems, List.filterMap_map]
  exact List.filterMap_eq_nil_iff.mpr fun _ _ ↦ rfl

/-- A text before an element hides nothing. -/
theorem Shows.append_left (hw : Closed w) (h : Shows unescape v body text) :
    Shows unescape (w ++ v) body text := by
  obtain ⟨before, written, after, hitems, htext⟩ := h
  exact ⟨itemsOf w ++ before, written, after, by rw [hw, hitems, List.append_assoc], htext⟩

/-- A text behind an element hides nothing. -/
theorem Shows.append_right (hw : Closed w) (h : Shows unescape w body text) (v : List Char) :
    Shows unescape (w ++ v) body text := by
  obtain ⟨before, written, after, hitems, htext⟩ := h
  exact ⟨before, written, after ++ itemsOf v, by rw [hw, hitems]; simp, htext⟩

section Parts
variable {sep : List Char} {parts : List (List Char)}

/-- Closed parts with a closed separator. -/
theorem closed_intercalate (hsep : Closed sep) (hparts : ∀ part ∈ parts, Closed part) :
    Closed (sep.intercalate parts) := by
  induction parts with
  | nil => exact closed_nil
  | cons part parts ih =>
    have hpart := hparts part List.mem_cons_self
    have hrest := ih fun p hp ↦ hparts p (List.mem_cons_of_mem _ hp)
    cases parts with
    | nil => rwa [List.intercalate_singleton]
    | cons next parts =>
      rw [List.intercalate_cons_cons]
      exact (hpart.append hsep).append hrest

/-- Texts joined by one without tags have the tags of the texts. -/
theorem tagsOf_intercalate (hsep : '<' ∉ sep) (hparts : ∀ part ∈ parts, Closed part) :
    tagsOf (sep.intercalate parts) = parts.flatMap tagsOf := by
  induction parts with
  | nil => rfl
  | cons part parts ih =>
    have hpart := hparts part List.mem_cons_self
    have hrest := ih fun p hp ↦ hparts p (List.mem_cons_of_mem _ hp)
    cases parts with
    | nil => simp
    | cons next parts =>
      rw [List.intercalate_cons_cons, tagsOf_append (hpart.append (closed_of_no_lt hsep).1),
        tagsOf_append hpart, tagsOf_of_no_lt hsep, hrest, List.append_nil,
        List.flatMap_cons (x := part)]

/-- What a part shows, all parts together show. -/
theorem Shows.intercalate (hsep : Closed sep) (hparts : ∀ part ∈ parts, Closed part)
    {part : List Char} (hpart : part ∈ parts) (h : Shows unescape part body text) :
    Shows unescape (sep.intercalate parts) body text := by
  induction parts with
  | nil => cases hpart
  | cons first parts ih =>
    have hfirst := hparts first List.mem_cons_self
    have hrest := ih fun p hp ↦ hparts p (List.mem_cons_of_mem _ hp)
    cases parts with
    | nil =>
      rw [List.intercalate_singleton]
      rwa [List.mem_singleton.mp hpart] at h
    | cons next parts =>
      rw [List.intercalate_cons_cons]
      rcases List.mem_cons.mp hpart with rfl | hpart
      · exact (h.append_right hfirst sep).append_right (hfirst.append hsep) _
      · exact (hrest hpart).append_left (hfirst.append hsep)

end Parts

/-- The element written around a text. -/
def elementItems (body written : List Char) : List Item :=
  .tag body :: (textItems written ++ [.tag ('/' :: body.takeWhile (· ≠ ' '))])

private theorem write_textItems (w : List Char) : (textItems w).flatMap Item.write = w := by
  unfold textItems
  rw [List.flatMap_map]
  exact List.flatMap_singleton' w

/-- The text of an element. -/
theorem write_elementItems (body written : List Char) :
    (elementItems body written).flatMap Item.write =
      '<' :: (body ++ '>' :: (written ++
        '<' :: '/' :: (body.takeWhile (· ≠ ' ') ++ ['>']))) := by
  unfold elementItems
  rw [List.flatMap_cons, List.flatMap_append, write_textItems, List.flatMap_singleton]
  simp [Item.write]

/-- An element is closed. -/
theorem closed_element (hbody : endsQuote false body = true)
    (hname : endsQuote false ('/' :: body.takeWhile (· ≠ ' ')) = true) (hwritten : '<' ∉ written) :
    Closed ((elementItems body written).flatMap Item.write) ∧
      itemsOf ((elementItems body written).flatMap Item.write) = elementItems body written := by
  refine closed_write (fun c hc ↦ ?_) fun b hb ↦ ?_
  · simp only [elementItems, textItems, List.mem_cons, List.mem_append, List.mem_map,
      Item.text.injEq, exists_eq_right, reduceCtorEq, List.not_mem_nil, or_false, false_or] at hc
    rintro rfl
    exact hwritten hc
  · simp only [elementItems, textItems, List.mem_cons, List.mem_append, List.mem_map,
      Item.tag.injEq, reduceCtorEq, and_false, exists_false, List.not_mem_nil, or_false,
      false_or] at hb
    rcases hb with rfl | rfl
    · exact hbody
    · exact hname

/-- The tags of an element. -/
theorem tagsOf_element (hbody : endsQuote false body = true)
    (hname : endsQuote false ('/' :: body.takeWhile (· ≠ ' ')) = true) (hwritten : '<' ∉ written) :
    tagsOf ((elementItems body written).flatMap Item.write) =
      [body, '/' :: body.takeWhile (· ≠ ' ')] := by
  unfold tagsOf
  rw [(closed_element hbody hname hwritten).2]
  simp [elementItems, textItems, List.filterMap_append, List.filterMap_map]

/-- An element shows its text. -/
theorem shows_element (unescape : List Char → List Char) (hbody : endsQuote false body = true)
    (hname : endsQuote false ('/' :: body.takeWhile (· ≠ ' ')) = true) (hwritten : '<' ∉ written) :
    Shows unescape ((elementItems body written).flatMap Item.write) body (unescape written) :=
  ⟨[], written, [], (closed_element hbody hname hwritten).2, rfl⟩

/-- An element anywhere on a page shows what is written in it. -/
theorem shows_between (unescape : List Char → List Char) {pre : List Char} (hpre : Closed pre)
    (hbody : endsQuote false body = true)
    (hname : endsQuote false ('/' :: body.takeWhile (· ≠ ' ')) = true) (hwritten : '<' ∉ written)
    (post : List Char) :
    Shows unescape (pre ++ '<' :: (body ++ '>' :: (written ++
      '<' :: '/' :: (body.takeWhile (· ≠ ' ') ++ '>' :: post)))) body (unescape written) := by
  have helement := write_elementItems body written
  have hsplit : '<' :: (body ++ '>' :: (written ++
      '<' :: '/' :: (body.takeWhile (· ≠ ' ') ++ '>' :: post))) =
      (elementItems body written).flatMap Item.write ++ post := by
    rw [helement]
    simp only [List.cons_append, List.append_assoc, List.nil_append]
  rw [hsplit]
  exact ((shows_element unescape hbody hname hwritten).append_right
    (closed_element hbody hname hwritten).1 post).append_left hpre

end Shown

/-! ### Character references -/

/-- `html.escape(text, quote=True)` of one character. -/
def escapeChar : Char → List Char
  | '&' => "&amp;".toList
  | '<' => "&lt;".toList
  | '>' => "&gt;".toList
  | '"' => "&quot;".toList
  | '\'' => "&#x27;".toList
  | c => [c]

/-- The references that are written, with what they stand for. -/
def references : List (List Char × Char) :=
  [("&amp;".toList, '&'), ("&lt;".toList, '<'), ("&gt;".toList, '>'), ("&quot;".toList, '"'),
   ("&#x27;".toList, '\'')]

/-- A reference at the head of a text. -/
def reference : Pattern Char := fun s ↦
  (references.find? (·.1.isPrefixOf s)).map fun found ↦ (found.1.length - 1, [found.2])

/-- The text that a reader shows for the references in another. -/
def unescape (w : List Char) : List Char := rewrite reference 0 w

/-- The characters that begin nothing and end nothing. -/
def isPlain (c : Char) : Bool := c ≠ '&' && c ≠ '<' && c ≠ '>' && c ≠ '"' && c ≠ '\''

/-- A plain character is written as it is. -/
theorem escapeChar_of_isPlain {c : Char} (h : isPlain c = true) : escapeChar c = [c] := by
  simp only [isPlain, Bool.and_eq_true, decide_eq_true_eq] at h
  unfold escapeChar
  split <;> simp_all

private theorem reference_of_isPlain {c : Char} (h : isPlain c = true) (s : List Char) :
    reference (c :: s) = none := by
  have hne : ('&' == c) = false := by
    simp only [isPlain, Bool.and_eq_true, decide_eq_true_eq] at h
    simpa using Ne.symm h.1.1.1.1
  simp [reference, references, List.isPrefixOf, hne]

/-- The characters that are escaped. -/
theorem not_isPlain {c : Char} (h : isPlain c = false) :
    c = '&' ∨ c = '<' ∨ c = '>' ∨ c = '"' ∨ c = '\'' := by
  simp only [isPlain, Bool.and_eq_false_iff, decide_eq_false_iff_not, not_not] at h
  tauto

/-- An escaped character is read back. -/
theorem unescape_escapeChar (c : Char) (s : List Char) :
    unescape (escapeChar c ++ s) = c :: unescape s := by
  unfold unescape
  cases hplain : isPlain c with
  | true =>
    rw [escapeChar_of_isPlain hplain, List.singleton_append,
      rewrite_keep (reference_of_isPlain hplain s)]
  | false =>
    have hstep : ∀ entry ∈ references, entry.1 = escapeChar c → entry.2 = c →
        reference (escapeChar c ++ s) = some (entry.1.length - 1, [c]) →
        rewrite reference 0 (escapeChar c ++ s) = c :: rewrite reference 0 s := by
      intro entry hentry hwritten hstands hfound
      have hcons : ∃ head tail, escapeChar c = head :: tail := by
        rw [← hwritten]
        have hall : ∀ entry ∈ references, ∃ head tail, entry.1 = head :: tail := by
          simp [references]
        exact hall entry hentry
      obtain ⟨head, tail, hsplit⟩ := hcons
      rw [hsplit, List.cons_append] at hfound ⊢
      rw [rewrite_replace hfound, hwritten, hsplit]
      simp
    rcases not_isPlain hplain with rfl | rfl | rfl | rfl | rfl
    · exact hstep ("&amp;".toList, '&') (by decide) rfl rfl rfl
    · exact hstep ("&lt;".toList, '<') (by decide) rfl rfl rfl
    · exact hstep ("&gt;".toList, '>') (by decide) rfl rfl rfl
    · exact hstep ("&quot;".toList, '"') (by decide) rfl rfl rfl
    · exact hstep ("&#x27;".toList, '\'') (by decide) rfl rfl rfl

/-- Reading the references of an escaped text gives the text back. -/
@[simp] theorem unescape_escape (w : List Char) : unescape (w.flatMap escapeChar) = w := by
  induction w with
  | nil => rfl
  | cons c w ih => rw [List.flatMap_cons, unescape_escapeChar, ih]

/-- A text behind an escaped one is read on. -/
theorem unescape_append (w s : List Char) :
    unescape (w.flatMap escapeChar ++ s) = w ++ unescape s := by
  induction w with
  | nil => rfl
  | cons c w ih =>
    rw [List.flatMap_cons, List.append_assoc, unescape_escapeChar, ih, List.cons_append]

/-- An escaped text has no character that opens or closes a tag or a quote. -/
theorem not_mem_escape {c : Char} (hc : c ∈ ['<', '>', '"', '\'']) (w : List Char) :
    c ∉ w.flatMap escapeChar := by
  intro hmem
  obtain ⟨d, -, hd⟩ := List.mem_flatMap.mp hmem
  cases hplain : isPlain d with
  | true =>
    rw [escapeChar_of_isPlain hplain, List.mem_singleton] at hd
    subst hd
    have hnone : ['<', '>', '"', '\''].all (fun e ↦ !isPlain e) = true := by decide
    have hmarked := List.all_eq_true.mp hnone c hc
    rw [hplain] at hmarked
    cases hmarked
  | false =>
    have hall : ['&', '<', '>', '"', '\''].all (fun e ↦
        ['<', '>', '"', '\''].all fun f ↦ f ∉ escapeChar e) = true := by decide
    have hd' : d ∈ ['&', '<', '>', '"', '\''] := by simpa using not_isPlain hplain
    have hnone := List.all_eq_true.mp (List.all_eq_true.mp hall d hd') c hc
    exact of_decide_eq_true hnone hd

end WikiMind.Base.Markup
