import Mathlib.Data.List.Perm.Subperm
import Mathlib.Logic.Function.Basic
import WikiMind.Base.Rows
import WikiMind.Base.Text

/-!
# Descriptions of pages

Pages of a PDF with little text are sent to a model as images, a batch at a time, and the
response has a section for each of them that begins with `[Page N]:`
(`ingest/adapters/pdf.py:536`). The numbers are dropped when the response is split: what is not
blank of it goes to the pages of the batch in their order. So every page gets its own section
exactly if the sections stand in that order and nothing else is in their places.
-/

namespace WikiMind.Ingest

open WikiMind.Base

/-- The digits `\d` stands for: those of ASCII and of other scripts. -/
structure Digits where
  isDigit : Char → Bool
  ascii : ∀ c, c.isDigit = true → isDigit c = true
  opening : isDigit '[' = false
  closing : isDigit ']' = false

/-- The sparse pages of `_classify_pages`: `ingest/adapters/pdf.py:493`. -/
def sparsePages (perPageText : List (List Char)) (threshold : Nat) : List Nat :=
  (List.range perPageText.length).filter fun i ↦
    (strip (perPageText[i]?.getD [])).length < threshold

/-- What is behind a match of `\[Page \d+\]:` at the start of a text. -/
def matchMarker (digits : Digits) (s : List Char) : Option (List Char) :=
  let number := (s.drop 6).takeWhile digits.isDigit
  let rest := (s.drop 6).dropWhile digits.isDigit
  if startsWith s "[Page " ∧ number ≠ [] ∧ startsWith rest "]:" then some (rest.drop 2) else none

/-- `re.split(r"\[Page \d+\]:", s)`. The first argument is the text since the last marker, the
second says how much of a marker is left. -/
def splitMarkers (digits : Digits) : List Char → Nat → List Char → List (List Char)
  | current, _, [] => [current]
  | current, n + 1, _ :: s => splitMarkers digits current n s
  | current, 0, c :: s =>
    match matchMarker digits (c :: s) with
    | some rest => current :: splitMarkers digits [] (s.length - rest.length) s
    | none => splitMarkers digits (current ++ [c]) 0 s

/-- The texts of a response that are not blank: `ingest/adapters/pdf.py:616–620`. -/
def pageSections (digits : Digits) (rawText : List Char) : List (List Char) :=
  ((splitMarkers digits [] 0 rawText).map strip).filter (· ≠ [])

/-- The descriptions of pages. -/
abbrev Descriptions := Nat → Option (List Char)

/-- The response to a batch is assigned to its pages: `ingest/adapters/pdf.py:612–627`. -/
def assignDescriptions (digits : Digits) (batch : List Nat) (content : List Char)
    (descriptions : Descriptions) : Descriptions :=
  let rawText := strip content
  batch.zipIdx.foldl (fun d (idx, i) ↦
    Function.update d idx (some ((pageSections digits rawText)[i]?.getD rawText))) descriptions

/-- The batches of the pages. -/
def batches (maxPerBatch : Nat) (pageIndices : List Nat) : List (List Nat) :=
  if _h : pageIndices = [] ∨ maxPerBatch = 0 then []
  else pageIndices.take maxPerBatch :: batches maxPerBatch (pageIndices.drop maxPerBatch)
termination_by pageIndices.length
decreasing_by
  rw [not_or] at _h
  have hlength := List.length_pos_of_ne_nil _h.1
  rw [List.length_drop]
  omega

/-- The descriptions after a run over batches. -/
def describeBatches (digits : Digits) (respond : List Nat → List Char) (d : Descriptions)
    (past : List (List Nat)) : Descriptions :=
  past.foldl (fun d batch ↦ assignDescriptions digits batch (respond batch) d) d

/-- `_describe_images_via_llm`, with the response to each batch: `ingest/adapters/pdf.py:536`. A
range has no step of zero. -/
def describeImagesViaLlm (digits : Digits) (respond : List Nat → List Char) (maxPerBatch : Nat)
    (pageIndices : List Nat) : Except Exc Descriptions :=
  if maxPerBatch = 0 then .error .valueError
  else .ok (describeBatches digits respond (fun _ ↦ none) (batches maxPerBatch pageIndices))

/-- A page of the merged document: `ingest/adapters/pdf.py:653–663`. -/
def mergePage (descriptions : Descriptions) (sparseIndices : List Nat) (i : Nat)
    (text : List Char) : List Char :=
  match descriptions i with
  | some desc =>
    if i ∈ sparseIndices then
      if strip text = [] then "[Visual content]: ".toList ++ desc
      else strip text ++ "\n\n[Visual content]: ".toList ++ desc
    else text
  | none => text

/-- `_merge_text_and_descriptions`: `ingest/adapters/pdf.py:631`. -/
def mergeTextAndDescriptions (perPageText : List (List Char)) (descriptions : Descriptions)
    (sparseIndices : List Nat) : List Char :=
  ['\n', '\n'].intercalate (perPageText.mapIdx (mergePage descriptions sparseIndices))

/-! ### Responses with sections -/

/-- The marker of a page, which is counted from one. -/
def marker (page : Nat) : List Char :=
  "[Page ".toList ++ (Nat.toDigits 10 (page + 1) ++ "]:".toList)

/-- A section of a response. -/
structure PageSection where
  page : Nat
  body : List Char

/-- The description in a section. -/
def PageSection.text (s : PageSection) : List Char := strip s.body

/-- A text behind its sections. -/
def render (preamble : List Char) (sections : List PageSection) : List Char :=
  preamble ++ sections.flatMap fun s ↦ marker s.page ++ s.body

/-- No marker is in a text. -/
def Unmarked (digits : Digits) (s : List Char) : Prop :=
  ∀ t u, s = t ++ u → matchMarker digits u = none

/-- A response to a batch: text in front, and sections of pages of the batch, each at most once
and in any order. -/
structure Response (digits : Digits) (batch : List Nat) where
  preamble : List Char
  sections : List PageSection
  nodup : (sections.map (·.page)).Nodup
  subset : ∀ s ∈ sections, s.page ∈ batch
  unmarked : Unmarked digits preamble ∧ ∀ s ∈ sections, Unmarked digits s.body

namespace Response

variable {digits : Digits} {batch : List Nat} (r : Response digits batch)

/-- The text of the response. -/
def content : List Char := render r.preamble r.sections

/-- A page has a section. -/
def Marked (page : Nat) : Prop := page ∈ r.sections.map (·.page)

/-- The description of a page. -/
def text? (page : Nat) : Option (List Char) :=
  (r.sections.find? (·.page = page)).map (·.text)

/-- The texts of the response that are not blank. -/
def pieces : List (List Char) :=
  (strip r.preamble :: r.sections.map (·.text)).filter (· ≠ [])

/-- Every page with a section has the text of that, and no other page shows the text of a
section. -/
structure Described (descriptions : Descriptions) : Prop where
  own : ∀ s ∈ r.sections, descriptions s.page = some s.text
  foreign : ∀ page ∈ batch, ¬ r.Marked page → ∀ desc, descriptions page = some desc →
    ∀ s ∈ r.sections, ¬ s.text <:+: desc

/-- The sections are not blank and stand in the order of the pages, up to sections with equal
texts, and in their places: every page has one and there is nothing before them, or the first page
has none and instead of it there is a preamble that shows no other page. -/
def InPlace : Prop :=
  r.sections = [] ∨ (∀ s ∈ r.sections, s.text ≠ []) ∧
    ((∀ page ∈ batch, r.Marked page) ∧
        r.pieces.take batch.length = batch.filterMap r.text? ∨
      ∃ first rest, batch = first :: rest ∧ ¬ r.Marked first ∧ (∀ page ∈ rest, r.Marked page) ∧
        strip r.preamble ≠ [] ∧ r.sections.map (·.text) = rest.filterMap r.text? ∧
        ∀ s ∈ r.sections, ¬ s.text <:+: strip r.preamble)

end Response

section Splitting

variable {digits : Digits}

/-- How a marker is written. -/
def IsMarker (digits : Digits) (m : List Char) : Prop :=
  ∃ number, number ≠ [] ∧ (∀ c ∈ number, digits.isDigit c = true) ∧
    m = "[Page ".toList ++ (number ++ "]:".toList)

private theorem matchMarker_eq_some_iff {s rest : List Char} :
    matchMarker digits s = some rest ↔ ∃ m, IsMarker digits m ∧ s = m ++ rest := by
  unfold matchMarker
  dsimp only
  constructor
  · intro h
    split at h
    · next hmatch =>
      obtain ⟨hstart, hnumber, hend⟩ := hmatch
      cases h
      obtain ⟨t, rfl⟩ := List.isPrefixOf_iff_prefix.mp hstart
      obtain ⟨u, hu⟩ := List.isPrefixOf_iff_prefix.mp hend
      have hdrop : ("[Page ".toList ++ t).drop 6 = t := rfl
      rw [hdrop] at hnumber hu ⊢
      refine ⟨_, ⟨_, hnumber, fun c hc ↦ List.mem_takeWhile_imp hc, rfl⟩, ?_⟩
      have hrest : (t.dropWhile digits.isDigit).drop 2 = u := by rw [← hu]; rfl
      rw [hrest, List.append_assoc, List.append_assoc, hu, List.takeWhile_append_dropWhile]
    · cases h
  · rintro ⟨m, ⟨number, hnumber, hdigits, rfl⟩, rfl⟩
    rw [List.append_assoc, List.append_assoc]
    have hdrop : ("[Page ".toList ++ (number ++ ("]:".toList ++ rest))).drop 6 =
        number ++ ("]:".toList ++ rest) := rfl
    have hstop : ("]:".toList ++ rest).takeWhile digits.isDigit = [] := by
      simp [digits.closing]
    have hkeep : ("]:".toList ++ rest).dropWhile digits.isDigit = "]:".toList ++ rest := by
      simp [digits.closing]
    have hstart :
        startsWith ("[Page ".toList ++ (number ++ ("]:".toList ++ rest))) "[Page " = true :=
      List.isPrefixOf_iff_prefix.mpr (List.prefix_append _ _)
    have hend : startsWith ("]:".toList ++ rest) "]:" = true :=
      List.isPrefixOf_iff_prefix.mpr (List.prefix_append _ _)
    rw [hdrop, List.takeWhile_append_of_pos hdigits, List.dropWhile_append_of_pos hdigits, hstop,
      hkeep, List.append_nil, if_pos ⟨hstart, hnumber, hend⟩]
    rfl

private theorem isMarker_marker (page : Nat) : IsMarker digits (marker page) := by
  refine ⟨Nat.toDigits 10 (page + 1), Nat.toDigits_ne_nil, fun c hc ↦ ?_, rfl⟩
  exact digits.ascii c (Nat.isDigit_of_mem_toDigits (by decide) (by decide) hc)

/-- A marker has one opening bracket, at its start. -/
theorem IsMarker.not_mem_tail {m : List Char} (h : IsMarker digits m) : '[' ∉ m.tail := by
  obtain ⟨number, -, hdigits, rfl⟩ := h
  have htail : ("[Page ".toList ++ (number ++ "]:".toList)).tail =
      "Page ".toList ++ (number ++ "]:".toList) := rfl
  rw [htail, List.mem_append, List.mem_append, not_or, not_or]
  refine ⟨by decide, fun hmem ↦ ?_, by decide⟩
  have hdigit := hdigits _ hmem
  rw [digits.opening] at hdigit
  cases hdigit

private theorem splitMarkers_skip (current : List Char) (n : Nat) (s : List Char) :
    splitMarkers digits current n s = splitMarkers digits current 0 (s.drop n) := by
  induction n generalizing s with
  | zero => rfl
  | succ n ih =>
    cases s with
    | nil => rfl
    | cons c s => exact ih s

/-- A marker ends the text before it. -/
theorem splitMarkers_marker (current : List Char) (page : Nat) (rest : List Char) :
    splitMarkers digits current 0 (marker page ++ rest) =
      current :: splitMarkers digits [] 0 rest := by
  have hmatch : matchMarker digits (marker page ++ rest) = some rest :=
    matchMarker_eq_some_iff.mpr ⟨_, isMarker_marker page, rfl⟩
  have hcons : marker page ++ rest = '[' :: ((marker page).tail ++ rest) := rfl
  rw [hcons] at hmatch ⊢
  rw [splitMarkers, hmatch]
  dsimp only
  rw [splitMarkers_skip, List.length_append, Nat.add_sub_cancel, List.drop_left]

/-- What follows a text in a response: nothing, or an opening bracket. -/
def Follows (tail : List Char) : Prop := tail = [] ∨ ∃ rest, tail = '[' :: rest

/-- No match begins in a text without markers. -/
theorem matchMarker_append {u tail : List Char} (hne : u ≠ [])
    (hu : matchMarker digits u = none) (htail : Follows tail) :
    matchMarker digits (u ++ tail) = none := by
  rw [Option.eq_none_iff_forall_ne_some] at hu ⊢
  intro rest hmatch
  obtain ⟨m, hm, heq⟩ := matchMarker_eq_some_iff.mp hmatch
  rcases List.append_eq_append_iff.mp heq with ⟨z, hz, hrest⟩ | ⟨z, hz, -⟩
  · cases z with
    | nil =>
      rw [List.append_nil] at hz
      exact hu [] (matchMarker_eq_some_iff.mpr ⟨m, hm, by rw [hz, List.append_nil]⟩)
    | cons c z =>
      -- the match would go on with the opening bracket of what follows
      obtain ⟨rest', hopen⟩ := htail.resolve_left fun hnil ↦ by rw [hnil] at hrest; cases hrest
      rw [hrest] at hopen
      obtain ⟨rfl, -⟩ := List.cons.inj hopen
      obtain ⟨d, u, rfl⟩ := List.exists_cons_of_ne_nil hne
      apply hm.not_mem_tail
      rw [hz]
      simp
  · exact hu z (matchMarker_eq_some_iff.mpr ⟨m, hm, hz⟩)

/-- A text without markers is read over. -/
theorem splitMarkers_append {t tail : List Char} (ht : Unmarked digits t) (htail : Follows tail)
    (current : List Char) :
    splitMarkers digits current 0 (t ++ tail) = splitMarkers digits (current ++ t) 0 tail := by
  induction t generalizing current with
  | nil => rw [List.append_nil, List.nil_append]
  | cons c t ih =>
    have hnone := matchMarker_append (List.cons_ne_nil c t) (ht [] (c :: t) rfl) htail
    rw [List.cons_append] at hnone ⊢
    rw [splitMarkers, hnone]
    dsimp only
    rw [ih (fun a b hab ↦ ht (c :: a) b (by rw [hab]; rfl)), List.append_assoc,
      List.singleton_append]

private theorem follows_flatMap (sections : List PageSection) :
    Follows (sections.flatMap fun s ↦ marker s.page ++ s.body) := by
  cases sections with
  | nil => exact .inl rfl
  | cons s sections => exact .inr ⟨_, rfl⟩

/-- Splitting a response gives the text in front and those of its sections. -/
theorem splitMarkers_render {preamble : List Char} {sections : List PageSection}
    (hpreamble : Unmarked digits preamble) (hsections : ∀ s ∈ sections, Unmarked digits s.body) :
    splitMarkers digits [] 0 (render preamble sections) = preamble :: sections.map (·.body) := by
  unfold render
  induction sections generalizing preamble with
  | nil =>
    rw [splitMarkers_append hpreamble (follows_flatMap [])]
    rfl
  | cons s sections ih =>
    rw [splitMarkers_append hpreamble (follows_flatMap _), List.flatMap_cons, List.append_assoc,
      splitMarkers_marker, List.nil_append, ih (hsections s List.mem_cons_self)
      fun s' hs' ↦ hsections s' (List.mem_cons_of_mem _ hs')]
    rfl

end Splitting

section Stripping

variable {digits : Digits}

private theorem Unmarked.of_append_right {a b : List Char} (h : Unmarked digits (a ++ b)) :
    Unmarked digits b := by
  intro t u hb
  exact h (a ++ t) u (by rw [hb, List.append_assoc])

theorem Unmarked.of_append_left {a b : List Char} (h : Unmarked digits (a ++ b)) :
    Unmarked digits a := by
  intro t u ha
  have hnone := h t (u ++ b) (by rw [ha, List.append_assoc])
  rw [Option.eq_none_iff_forall_ne_some] at hnone ⊢
  intro rest hmatch
  obtain ⟨m, hm, rfl⟩ := matchMarker_eq_some_iff.mp hmatch
  exact hnone (rest ++ b) (matchMarker_eq_some_iff.mpr ⟨m, hm, by rw [List.append_assoc]⟩)

/-- Without white space at its start a response has its text in front without that. -/
theorem dropWhile_render (preamble : List Char) (sections : List PageSection) :
    (render preamble sections).dropWhile isSpace =
      render (preamble.dropWhile isSpace) sections := by
  have hkeep : ∀ tail : List Char, Follows tail → tail.dropWhile isSpace = tail := by
    rintro tail (rfl | ⟨rest, rfl⟩)
    · rfl
    · rw [List.dropWhile_cons_of_neg (by decide)]
  unfold render
  rw [List.dropWhile_append]
  split
  · next hempty =>
    rw [List.isEmpty_iff.mp hempty, List.nil_append, hkeep _ (follows_flatMap sections)]
  · rfl

private theorem rdropWhile_append {x y : List Char} (hx : x.rdropWhile isSpace = x) :
    (x ++ y).rdropWhile isSpace = x ++ y.rdropWhile isSpace := by
  induction y using List.reverseRecOn with
  | nil => rw [List.append_nil, hx, List.rdropWhile_nil, List.append_nil]
  | append_singleton y c ih =>
    rw [← List.append_assoc, List.rdropWhile_concat, List.rdropWhile_concat]
    split
    · exact ih
    · rw [List.append_assoc]

/-- A response without white space at its ends is one with the same texts but for white space
at their ends. -/
theorem strip_render (digits : Digits) (preamble : List Char) (sections : List PageSection) :
    ∃ preamble' sections', strip (render preamble sections) = render preamble' sections' ∧
      strip preamble' = strip preamble ∧
      List.Forall₂ (fun s' s ↦ s'.page = s.page ∧ s'.text = s.text ∧ s'.body <+: s.body)
        sections' sections ∧
      (Unmarked digits preamble → Unmarked digits preamble') := by
  have hfront : Unmarked digits preamble → Unmarked digits (preamble.dropWhile isSpace) := by
    intro h
    rw [← List.takeWhile_append_dropWhile (p := isSpace) (l := preamble)] at h
    exact h.of_append_right
  unfold strip
  rw [dropWhile_render]
  induction sections using List.reverseRecOn with
  | nil =>
    refine ⟨strip preamble, [], ?_, ?_, .nil, fun h ↦ ?_⟩
    · simp [render, strip]
    · exact (strip_rstrip _).trans (strip_lstrip _)
    · have h := hfront h
      rw [← List.rdropWhile_append_rtakeWhile (p := isSpace) (l := preamble.dropWhile isSpace)] at h
      exact h.of_append_left
  | append_singleton sections s _ =>
    refine ⟨preamble.dropWhile isSpace, sections ++ [⟨s.page, s.body.rdropWhile isSpace⟩], ?_,
      strip_lstrip preamble, ?_, hfront⟩
    · have hmarker : (render (preamble.dropWhile isSpace) sections ++ marker s.page).rdropWhile
          isSpace = render (preamble.dropWhile isSpace) sections ++ marker s.page := by
        have hcolon : marker s.page = "[Page ".toList ++ (Nat.toDigits 10 (s.page + 1) ++ [']']) ++
            [':'] := by
          rw [List.append_assoc, List.append_assoc]
          rfl
        rw [hcolon, ← List.append_assoc, List.rdropWhile_concat_neg _ _ _ (by decide)]
      have hrender : ∀ body, render (preamble.dropWhile isSpace) (sections ++ [⟨s.page, body⟩]) =
          render (preamble.dropWhile isSpace) sections ++ marker s.page ++ body := by
        intro body
        simp [render]
      rw [hrender s.body, rdropWhile_append hmarker, hrender]
    · refine List.rel_append (List.forall₂_same.mpr fun s' _ ↦ ⟨rfl, rfl, List.prefix_refl _⟩) ?_
      exact .cons ⟨rfl, strip_rstrip s.body, List.rdropWhile_prefix _ _⟩ .nil

/-- The text of a section is a proper part of its response. -/
theorem text_infix_render (preamble : List Char) {sections : List PageSection}
    {s : PageSection} (h : s ∈ sections) : s.text <:+: render preamble sections ∧
      s.text.length < (render preamble sections).length := by
  obtain ⟨front, back, rfl⟩ := List.append_of_mem h
  have hrender : render preamble (front ++ s :: back) =
      (render preamble front ++ marker s.page) ++ s.body ++
        back.flatMap fun s ↦ marker s.page ++ s.body := by
    simp [render]
  obtain ⟨before, after, hbody, -, -⟩ := eq_append_strip s.body
  have hpart : s.text <:+: s.body := ⟨before, after, by rw [List.append_assoc]; exact hbody.symm⟩
  have hmarker : 0 < (marker s.page).length := List.length_pos_of_ne_nil (List.cons_ne_nil '[' _)
  have hlength := hpart.length_le
  rw [hrender]
  constructor
  · exact hpart.trans ⟨_, _, rfl⟩
  · simp only [List.length_append]
    omega

end Stripping

section Assigning

variable {digits : Digits}

private theorem foldl_update_of_not_mem {batch : List Nat} {f : Nat → Option (List Char)}
    {page : Nat}
    (h : page ∉ batch) (start : Nat) (d : Descriptions) :
    ((batch.zipIdx start).foldl (fun d (idx, i) ↦ Function.update d idx (f i)) d) page =
      d page := by
  induction batch generalizing start d with
  | nil => rfl
  | cons first batch ih =>
    rw [List.mem_cons, not_or] at h
    rw [List.zipIdx_cons, List.foldl_cons, ih h.2]
    exact Function.update_of_ne h.1 _ _

private theorem foldl_update_of_nodup {batch : List Nat} {f : Nat → Option (List Char)}
    (hnodup : batch.Nodup) {i page : Nat} (hi : batch[i]? = some page) (start : Nat)
    (d : Descriptions) :
    ((batch.zipIdx start).foldl (fun d (idx, i) ↦ Function.update d idx (f i)) d) page =
      f (start + i) := by
  induction batch generalizing i start d with
  | nil => cases hi
  | cons first batch ih =>
    rw [List.nodup_cons] at hnodup
    rw [List.zipIdx_cons, List.foldl_cons]
    cases i with
    | zero =>
      cases hi
      rw [foldl_update_of_not_mem hnodup.1]
      exact Function.update_self _ _ _
    | succ i =>
      rw [ih hnodup.2 hi, Nat.add_right_comm, Nat.add_assoc]

/-- Other pages keep their descriptions. -/
theorem assign_of_not_mem {batch : List Nat} {page : Nat} (h : page ∉ batch)
    (content : List Char) (d : Descriptions) :
    assignDescriptions digits batch content d page = d page :=
  foldl_update_of_not_mem
    (f := fun i ↦ some ((pageSections digits (strip content))[i]?.getD (strip content))) h 0 d

/-- A page gets the text at its position in the batch, or the whole response. -/
theorem assign_of_getElem {batch : List Nat} (hnodup : batch.Nodup) {i page : Nat}
    (hi : batch[i]? = some page) (content : List Char) (d : Descriptions) :
    assignDescriptions digits batch content d page =
      some ((pageSections digits (strip content))[i]?.getD (strip content)) := by
  have hfold := foldl_update_of_nodup
    (f := fun i ↦ some ((pageSections digits (strip content))[i]?.getD (strip content))) hnodup hi
    0 d
  rwa [Nat.zero_add] at hfold

end Assigning

namespace Response

variable {digits : Digits} {batch : List Nat} (r : Response digits batch)

/-- What is split off a response are its texts that are not blank. -/
theorem pageSections_content : pageSections digits (strip r.content) = r.pieces := by
  obtain ⟨preamble, sections, hrender, hpreamble, hsections, hunmarked⟩ :=
    strip_render digits r.preamble r.sections
  have hfree : ∀ s ∈ sections, Unmarked digits s.body := by
    intro s hs
    obtain ⟨i, hi, rfl⟩ := List.getElem_of_mem hs
    have hi' : i < r.sections.length := hsections.length_eq ▸ hi
    have hpart : sections[i].body <+: r.sections[i].body := (hsections.get hi hi').2.2
    obtain ⟨rest, hrest⟩ := hpart
    have hbody := r.unmarked.2 _ (List.getElem_mem hi')
    rw [← hrest] at hbody
    exact hbody.of_append_left
  have htexts : sections.map (·.text) = r.sections.map (·.text) := by
    apply List.ext_getElem
    · simpa using hsections.length_eq
    · intro i hi hi'
      rw [List.getElem_map, List.getElem_map]
      rw [List.length_map] at hi hi'
      exact (hsections.get hi hi').2.1
  rw [pageSections, content, hrender, splitMarkers_render (hunmarked r.unmarked.1) hfree,
    List.map_cons, hpreamble, List.map_map]
  show (strip r.preamble :: sections.map (·.text)).filter (· ≠ []) = r.pieces
  rw [htexts]
  rfl

/-- The whole response shows every section and is none of them. -/
theorem text_infix_content {s : PageSection} (h : s ∈ r.sections) :
    s.text <:+: strip r.content ∧ s.text ≠ strip r.content := by
  obtain ⟨preamble, sections, hrender, -, hsections, -⟩ :=
    strip_render digits r.preamble r.sections
  obtain ⟨i, hi, rfl⟩ := List.getElem_of_mem h
  have hi' : i < sections.length := hsections.length_eq ▸ hi
  obtain ⟨hpart, hlength⟩ := text_infix_render preamble (List.getElem_mem hi')
  have htext : sections[i].text = r.sections[i].text := (hsections.get hi' hi).2.1
  rw [htext, ← hrender] at hpart hlength
  refine ⟨hpart, fun heq ↦ ?_⟩
  rw [heq] at hlength
  exact absurd hlength (lt_irrefl _)

/-- The description of a page is that of its section. -/
theorem text?_eq {s : PageSection} (h : s ∈ r.sections) : r.text? s.page = some s.text := by
  have hfind : r.sections.find? (·.page = s.page) = some s := by
    have hnodup := r.nodup
    generalize r.sections = sections at h hnodup
    induction sections with
    | nil => cases h
    | cons first sections ih =>
      rw [List.map_cons, List.nodup_cons] at hnodup
      rcases List.mem_cons.mp h with rfl | h
      · simp
      · have hne : first.page ≠ s.page := fun heq ↦
          hnodup.1 (heq ▸ List.mem_map_of_mem h)
        rw [List.find?_cons_of_neg (by simpa using hne), ih h hnodup.2]
  rw [text?, hfind]
  rfl

private theorem text?_of_marked {page : Nat} (h : r.Marked page) :
    ∃ s ∈ r.sections, s.page = page ∧ r.text? page = some s.text := by
  obtain ⟨s, hs, rfl⟩ := List.mem_map.mp h
  exact ⟨s, hs, rfl, r.text?_eq hs⟩

/-- The description at a position of the batch. -/
theorem assign_content (hnodup : batch.Nodup) {i page : Nat} (hi : batch[i]? = some page)
    (d : Descriptions) :
    assignDescriptions digits batch r.content d page =
      some (r.pieces[i]?.getD (strip r.content)) := by
  rw [assign_of_getElem hnodup hi, pageSections_content]

private theorem piece_ne_nil {piece : List Char} (h : piece ∈ r.pieces) : piece ≠ [] := by
  simpa using (List.mem_filter.mp h).2

/-- Without blank sections the preamble is the only text that can be left out. -/
theorem pieces_eq (h : ∀ s ∈ r.sections, s.text ≠ []) :
    r.pieces = if strip r.preamble = [] then r.sections.map (·.text)
      else strip r.preamble :: r.sections.map (·.text) := by
  have htexts : (r.sections.map (·.text)).filter (· ≠ []) = r.sections.map (·.text) := by
    rw [List.filter_eq_self]
    intro text htext
    obtain ⟨s, hs, rfl⟩ := List.mem_map.mp htext
    simpa using h s hs
  unfold pieces
  split
  · next hblank =>
    rw [List.filter_cons_of_neg (by simpa using hblank), htexts]
  · next hne =>
    rw [List.filter_cons_of_pos (by simpa using hne), htexts]

/-- The texts of marked pages by position. -/
theorem filterMap_text? {pages : List Nat} (h : ∀ page ∈ pages, r.Marked page) (i : Nat) :
    (pages.filterMap r.text?)[i]? = pages[i]?.bind r.text? := by
  induction pages generalizing i with
  | nil => rfl
  | cons page pages ih =>
    obtain ⟨s, -, -, htext⟩ := r.text?_of_marked (h page List.mem_cons_self)
    rw [List.filterMap_cons_some htext]
    cases i with
    | zero => exact htext.symm
    | succ i => exact ih (fun page hpage ↦ h page (List.mem_cons_of_mem _ hpage)) i

/-- As many pages are marked as there are sections. -/
theorem length_sections {pages : List Nat} (hnodup : pages.Nodup)
    (h : ∀ page, page ∈ pages ↔ r.Marked page) : r.sections.length = pages.length := by
  have hperm : List.Perm (r.sections.map (·.page)) pages :=
    (List.perm_ext_iff_of_nodup r.nodup hnodup).mpr fun page ↦ (h page).symm
  simpa using hperm.length_eq

section Own

variable {d : Descriptions}

/-- A section that its page shows is at the position of that. -/
theorem Described.own_eq (hnodup : batch.Nodup)
    (h : r.Described (assignDescriptions digits batch r.content d)) {s : PageSection}
    (hs : s ∈ r.sections) {i : Nat} (hi : batch[i]? = some s.page) :
    r.pieces[i]? = some s.text := by
  have hown := h.own s hs
  rw [r.assign_content hnodup hi] at hown
  cases hpiece : r.pieces[i]? with
  | some piece =>
    rw [hpiece] at hown
    exact hown
  | none =>
    rw [hpiece] at hown
    exact absurd (Option.some.inj hown).symm (r.text_infix_content hs).2

private theorem Described.text_ne_nil (hnodup : batch.Nodup)
    (h : r.Described (assignDescriptions digits batch r.content d)) {s : PageSection}
    (hs : s ∈ r.sections) : s.text ≠ [] := by
  obtain ⟨i, hi⟩ := List.mem_iff_getElem?.mp (r.subset s hs)
  exact r.piece_ne_nil (List.mem_of_getElem? (h.own_eq r hnodup hs hi))

/-- A page without a section is the first, and shows the preamble. -/
theorem Described.unmarked_eq (hnodup : batch.Nodup)
    (h : r.Described (assignDescriptions digits batch r.content d)) (hsome : r.sections ≠ [])
    {i page : Nat} (hi : batch[i]? = some page) (hpage : ¬ r.Marked page) :
    i = 0 ∧ strip r.preamble ≠ [] ∧ ∀ s ∈ r.sections, ¬ s.text <:+: strip r.preamble := by
  have hforeign := h.foreign page (List.mem_of_getElem? hi) hpage _ (r.assign_content hnodup hi d)
  have hpieces := r.pieces_eq fun s hs ↦ h.text_ne_nil r hnodup hs
  cases hpiece : r.pieces[i]? with
  | none =>
    obtain ⟨s, hs⟩ := List.exists_mem_of_ne_nil _ hsome
    rw [hpiece] at hforeign
    exact absurd (r.text_infix_content hs).1 (hforeign s hs)
  | some piece =>
    rw [hpiece] at hforeign
    -- the text at a later position is that of a section
    have hlate : piece ∉ r.sections.map (·.text) := by
      intro hmem
      obtain ⟨s, hs, rfl⟩ := List.mem_map.mp hmem
      exact hforeign s hs (List.infix_refl _)
    rw [hpieces] at hpiece
    split at hpiece
    · exact absurd (List.mem_of_getElem? hpiece) hlate
    · next hne =>
      cases i with
      | zero =>
        cases hpiece
        exact ⟨rfl, hne, hforeign⟩
      | succ i =>
        rw [List.getElem?_cons_succ] at hpiece
        exact absurd (List.mem_of_getElem? hpiece) hlate

/-- A response whose descriptions are right is in place. -/
theorem Described.inPlace (hnodup : batch.Nodup)
    (h : r.Described (assignDescriptions digits batch r.content d)) : r.InPlace := by
  rcases eq_or_ne r.sections [] with hnone | hsome
  · exact .inl hnone
  · have hne : ∀ s ∈ r.sections, s.text ≠ [] := fun s hs ↦ h.text_ne_nil r hnodup hs
    have hown : ∀ {i page : Nat}, batch[i]? = some page → r.Marked page →
        r.pieces[i]? = r.text? page := by
      intro i page hi hpage
      obtain ⟨s, hs, rfl, htext⟩ := r.text?_of_marked hpage
      rw [htext, h.own_eq r hnodup hs hi]
    refine .inr ⟨hne, ?_⟩
    by_cases hall : ∀ page ∈ batch, r.Marked page
    · refine .inl ⟨hall, List.ext_getElem? fun i ↦ ?_⟩
      rw [r.filterMap_text? hall, List.getElem?_take]
      cases hi : batch[i]? with
      | none =>
        rw [if_neg (Nat.not_lt.mpr (List.getElem?_eq_none_iff.mp hi))]
        rfl
      | some page =>
        rw [if_pos (List.getElem?_eq_some_iff.mp hi).1]
        exact hown hi (hall page (List.mem_of_getElem? hi))
    · push Not at hall
      obtain ⟨first, hmem, hfirst⟩ := hall
      obtain ⟨i, hi⟩ := List.mem_iff_getElem?.mp hmem
      obtain ⟨rfl, hpreamble, hshown⟩ := h.unmarked_eq r hnodup hsome hi hfirst
      obtain ⟨rest, hbatch⟩ : ∃ rest, batch = first :: rest := by
        obtain ⟨first', rest, hbatch⟩ := List.exists_cons_of_ne_nil (List.ne_nil_of_mem hmem)
        rw [hbatch] at hi
        cases hi
        exact ⟨rest, hbatch⟩
      have hat : ∀ i, batch[i + 1]? = rest[i]? := fun i ↦ by rw [hbatch]; rfl
      have hmarked : ∀ page ∈ rest, r.Marked page := by
        intro page hpage
        obtain ⟨i, hi⟩ := List.mem_iff_getElem?.mp hpage
        by_contra hunmarked
        exact absurd (h.unmarked_eq r hnodup hsome ((hat i).trans hi) hunmarked).1 (by omega)
      have hrest : rest.Nodup := (List.nodup_cons.mp (hbatch ▸ hnodup)).2
      have hlength : r.sections.length = rest.length := by
        refine r.length_sections hrest fun page ↦ ⟨hmarked page, fun hpage ↦ ?_⟩
        obtain ⟨s, hs, rfl⟩ := List.mem_map.mp hpage
        have hsub := r.subset s hs
        rw [hbatch, List.mem_cons] at hsub
        exact hsub.resolve_left fun heq ↦ hfirst (heq ▸ hpage)
      refine .inr ⟨first, rest, hbatch, hfirst, hmarked, hpreamble, ?_, hshown⟩
      apply List.ext_getElem?
      intro i
      rw [r.filterMap_text? hmarked]
      cases hi : rest[i]? with
      | none =>
        apply List.getElem?_eq_none
        rw [List.length_map, hlength]
        exact List.getElem?_eq_none_iff.mp hi
      | some page =>
        have htext := hown ((hat i).trans hi) (hmarked page (List.mem_of_getElem? hi))
        rw [r.pieces_eq hne, if_neg hpreamble] at htext
        exact htext

end Own

/-- A response in place describes its pages. -/
theorem InPlace.described (hnodup : batch.Nodup) (h : r.InPlace) (d : Descriptions) :
    r.Described (assignDescriptions digits batch r.content d) := by
  rcases h with hnone | ⟨hne, ⟨hall, hpieces⟩ |
    ⟨first, rest, hbatch, hfirst, hmarked, hpreamble, htexts, hshown⟩⟩
  · refine ⟨fun s hs ↦ ?_, fun _ _ _ _ _ s hs ↦ ?_⟩ <;>
      exact absurd (hnone ▸ hs) List.not_mem_nil
  · refine ⟨fun s hs ↦ ?_, fun page hpage hunmarked ↦ absurd (hall page hpage) hunmarked⟩
    obtain ⟨i, hi⟩ := List.mem_iff_getElem?.mp (r.subset s hs)
    have hpiece : r.pieces[i]? = some s.text := by
      have htake := r.filterMap_text? hall i
      rw [← hpieces, List.getElem?_take, if_pos (List.getElem?_eq_some_iff.mp hi).1, hi] at htake
      exact htake.trans (r.text?_eq hs)
    rw [r.assign_content hnodup hi, hpiece]
    rfl
  · have hpieces : r.pieces = strip r.preamble :: r.sections.map (·.text) := by
      rw [r.pieces_eq hne, if_neg hpreamble]
    constructor
    · intro s hs
      have hmem := r.subset s hs
      rw [hbatch, List.mem_cons] at hmem
      have hlate := hmem.resolve_left fun heq ↦ hfirst (heq ▸ List.mem_map_of_mem hs)
      obtain ⟨i, hi⟩ := List.mem_iff_getElem?.mp hlate
      have hpiece : r.pieces[i + 1]? = some s.text := by
        rw [hpieces, List.getElem?_cons_succ, htexts, r.filterMap_text? hmarked, hi]
        exact r.text?_eq hs
      have hat : batch[i + 1]? = some s.page := by rw [hbatch, List.getElem?_cons_succ, hi]
      rw [r.assign_content hnodup hat, hpiece]
      rfl
    · intro page hpage hunmarked desc hdesc
      rw [hbatch, List.mem_cons] at hpage
      have hpage := hpage.resolve_right fun hlate ↦ hunmarked (hmarked page hlate)
      have hat : batch[0]? = some page := by rw [hbatch, hpage]; rfl
      rw [r.assign_content hnodup hat, hpieces] at hdesc
      cases hdesc
      exact hshown

end Response

section Batches

variable {digits : Digits}

theorem flatten_batches {maxPerBatch : Nat} (hmax : maxPerBatch ≠ 0) (pageIndices : List Nat) :
    (batches maxPerBatch pageIndices).flatten = pageIndices := by
  fun_induction batches maxPerBatch pageIndices with
  | case1 pageIndices h =>
    rw [h.resolve_right hmax]
    rfl
  | case2 pageIndices h ih => rw [List.flatten_cons, ih, List.take_append_drop]

private theorem describe_of_not_mem {respond : List Nat → List Char} {past : List (List Nat)}
    {page : Nat}
    (h : page ∉ past.flatten) (d : Descriptions) :
    describeBatches digits respond d past page = d page := by
  induction past generalizing d with
  | nil => rfl
  | cons batch past ih =>
    rw [List.flatten_cons, List.mem_append, not_or] at h
    rw [describeBatches, List.foldl_cons]
    exact (ih h.2 _).trans (assign_of_not_mem h.1 _ d)

/-- A batch leaves its descriptions to the end of the run. -/
theorem describe_of_mem (respond : List Nat → List Char) {past : List (List Nat)}
    (hnodup : past.flatten.Nodup) {batch : List Nat} (hbatch : batch ∈ past) (d : Descriptions) :
    ∃ before, ∀ page ∈ batch, describeBatches digits respond d past page =
      assignDescriptions digits batch (respond batch) before page := by
  induction past generalizing d with
  | nil => cases hbatch
  | cons first past ih =>
    rw [List.flatten_cons, List.nodup_append] at hnodup
    obtain ⟨-, hlater, hdisjoint⟩ := hnodup
    rcases List.mem_cons.mp hbatch with rfl | hmem
    · exact ⟨d, fun page hpage ↦
        describe_of_not_mem (fun hmem ↦ hdisjoint page hpage page hmem rfl) _⟩
    · exact ih hlater hmem _

/-- Whether pages are described depends on their descriptions only. -/
theorem Response.described_congr {batch : List Nat} (r : Response digits batch)
    {d d' : Descriptions} (h : ∀ page ∈ batch, d page = d' page) :
    r.Described d ↔ r.Described d' := by
  suffices hright : ∀ {d d' : Descriptions}, (∀ page ∈ batch, d page = d' page) →
      r.Described d → r.Described d' from
    ⟨hright h, hright fun page hpage ↦ (h page hpage).symm⟩
  intro d d' h hd
  refine ⟨fun s hs ↦ ?_, fun page hpage hunmarked desc hdesc ↦ ?_⟩
  · rw [← h s.page (r.subset s hs)]
    exact hd.own s hs
  · rw [← h page hpage] at hdesc
    exact hd.foreign page hpage hunmarked desc hdesc

end Batches

private theorem nodup_sparsePages (perPageText : List (List Char)) (threshold : Nat) :
    (sparsePages perPageText threshold).Nodup := List.nodup_range.filter _

/-- The descriptions are those of a run over the batches. -/
theorem describeImagesViaLlm_eq_ok {digits : Digits} {respond : List Nat → List Char}
    {maxPerBatch : Nat} {pageIndices : List Nat} {descriptions : Descriptions}
    (h : describeImagesViaLlm digits respond maxPerBatch pageIndices = .ok descriptions) :
    maxPerBatch ≠ 0 ∧ descriptions =
      describeBatches digits respond (fun _ ↦ none) (batches maxPerBatch pageIndices) := by
  unfold describeImagesViaLlm at h
  split at h
  · cases h
  · next hmax => exact ⟨hmax, (Except.ok.inj h).symm⟩

private theorem raises_describeImagesViaLlm (digits : Digits) (respond : List Nat → List Char)
    (maxPerBatch : Nat) (pageIndices : List Nat) :
    Raises (describeImagesViaLlm digits respond maxPerBatch pageIndices) ↔ maxPerBatch = 0 := by
  unfold describeImagesViaLlm
  split
  · next hmax => exact ⟨fun _ ↦ hmax, fun _ ↦ ⟨_, rfl⟩⟩
  · next hmax => exact ⟨fun ⟨_, h⟩ ↦ (nomatch h), fun h ↦ absurd h hmax⟩

/-- What a page shows: its text and behind that its description. -/
def shown (text : List Char) : Option (List Char) → List Char
  | some desc => (if strip text = [] then [] else strip text ++ ['\n', '\n']) ++
      ("[Visual content]: ".toList ++ desc)
  | none => text

/-- The merged document shows the descriptions of the pages, each on its own. -/
theorem merge_describe {perPageText : List (List Char)} {descriptions : Descriptions}
    {sparse : List Nat} (hdense : ∀ page, page ∉ sparse → descriptions page = none) :
    mergeTextAndDescriptions perPageText descriptions sparse =
      ['\n', '\n'].intercalate (perPageText.mapIdx fun i text ↦ shown text (descriptions i)) := by
  have hpage : mergePage descriptions sparse = fun i text ↦ shown text (descriptions i) := by
    funext i text
    unfold mergePage
    cases hdesc : descriptions i with
    | none => rfl
    | some desc =>
      have hsparse : i ∈ sparse := by
        by_contra hnot
        rw [hdense i hnot] at hdesc
        cases hdesc
      dsimp only [shown]
      rw [if_pos hsparse]
      split <;> simp
  rw [mergeTextAndDescriptions, hpage]

/-- Only a batch size of zero raises. The pages of every batch show what is written for them, and
no page shows what is written for another, exactly if every response stands in place. -/
theorem descriptions_in_place (digits : Digits) (perPageText : List (List Char))
    (threshold maxPerBatch : Nat) (responses : ∀ batch, Response digits batch) :
    let sparse := sparsePages perPageText threshold
    let result :=
      describeImagesViaLlm digits (fun batch ↦ (responses batch).content) maxPerBatch sparse
    (Raises result ↔ maxPerBatch = 0) ∧ ∀ descriptions, result = .ok descriptions →
      mergeTextAndDescriptions perPageText descriptions sparse =
          ['\n', '\n'].intercalate
            (perPageText.mapIdx fun i text ↦ shown text (descriptions i)) ∧
        ((∀ batch ∈ batches maxPerBatch sparse, (responses batch).Described descriptions) ↔
          ∀ batch ∈ batches maxPerBatch sparse, (responses batch).InPlace) := by
  intro sparse result
  refine ⟨raises_describeImagesViaLlm _ _ _ _, fun descriptions hresult ↦ ?_⟩
  obtain ⟨hmax, rfl⟩ := describeImagesViaLlm_eq_ok hresult
  have hflatten := flatten_batches hmax sparse
  have hnodup : (batches maxPerBatch sparse).flatten.Nodup := by
    rw [hflatten]
    exact nodup_sparsePages perPageText threshold
  refine ⟨merge_describe fun page hpage ↦ ?_, forall₂_congr fun batch hbatch ↦ ?_⟩
  · exact describe_of_not_mem (by rwa [hflatten]) _
  · obtain ⟨before, hbefore⟩ :=
      describe_of_mem (fun batch ↦ (responses batch).content) hnodup hbatch fun _ ↦ none
    have hbatch := hnodup.sublist (List.sublist_flatten_of_mem hbatch)
    have hcongr := Response.described_congr (responses batch) hbefore
    exact hcongr.trans ⟨fun h ↦ h.inPlace _ hbatch, fun h ↦ h.described _ hbatch before⟩

/-! ### Sections out of order -/

section Swapped

/-- The digits of ASCII. -/
def asciiDigits : Digits := ⟨Char.isDigit, fun _ h ↦ h, rfl, rfl⟩

private theorem unmarked_of_not_mem {digits : Digits} {s : List Char} (h : '[' ∉ s) :
    Unmarked digits s := by
  rintro t u rfl
  rw [Option.eq_none_iff_forall_ne_some]
  intro rest hmatch
  obtain ⟨m, ⟨number, -, -, rfl⟩, rfl⟩ := matchMarker_eq_some_iff.mp hmatch
  exact h (List.mem_append_right _ List.mem_cons_self)

/-- No section at all. -/
def Response.silent (digits : Digits) (batch : List Nat) : Response digits batch where
  preamble := []
  sections := []
  nodup := List.nodup_nil
  subset := fun _ h ↦ absurd h List.not_mem_nil
  unmarked := ⟨unmarked_of_not_mem List.not_mem_nil, fun _ h ↦ absurd h List.not_mem_nil⟩

/-- The second page is described before the first. -/
def Response.swapped : Response asciiDigits [0, 1] where
  preamble := []
  sections := [⟨1, "two ".toList⟩, ⟨0, "one".toList⟩]
  nodup := by decide
  subset := by simp
  unmarked := by
    refine ⟨unmarked_of_not_mem (by decide), fun s hs ↦ unmarked_of_not_mem ?_⟩
    rcases List.mem_cons.mp hs with rfl | hs
    · decide
    · cases List.mem_singleton.mp hs
      decide

private theorem Response.swapped_not_inPlace : ¬ Response.swapped.InPlace := by
  rintro (hnone | ⟨-, ⟨-, hpieces⟩ | ⟨first, rest, hbatch, hfirst, -⟩⟩)
  · cases hnone
  · exact absurd hpieces (by decide)
  · cases hbatch
    exact hfirst (by simp [Response.Marked, Response.swapped])

theorem descriptions_swapped : ¬ ∀ (digits : Digits) (perPageText : List (List Char))
    (threshold maxPerBatch : Nat) (responses : ∀ batch, Response digits batch) descriptions,
    describeImagesViaLlm digits (fun batch ↦ (responses batch).content) maxPerBatch
      (sparsePages perPageText threshold) = .ok descriptions →
    ∀ batch ∈ batches maxPerBatch (sparsePages perPageText threshold),
      (responses batch).Described descriptions := by
  intro h
  have hsparse : sparsePages [[], []] 1 = [0, 1] := by decide
  have hbatches : batches 2 [0, 1] = [[0, 1]] := by simp [batches]
  have hswapped := h asciiDigits [[], []] 1 2
    (Function.update (Response.silent asciiDigits) [0, 1] Response.swapped) _ rfl [0, 1]
    (by rw [hsparse, hbatches]; exact List.mem_singleton_self _)
  rw [hsparse, describeBatches, hbatches, List.foldl_cons, Function.update_self] at hswapped
  exact Response.swapped_not_inPlace (hswapped.inPlace _ (by decide))

end Swapped

end WikiMind.Ingest
