import WikiMind.Base.Utf8
import WikiMind.Ingest.Spans

/-!
# The byte ranges of spans

`extract_text_spans` (`ingest/spans.py:85`) looks for each paragraph in the bytes of the text,
from the end of the one before on. A paragraph does not begin with white space and only white
space precedes it, so what is found first is the paragraph itself.
-/

namespace WikiMind.Ingest.Spans

open WikiMind.Base

/-- Paragraphs in a text: they begin with no white space, and before, between and behind them is
nothing else. -/
inductive Laid : List Char → List (List Char) → Prop where
  | blank {text : List Char} : (∀ c ∈ text, isSpace c = true) → Laid text []
  | para {gap para rest : List Char} {c : Char} {paras : List (List Char)} :
      (∀ g ∈ gap, isSpace g = true) → isSpace c = false → Laid rest paras →
      Laid (gap ++ (c :: para ++ rest)) ((c :: para) :: paras)

section Layout

/-- White space before a text changes nothing. -/
theorem Laid.space {text : List Char} {paras : List (List Char)} (h : Laid text paras)
    {gap : List Char} (hgap : ∀ c ∈ gap, isSpace c = true) : Laid (gap ++ text) paras := by
  have happend : ∀ {before : List Char}, (∀ c ∈ before, isSpace c = true) →
      ∀ c ∈ gap ++ before, isSpace c = true := by
    intro before hbefore c hc
    exact (List.mem_append.mp hc).elim (hgap c) (hbefore c)
  cases h with
  | blank htext => exact .blank (happend htext)
  | para hbefore hc hrest =>
    rw [← List.append_assoc]
    exact .para (happend hbefore) hc hrest

/-- A piece in front of a text adds its stripped form, if that is not empty. -/
theorem Laid.piece {text : List Char} {paras : List (List Char)} (h : Laid text paras)
    (s : List Char) : Laid (s ++ text) (([strip s].filter (· ≠ [])) ++ paras) := by
  obtain ⟨before, after, hs, hbefore, hafter⟩ := eq_append_strip s
  cases hstrip : strip s with
  | nil =>
    rw [hs, hstrip, List.nil_append, List.append_assoc]
    simpa using (h.space hafter).space hbefore
  | cons c para =>
    rw [hs, hstrip, List.append_assoc, List.append_assoc]
    simpa using Laid.para hbefore (head_strip hstrip) (h.space hafter)

/-- The pieces of a text, stripped and without the blank ones, lie in it. -/
theorem laid_splitParagraphs (current text : List Char) (separated : Bool)
    (h : separated = true → current = []) :
    Laid (current ++ text)
      (((splitParagraphs current separated text).map strip).filter (· ≠ [])) := by
  have hnewline : ∀ c ∈ ['\n'], isSpace c = true := List.forall_mem_singleton.mpr rfl
  induction current, separated, text using splitParagraphs.induct with
  | case1 current separated =>
    rw [splitParagraphs]
    simpa using Laid.piece (.blank (by simp) : Laid [] []) current
  | case2 current rest ih =>
    rw [splitParagraphs, if_pos rfl, h rfl]
    rw [h rfl] at ih
    exact (ih fun _ ↦ rfl).space hnewline
  | case3 current c rest hne ih =>
    rw [splitParagraphs, if_neg hne, h rfl]
    exact ih fun htrue ↦ by cases htrue
  | case4 current c rest hsplit ih =>
    rw [splitParagraphs, if_pos hsplit, hsplit.1]
    have hpiece := ((ih fun _ ↦ rfl).space hnewline).piece current
    rwa [← List.filter_append, ← List.map_singleton (f := strip), ← List.map_append] at hpiece
  | case5 current c rest hne ih =>
    rw [splitParagraphs, if_neg hne]
    have hrest := ih fun htrue ↦ by cases htrue
    rwa [List.append_assoc] at hrest

private theorem laid_paragraphs (text : List Char) : Laid text (paragraphs text) :=
  laid_splitParagraphs [] text false fun _ ↦ rfl

end Layout

section Search

private theorem utf8_eq_encode (s : List Char) : utf8 s = encode s := toUTF8_toList s

/-- The place at which bytes are found is the first one. -/
theorem findBytes_eq_some {t s : List UInt8} {i : Nat} (hi : i ≤ s.length) (ht : t <+: s.drop i)
    (hfirst : ∀ j < i, ¬ t <+: s.drop j) : findBytes t s = some i := by
  induction s generalizing i with
  | nil =>
    rw [List.length_nil, Nat.le_zero] at hi
    rw [hi, List.drop_nil, List.prefix_nil] at ht
    rw [findBytes, if_pos ht, hi]
  | cons b s ih =>
    rw [findBytes]
    cases i with
    | zero =>
      rw [List.drop_zero] at ht
      rw [if_pos (List.isPrefixOf_iff_prefix.mpr ht)]
    | succ i =>
      have hhead := hfirst 0 (Nat.zero_lt_succ i)
      rw [List.drop_zero, ← List.isPrefixOf_iff_prefix] at hhead
      rw [if_neg hhead, ih (Nat.le_of_succ_le_succ hi) ht
        fun j hj ↦ hfirst (j + 1) (Nat.succ_lt_succ hj)]
      rfl

/-- A paragraph is found behind the white space before it. -/
theorem findBytes_para {gap para rest : List Char} {c : Char}
    (hgap : ∀ g ∈ gap, isSpace g = true) (hc : isSpace c = false) :
    findBytes (utf8 (c :: para)) (utf8 (gap ++ (c :: para ++ rest))) =
      some (utf8 gap).length := by
  have hmem : c ∉ gap := by
    intro hmem
    rw [hgap c hmem] at hc
    cases hc
  simp only [utf8_eq_encode, encode_append]
  refine findBytes_eq_some (by simp) ?_ ?_
  · rw [List.drop_left]
    exact List.prefix_append _ _
  · intro j hj
    rw [encode_cons]
    exact not_encoded_of_not_mem hmem hj _ _

end Search

section Ranges

/-- The bytes of a text from a place up to another one. -/
def bytesIn (text : List Char) (start stop : Nat) : List UInt8 :=
  ((utf8 text).take stop).drop start

/-- The bytes of white space. -/
def BlankBytes (bytes : List UInt8) : Prop :=
  ∃ gap : List Char, (∀ c ∈ gap, isSpace c = true) ∧ bytes = utf8 gap

/-- Ranges of a text from a place on, with the paragraphs in them. -/
inductive Ranged (text : List Char) : Nat → List (Nat × Nat) → List (List Char) → Prop where
  | nil {start : Nat} : start ≤ (utf8 text).length →
      BlankBytes (bytesIn text start (utf8 text).length) → Ranged text start [] []
  | cons {start i j : Nat} {para : List Char} {ranges : List (Nat × Nat)}
      {paras : List (List Char)} : start ≤ i → i < j → BlankBytes (bytesIn text start i) →
      bytesIn text i j = utf8 para → Ranged text j ranges paras →
      Ranged text start ((i, j) :: ranges) (para :: paras)

private theorem bytesIn_append (before s after : List Char) :
    bytesIn (before ++ (s ++ after)) (utf8 before).length
      ((utf8 before).length + (utf8 s).length) = utf8 s := by
  simp only [bytesIn, utf8_eq_encode, encode_append]
  rw [← List.append_assoc, ← List.length_append, List.take_left, List.drop_left]

/-- The places of paragraphs that lie in a text are the ranges of their bytes. -/
theorem Laid.textPlaces {rest : List Char} {paras : List (List Char)} (h : Laid rest paras)
    (before : List Char) :
    ∃ ranges, Ranged (before ++ rest) (utf8 before).length ranges paras ∧
      textPlaces (utf8 (before ++ rest)) (utf8 before).length paras =
        List.zipWith (fun r para ↦ (.textByteRange r.1 r.2, para)) ranges paras := by
  induction h generalizing before with
  | @blank rest hblank =>
    refine ⟨[], .nil (by simp [utf8_eq_encode]) ⟨rest, hblank, ?_⟩, rfl⟩
    have hlength : (utf8 (before ++ rest)).length =
        (utf8 before).length + (utf8 rest).length := by
      simp [utf8_eq_encode]
    have hbytes := bytesIn_append before rest []
    rwa [List.append_nil, ← hlength] at hbytes
  | @para gap para rest c paras hgap hc hrest ih =>
    obtain ⟨ranges, hranged, hplaces⟩ := ih (before ++ gap ++ (c :: para))
    have htext : before ++ gap ++ (c :: para) ++ rest =
        before ++ (gap ++ (c :: para ++ rest)) := by
      simp only [List.append_assoc]
    have hstart : (utf8 (before ++ gap)).length = (utf8 before).length + (utf8 gap).length := by
      simp [utf8_eq_encode]
    have hstop : (utf8 (before ++ gap ++ (c :: para))).length =
        (utf8 before).length + (utf8 gap).length + (utf8 (c :: para)).length := by
      simp only [utf8_eq_encode, encode_append, List.length_append]
    rw [htext, hstop] at hranged hplaces
    have hdrop : (utf8 (before ++ (gap ++ (c :: para ++ rest)))).drop (utf8 before).length =
        utf8 (gap ++ (c :: para ++ rest)) := by
      simp only [utf8_eq_encode]
      rw [encode_append, List.drop_left]
    refine ⟨((utf8 before).length + (utf8 gap).length,
      (utf8 before).length + (utf8 gap).length + (utf8 (c :: para)).length) :: ranges, ?_, ?_⟩
    · refine .cons (Nat.le_add_right _ _) ?_ ⟨gap, hgap, bytesIn_append _ _ _⟩ ?_ hranged
      · have hne : utf8 (c :: para) ≠ [] := by
          rw [utf8_eq_encode, ne_eq, encode_eq_nil_iff]
          exact List.cons_ne_nil _ _
        have hpos := List.length_pos_of_ne_nil hne
        omega
      · rw [← hstart, ← List.append_assoc]
        exact bytesIn_append _ _ _
    · rw [Spans.textPlaces, hdrop, findBytes_para hgap hc, List.zipWith_cons_cons, ← hplaces]

variable {text : List Char} {start : Nat} {ranges : List (Nat × Nat)} {paras : List (List Char)}

/-- Ranges contain the bytes of their paragraphs. -/
theorem Ranged.bytes (h : Ranged text start ranges paras) :
    List.Forall₂ (fun r para ↦ r.1 < r.2 ∧ bytesIn text r.1 r.2 = utf8 para) ranges paras := by
  induction h with
  | nil => exact .nil
  | cons _ hlt _ hbytes _ ih => exact .cons ⟨hlt, hbytes⟩ ih

/-- Ranges follow each other from the start to the end of the text. -/
theorem Ranged.pairwise (h : Ranged text start ranges paras) (first : Nat) :
    ((first, start) :: ranges ++ [((utf8 text).length, (utf8 text).length)]).Pairwise
      fun r r' ↦ r.2 ≤ r'.1 := by
  have hstart : ∀ {start ranges paras}, Ranged text start ranges paras →
      ∀ r ∈ ranges ++ [((utf8 text).length, (utf8 text).length)], start ≤ r.1 := by
    intro start ranges paras h
    induction h with
    | nil hle _ => simpa using hle
    | cons hle hlt _ _ _ ih =>
      intro r hr
      rcases List.mem_cons.mp hr with rfl | hr
      · exact hle
      · exact (hle.trans hlt.le).trans (ih r hr)
  induction h generalizing first with
  | nil hle _ => simpa using hle
  | cons hle hlt _ _ hrest ih =>
    exact List.pairwise_cons.mpr ⟨hstart (.cons hle hlt ‹_› ‹_› hrest), ih _⟩

/-- Between them is white space. -/
theorem Ranged.isChain (h : Ranged text start ranges paras) (first : Nat) :
    ((first, start) :: ranges ++ [((utf8 text).length, (utf8 text).length)]).IsChain
      fun r r' ↦ BlankBytes (bytesIn text r.2 r'.1) := by
  induction h generalizing first with
  | nil _ hblank => simpa using hblank
  | cons _ _ hblank _ _ ih => exact List.isChain_cons_cons.mpr ⟨hblank, ih _⟩

theorem Ranged.length_eq (h : Ranged text start ranges paras) : ranges.length = paras.length :=
  h.bytes.length_eq

end Ranges

/-- The spans of a text are its paragraphs with the ranges of their bytes, one behind the other
and with nothing but white space around them. -/
theorem textSpans_ranges (env : Env) (text : List Char) (sourceId userId : String) (next : Nat) :
    ((Document.text text).spans env sourceId userId next).map (·.text) = paragraphs text ∧
      ∃ ranges : List (Nat × Nat),
        ((Document.text text).spans env sourceId userId next).map (·.locator) =
            ranges.map (fun r ↦ .textByteRange r.1 r.2) ∧
          List.Forall₂ (fun r para ↦ r.1 < r.2 ∧ bytesIn text r.1 r.2 = utf8 para) ranges
            (paragraphs text) ∧
          ((0, 0) :: ranges ++ [((utf8 text).length, (utf8 text).length)]).Pairwise
            (fun r r' ↦ r.2 ≤ r'.1) ∧
          ((0, 0) :: ranges ++ [((utf8 text).length, (utf8 text).length)]).IsChain
            (fun r r' ↦ BlankBytes (bytesIn text r.2 r'.1)) := by
  obtain ⟨ranges, hranged, hplaces⟩ := (laid_paragraphs text).textPlaces []
  have hzero : (utf8 []).length = 0 := by simp [utf8_eq_encode]
  rw [List.nil_append, hzero] at hranged hplaces
  have hlength := hranged.length_eq
  have hspans : (Document.text text).places =
      List.zipWith (fun r para ↦ (.textByteRange r.1 r.2, para)) ranges (paragraphs text) :=
    hplaces
  constructor
  · have htexts : ((Document.text text).spans env sourceId userId next).map (·.text) =
        (Document.text text).places.map (·.2) := by
      apply List.ext_getElem <;> simp [Document.spans]
    rw [htexts, hspans]
    apply List.ext_getElem <;> simp [hlength]
  · refine ⟨ranges, ?_, hranged.bytes, hranged.pairwise 0, hranged.isChain 0⟩
    have hlocators : ((Document.text text).spans env sourceId userId next).map (·.locator) =
        (Document.text text).places.map (·.1) := by
      apply List.ext_getElem <;> simp [Document.spans]
    rw [hlocators, hspans]
    apply List.ext_getElem <;> simp [hlength]

end WikiMind.Ingest.Spans
