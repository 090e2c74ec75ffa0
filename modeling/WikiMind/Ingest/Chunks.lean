import Mathlib.Data.List.Basic
import WikiMind.Base.Text

/-!
# Chunks of a document

`chunk_text` (`ingest/utils.py:227`): a text is split at its headings; what is too long is
split again at paragraphs, and a paragraph that is too long into windows that end at a space.
The chunks are numbered in order and none is longer than the limit.
-/

namespace WikiMind.Ingest

open WikiMind.Base

/-- `s.encode("utf-8")`. -/
def utf8 (s : List Char) : List UInt8 := (String.ofList s).toUTF8.toList

/-- A `max_chunk_tokens`; with none a window would be empty and the loop over them endless. -/
structure Limit where
  tokens : Nat
  pos : 0 < tokens

/-- The default of `max_chunk_tokens`. -/
def maxChunkTokens : Limit := ⟨4000, by decide⟩

/-- `estimate_tokens`: `ingest/utils.py:92`. -/
def estimateTokens (text : List Char) : Nat := text.length / 4

/-- `re.match(r"(#{1,3}) (.+)", s)`: the level and the text of a heading. -/
def matchHeading (s : List Char) : Option (Nat × List Char) :=
  let level := min 3 (s.takeWhile (· = '#')).length
  match s.drop level with
  | ' ' :: c :: rest =>
    if level = 0 ∨ c = '\n' then none else some (level, (c :: rest).takeWhile (· ≠ '\n'))
  | _ => none

/-- `re.split(r"(#{1,3} .+)", s)`: the text between headings and the headings in turn. The first
argument is the text since the last heading, the second says how much of a heading is left. -/
def splitHeadings : List Char → Nat → List Char → List (List Char)
  | current, _, [] => [current]
  | current, n + 1, c :: rest =>
    if n = 0 then (current ++ [c]) :: splitHeadings [] 0 rest
    else splitHeadings (current ++ [c]) n rest
  | current, 0, c :: rest =>
    match matchHeading (c :: rest) with
    | some (level, title) => current :: splitHeadings [c] (level + title.length) rest
    | none => splitHeadings (current ++ [c]) 0 rest

/-- `re.split(r"\n\n+", s)`; the second argument says that a separator has been read. -/
def splitParagraphs : List Char → Bool → List Char → List (List Char)
  | current, _, [] => [current]
  | current, true, c :: rest =>
    if c = '\n' then splitParagraphs current true rest else splitParagraphs [c] false rest
  | current, false, c :: rest =>
    if c = '\n' ∧ rest.head? = some '\n' then current :: splitParagraphs [] true rest
    else splitParagraphs (current ++ [c]) false rest

/-- `s.rfind(" ")`. -/
def lastSpace (s : List Char) : Option Nat := (s.reverse.idxOf? ' ').map (s.length - 1 - ·)

/-- Where the first window of a text ends: at a space behind its start if there is one. -/
def windowEnd (limit : Limit) (text : List Char) : Nat :=
  let maxChars := limit.tokens * 4
  if text.length ≤ maxChars then text.length
  else
    match lastSpace (text.take maxChars) with
    | some (i + 1) => i + 1
    | _ => maxChars

private theorem windowEnd_pos (limit : Limit) {text : List Char} (h : text ≠ []) :
    0 < windowEnd limit text := by
  have hlength := List.length_pos_of_ne_nil h
  have hpos := limit.pos
  unfold windowEnd
  dsimp only
  split
  · exact hlength
  · split <;> omega

/-- What is left behind the first window. -/
def behindWindow (limit : Limit) (text : List Char) : List Char :=
  (text.drop (windowEnd limit text)).dropWhile (· = ' ')

/-- Every window takes a character. -/
theorem length_behindWindow_lt (limit : Limit) {text : List Char} (h : text ≠ []) :
    (behindWindow limit text).length < text.length := by
  have hpos := windowEnd_pos limit h
  have hlength := List.length_pos_of_ne_nil h
  have hle := (List.dropWhile_suffix (l := text.drop (windowEnd limit text)) (· = ' ')).length_le
  rw [List.length_drop] at hle
  unfold behindWindow
  omega

/-- A chunk: `models/dto/ingest.py:19`. Its id is new each time and never read. -/
structure DocumentChunk where
  documentId : String
  content : List Char
  headingPath : List (List Char)
  tokenCount : Nat
  chunkIndex : Nat
  deriving DecidableEq, Repr

/-- A chunk with the estimate of its content. -/
def chunk (docId : String) (headingPath : List (List Char)) (content : List Char)
    (chunkIndex : Nat) : DocumentChunk :=
  ⟨docId, content, headingPath, estimateTokens content, chunkIndex⟩

/-- `_split_by_token_window`: `ingest/utils.py:169`. -/
def splitByTokenWindow (limit : Limit) (docId : String) (headingPath : List (List Char))
    (text : List Char) (chunkIndex : Nat) : List DocumentChunk :=
  if _h : text = [] then []
  else
    let content := strip (text.take (windowEnd limit text))
    if content = [] then
      splitByTokenWindow limit docId headingPath (behindWindow limit text) chunkIndex
    else
      chunk docId headingPath content chunkIndex ::
        splitByTokenWindow limit docId headingPath (behindWindow limit text) (chunkIndex + 1)
termination_by text.length
decreasing_by all_goals exact length_behindWindow_lt limit _h

/-- `"\n\n".join(parts).strip()`. -/
def joinParagraphs (parts : List (List Char)) : List Char :=
  strip (['\n', '\n'].intercalate parts)

/-- The state of the loop over the paragraphs. -/
structure Paragraphs where
  chunks : List DocumentChunk
  currentParts : List (List Char)
  chunkIndex : Nat

/-- Flush the accumulated paragraphs: `ingest/utils.py:131–145`. -/
def Paragraphs.flush (limit : Limit) (docId : String) (headingPath : List (List Char))
    (s : Paragraphs) : Paragraphs :=
  let content := joinParagraphs s.currentParts
  if limit.tokens < estimateTokens content then
    let sub := splitByTokenWindow limit docId headingPath content s.chunkIndex
    { s with chunks := s.chunks ++ sub, chunkIndex := s.chunkIndex + sub.length }
  else
    { s with
      chunks := s.chunks ++ [chunk docId headingPath content s.chunkIndex]
      chunkIndex := s.chunkIndex + 1 }

/-- The loop's body over the paragraphs: `ingest/utils.py:125–148`. -/
def Paragraphs.add (limit : Limit) (docId : String) (headingPath : List (List Char))
    (s : Paragraphs) (para : List Char) : Paragraphs :=
  if limit.tokens < estimateTokens (joinParagraphs (s.currentParts ++ [para])) ∧
      s.currentParts ≠ [] then
    { s.flush limit docId headingPath with currentParts := [para] }
  else { s with currentParts := s.currentParts ++ [para] }

/-- `_split_by_paragraphs`: `ingest/utils.py:97`. -/
def splitByParagraphs (limit : Limit) (docId : String) (headingPath : List (List Char))
    (text : List Char) (startIndex : Nat) : List DocumentChunk :=
  let s := (splitParagraphs [] false text).foldl (Paragraphs.add limit docId headingPath)
    ⟨[], [], startIndex⟩
  if s.currentParts = [] ∨ joinParagraphs s.currentParts = [] then s.chunks
  else (s.flush limit docId headingPath).chunks

/-- The state of the loop over the sections. -/
structure Sections where
  chunks : List DocumentChunk
  currentHeadings : List (List Char)
  currentContent : List (List Char)
  chunkIndex : Nat

/-- `"\n".join(current_content).strip()`. -/
def Sections.content (s : Sections) : List Char := strip (['\n'].intercalate s.currentContent)

/-- A section is a heading or content: `ingest/utils.py:252–260`. -/
def Sections.read (s : Sections) (text : List Char) : Sections :=
  match matchHeading text with
  | some (level, title) =>
    { s with currentHeadings := s.currentHeadings.take (level - 1) ++ [strip title] }
  | none => { s with currentContent := s.currentContent ++ [text] }

/-- The loop's body over the sections: `ingest/utils.py:251–275`. -/
def Sections.add (limit : Limit) (docId : String) (s : Sections) (text : List Char) : Sections :=
  let s := s.read text
  if limit.tokens ≤ estimateTokens s.content ∧ s.content ≠ [] then
    { s with
      chunks := s.chunks ++ [chunk docId s.currentHeadings s.content s.chunkIndex]
      currentContent := []
      chunkIndex := s.chunkIndex + 1 }
  else s

/-- The first pass: `ingest/utils.py:242–299`. -/
def splitByHeadings (limit : Limit) (docId : String) (text : List Char) : List DocumentChunk :=
  let s := (splitHeadings [] 0 text).foldl (Sections.add limit docId) ⟨[], [], [], 0⟩
  let chunks := if s.content = [] then s.chunks
    else s.chunks ++ [chunk docId s.currentHeadings s.content s.chunkIndex]
  if chunks = [] then [chunk docId [] text 0] else chunks

/-- The loop's body of the second pass: `ingest/utils.py:308–315`. -/
def resplit (limit : Limit) (docId : String) (s : List DocumentChunk × Nat)
    (c : DocumentChunk) : List DocumentChunk × Nat :=
  if limit.tokens < c.tokenCount then
    let sub := splitByParagraphs limit docId c.headingPath c.content s.2
    (s.1 ++ sub, s.2 + sub.length)
  else (s.1 ++ [{ c with chunkIndex := s.2 }], s.2 + 1)

/-- `chunk_text`: `ingest/utils.py:227`. -/
def chunkText (text : List Char) (docId : String) (limit : Limit := maxChunkTokens) :
    List DocumentChunk :=
  let chunks := splitByHeadings limit docId text
  if chunks.any fun c ↦ limit.tokens < c.tokenCount then
    (chunks.foldl (resplit limit docId) ([], 0)).1
  else chunks

/-- Chunks with the estimates of their contents, numbered from `n` on. -/
structure Counted (n : Nat) (chunks : List DocumentChunk) : Prop where
  count : ∀ c ∈ chunks, c.tokenCount = estimateTokens c.content
  index : chunks.map (·.chunkIndex) = List.range' n chunks.length

/-- Chunks within the limit. -/
def Within (limit : Limit) (chunks : List DocumentChunk) : Prop :=
  ∀ c ∈ chunks, estimateTokens c.content ≤ limit.tokens

section Counting

variable {limit : Limit} {docId : String} {headingPath : List (List Char)} {text : List Char}
  {n : Nat}

private theorem counted_nil : Counted n [] := ⟨by simp, rfl⟩

private theorem counted_chunk (content : List Char) :
    Counted n [chunk docId headingPath content n] := ⟨by simp [chunk], rfl⟩

theorem Counted.append {a b : List DocumentChunk} (ha : Counted n a)
    (hb : Counted (n + a.length) b) : Counted n (a ++ b) where
  count := fun c hc ↦ (List.mem_append.mp hc).elim (ha.count c) (hb.count c)
  index := by
    rw [List.map_append, ha.index, hb.index, List.length_append, List.range'_append_1]

private theorem within_nil : Within limit [] := by simp [Within]

private theorem within_append {a b : List DocumentChunk} :
    Within limit (a ++ b) ↔ Within limit a ∧ Within limit b := List.forall_mem_append

private theorem within_chunk {content : List Char} {path : List (List Char)} :
    Within limit [chunk docId path content n] ↔ estimateTokens content ≤ limit.tokens := by
  simp [Within, chunk]

private theorem length_strip_le (s : List Char) : (strip s).length ≤ s.length := by
  unfold strip
  exact ((List.rdropWhile_prefix _ _).length_le).trans (List.dropWhile_suffix _).length_le

private theorem windowEnd_le (limit : Limit) (text : List Char) :
    windowEnd limit text ≤ limit.tokens * 4 := by
  unfold windowEnd
  dsimp only
  split
  · assumption
  split
  · next i hspace =>
    obtain ⟨k, -, hi⟩ := Option.map_eq_some_iff.mp hspace
    have hlength := List.length_take_le (limit.tokens * 4) text
    omega
  · exact Nat.le_refl _

/-- A window is not too long. -/
theorem estimateTokens_window (limit : Limit) (text : List Char) :
    estimateTokens (strip (text.take (windowEnd limit text))) ≤ limit.tokens := by
  have hstrip := length_strip_le (text.take (windowEnd limit text))
  have htake := List.length_take_le (windowEnd limit text) text
  have hend := windowEnd_le limit text
  unfold estimateTokens
  omega

private theorem splitByTokenWindow_counted :
    Counted n (splitByTokenWindow limit docId headingPath text n) := by
  induction text, n using splitByTokenWindow.induct limit with
  | case1 n =>
    rw [splitByTokenWindow, dif_pos rfl]
    exact counted_nil
  | case2 text n hne content hempty ih =>
    rw [splitByTokenWindow, dif_neg hne, if_pos hempty]
    exact ih
  | case3 text n hne content hfull ih =>
    rw [splitByTokenWindow, dif_neg hne, if_neg hfull]
    exact (counted_chunk content).append ih

private theorem splitByTokenWindow_within :
    Within limit (splitByTokenWindow limit docId headingPath text n) := by
  induction text, n using splitByTokenWindow.induct limit with
  | case1 n =>
    rw [splitByTokenWindow, dif_pos rfl]
    exact within_nil
  | case2 text n hne content hempty ih =>
    rw [splitByTokenWindow, dif_neg hne, if_pos hempty]
    exact ih
  | case3 text n hne content hfull ih =>
    rw [splitByTokenWindow, dif_neg hne, if_neg hfull]
    exact List.forall_mem_cons.mpr ⟨estimateTokens_window limit text, ih⟩

/-- The invariant of the loop over paragraphs: the next index is the one behind the chunks. -/
structure Paragraphs.Kept (limit : Limit) (n : Nat) (s : Paragraphs) : Prop where
  counted : Counted n s.chunks
  within : Within limit s.chunks
  next : s.chunkIndex = n + s.chunks.length

theorem Paragraphs.Kept.flush {s : Paragraphs} (h : s.Kept limit n) :
    (s.flush limit docId headingPath).Kept limit n := by
  unfold Paragraphs.flush
  dsimp only
  split
  · refine ⟨h.counted.append ?_, within_append.mpr ⟨h.within, splitByTokenWindow_within⟩, ?_⟩
    · rw [← h.next]
      exact splitByTokenWindow_counted
    · rw [List.length_append, h.next, Nat.add_assoc]
  · next hle =>
    refine ⟨h.counted.append ?_, within_append.mpr ⟨h.within, ?_⟩, ?_⟩
    · rw [← h.next]
      exact counted_chunk _
    · exact within_chunk.mpr (Nat.le_of_not_lt hle)
    · rw [List.length_append, h.next, Nat.add_assoc]
      rfl

theorem Paragraphs.Kept.add {s : Paragraphs} (h : s.Kept limit n) (para : List Char) :
    (s.add limit docId headingPath para).Kept limit n := by
  unfold Paragraphs.add
  split
  · have hflush : (s.flush limit docId headingPath).Kept limit n := h.flush
    exact ⟨hflush.counted, hflush.within, hflush.next⟩
  · exact ⟨h.counted, h.within, h.next⟩

theorem Paragraphs.Kept.foldl {s : Paragraphs} (h : s.Kept limit n) (paras : List (List Char)) :
    (paras.foldl (Paragraphs.add limit docId headingPath) s).Kept limit n := by
  induction paras generalizing s with
  | nil => exact h
  | cons para paras ih => exact ih (h.add para)

private theorem splitByParagraphs_spec :
    Counted n (splitByParagraphs limit docId headingPath text n) ∧
      Within limit (splitByParagraphs limit docId headingPath text n) := by
  have hstart : (⟨[], [], n⟩ : Paragraphs).Kept limit n :=
    ⟨counted_nil, within_nil, rfl⟩
  have hfold : (Paragraphs.Kept limit n) ((splitParagraphs [] false text).foldl
      (Paragraphs.add limit docId headingPath) ⟨[], [], n⟩) := hstart.foldl _
  unfold splitByParagraphs
  dsimp only
  split
  · exact ⟨hfold.counted, hfold.within⟩
  · have hflush : (Paragraphs.Kept limit n) (Paragraphs.flush limit docId headingPath _) :=
      hfold.flush
    exact ⟨hflush.counted, hflush.within⟩

/-- The invariant of the loop over sections. -/
structure Sections.Kept (s : Sections) : Prop where
  counted : Counted 0 s.chunks
  next : s.chunkIndex = s.chunks.length

theorem Sections.Kept.add {s : Sections} (h : s.Kept) (text : List Char) :
    (s.add limit docId text).Kept := by
  have hread : (s.read text).Kept := by
    unfold Sections.read
    split
    · exact ⟨h.counted, h.next⟩
    · exact ⟨h.counted, h.next⟩
  unfold Sections.add
  dsimp only
  split
  · constructor
    · apply hread.counted.append
      rw [Nat.zero_add, ← hread.next]
      exact counted_chunk _
    · rw [List.length_append, hread.next]
      rfl
  · exact hread

private theorem splitByHeadings_counted : Counted 0 (splitByHeadings limit docId text) := by
  have hfold : ∀ (pieces : List (List Char)) (s : Sections), s.Kept →
      (pieces.foldl (Sections.add limit docId) s).Kept := by
    intro pieces
    induction pieces with
    | nil => exact fun s h ↦ h
    | cons piece pieces ih => exact fun s h ↦ ih _ (h.add piece)
  have hkept := hfold (splitHeadings [] 0 text) ⟨[], [], [], 0⟩ ⟨counted_nil, rfl⟩
  unfold splitByHeadings
  dsimp only
  generalize (splitHeadings [] 0 text).foldl (Sections.add limit docId) ⟨[], [], [], 0⟩ = s
    at hkept
  have hchunks : Counted 0 (if s.content = [] then s.chunks
      else s.chunks ++ [chunk docId s.currentHeadings s.content s.chunkIndex]) := by
    split
    · exact hkept.counted
    · apply hkept.counted.append
      rw [Nat.zero_add, ← hkept.next]
      exact counted_chunk _
  by_cases hnone : (if s.content = [] then s.chunks
      else s.chunks ++ [chunk docId s.currentHeadings s.content s.chunkIndex]) = []
  · rw [if_pos hnone]
    exact counted_chunk _
  · rw [if_neg hnone]
    exact hchunks

/-- The invariant of the second pass. -/
structure Resplit (limit : Limit) (s : List DocumentChunk × Nat) : Prop where
  counted : Counted 0 s.1
  within : Within limit s.1
  next : s.2 = s.1.length

theorem Resplit.step {s : List DocumentChunk × Nat} (h : Resplit limit s) {c : DocumentChunk}
    (hc : c.tokenCount = estimateTokens c.content) : Resplit limit (resplit limit docId s c) := by
  unfold resplit
  split
  · obtain ⟨hcounted, hwithin⟩ := @splitByParagraphs_spec limit docId c.headingPath c.content s.2
    refine ⟨h.counted.append ?_, within_append.mpr ⟨h.within, hwithin⟩, ?_⟩
    · rw [Nat.zero_add, ← h.next]
      exact hcounted
    · rw [List.length_append, h.next]
  · next hle =>
    refine ⟨h.counted.append ?_, within_append.mpr ⟨h.within, ?_⟩, ?_⟩
    · rw [Nat.zero_add, ← h.next]
      exact ⟨by simpa using hc, rfl⟩
    · rw [hc] at hle
      simpa [Within] using hle
    · rw [List.length_append, h.next]
      rfl

theorem Resplit.foldl {s : List DocumentChunk × Nat} (h : Resplit limit s)
    {chunks : List DocumentChunk}
    (hchunks : ∀ c ∈ chunks, c.tokenCount = estimateTokens c.content) :
    Resplit limit (chunks.foldl (resplit limit docId) s) := by
  induction chunks generalizing s with
  | nil => exact h
  | cons c chunks ih =>
    exact ih (h.step (hchunks c List.mem_cons_self))
      fun c' hc' ↦ hchunks c' (List.mem_cons_of_mem _ hc')

private theorem chunkText_spec :
    Counted 0 (chunkText text docId limit) ∧ Within limit (chunkText text docId limit) := by
  have hfirst := @splitByHeadings_counted limit docId text
  unfold chunkText
  dsimp only
  split
  · have hstart : Resplit limit ([], 0) := ⟨counted_nil, within_nil, rfl⟩
    have hsecond : Resplit limit ((splitByHeadings limit docId text).foldl
        (resplit limit docId) ([], 0)) := hstart.foldl hfirst.count
    exact ⟨hsecond.counted, hsecond.within⟩
  · next hnone =>
    refine ⟨hfirst, fun c hc ↦ ?_⟩
    rw [← hfirst.count c hc]
    by_contra hlt
    exact hnone (List.any_eq_true.mpr ⟨c, hc, decide_eq_true (Nat.lt_of_not_le hlt)⟩)

end Counting

/-- Every chunk has the estimate of its content, which is within the limit, and the chunks are
numbered in order. -/
theorem chunkText_bounded (text : List Char) (docId : String) (limit : Limit) :
    (∀ c ∈ chunkText text docId limit,
      estimateTokens c.content = c.tokenCount ∧ c.tokenCount ≤ limit.tokens) ∧
    (chunkText text docId limit).map (·.chunkIndex) =
      List.range (chunkText text docId limit).length := by
  obtain ⟨hcounted, hwithin⟩ := @chunkText_spec limit docId text
  constructor
  · intro c hc
    have hcount := hcounted.count c hc
    exact ⟨hcount.symm, hcount.le.trans (hwithin c hc)⟩
  · rw [hcounted.index, List.range_eq_range']

end WikiMind.Ingest
