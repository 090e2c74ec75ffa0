import Mathlib.Algebra.BigOperators.Group.List.Basic
import Mathlib.Algebra.GroupWithZero.Nat
import Mathlib.Data.List.Infix
import WikiMind.Base.Text

/-!
# Chunks of an article

`chunk_article_text` (`services/embedding.py:47`): short paragraphs are merged until the chunk
size is reached, longer ones are cut into overlapping pieces. What is compared with the chunk
size is the sum of the estimates of the paragraphs, each rounded down and without what joins
them. A short last paragraph is carried over to the next chunk.
-/

namespace WikiMind.Search

open WikiMind.Base

/-- `_validate_chunk_overlap`: `config.py:301`. -/
def validateChunkOverlap (chunkSizeTokens chunkOverlapTokens : Int) : Except String Unit :=
  if chunkOverlapTokens < 0 then
    .error s!"chunk_overlap_tokens ({chunkOverlapTokens}) must not be negative"
  else if chunkSizeTokens ≤ chunkOverlapTokens then
    .error (s!"chunk_overlap_tokens ({chunkOverlapTokens}) must be less than " ++
      s!"chunk_size_tokens ({chunkSizeTokens})")
  else .ok ()

/-- The chunk sizes of an `EmbeddingConfig`, which has been validated: `config.py:293`. -/
structure EmbeddingConfig where
  chunkSizeTokens : Int
  chunkOverlapTokens : Int
  valid : validateChunkOverlap chunkSizeTokens chunkOverlapTokens = .ok ()

namespace EmbeddingConfig

variable (config : EmbeddingConfig)

/-- The chunk size in tokens. -/
def size : Nat := config.chunkSizeTokens.toNat

/-- The overlap in tokens. -/
def overlap : Nat := config.chunkOverlapTokens.toNat

private theorem overlap_lt_size : config.overlap < config.size := by
  have hvalid := config.valid
  unfold validateChunkOverlap at hvalid
  unfold overlap size
  split at hvalid
  · cases hvalid
  split at hvalid
  · cases hvalid
  · omega

end EmbeddingConfig

/-- `_estimate_tokens`: `services/embedding.py:42`. -/
def estimateTokens (text : List Char) : Nat := text.length / 4

/-- `text.split("\n\n")`; the first argument is the text since the last separator. -/
def splitBlankLines : List Char → List Char → List (List Char)
  | current, '\n' :: '\n' :: rest => current :: splitBlankLines [] rest
  | current, c :: rest => splitBlankLines (current ++ [c]) rest
  | current, [] => [current]

/-- The paragraphs of an article. -/
def articleParagraphs (text : List Char) : List (List Char) :=
  ((splitBlankLines [] text).filter (strip · ≠ [])).map strip

/-- `"\n\n".join(parts)`. -/
def joinParts (parts : List (List Char)) : List Char := ['\n', '\n'].intercalate parts

/-- The pieces of an oversized paragraph from a position on: `services/embedding.py:90–96`. -/
def hardSplit (config : EmbeddingConfig) (para : List Char) (start : Nat) : List (List Char) :=
  if start < para.length then
    let stop := start + config.size * 4
    (para.drop start).take (config.size * 4) ::
      hardSplit config para (if stop < para.length then stop - config.overlap * 4 else stop)
  else []
termination_by para.length - start
decreasing_by
  have hlt := config.overlap_lt_size
  split <;> omega

/-- The state of the loop over paragraphs. -/
structure Chunking where
  chunks : List (List Char)
  currentParts : List (List Char)
  currentTokens : Nat

/-- The current parts make a chunk, if there are any. -/
def Chunking.flush (s : Chunking) : Chunking :=
  if s.currentParts = [] then s else ⟨s.chunks ++ [joinParts s.currentParts], [], 0⟩

/-- A turn of the loop over paragraphs: `services/embedding.py:78–110`. -/
def Chunking.add (config : EmbeddingConfig) (s : Chunking) (para : List Char) : Chunking :=
  let paraTokens := estimateTokens para
  if config.size < paraTokens then
    ⟨s.flush.chunks ++ hardSplit config para 0, s.flush.currentParts, s.flush.currentTokens⟩
  else if config.size < s.currentTokens + paraTokens ∧ s.currentParts ≠ [] then
    let chunks := s.chunks ++ [joinParts s.currentParts]
    let overlapText := s.currentParts.getLast?.getD []
    if estimateTokens overlapText ≤ config.overlap then
      ⟨chunks, [overlapText, para], estimateTokens overlapText + paraTokens⟩
    else ⟨chunks, [para], paraTokens⟩
  else ⟨s.chunks, s.currentParts ++ [para], s.currentTokens + paraTokens⟩

/-- `chunk_article_text`: `services/embedding.py:47`. -/
def chunkArticleText (text : List Char) (config : EmbeddingConfig) : List (List Char) :=
  if strip text = [] then []
  else ((articleParagraphs text).foldl (Chunking.add config) ⟨[], [], 0⟩).flush.chunks

section Pieces

variable {config : EmbeddingConfig}

/-- A piece of a paragraph is not too long. -/
theorem estimateTokens_hardSplit (para : List Char) (start : Nat) :
    ∀ piece ∈ hardSplit config para start, estimateTokens piece ≤ config.size := by
  fun_induction hardSplit config para start with
  | case1 start hlt stop ih =>
    rw [List.forall_mem_cons]
    refine ⟨?_, ih⟩
    have htake := List.length_take_le (config.size * 4) (para.drop start)
    unfold estimateTokens
    omega
  | case2 start hle => exact List.forall_mem_nil _

/-- The pieces of a paragraph hold it in order. -/
theorem sublist_hardSplit (para : List Char) (start : Nat) :
    (para.drop start).Sublist (hardSplit config para start).flatten := by
  fun_induction hardSplit config para start with
  | case1 start hlt stop ih =>
    rw [List.flatten_cons]
    -- the next piece starts where this one ends, or before that
    have hrest : (para.drop stop).Sublist (hardSplit config para
        (if stop < para.length then stop - config.overlap * 4 else stop)).flatten := by
      refine List.Sublist.trans ?_ ih
      apply List.drop_sublist_drop_left
      split <;> omega
    have hstop : para.drop stop = (para.drop start).drop (config.size * 4) :=
      List.drop_drop.symm
    rw [hstop] at hrest
    have happend := (List.Sublist.refl ((para.drop start).take (config.size * 4))).append hrest
    rwa [List.take_append_drop] at happend
  | case2 start hle =>
    rw [List.drop_eq_nil_of_le (Nat.le_of_not_lt hle)]
    exact List.nil_sublist _

/-- The parts of a chunk are in it in order. -/
theorem sublist_joinParts (parts : List (List Char)) : parts.flatten.Sublist (joinParts parts) := by
  induction parts with
  | nil => exact List.Sublist.refl _
  | cons part parts ih =>
    cases parts with
    | nil => simp [joinParts]
    | cons next parts =>
      have hjoin : joinParts (part :: next :: parts) =
          part ++ (['\n', '\n'] ++ joinParts (next :: parts)) := by
        simp [joinParts]
      rw [hjoin, List.flatten_cons]
      exact (List.Sublist.refl part).append (ih.trans (List.sublist_append_right _ _))

end Pieces

section Loop

variable {config : EmbeddingConfig}

/-- A chunk has the chunk size, or it is a run of paragraphs whose estimates have in sum, apart
from a short one that is carried over. -/
def Sized (config : EmbeddingConfig) (paras : List (List Char)) (chunk : List Char) : Prop :=
  estimateTokens chunk ≤ config.size ∨
    ∃ carried own : List (List Char), chunk = joinParts (carried ++ own) ∧
      carried ++ own <:+: paras ∧ (own.map estimateTokens).sum ≤ config.size ∧
      carried.length ≤ 1 ∧ ∀ para ∈ carried, estimateTokens para ≤ config.overlap

theorem Sized.append {paras : List (List Char)} {chunk : List Char}
    (h : Sized config paras chunk) (more : List (List Char)) :
    Sized config (paras ++ more) chunk := by
  refine h.imp id ?_
  rintro ⟨carried, own, hchunk, hwithin, hrest⟩
  exact ⟨carried, own, hchunk, hwithin.trans (List.prefix_append _ _).isInfix, hrest⟩

/-- The invariant of the loop: the paragraphs behind it are in the chunks, or they are the current
parts behind one that has been carried over. -/
structure Chunking.Kept (config : EmbeddingConfig) (past carried own : List (List Char))
    (s : Chunking) : Prop where
  parts : s.currentParts = carried ++ own
  tokens : s.currentTokens = (s.currentParts.map estimateTokens).sum
  suffix : carried <:+ past
  carries : own = [] → carried = []
  short : carried.length ≤ 1 ∧ ∀ para ∈ carried, estimateTokens para ≤ config.overlap
  small : (own.map estimateTokens).sum ≤ config.size
  sized : ∀ chunk ∈ s.chunks, Sized config (past ++ own) chunk
  covered : past.flatten.Sublist s.chunks.flatten

namespace Chunking.Kept

variable {past carried own : List (List Char)} {s : Chunking}

/-- The chunk of the current parts. -/
theorem sized_current (h : s.Kept config past carried own) :
    Sized config (past ++ own) (joinParts s.currentParts) := by
  obtain ⟨before, hbefore⟩ := h.suffix
  refine .inr ⟨carried, own, by rw [h.parts], ?_, h.small, h.short⟩
  rw [← hbefore, List.append_assoc]
  exact (List.suffix_append _ _).isInfix

/-- With the chunk of the current parts everything is in the chunks. -/
theorem covered_current (h : s.Kept config past carried own) :
    (past ++ own).flatten.Sublist (s.chunks ++ [joinParts s.currentParts]).flatten := by
  rw [List.flatten_append, List.flatten_append]
  refine h.covered.append ?_
  rw [List.flatten_singleton, h.parts]
  refine List.Sublist.trans ?_ (sublist_joinParts _)
  rw [List.flatten_append]
  exact List.sublist_append_right _ _

private theorem sized_append (h : s.Kept config past carried own) :
    ∀ chunk ∈ s.chunks ++ [joinParts s.currentParts], Sized config (past ++ own) chunk := by
  intro chunk hchunk
  rcases List.mem_append.mp hchunk with hchunk | hchunk
  · exact h.sized chunk hchunk
  · rw [List.mem_singleton.mp hchunk]
    exact h.sized_current

theorem flush (h : s.Kept config past carried own) : s.flush.Kept config (past ++ own) [] [] := by
  unfold Chunking.flush
  split
  · next hnone =>
    have hown : own = [] := (List.append_eq_nil_iff.mp (h.parts.symm.trans hnone)).2
    subst hown
    have hcarried := h.carries rfl
    subst hcarried
    rw [List.append_nil]
    exact h
  · refine ⟨rfl, rfl, List.nil_suffix, fun _ ↦ rfl, ⟨Nat.zero_le _, by simp⟩, Nat.zero_le _, ?_,
      h.covered_current⟩
    rw [List.append_nil]
    exact h.sized_append

/-- A paragraph that is too long is cut. -/
theorem cut (h : s.Kept config past [] []) (para : List Char) :
    (Chunking.mk (s.chunks ++ hardSplit config para 0) s.currentParts s.currentTokens).Kept config
      (past ++ [para]) [] [] where
  parts := h.parts
  tokens := h.tokens
  suffix := List.nil_suffix
  carries _ := rfl
  short := h.short
  small := h.small
  sized := by
    intro chunk hchunk
    rw [List.append_nil]
    rcases List.mem_append.mp hchunk with hchunk | hchunk
    · have hsized := h.sized chunk hchunk
      rw [List.append_nil] at hsized
      exact hsized.append _
    · exact .inl (estimateTokens_hardSplit para 0 chunk hchunk)
  covered := by
    rw [List.flatten_append, List.flatten_append, List.flatten_singleton]
    exact h.covered.append (sublist_hardSplit para 0)

/-- The chunk is full, and the next one begins with a paragraph that is carried over or without
one. -/
theorem next (h : s.Kept config past carried own) {para : List Char} {carry : List (List Char)}
    (hcarry : carry <:+ past ++ own)
    (hshort : carry.length ≤ 1 ∧ ∀ para ∈ carry, estimateTokens para ≤ config.overlap)
    (hsmall : estimateTokens para ≤ config.size) :
    (Chunking.mk (s.chunks ++ [joinParts s.currentParts]) (carry ++ [para])
      ((carry ++ [para]).map estimateTokens).sum).Kept config (past ++ own) carry [para] where
  parts := rfl
  tokens := rfl
  suffix := hcarry
  carries hnil := by cases hnil
  short := hshort
  small := by simpa using hsmall
  sized chunk hchunk := (h.sized_append chunk hchunk).append _
  covered := h.covered_current

/-- A paragraph joins the current parts. -/
theorem join (h : s.Kept config past carried own) {para : List Char}
    (hsmall : (own.map estimateTokens).sum + estimateTokens para ≤ config.size) :
    (Chunking.mk s.chunks (s.currentParts ++ [para])
      (s.currentTokens + estimateTokens para)).Kept config past carried (own ++ [para]) where
  parts := by rw [h.parts, List.append_assoc]
  tokens := by simp [h.tokens]
  suffix := h.suffix
  carries hnil := by simp at hnil
  short := h.short
  small := by simpa using hsmall
  sized chunk hchunk := by
    rw [← List.append_assoc]
    exact (h.sized chunk hchunk).append _
  covered := h.covered

/-- A turn of the loop. -/
theorem add (h : s.Kept config past carried own) (para : List Char) :
    ∃ past' carried' own', past' ++ own' = past ++ own ++ [para] ∧
      (s.add config para).Kept config past' carried' own' := by
  unfold Chunking.add
  dsimp only
  split
  · exact ⟨past ++ own ++ [para], [], [], List.append_nil _, h.flush.cut para⟩
  · next hfits =>
    have hfits := Nat.le_of_not_lt hfits
    split
    · next hfull =>
      obtain ⟨front, last, hparts⟩ := (List.eq_nil_or_concat s.currentParts).resolve_left hfull.2
      have hlast : [last] <:+ past ++ own := by
        obtain ⟨before, hbefore⟩ := h.suffix
        refine ⟨before ++ front, ?_⟩
        rw [← hbefore, List.append_assoc, List.append_assoc, ← h.parts, hparts,
          List.concat_eq_append]
      have hover : s.currentParts.getLast?.getD [] = last := by rw [hparts]; simp
      rw [hover]
      split
      · next hshort =>
        refine ⟨past ++ own, [last], [para], rfl, ?_⟩
        exact h.next hlast ⟨Nat.le_refl 1, by simpa using hshort⟩ hfits
      · refine ⟨past ++ own, [], [para], rfl, ?_⟩
        exact h.next List.nil_suffix ⟨Nat.zero_le 1, List.forall_mem_nil _⟩ hfits
    · next hroom =>
      refine ⟨past, carried, own ++ [para], by rw [List.append_assoc], h.join ?_⟩
      by_cases hnone : s.currentParts = []
      · have hown : own = [] := (List.append_eq_nil_iff.mp (h.parts.symm.trans hnone)).2
        rw [hown]
        simpa using hfits
      · have htokens := h.tokens
        rw [h.parts, List.map_append, List.sum_append] at htokens
        have hle := Nat.le_of_not_lt fun hfull ↦ hroom ⟨hfull, hnone⟩
        omega

/-- The loop over paragraphs. -/
theorem foldl (h : s.Kept config past carried own) (paras : List (List Char)) :
    ∃ past' carried' own', past' ++ own' = past ++ own ++ paras ∧
      (paras.foldl (Chunking.add config) s).Kept config past' carried' own' := by
  induction paras generalizing past carried own s with
  | nil => exact ⟨past, carried, own, (List.append_nil _).symm, h⟩
  | cons para paras ih =>
    obtain ⟨past', carried', own', hpast, hadd⟩ := h.add para
    obtain ⟨past'', carried'', own'', hall, hrest⟩ := ih hadd
    refine ⟨past'', carried'', own'', ?_, hrest⟩
    rw [hall, hpast, List.append_assoc, List.singleton_append]

end Chunking.Kept

theorem kept_start (config : EmbeddingConfig) : (Chunking.mk [] [] 0).Kept config [] [] [] where
  parts := rfl
  tokens := rfl
  suffix := List.nil_suffix
  carries _ := rfl
  short := ⟨Nat.zero_le 1, List.forall_mem_nil _⟩
  small := Nat.zero_le _
  sized := List.forall_mem_nil _
  covered := List.Sublist.refl _

end Loop

section Articles

private theorem visible_splitBlankLines (current text : List Char) :
    visible (splitBlankLines current text).flatten = visible current ++ visible text := by
  fun_induction splitBlankLines current text with
  | case1 current rest ih =>
    have hnewlines : visible ('\n' :: '\n' :: rest) = visible rest := rfl
    rw [List.flatten_cons, visible_append, ih, hnewlines]
    rfl
  | case2 current c rest _ ih =>
    rw [ih, ← visible_append, ← visible_append, List.append_assoc, List.singleton_append]
  | case3 current => simp

/-- The paragraphs hold everything of an article but white space. -/
theorem visible_articleParagraphs (text : List Char) :
    visible (articleParagraphs text).flatten = visible text := by
  have hparas : ∀ blocks : List (List Char),
      visible ((blocks.filter (strip · ≠ [])).map strip).flatten = visible blocks.flatten := by
    intro blocks
    induction blocks with
    | nil => rfl
    | cons block blocks ih =>
      rw [List.filter_cons, List.flatten_cons, visible_append, ← ih, ← visible_strip block]
      split
      · rw [List.map_cons, List.flatten_cons, visible_append]
      · next hblank =>
        have hblank : strip block = [] := by simpa using hblank
        rw [hblank, visible_nil, List.nil_append]
  rw [articleParagraphs, hparas, visible_splitBlankLines, visible_nil, List.nil_append]

/-- A blank article has no paragraphs. -/
theorem articleParagraphs_of_blank {text : List Char} (h : strip text = []) :
    articleParagraphs text = [] := by
  have hnone := visible_articleParagraphs text
  rw [strip_eq_nil_iff.mp h] at hnone
  rw [articleParagraphs, List.map_eq_nil_iff, List.filter_eq_nil_iff]
  intro block hblock hfull
  have hmem : strip block ∈ articleParagraphs text :=
    List.mem_map_of_mem (List.mem_filter.mpr ⟨hblock, hfull⟩)
  have hblank : visible (strip block) = [] := by
    rw [visible_eq_nil_iff] at hnone ⊢
    exact fun c hc ↦ hnone c (List.mem_flatten_of_mem hmem hc)
  rw [visible_strip, ← strip_eq_nil_iff] at hblank
  simp [hblank] at hfull

private theorem chunkArticleText_eq (text : List Char) (config : EmbeddingConfig) :
    chunkArticleText text config =
      ((articleParagraphs text).foldl (Chunking.add config) ⟨[], [], 0⟩).flush.chunks := by
  unfold chunkArticleText
  split
  · next hblank =>
    rw [articleParagraphs_of_blank hblank]
    rfl
  · rfl

/-- Every chunk has the chunk size, or it is a run of paragraphs whose estimates have in sum, apart
from one that has been carried over with at most the overlap. The chunks hold the paragraphs in
order, and these everything of the article but white space. -/
theorem chunkArticleText_spec (text : List Char) (config : EmbeddingConfig) :
    (∀ chunk ∈ chunkArticleText text config, Sized config (articleParagraphs text) chunk) ∧
      (articleParagraphs text).flatten.Sublist (chunkArticleText text config).flatten ∧
      visible (articleParagraphs text).flatten = visible text := by
  rw [chunkArticleText_eq]
  obtain ⟨past, carried, own, hpast, hloop⟩ :=
    (kept_start config).foldl (articleParagraphs text)
  have hpast : past ++ own = articleParagraphs text := hpast
  have hflush := hloop.flush
  refine ⟨fun chunk hchunk ↦ ?_, hpast ▸ hflush.covered, visible_articleParagraphs text⟩
  have hsized := hflush.sized chunk hchunk
  rwa [List.append_nil, hpast] at hsized

/-- Two paragraphs of three characters make a chunk of two tokens where one is allowed. -/
theorem chunkArticleText_oversized : ¬ ∀ (text : List Char) (config : EmbeddingConfig),
    ∀ chunk ∈ chunkArticleText text config, estimateTokens chunk ≤ config.size := by
  intro h
  have hchunk := h "one\n\ntwo".toList ⟨1, 0, rfl⟩ "one\n\ntwo".toList
    (by rw [chunkArticleText_eq]; decide)
  exact absurd hchunk (by decide)

end Articles

end WikiMind.Search
