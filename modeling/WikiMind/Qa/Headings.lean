import WikiMind.Base.Markdown
import WikiMind.Base.Text

/-!
# Headings of an answer

`_downshift_answer_headings` (`engine/conversation_serializer.py:28`) puts the headings of an
answer two levels down, below the header of its turn. Those of level five and six stay, as there
are no levels below. So headings keep their order but for the ones that meet them.
-/

namespace WikiMind.Qa

open WikiMind.Base WikiMind.Base.Markdown

/-- `_HEADING_RE` at the start of a line: one to four number signs and a space. -/
def matchesHeading (line : List Char) : Bool :=
  match heading? line with
  | some (level, _) => level ≤ 4
  | none => false

/-- `"##" + m.group(1) + " "` in place of the match. -/
def downshiftLine (line : List Char) : List Char :=
  if matchesHeading line then '#' :: '#' :: line else line

/-- `_downshift_answer_headings`: `engine/conversation_serializer.py:28`. -/
def downshiftAnswerHeadings (answer : List Char) : List Char :=
  ['\n'].intercalate ((answer.splitOn '\n').map downshiftLine)

/-- The level of a heading below the header of its turn. -/
def downshiftLevel (level : Nat) : Nat := if level ≤ 4 then level + 2 else level

/-- What becomes of a line. -/
def downshiftBlock : Block → Block
  | .heading level title => .heading (downshiftLevel level) title
  | .code line => .code (downshiftLine line)
  | .other line => .other line

/-- Two levels between which there is no room for two more. -/
def Crowded (a b : Nat) : Prop := a ≤ 4 ∧ 5 ≤ b ∧ b ≤ a + 2

section Lines

private theorem downshiftLine_eq (line : List Char) : downshiftLine line = line ∨
    Hashed line ∧ Hashed (downshiftLine line) := by
  unfold downshiftLine
  cases hmatch : matchesHeading line with
  | false => exact .inl rfl
  | true =>
    right
    unfold matchesHeading at hmatch
    split at hmatch
    · next level title hheading =>
      obtain ⟨⟨hlevel, -⟩, rfl⟩ := heading?_eq_some_iff.mp hheading
      obtain ⟨n, rfl⟩ := Nat.exists_eq_add_of_le hlevel
      refine ⟨?_, rfl⟩
      rw [Nat.add_comm, List.replicate_succ]
      rfl
    · cases hmatch

private theorem readLine_downshiftLine (line : List Char) :
    readLine (downshiftLine line) = downshiftBlock (readLine line) := by
  unfold downshiftLine matchesHeading
  cases hheading : heading? line with
  | none =>
    have hread : readLine line = .other line := by rw [readLine, hheading]
    rw [if_neg (by simp), hread]
    rfl
  | some heading =>
    obtain ⟨level, title⟩ := heading
    have hread : readLine line = .heading level title := by rw [readLine, hheading]
    obtain ⟨⟨hone, -⟩, hline⟩ := heading?_eq_some_iff.mp hheading
    by_cases hlevel : level ≤ 4
    · have hshifted : '#' :: '#' :: line = List.replicate (level + 2) '#' ++ ' ' :: title := by
        rw [hline]
        rfl
      rw [if_pos (by simpa using hlevel), hshifted, readLine, heading?_heading (by omega), hread]
      simp [downshiftBlock, downshiftLevel, hlevel]
    · rw [if_neg (by simpa using hlevel), hread]
      simp [downshiftBlock, downshiftLevel, hlevel]

end Lines

/-- The shift changes the levels of headings and lines of code that look like headings. -/
theorem blocks_downshift (answer : List Char) :
    blocks (downshiftAnswerHeadings answer) = (blocks answer).map downshiftBlock := by
  have hlines : (downshiftAnswerHeadings answer).splitOn '\n' =
      (answer.splitOn '\n').map downshiftLine := by
    refine List.splitOn_intercalate '\n' ?_ (by simp [List.splitOn_ne_nil])
    intro line hline
    obtain ⟨l, hl, rfl⟩ := List.mem_map.mp hline
    have hnot := not_mem_of_mem_splitOn hl
    unfold downshiftLine
    split
    · simpa using hnot
    · exact hnot
  rw [blocks, hlines]
  exact readLines_map downshiftLine_eq readLine_downshiftLine (fun _ ↦ rfl) (fun _ _ _ ↦ rfl)
    none _

/-- Levels keep their order exactly where they are not crowded. -/
theorem downshiftLevel_lt_iff {a b : Nat} :
    (downshiftLevel a < downshiftLevel b ↔ a < b) ↔ ¬ (Crowded a b ∨ a = 5 ∧ b = 4) := by
  unfold downshiftLevel Crowded
  split <;> split <;> omega

/-- A text of the same structure: of two headings one is the deeper one as before, all stand below
the header of a turn, and code is unchanged. -/
structure SameStructure (before after : List Block) : Prop where
  deeper : ∀ (i j a b : Nat) (title title' : List Char),
    before[i]? = some (.heading a title) → before[j]? = some (.heading b title') →
      ∃ a' b', after[i]? = some (.heading a' title) ∧ after[j]? = some (.heading b' title') ∧
        (a' < b' ↔ a < b)
  below : ∀ (i level : Nat) (title : List Char),
    after[i]? = some (.heading level title) → 2 < level
  code : ∀ (i : Nat) (line : List Char),
    before[i]? = some (.code line) → after[i]? = some (.code line)

/-- Headings of the levels one to four are put two levels down and the others stay, all below the
header of the turn; of two headings one stays the deeper one exactly if they are not crowded.
Lines of code that do not look like a heading to shift are as before. -/
theorem downshift_structure (answer : List Char) :
    (∀ (i level : Nat) (title : List Char), (blocks answer)[i]? = some (.heading level title) →
      (blocks (downshiftAnswerHeadings answer))[i]? =
          some (.heading (if level ≤ 4 then level + 2 else level) title)) ∧
    (∀ (i level : Nat) (title : List Char),
      (blocks (downshiftAnswerHeadings answer))[i]? = some (.heading level title) →
        2 < level ∧ ∃ before, (blocks answer)[i]? = some (.heading before title)) ∧
    (∀ (i j a b a' b' : Nat) (title title' : List Char),
      (blocks answer)[i]? = some (.heading a title) →
      (blocks answer)[j]? = some (.heading b title') →
      (blocks (downshiftAnswerHeadings answer))[i]? = some (.heading a' title) →
      (blocks (downshiftAnswerHeadings answer))[j]? = some (.heading b' title') →
        ((a' < b' ↔ a < b) ↔ ¬ (a = 3 ∧ b = 5 ∨ a = 4 ∧ b = 5 ∨ a = 5 ∧ b = 4 ∨ a = 4 ∧ b = 6))) ∧
    ∀ (i : Nat) (line : List Char), (blocks answer)[i]? = some (.code line) →
      matchesHeading line = false →
        (blocks (downshiftAnswerHeadings answer))[i]? = some (.code line) := by
  have hheading : ∀ (i level : Nat) (title : List Char),
      (blocks answer)[i]? = some (.heading level title) →
        (blocks (downshiftAnswerHeadings answer))[i]? =
          some (.heading (downshiftLevel level) title) := by
    intro i level title h
    rw [blocks_downshift, List.getElem?_map, h]
    rfl
  refine ⟨hheading, ?_, ?_, ?_⟩
  · intro i level title h
    rw [blocks_downshift, List.getElem?_map, Option.map_eq_some_iff] at h
    obtain ⟨block, hblock, heq⟩ := h
    cases block with
    | heading before title' =>
      cases heq
      have hlevel := level_of_mem_blocks (List.mem_of_getElem? hblock)
      refine ⟨?_, before, hblock⟩
      unfold downshiftLevel
      split <;> omega
    | code line => cases heq
    | other line => cases heq
  · intro i j a b a' b' title title' ha hb ha' hb'
    rw [hheading i a title ha] at ha'
    rw [hheading j b title' hb] at hb'
    cases ha'
    cases hb'
    have hlevela := level_of_mem_blocks (List.mem_of_getElem? ha)
    have hlevelb := level_of_mem_blocks (List.mem_of_getElem? hb)
    rw [downshiftLevel_lt_iff]
    unfold Crowded
    omega
  · intro i line h hmatch
    rw [blocks_downshift, List.getElem?_map, h]
    simp [downshiftBlock, downshiftLine, hmatch]

/-- A heading of level three gets the level of one of level five that it contains. -/
theorem downshift_flattens : ¬ SameStructure (blocks "### A\n##### B".toList)
    (blocks (downshiftAnswerHeadings "### A\n##### B".toList)) := by
  intro h
  have hbefore : blocks "### A\n##### B".toList =
      [.heading 3 "A".toList, .heading 5 "B".toList] := by decide
  have hafter : blocks (downshiftAnswerHeadings "### A\n##### B".toList) =
      [.heading 5 "A".toList, .heading 5 "B".toList] := by decide
  rw [hbefore, hafter] at h
  obtain ⟨a, b, ha, hb, hiff⟩ := h.deeper 0 1 3 5 _ _ rfl rfl
  cases ha
  cases hb
  omega

end WikiMind.Qa
