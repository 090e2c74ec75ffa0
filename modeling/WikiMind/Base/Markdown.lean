import Mathlib.Data.List.TakeWhile

/-!
# Lines of a Markdown text

Library for code that works on headings: which lines of a text are headings, which stand in a
fenced code block, and which are neither. A heading is written with one to six number signs at
the start of its line and a space behind them.
-/

namespace WikiMind.Base.Markdown

/-- An open code fence: its character and how often it stood there. -/
structure Fence where
  char : Char
  length : Nat
  known : char = '`' ∨ char = '~'
  three : 3 ≤ length

/-- How often a character stands at the start of a line. -/
def countStart (c : Char) (line : List Char) : Nat := (line.takeWhile (· = c)).length

/-- A line without its indentation, if that has three spaces at most. -/
def unindent (line : List Char) : Option (List Char) :=
  if countStart ' ' line ≤ 3 then some (line.dropWhile (· = ' ')) else none

/-- The fence that a line opens. An info string behind backticks has no backtick. -/
def openFence (line : List Char) : Option Fence :=
  match unindent line with
  | some (c :: rest) =>
    if h : (c = '`' ∨ c = '~') ∧ 3 ≤ countStart c (c :: rest) then
      if c = '`' ∧ '`' ∈ (c :: rest).dropWhile (· = '`') then none
      else some ⟨c, countStart c (c :: rest), h.1, h.2⟩
    else none
  | _ => none

/-- A line closes a fence: the same character at least as often, and nothing else. -/
def Fence.closedBy (fence : Fence) (line : List Char) : Bool :=
  match unindent line with
  | some rest =>
    fence.length ≤ countStart fence.char rest &&
      (rest.dropWhile (· = fence.char)).all fun c ↦ c = ' ' || c = '\t'
  | none => false

/-- A line: a heading, code within a fence, or another one. -/
inductive Block where
  | heading (level : Nat) (title : List Char)
  | code (line : List Char)
  | other (line : List Char)
  deriving DecidableEq, Repr

/-- The level and the title of a heading. -/
def heading? (line : List Char) : Option (Nat × List Char) :=
  match line.dropWhile (· = '#') with
  | ' ' :: title =>
    if 1 ≤ countStart '#' line ∧ countStart '#' line ≤ 6 then some (countStart '#' line, title)
    else none
  | _ => none

/-- A line outside of code. -/
def readLine (line : List Char) : Block :=
  match heading? line with
  | some (level, title) => .heading level title
  | none => .other line

/-- Lines that follow an open fence, or none. -/
def readLines : Option Fence → List (List Char) → List Block
  | _, [] => []
  | none, line :: lines => readLine line :: readLines (openFence line) lines
  | some fence, line :: lines =>
    if fence.closedBy line then .other line :: readLines none lines
    else .code line :: readLines (some fence) lines

/-- The lines of a text. -/
def blocks (text : List Char) : List Block := readLines none (text.splitOn '\n')

section Headings

variable {line title : List Char} {level : Nat}

private theorem countStart_replicate (c : Char) (n : Nat) {rest : List Char}
    (h : rest.head? ≠ some c) :
    countStart c (List.replicate n c ++ rest) = n := by
  have hrest : rest.takeWhile (· = c) = [] := by
    cases rest with
    | nil => rfl
    | cons d rest =>
      have hne : d ≠ c := fun heq ↦ h (by simp [heq])
      simp [hne]
  rw [countStart, List.takeWhile_append_of_pos (by simp), hrest]
  simp

private theorem replicate_countStart (c : Char) (line : List Char) :
    List.replicate (countStart c line) c ++ line.dropWhile (· = c) = line := by
  have hall : line.takeWhile (· = c) = List.replicate (countStart c line) c :=
    List.eq_replicate_of_mem fun d hd ↦ by simpa using List.mem_takeWhile_imp hd
  rw [← hall, List.takeWhile_append_dropWhile]

/-- A line behind its indentation. -/
theorem eq_unindent {rest : List Char} (h : unindent line = some rest) :
    ∃ pad : List Char, line = pad ++ rest ∧ ∀ c ∈ pad, c = ' ' := by
  unfold unindent at h
  split at h
  · cases h
    exact ⟨_, List.takeWhile_append_dropWhile.symm,
      fun c hc ↦ by simpa using List.mem_takeWhile_imp hc⟩
  · cases h

/-- How an opening fence is written. -/
theorem eq_of_openFence {fence : Fence} (h : openFence line = some fence) :
    ∃ pad rest : List Char, line = pad ++ (List.replicate fence.length fence.char ++ rest) ∧
      ∀ c ∈ pad, c = ' ' := by
  unfold openFence at h
  split at h
  · next c rest hunindent =>
    obtain ⟨pad, rfl, hpad⟩ := eq_unindent hunindent
    split at h
    · split at h
      · cases h
      · cases h
        exact ⟨pad, (c :: rest).dropWhile (· = c), by rw [replicate_countStart], hpad⟩
    · cases h
  · cases h

/-- How a closing fence is written. -/
theorem Fence.eq_of_closedBy {fence : Fence} (h : fence.closedBy line = true) :
    ∃ (pad tail : List Char) (n : Nat),
      line = pad ++ (List.replicate n fence.char ++ tail) ∧ fence.length ≤ n ∧
      (∀ c ∈ pad, c = ' ') ∧ ∀ c ∈ tail, c = ' ' ∨ c = '\t' := by
  unfold Fence.closedBy at h
  split at h
  · next rest hunindent =>
    obtain ⟨pad, rfl, hpad⟩ := eq_unindent hunindent
    rw [Bool.and_eq_true, decide_eq_true_eq, List.all_eq_true] at h
    refine ⟨pad, rest.dropWhile (· = fence.char), countStart fence.char rest,
      by rw [replicate_countStart], h.1, hpad, fun c hc ↦ ?_⟩
    simpa using h.2 c hc
  · cases h

/-- How a heading is written. -/
theorem heading?_eq_some_iff : heading? line = some (level, title) ↔
    (1 ≤ level ∧ level ≤ 6) ∧ line = List.replicate level '#' ++ ' ' :: title := by
  constructor
  · intro h
    unfold heading? at h
    split at h
    · next t hrest =>
      split at h
      · next hlevel =>
        cases h
        exact ⟨hlevel, by rw [← hrest, replicate_countStart]⟩
      · cases h
    · cases h
  · rintro ⟨hlevel, rfl⟩
    have hcount : countStart '#' (List.replicate level '#' ++ ' ' :: title) = level :=
      countStart_replicate '#' level (by simp)
    have hrest : (List.replicate level '#' ++ ' ' :: title).dropWhile (· = '#') = ' ' :: title := by
      rw [List.dropWhile_append_of_pos (by simp)]
      simp
    unfold heading?
    rw [hrest, hcount]
    simp [hlevel]

/-- A heading is read back. -/
theorem heading?_heading (hlevel : 1 ≤ level ∧ level ≤ 6) :
    heading? (List.replicate level '#' ++ ' ' :: title) = some (level, title) :=
  heading?_eq_some_iff.mpr ⟨hlevel, rfl⟩

/-- The levels of headings. -/
theorem level_of_mem_readLines {fence : Option Fence} {lines : List (List Char)}
    (h : .heading level title ∈ readLines fence lines) : 1 ≤ level ∧ level ≤ 6 := by
  induction lines generalizing fence with
  | nil => cases fence <;> cases h
  | cons line lines ih =>
    cases fence with
    | none =>
      rw [readLines, List.mem_cons] at h
      rcases h with h | h
      · unfold readLine at h
        split at h
        · next level' title' heq =>
          cases h
          exact (heading?_eq_some_iff.mp heq).1
        · cases h
      · exact ih h
    | some fence =>
      rw [readLines] at h
      split at h
      · exact ih ((List.mem_cons.mp h).resolve_left fun h ↦ by cases h)
      · exact ih ((List.mem_cons.mp h).resolve_left fun h ↦ by cases h)

/-- The levels of the headings of a text. -/
theorem level_of_mem_blocks {text : List Char} (h : .heading level title ∈ blocks text) :
    1 ≤ level ∧ level ≤ 6 := level_of_mem_readLines h

end Headings

section Fences

/-- A line with a number sign at its start. -/
def Hashed (line : List Char) : Prop := line.head? = some '#'

private theorem Hashed.unindent {line : List Char} (h : Hashed line) :
    unindent line = some line := by
  cases line with
  | nil => cases h
  | cons c rest =>
    cases h
    simp [Markdown.unindent, countStart]

/-- It opens no fence. -/
theorem Hashed.openFence {line : List Char} (h : Hashed line) : openFence line = none := by
  unfold Markdown.openFence
  rw [h.unindent]
  cases line with
  | nil => rfl
  | cons c rest =>
    cases h
    simp

/-- Nor does it close one. -/
theorem Hashed.closedBy {line : List Char} (h : Hashed line) (fence : Fence) :
    fence.closedBy line = false := by
  unfold Fence.closedBy
  rw [h.unindent]
  cases line with
  | nil => cases h
  | cons c rest =>
    cases h
    have hne : '#' ≠ fence.char := by
      intro heq
      rcases fence.known with hchar | hchar <;> rw [hchar] at heq <;> cases heq
    have hthree := fence.three
    have hzero : countStart fence.char ('#' :: rest) = 0 := by simp [countStart, hne]
    simp only [hzero, Bool.and_eq_false_imp, decide_eq_true_eq]
    omega

/-- A rewrite of lines that only changes lines with a number sign at their start, and leaves it
there, is one of what the lines are. -/
theorem readLines_map {f : List Char → List Char} {g : Block → Block}
    (hf : ∀ line, f line = line ∨ Hashed line ∧ Hashed (f line))
    (hread : ∀ line, readLine (f line) = g (readLine line))
    (hcode : ∀ line, g (.code line) = .code (f line))
    (hclosed : ∀ (fence : Fence) line, fence.closedBy line = true → g (.other line) = .other line)
    (fence : Option Fence) (lines : List (List Char)) :
    readLines fence (lines.map f) = (readLines fence lines).map g := by
  induction lines generalizing fence with
  | nil => cases fence <;> rfl
  | cons line lines ih =>
    have hopen : openFence (f line) = openFence line := by
      rcases hf line with heq | ⟨hline, hfline⟩
      · rw [heq]
      · rw [hline.openFence, hfline.openFence]
    have hclose : ∀ fence : Fence, fence.closedBy (f line) = fence.closedBy line := by
      intro fence
      rcases hf line with heq | ⟨hline, hfline⟩
      · rw [heq]
      · rw [hline.closedBy, hfline.closedBy]
    cases fence with
    | none => rw [List.map_cons, readLines, readLines, List.map_cons, hread, hopen, ih]
    | some fence =>
      rw [List.map_cons, readLines, readLines, hclose]
      cases hcloses : fence.closedBy line with
      | true =>
        have hsame : f line = line := by
          refine (hf line).resolve_right fun h ↦ ?_
          rw [h.1.closedBy] at hcloses
          cases hcloses
        rw [if_pos rfl, if_pos rfl, List.map_cons, ih, hclosed fence line hcloses, hsame]
      | false => rw [if_neg (by simp), if_neg (by simp), List.map_cons, ih, hcode]

end Fences

end WikiMind.Base.Markdown
