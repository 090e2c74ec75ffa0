import Mathlib.Computability.Language
import Mathlib.Data.List.TakeWhile

/-!
# Rewriting from left to right

A pattern looks at the head of a text and answers what to put in the place of its match
and how far the match goes. Rewriting replaces every match without overlap. A text that is
a sequence of pieces of one language becomes a sequence of pieces of another, provided that
patterns start at delimiters only and no longer piece contains a delimiter.
-/

namespace WikiMind.Base

open Computability

variable {α : Type*}

/-- What a pattern finds at the head of a text: how many characters the match has behind
its first one, and the replacement. -/
abbrev Pattern (α : Type*) := List α → Option (Nat × List α)

/-- Replace every match, from left to right; the counter is what is left of a match. -/
def rewrite (find : Pattern α) : Nat → List α → List α
  | _, [] => []
  | skip + 1, _ :: s => rewrite find skip s
  | 0, c :: s =>
    match find (c :: s) with
    | none => c :: rewrite find 0 s
    | some (behind, replacement) => replacement ++ rewrite find behind s

/-- The longest start of a text without a mark, if it is not empty. -/
def runBefore [DecidableEq α] (mark : α) (s : List α) : Option (List α × List α) :=
  if s.takeWhile (· ≠ mark) = [] then none
  else some (s.takeWhile (· ≠ mark), s.dropWhile (· ≠ mark))

/-- A run without the mark, between two equal fences of marks. -/
def enclosed [DecidableEq α] (mark : α) (width : Nat) (replace : List α → List α) : Pattern α :=
  fun s ↦
    let fence := List.replicate width mark
    if fence.isPrefixOf s then
      match runBefore mark (s.drop width) with
      | some (run, rest) =>
        if fence.isPrefixOf rest then some (2 * width + run.length - 1, replace run) else none
      | none => none
    else none

/-- What lies before each match of a rewriting, and the text from the match on. -/
def matchesFrom (find : Pattern α) : Nat → List α → List α → List (List α × List α)
  | _, _, [] => []
  | skip + 1, before, c :: s => matchesFrom find skip (before ++ [c]) s
  | 0, before, c :: s =>
    match find (c :: s) with
    | none => matchesFrom find 0 (before ++ [c]) s
    | some (behind, _) => (before, c :: s) :: matchesFrom find behind (before ++ [c]) s

private theorem rewrite_skip (find : Pattern α) (n : Nat) (s : List α) :
    rewrite find n s = rewrite find 0 (s.drop n) := by
  induction n generalizing s with
  | zero => rfl
  | succ n ih =>
    cases s with
    | nil => simp [rewrite]
    | cons c s => exact ih s

/-- A character at which nothing is found stays. -/
theorem rewrite_keep {find : Pattern α} {c : α} {s : List α} (h : find (c :: s) = none) :
    rewrite find 0 (c :: s) = c :: rewrite find 0 s := by
  simp only [rewrite, h]

/-- What is found is replaced. -/
theorem rewrite_replace {find : Pattern α} {c : α} {s replacement : List α} {behind : Nat}
    (h : find (c :: s) = some (behind, replacement)) :
    rewrite find 0 (c :: s) = replacement ++ rewrite find 0 (s.drop behind) := by
  simp only [rewrite, h, rewrite_skip find behind]

/-- A text in which no match starts is kept. -/
theorem rewrite_append_of_none {find : Pattern α} {t : List α}
    (h : ∀ c ∈ t, ∀ s, find (c :: s) = none) (s : List α) :
    rewrite find 0 (t ++ s) = t ++ rewrite find 0 s := by
  induction t with
  | nil => rfl
  | cons c t ih =>
    rw [List.cons_append, rewrite_keep (h c List.mem_cons_self _),
      ih fun d hd ↦ h d (List.mem_cons_of_mem _ hd)]
    rfl

private theorem matchesFrom_skip (find : Pattern α) (n : Nat) (before s : List α) :
    matchesFrom find n before s = matchesFrom find 0 (before ++ s.take n) (s.drop n) := by
  induction n generalizing before s with
  | zero => simp
  | succ n ih =>
    cases s with
    | nil => simp [matchesFrom]
    | cons c s =>
      rw [matchesFrom, ih]
      simp

/-- No match at this character. -/
theorem matchesFrom_keep {find : Pattern α} {c : α} {s : List α} (h : find (c :: s) = none)
    (before : List α) :
    matchesFrom find 0 before (c :: s) = matchesFrom find 0 (before ++ [c]) s := by
  simp only [matchesFrom, h]

/-- A match at this character. -/
theorem matchesFrom_replace {find : Pattern α} {c : α} {s replacement : List α} {behind : Nat}
    (h : find (c :: s) = some (behind, replacement)) (before : List α) :
    matchesFrom find 0 before (c :: s) = (before, c :: s) ::
      matchesFrom find 0 (before ++ (c :: s).take (behind + 1)) (s.drop behind) := by
  simp only [matchesFrom, h, matchesFrom_skip find behind, List.take_succ_cons,
    List.append_assoc, List.singleton_append]

/-- A text in which no match begins. -/
theorem matchesFrom_append_of_none {find : Pattern α} {t : List α}
    (h : ∀ c ∈ t, ∀ s, find (c :: s) = none) (before s : List α) :
    matchesFrom find 0 before (t ++ s) = matchesFrom find 0 (before ++ t) s := by
  induction t generalizing before with
  | nil => simp
  | cons c t ih =>
    rw [List.cons_append, matchesFrom_keep (h c List.mem_cons_self _),
      ih fun d hd ↦ h d (List.mem_cons_of_mem _ hd)]
    simp

/-- What is found at the matches does not depend on what lies before. -/
theorem map_matchesFrom {β : Type*} (find : Pattern α) (f : List α → β) (skip : Nat)
    (before before' s : List α) :
    (matchesFrom find skip before s).map (fun m ↦ f m.2) =
      (matchesFrom find skip before' s).map (fun m ↦ f m.2) := by
  induction s generalizing skip before before' with
  | nil =>
    cases skip with
    | zero => rfl
    | succ skip => rfl
  | cons c s ih =>
    cases skip with
    | succ skip => exact ih skip _ _
    | zero =>
      cases hfound : find (c :: s) with
      | none => simpa only [matchesFrom, hfound] using ih 0 _ _
      | some found =>
        simp only [matchesFrom, hfound, List.map_cons]
        exact congrArg _ (ih found.1 _ _)

/-- A match is where the pattern is found. -/
theorem isSome_of_mem_matchesFrom {find : Pattern α} {skip : Nat} {before s : List α}
    {m : List α × List α} (hm : m ∈ matchesFrom find skip before s) : (find m.2).isSome := by
  induction s generalizing skip before with
  | nil =>
    cases skip with
    | zero => cases hm
    | succ skip => cases hm
  | cons c s ih =>
    cases skip with
    | succ skip => exact ih hm
    | zero =>
      cases hfound : find (c :: s) with
      | none =>
        simp only [matchesFrom, hfound] at hm
        exact ih hm
      | some found =>
        simp only [matchesFrom, hfound, List.mem_cons] at hm
        obtain rfl | hm := hm
        · rw [hfound]
          rfl
        · exact ih hm

/-- What stands in the place of a match is part of the result. -/
theorem replacement_infix_rewrite {find : Pattern α} {before s : List α} {m : List α × List α}
    (hm : m ∈ matchesFrom find 0 before s) {behind : Nat} {replacement : List α}
    (hfound : find m.2 = some (behind, replacement)) : replacement <:+: rewrite find 0 s := by
  induction hn : s.length using Nat.strong_induction_on generalizing before s with
  | _ n ih =>
    cases s with
    | nil => cases hm
    | cons c s =>
      rw [List.length_cons] at hn
      cases hc : find (c :: s) with
      | none =>
        rw [matchesFrom_keep hc] at hm
        rw [rewrite_keep hc]
        exact (ih _ (by omega) hm rfl).trans (List.suffix_cons c _).isInfix
      | some found =>
        rw [matchesFrom_replace hc] at hm
        rw [rewrite_replace hc]
        obtain rfl | hm := List.mem_cons.mp hm
        · rw [hc, Option.some.injEq] at hfound
          rw [hfound]
          exact (List.prefix_append replacement _).isInfix
        · refine (ih _ ?_ hm rfl).trans (List.suffix_append found.2 _).isInfix
          rw [List.length_drop]
          omega

/-- A run ends before the mark. -/
theorem runBefore_eq_some [DecidableEq α] {mark : α} {s run rest : List α}
    (h : runBefore mark s = some (run, rest)) :
    s = run ++ rest ∧ run ≠ [] ∧ mark ∉ run := by
  unfold runBefore at h
  split at h
  · cases h
  · next hne =>
    cases h
    refine ⟨List.takeWhile_append_dropWhile.symm, hne, fun hmem ↦ ?_⟩
    simpa using List.mem_takeWhile_imp hmem

/-- The pieces of a match between two fences. -/
theorem enclosed_eq_some [DecidableEq α] {mark c : α} {width behind : Nat}
    {replace : List α → List α} {s replacement : List α} (hwidth : 0 < width)
    (h : enclosed mark width replace (c :: s) = some (behind, replacement)) :
    ∃ run, c :: s = List.replicate width mark ++ (run ++ (List.replicate width mark ++
      s.drop behind)) ∧ replacement = replace run ∧ mark ∉ run := by
  simp only [enclosed] at h
  split at h
  · next hopen =>
    obtain ⟨t, ht⟩ := List.isPrefixOf_iff_prefix.mp hopen
    have hdrop : (c :: s).drop width = t := by
      rw [← ht, List.drop_left' (List.length_replicate ..)]
    split at h
    · next run rest hrun =>
      obtain ⟨hsplit, -, hmark⟩ := runBefore_eq_some hrun
      split at h
      · next hclose =>
        obtain ⟨u, hu⟩ := List.isPrefixOf_iff_prefix.mp hclose
        cases h
        have hs : c :: s =
            List.replicate width mark ++ (run ++ (List.replicate width mark ++ u)) := by
          rw [hu, ← hsplit, hdrop, ht]
        refine ⟨run, ?_, rfl, hmark⟩
        have hbehind : s.drop (2 * width + run.length - 1) = u := by
          have hlen : 2 * width + run.length = 2 * width + run.length - 1 + 1 := by omega
          rw [← List.drop_succ_cons (a := c), ← hlen, hs, ← List.append_assoc, ← List.append_assoc]
          apply List.drop_left'
          simp only [List.length_append, List.length_replicate]
          omega
        rw [hbehind, hs]
      · cases h
    · cases h
  · cases h

/-- What is enclosed begins with the mark. -/
theorem enclosed_start [DecidableEq α] {mark c : α} {width : Nat} {replace : List α → List α}
    {s : List α} (hwidth : 0 < width) (h : (enclosed mark width replace (c :: s)).isSome) :
    c = mark := by
  obtain ⟨⟨behind, replacement⟩, hfound⟩ := Option.isSome_iff_exists.mp h
  obtain ⟨run, hs, -⟩ := enclosed_eq_some hwidth hfound
  obtain ⟨w, rfl⟩ := Nat.exists_eq_succ_of_ne_zero hwidth.ne'
  rw [List.replicate_succ, List.cons_append] at hs
  exact (List.cons.inj hs).1

/-- The longer pieces of a language contain no delimiter. -/
def Solid (delimiter : α → Prop) (A : Language α) : Prop :=
  ∀ a ∈ A, ∀ d ∈ a, delimiter d → a = [d]

/-- Repetitions, one after the other. -/
theorem append_mem_kstar {A : Language α} {s t : List α} (hs : s ∈ A∗) (ht : t ∈ A∗) :
    s ++ t ∈ A∗ := by
  rw [← kstar_mul_kstar A]
  exact Language.append_mem_mul hs ht

/-- A word is a repetition. -/
theorem mem_kstar_of_mem {A : Language α} {a : List α} (ha : a ∈ A) : a ∈ A∗ :=
  (le_kstar : A ≤ A∗) ha

/-- Repetitions of words of a larger language. -/
theorem mem_kstar_of_subset {A B : Language α} (hAB : ∀ a ∈ A, a ∈ B) {s : List α}
    (h : s ∈ A∗) : s ∈ B∗ := by
  obtain ⟨pieces, rfl, hpieces⟩ := h
  exact ⟨pieces, rfl, fun a ha ↦ hAB a (hpieces a ha)⟩

/-- A text of words that are characters. -/
theorem mem_kstar_of_chars {A : Language α} {s : List α} (h : ∀ c ∈ s, [c] ∈ A) : s ∈ A∗ := by
  induction s with
  | nil => exact Language.nil_mem_kstar A
  | cons c s ih =>
    exact append_mem_kstar (s := [c]) (mem_kstar_of_mem (h c List.mem_cons_self))
      (ih fun d hd ↦ h d (List.mem_cons_of_mem _ hd))

/-- Parts with separators. -/
theorem intercalate_mem_kstar {A : Language α} {sep : List α} {parts : List (List α)}
    (hsep : sep ∈ A∗) (hparts : ∀ part ∈ parts, part ∈ A∗) : sep.intercalate parts ∈ A∗ := by
  induction parts with
  | nil => exact Language.nil_mem_kstar A
  | cons part parts ih =>
    have hpart := hparts part List.mem_cons_self
    cases parts with
    | nil => simpa using hpart
    | cons next parts =>
      rw [List.intercalate_cons_cons]
      exact append_mem_kstar (append_mem_kstar hpart hsep)
        (ih fun p hp ↦ hparts p (List.mem_cons_of_mem _ hp))

/-- A rewriting of each character. -/
theorem flatMap_mem_kstar {β : Type*} {A : Language α} {B : Language β} {f : α → List β}
    (h : ∀ a ∈ A, a.flatMap f ∈ B∗) {s : List α} (hs : s ∈ A∗) : s.flatMap f ∈ B∗ := by
  obtain ⟨pieces, rfl, hpieces⟩ := Language.mem_kstar.mp hs
  clear hs
  induction pieces with
  | nil => exact Language.nil_mem_kstar B
  | cons a pieces ih =>
    rw [List.flatten_cons, List.flatMap_append]
    exact append_mem_kstar (h a (hpieces a List.mem_cons_self))
      (ih fun b hb ↦ hpieces b (List.mem_cons_of_mem _ hb))

/-- The first piece of a text that is not empty. -/
theorem exists_head_of_mem_kstar {A : Language α} {c : α} {s : List α} (h : c :: s ∈ A∗) :
    ∃ a rest, c :: a ∈ A ∧ rest ∈ A∗ ∧ s = a ++ rest := by
  obtain ⟨pieces, hs, hpieces⟩ := Language.mem_kstar_iff_exists_nonempty.mp h
  cases pieces with
  | nil => cases hs
  | cons piece pieces =>
    obtain ⟨hpiece, hne⟩ := hpieces piece List.mem_cons_self
    obtain ⟨d, a, rfl⟩ := List.exists_cons_of_ne_nil hne
    rw [List.flatten_cons, List.cons_append, List.cons.injEq] at hs
    obtain ⟨rfl, hs⟩ := hs
    refine ⟨a, pieces.flatten, hpiece, Language.join_mem_kstar fun b hb ↦ ?_, hs⟩
    exact (hpieces b (List.mem_cons_of_mem _ hb)).1

section Solid

variable {delimiter : α → Prop} {A B : Language α}

/-- A text of solid pieces can be cut at a delimiter. -/
theorem Solid.split (hA : Solid delimiter A) {d : α} (hd : delimiter d) {x y : List α}
    (h : x ++ d :: y ∈ A∗) : x ∈ A∗ ∧ y ∈ A∗ := by
  obtain ⟨pieces, hs, hpieces⟩ := Language.mem_kstar.mp h
  clear h
  induction pieces generalizing x with
  | nil => simp at hs
  | cons a pieces ih =>
    have ha := hpieces a List.mem_cons_self
    have htail : ∀ b ∈ pieces, b ∈ A := fun b hb ↦ hpieces b (List.mem_cons_of_mem _ hb)
    rw [List.flatten_cons] at hs
    obtain ⟨z, hx, hz⟩ | ⟨z, hx, hz⟩ := List.append_eq_append_iff.mp hs
    · -- the cut lies in the first piece or right behind it
      cases z with
      | nil =>
        rw [List.append_nil] at hx
        obtain ⟨-, hy⟩ := ih (x := []) (by simpa using hz) htail
        exact ⟨hx ▸ mem_kstar_of_mem ha, hy⟩
      | cons e z =>
        obtain ⟨rfl, rfl⟩ := List.cons.inj hz
        have hsingle := hA a ha d (by simp [hx]) hd
        rw [hx] at hsingle
        obtain ⟨rfl, hcons⟩ | ⟨-, hcons⟩ := List.append_eq_singleton_iff.mp hsingle
        · cases hcons
          exact ⟨Language.nil_mem_kstar A, Language.join_mem_kstar htail⟩
        · cases hcons
    · obtain ⟨hleft, hy⟩ := ih hz.symm htail
      exact ⟨hx ▸ append_mem_kstar (mem_kstar_of_mem ha) hleft, hy⟩

private theorem Solid.drop_fence (hA : Solid delimiter A) {d : α} (hd : delimiter d) (width : Nat)
    {y : List α} (h : List.replicate width d ++ y ∈ A∗) : y ∈ A∗ := by
  induction width with
  | zero => simpa using h
  | succ width ih => exact ih (hA.split hd (x := []) (by simpa [List.replicate_succ] using h)).2

/-- The pieces of a match between two fences in a text of solid pieces. -/
theorem Solid.enclosed_eq_some [DecidableEq α] (hA : Solid delimiter A) {mark c : α}
    {width behind : Nat} {replace : List α → List α} {s replacement : List α}
    (hmark : delimiter mark) (hwidth : 0 < width) (hs : c :: s ∈ A∗)
    (h : enclosed mark width replace (c :: s) = some (behind, replacement)) :
    ∃ run ∈ A∗, mark ∉ run ∧ replacement = replace run ∧ s.drop behind ∈ A∗ ∧
      c :: s = List.replicate width mark ++ (run ++ (List.replicate width mark ++
        s.drop behind)) := by
  obtain ⟨run, hsplit, hreplacement, hrun⟩ := Base.enclosed_eq_some hwidth h
  have hinner := hs
  rw [hsplit] at hinner
  replace hinner := hA.drop_fence hmark width hinner
  obtain ⟨w, rfl⟩ := Nat.exists_eq_succ_of_ne_zero hwidth.ne'
  rw [List.replicate_succ, List.cons_append] at hinner
  obtain ⟨hmem, hrest⟩ := hA.split hmark hinner
  exact ⟨run, hmem, hrun, hreplacement, hA.drop_fence hmark w hrest, hsplit⟩

/-- A piece at which no match starts is kept as a whole. -/
theorem Solid.keep_piece (hA : Solid delimiter A) {find : Pattern α}
    (hstart : ∀ c s, (find (c :: s)).isSome → delimiter c) {c : α} {a s : List α}
    (ha : c :: a ∈ A) (hc : find (c :: (a ++ s)) = none) :
    rewrite find 0 (c :: (a ++ s)) = c :: a ++ rewrite find 0 s ∧
      ∀ before, matchesFrom find 0 before (c :: (a ++ s)) =
        matchesFrom find 0 (before ++ c :: a) s := by
  by_cases hsingle : a = []
  · subst hsingle
    exact ⟨rewrite_keep hc, matchesFrom_keep hc⟩
  · -- no delimiter occurs in a longer piece, so no match starts in it
    have hnone : ∀ d ∈ c :: a, ∀ t, find (d :: t) = none := by
      intro d hd t
      rw [Option.eq_none_iff_forall_ne_some]
      intro found hfound
      have hdelim := hstart d t (by rw [hfound]; rfl)
      exact hsingle (List.cons.inj (hA _ ha d hd hdelim)).2
    exact ⟨rewrite_append_of_none hnone s,
      fun before ↦ matchesFrom_append_of_none hnone before s⟩

/-- Rewriting keeps a text in order if patterns start at delimiters, put pieces in the
place of a match and leave whole pieces behind it, as far as the matches of the text go. -/
theorem Solid.rewrite_mem_of_fits (hA : Solid delimiter A) (hAB : ∀ a ∈ A, a ∈ B)
    {find : Pattern α} (hstart : ∀ c s, (find (c :: s)).isSome → delimiter c)
    (fits : List α → Prop)
    (hfind : ∀ c s behind replacement, c :: s ∈ A∗ → find (c :: s) = some (behind, replacement) →
      fits (c :: s) → replacement ∈ B∗ ∧ s.drop behind ∈ A∗) {before s : List α} (hs : s ∈ A∗)
    (hfits : ∀ m ∈ matchesFrom find 0 before s, fits m.2) :
    rewrite find 0 s ∈ B∗ := by
  induction hn : s.length using Nat.strong_induction_on generalizing before s with
  | _ n ih =>
    obtain ⟨pieces, rfl, hpieces⟩ := Language.mem_kstar_iff_exists_nonempty.mp hs
    cases pieces with
    | nil => exact Language.nil_mem_kstar B
    | cons a pieces =>
      obtain ⟨ha, hne⟩ := hpieces a List.mem_cons_self
      have hrest : pieces.flatten ∈ A∗ :=
        Language.join_mem_kstar fun b hb ↦ (hpieces b (List.mem_cons_of_mem _ hb)).1
      obtain ⟨c, a', rfl⟩ := List.exists_cons_of_ne_nil hne
      rw [List.flatten_cons, List.cons_append] at hs hn hfits ⊢
      rw [List.length_cons, List.length_append] at hn
      cases hc : find (c :: (a' ++ pieces.flatten)) with
      | some found =>
        rw [matchesFrom_replace hc] at hfits
        obtain ⟨hreplacement, hbehind⟩ :=
          hfind _ _ found.1 found.2 hs hc (hfits _ List.mem_cons_self)
        rw [rewrite_replace hc]
        refine append_mem_kstar hreplacement
          (ih _ ?_ hbehind (fun m hm ↦ hfits m (List.mem_cons_of_mem _ hm)) rfl)
        rw [List.length_drop, List.length_append]
        omega
      | none =>
        obtain ⟨hrewrite, hmatches⟩ := hA.keep_piece hstart ha hc
        rw [hmatches] at hfits
        rw [hrewrite]
        exact append_mem_kstar (mem_kstar_of_mem (hAB _ ha)) (ih _ (by omega) hrest hfits rfl)

/-- Rewriting keeps a text in order if patterns start at delimiters, put pieces in the
place of a match and leave whole pieces behind it. -/
theorem Solid.rewrite_mem (hA : Solid delimiter A) (hAB : ∀ a ∈ A, a ∈ B) {find : Pattern α}
    (hstart : ∀ c s, (find (c :: s)).isSome → delimiter c)
    (hfind : ∀ c s behind replacement, c :: s ∈ A∗ → find (c :: s) = some (behind, replacement) →
      replacement ∈ B∗ ∧ s.drop behind ∈ A∗) {s : List α} (hs : s ∈ A∗) :
    rewrite find 0 s ∈ B∗ :=
  hA.rewrite_mem_of_fits hAB hstart (fun _ ↦ True)
    (fun c s behind replacement h hfound _ ↦ hfind c s behind replacement h hfound) hs
    (fun m (_ : m ∈ matchesFrom find 0 [] s) ↦ trivial)

end Solid

end WikiMind.Base
