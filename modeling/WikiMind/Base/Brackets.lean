import Mathlib.Data.List.Basic
import Mathlib.Data.List.TakeWhile

/-!
# Double brackets in a text

Library for texts with tokens of the form `[[inner]]`, where `inner` is one or more
characters other than `]`. A text is cut into its brackets and the characters between them,
from left to right, as a search with the pattern `\[\[([^\]]+)\]\]` does. `replace` turns
the brackets a function chooses into links `[inner](target)`; the main law says that it
leaves the other brackets and no more.
-/

namespace WikiMind.Base.Brackets

/-- A piece of a text. -/
inductive Segment where
  | text (c : Char)
  | bracket (inner : List Char)
  deriving DecidableEq, Repr

/-- The characters of a piece. -/
def Segment.render : Segment → List Char
  | .text c => [c]
  | .bracket inner => '[' :: '[' :: (inner ++ [']', ']'])

/-- The characters of a cut text. -/
def render (l : List Segment) : List Char := l.flatMap Segment.render

/-- The bracket a text starts with and what follows it. -/
def bracketAt : List Char → Option (List Char × List Char)
  | '[' :: '[' :: rest =>
    match rest.takeWhile (· != ']'), rest.dropWhile (· != ']') with
    | c :: inner, ']' :: ']' :: after => some (c :: inner, after)
    | _, _ => none
  | _ => none

/-- Cut a text in at most the given number of pieces. -/
def scanFuel : Nat → List Char → List Segment
  | _, [] => []
  | 0, _ => []
  | n + 1, c :: cs =>
    match bracketAt (c :: cs) with
    | some (inner, after) => .bracket inner :: scanFuel n after
    | none => .text c :: scanFuel n cs

/-- Cut a text into its pieces. -/
def scan (s : List Char) : List Segment := scanFuel s.length s

/-- The inner text of a bracket. -/
def Segment.inner? : Segment → Option (List Char)
  | .text _ => none
  | .bracket inner => some inner

/-- The inner texts of the brackets of a text, in order: `findall`. -/
def brackets (s : List Char) : List (List Char) := (scan s).filterMap Segment.inner?

/-- A link. -/
def link (inner target : List Char) : List Char :=
  '[' :: (inner ++ ']' :: '(' :: (target ++ [')']))

/-- A piece after the replacement. -/
def Segment.rewrite (f : List Char → Option (List Char)) : Segment → List Char
  | .text c => [c]
  | .bracket inner =>
    match f inner with
    | some target => link inner target
    | none => Segment.render (.bracket inner)

/-- Turn every bracket for which `f` has a target into a link: `sub`. -/
def replace (f : List Char → Option (List Char)) (s : List Char) : List Char :=
  (scan s).flatMap (Segment.rewrite f)

@[simp] theorem render_nil : render [] = [] := rfl

@[simp] theorem render_text (c : Char) (l : List Segment) :
    render (.text c :: l) = c :: render l := rfl

@[simp] theorem render_bracket (inner : List Char) (l : List Segment) :
    render (.bracket inner :: l) = '[' :: '[' :: (inner ++ ']' :: ']' :: render l) := by
  simp [render, Segment.render]

@[simp] theorem render_append (l l' : List Segment) :
    render (l ++ l') = render l ++ render l' := by simp [render]

@[simp] theorem render_map_text (s : List Char) : render (s.map .text) = s := by
  induction s with
  | nil => rfl
  | cons c s ih => simp [ih]

section BracketAt

/-- Two texts that are the same are cut at the first place of a character the same. -/
theorem eq_of_append_cons {α : Type} {c : α} {u v x y : List α} (hu : c ∉ u) (hv : c ∉ v)
    (h : u ++ c :: x = v ++ c :: y) : u = v ∧ x = y := by
  induction u generalizing v with
  | nil =>
    cases v with
    | nil => cases h; exact ⟨rfl, rfl⟩
    | cons d v => cases h; exact absurd (List.mem_cons_self ..) hv
  | cons d u ih =>
    cases v with
    | nil => cases h; exact absurd (List.mem_cons_self ..) hu
    | cons d' v =>
      injection h with hd htail
      obtain ⟨huv, hxy⟩ := ih (fun hc ↦ hu (List.mem_cons_of_mem _ hc))
        (fun hc ↦ hv (List.mem_cons_of_mem _ hc)) htail
      exact ⟨by rw [hd, huv], hxy⟩

attribute [local simp] bracketAt scanFuel in
/-- A text starts with a bracket exactly when it has that form. -/
theorem bracketAt_eq_some {s inner after : List Char} :
    bracketAt s = some (inner, after) ↔
      inner ≠ [] ∧ ']' ∉ inner ∧ s = '[' :: '[' :: (inner ++ ']' :: ']' :: after) := by
  constructor
  · intro h
    unfold bracketAt at h
    split at h
    · next rest =>
      split at h
      · next c inner' after' htake hdrop =>
        cases h
        have hnot : ']' ∉ c :: inner' := by
          intro hmem
          rw [← htake] at hmem
          simpa using List.mem_takeWhile_imp hmem
        have hrest := List.takeWhile_append_dropWhile (p := (· != ']')) (l := rest)
        rw [htake, hdrop] at hrest
        exact ⟨List.cons_ne_nil _ _, hnot, by rw [← hrest]⟩
      · cases h
    · cases h
  · intro ⟨hne, hnot, hs⟩
    have hall : ∀ a ∈ inner, (a != ']') = true := by
      intro a ha
      rw [bne_iff_ne]
      rintro rfl
      exact hnot ha
    have htake : (inner ++ ']' :: ']' :: after).takeWhile (· != ']') = inner := by
      simp [List.takeWhile_append_of_pos hall]
    have hdrop : (inner ++ ']' :: ']' :: after).dropWhile (· != ']') = ']' :: ']' :: after := by
      simp [List.dropWhile_append_of_pos hall]
    subst hs
    unfold bracketAt
    simp only [htake, hdrop]
    cases inner with
    | nil => exact absurd rfl hne
    | cons c inner => rfl

/-- The first closing bracket of a text is followed by another. -/
def Closes (s : List Char) : Prop := ∃ u v, ']' ∉ u ∧ s = u ++ ']' :: ']' :: v

/-- No bracket starts with another character. -/
theorem bracketAt_of_ne {c : Char} (hc : c ≠ '[') (s : List Char) :
    bracketAt (c :: s) = none := by
  unfold bracketAt
  split
  next rest heq => cases heq; exact absurd rfl hc
  next => rfl

/-- When a text starts with no bracket. -/
theorem bracketAt_eq_none {s : List Char} :
    bracketAt s = none ↔
      ∀ c rest, s = '[' :: '[' :: c :: rest → c ≠ ']' → ¬ Closes (c :: rest) := by
  constructor
  · rintro h c rest rfl hc ⟨u, v, hu, hs⟩
    have hne : u ≠ [] := by
      rintro rfl
      cases hs
      exact hc rfl
    rw [hs, bracketAt_eq_some.mpr ⟨hne, hu, rfl⟩] at h
    cases h
  · intro h
    cases hs : bracketAt s with
    | none => rfl
    | some found =>
      obtain ⟨hne, hnot, heq⟩ := bracketAt_eq_some.mp hs
      cases hfound : found.1 with
      | nil => exact absurd hfound hne
      | cons c inner =>
        rw [hfound] at heq hnot
        refine absurd ⟨c :: inner, found.2, hnot, rfl⟩ (h c _ heq ?_)
        rintro rfl
        exact hnot (List.mem_cons_self ..)

/-- Without a closing bracket in front, a text closes when its rest does. -/
theorem closes_cons {c : Char} (hc : c ≠ ']') {s : List Char} :
    Closes (c :: s) ↔ Closes s := by
  constructor
  · rintro ⟨u, v, hu, hs⟩
    cases u with
    | nil => cases hs; exact absurd rfl hc
    | cons d u =>
      cases hs
      exact ⟨u, v, fun h ↦ hu (List.mem_cons_of_mem _ h), rfl⟩
  · rintro ⟨u, v, hu, rfl⟩
    exact ⟨c :: u, v, by simp [hu, Ne.symm hc], rfl⟩

/-- After a closing bracket, a text closes when the next character is one. -/
theorem closes_close {s : List Char} : Closes (']' :: s) ↔ s.head? = some ']' := by
  constructor
  · rintro ⟨u, v, hu, hs⟩
    cases u with
    | nil => cases hs; rfl
    | cons d u => cases hs; exact absurd (List.mem_cons_self ..) hu
  · intro h
    cases s with
    | nil => cases h
    | cons d s => cases h; exact ⟨[], s, by simp, rfl⟩

/-- A run without closing brackets before the end of a link's text holds no bracket. -/
theorem bracketAt_link {u : List Char} (hu : ']' ∉ u) (v : List Char) :
    bracketAt (u ++ ']' :: '(' :: v) = none := by
  cases hs : bracketAt (u ++ ']' :: '(' :: v) with
  | none => rfl
  | some found =>
    obtain ⟨_, hnot, heq⟩ := bracketAt_eq_some.mp hs
    have hopen : ']' ∉ '[' :: '[' :: found.1 := by simpa using hnot
    change u ++ _ = ('[' :: '[' :: found.1) ++ _ at heq
    cases (eq_of_append_cons hu hopen heq).2

end BracketAt

section Scan

/-- What is left after a bracket is shorter. -/
theorem length_after {s inner after : List Char} (h : bracketAt s = some (inner, after)) :
    after.length < s.length := by
  obtain ⟨_, _, rfl⟩ := bracketAt_eq_some.mp h
  simp only [List.length_cons, List.length_append]
  omega

/-- Enough fuel is as good as more. -/
theorem scanFuel_eq {n m : Nat} {s : List Char} (hn : s.length ≤ n) (hm : s.length ≤ m) :
    scanFuel n s = scanFuel m s := by
  induction n generalizing m s with
  | zero =>
    have hs : s = [] := List.length_eq_zero_iff.mp (Nat.le_zero.mp hn)
    simp [hs, scanFuel]
  | succ n ih =>
    cases s with
    | nil => simp [scanFuel]
    | cons c cs =>
      cases m with
      | zero => simp at hm
      | succ m =>
        simp only [List.length_cons, Nat.add_le_add_iff_right] at hn hm
        unfold scanFuel
        split
        · next inner after h =>
          have hlt := length_after h
          rw [List.length_cons] at hlt
          rw [ih (by omega) (show after.length ≤ m by omega)]
        · rw [ih hn hm]

/-- The empty text has no pieces. -/
@[simp] theorem scan_nil : scan [] = [] := rfl

/-- A bracket in front is cut off whole. -/
theorem scan_of_bracketAt {s inner after : List Char}
    (h : bracketAt s = some (inner, after)) : scan s = .bracket inner :: scan after := by
  have hlt := length_after h
  cases s with
  | nil => cases h
  | cons c cs =>
    unfold scan
    rw [List.length_cons] at hlt ⊢
    rw [scanFuel, h]
    show _ :: scanFuel cs.length after = _
    rw [scanFuel_eq (show after.length ≤ cs.length by omega) le_rfl]

/-- Without a bracket in front one character is cut off. -/
theorem scan_cons {c : Char} {cs : List Char} (h : bracketAt (c :: cs) = none) :
    scan (c :: cs) = .text c :: scan cs := by
  unfold scan
  rw [List.length_cons, scanFuel, h]

/-- The pieces of a text, from the shorter texts they leave. -/
theorem scan_induction {P : List Char → Prop} (nil : P [])
    (bracket : ∀ s inner after, bracketAt s = some (inner, after) → P after → P s)
    (text : ∀ c cs, bracketAt (c :: cs) = none → P cs → P (c :: cs)) (s : List Char) : P s := by
  induction hn : s.length using Nat.strong_induction_on generalizing s with
  | h n ih =>
    cases s with
    | nil => exact nil
    | cons c cs =>
      cases h : bracketAt (c :: cs) with
      | none => exact text c cs h (ih cs.length (by simp [← hn]) cs rfl)
      | some found => exact bracket _ found.1 found.2 h (ih _ (hn ▸ length_after h) _ rfl)

/-- The pieces of a text make up the text. -/
theorem render_scan (s : List Char) : render (scan s) = s := by
  induction s using scan_induction with
  | nil => rfl
  | bracket s inner after h ih =>
    rw [scan_of_bracketAt h, render_bracket, ih, (bracketAt_eq_some.mp h).2.2]
  | text c cs h ih => rw [scan_cons h, render_text, ih]

/-- Pieces as a search finds them: no bracket starts at a character, and the inner texts are
those of brackets. -/
def Canon : List Segment → Prop
  | [] => True
  | .text c :: l => bracketAt (c :: render l) = none ∧ Canon l
  | .bracket inner :: l => inner ≠ [] ∧ ']' ∉ inner ∧ Canon l

/-- A search finds such pieces. -/
theorem canon_scan (s : List Char) : Canon (scan s) := by
  induction s using scan_induction with
  | nil => trivial
  | bracket s inner after h ih =>
    obtain ⟨hne, hnot, _⟩ := bracketAt_eq_some.mp h
    rw [scan_of_bracketAt h]
    exact ⟨hne, hnot, ih⟩
  | text c cs h ih =>
    rw [scan_cons h]
    exact ⟨by rw [render_scan]; exact h, ih⟩

/-- No bracket is empty. -/
theorem ne_nil_of_mem_brackets {s inner : List Char} (h : inner ∈ brackets s) : inner ≠ [] := by
  induction s using scan_induction with
  | nil => cases h
  | bracket s inner' after hat ih =>
    rw [brackets, scan_of_bracketAt hat] at h
    obtain rfl | hafter := List.mem_cons.mp h
    · exact (bracketAt_eq_some.mp hat).1
    · exact ih hafter
  | text c cs hat ih =>
    rw [brackets, scan_cons hat] at h
    exact ih h

/-- A search finds the pieces a text was made of. -/
theorem scan_render {l : List Segment} (h : Canon l) : scan (render l) = l := by
  induction l with
  | nil => rfl
  | cons segment l ih =>
    cases segment with
    | text c =>
      obtain ⟨hnone, hl⟩ := h
      rw [render_text, scan_cons hnone, ih hl]
    | bracket inner =>
      obtain ⟨hne, hnot, hl⟩ := h
      rw [scan_of_bracketAt (bracketAt_eq_some.mpr ⟨hne, hnot, render_bracket inner l⟩), ih hl]

end Scan

section Replace

variable {f g : List Char → Option (List Char)}

/-- The pieces that the replacement leaves of a piece. -/
def Segment.pieces (f : List Char → Option (List Char)) : Segment → List Segment
  | .text c => [.text c]
  | .bracket inner =>
    match f inner with
    | some target => (link inner target).map .text
    | none => [.bracket inner]

private theorem rewrite_of_some {inner target : List Char} (h : f inner = some target) :
    Segment.rewrite f (.bracket inner) = link inner target := by simp [Segment.rewrite, h]

private theorem rewrite_of_none {inner : List Char} (h : f inner = none) :
    Segment.rewrite f (.bracket inner) = Segment.render (.bracket inner) := by
  simp [Segment.rewrite, h]

private theorem pieces_of_some {inner target : List Char} (h : f inner = some target) :
    Segment.pieces f (.bracket inner) = (link inner target).map .text := by
  simp [Segment.pieces, h]

private theorem pieces_of_none {inner : List Char} (h : f inner = none) :
    Segment.pieces f (.bracket inner) = [.bracket inner] := by simp [Segment.pieces, h]

/-- The pieces left make up the replaced text. -/
theorem render_pieces (l : List Segment) :
    render (l.flatMap (Segment.pieces f)) = l.flatMap (Segment.rewrite f) := by
  induction l with
  | nil => rfl
  | cons segment l ih =>
    rw [List.flatMap_cons, List.flatMap_cons, render_append, ih]
    congr 1
    cases segment with
    | text c => rfl
    | bracket inner =>
      cases h : f inner with
      | none => rw [pieces_of_none h, rewrite_of_none h, render, List.flatMap_singleton]
      | some target => rw [pieces_of_some h, rewrite_of_some h, render_map_text]

/-- The replacement keeps the first character. -/
theorem head?_rewrite (f : List Char → Option (List Char)) (l : List Segment) :
    (l.flatMap (Segment.rewrite f)).head? = (render l).head? := by
  cases l with
  | nil => rfl
  | cons segment l =>
    cases segment with
    | text c => rfl
    | bracket inner =>
      rw [List.flatMap_cons, render_bracket]
      cases h : f inner with
      | none => rw [rewrite_of_none h]; rfl
      | some target => rw [rewrite_of_some h]; rfl

/-- A text that closes after the replacement closes before. -/
theorem closes_of_rewrite {l : List Segment} (h : Canon l)
    (hc : Closes (l.flatMap (Segment.rewrite f))) : Closes (render l) := by
  induction l with
  | nil => exact hc
  | cons segment l ih =>
    cases segment with
    | text c =>
      change Closes (c :: l.flatMap (Segment.rewrite f)) at hc
      rw [render_text]
      by_cases hclose : c = ']'
      · subst hclose
        rw [closes_close] at hc ⊢
        rw [← hc, head?_rewrite]
      · rw [closes_cons hclose] at hc ⊢
        exact ih h.2 hc
    | bracket inner =>
      refine ⟨'[' :: '[' :: inner, render l, ?_, render_bracket inner l⟩
      simpa using h.2.1

/-- Where no bracket started, none starts after the replacement. -/
theorem bracketAt_rewrite {c : Char} {l : List Segment} (h : Canon l)
    (hnone : bracketAt (c :: render l) = none) :
    bracketAt (c :: l.flatMap (Segment.rewrite f)) = none := by
  rw [bracketAt_eq_none] at hnone ⊢
  intro d rest hrest hd hclose
  injection hrest with hc hrest
  subst hc
  cases l with
  | nil => cases hrest
  | cons segment l =>
    cases segment with
    | text c =>
      injection hrest with hc hrest
      change l.flatMap (Segment.rewrite f) = d :: rest at hrest
      have hhead := head?_rewrite f l
      have hrender := closes_of_rewrite h.2 (hrest ▸ hclose)
      rw [hrest] at hhead
      cases hl : render l with
      | nil => rw [hl] at hhead; cases hhead
      | cons e rest' =>
        rw [hl] at hhead hrender
        cases hhead
        exact hnone d rest' (by rw [render_text, hl, hc]) hd hrender
    | bracket inner =>
      rw [render_bracket] at hnone
      refine hnone '[' _ rfl (by decide) ⟨'[' :: inner, render l, ?_, rfl⟩
      simpa using h.2.1

/-- Characters of which none starts a bracket may stand before pieces. -/
theorem canon_map_text {s : List Char} {l : List Segment} (h : Canon l)
    (hs : ∀ u v, s = u ++ v → v ≠ [] → bracketAt (v ++ render l) = none) :
    Canon (s.map .text ++ l) := by
  induction s with
  | nil => exact h
  | cons c s ih =>
    refine ⟨?_, ih fun u v hv ↦ hs (c :: u) v (by rw [hv]; rfl)⟩
    show bracketAt (c :: render (s.map .text ++ l)) = none
    rw [render_append, render_map_text]
    exact hs [] (c :: s) rfl (List.cons_ne_nil _ _)

/-- A link may stand before pieces. -/
theorem canon_link {inner target : List Char} {l : List Segment} (hinner : ']' ∉ inner)
    (htarget : '[' ∉ target) (h : Canon l) : Canon ((link inner target).map .text ++ l) := by
  have hrest : Canon ((']' :: '(' :: (target ++ [')'])).map .text ++ l) := by
    apply canon_map_text h
    intro u v huv hv
    cases v with
    | nil => exact absurd rfl hv
    | cons c v =>
      have hmem : c ∈ ']' :: '(' :: (target ++ [')']) := by rw [huv]; simp
      apply bracketAt_of_ne
      rintro rfl
      simp [htarget] at hmem
  have hfront : Canon (('[' :: inner).map .text ++
      ((']' :: '(' :: (target ++ [')'])).map .text ++ l)) := by
    apply canon_map_text hrest
    intro u v huv _
    have hv : ']' ∉ v := by
      intro hmem
      have : ']' ∈ '[' :: inner := by rw [huv]; exact List.mem_append_right u hmem
      simp [hinner] at this
    rw [render_append, render_map_text, List.cons_append, List.cons_append]
    exact bracketAt_link hv _
  rw [← List.append_assoc, ← List.map_append] at hfront
  exact hfront

/-- The pieces left are found by a search. -/
theorem canon_pieces (hf : ∀ inner target, f inner = some target → '[' ∉ target)
    {l : List Segment} (h : Canon l) : Canon (l.flatMap (Segment.pieces f)) := by
  induction l with
  | nil => trivial
  | cons segment l ih =>
    rw [List.flatMap_cons]
    cases segment with
    | text c =>
      refine ⟨?_, ih h.2⟩
      show bracketAt (c :: render (l.flatMap (Segment.pieces f))) = none
      rw [render_pieces]
      exact bracketAt_rewrite h.2 h.1
    | bracket inner =>
      cases hi : f inner with
      | none => rw [pieces_of_none hi]; exact ⟨h.1, h.2.1, ih h.2.2⟩
      | some target => rw [pieces_of_some hi]; exact canon_link h.2.1 (hf _ _ hi) (ih h.2.2)

/-- The main law: the brackets after the replacement are those without a target. -/
theorem brackets_replace (hf : ∀ inner target, f inner = some target → '[' ∉ target)
    (s : List Char) : brackets (replace f s) = (brackets s).filter (f · = none) := by
  unfold brackets replace
  rw [← render_pieces, scan_render (canon_pieces hf (canon_scan s))]
  induction scan s with
  | nil => rfl
  | cons segment l ih =>
    rw [List.flatMap_cons, List.filterMap_append, ih]
    cases segment with
    | text c => rfl
    | bracket inner =>
      cases hi : f inner with
      | none => simp [pieces_of_none hi, Segment.inner?, hi]
      | some target => simp [pieces_of_some hi, Segment.inner?, hi, List.filterMap_map]

private theorem inner_cons_bracket (inner : List Char) (l : List Segment) :
    (Segment.bracket inner :: l).filterMap Segment.inner? =
      inner :: l.filterMap Segment.inner? := rfl

private theorem rewrite_eq_render {l : List Segment}
    (h : ∀ inner ∈ l.filterMap Segment.inner?, f inner = none) :
    l.flatMap (Segment.rewrite f) = render l := by
  induction l with
  | nil => rfl
  | cons segment l ih =>
    cases segment with
    | text c => exact congrArg (c :: ·) (ih h)
    | bracket inner =>
      rw [inner_cons_bracket, List.forall_mem_cons] at h
      rw [List.flatMap_cons, rewrite_of_none h.1, ih h.2]
      rfl

/-- Nothing is replaced where no bracket has a target. -/
theorem replace_eq_self {s : List Char} (h : ∀ inner ∈ brackets s, f inner = none) :
    replace f s = s := (rewrite_eq_render h).trans (render_scan s)

private theorem eq_of_rewrite (hf : ∀ inner target, f inner = some target → ')' ∉ target)
    (hg : ∀ inner target, g inner = some target → ')' ∉ target) {inner x y : List Char}
    (hinner : ']' ∉ inner)
    (h : Segment.rewrite f (.bracket inner) ++ x = Segment.rewrite g (.bracket inner) ++ y) :
    f inner = g inner ∧ x = y := by
  -- A kept bracket has one more character before its first closing one than a link.
  have hopen : ']' ∉ '[' :: inner := by simpa using hinner
  have hne : ∀ {z w : List Char}, '[' :: (inner ++ ']' :: z) ≠ inner ++ ']' :: w := by
    intro z w heq
    exact List.cons_ne_self _ _ (eq_of_append_cons hopen hinner heq).1
  cases hfi : f inner with
  | none =>
    cases hgi : g inner with
    | none =>
      rw [rewrite_of_none hfi, rewrite_of_none hgi] at h
      exact ⟨rfl, List.append_cancel_left h⟩
    | some target =>
      rw [rewrite_of_none hfi, rewrite_of_some hgi] at h
      simp only [Segment.render, link, List.cons_append, List.append_assoc] at h
      exact absurd (List.cons.inj h).2 hne
  | some target =>
    cases hgi : g inner with
    | none =>
      rw [rewrite_of_some hfi, rewrite_of_none hgi] at h
      simp only [Segment.render, link, List.cons_append, List.append_assoc] at h
      exact absurd (List.cons.inj h).2.symm hne
    | some target' =>
      rw [rewrite_of_some hfi, rewrite_of_some hgi] at h
      simp only [link, List.cons_append, List.append_assoc, List.nil_append] at h
      have htail := (eq_of_append_cons hinner hinner (List.cons.inj h).2).2
      obtain ⟨htarget, hxy⟩ :=
        eq_of_append_cons (hf _ _ hfi) (hg _ _ hgi) (List.cons.inj htail).2
      exact ⟨by rw [htarget], hxy⟩

private theorem eq_of_rewrites (hf : ∀ inner target, f inner = some target → ')' ∉ target)
    (hg : ∀ inner target, g inner = some target → ')' ∉ target) {l : List Segment}
    (hl : Canon l) (h : l.flatMap (Segment.rewrite f) = l.flatMap (Segment.rewrite g)) :
    ∀ inner ∈ l.filterMap Segment.inner?, f inner = g inner := by
  induction l with
  | nil => simp
  | cons segment l ih =>
    cases segment with
    | text c => exact ih hl.2 (List.cons.inj h).2
    | bracket inner =>
      obtain ⟨heq, hrest⟩ := eq_of_rewrite hf hg hl.2.1 h
      rw [inner_cons_bracket, List.forall_mem_cons]
      exact ⟨heq, ih hl.2.2 hrest⟩

/-- A replaced text shows the target of every bracket. -/
theorem replace_inj (hf : ∀ inner target, f inner = some target → ')' ∉ target)
    (hg : ∀ inner target, g inner = some target → ')' ∉ target) {s : List Char}
    (h : replace f s = replace g s) : ∀ inner ∈ brackets s, f inner = g inner :=
  eq_of_rewrites hf hg (canon_scan s) h

end Replace

end WikiMind.Base.Brackets
