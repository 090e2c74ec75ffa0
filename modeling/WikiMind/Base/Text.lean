import Mathlib.Data.List.DropRight
import Mathlib.Data.String.Basic

/-!
# Texts

Python's text operations: slices and the truth test of optional texts, and on lists of
characters the white space, prefixes and replacements.
-/

namespace WikiMind.Base

/-- The first characters of a text. -/
def slice (n : Nat) (s : String) : String := String.ofList (s.toList.take n)

/-- A text that is not empty, `none` otherwise: the truth test of optional texts. -/
def truthy (s : Option String) : Option String := s.filter (· ≠ "")

/-- Whether a text occurs in another: `t in s`. -/
def occursIn (t : List Char) : List Char → Bool
  | [] => t.isEmpty
  | c :: cs => t.isPrefixOf (c :: cs) || occursIn t cs

/-- White space: `str.isspace` of one character. -/
def isSpace (c : Char) : Bool :=
  let n := c.toNat
  (9 ≤ n && n ≤ 13) || (28 ≤ n && n ≤ 32) || n = 0x85 || n = 0xa0 || n = 0x1680 ||
    (0x2000 ≤ n && n ≤ 0x200a) || n = 0x2028 || n = 0x2029 || n = 0x202f || n = 0x205f ||
    n = 0x3000

/-- `str.lstrip`. -/
def lstrip (s : List Char) : List Char := s.dropWhile isSpace

/-- `str.strip`. -/
def strip (s : List Char) : List Char := (s.dropWhile isSpace).rdropWhile isSpace

/-- `str.startswith`. -/
def startsWith (s : List Char) (start : String) : Bool := start.toList.isPrefixOf s

/-- `str.replace` of one character. -/
def replaceChar (c : Char) (new : String) (s : List Char) : List Char :=
  s.flatMap fun d ↦ if d = c then new.toList else [d]

/-- `str.find`: the position of the first occurrence. -/
def find (t : List Char) : List Char → Option Nat
  | [] => if t = [] then some 0 else none
  | c :: s => if t.isPrefixOf (c :: s) then some 0 else (find t s).map (· + 1)

/-- The text before a character. -/
theorem takeWhile_ne_append {α : Type*} [DecidableEq α] {d : α} {s : List α} (h : d ∉ s)
    (t : List α) : (s ++ d :: t).takeWhile (· ≠ d) = s := by
  have hne : ∀ c ∈ s, decide (c ≠ d) = true := by
    intro c hc
    rw [decide_eq_true_eq]
    rintro rfl
    exact h hc
  rw [List.takeWhile_append_of_pos hne, List.takeWhile_cons_of_neg (by simp), List.append_nil]

/-- The text from a character on. -/
theorem dropWhile_ne_append {α : Type*} [DecidableEq α] {d : α} {s : List α} (h : d ∉ s)
    (t : List α) : (s ++ d :: t).dropWhile (· ≠ d) = d :: t := by
  have hwhole := List.takeWhile_append_dropWhile (p := fun c ↦ decide (c ≠ d)) (l := s ++ d :: t)
  rw [takeWhile_ne_append h] at hwhole
  exact List.append_cancel_left hwhole

/-- The character is replaced. -/
theorem replaceChar_cons_self (c : Char) (new : String) (s : List Char) :
    replaceChar c new (c :: s) = new.toList ++ replaceChar c new s := by
  simp [replaceChar]

/-- Another character stays. -/
theorem replaceChar_cons_of_ne {c d : Char} (h : d ≠ c) (new : String) (s : List Char) :
    replaceChar c new (d :: s) = d :: replaceChar c new s := by
  simp [replaceChar, h]

/-- The characters after a replacement. -/
theorem mem_replaceChar {c d : Char} {new : String} {s : List Char} :
    d ∈ replaceChar c new s ↔ (d ∈ s ∧ d ≠ c) ∨ (c ∈ s ∧ d ∈ new.toList) := by
  simp only [replaceChar, List.mem_flatMap]
  constructor
  · rintro ⟨e, he, hd⟩
    split at hd
    · next heq => exact .inr ⟨heq ▸ he, hd⟩
    · next hne =>
      rw [List.mem_singleton] at hd
      exact .inl ⟨hd ▸ he, hd ▸ hne⟩
  · rintro (⟨hd, hne⟩ | ⟨hc, hd⟩)
    · exact ⟨d, hd, by simp [hne]⟩
    · exact ⟨c, hc, by simpa using hd⟩

/-- The text behind the first occurrence. -/
def afterFirst (t s : List Char) : Option (List Char) :=
  (find t s).map fun i ↦ s.drop (i + t.length)

/-- The rest behind a prefix. -/
theorem afterFirst_prefix {t : List Char} (ht : t ≠ []) (s : List Char) :
    afterFirst t (t ++ s) = some s := by
  obtain ⟨c, t, rfl⟩ := List.exists_cons_of_ne_nil ht
  have hstarts : (c :: t).isPrefixOf (c :: (t ++ s)) = true :=
    List.isPrefixOf_iff_prefix.mpr ⟨s, rfl⟩
  simp [afterFirst, find, hstarts]

/-- No occurrence at this character. -/
theorem afterFirst_cons {t : List Char} {c : Char} {s : List Char} (h : ¬ t <+: c :: s) :
    afterFirst t (c :: s) = afterFirst t s := by
  have hstarts : t.isPrefixOf (c :: s) = false := by
    rwa [← Bool.not_eq_true, List.isPrefixOf_iff_prefix]
  simp only [afterFirst, find, hstarts, Bool.false_eq_true, if_false, Option.map_map]
  congr 1
  funext i
  simp only [Function.comp_apply]
  rw [Nat.add_right_comm, List.drop_succ_cons]

/-- A text without the first character of the pattern is passed over. -/
theorem afterFirst_append {d : Char} {t l : List Char} (hl : d ∉ l) (s : List Char) :
    afterFirst (d :: t) (l ++ s) = afterFirst (d :: t) s := by
  induction l with
  | nil => rfl
  | cons c l ih =>
    rw [List.mem_cons, not_or] at hl
    rw [List.cons_append, afterFirst_cons, ih hl.2]
    intro hstarts
    exact hl.1 (List.cons_prefix_cons.mp hstarts).1

/-- Nothing is behind what does not occur. -/
theorem afterFirst_eq_none {t s : List Char} : afterFirst t s = none ↔ occursIn t s = false := by
  rw [afterFirst, Option.map_eq_none_iff]
  induction s with
  | nil => simp [find, occursIn]
  | cons c s ih =>
    by_cases h : t.isPrefixOf (c :: s)
    · simp [find, occursIn, h]
    · simp [find, occursIn, h, ih]

/-- The rest is no longer than the text. -/
theorem length_le_of_afterFirst {t s r : List Char} (h : afterFirst t s = some r) :
    r.length ≤ s.length := by
  obtain ⟨i, -, rfl⟩ := Option.map_eq_some_iff.mp h
  rw [List.length_drop]
  omega

/-- The parts of a text split at a character do not contain it. -/
theorem not_mem_of_mem_splitOn {d : Char} {s l : List Char} (hl : l ∈ s.splitOn d) : d ∉ l := by
  induction s generalizing l with
  | nil =>
    rw [List.splitOn_nil, List.mem_singleton] at hl
    simp [hl]
  | cons c s ih =>
    rw [List.splitOn_cons_eq_if_modifyHead] at hl
    split at hl
    · obtain rfl | hl := List.mem_cons.mp hl
      · simp
      · exact ih hl
    · next hne =>
      cases hs : s.splitOn d with
      | nil => exact absurd hs (List.splitOn_ne_nil d s)
      | cons first rest =>
        rw [hs, List.modifyHead_cons] at hl
        rw [hs] at ih
        obtain rfl | hl := List.mem_cons.mp hl
        · rw [List.mem_cons, not_or]
          refine ⟨fun heq ↦ hne (by simp [heq]), ih List.mem_cons_self⟩
        · exact ih (List.mem_cons_of_mem _ hl)

/-- Joined parts are the parts in front, joined, and something that has the next part. -/
theorem intercalate_append_cons (sep : List Char) (x : List (List Char)) (l : List Char)
    (y : List (List Char)) :
    ∃ z, sep.intercalate (x ++ l :: y) = sep.intercalate x ++ z ∧ l <:+: z := by
  have hfirst : l <+: sep.intercalate (l :: y) := by
    cases y with
    | nil => exact ⟨[], by rw [List.append_nil, List.intercalate_singleton]⟩
    | cons next y =>
      rw [List.intercalate_cons_cons, List.append_assoc]
      exact List.prefix_append _ _
  induction x with
  | nil => exact ⟨_, rfl, hfirst.isInfix⟩
  | cons a x ih =>
    obtain ⟨z, hz, hl⟩ := ih
    cases x with
    | nil =>
      refine ⟨sep ++ sep.intercalate (l :: y), ?_,
        hfirst.isInfix.trans (List.suffix_append _ _).isInfix⟩
      rw [List.cons_append, List.nil_append, List.intercalate_cons_cons, List.intercalate_singleton,
        List.append_assoc]
    | cons b x =>
      refine ⟨z, ?_, hl⟩
      have hne : b :: x ++ l :: y ≠ [] := List.cons_ne_nil _ _
      rw [List.cons_append, List.intercalate_cons_of_ne_nil hne, hz, List.intercalate_cons_cons]
      simp only [List.append_assoc]

/-- The parts of a text split at a character occur in it. -/
theorem infix_of_mem_splitOn {d : Char} {s l : List Char} (hl : l ∈ s.splitOn d) : l <:+: s := by
  obtain ⟨x, y, hsplit⟩ := List.append_of_mem hl
  obtain ⟨z, hz, hwithin⟩ := intercalate_append_cons [d] x l y
  rw [← hsplit, List.intercalate_splitOn] at hz
  rw [hz]
  exact hwithin.trans (List.suffix_append _ _).isInfix

/-- Two texts share a part: the last one of the first and the first one of the second. -/
theorem splitOn_append (d : Char) (s t : List Char) : ∃ front last first rest,
    s.splitOn d = front ++ [last] ∧ t.splitOn d = first :: rest ∧
      (s ++ t).splitOn d = front ++ (last ++ first) :: rest := by
  induction s with
  | nil =>
    obtain ⟨first, rest, ht⟩ := List.exists_cons_of_ne_nil (List.splitOn_ne_nil d t)
    exact ⟨[], [], first, rest, by simp, ht, ht⟩
  | cons e s ih =>
    obtain ⟨front, last, first, rest, hs, ht, hst⟩ := ih
    rw [List.cons_append, List.splitOn_cons_eq_if_modifyHead, List.splitOn_cons_eq_if_modifyHead,
      hs, hst]
    split
    · exact ⟨[] :: front, last, first, rest, rfl, ht, rfl⟩
    · cases front with
      | nil => exact ⟨[], e :: last, first, rest, rfl, ht, rfl⟩
      | cons f front => exact ⟨(e :: f) :: front, last, first, rest, rfl, ht, rfl⟩

/-- A part of a text around a character has it, or it is a part of what is before or behind. -/
theorem mem_splitOn_append_cons {c d : Char} (hne : c ≠ d) {s t l : List Char}
    (h : l ∈ (s ++ c :: t).splitOn d) : l ∈ s.splitOn d ∨ c ∈ l ∨ l ∈ t.splitOn d := by
  obtain ⟨front, last, first, rest, hs, ht, hst⟩ := splitOn_append d s (c :: t)
  rw [List.splitOn_cons_eq_if_modifyHead, if_neg (by simpa using hne)] at ht
  obtain ⟨first', rest', ht'⟩ := List.exists_cons_of_ne_nil (List.splitOn_ne_nil d t)
  rw [ht', List.modifyHead_cons] at ht
  obtain ⟨rfl, rfl⟩ := List.cons.inj ht
  rw [hst, List.mem_append, List.mem_cons] at h
  rw [hs, ht']
  rcases h with h | rfl | h
  · exact .inl (List.mem_append_left _ h)
  · exact .inr (.inl (by simp))
  · exact .inr (.inr (List.mem_cons_of_mem _ h))

/-- Lines before a further text are split off. -/
theorem splitOn_intercalate_append {d : Char} {ls : List (List Char)} (hls : ls ≠ [])
    (h : ∀ l ∈ ls, d ∉ l) (s : List Char) :
    ([d].intercalate ls ++ d :: s).splitOn d = ls ++ s.splitOn d := by
  induction ls with
  | nil => exact absurd rfl hls
  | cons l ls ih =>
    have hl := h l List.mem_cons_self
    cases ls with
    | nil => simpa using List.splitOn_append_cons_self_of_not_mem hl s
    | cons next ls =>
      rw [List.intercalate_cons_cons, List.append_assoc, List.append_assoc, List.singleton_append,
        List.splitOn_append_cons_self_of_not_mem hl,
        ih (by simp) fun l hl ↦ h l (List.mem_cons_of_mem _ hl)]
      rfl

/-- What occurs in a text without one of its characters occurs before or behind that. -/
theorem infix_of_infix_append_cons {α : Type} {d : α} {l x y : List α} (hd : d ∉ l)
    (h : l <:+: x ++ d :: y) : l <:+: x ∨ l <:+: y := by
  obtain ⟨a, b, hab⟩ := h
  rw [List.append_assoc] at hab
  obtain ⟨z, hx, hz⟩ | ⟨z, ha, hz⟩ := List.append_eq_append_iff.mp hab
  · obtain ⟨u, hu, -⟩ | ⟨u, hl, hu⟩ := List.append_eq_append_iff.mp hz
    · exact .inl ⟨a, u, by rw [hx, hu, List.append_assoc]⟩
    · cases u with
      | nil => exact .inl ⟨a, [], by rw [hx, hl]; simp⟩
      | cons e u =>
        obtain ⟨rfl, -⟩ := List.cons.inj hu
        exact absurd (by rw [hl]; simp) hd
  · cases z with
    | nil =>
      obtain ⟨u, hu⟩ : ∃ u, l ++ b = d :: u := ⟨y, by simpa using hz.symm⟩
      cases l with
      | nil => exact .inr List.nil_infix
      | cons e l =>
        obtain ⟨rfl, -⟩ := List.cons.inj hu
        exact absurd List.mem_cons_self hd
    | cons e z =>
      obtain ⟨-, hy⟩ := List.cons.inj hz
      exact .inr ⟨z, b, by rw [List.append_assoc]; exact hy.symm⟩

/-- What occurs at the start of a text without one of its characters ends before that. -/
theorem prefix_of_prefix_append_cons {α : Type} {d : α} {l x y : List α} (hd : d ∉ l)
    (h : l <+: x ++ d :: y) : l <+: x := by
  obtain ⟨b, hb⟩ := h
  rcases List.append_eq_append_iff.mp hb with ⟨z, hx, -⟩ | ⟨z, hl, hz⟩
  · exact ⟨z, hx.symm⟩
  · cases z with
    | nil =>
      exact ⟨[], by rw [List.append_nil, hl, List.append_nil]⟩
    | cons e z =>
      obtain ⟨rfl, -⟩ := List.cons.inj hz
      exact absurd (by rw [hl]; simp) hd

/-- What occurs in a text does so before an end that has none of its characters. -/
theorem infix_of_infix_append {α : Type} {l x y : List α} (hne : l ≠ []) (hy : ∀ d ∈ l, d ∉ y)
    (h : l <:+: x ++ y) : l <:+: x := by
  cases y with
  | nil => rwa [List.append_nil] at h
  | cons d y =>
    have hd : d ∉ l := fun hmem ↦ hy d hmem List.mem_cons_self
    refine (infix_of_infix_append_cons hd h).resolve_right fun hlate ↦ ?_
    obtain ⟨e, he⟩ := List.exists_mem_of_ne_nil l hne
    exact hy e he (List.mem_cons_of_mem _ (hlate.subset he))

/-- A text between the white space at its ends. -/
theorem eq_append_strip (s : List Char) : ∃ before after, s = before ++ (strip s ++ after) ∧
    (∀ c ∈ before, isSpace c = true) ∧ ∀ c ∈ after, isSpace c = true := by
  refine ⟨s.takeWhile isSpace, (s.dropWhile isSpace).rtakeWhile isSpace, ?_, ?_, ?_⟩
  · rw [strip, List.rdropWhile_append_rtakeWhile, List.takeWhile_append_dropWhile]
  · exact fun c hc ↦ List.mem_takeWhile_imp hc
  · exact fun c hc ↦ List.mem_rtakeWhile_imp hc

/-- A stripped text begins with no white space. -/
theorem head_strip {s rest : List Char} {c : Char} (h : strip s = c :: rest) :
    isSpace c = false := by
  have hstarts : c :: rest <+: s.dropWhile isSpace := h ▸ List.rdropWhile_prefix _ _
  obtain ⟨rest', hrest⟩ := hstarts
  have hhead := List.head?_dropWhile_not isSpace s
  rw [← hrest, List.cons_append, List.head?_cons] at hhead
  simpa using hhead

/-- White space around a text does not count. -/
theorem strip_append_space {before after : List Char} (hbefore : ∀ c ∈ before, isSpace c = true)
    (s : List Char) (hafter : ∀ c ∈ after, isSpace c = true) :
    strip (before ++ (s ++ after)) = strip s := by
  unfold strip
  rw [List.dropWhile_append_of_pos hbefore]
  by_cases hblank : s.dropWhile isSpace = []
  · have hall : after.dropWhile isSpace = [] := List.dropWhile_eq_nil_iff.mpr hafter
    rw [List.dropWhile_append, hblank]
    simp [hall]
  · rw [List.dropWhile_append, if_neg (by simpa using hblank)]
    rw [List.rdropWhile, List.reverse_append, List.dropWhile_append_of_pos (by simpa using hafter)]
    rfl

/-- White space on the left is stripped. -/
theorem strip_lstrip (s : List Char) : strip (s.dropWhile isSpace) = strip s := by
  have hbefore : ∀ c ∈ s.takeWhile isSpace, isSpace c = true :=
    fun c hc ↦ List.mem_takeWhile_imp hc
  have h := strip_append_space hbefore (s.dropWhile isSpace) (List.forall_mem_nil _)
  rw [List.append_nil, List.takeWhile_append_dropWhile] at h
  exact h.symm

/-- White space on the right is stripped. -/
theorem strip_rstrip (s : List Char) : strip (s.rdropWhile isSpace) = strip s := by
  have hafter : ∀ c ∈ s.rtakeWhile isSpace, isSpace c = true :=
    fun c hc ↦ List.mem_rtakeWhile_imp hc
  have h := strip_append_space (List.forall_mem_nil _) (s.rdropWhile isSpace) hafter
  rw [List.nil_append, List.rdropWhile_append_rtakeWhile] at h
  exact h.symm

/-- White space at the ends of a text goes up to its first and from its last character. -/
theorem strip_around {c d : Char} (hc : isSpace c = false) (hd : isSpace d = false)
    (x y z : List Char) :
    strip (x ++ (c :: (y ++ [d]) ++ z)) =
      x.dropWhile isSpace ++ (c :: (y ++ [d]) ++ z.rdropWhile isSpace) := by
  have hfront : (x ++ (c :: (y ++ [d]) ++ z)).dropWhile isSpace =
      x.dropWhile isSpace ++ (c :: (y ++ [d]) ++ z) := by
    rw [List.dropWhile_append]
    split
    · next hempty =>
      rw [List.isEmpty_iff.mp hempty, List.nil_append, List.cons_append,
        List.dropWhile_cons_of_neg (by simp [hc])]
    · rfl
  have hback : ∀ u : List Char, (u ++ d :: z).rdropWhile isSpace =
      u ++ d :: z.rdropWhile isSpace := by
    intro u
    rw [List.rdropWhile, List.reverse_append, List.reverse_cons, List.append_assoc,
      List.dropWhile_append]
    split
    · next hempty =>
      rw [List.rdropWhile, List.isEmpty_iff.mp hempty, List.singleton_append,
        List.dropWhile_cons_of_neg (by simp [hd])]
      simp
    · rw [List.rdropWhile]
      simp
  have hshape : x.dropWhile isSpace ++ (c :: (y ++ [d]) ++ z) =
      (x.dropWhile isSpace ++ c :: y) ++ d :: z := by simp
  rw [strip, hfront, hshape, hback]
  simp

/-- The characters of a text that are not white space. -/
def visible (s : List Char) : List Char := s.filter (!isSpace ·)

@[simp] theorem visible_nil : visible [] = [] := rfl

@[simp] theorem visible_append (s t : List Char) : visible (s ++ t) = visible s ++ visible t :=
  List.filter_append ..

/-- A text of white space shows nothing. -/
theorem visible_eq_nil_iff {s : List Char} : visible s = [] ↔ ∀ c ∈ s, isSpace c = true := by
  simp [visible]

@[simp] theorem visible_strip (s : List Char) : visible (strip s) = visible s := by
  obtain ⟨before, after, hs, hbefore, hafter⟩ := eq_append_strip s
  calc visible (strip s)
    _ = visible before ++ (visible (strip s) ++ visible after) := by
      rw [visible_eq_nil_iff.mpr hbefore, visible_eq_nil_iff.mpr hafter, List.nil_append,
        List.append_nil]
    _ = visible s := by rw [← visible_append, ← visible_append, ← hs]

/-- A text is blank if it has white space only. -/
theorem strip_eq_nil_iff {s : List Char} : strip s = [] ↔ visible s = [] := by
  constructor
  · intro h
    rw [← visible_strip, h, visible_nil]
  · intro h
    rw [strip, List.dropWhile_eq_nil_iff.mpr (visible_eq_nil_iff.mp h), List.rdropWhile_nil]

theorem dropWhile_append_of_ne_nil {x : List Char} (h : x.dropWhile isSpace ≠ []) (y : List Char) :
    (x ++ y).dropWhile isSpace = x.dropWhile isSpace ++ y := by
  rw [List.dropWhile_append, if_neg (by simpa using h)]

theorem rdropWhile_append_of_ne_nil {y : List Char} (h : y.rdropWhile isSpace ≠ [])
    (x : List Char) : (x ++ y).rdropWhile isSpace = x ++ y.rdropWhile isSpace := by
  have hreverse : y.reverse.dropWhile isSpace ≠ [] := by
    intro hnil
    rw [List.rdropWhile, hnil] at h
    exact h rfl
  rw [List.rdropWhile, List.reverse_append, dropWhile_append_of_ne_nil hreverse,
    List.reverse_append, List.reverse_reverse]
  rfl

theorem rdropWhile_append_space {y : List Char} (h : ∀ c ∈ y, isSpace c = true) (x : List Char) :
    (x ++ y).rdropWhile isSpace = x.rdropWhile isSpace := by
  have hreverse : ∀ c ∈ y.reverse, isSpace c = true := fun c hc ↦ h c (List.mem_reverse.mp hc)
  rw [List.rdropWhile, List.reverse_append, List.dropWhile_append_of_pos hreverse]
  rfl

/-- Lower case only moves letters to letters. -/
theorem eq_of_toLower {c d : Char} (hd : d.val.toNat < 97) (h : c.toLower = d) : c = d := by
  unfold Char.toLower at h
  split at h
  · next hupper =>
    obtain ⟨hlow, hhigh⟩ := hupper
    subst h
    rw [ge_iff_le, UInt32.le_iff_toNat_le] at hlow
    rw [UInt32.le_iff_toNat_le] at hhigh
    rw [UInt32.toNat_add] at hd
    have hshift : ('a'.val - 'A'.val).toNat = 32 := by decide
    have hA : 'A'.val.toNat = 65 := by decide
    have hZ : 'Z'.val.toNat = 90 := by decide
    omega
  · exact h

end WikiMind.Base
