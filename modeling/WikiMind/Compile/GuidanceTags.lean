import WikiMind.Compile.Prompt

/-!
# What the guidance may still contain

`_sanitize_guidance` (`engine/compiler.py:141`) removes the guidance tags and then the runs of
hyphens, each in one pass. What a pass removes may have stood between the characters of a tag,
which the result then has. No run of hyphens comes back, and the length is capped in any case.
-/

namespace WikiMind.Compile

open WikiMind.Base WikiMind.Llm

/-- An opening or closing guidance tag, in any letter case: a full match of the pattern. -/
def IsTag (t : List Char) : Prop := t ≠ [] ∧ guidanceTag t = t.length

/-- A sanitized guidance: no guidance tag, no three hyphens in a row, and no more characters
than the cap. -/
structure Sanitized (cap : Nat) (guidance : String) : Prop where
  tags : ∀ t, IsTag t → ¬ t <:+: guidance.toList
  sentinels : ¬ List.replicate 3 '-' <:+: guidance.toList
  short : guidance.length ≤ cap

/-- A stretch of guidance tags and so many hyphens. -/
inductive Stretch : List Char → Nat → Prop
  | nil : Stretch [] 0
  | hyphen {s : List Char} {n : Nat} (h : Stretch s n) : Stretch ('-' :: s) (n + 1)
  | tag {t s : List Char} {n : Nat} (ht : IsTag t) (h : Stretch s n) : Stretch (t ++ s) n

/-- A stretch of tags alone, or with three hyphens or more. -/
def Removable (s : List Char) : Prop := ∃ n, Stretch s n ∧ (n = 0 ∨ 3 ≤ n)

/-- A text that spells a word, with nothing but removable stretches between its characters. -/
inductive Spells : List Char → List Char → Prop
  | single (c : Char) : Spells [c] [c]
  | cons (c : Char) {j s w : List Char} (hj : Removable j) (h : Spells s w) :
      Spells (c :: (j ++ s)) (c :: w)

/-- A text of so many characters between removable stretches. -/
inductive Keeps : List Char → Nat → Prop
  | nil : Keeps [] 0
  | char (c : Char) {s : List Char} {n : Nat} (h : Keeps s n) : Keeps (c :: s) (n + 1)
  | removable {j s : List Char} {n : Nat} (hj : Removable j) (h : Keeps s n) : Keeps (j ++ s) n

/-- A guidance tag is spelled somewhere with a removable stretch inside it, and ends among the
first characters that are kept. -/
def HidesTag (cap : Nat) (raw : List Char) : Prop :=
  ∃ before hidden after t n, raw = before ++ (hidden ++ after) ∧ IsTag t ∧ Spells hidden t ∧
    hidden ≠ t ∧ Keeps before n ∧ n + t.length ≤ cap

/-- The two patterns of a guidance tag, which differ in their second letter. -/
def tagEnd : List Char := ['g', 'u', 'i', 'd', 'a', 'n', 'c', 'e', '>']

def openingTag : List Char := '<' :: tagEnd

def closingTag : List Char := '<' :: '/' :: tagEnd

/-- The letters of a pattern against the characters of a text. -/
abbrev Matches (pattern t : List Char) : Prop := List.Forall₂ (ignoreCase · · = true) pattern t

/-- The test of `guidanceTag` for one of its patterns. -/
def startsAs (pattern s : List Char) : Bool :=
  pattern.length ≤ s.length && (pattern.zip s).all fun (letter, c) ↦ ignoreCase letter c

section Tags

variable {c : Char} {pattern s t : List Char}

private theorem startsAs_iff : startsAs pattern s = true ↔ ∃ t, Matches pattern t ∧ t <+: s := by
  unfold startsAs
  induction pattern generalizing s with
  | nil => simp
  | cons letter pattern ih =>
    cases s with
    | nil => simp
    | cons c s =>
      simp only [List.length_cons, Nat.add_le_add_iff_right, List.zip_cons_cons, List.all_cons,
        List.forall₂_cons_left_iff]
      rw [Bool.and_left_comm, Bool.and_eq_true, ih]
      constructor
      · rintro ⟨hc, t, ht, hstarts⟩
        exact ⟨c :: t, ⟨c, t, hc, ht, rfl⟩, List.cons_prefix_cons.mpr ⟨rfl, hstarts⟩⟩
      · rintro ⟨_, ⟨d, t, hd, ht, rfl⟩, hstarts⟩
        rw [List.cons_prefix_cons] at hstarts
        obtain ⟨rfl, hstarts⟩ := hstarts
        exact ⟨hd, t, ht, hstarts⟩

private theorem guidanceTag_eq (s : List Char) :
    guidanceTag s = if startsAs openingTag s then 10 else if startsAs closingTag s then 11 else 0 :=
  rfl

/-- No text starts with both tags. -/
theorem not_startsAs_both (hopen : startsAs openingTag s = true) :
    startsAs closingTag s = false := by
  rw [Bool.eq_false_iff]
  intro hclose
  obtain ⟨u, hu, r, rfl⟩ := startsAs_iff.mp hopen
  obtain ⟨v, hv, hstarts⟩ := startsAs_iff.mp hclose
  simp only [openingTag, closingTag, tagEnd, Matches, List.forall₂_cons_left_iff] at hu hv
  obtain ⟨a, _, -, ⟨b, _, hb, -, rfl⟩, rfl⟩ := hu
  obtain ⟨a', _, -, ⟨b', _, hb', -, rfl⟩, rfl⟩ := hv
  simp only [List.cons_append, List.cons_prefix_cons] at hstarts
  obtain ⟨-, rfl, -⟩ := hstarts
  have hslash : b' = '/' := by
    apply eq_of_toLower (by decide)
    simpa [ignoreCase] using hb'
  rw [hslash] at hb
  revert hb
  decide

private theorem isTag_iff : IsTag t ↔ Matches openingTag t ∨ Matches closingTag t := by
  have hfull : ∀ {pattern : List Char}, startsAs pattern t = true →
      t.length = pattern.length → Matches pattern t := by
    intro pattern hstarts hlength
    obtain ⟨u, hu, hstarts⟩ := startsAs_iff.mp hstarts
    have hut : u = t := hstarts.eq_of_length (by rw [hlength, hu.length_eq])
    rwa [hut] at hu
  unfold IsTag
  constructor
  · rintro ⟨hne, hlength⟩
    rw [guidanceTag_eq] at hlength
    split at hlength
    · next hopen => exact .inl (hfull hopen hlength.symm)
    · split at hlength
      · next hclose => exact .inr (hfull hclose hlength.symm)
      · exact absurd (List.length_eq_zero_iff.mp hlength.symm) hne
  · intro hmatches
    have hlen : 0 < t.length ∧ guidanceTag t = t.length := by
      rw [guidanceTag_eq]
      rcases hmatches with hopen | hclose
      · rw [if_pos (startsAs_iff.mpr ⟨t, hopen, List.prefix_rfl⟩), ← hopen.length_eq]
        decide
      · have hstarts := startsAs_iff.mpr ⟨t, hclose, List.prefix_rfl⟩
        have hopen : ¬ startsAs openingTag t = true := by
          intro hopen
          rw [not_startsAs_both hopen] at hstarts
          cases hstarts
        rw [if_neg hopen, if_pos hstarts, ← hclose.length_eq]
        decide
    exact ⟨List.ne_nil_of_length_pos hlen.1, hlen.2⟩

/-- A tag is found whatever follows it. -/
theorem IsTag.guidanceTag_append (h : IsTag t) (s : List Char) :
    guidanceTag (t ++ s) = t.length := by
  rw [guidanceTag_eq]
  rcases isTag_iff.mp h with hopen | hclose
  · rw [if_pos (startsAs_iff.mpr ⟨t, hopen, List.prefix_append t s⟩), ← hopen.length_eq]
    rfl
  · have hstarts := startsAs_iff.mpr ⟨t, hclose, List.prefix_append t s⟩
    have hopen : ¬ startsAs openingTag (t ++ s) = true := by
      intro hopen
      rw [not_startsAs_both hopen] at hstarts
      cases hstarts
    rw [if_neg hopen, if_pos hstarts, ← hclose.length_eq]
    rfl

/-- What is found is a tag. -/
theorem exists_tag_of_ne_zero (h : guidanceTag s ≠ 0) : ∃ t, IsTag t ∧ t <+: s := by
  rw [guidanceTag_eq] at h
  split at h
  · next hopen =>
    obtain ⟨t, ht, hstarts⟩ := startsAs_iff.mp hopen
    exact ⟨t, isTag_iff.mpr (.inl ht), hstarts⟩
  · split at h
    · next hclose =>
      obtain ⟨t, ht, hstarts⟩ := startsAs_iff.mp hclose
      exact ⟨t, isTag_iff.mpr (.inr ht), hstarts⟩
    · exact absurd rfl h

private theorem guidanceTag_eq_zero : guidanceTag s = 0 ↔ ∀ t, IsTag t → ¬ t <+: s := by
  constructor
  · rintro h t ht ⟨r, rfl⟩
    rw [ht.guidanceTag_append] at h
    exact ht.1 (List.length_eq_zero_iff.mp h)
  · intro h
    by_contra hne
    obtain ⟨t, ht, hstarts⟩ := exists_tag_of_ne_zero hne
    exact h t ht hstarts

/-- The letters of a pattern behind its first one match neither the start of a tag nor a
hyphen. -/
theorem plain_of_matches (hpattern : ∀ letter ∈ pattern, letter ∈ '/' :: tagEnd)
    (h : Matches pattern t) : ∀ c ∈ t, c ≠ '<' ∧ c ≠ '-' := by
  have hall : ('/' :: tagEnd).all (fun letter ↦
      ! ignoreCase letter '<' && ! ignoreCase letter '-') = true := by decide
  have hnone : ∀ letter ∈ '/' :: tagEnd,
      ignoreCase letter '<' = false ∧ ignoreCase letter '-' = false := by
    simpa only [Bool.and_eq_true, Bool.not_eq_true'] using List.all_eq_true.mp hall
  induction h with
  | nil => simp
  | @cons letter c pattern t hc h ih =>
    have hletter := hnone letter (hpattern letter List.mem_cons_self)
    rw [List.forall_mem_cons]
    refine ⟨⟨?_, ?_⟩, ih fun l hl ↦ hpattern l (List.mem_cons_of_mem _ hl)⟩
    · rintro rfl
      rw [hletter.1] at hc
      cases hc
    · rintro rfl
      rw [hletter.2] at hc
      cases hc

/-- A tag has its only angle bracket at its start, and no hyphen. -/
theorem IsTag.form (h : IsTag t) : ∃ tail, t = '<' :: tail ∧ ∀ c ∈ tail, c ≠ '<' ∧ c ≠ '-' := by
  have hform : ∀ {pattern : List Char}, (∀ letter ∈ pattern, letter ∈ '/' :: tagEnd) →
      Matches ('<' :: pattern) t → ∃ tail, t = '<' :: tail ∧ ∀ c ∈ tail, c ≠ '<' ∧ c ≠ '-' := by
    intro pattern hpattern hmatches
    obtain ⟨c, tail, hc, htail, rfl⟩ := List.forall₂_cons_left_iff.mp hmatches
    have hopen : c = '<' := by
      apply eq_of_toLower (by decide)
      simpa [ignoreCase] using hc
    exact ⟨tail, by rw [hopen], plain_of_matches hpattern htail⟩
  rcases isTag_iff.mp h with hopen | hclose
  · exact hform (fun letter hletter ↦ List.mem_cons_of_mem _ hletter) hopen
  · exact hform (fun letter hletter ↦ hletter) hclose

/-- Only an angle bracket starts a tag. -/
theorem guidanceTag_of_ne (h : c ≠ '<') (s : List Char) : guidanceTag (c :: s) = 0 := by
  rw [guidanceTag_eq_zero]
  intro t ht hstarts
  obtain ⟨tail, rfl, -⟩ := ht.form
  exact h (List.cons_prefix_cons.mp hstarts).1.symm

end Tags

/-- The first pass. -/
def withoutTags (s : List Char) : List Char := reSub guidanceTag 0 s

/-- The second pass. -/
def withoutSentinels (s : List Char) : List Char := reSub guidanceSentinel 0 s

section Passes

variable {c : Char} {s t x y j : List Char} {n : Nat}

private theorem reSub_skip (f : List Char → Nat) (n : Nat) (s : List Char) :
    reSub f n s = reSub f 0 (s.drop n) := by
  induction n generalizing s with
  | zero => rfl
  | succ n ih =>
    cases s with
    | nil => simp [reSub]
    | cons c s => exact ih s

private theorem reSub_keep {f : List Char → Nat} (h : f (c :: s) = 0) :
    reSub f 0 (c :: s) = c :: reSub f 0 s := by
  simp only [reSub, h]

private theorem reSub_remove {f : List Char → Nat} (hne : t ≠ []) (h : f (t ++ s) = t.length) :
    reSub f 0 (t ++ s) = reSub f 0 s := by
  obtain ⟨c, t, rfl⟩ := List.exists_cons_of_ne_nil hne
  rw [List.cons_append, List.length_cons] at h
  rw [List.cons_append]
  simp only [reSub, h]
  rw [reSub_skip, List.drop_left]

private theorem withoutTags_tag (h : IsTag t) (s : List Char) :
    withoutTags (t ++ s) = withoutTags s :=
  reSub_remove h.1 (h.guidanceTag_append s)

private theorem withoutTags_keep (h : guidanceTag (c :: s) = 0) :
    withoutTags (c :: s) = c :: withoutTags s := reSub_keep h

/-- What has no angle bracket stays. -/
theorem withoutTags_append_of_ne (h : ∀ c ∈ x, c ≠ '<') (s : List Char) :
    withoutTags (x ++ s) = x ++ withoutTags s := by
  induction x with
  | nil => rfl
  | cons c x ih =>
    rw [List.forall_mem_cons] at h
    rw [List.cons_append, withoutTags_keep (guidanceTag_of_ne h.1 _), ih h.2, List.cons_append]

/-- A text is cut where a tag may start. -/
theorem withoutTags_append (x y : List Char) :
    withoutTags (x ++ '<' :: y) = withoutTags x ++ withoutTags ('<' :: y) := by
  induction hn : x.length using Nat.strong_induction_on generalizing x with
  | _ n ih =>
    cases x with
    | nil => rfl
    | cons c x =>
      by_cases hzero : guidanceTag (c :: x ++ '<' :: y) = 0
      · have hshort : guidanceTag (c :: x) = 0 := by
          rw [guidanceTag_eq_zero] at hzero ⊢
          intro t ht hstarts
          exact hzero t ht (hstarts.trans (List.prefix_append _ _))
        have hlt : x.length < n := by rw [← hn, List.length_cons]; omega
        rw [List.cons_append] at hzero ⊢
        rw [withoutTags_keep hzero, withoutTags_keep hshort, ih _ hlt x rfl, List.cons_append]
      · -- the tag does not reach over the next angle bracket
        obtain ⟨t, ht, r, hr⟩ := exists_tag_of_ne_zero hzero
        obtain ⟨tail, rfl, htail⟩ := ht.form
        obtain ⟨z, hx, -⟩ | ⟨z, hx, hz⟩ := List.append_eq_append_iff.mp hr
        · rw [hx, List.append_assoc, withoutTags_tag ht, withoutTags_tag ht]
          refine ih _ ?_ z rfl
          rw [← hn, hx, List.length_append, List.length_cons]
          omega
        · cases z with
          | nil =>
            rw [List.append_nil] at hx
            rw [← hx, withoutTags_tag ht, ← List.append_nil ('<' :: tail), withoutTags_tag ht]
            rfl
          | cons d z =>
            obtain ⟨rfl, -⟩ := List.cons.inj hz
            rw [List.cons_append, List.cons.injEq] at hx
            have hmem : '<' ∈ tail := by rw [hx.2]; simp
            exact absurd rfl (htail '<' hmem).1

/-- Of a stretch the hyphens remain. -/
theorem withoutTags_stretch (h : Stretch j n) (s : List Char) :
    withoutTags (j ++ s) = List.replicate n '-' ++ withoutTags s := by
  induction h with
  | nil => rfl
  | hyphen h ih =>
    rw [List.cons_append, withoutTags_keep (guidanceTag_of_ne (by decide) _), ih]
    rfl
  | tag ht h ih => rw [List.append_assoc, withoutTags_tag ht, ih]

private theorem withoutSentinels_keep (h : c ≠ '-') (s : List Char) :
    withoutSentinels (c :: s) = c :: withoutSentinels s := by
  apply reSub_keep
  simp [guidanceSentinel, h]

/-- What has no hyphen stays. -/
theorem withoutSentinels_append_of_ne (h : ∀ c ∈ x, c ≠ '-') (s : List Char) :
    withoutSentinels (x ++ s) = x ++ withoutSentinels s := by
  induction x with
  | nil => rfl
  | cons c x ih =>
    rw [List.forall_mem_cons] at h
    rw [List.cons_append, withoutSentinels_keep h.1, ih h.2, List.cons_append]

/-- Three hyphens or more are removed, fewer stay. -/
theorem withoutSentinels_run (n : Nat) (hs : s.head? ≠ some '-') :
    withoutSentinels (List.replicate n '-' ++ s) =
      (if 3 ≤ n then [] else List.replicate n '-') ++ withoutSentinels s := by
  have hrun : ∀ m, (List.replicate m '-' ++ s).takeWhile (· = '-') = List.replicate m '-' := by
    intro m
    rw [List.takeWhile_append_of_pos (by simp)]
    cases s with
    | nil => simp
    | cons c s =>
      have hc : c ≠ '-' := by simpa using hs
      simp [hc]
  split
  · next hlong =>
    rw [List.nil_append]
    apply reSub_remove
    · exact List.ne_nil_of_length_pos (by rw [List.length_replicate]; omega)
    · unfold guidanceSentinel
      simp only [hrun, List.length_replicate, hlong, if_true]
  · next hshort =>
    have hkept : ∀ m < 3, withoutSentinels (List.replicate m '-' ++ s) =
        List.replicate m '-' ++ withoutSentinels s := by
      intro m hm
      induction m with
      | zero => rfl
      | succ m ih =>
        rw [List.replicate_succ, List.cons_append, List.cons_append, ← ih (by omega)]
        apply reSub_keep
        rw [← List.cons_append, ← List.replicate_succ]
        unfold guidanceSentinel
        simp only [hrun, List.length_replicate]
        rw [if_neg (by omega)]
    exact hkept n (by omega)

/-- A text starts with some hyphens and goes on with another character, if at all. -/
theorem exists_run (s : List Char) :
    ∃ n r, s = List.replicate n '-' ++ r ∧ r.head? ≠ some '-' := by
  induction s with
  | nil => exact ⟨0, [], rfl, by simp⟩
  | cons c s ih =>
    by_cases hc : c = '-'
    · obtain ⟨n, r, rfl, hr⟩ := ih
      exact ⟨n + 1, r, by rw [hc, List.replicate_succ, List.cons_append], hr⟩
    · exact ⟨0, c :: s, rfl, by simpa using hc⟩

/-- A text is cut in front of a character other than a hyphen. -/
theorem withoutSentinels_append (hc : c ≠ '-') (x y : List Char) :
    withoutSentinels (x ++ c :: y) = withoutSentinels x ++ withoutSentinels (c :: y) := by
  induction hlength : x.length using Nat.strong_induction_on generalizing x with
  | _ length ih =>
    obtain ⟨n, r, rfl, hr⟩ := exists_run x
    cases r with
    | nil =>
      have hhead : (c :: y).head? ≠ some '-' := by simpa using hc
      rw [List.append_nil, withoutSentinels_run n hhead]
      congr 1
      simpa [withoutSentinels, reSub] using (withoutSentinels_run n (s := []) (by simp)).symm
    | cons d r =>
      have hd : d ≠ '-' := by simpa using hr
      have hhead : (d :: (r ++ c :: y)).head? ≠ some '-' := by simpa using hd
      have hlt : r.length < length := by
        rw [← hlength, List.length_append, List.length_cons]
        omega
      rw [List.append_assoc, List.cons_append, withoutSentinels_run n hhead,
        withoutSentinels_run n hr, withoutSentinels_keep hd, withoutSentinels_keep hd,
        ih _ hlt r rfl, List.append_assoc, List.cons_append]

/-- No three hyphens in a row remain. -/
theorem not_infix_withoutSentinels (s : List Char) :
    ¬ List.replicate 3 '-' <:+: withoutSentinels s := by
  induction hlength : s.length using Nat.strong_induction_on generalizing s with
  | _ length ih =>
    obtain ⟨n, r, rfl, hr⟩ := exists_run s
    rw [withoutSentinels_run n hr]
    have hkept : (if 3 ≤ n then [] else List.replicate n '-').length < 3 := by
      split
      · decide
      · rw [List.length_replicate]
        omega
    generalize (if 3 ≤ n then [] else List.replicate n '-') = kept at hkept
    have hshort : ¬ List.replicate 3 '-' <:+: kept := by
      intro h
      have hle := h.length_le
      rw [List.length_replicate] at hle
      omega
    cases r with
    | nil =>
      rw [show withoutSentinels [] = [] from rfl, List.append_nil]
      exact hshort
    | cons d r =>
      have hd : d ≠ '-' := by simpa using hr
      rw [withoutSentinels_keep hd]
      intro h
      have hnot : d ∉ List.replicate 3 '-' := by simpa using hd
      rcases infix_of_infix_append_cons hnot h with hleft | hright
      · exact hshort hleft
      · refine ih _ ?_ r rfl hright
        rw [← hlength, List.length_append, List.length_cons]
        omega

/-- One more character adds at most one to what remains. -/
theorem length_withoutSentinels_cons (c : Char) (s : List Char) :
    (withoutSentinels (c :: s)).length ≤ (withoutSentinels s).length + 1 := by
  by_cases hc : c = '-'
  · obtain ⟨n, r, rfl, hr⟩ := exists_run s
    rw [hc, ← List.cons_append, ← List.replicate_succ, withoutSentinels_run _ hr,
      withoutSentinels_run _ hr, List.length_append, List.length_append]
    split
    · rw [List.length_nil]
      omega
    · rw [if_neg (by omega), List.length_replicate, List.length_replicate]
      omega
  · rw [withoutSentinels_keep hc, List.length_cons]

/-- Hyphens that are removed join no others. -/
theorem length_withoutSentinels_run (hn : n = 0 ∨ 3 ≤ n) (s : List Char) :
    (withoutSentinels (List.replicate n '-' ++ s)).length ≤ (withoutSentinels s).length := by
  rcases hn with rfl | hn
  · exact le_rfl
  · obtain ⟨m, r, rfl, hr⟩ := exists_run s
    rw [← List.append_assoc, ← List.replicate_add, withoutSentinels_run _ hr,
      withoutSentinels_run _ hr, if_pos (by omega), List.nil_append, List.length_append]
    omega

end Passes

/-- What the passes keep of a text: characters that start no tag, with removable stretches
between. -/
inductive Leaves : List Char → List Char → Prop
  | nil {j : List Char} (hj : Removable j) : Leaves j []
  | cons {c : Char} {j s w : List Char} (hj : Removable j) (hc : guidanceTag (c :: s) = 0)
      (h : Leaves s w) : Leaves (j ++ c :: s) (c :: w)

section Spelling

variable {c : Char} {raw s t u v w x y j after : List Char} {n cap : Nat}

private theorem removable_nil : Removable [] := ⟨0, .nil, .inl rfl⟩

theorem Removable.tag (ht : IsTag t) (h : Removable j) : Removable (t ++ j) := by
  obtain ⟨n, hj, hn⟩ := h
  exact ⟨n, .tag ht hj, hn⟩

theorem Leaves.tag (ht : IsTag t) (h : Leaves s w) : Leaves (t ++ s) w := by
  cases h with
  | nil hj => exact .nil (hj.tag ht)
  | cons hj hc h =>
    rw [← List.append_assoc]
    exact .cons (hj.tag ht) hc h

/-- The hyphens of a stretch may be kept. -/
theorem Leaves.stretch (hj : Stretch j n) (h : Leaves s w) :
    Leaves (j ++ s) (List.replicate n '-' ++ w) := by
  induction hj with
  | nil => exact h
  | hyphen hj ih => exact .cons removable_nil (guidanceTag_of_ne (by decide) _) ih
  | tag ht hj ih =>
    rw [List.append_assoc]
    exact ih.tag ht

/-- A text is a stretch, up to a character that is neither a hyphen nor the start of a tag. -/
theorem exists_stretch (s : List Char) : ∃ j r n, s = j ++ r ∧ Stretch j n ∧
    (r = [] ∨ ∃ c r', r = c :: r' ∧ c ≠ '-' ∧ guidanceTag (c :: r') = 0) := by
  induction hlength : s.length using Nat.strong_induction_on generalizing s with
  | _ length ih =>
    cases s with
    | nil => exact ⟨[], [], 0, rfl, .nil, .inl rfl⟩
    | cons c s =>
      rw [List.length_cons] at hlength
      by_cases hzero : guidanceTag (c :: s) = 0
      · by_cases hc : c = '-'
        · obtain ⟨j, r, n, rfl, hj, hr⟩ := ih _ (by omega) s rfl
          exact ⟨c :: j, r, n + 1, rfl, hc ▸ .hyphen hj, hr⟩
        · exact ⟨[], c :: s, 0, rfl, .nil, .inr ⟨c, s, rfl, hc, hzero⟩⟩
      · obtain ⟨t, ht, r, hr⟩ := exists_tag_of_ne_zero hzero
        have hpos : 0 < t.length := List.length_pos_iff.mpr ht.1
        have hsum := congrArg List.length hr
        rw [List.length_append, List.length_cons] at hsum
        obtain ⟨j, r, n, rfl, hj, hend⟩ := ih _ (by omega) r rfl
        exact ⟨t ++ j, r, n, by rw [← hr, List.append_assoc], .tag ht hj, hend⟩

/-- The two passes leave what they keep. -/
theorem leaves_passes (raw : List Char) : Leaves raw (withoutSentinels (withoutTags raw)) := by
  induction hlength : raw.length using Nat.strong_induction_on generalizing raw with
  | _ length ih =>
    obtain ⟨j, r, n, rfl, hj, hr⟩ := exists_stretch raw
    rw [withoutTags_stretch hj]
    rcases hr with rfl | ⟨c, r, rfl, hc, hzero⟩
    · rw [show withoutTags [] = [] from rfl, withoutSentinels_run n (by simp)]
      split
      · next hlong => exact .nil ⟨n, by simpa using hj, .inr hlong⟩
      · exact .stretch hj (.nil removable_nil)
    · have hrest : Leaves r (withoutSentinels (withoutTags r)) := by
        refine ih _ ?_ r rfl
        rw [← hlength, List.length_append, List.length_cons]
        omega
      have hhead : (c :: withoutTags r).head? ≠ some '-' := by simpa using hc
      rw [withoutTags_keep hzero, withoutSentinels_run n hhead, withoutSentinels_keep hc]
      split
      · next hlong => exact .cons ⟨n, hj, .inr hlong⟩ hzero hrest
      · exact .stretch hj (.cons removable_nil hzero hrest)

theorem Keeps.append (h : Keeps s n) (hj : Removable j) : Keeps (s ++ j) n := by
  induction h with
  | nil => simpa using Keeps.removable hj .nil
  | char c h ih => exact .char c ih
  | removable hj' h ih =>
    rw [List.append_assoc]
    exact .removable hj' ih

/-- What is left is found in the text, behind one that keeps the characters before it. -/
theorem Leaves.split (h : Leaves raw (u ++ c :: v)) :
    ∃ x y, raw = x ++ c :: y ∧ Keeps x u.length ∧ guidanceTag (c :: y) = 0 ∧ Leaves y v := by
  induction u generalizing raw with
  | nil =>
    cases h with
    | cons hj hc h => exact ⟨_, _, rfl, by simpa using Keeps.removable hj .nil, hc, h⟩
  | cons d u ih =>
    cases h with
    | @cons _ j s _ hj _ h =>
      obtain ⟨x, y, rfl, hkeeps, hc, hy⟩ := ih h
      exact ⟨j ++ d :: x, y, by simp, .removable hj (.char d hkeeps), hc, hy⟩

/-- A word that is left is spelled by the text. -/
theorem Leaves.spells (h : Leaves y (w ++ v)) :
    ∃ s rest, c :: y = s ++ rest ∧ Spells s (c :: w) := by
  induction w generalizing c y with
  | nil => exact ⟨[c], y, rfl, .single c⟩
  | cons d w ih =>
    cases h with
    | @cons _ j y' _ hj _ h =>
      obtain ⟨s, rest, hs, hspells⟩ := ih (c := d) h
      exact ⟨c :: (j ++ s), rest, by rw [hs]; simp, .cons c hj hspells⟩

/-- A tag that is left was hidden. -/
theorem hidesTag_of_part (ht : IsTag t)
    (h : t <:+: (withoutSentinels (withoutTags raw)).take cap) : HidesTag cap raw := by
  obtain ⟨u, v, huv⟩ := h
  obtain ⟨rest, hrest⟩ := List.take_prefix cap (withoutSentinels (withoutTags raw))
  obtain ⟨tail, rfl, -⟩ := ht.form
  have hleaves := leaves_passes raw
  rw [← hrest, ← huv, List.append_assoc, List.append_assoc, List.cons_append] at hleaves
  obtain ⟨x, y, rfl, hkeeps, hzero, hy⟩ := hleaves.split
  obtain ⟨s, after, hs, hspells⟩ := hy.spells (c := '<')
  refine ⟨x, s, after, '<' :: tail, u.length, by rw [hs], ht, hspells, ?_, hkeeps, ?_⟩
  · -- as a whole it would have been removed
    rintro rfl
    rw [hs, ht.guidanceTag_append] at hzero
    cases hzero
  · have hlength := congrArg List.length huv
    rw [List.length_append, List.length_append, List.length_take] at hlength
    omega

/-- A stretch that is not empty starts with an angle bracket or a hyphen. -/
theorem Stretch.head (h : Stretch (c :: j) n) : c = '<' ∨ c = '-' := by
  generalize hs : c :: j = s at h
  induction h with
  | nil => cases hs
  | hyphen h ih => exact .inr (List.cons.inj hs).1
  | tag ht h ih =>
    obtain ⟨tail, rfl, -⟩ := ht.form
    exact .inl (List.cons.inj hs).1

/-- A text that spells a word with a stretch inside agrees with a tag for a part of the word
only. -/
theorem Spells.prefix_lt (h : Spells s w) (hne : s ≠ w) {d : Char}
    (hu : ∀ c ∈ u, c ≠ '<' ∧ c ≠ '-') (hstarts : d :: u <+: s ++ after) :
    d :: u <+: w ∧ (d :: u).length < w.length := by
  induction h generalizing d u with
  | single c => exact absurd rfl hne
  | @cons c j s w hj h ih =>
    rw [List.cons_append, List.cons_prefix_cons] at hstarts
    obtain ⟨rfl, hstarts⟩ := hstarts
    have hw : 0 < w.length := by cases h <;> simp
    cases u with
    | nil => exact ⟨by simp, by simpa using hw⟩
    | cons e u =>
      rw [List.forall_mem_cons] at hu
      cases j with
      | nil =>
        obtain ⟨hw, hlt⟩ := ih (fun heq ↦ hne (by rw [heq]; rfl)) hu.2 hstarts
        rw [List.cons_prefix_cons, List.length_cons, List.length_cons]
        exact ⟨⟨rfl, hw⟩, by simpa using hlt⟩
      | cons f j =>
        obtain ⟨n, hstretch, -⟩ := hj
        have hef : e = f := (List.cons_prefix_cons.mp hstarts).1
        rcases hstretch.head with hf | hf
        · exact absurd (hef.trans hf) hu.1.1
        · exact absurd (hef.trans hf) hu.1.2

/-- No tag starts where another one is hidden. -/
theorem guidanceTag_hidden (ht : IsTag t) (h : Spells s t) (hne : s ≠ t) (after : List Char) :
    guidanceTag (s ++ after) = 0 := by
  rw [guidanceTag_eq_zero]
  intro u hu hstarts
  obtain ⟨tail, rfl, htail⟩ := hu.form
  obtain ⟨⟨r, hr⟩, hlt⟩ := h.prefix_lt hne htail hstarts
  have hlength := ht.2
  rw [← hr, hu.guidanceTag_append] at hlength
  rw [← hr] at hlt
  omega

/-- The passes leave a word that is spelled without angle brackets behind its first character. -/
theorem Spells.passes (h : Spells s (c :: w)) (hc : c ≠ '-') (hw : ∀ d ∈ w, d ≠ '<' ∧ d ≠ '-')
    (hzero : guidanceTag (s ++ after) = 0) :
    ∃ x r, withoutTags (s ++ after) = c :: x ∧ withoutSentinels (c :: x) = c :: (w ++ r) := by
  induction w generalizing c s with
  | nil =>
    cases h with
    | single =>
      exact ⟨_, _, withoutTags_keep hzero, withoutSentinels_keep hc _⟩
    | cons _ _ h => cases h
  | cons d w ih =>
    rw [List.forall_mem_cons] at hw
    cases h with
    | @cons _ j s _ hj h =>
      obtain ⟨n, hstretch, hn⟩ := hj
      obtain ⟨s', rfl⟩ : ∃ s', s = d :: s' := by cases h <;> exact ⟨_, rfl⟩
      obtain ⟨x, r, hx, hr⟩ := ih h hw.1.2 hw.2 (guidanceTag_of_ne hw.1.1 _)
      have hhead : (d :: x).head? ≠ some '-' := by simpa using hw.1.2
      have hrun : (if 3 ≤ n then [] else List.replicate n '-') = [] := by
        rcases hn with rfl | hn
        · rfl
        · rw [if_pos hn]
      refine ⟨List.replicate n '-' ++ d :: x, r, ?_, ?_⟩
      · rw [List.cons_append] at hzero ⊢
        rw [withoutTags_keep hzero, List.append_assoc, withoutTags_stretch hstretch, hx]
      · rw [withoutSentinels_keep hc, withoutSentinels_run n hhead, hrun, hr]
        rfl

/-- No more is left of a text than it keeps. -/
theorem Keeps.length_le (h : Keeps s n) :
    (withoutSentinels (withoutTags s)).length ≤ n := by
  induction h with
  | nil => exact le_rfl
  | @char c s n h ih =>
    by_cases hzero : guidanceTag (c :: s) = 0
    · rw [withoutTags_keep hzero]
      exact (length_withoutSentinels_cons c _).trans (Nat.succ_le_succ ih)
    · -- the character completes a tag: what remained of that is removed with it
      obtain ⟨t, ht, r, hr⟩ := exists_tag_of_ne_zero hzero
      obtain ⟨tail, rfl, htail⟩ := ht.form
      rw [List.cons_append, List.cons.injEq] at hr
      obtain ⟨rfl, rfl⟩ := hr
      rw [withoutTags_append_of_ne fun d hd ↦ (htail d hd).1] at ih
      rw [withoutSentinels_append_of_ne fun d hd ↦ (htail d hd).2, List.length_append] at ih
      rw [← List.cons_append, withoutTags_tag ht]
      omega
  | removable hj h ih =>
    obtain ⟨m, hstretch, hm⟩ := hj
    rw [withoutTags_stretch hstretch]
    exact (length_withoutSentinels_run hm _).trans ih

/-- A hidden tag comes to light. -/
theorem HidesTag.exists_infix (h : HidesTag cap raw) :
    ∃ t, IsTag t ∧ t <:+: (withoutSentinels (withoutTags raw)).take cap := by
  obtain ⟨before, hidden, after, t, n, rfl, ht, hspells, hne, hkeeps, hcap⟩ := h
  refine ⟨t, ht, ?_⟩
  have hzero := guidanceTag_hidden ht hspells hne after
  obtain ⟨tail, rfl, htail⟩ := ht.form
  obtain ⟨s, rfl⟩ : ∃ s, hidden = '<' :: s := by cases hspells <;> exact ⟨_, rfl⟩
  obtain ⟨x, r, hx, hr⟩ := hspells.passes (by decide) htail hzero
  have hle := hkeeps.length_le
  rw [List.cons_append, withoutTags_append, ← List.cons_append, hx,
    withoutSentinels_append (by decide), hr]
  have htake : withoutSentinels (withoutTags before) ++ '<' :: tail <+:
      (withoutSentinels (withoutTags before) ++ '<' :: (tail ++ r)).take cap := by
    rw [List.prefix_take_iff, List.length_append]
    exact ⟨⟨r, by simp⟩, by omega⟩
  exact (List.suffix_append _ _).isInfix.trans htake.isInfix

end Spelling

private theorem sanitizeGuidance_toList (env : Env) (raw : String) :
    (sanitizeGuidance env raw).toList =
      (withoutSentinels (withoutTags raw.toList)).take env.guidanceMaxLength := by
  unfold sanitizeGuidance
  rw [String.toList_ofList]
  rfl

/-- The guidance is sanitized unless the text hides a tag. -/
theorem sanitized_iff (env : Env) (raw : String) :
    Sanitized env.guidanceMaxLength (sanitizeGuidance env raw) ↔
      ¬ HidesTag env.guidanceMaxLength raw.toList := by
  constructor
  · intro h hhides
    obtain ⟨t, ht, hpart⟩ := hhides.exists_infix
    rw [← sanitizeGuidance_toList] at hpart
    exact h.tags t ht hpart
  · intro h
    constructor
    · intro t ht hpart
      rw [sanitizeGuidance_toList] at hpart
      exact h (hidesTag_of_part ht hpart)
    · rw [sanitizeGuidance_toList]
      intro hpart
      exact not_infix_withoutSentinels _ (hpart.trans (List.take_prefix _ _).isInfix)
    · rw [← String.length_toList, sanitizeGuidance_toList, List.length_take]
      exact Nat.min_le_left _ _

/-- A tag within a tag, and hyphens within a tag: both leave the closing tag. -/
theorem closing_tag_left :
    ¬ Sanitized 2000 (sanitizeGuidance { sampleEnv with guidanceMaxLength := 2000 }
        "</gui<guidance>dance>") ∧
      ¬ Sanitized 2000 (sanitizeGuidance { sampleEnv with guidanceMaxLength := 2000 }
        "</gui---dance>") := by
  have htag : IsTag "</guidance>".toList := ⟨by decide, by decide⟩
  constructor
  · intro h
    refine h.tags _ htag ?_
    decide +kernel
  · intro h
    refine h.tags _ htag ?_
    decide +kernel

end WikiMind.Compile
