import Mathlib.Data.List.Chain
import WikiMind.Compile.ResolvedBacklinks

/-!
# The keys of titles

`normalize_title` (`engine/title_normalizer.py:33`) is the key under which the resolver looks a
title up. Its passes run one after the other, and none of them undoes what an earlier one did:
a key consists of runs of letters and digits with one hyphen between two of them, and every
pass leaves such a text alone.
-/

namespace WikiMind.Compile

open WikiMind.Base

/-- A text in ASCII, where `nfkd` is `unicodedata.normalize("NFKD", ·)`. -/
def asciiForm (nfkd : String → String) (s : String) : List Char :=
  (nfkd s).toList.filter (·.toNat < 128)

/-- Runs of `[a-z0-9]`, none of them empty, with one hyphen between two of them. -/
def IsTitleKey (w : List Char) : Prop :=
  ∃ runs : List (List Char), (∀ run ∈ runs, run ≠ [] ∧ ∀ c ∈ run, isAlnum c) ∧
    w = ['-'].intercalate runs

/-- What the passes establish: the characters of a key, no hyphen at either end and no two
hyphens in a row. -/
structure Hyphenated (w : List Char) : Prop where
  chars : ∀ c ∈ w, c = '-' ∨ isAlnum c
  head : w.head? ≠ some '-'
  last : w.getLast? ≠ some '-'
  chain : w.IsChain fun c d ↦ c = '-' → d ≠ '-'

section Passes

/-- Letters and digits of a key are ASCII, in lower case and no apostrophe. -/
theorem of_isAlnum {c : Char} (h : c = '-' ∨ isAlnum c) :
    c.toNat < 128 ∧ c.toLower = c ∧ c ≠ '\'' := by
  obtain rfl | h := h
  · decide
  · have hval : ('a' ≤ c ∧ c ≤ 'z') ∨ ('0' ≤ c ∧ c ≤ '9') := by simpa [isAlnum] using h
    simp only [Char.le_def, UInt32.le_iff_toNat_le] at hval
    change (97 ≤ c.toNat ∧ c.toNat ≤ 122) ∨ (48 ≤ c.toNat ∧ c.toNat ≤ 57) at hval
    refine ⟨by omega, ?_, ?_⟩
    · unfold Char.toLower
      rw [dif_neg]
      simp only [ge_iff_le, UInt32.le_iff_toNat_le]
      change ¬ (65 ≤ c.toNat ∧ c.toNat ≤ 90)
      omega
    · rintro rfl
      revert hval
      decide

/-- Collapsing hyphens leaves no two in a row, and none right behind a hyphen. -/
theorem chain_squeeze (inRun : Bool) (s : List Char) :
    (squeeze (· = '-') inRun s).IsChain (fun c d ↦ c = '-' → d ≠ '-') ∧
      (inRun = true → (squeeze (· = '-') inRun s).head? ≠ some '-') := by
  induction s generalizing inRun with
  | nil => simp [squeeze]
  | cons c s ih =>
    by_cases hc : c = '-'
    · subst hc
      cases inRun with
      | true => simpa [squeeze] using ih true
      | false =>
        obtain ⟨hchain, hhead⟩ := ih true
        have hne : ∀ d ∈ (squeeze (· = '-') true s).head?, d ≠ '-' := by
          rintro d hd rfl
          exact hhead rfl hd
        have hcollapse : squeeze (· = '-') false ('-' :: s) = '-' :: squeeze (· = '-') true s := by
          simp [squeeze]
        rw [hcollapse, List.isChain_cons]
        exact ⟨⟨fun d hd _ ↦ hne d hd, hchain⟩, by simp⟩
    · have hkeep : squeeze (· = '-') inRun (c :: s) = c :: squeeze (· = '-') false s := by
        simp [squeeze, hc]
      rw [hkeep, List.isChain_cons]
      refine ⟨⟨fun d _ h ↦ absurd h hc, (ih false).1⟩, fun _ ↦ ?_⟩
      simpa using hc

private theorem squeeze_append_of_ne {d : Char} (hd : d ≠ '-') (inRun : Bool) (s : List Char) :
    squeeze (· = '-') inRun (s ++ [d]) = squeeze (· = '-') inRun s ++ [d] := by
  induction s generalizing inRun with
  | nil => simp [squeeze, hd]
  | cons c s ih =>
    simp only [List.cons_append, squeeze, ih]
    split
    · split
      · rfl
      · rfl
    · rfl

/-- A pass leaves a text alone in which it finds no character of its kind. -/
theorem squeeze_of_none {kind : Char → Bool} {s : List Char} (h : ∀ c ∈ s, kind c = false)
    (inRun : Bool) : squeeze kind inRun s = s := by
  induction s generalizing inRun with
  | nil => rfl
  | cons c s ih =>
    rw [squeeze, h c List.mem_cons_self, if_neg Bool.false_ne_true,
      ih fun d hd ↦ h d (List.mem_cons_of_mem _ hd)]

/-- Collapsing leaves a text alone that has no two hyphens in a row. -/
theorem squeeze_of_chain {s : List Char} (h : s.IsChain fun c d ↦ c = '-' → d ≠ '-')
    {inRun : Bool} (hhead : inRun = true → s.head? ≠ some '-') :
    squeeze (· = '-') inRun s = s := by
  induction s generalizing inRun with
  | nil => rfl
  | cons c s ih =>
    obtain ⟨hnext, hchain⟩ := List.isChain_cons.mp h
    by_cases hc : c = '-'
    · subst hc
      have hrest : squeeze (· = '-') true s = s := ih hchain fun _ hd ↦ hnext _ hd rfl rfl
      cases inRun with
      | true => exact absurd rfl (hhead rfl)
      | false => simp [squeeze, hrest]
    · have hrest : squeeze (· = '-') false s = s := ih hchain (by simp)
      simp [squeeze, hc, hrest]

/-- Stripping leaves no hyphen at either end. -/
theorem ends_strip (s : List Char) :
    let stripped := (s.dropWhile (· = '-')).rdropWhile (· = '-')
    stripped.head? ≠ some '-' ∧ stripped.getLast? ≠ some '-' := by
  constructor
  · intro hhead
    obtain ⟨rest, hrest⟩ := List.rdropWhile_prefix (· = '-') (s.dropWhile (· = '-'))
    have hfirst := List.head?_dropWhile_not (fun c ↦ decide (c = '-')) s
    rw [← hrest, List.head?_append, hhead] at hfirst
    simp at hfirst
  · intro hlast
    have hne : (s.dropWhile (· = '-')).rdropWhile (· = '-') ≠ [] := by
      intro hnil
      rw [hnil] at hlast
      cases hlast
    have hnot := List.rdropWhile_last_not _ _ hne
    rw [List.getLast?_eq_some_getLast hne] at hlast
    simp [Option.some.inj hlast] at hnot

private theorem strip_of_ends {s : List Char} (hhead : s.head? ≠ some '-')
    (hlast : s.getLast? ≠ some '-') :
    (s.dropWhile (· = '-')).rdropWhile (· = '-') = s := by
  have hfront : s.dropWhile (· = '-') = s := by
    cases s with
    | nil => rfl
    | cons c s => exact List.dropWhile_cons_of_neg (by simpa using hhead)
  rw [hfront, List.rdropWhile_eq_self_iff]
  intro hne
  rw [List.getLast?_eq_some_getLast hne] at hlast
  simpa using hlast

end Passes

section Keys

/-- The last two passes, behind those that put hyphens in. -/
theorem normalizeTitle_eq_squeeze (toAscii : String → List Char) (s : String) :
    ∃ hyphenated : List Char, (normalizeTitle toAscii s).toList =
      squeeze (· = '-') false ((hyphenated.dropWhile (· = '-')).rdropWhile (· = '-')) :=
  ⟨_, String.toList_ofList⟩

private theorem hyphenated_normalizeTitle (toAscii : String → List Char) (s : String) :
    Hyphenated (normalizeTitle toAscii s).toList where
  chars _ hc := of_mem_normalizeTitle hc
  head := by
    obtain ⟨hyphenated, hkey⟩ := normalizeTitle_eq_squeeze toAscii s
    have hends := (ends_strip hyphenated).1
    rw [hkey]
    cases hstripped : (hyphenated.dropWhile (· = '-')).rdropWhile (· = '-') with
    | nil => simp [squeeze]
    | cons c s =>
      have hc : c ≠ '-' := by simpa [hstripped] using hends
      simp [squeeze, hc]
  last := by
    obtain ⟨hyphenated, hkey⟩ := normalizeTitle_eq_squeeze toAscii s
    have hends := (ends_strip hyphenated).2
    rw [hkey]
    obtain hnil | ⟨front, d, hsplit⟩ :=
      List.eq_nil_or_concat' ((hyphenated.dropWhile (· = '-')).rdropWhile (· = '-'))
    · simp [hnil, squeeze]
    · have hd : d ≠ '-' := by simpa [hsplit] using hends
      rw [hsplit, squeeze_append_of_ne hd]
      simpa using hd
  chain := by
    obtain ⟨hyphenated, hkey⟩ := normalizeTitle_eq_squeeze toAscii s
    rw [hkey]
    exact (chain_squeeze _ _).1

/-- The runs of a text that may still start with a hyphen. -/
theorem exists_runs {w : List Char} (hchars : ∀ c ∈ w, c = '-' ∨ isAlnum c)
    (hlast : w.getLast? ≠ some '-') (hchain : w.IsChain fun c d ↦ c = '-' → d ≠ '-') :
    ∃ runs : List (List Char), (∀ run ∈ runs, run ≠ [] ∧ ∀ c ∈ run, isAlnum c) ∧
      (w = ['-'].intercalate runs ∨ runs ≠ [] ∧ w = '-' :: ['-'].intercalate runs) := by
  induction w with
  | nil => exact ⟨[], by simp, .inl rfl⟩
  | cons c w ih =>
    obtain ⟨hnext, hrest⟩ := List.isChain_cons.mp hchain
    have hlast' : w.getLast? ≠ some '-' := by
      intro h
      apply hlast
      rw [List.getLast?_cons, h]
      rfl
    obtain ⟨runs, hruns, hw⟩ :=
      ih (fun d hd ↦ hchars d (List.mem_cons_of_mem _ hd)) hlast' hrest
    obtain rfl | hc := hchars c List.mem_cons_self
    · -- behind a hyphen there is a run
      refine ⟨runs, hruns, .inr ?_⟩
      obtain rfl | ⟨-, rfl⟩ := hw
      · refine ⟨?_, rfl⟩
        rintro rfl
        exact hlast rfl
      · exact absurd rfl (hnext '-' rfl rfl)
    · obtain rfl | ⟨hne, rfl⟩ := hw
      · cases runs with
        | nil => exact ⟨[[c]], by simpa using hc, .inl rfl⟩
        | cons run runs =>
          obtain ⟨-, hrun⟩ := hruns run List.mem_cons_self
          refine ⟨(c :: run) :: runs, ?_, .inl List.intercalate_cons_cons_left.symm⟩
          intro r hr
          obtain rfl | hr := List.mem_cons.mp hr
          · exact ⟨by simp, List.forall_mem_cons.mpr ⟨hc, hrun⟩⟩
          · exact hruns r (List.mem_cons_of_mem _ hr)
      · obtain ⟨run, runs, rfl⟩ := List.exists_cons_of_ne_nil hne
        refine ⟨[c] :: run :: runs, ?_, .inl (by rw [List.intercalate_cons_cons]; rfl)⟩
        intro r hr
        obtain rfl | hr := List.mem_cons.mp hr
        · simpa using hc
        · exact hruns r hr

/-- A text that the passes have gone through is a key. -/
theorem Hyphenated.isTitleKey {w : List Char} (h : Hyphenated w) : IsTitleKey w := by
  obtain ⟨runs, hruns, hw | ⟨-, hw⟩⟩ := exists_runs h.chars h.last h.chain
  · exact ⟨runs, hruns, hw⟩
  · exact absurd (by rw [hw]; rfl) h.head

/-- The passes leave a text alone that they have gone through. -/
theorem Hyphenated.normalizeTitle {w : List Char} (h : Hyphenated w)
    {toAscii : String → List Char} (hascii : toAscii (String.ofList w) = w) :
    normalizeTitle toAscii (String.ofList w) = String.ofList w := by
  have hlower : w.map Char.toLower = w := by
    rw [List.map_congr_left fun c hc ↦ (of_isAlnum (h.chars c hc)).2.1]
    exact List.map_id w
  have happ : w.filter (· ≠ '\'') = w :=
    List.filter_eq_self.mpr fun c hc ↦ by simpa using (of_isAlnum (h.chars c hc)).2.2
  have hreplace : squeeze (fun c ↦ ! isAlnum c && c ≠ '-') false w = w := by
    apply squeeze_of_none
    intro c hc
    obtain rfl | halnum := h.chars c hc
    · simp
    · simp [halnum]
  rw [Compile.normalizeTitle, hascii, hlower, happ, hreplace, strip_of_ends h.head h.last,
    squeeze_of_chain h.chain (by simp)]

/-- What is a key stays as it is, and every title has a key. -/
theorem normalizeTitle_idempotent (nfkd : String → String)
    (hnfkd : ∀ s, (∀ c ∈ s.toList, c.toNat < 128) → nfkd s = s) (s : String) :
    IsTitleKey (normalizeTitle (asciiForm nfkd) s).toList ∧
      normalizeTitle (asciiForm nfkd) (normalizeTitle (asciiForm nfkd) s) =
        normalizeTitle (asciiForm nfkd) s := by
  have hkey := hyphenated_normalizeTitle (asciiForm nfkd) s
  have hsmall : ∀ c ∈ (normalizeTitle (asciiForm nfkd) s).toList, c.toNat < 128 :=
    fun c hc ↦ (of_isAlnum (hkey.chars c hc)).1
  refine ⟨hkey.isTitleKey, ?_⟩
  have hascii : asciiForm nfkd (String.ofList (normalizeTitle (asciiForm nfkd) s).toList) =
      (normalizeTitle (asciiForm nfkd) s).toList := by
    rw [String.ofList_toList, asciiForm, hnfkd _ hsmall, List.filter_eq_self]
    exact fun c hc ↦ by simpa using hsmall c hc
  have hkept := hkey.normalizeTitle hascii
  rwa [String.ofList_toList] at hkept

/-- A decomposition of one accented letter. -/
def decomposeE (s : String) : String :=
  String.ofList (replaceChar 'é' "e\u0301" s.toList)

private theorem decomposeE_ascii (s : String) (h : ∀ c ∈ s.toList, c.toNat < 128) :
    decomposeE s = s := by
  have hkeep : ∀ t : List Char, (∀ c ∈ t, c.toNat < 128) → replaceChar 'é' "e\u0301" t = t := by
    intro t ht
    induction t with
    | nil => rfl
    | cons c t ih =>
      have hne : c ≠ 'é' := by
        rintro rfl
        exact absurd (ht 'é' List.mem_cons_self) (by decide)
      rw [replaceChar_cons_of_ne hne, ih fun d hd ↦ ht d (List.mem_cons_of_mem _ hd)]
  rw [decomposeE, hkeep _ h, String.ofList_toList]

theorem normalizeTitle_idempotent_cafe :
    normalizeTitle (asciiForm decomposeE) "Café's -- Menu" = "cafes-menu" ∧
      IsTitleKey "cafes-menu".toList := by
  have hkey : normalizeTitle (asciiForm decomposeE) "Café's -- Menu" = "cafes-menu" := by decide
  refine ⟨hkey, ?_⟩
  have h := (normalizeTitle_idempotent decomposeE decomposeE_ascii "Café's -- Menu").1
  rwa [hkey] at h

end Keys

end WikiMind.Compile
