import WikiMind.Export.Nesting

/-!
# The schemes of links

`_sanitize_url` of `services/export.py` compares the scheme of an address under
`re.IGNORECASE`, which takes three letters that are no case of `i` or `s` for these. A page is
safe with its schemes compared in either case only, exactly when no link that is written in it
has such a letter in its scheme: formatting changes nothing in the brackets and in the scheme
of a link.
-/

namespace WikiMind.Export

open WikiMind.Base Computability

/-- The letters that `re.IGNORECASE` takes for an `i` or an `s` besides their cases. -/
def foldedLetters : List Char := ['ı', 'İ', 'ſ']

/-- The addresses of the links in a text. -/
def linkUrls (text : List Char) : List (List Char) :=
  (matchesFrom link 0 [] text).map fun m ↦ linkUrl m.2

/-- An address that is not let through, or has no folded letter in its scheme. -/
def PlainScheme (url : List Char) : Prop :=
  ∀ cleaned ∈ sanitizeUrl url, ∃ scheme ∈ allowedSchemes,
    startsWithBy ignoreCase scheme cleaned ∧ ∀ c ∈ cleaned.take scheme.length, c ∉ foldedLetters

section Schemes

private theorem asciiCase_apart : ApartFromMarks asciiCase := by
  have h : (allowedSchemes.all fun scheme ↦ scheme.all fun letter ↦
      ! asciiCase letter '"' && ! asciiCase letter '\x7f') = true := by decide
  simpa [ApartFromMarks] using h

/-- In either case only, a text starts as a scheme does if it does and has no folded letter. -/
theorem startsWithBy_asciiCase {letters : List Char} (hletters : ∀ l ∈ letters, l ∉ foldedLetters)
    (s : List Char) : startsWithBy asciiCase letters s ↔
      startsWithBy ignoreCase letters s ∧ ∀ c ∈ s.take letters.length, c ∉ foldedLetters := by
  induction letters generalizing s with
  | nil => simp [startsWithBy]
  | cons letter letters ih =>
    cases s with
    | nil => simp [startsWithBy]
    | cons c s =>
      have hletter := hletters letter List.mem_cons_self
      have hsame : asciiCase letter c = true ↔ ignoreCase letter c = true ∧ c ∉ foldedLetters := by
        by_cases hc : c ∈ foldedLetters
        · have hlower : ∀ c ∈ foldedLetters, c.toLower = c := by
            have hall : foldedLetters.all (fun c ↦ c.toLower = c) = true := by decide
            simpa using hall
          have hne : c ≠ letter := fun h ↦ hletter (h ▸ hc)
          simp [asciiCase, hlower c hc, hne, hc]
        · have hfolded := hc
          simp only [foldedLetters, List.mem_cons, List.not_mem_nil, or_false, not_or] at hfolded
          simp [asciiCase, ignoreCase, hfolded, hc]
      simp only [startsWithBy, Bool.and_eq_true, List.length_cons, List.take_succ_cons,
        List.forall_mem_cons, hsame, ih fun l hl ↦ hletters l (List.mem_cons_of_mem _ hl)]
      exact and_and_and_comm

/-- No scheme has a folded letter. -/
theorem schemes_unfolded : ∀ scheme ∈ allowedSchemes, ∀ l ∈ scheme, l ∉ foldedLetters := by
  have h : (allowedSchemes.all fun scheme ↦ scheme.all fun l ↦ ! foldedLetters.contains l) =
      true := by decide
  simpa using h

private theorem plainScheme_iff {url : List Char} : PlainScheme url ↔
    ∀ cleaned ∈ sanitizeUrl url, allowedUrlSchemes asciiCase cleaned := by
  unfold PlainScheme allowedUrlSchemes
  refine forall₂_congr fun cleaned _ ↦ ?_
  rw [List.any_eq_true]
  exact exists_congr fun scheme ↦ and_congr_right fun hscheme ↦
    (startsWithBy_asciiCase (schemes_unfolded scheme hscheme) cleaned).symm

/-- The letter of a scheme that a character is taken for. -/
def letterOf (c : Char) : Char :=
  if c = 'ı' ∨ c = 'İ' then 'i' else if c = 'ſ' then 's' else c.toLower

private theorem letterOf_eq {letter c : Char} (hletter : letter ∉ foldedLetters)
    (h : ignoreCase letter c) : letterOf c = letter := by
  by_cases hi : c = 'ı' ∨ c = 'İ'
  · have hlower : c.toLower = c := by
      rcases hi with rfl | rfl <;> decide
    have hne : c ≠ letter := by
      rintro rfl
      rcases hi with rfl | rfl <;> exact hletter (by decide)
    have hs : c ≠ 'ſ' := by
      rcases hi with rfl | rfl <;> decide
    simp only [ignoreCase, hlower, hne, hs, decide_false, Bool.and_false, Bool.or_false,
      Bool.false_or, Bool.and_eq_true, decide_eq_true_eq] at h
    rw [letterOf, if_pos hi, h.1]
  · rw [letterOf, if_neg hi]
    rw [not_or] at hi
    by_cases hs : c = 'ſ'
    · subst hs
      have hne : 'ſ' ≠ letter := fun heq ↦ hletter (heq ▸ by decide)
      have hlower : 'ſ'.toLower = 'ſ' := by decide
      simp only [ignoreCase, hlower, hne, hi.1, hi.2, decide_false, Bool.and_false, Bool.or_false,
        Bool.false_or, Bool.and_eq_true, decide_eq_true_eq] at h
      rw [if_pos rfl, h.1]
    · simp only [ignoreCase, hi.1, hi.2, hs, decide_false, Bool.and_false, Bool.or_false,
        decide_eq_true_eq] at h
      rw [if_neg hs, h]

private theorem prefix_letters {letters s : List Char} (hletters : ∀ l ∈ letters, l ∉ foldedLetters)
    (h : startsWithBy ignoreCase letters s) : letters <+: s.map letterOf := by
  induction letters generalizing s with
  | nil => exact List.nil_prefix
  | cons letter letters ih =>
    cases s with
    | nil => cases h
    | cons c s =>
      simp only [startsWithBy, Bool.and_eq_true] at h
      rw [List.map_cons, letterOf_eq (hletters letter List.mem_cons_self) h.1]
      have htail : ∀ l ∈ letters, l ∉ foldedLetters :=
        fun l hl ↦ hletters l (List.mem_cons_of_mem _ hl)
      exact (List.prefix_cons_inj _).mpr (ih htail h.2)

/-- A text starts with one scheme at most. -/
theorem scheme_unique {scheme scheme' s : List Char} (hscheme : scheme ∈ allowedSchemes)
    (hscheme' : scheme' ∈ allowedSchemes) (h : startsWithBy ignoreCase scheme s)
    (h' : startsWithBy ignoreCase scheme' s) : scheme = scheme' := by
  have halone : ∀ scheme ∈ allowedSchemes, ∀ scheme' ∈ allowedSchemes, scheme <+: scheme' →
      scheme = scheme' := by decide
  have hprefix := prefix_letters (schemes_unfolded scheme hscheme) h
  have hprefix' := prefix_letters (schemes_unfolded scheme' hscheme') h'
  obtain h | h := List.prefix_or_prefix_of_prefix hprefix hprefix'
  · exact halone scheme hscheme scheme' hscheme' h
  · exact (halone scheme' hscheme' scheme hscheme h).symm

/-- An address that is let through has the scheme of the address in the page. -/
theorem allowed_of_safeHref {url cleaned : List Char} (hcleaned : sanitizeUrl url = some cleaned)
    (hhref : SafeHref asciiCase (replaceChar '"' "&quot;" url)) :
    allowedUrlSchemes asciiCase cleaned := by
  obtain ⟨rfl, hallowed⟩ := sanitizeUrl_eq_some hcleaned
  obtain ⟨scheme, hscheme, hstarts⟩ := List.any_eq_true.mp hallowed
  obtain ⟨scheme', hscheme', hstarts'⟩ := List.any_eq_true.mp hhref.scheme
  have htake := take_escaped (ignoreCase_apart scheme hscheme) hstarts
  have hescaped : startsWithBy ignoreCase scheme ((replaceChar '"' "&quot;" url).filter fun c ↦
      0x20 < c.toNat ∧ c.toNat ≠ 0x7f) := by
    rw [← startsWithBy_take, htake, startsWithBy_take]
    exact hstarts
  obtain rfl := scheme_unique hscheme hscheme' hescaped
    ((startsWithBy_asciiCase (schemes_unfolded scheme' hscheme') _).mp hstarts').1
  refine List.any_eq_true.mpr ⟨scheme, hscheme, ?_⟩
  rw [← startsWithBy_take, ← htake, startsWithBy_take]
  exact hstarts'

end Schemes

section Marked

/-- Marks or an escaped character, and what is put in their place: they start with none of the
characters of a scheme and have no bracket. -/
def Inert (w : List Char) : Prop :=
  (∃ c ∈ ['\x60', '*', '&', '<', '>'], ∃ rest, w = c :: rest) ∧ ∀ d ∈ ['[', ']', '(', ')'], d ∉ w

/-- Two texts that differ in inert parts only. -/
inductive Marked : List Char → List Char → Prop
  | nil : Marked [] []
  | keep (c : Char) {s t : List Char} (h : Marked s t) : Marked (c :: s) (c :: t)
  | put {w v s t : List Char} (hw : Inert w) (hv : Inert v) (h : Marked s t) :
    Marked (w ++ s) (v ++ t)

theorem Marked.refl (s : List Char) : Marked s s := by
  induction s with
  | nil => exact .nil
  | cons c s ih => exact .keep c ih

theorem Marked.symm {s t : List Char} (h : Marked s t) : Marked t s := by
  induction h with
  | nil => exact .nil
  | keep c _ ih => exact .keep c ih
  | put hw hv _ ih => exact .put hv hw ih

theorem Marked.append {s t u v : List Char} (h : Marked s t) (h' : Marked u v) :
    Marked (s ++ u) (t ++ v) := by
  induction h with
  | nil => exact h'
  | keep c _ ih => exact .keep c ih
  | put hw hv _ ih =>
    rw [List.append_assoc, List.append_assoc]
    exact .put hw hv ih

theorem Inert.ne_nil {w : List Char} (h : Inert w) : w ≠ [] := by
  obtain ⟨⟨c, -, rest, rfl⟩, -⟩ := h
  exact List.cons_ne_nil c rest

private theorem Marked.eq_nil {t : List Char} (h : Marked [] t) : t = [] := by
  generalize hs : ([] : List Char) = s at h
  cases h with
  | nil => rfl
  | keep c _ => cases hs
  | put hw _ _ => exact absurd (List.append_eq_nil_iff.mp hs.symm).1 hw.ne_nil

/-- The texts have their brackets at the same places. -/
theorem Marked.split {d : Char} (hd : d ∈ ['[', ']', '(', ')']) {x y t : List Char}
    (hx : d ∉ x) (h : Marked (x ++ d :: y) t) :
    ∃ x' y', t = x' ++ d :: y' ∧ d ∉ x' ∧ Marked x x' ∧ Marked y y' := by
  generalize hs : x ++ d :: y = s at h
  induction h generalizing x with
  | nil => simp at hs
  | keep c h ih =>
    cases x with
    | nil =>
      obtain ⟨rfl, rfl⟩ := List.cons.inj hs
      exact ⟨[], _, rfl, hx, .nil, h⟩
    | cons e x =>
      obtain ⟨rfl, htail⟩ := List.cons.inj hs
      rw [List.mem_cons, not_or] at hx
      obtain ⟨x', y', rfl, hx', hxx, hyy⟩ := ih hx.2 htail
      exact ⟨e :: x', y', rfl, by simp [hx.1, hx'], .keep e hxx, hyy⟩
  | @put w v s t hw hv h ih =>
    have hcut : ∃ x₀, x = w ++ x₀ ∧ x₀ ++ d :: y = s := by
      obtain ⟨z, hx', hz⟩ | ⟨z, hw', hz⟩ := List.append_eq_append_iff.mp hs
      · -- the bracket would lie in the marks
        cases z with
        | nil => exact ⟨[], by simpa using hx'.symm, by simpa using hz⟩
        | cons e z =>
          rw [List.cons_append, List.cons.injEq] at hz
          exact absurd (show d ∈ w by simp [hx', hz.1]) (hw.2 d hd)
      · exact ⟨z, hw', hz.symm⟩
    obtain ⟨x₀, rfl, htail⟩ := hcut
    have hx₀ : d ∉ x₀ := fun hmem ↦ hx (List.mem_append_right _ hmem)
    obtain ⟨x', y', rfl, hx', hxx, hyy⟩ := ih hx₀ htail
    refine ⟨v ++ x', y', by simp, ?_, .put hw hv hxx, hyy⟩
    simp [hv.2 d hd, hx']

/-- Texts that differ in inert parts start with a scheme alike. -/
theorem Marked.startsWithBy_eq {s t : List Char} (h : Marked s t) {same : Char → Char → Bool}
    {letters : List Char}
    (hletters : ∀ l ∈ letters, ∀ c ∈ ['\x60', '*', '&', '<', '>'], same l c = false) :
    startsWithBy same letters (s.filter fun c ↦ 0x20 < c.toNat) =
      startsWithBy same letters (t.filter fun c ↦ 0x20 < c.toNat) := by
  induction h generalizing letters with
  | nil => rfl
  | keep c h ih =>
    by_cases hc : 0x20 < c.toNat
    · rw [List.filter_cons_of_pos (by simpa using hc), List.filter_cons_of_pos (by simpa using hc)]
      cases letters with
      | nil => rfl
      | cons letter letters =>
        exact congrArg (same letter c && ·) (ih fun l hl ↦ hletters l (List.mem_cons_of_mem _ hl))
    · rw [List.filter_cons_of_neg (by simpa using hc), List.filter_cons_of_neg (by simpa using hc)]
      exact ih hletters
  | @put w v s t hw hv h ih =>
    cases letters with
    | nil => rfl
    | cons letter letters =>
      have hrefused {w : List Char} (hw : Inert w) (s : List Char) : startsWithBy same
          (letter :: letters) ((w ++ s).filter fun c ↦ 0x20 < c.toNat) = false := by
        obtain ⟨⟨c, hc, rest, rfl⟩, -⟩ := hw
        have hshown : ∀ c ∈ ['\x60', '*', '&', '<', '>'], 0x20 < c.toNat := by simp
        rw [List.cons_append, List.filter_cons_of_pos (by simpa using hshown c hc)]
        exact Bool.and_eq_false_imp.mpr fun h ↦ by
          rw [hletters letter List.mem_cons_self c hc] at h
          cases h
      rw [hrefused hw, hrefused hv]

/-- Texts that differ in inert parts are let through alike, with a plain scheme or not. -/
theorem Marked.plainScheme {s t : List Char} (h : Marked s t) (hs : PlainScheme s) :
    PlainScheme t := by
  rw [plainScheme_iff] at hs ⊢
  have hallowed {same : Char → Char → Bool} (hsame : ∀ scheme ∈ allowedSchemes, ∀ l ∈ scheme,
      ∀ c ∈ ['\x60', '*', '&', '<', '>'], same l c = false) :
      allowedUrlSchemes same (s.filter fun c ↦ 0x20 < c.toNat) =
        allowedUrlSchemes same (t.filter fun c ↦ 0x20 < c.toNat) := by
    unfold allowedUrlSchemes
    rw [Bool.eq_iff_iff, List.any_eq_true, List.any_eq_true]
    exact exists_congr fun scheme ↦ and_congr_right fun hscheme ↦
      by rw [h.startsWithBy_eq (hsame scheme hscheme)]
  intro cleaned hcleaned
  obtain ⟨rfl, hpass⟩ := sanitizeUrl_eq_some hcleaned
  have hchecked : (allowedSchemes.all fun scheme ↦ scheme.all fun l ↦
      ['\x60', '*', '&', '<', '>'].all fun c ↦ ! ignoreCase l c && ! asciiCase l c) = true := by
    decide
  simp only [List.all_eq_true, Bool.and_eq_true, Bool.not_eq_true'] at hchecked
  rw [← hallowed fun scheme hscheme l hl c hc ↦ (hchecked scheme hscheme l hl c hc).1] at hpass
  rw [← hallowed fun scheme hscheme l hl c hc ↦ (hchecked scheme hscheme l hl c hc).2]
  exact hs _ (if_pos hpass)

/-! ### The links of a text and of what its formatting makes of it -/

/-- What stands between the brackets of a link, and what between its parentheses. -/
structure LinkParts (text url : List Char) : Prop where
  text : ']' ∉ text ∧ text ≠ []
  url : ')' ∉ url ∧ url ≠ []

/-- A link as it is written, before the rest of a text. -/
def written (text url rest : List Char) : List Char :=
  '[' :: (text ++ ']' :: '(' :: (url ++ ')' :: rest))

private theorem exists_written {s : List Char} (h : (link s).isSome) :
    ∃ text url rest, s = written text url rest ∧ LinkParts text url := by
  unfold link at h
  split at h
  · split at h
    · next text rest htext =>
      split at h
      · next url rest' hurl =>
        obtain ⟨rfl, hne, hbracket⟩ := runBefore_eq_some htext
        obtain ⟨rfl, hne', hparenthesis⟩ := runBefore_eq_some hurl
        exact ⟨text, url, rest', rfl, ⟨hbracket, hne⟩, hparenthesis, hne'⟩
      · cases h
    · cases h
  · cases h

private theorem link_written {text url : List Char} (h : LinkParts text url) (rest : List Char) :
    link (written text url rest) = some (text.length + url.length + 3, replaceLink text url) := by
  have hrun {d : Char} {run : List Char} (hd : d ∉ run ∧ run ≠ []) (rest : List Char) :
      runBefore d (run ++ d :: rest) = some (run, d :: rest) := by
    unfold runBefore
    rw [takeWhile_ne_append hd.1, if_neg hd.2, dropWhile_ne_append hd.1]
  simp only [written, link, hrun h.text, hrun h.url]

private theorem linkUrl_written {text url rest : List Char} (h : LinkParts text url) :
    linkUrl (written text url rest) = url := linkUrl_eq h.text.1 h.url.1 rest

private theorem linkUrls_skip {c : Char} {s : List Char} (h : ¬ (link (c :: s)).isSome) :
    linkUrls (c :: s) = linkUrls s := by
  unfold linkUrls
  rw [matchesFrom_keep (by simpa using h)]
  exact map_matchesFrom link linkUrl 0 _ _ s

private theorem linkUrls_written {text url : List Char} (h : LinkParts text url)
    (rest : List Char) :
    linkUrls (written text url rest) = url :: linkUrls rest := by
  have hfound := link_written h rest
  have hrest : (text ++ ']' :: '(' :: (url ++ ')' :: rest)).drop (text.length + url.length + 3) =
      rest := by
    have hsplit : text ++ ']' :: '(' :: (url ++ ')' :: rest) =
        (text ++ ']' :: '(' :: url ++ [')']) ++ rest := by simp
    rw [hsplit]
    apply List.drop_left'
    simp only [List.length_append, List.length_cons, List.length_nil]
    omega
  unfold linkUrls
  rw [written] at hfound ⊢
  rw [matchesFrom_replace hfound, List.map_cons, linkUrl_eq h.text.1 h.url.1, hrest]
  exact congrArg _ (map_matchesFrom link linkUrl 0 _ _ rest)

/-- A link stays a link, with an address that differs in inert parts. -/
theorem Marked.of_written {text url rest t : List Char} (hparts : LinkParts text url)
    (h : Marked (written text url rest) t) :
    ∃ text' url' rest', t = written text' url' rest' ∧ LinkParts text' url' ∧ Marked url url' ∧
      Marked rest rest' := by
  obtain ⟨x, t₁, rfl, -, hx, h₁⟩ := Marked.split (x := []) (by decide) (by simp) h
  obtain rfl := hx.eq_nil
  obtain ⟨text', t₂, rfl, hbracket, htext, h₂⟩ := h₁.split (by decide) hparts.text.1
  obtain ⟨x, t₃, rfl, -, hx, h₃⟩ := Marked.split (x := []) (by decide) (by simp) h₂
  obtain rfl := hx.eq_nil
  obtain ⟨url', rest', rfl, hparenthesis, hurl, hrest⟩ := h₃.split (by decide) hparts.url.1
  refine ⟨text', url', rest', rfl, ⟨⟨hbracket, ?_⟩, hparenthesis, ?_⟩, hurl, hrest⟩
  · rintro rfl
    exact hparts.text.2 htext.symm.eq_nil
  · rintro rfl
    exact hparts.url.2 hurl.symm.eq_nil

private theorem linkUrls_inert {w : List Char} (hw : Inert w) (s : List Char) :
    linkUrls (w ++ s) = linkUrls s := by
  have hnone : ∀ c ∈ w, ∀ s, link (c :: s) = none := by
    intro c hc s
    rw [← Option.not_isSome_iff_eq_none]
    intro hlink
    obtain ⟨text, url, rest, hsplit, -⟩ := exists_written hlink
    obtain ⟨rfl, -⟩ := List.cons.inj hsplit
    exact hw.2 '[' (by decide) hc
  unfold linkUrls
  rw [matchesFrom_append_of_none hnone]
  exact map_matchesFrom link linkUrl 0 _ _ s

/-- What holds of the addresses in a text, up to inert parts, holds of those in what differs in
inert parts. -/
theorem Marked.forall_linkUrls {P : List Char → Prop} (hP : ∀ s t, Marked s t → P s → P t)
    {s t : List Char} (h : Marked s t) (hs : ∀ url ∈ linkUrls s, P url) :
    ∀ url ∈ linkUrls t, P url := by
  induction hn : s.length using Nat.strong_induction_on generalizing s t with
  | _ n ih =>
    cases h with
    | nil => simp [linkUrls, matchesFrom]
    | @put w v s t hw hv h =>
      rw [linkUrls_inert hw] at hs
      rw [linkUrls_inert hv]
      have hpos := List.length_pos_of_ne_nil hw.ne_nil
      rw [List.length_append] at hn
      exact ih _ (by omega) h hs rfl
    | @keep c s t h =>
      by_cases hlink : (link (c :: s)).isSome
      · obtain ⟨text, url, rest, hsplit, hparts⟩ := exists_written hlink
        have hmarked := Marked.keep c h
        rw [hsplit] at hs hn hmarked
        obtain ⟨text', url', rest', hsplit', hparts', hurl, hrest⟩ := hmarked.of_written hparts
        rw [linkUrls_written hparts, List.forall_mem_cons] at hs
        rw [hsplit', linkUrls_written hparts', List.forall_mem_cons]
        refine ⟨hP _ _ hurl hs.1, ih _ ?_ hrest hs.2 rfl⟩
        rw [← hn]
        simp only [written, List.length_cons, List.length_append]
        omega
      · have hlink' : ¬ (link (c :: t)).isSome := by
          intro hlink'
          obtain ⟨text, url, rest, hsplit, hparts⟩ := exists_written hlink'
          have hmarked := (Marked.keep c h).symm
          rw [hsplit] at hmarked
          obtain ⟨text', url', rest', hsplit', hparts', -⟩ := hmarked.of_written hparts
          rw [hsplit', link_written hparts'] at hlink
          exact hlink rfl
        rw [linkUrls_skip hlink] at hs
        rw [linkUrls_skip hlink']
        rw [List.length_cons] at hn
        exact ih _ (by omega) h hs rfl

/-! ### Formatting -/

private theorem marked_replaceChar {c : Char} {escape : String}
    (hc : c ∈ ['&', '<', '>'] ∧ escape ∈ ["&amp;", "&lt;", "&gt;"]) (s : List Char) :
    Marked s (replaceChar c escape s) := by
  have hinert : Inert [c] ∧ Inert escape.toList := by
    have hall : ∀ c ∈ ['&', '<', '>'], ∀ escape ∈ ["&amp;", "&lt;", "&gt;"],
        (∃ c' ∈ ['\x60', '*', '&', '<', '>'], c = c') ∧ (∀ d ∈ ['[', ']', '(', ')'], d ∉ [c]) ∧
          escape.toList = '&' :: escape.toList.tail ∧
          (∀ d ∈ ['[', ']', '(', ')'], d ∉ escape.toList) := by simp
    obtain ⟨⟨c', hc', rfl⟩, hbracket, hsplit, hbracket'⟩ := hall c hc.1 escape hc.2
    exact ⟨⟨⟨c, hc', [], rfl⟩, hbracket⟩, ⟨'&', by decide, _, hsplit⟩, hbracket'⟩
  induction s with
  | nil => exact .nil
  | cons d s ih =>
    by_cases hd : d = c
    · rw [hd, replaceChar_cons_self]
      exact .put hinert.1 hinert.2 ih
    · rw [replaceChar_cons_of_ne hd]
      exact .keep d ih

private theorem marked_enclosed {mark : Char} {width : Nat} {tag : String}
    (hmark : mark ∈ ['\x60', '*']) (hwidth : 0 < width) (htag : tag ∈ ["code", "strong", "em"])
    (s : List Char) : Marked s (rewrite (enclosed mark width (element tag)) 0 s) := by
  have hmarks : Inert (List.replicate width mark) := by
    obtain ⟨w, rfl⟩ := Nat.exists_eq_succ_of_ne_zero hwidth.ne'
    have hall : ∀ mark ∈ ['\x60', '*'], mark ∈ ['\x60', '*', '&', '<', '>'] ∧
        ∀ d ∈ ['[', ']', '(', ')'], d ≠ mark := by simp
    obtain ⟨hmem, hbracket⟩ := hall mark hmark
    exact ⟨⟨mark, hmem, _, List.replicate_succ⟩,
      fun d hd hmem ↦ hbracket d hd (List.eq_of_mem_replicate hmem)⟩
  have htags : Inert (openTag tag) ∧ Inert (closeTag tag) := by
    have hall : ∀ tag ∈ ["code", "strong", "em"], ∀ d ∈ ['[', ']', '(', ')'],
        d ∉ openTag tag ∧ d ∉ closeTag tag := by simp [openTag, closeTag]
    exact ⟨⟨⟨'<', by decide, _, rfl⟩, fun d hd ↦ (hall tag htag d hd).1⟩,
      ⟨'<', by decide, _, rfl⟩, fun d hd ↦ (hall tag htag d hd).2⟩
  induction hn : s.length using Nat.strong_induction_on generalizing s with
  | _ n ih =>
    cases s with
    | nil => exact .nil
    | cons c s =>
      rw [List.length_cons] at hn
      cases hfound : enclosed mark width (element tag) (c :: s) with
      | none =>
        rw [rewrite_keep hfound]
        exact .keep c (ih _ (by omega) s rfl)
      | some found =>
        obtain ⟨behind, replacement⟩ := found
        obtain ⟨run, hsplit, rfl, -⟩ := enclosed_eq_some hwidth hfound
        rw [rewrite_replace hfound, hsplit, element, List.append_assoc, List.append_assoc]
        refine .put hmarks htags.1 ((Marked.refl run).append (.put hmarks htags.2 ?_))
        apply ih _ _ _ rfl
        rw [List.length_drop]
        omega

/-- Formatting a text up to its links keeps the links whose scheme is plain. -/
theorem plainSchemes_emphasized_iff (text : List Char) :
    (∀ url ∈ linkUrls (emphasized text), PlainScheme url) ↔
      ∀ url ∈ linkUrls text, PlainScheme url := by
  have hstep {s t : List Char} (h : Marked s t) : (∀ url ∈ linkUrls t, PlainScheme url) ↔
      ∀ url ∈ linkUrls s, PlainScheme url :=
    ⟨h.symm.forall_linkUrls fun _ _ h ↦ h.plainScheme, h.forall_linkUrls fun _ _ h ↦ h.plainScheme⟩
  unfold emphasized escapeHtml
  rw [hstep (marked_enclosed (by decide) (by decide) (by decide) _),
    hstep (marked_enclosed (by decide) (by decide) (by decide) _),
    hstep (marked_enclosed (by decide) (by decide) (by decide) _),
    hstep (marked_replaceChar (by decide) _), hstep (marked_replaceChar (by decide) _),
    hstep (marked_replaceChar (by decide) _)]

end Marked

section Infix

/-- A piece of plain text has no `<` behind its first character. -/
theorem not_lt_of_plainPiece {x z : List Char} (h : x ++ '<' :: z ∈ plainPiece) : x = [] := by
  cases x with
  | nil => rfl
  | cons d x =>
    obtain ⟨c, -, hc⟩ | htag := h
    · simp at hc
    · have hnone : ∀ tag ∈ fixedTags, '<' ∉ tag.tail := by decide
      exact absurd (by simp) (hnone _ htag)

/-- A `<` in plain text starts a tag. -/
theorem plain_cut {x y : List Char} (h : x ++ '<' :: y ∈ plainPiece∗) :
    '<' :: y ∈ plainPiece∗ := by
  obtain ⟨pieces, hs, hpieces⟩ := Language.mem_kstar.mp h
  clear h
  induction pieces generalizing x with
  | nil => simp at hs
  | cons a pieces ih =>
    have htail : ∀ b ∈ pieces, b ∈ plainPiece := fun b hb ↦ hpieces b (List.mem_cons_of_mem _ hb)
    have ha := hpieces a List.mem_cons_self
    rw [List.flatten_cons] at hs
    obtain ⟨z, hx, hz⟩ | ⟨z, hx, hz⟩ := List.append_eq_append_iff.mp hs
    · cases z with
      | nil => exact ih (x := []) (by simpa using hz) htail
      | cons c z =>
        obtain ⟨rfl, rfl⟩ := List.cons.inj hz
        obtain rfl := not_lt_of_plainPiece (hx ▸ ha)
        rw [hx] at ha
        exact append_mem_kstar (mem_kstar_of_mem ha) (Language.join_mem_kstar htail)
    · exact ih hz.symm htail

/-- Where a plain text starts with a tag, no link tag does. -/
theorem not_linkTag_of_plain {u : List Char} (hu : '<' :: u ∈ plainPiece∗) (rest : List Char) :
    ¬ "<a href=\"".toList <+: '<' :: (u ++ rest) := by
  intro h
  obtain ⟨a, rest', ha, -, rfl⟩ := exists_head_of_mem_kstar hu
  have hnone : ∀ tag ∈ fixedTags, ¬ tag <+: "<a href=\"".toList ∧
      ¬ "<a href=\"".toList <+: tag := by decide
  obtain ⟨c, hc, hsingle⟩ | htag := ha
  · exact hc (List.cons.inj hsingle).1.symm
  · have htag' : '<' :: a <+: '<' :: (a ++ rest' ++ rest) := ⟨rest' ++ rest, by simp⟩
    obtain h | h := List.prefix_or_prefix_of_prefix htag' h
    · exact (hnone _ htag).1 h
    · exact (hnone _ htag).2 h

/-- A character behind the first lies in the middle of three texts if the others have none. -/
theorem cut_middle {c : Char} {first middle last x z : List Char} (hfirst : c ∉ first.tail)
    (hlast : c ∉ last) (hx : x ≠ []) (h : first ++ (middle ++ last) = x ++ c :: z) :
    ∃ v u, middle = v ++ c :: u ∧ z = u ++ last := by
  obtain ⟨v, -, hv⟩ | ⟨v, hv, hz⟩ := List.append_eq_append_iff.mp h
  · obtain ⟨w, -, hw⟩ | ⟨w, hw, hz⟩ := List.append_eq_append_iff.mp hv
    · exact absurd (by simp [hw]) hlast
    · cases w with
      | nil => exact absurd (by simp [← show c :: z = last from hz]) hlast
      | cons d u =>
        obtain ⟨rfl, rfl⟩ := List.cons.inj hz
        exact ⟨v, u, hw, rfl⟩
  · cases v with
    | nil =>
      rw [List.nil_append] at hz
      cases middle with
      | nil => exact absurd (by simp [← show c :: z = last from hz]) hlast
      | cons d u =>
        obtain ⟨rfl, rfl⟩ := List.cons.inj hz
        exact ⟨[], u, rfl, rfl⟩
    | cons d v =>
      obtain ⟨rfl, -⟩ := List.cons.inj hz
      cases x with
      | nil => exact absurd rfl hx
      | cons e x => exact absurd (by simp [hv]) hfirst

private theorem linkTag_eq (href : List Char) :
    linkTag href = "<a href=\"".toList ++ (href ++ "\">".toList) := List.append_assoc ..

/-- Safe markup can be cut where a link tag starts. -/
theorem safe_cut {same : Char → Char → Bool} {x y : List Char} (hy : "<a href=\"".toList <+: y)
    (h : x ++ y ∈ safeHtml same) : y ∈ safeHtml same := by
  have hstart : "<a href=\"".toList = '<' :: "a href=\"".toList := by decide
  have htail : '<' ∉ "<a href=\"".toList.tail := by decide
  have hend : '<' ∉ "\">".toList := by decide
  obtain ⟨pieces, hs, hpieces⟩ := Language.mem_kstar.mp h
  clear h
  induction pieces generalizing x with
  | nil =>
    rw [(List.append_eq_nil_iff.mp hs).2]
    exact Language.nil_mem_kstar _
  | cons a pieces ih =>
    have hrest : ∀ b ∈ pieces, b ∈ plainPiece + linkPiece same :=
      fun b hb ↦ hpieces b (List.mem_cons_of_mem _ hb)
    have ha := hpieces a List.mem_cons_self
    rw [List.flatten_cons] at hs
    obtain ⟨z, hx, hz⟩ | ⟨z, hx, hz⟩ := List.append_eq_append_iff.mp hs
    · cases z with
      | nil => exact ih (x := []) (by simpa using hz) hrest
      | cons c z =>
        subst hz
        have hfirst : c = '<' := by
          have hy' := hy
          rw [hstart, List.cons_append, List.cons_prefix_cons] at hy'
          exact hy'.1.symm
        subst hfirst
        by_cases hnil : x = []
        · subst hnil
          rw [hx] at ha
          exact append_mem_kstar (mem_kstar_of_mem ha) (Language.join_mem_kstar hrest)
        · -- the cut would lie in a plain piece, or in a tag of the address of a link
          obtain hplain | ⟨href, hhref, htag⟩ := ha
          · exact absurd (not_lt_of_plainPiece (hx ▸ hplain)) hnil
          · have hwhole : linkTag href = x ++ '<' :: z := htag.symm.trans hx
            rw [linkTag_eq] at hwhole
            obtain ⟨v, u, hsplit, rfl⟩ := cut_middle htail hend hnil hwhole
            have hu := plain_cut (hsplit ▸ hhref.plain)
            rw [List.cons_append, List.append_assoc] at hy
            exact absurd hy (not_linkTag_of_plain hu _)
    · exact ih hz.symm hrest

/-- The address of every link tag in safe markup is safe. -/
theorem safeHref_of_isInfix {same : Char → Char → Bool} {w href : List Char}
    (hw : w ∈ safeHtml same) (hquote : '"' ∉ href) (h : linkTag href <:+: w) :
    SafeHref same href := by
  obtain ⟨before, rest, rfl⟩ := h
  rw [List.append_assoc] at hw
  have hprefix : "<a href=\"".toList <+: linkTag href ++ rest :=
    ⟨href ++ '"' :: '>' :: rest, (linkTag_append href rest).symm⟩
  have hcut := safe_cut hprefix hw
  have hstart : "<a href=\"".toList = '<' :: "a href=\"".toList := by decide
  have hcons : linkTag href ++ rest =
      '<' :: ("a href=\"".toList ++ (href ++ '"' :: '>' :: rest)) := by
    rw [linkTag_append, hstart, List.cons_append]
  rw [hcons] at hcut
  obtain ⟨tag, htag, rest', -, heq⟩ | ⟨href', hhref', rest', heq⟩ := exists_tag_of_safe hcut
  · have hnone : ∀ tag ∈ fixedTags, ¬ tag <+: "<a href=\"".toList ∧
        ¬ "<a href=\"".toList <+: tag := by decide
    rw [hcons, heq] at hprefix
    obtain h | h := List.prefix_or_prefix_of_prefix (List.prefix_append tag rest') hprefix
    · exact absurd h (hnone tag htag).1
    · exact absurd h (hnone tag htag).2
  · rw [← hcons] at heq
    rw [href_eq_takeWhile hquote rfl, heq, ← href_eq_takeWhile hhref'.unquoted rfl]
    exact hhref'

variable (isdigit : Char → Bool)

private theorem isInfix_element (tag : String) (text : List Char) : text <:+: element tag text :=
  ⟨openTag tag, closeTag tag, rfl⟩

/-- A part of a page is in it. -/
theorem infix_intercalate {part : List Char} {parts : List (List Char)} (h : part ∈ parts) :
    part <:+: ['\n'].intercalate parts := by
  induction parts with
  | nil => cases h
  | cons first parts ih =>
    cases parts with
    | nil =>
      rw [List.mem_singleton.mp h, List.intercalate_singleton]
    | cons next parts =>
      rw [List.intercalate_cons_cons]
      obtain rfl | h := List.mem_cons.mp h
      · rw [List.append_assoc]
        exact (List.prefix_append _ _).isInfix
      · exact (ih h).trans (List.suffix_append _ _).isInfix

/-- What a formatted text becomes is part of the page. -/
theorem isInfix_formatted {lines : List (List Char)} {c : Conversion} {text : List Char}
    (h : text ∈ formattedTexts isdigit c.inCodeBlock lines) : text = [] ∨
      ∃ part ∈ (lines.foldl (convertLine isdigit) c).htmlParts, inlineFormat text <:+: part := by
  induction lines generalizing c with
  | nil => cases h
  | cons line lines ih =>
    rw [formattedTexts] at h
    rw [List.foldl_cons]
    by_cases hfence : startsWith (strip line) "\x60\x60\x60"
    · rw [if_pos hfence] at h
      rw [convertLine_fence isdigit hfence]
      exact ih h
    rw [if_neg hfence] at h
    cases hblock : c.inCodeBlock with
    | true =>
      rw [hblock, if_pos rfl] at h
      rw [convertLine_code isdigit hfence hblock]
      exact ih (hblock.symm ▸ h)
    | false =>
      rw [hblock, if_neg Bool.false_ne_true, List.mem_cons] at h
      rw [convertLine_text isdigit hfence hblock]
      obtain rfl | h := h
      · obtain ⟨parts, hparts⟩ := foldl_convertLine_htmlParts isdigit lines { c with
          htmlParts := c.htmlParts ++ (convertBlockElement isdigit (strip line) c.state).1.toList
          state := (convertBlockElement isdigit (strip line) c.state).2 }
        by_cases hnil : strip line = []
        · rw [hnil]
          exact .inl rfl
        · unfold convertBlockElement at hparts ⊢
          dsimp only at hparts ⊢
          rw [if_neg hnil] at hparts ⊢
          obtain ⟨front, -, tag, -, heq⟩ | ⟨-, hrule⟩ := lineToElement_eq isdigit (strip line) _
          · right
            rw [hparts, heq]
            refine ⟨_, List.mem_append_left _ (List.mem_append_right _
              (List.mem_singleton_self _)), ?_⟩
            refine (isInfix_element tag _).trans ?_
            rw [← List.append_assoc]
            exact (List.suffix_append _ _).isInfix
          · exact .inl hrule
      · exact ih (hblock.symm ▸ h)

/-- A page is safe, its schemes compared in either case, exactly when no link that is written
outside of code blocks has a folded letter in its scheme. -/
theorem markdownToHtml_asciiCase_iff (markdownText : List Char) :
    markdownToHtml isdigit markdownText ∈ safeHtml asciiCase ↔
      ∀ text ∈ formattedTexts isdigit false (markdownText.splitOn '\n'),
        ∀ url ∈ linkUrls text, PlainScheme url := by
  constructor
  · intro hsafe text htext
    rw [← plainSchemes_emphasized_iff]
    intro url hurl
    rw [plainScheme_iff]
    intro cleaned hcleaned
    obtain ⟨m, hm, rfl⟩ := List.mem_map.mp hurl
    obtain ⟨linked, url, rest, hsplit, hparts⟩ := exists_written (isSome_of_mem_matchesFrom hm)
    rw [hsplit, linkUrl_written hparts] at hcleaned
    have hreplaced : replaceLink linked url =
        linkTag (replaceChar '"' "&quot;" url) ++ linked ++ closeTag "a" := by
      rw [replaceLink, hcleaned]
    have hwithin := replacement_infix_rewrite hm (hsplit ▸ link_written hparts rest)
    have hpage : inlineFormat text <:+: markdownToHtml isdigit markdownText := by
      rw [markdownToHtml_eq]
      obtain rfl | ⟨part, hpart, hin⟩ := isInfix_formatted isdigit (c := Conversion.start) htext
      · exact List.nil_infix
      · refine hin.trans (infix_intercalate ?_)
        exact List.mem_append_left _ (List.mem_append_left _ hpart)
    refine allowed_of_safeHref hcleaned (safeHref_of_isInfix hsafe (quote_escaped url) ?_)
    refine List.IsInfix.trans ?_ (hwithin.trans hpage)
    rw [hreplaced, List.append_assoc]
    exact (List.prefix_append _ _).isInfix
  · intro hplain
    refine markdownToHtml_mem isdigit (plainPiece_le asciiCase) fun text htext ↦ ?_
    refine inlineFormat_mem asciiCase_apart fun m hm ↦ ?_
    have hurls := (plainSchemes_emphasized_iff text).mpr (hplain text htext)
    exact plainScheme_iff.mp (hurls _ (List.mem_map_of_mem hm))

/-- The dotless `i` in the scheme of a link is no case of an `i`. -/
theorem not_markdownToHtml_asciiCase :
    ¬ ∀ markdownText, markdownToHtml Char.isDigit markdownText ∈ safeHtml asciiCase := by
  intro hsafe
  have h := hsafe "[x](maılto:e)".toList
  have hhtml : markdownToHtml Char.isDigit "[x](maılto:e)".toList =
      '<' :: "p><a href=\"maılto:e\">x</a></p>".toList := by decide +kernel
  rw [hhtml] at h
  obtain ⟨tag, htag, rest, hrest, heq⟩ | ⟨href, -, rest, heq⟩ := exists_tag_of_safe h
  · have hp : ∀ tag ∈ fixedTags, tag <+: '<' :: "p><a href=\"maılto:e\">x</a></p>".toList →
        tag = openTag "p" := by decide +kernel
    have hsplit : '<' :: "p><a href=\"maılto:e\">x</a></p>".toList =
        openTag "p" ++ '<' :: "a href=\"maılto:e\">x</a></p>".toList := by decide +kernel
    rw [hp tag htag ⟨rest, heq.symm⟩, hsplit] at heq
    rw [← List.append_cancel_left heq] at hrest
    obtain ⟨tag, htag, rest, -, heq⟩ | ⟨href, hhref, rest, heq⟩ := exists_tag_of_safe hrest
    · have hnone : ∀ tag ∈ fixedTags,
          ¬ tag <+: '<' :: "a href=\"maılto:e\">x</a></p>".toList := by decide +kernel
      exact hnone tag htag ⟨rest, heq.symm⟩
    · have hscheme := hhref.scheme
      rw [href_eq_takeWhile hhref.unquoted heq] at hscheme
      revert hscheme
      decide +kernel
  · have hstart : ¬ "<a href=\"".toList <+: '<' :: "p><a href=\"maılto:e\">x</a></p>".toList := by
      decide
    exact hstart ⟨href ++ '"' :: '>' :: rest, by rw [heq, linkTag_append]⟩

end Infix

end WikiMind.Export
