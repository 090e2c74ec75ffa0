import WikiMind.Lint.Lifecycle

/-!
# What a claim fingerprint tells apart

The fingerprint of a contradiction (`services/contradiction.py:129`) joins the sorted
identifiers of the articles and the sorted claims. The claims are sorted on their own, so it
goes with the pair of articles and the pair of claims and not with which article claims what.
-/

namespace WikiMind.Lint.Findings

open WikiMind.Base WikiMind.Lint.Contradictions

section
variable (normalize : String → String)

/-- The articles of a detection, in any order. -/
def Detection.articles (d : Detection) : Sym2 String := s(d.articleAId, d.articleBId)

/-- The claims of a detection, in any order. -/
def Detection.claims (d : Detection) : Sym2 String :=
  s(normalize d.articleAClaim, normalize d.articleBClaim)

/-- The texts a fingerprint joins. -/
def Detection.texts (d : Detection) : List String :=
  let ids := sortedIds d.articleAId d.articleBId
  let claims := sortedIds (normalize d.articleAClaim) (normalize d.articleBClaim)
  [ids.1, ids.2, claims.1, claims.2]

/-- No text of the detection has the separator of the fingerprint in it. -/
def Detection.Plain (d : Detection) : Prop :=
  ∀ text ∈ [d.articleAId, d.articleBId, normalize d.articleAClaim, normalize d.articleBClaim],
    '|' ∉ text.toList

end

section
variable {normalize : String → String}

private theorem sortedIds_eq_iff {a b c d : String} :
    sortedIds a b = sortedIds c d ↔ s(a, b) = s(c, d) := by
  rw [Sym2.eq_iff]
  constructor
  · intro h
    unfold sortedIds at h
    split at h <;> split at h <;> rw [Prod.mk.injEq] at h
    · exact .inl h
    · exact .inr h
    · exact .inr h.symm
    · exact .inl h.symm
  · rintro (⟨rfl, rfl⟩ | ⟨rfl, rfl⟩)
    · rfl
    · exact sortedIds_comm a b

/-- The texts of a detection go with its articles and its claims. -/
theorem texts_eq_iff {d d' : Detection} :
    d.texts normalize = d'.texts normalize ↔
      d.articles = d'.articles ∧ d.claims normalize = d'.claims normalize := by
  unfold Detection.articles Detection.claims
  rw [← sortedIds_eq_iff, ← sortedIds_eq_iff, Prod.ext_iff, Prod.ext_iff]
  simp only [Detection.texts, List.cons.injEq, and_true, and_assoc]

private theorem toList_fingerprint (d : Detection) :
    (d.fingerprint normalize).toList =
      ['|'].intercalate ((d.texts normalize).map String.toList) := by
  simp [Detection.fingerprint, claimFingerprint, Detection.texts, List.intercalate]

/-- The separators in a fingerprint are the three it joins with and those of its texts. -/
theorem count_fingerprint (d : Detection) :
    (d.fingerprint normalize).toList.count '|' =
      ((d.texts normalize).flatMap String.toList).count '|' + 3 := by
  rw [toList_fingerprint]
  simp [Detection.texts, List.intercalate]
  omega

private theorem plain_iff (d : Detection) :
    d.Plain normalize ↔ ∀ text ∈ d.texts normalize, '|' ∉ text.toList := by
  unfold Detection.Plain Detection.texts sortedIds
  split <;> split <;> simp only [List.forall_mem_cons] <;> tauto

/-- Detections with the same fingerprint have the same texts, if one of them is plain: the other
then has as few separators. -/
theorem texts_eq_of_fingerprint {d d' : Detection} (hplain : d.Plain normalize)
    (h : d.fingerprint normalize = d'.fingerprint normalize) :
    d.texts normalize = d'.texts normalize := by
  have hnone := (plain_iff d).mp hplain
  have hcount : ((d.texts normalize).flatMap String.toList).count '|' = 0 := by
    rw [List.count_eq_zero, List.mem_flatMap]
    rintro ⟨text, htext, hmem⟩
    exact hnone text htext hmem
  have hcount' : ((d'.texts normalize).flatMap String.toList).count '|' = 0 := by
    have hsame : (d'.fingerprint normalize).toList.count '|' = _ := count_fingerprint d'
    rw [← h, count_fingerprint, hcount] at hsame
    omega
  have hnone' : ∀ text ∈ d'.texts normalize, '|' ∉ text.toList := fun text htext hmem ↦
    List.count_eq_zero.mp hcount' (List.mem_flatMap.mpr ⟨text, htext, hmem⟩)
  have hjoined := congrArg (fun text ↦ text.toList.splitOn '|') h
  simp only [toList_fingerprint] at hjoined
  rw [List.splitOn_intercalate _ (by simpa using hnone) (by simp [Detection.texts]),
    List.splitOn_intercalate _ (by simpa using hnone') (by simp [Detection.texts])] at hjoined
  exact List.map_injective_iff.mpr (fun _ _ ↦ String.toList_inj.mp) hjoined

/-- Detections with the same texts have the same fingerprint, plain or not. -/
theorem fingerprint_eq_of_texts {d d' : Detection}
    (h : d.texts normalize = d'.texts normalize) :
    d.fingerprint normalize = d'.fingerprint normalize := by
  rw [← String.toList_inj, toList_fingerprint, toList_fingerprint, h]

/-- The record of a finding has its fingerprint. -/
theorem fingerprint_createFromFinding (records : List Contradiction) (f : Finding) :
    (createFromFinding normalize records f).1.claimFingerprint =
      f.detection.fingerprint normalize := by
  unfold createFromFinding
  split
  next existing hfind =>
    have hactive := List.find?_some hfind
    simp only [isActive, decide_eq_true_eq] at hactive
    exact hactive.2.2
  next => rfl

/-- Tracking a finding adds records at the end only. -/
theorem prefix_createFromFinding (records : List Contradiction) (f : Finding) :
    records <+: (createFromFinding normalize records f).2 := by
  unfold createFromFinding
  split
  · exact List.prefix_rfl
  · exact List.prefix_append ..

private theorem prefix_track (records : List Contradiction) (findings : List Finding) :
    records <+: track normalize records findings := by
  induction findings generalizing records with
  | nil => exact List.prefix_rfl
  | cons f rest ih => exact (prefix_createFromFinding records f).trans (ih _)

/-- After a finding is tracked, its record is the first of its fingerprint. -/
theorem find?_createFromFinding (records : List Contradiction) (f : Finding) :
    (createFromFinding normalize records f).2.find?
        (isActive f.userId (f.detection.fingerprint normalize)) =
      some (createFromFinding normalize records f).1 := by
  unfold createFromFinding
  split
  next existing hfind => exact hfind
  next hfind =>
    have hself : isActive f.userId (f.detection.fingerprint normalize)
        (newRecord normalize records.length f) = true := by simp [isActive, newRecord]
    simp [List.find?_append, hfind, hself]

/-- Two findings of a user, with others tracked between them, have one record exactly when they
have one fingerprint. -/
theorem record_eq_iff (records : List Contradiction) (between : List Finding) {f g : Finding}
    (huser : f.userId = g.userId) :
    (createFromFinding normalize
        (track normalize (createFromFinding normalize records f).2 between) g).1 =
          (createFromFinding normalize records f).1 ↔
      f.detection.fingerprint normalize = g.detection.fingerprint normalize := by
  constructor
  · intro h
    rw [← fingerprint_createFromFinding records f, ← h, fingerprint_createFromFinding]
  · intro h
    obtain ⟨later, hlater⟩ :=
      prefix_track (createFromFinding normalize records f).2 between
    have hfind : (track normalize (createFromFinding normalize records f).2 between).find?
        (isActive g.userId (g.detection.fingerprint normalize)) =
          some (createFromFinding normalize records f).1 := by
      rw [← hlater, List.find?_append, ← huser, ← h, find?_createFromFinding]
      rfl
    unfold createFromFinding at hfind ⊢
    rw [hfind]

end

/-- The fingerprint of a contradiction goes with its articles and its claims, each in any order:
the same ones are always tracked as one record, and other ones of which no text has a separator
in it as another. -/
theorem tracked_by_articles_and_claims (normalize : String → String)
    (records : List Contradiction) (between : List Finding) (f g : Finding)
    (huser : f.userId = g.userId) :
    let tracked := createFromFinding normalize records f
    let later := createFromFinding normalize (track normalize tracked.2 between) g
    let same := f.detection.articles = g.detection.articles ∧
      f.detection.claims normalize = g.detection.claims normalize
    (same →
        f.detection.fingerprint normalize = g.detection.fingerprint normalize ∧
          later.1 = tracked.1) ∧
      (f.detection.Plain normalize →
        (f.detection.fingerprint normalize = g.detection.fingerprint normalize ↔ same) ∧
          (later.1 = tracked.1 ↔ same)) := by
  intro tracked later same
  have hrecord : later.1 = tracked.1 ↔
      f.detection.fingerprint normalize = g.detection.fingerprint normalize :=
    record_eq_iff records between huser
  have htogether : same →
      f.detection.fingerprint normalize = g.detection.fingerprint normalize :=
    fun hsame ↦ fingerprint_eq_of_texts (texts_eq_iff.mpr hsame)
  refine ⟨fun hsame ↦ ⟨htogether hsame, hrecord.mpr (htogether hsame)⟩, fun hplain ↦ ?_⟩
  have hiff : f.detection.fingerprint normalize = g.detection.fingerprint normalize ↔ same :=
    ⟨fun h ↦ texts_eq_iff.mp (texts_eq_of_fingerprint hplain h), htogether⟩
  exact ⟨hiff, hrecord.trans hiff⟩

/-- The claims of two articles, and the same claims the other way round. -/
def claimsExchanged : Detection × Detection :=
  (⟨"a", "b", "it grows", "it shrinks", ""⟩, ⟨"a", "b", "it shrinks", "it grows", ""⟩)

/-- They have one fingerprint, and are different contradictions. -/
theorem fingerprint_of_claims_exchanged :
    let (d, d') := claimsExchanged
    ¬ (d.fingerprint id = d'.fingerprint id ↔ d.identity id = d'.identity id) := by
  decide

/-- A finding of a user with the detection. -/
def findingOf (d : Detection) : Finding := ⟨0, 0, "u", d.hash, d, false, none⟩

theorem tracked_by_articles_and_claims_exchanged :
    let tracked := createFromFinding id [] (findingOf claimsExchanged.1)
    (createFromFinding id (track id tracked.2 []) (findingOf claimsExchanged.2)).1 = tracked.1 :=
  ((tracked_by_articles_and_claims id [] [] (findingOf claimsExchanged.1)
    (findingOf claimsExchanged.2) rfl).1 (by decide)).2

end WikiMind.Lint.Findings
