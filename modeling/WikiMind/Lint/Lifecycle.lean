import WikiMind.Lint.Findings

/-!
# Settled contradictions over lint runs

What the user settled is kept in two places: a record has a status, and a dismissed finding
leaves its hash. The record goes with the claims of the contradiction, the hash with the
pair of articles. `StaysSettled` and `SuppressesOnlyDismissed` say what a run owes the user
for each of them, `KeepsSettled` when it pays.
-/

namespace WikiMind.Lint.Findings

open WikiMind.Base WikiMind.Lint.Contradictions

section
variable (normalize : String → String)

/-- What makes a contradiction the same: its articles with their claims, in any order. -/
def identity (articleAId articleBId claimA claimB : String) : Sym2 (String × String) :=
  s((articleAId, normalize claimA), (articleBId, normalize claimB))

def Detection.identity (d : Detection) : Sym2 (String × String) :=
  Findings.identity normalize d.articleAId d.articleBId d.articleAClaim d.articleBClaim

def Contradiction.identity (c : Contradiction) : Sym2 (String × String) :=
  Findings.identity normalize c.articleAId c.articleBId c.claimA c.claimB

/-- No new active record is of a contradiction that has a resolved or dismissed one. -/
def StaysSettled (s t : State) : Prop :=
  ∀ c ∈ s.records, c.status ≠ .active → ∀ c' ∈ t.records.drop s.records.length,
    c'.status = .active → c'.userId = c.userId → c'.identity normalize ≠ c.identity normalize

/-- A new finding is suppressed only if its contradiction was dismissed. -/
def SuppressesOnlyDismissed (s t : State) : Prop :=
  ∀ f ∈ t.findings.drop s.findings.length, f.dismissed = true →
    ∃ d ∈ s.dismissals, d.identity normalize = f.detection.identity normalize

/-- What the user settled stays so in a step. -/
def RespectsUser (s : State) (_ : Event) (t : State) : Prop :=
  StaysSettled normalize s t ∧ SuppressesOnlyDismissed normalize s t

instance (s t : State) : Decidable (StaysSettled normalize s t) :=
  inferInstanceAs (Decidable (∀ c ∈ s.records, c.status ≠ .active →
    ∀ c' ∈ t.records.drop s.records.length, c'.status = .active → c'.userId = c.userId →
      c'.identity normalize ≠ c.identity normalize))

instance (s t : State) : Decidable (SuppressesOnlyDismissed normalize s t) :=
  inferInstanceAs (Decidable (∀ f ∈ t.findings.drop s.findings.length, f.dismissed = true →
    ∃ d ∈ s.dismissals, d.identity normalize = f.detection.identity normalize))

instance (s : State) (e : Event) (t : State) : Decidable (RespectsUser normalize s e t) :=
  inferInstanceAs (Decidable (_ ∧ _))

/-- The detections of a run that are not suppressed. -/
def activeDetections (s : State) (detections : List Detection) : List Detection :=
  detections.filter (·.hash ∉ s.dismissedFindings)

/-- A run creates no record of a settled contradiction: where it detects one that is not
suppressed, there is an active record of its fingerprint, or the run detected one before. -/
def DetectsNoSettled (s : State) (userId : String) (detections : List Detection) : Prop :=
  ∀ before d after, detections = before ++ d :: after →
    (∃ c ∈ s.records, c.status ≠ .active ∧ c.userId = userId ∧
      c.identity normalize = d.identity normalize) →
    (∃ c ∈ s.records, isActive userId (d.fingerprint normalize) c = true) ∨
      ∃ d' ∈ before, d'.fingerprint normalize = d.fingerprint normalize

/-- A run suppresses what the user dismissed: no detection is of a pair of articles with a
dismissed contradiction without being one of those. -/
def DetectsNoOther (s : State) (detections : List Detection) : Prop :=
  ∀ d ∈ detections, d.hash ∈ s.dismissedFindings →
    ∃ d' ∈ s.dismissals, d'.identity normalize = d.identity normalize

/-- The condition on an event under which what the user settled stays so. -/
def KeepsSettled (s : State) : Event → Prop
  | .lint userId detections outcome _ _ =>
    let active := activeDetections s detections
    DetectsNoSettled normalize s userId (active.take (outcome.reach active.length)) ∧
      (outcome ≠ .lost → DetectsNoOther normalize s detections)
  | _ => True

end

section
variable {normalize : String → String} {s : State} {userId : String}

/-- The same contradiction has the same fingerprint. -/
theorem fingerprint_eq_of_identity {d d' : Detection}
    (h : d.identity normalize = d'.identity normalize) :
    d.fingerprint normalize = d'.fingerprint normalize := by
  simp only [Detection.identity, identity, Sym2.eq_iff, Prod.mk.injEq] at h
  simp only [Detection.fingerprint, claimFingerprint]
  rcases h with ⟨⟨ha, hca⟩, hb, hcb⟩ | ⟨⟨ha, hca⟩, hb, hcb⟩
  · rw [ha, hca, hb, hcb]
  · rw [ha, hca, hb, hcb, sortedIds_comm d'.articleBId,
      sortedIds_comm (normalize d'.articleBClaim)]

/-- The finding meets no active record of its fingerprint, of the table or of an earlier
finding. -/
def Opens (normalize : String → String) (userId : String) (records : List Contradiction)
    (before : List Finding) (f : Finding) : Prop :=
  (∀ c ∈ records, isActive userId (f.detection.fingerprint normalize) c = false) ∧
    ∀ f' ∈ before, f'.detection.fingerprint normalize ≠ f.detection.fingerprint normalize

private theorem isActive_newRecord (fingerprint : String) (id : Nat) (f : Finding) :
    isActive f.userId fingerprint (newRecord normalize id f) =
      decide (f.detection.fingerprint normalize = fingerprint) := by
  simp [isActive, newRecord]

/-- The loop only adds records: one for each finding that opens one. -/
theorem exists_track (normalize : String → String) {findings : List Finding}
    (huser : ∀ f ∈ findings, f.userId = userId) (records : List Contradiction) :
    ∃ created, track normalize records findings = records ++ created ∧
      (∀ c ∈ created, ∃ before f after id, findings = before ++ f :: after ∧
        Opens normalize userId records before f ∧ c = newRecord normalize id f) ∧
      ∀ before f after, findings = before ++ f :: after →
        Opens normalize userId records before f → ∃ id, newRecord normalize id f ∈ created := by
  induction findings generalizing records with
  | nil => exact ⟨[], by simp [track], by simp, by simp⟩
  | cons f rest ih =>
    have hf : f.userId = userId := huser f (List.mem_cons_self ..)
    have hrest : ∀ f ∈ rest, f.userId = userId :=
      fun f' h ↦ huser f' (List.mem_cons_of_mem f h)
    cases hfind : records.find? (isActive f.userId (f.detection.fingerprint normalize)) with
    | some existing =>
      -- the record that is found keeps every later finding of its fingerprint from opening one
      have hexisting := List.find?_some hfind
      have hmem := List.mem_of_find?_eq_some hfind
      obtain ⟨created, htrack, hsound, hcomplete⟩ := ih hrest records
      refine ⟨created, ?_, ?_, ?_⟩
      · have hfirst : (createFromFinding normalize records f).2 = records := by
          simp [createFromFinding, hfind]
        rw [← htrack, track, List.foldl_cons, hfirst, track]
      · intro c hc
        obtain ⟨before, g, after, id, rfl, hopens, rfl⟩ := hsound c hc
        refine ⟨f :: before, g, after, id, rfl, ⟨hopens.1, ?_⟩, rfl⟩
        refine List.forall_mem_cons.mpr ⟨fun heq ↦ ?_, hopens.2⟩
        have := hopens.1 existing hmem
        rw [← heq, ← hf, hexisting] at this
        cases this
      · intro before g after hsplit hopens
        cases before with
        | nil =>
          cases hsplit
          have := hopens.1 existing hmem
          rw [← hf, hexisting] at this
          cases this
        | cons f' before =>
          obtain ⟨rfl, rfl⟩ := List.cons.inj hsplit
          exact hcomplete before g after rfl
            ⟨hopens.1, fun f'' h ↦ hopens.2 f'' (List.mem_cons_of_mem f h)⟩
    | none =>
      let record := newRecord normalize records.length f
      obtain ⟨created, htrack, hsound, hcomplete⟩ := ih hrest (records ++ [record])
      have hopensIff (before : List Finding) (g : Finding) :
          Opens normalize userId (records ++ [record]) before g ↔
            Opens normalize userId records (f :: before) g := by
        simp only [Opens, List.forall_mem_append, List.forall_mem_singleton, List.forall_mem_cons,
          record, ← hf, isActive_newRecord, decide_eq_false_iff_not, and_assoc, ne_eq]
      refine ⟨record :: created, ?_, ?_, ?_⟩
      · have hfirst : (createFromFinding normalize records f).2 = records ++ [record] := by
          simp [createFromFinding, hfind, record]
        rw [track, List.foldl_cons, hfirst, ← track, htrack, List.append_assoc,
          List.singleton_append]
      · refine List.forall_mem_cons.mpr ⟨?_, fun c hc ↦ ?_⟩
        · refine ⟨[], f, rest, records.length, rfl, ⟨fun c hc ↦ ?_, by simp⟩, rfl⟩
          rw [← hf]
          simpa using List.find?_eq_none.mp hfind c hc
        · obtain ⟨before, g, after, id, rfl, hopens, rfl⟩ := hsound c hc
          exact ⟨f :: before, g, after, id, rfl, (hopensIff before g).mp hopens, rfl⟩
      · intro before g after hsplit hopens
        cases before with
        | nil =>
          cases hsplit
          exact ⟨records.length, List.mem_cons_self ..⟩
        | cons f' before =>
          obtain ⟨rfl, rfl⟩ := List.cons.inj hsplit
          obtain ⟨id, hid⟩ := hcomplete before g after rfl ((hopensIff before g).mpr hopens)
          exact ⟨id, List.mem_cons_of_mem _ hid⟩

private theorem map_suppressed (s : State) (userId : String) (detections : List Detection) :
    (suppressed s userId detections).map (fun f ↦ (f.detection, f.dismissed)) =
      detections.map fun d ↦ (d, decide (d.hash ∈ s.dismissedFindings)) := by
  rw [suppressed, List.map_map]
  conv_rhs => rw [← List.zipIdx_map_fst 0 detections, List.map_map]
  rfl

private theorem userId_of_mem_activeFindings {detections : List Detection} {f : Finding}
    (h : f ∈ activeFindings s userId detections) : f.userId = userId := by
  exact (mem_suppressed (List.mem_filter.mp h).1).1

private theorem map_activeFindings (s : State) (userId : String) (detections : List Detection) :
    (activeFindings s userId detections).map Finding.detection =
      activeDetections s detections := by
  have h := congrArg
    (fun l : List (Detection × Bool) ↦ (l.filter fun x ↦ ¬ x.2).map Prod.fst)
    (map_suppressed s userId detections)
  simp only [List.filter_map, List.map_map] at h
  simpa [activeFindings, activeDetections, Function.comp_def] using h

private theorem records_runLint (s : State) (userId : String) (detections : List Detection)
    (outcome : Outcome) (autoRecompile : Bool) (committed : String → Bool) :
    (runLint normalize s userId detections outcome autoRecompile committed).records =
      track normalize s.records ((activeFindings s userId detections).take
        (outcome.reach (activeFindings s userId detections).length)) := by
  cases outcome with
  | complete => cases autoRecompile <;> rfl
  | stoppedAfter k => rfl
  | lost => rfl

private theorem staysSettled_runLint_iff (s : State) (userId : String) (detections : List Detection)
    (outcome : Outcome) (autoRecompile : Bool) (committed : String → Bool) :
    StaysSettled normalize s
        (runLint normalize s userId detections outcome autoRecompile committed) ↔
      DetectsNoSettled normalize s userId ((activeDetections s detections).take
        (outcome.reach (activeDetections s detections).length)) := by
  have hmap := map_activeFindings s userId detections
  have hlength : (activeFindings s userId detections).length =
      (activeDetections s detections).length := by rw [← hmap, List.length_map]
  rw [← hlength, ← hmap, ← List.map_take]
  set findings := (activeFindings s userId detections).take
    (outcome.reach (activeFindings s userId detections).length)
  have huser : ∀ f ∈ findings, f.userId = userId :=
    fun f hf ↦ userId_of_mem_activeFindings (List.mem_of_mem_take hf)
  obtain ⟨created, htrack, hsound, hcomplete⟩ :=
    exists_track normalize huser s.records
  have hrecords : (runLint normalize s userId detections outcome autoRecompile committed).records =
      s.records ++ created := by rw [records_runLint, ← htrack]
  unfold StaysSettled
  rw [hrecords, List.drop_left]
  constructor
  · intro h before d after hsplit ⟨c, hc, hstatus, hcuser, hidentity⟩
    obtain ⟨pre, rest, hfindings, rfl, hrest⟩ := List.map_eq_append_iff.mp hsplit
    obtain ⟨f, post, rfl, rfl, rfl⟩ := List.map_eq_cons_iff.mp hrest
    by_contra hclosed
    push Not at hclosed
    have hopens : Opens normalize userId s.records pre f := by
      constructor
      · exact fun c hc ↦ by simpa using hclosed.1 c hc
      · exact fun f' hf' ↦ hclosed.2 f'.detection (List.mem_map_of_mem hf')
    obtain ⟨id, hid⟩ := hcomplete pre f post hfindings hopens
    have hf : f.userId = userId := huser f (by simp [hfindings])
    exact h c hc hstatus _ hid rfl (hf.trans hcuser.symm) hidentity.symm
  · intro h c hc hstatus c' hc' _ hcuser hidentity
    obtain ⟨pre, f, post, id, hfindings, hopens, rfl⟩ := hsound c' hc'
    have hf : f.userId = userId := huser f (by simp [hfindings])
    have hsplit : findings.map Finding.detection =
        pre.map Finding.detection ++ f.detection :: post.map Finding.detection := by
      rw [hfindings, List.map_append, List.map_cons]
    rcases h _ _ _ hsplit ⟨c, hc, hstatus, hcuser.symm.trans hf, hidentity.symm⟩ with
      ⟨a, ha, hactive⟩ | ⟨d', hd', hsame⟩
    · rw [hopens.1 a ha] at hactive
      cases hactive
    · obtain ⟨f', hf', rfl⟩ := List.mem_map.mp hd'
      exact hopens.2 f' hf' hsame

private theorem suppressesOnlyDismissed_runLint_iff (s : State) (userId : String)
    (detections : List Detection) (outcome : Outcome) (autoRecompile : Bool)
    (committed : String → Bool) :
    SuppressesOnlyDismissed normalize s
        (runLint normalize s userId detections outcome autoRecompile committed) ↔
      (outcome ≠ .lost → DetectsNoOther normalize s detections) := by
  unfold SuppressesOnlyDismissed
  by_cases hlost : outcome = .lost
  · subst hlost
    simp [runLint]
  · rw [findings_runLint s userId detections hlost, List.drop_left,
      ← List.forall_mem_map (f := fun f : Finding ↦ (f.detection, f.dismissed))
        (P := fun x ↦ x.2 = true → ∃ d ∈ s.dismissals,
          d.identity normalize = x.1.identity normalize),
      map_linked (fun _ _ ↦ rfl), map_suppressed, List.forall_mem_map]
    simp [DetectsNoOther, hlost]

/-- The user only settles: no row is added. -/
theorem respectsUser_of_length_eq {t : State} {e : Event}
    (hrecords : t.records.length = s.records.length)
    (hfindings : t.findings.length = s.findings.length) : RespectsUser normalize s e t := by
  constructor
  · intro c _ _ c' hc'
    rw [← hrecords, List.drop_length] at hc'
    cases hc'
  · intro f hf
    rw [← hfindings, List.drop_length] at hf
    cases hf

private theorem respectsUser_step_iff (s : State) (e : Event) :
    RespectsUser normalize s e (step normalize s e) ↔ KeepsSettled normalize s e := by
  cases e with
  | lint userId detections outcome autoRecompile committed =>
    exact and_congr (staysSettled_runLint_iff ..) (suppressesOnlyDismissed_runLint_iff ..)
  | dismissFinding userId findingId =>
    refine iff_of_true ?_ trivial
    simp only [step, dismissFinding]
    split
    · exact respectsUser_of_length_eq rfl rfl
    · split
      · exact respectsUser_of_length_eq rfl rfl
      · exact respectsUser_of_length_eq rfl (by simp [Rows.modify])
  | resolveContradiction userId contradictionId newStatus resolution =>
    refine iff_of_true (respectsUser_of_length_eq ?_ rfl) trivial
    simp [step, resolveContradiction, Rows.modify]
  | resolveLegacyContradiction userId sourceId targetId resolution =>
    refine iff_of_true (respectsUser_of_length_eq ?_ rfl) trivial
    simp [step, resolveLegacyContradiction, Rows.modify]

/-- What the user settled stays so in every step of a run of the system precisely when every
lint run meets the condition. -/
theorem respectsUser_iff_keepsSettled (normalize : String → String) (s : State)
    (es : List Event) :
    (lifecycle normalize).Steps (RespectsUser normalize) s es ↔
      (lifecycle normalize).Guarded (KeepsSettled normalize) s es := by
  refine (lifecycle normalize).steps_iff_guarded (W := fun _ ↦ True) (fun _ _ _ _ _ ↦ trivial)
    ?_ trivial es
  rintro s e t _ ht
  cases ht
  exact respectsUser_step_iff s e

end

section Samples

private def tides : Detection := ⟨"a", "b", "the moon", "the wind", "cause"⟩
private def waves : Detection := ⟨"a", "b", "twice a day", "once a day", "period"⟩

private def lintOf (detections : List Detection) : Event :=
  .lint "u" detections .complete false fun _ ↦ true

/-- A resolved contradiction is detected again and gets a new active record; and after one
contradiction of two articles is dismissed, another one of them is suppressed. -/
theorem not_respectsUser :
    ¬ (lifecycle id).Steps (RespectsUser id) .empty
        [lintOf [tides], .resolveContradiction "u" 0 .resolved (some "the moon"),
          lintOf [tides]] ∧
      ¬ (lifecycle id).Steps (RespectsUser id) .empty
        [lintOf [tides], .dismissFinding "u" 0, lintOf [waves]] := by
  decide +kernel

end Samples

end WikiMind.Lint.Findings
