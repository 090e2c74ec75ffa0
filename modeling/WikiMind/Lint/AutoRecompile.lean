import WikiMind.Lint.Findings

/-!
# Recompiles that lint runs trigger

A run queues recompiles for the articles of contradictions whose hash no finding of the user
had before it (`engine/linter/runner.py:163–233`). The recompiled articles are compared
again, and what the next run detects of them is arbitrary. What ends the exchange is the
finding, which is committed before the jobs and never deleted.
-/

namespace WikiMind.Lint.Findings

open WikiMind.Base WikiMind.Lint.Contradictions

/-- The hash of a detection is that of its pair of articles. -/
theorem hash_eq_of_pair {d d' : Detection}
    (h : s(d.articleAId, d.articleBId) = s(d'.articleAId, d'.articleBId)) : d.hash = d'.hash := by
  unfold Detection.hash contentHash
  rcases Sym2.eq_iff.mp h with ⟨ha, hb⟩ | ⟨ha, hb⟩
  · rw [ha, hb]
  · rw [ha, hb, sortedIds_comm]

/-- What a later run goes by: every pair that triggered has left a finding of its user. -/
structure State.Marked (s : State) : Prop where
  hash : ∀ f ∈ s.findings, f.contentHash = f.detection.hash
  left : ∀ r ∈ s.triggers, ∀ p ∈ r.2, ∃ f ∈ s.findings, f.userId = r.1 ∧ f.pair = p

/-- No pair triggered for a user in two runs. -/
def State.TriggersOnce (s : State) : Prop :=
  s.triggers.Pairwise fun r r' ↦ r.1 = r'.1 → ∀ p ∈ r.2, p ∉ r'.2

/-- Jobs are for the articles of pairs that triggered. -/
def State.JobsTriggered (s : State) : Prop :=
  ∀ job ∈ s.jobs, ∃ r ∈ s.triggers, r.1 = job.userId ∧ ∃ p ∈ r.2, job.articleId ∈ p

section
variable {normalize : String → String} {s t : State} {userId : String}
  {detections : List Detection}

/-- The pairs of a run that trigger. -/
def triggering (s : State) (userId : String) (detections : List Detection) : List (Sym2 String) :=
  (newFindings (snapshotHashes s userId) (activeFindings s userId detections)).map Finding.pair

/-- A pair with a finding of the user does not trigger. -/
theorem not_mem_triggering (hs : s.Marked) {f : Finding} (hf : f ∈ s.findings)
    (huser : f.userId = userId) : f.pair ∉ triggering s userId detections := by
  intro hmem
  obtain ⟨g, hg, hpair⟩ := List.mem_map.mp hmem
  obtain ⟨hactive, hnew⟩ := List.mem_filter.mp hg
  have hghash := (mem_suppressed (List.mem_filter.mp hactive).1).2
  have hsame : f.contentHash = g.contentHash := by
    rw [hs.hash f hf, hghash]
    exact (hash_eq_of_pair hpair).symm
  have hin : g.contentHash ∈ snapshotHashes s userId := by
    rw [← hsame]
    exact List.mem_map_of_mem (List.mem_filter.mpr ⟨hf, by simpa using huser⟩)
  exact of_decide_eq_true hnew hin

/-- A finding of a run is kept, with another record at most. -/
theorem exists_of_mem_suppressed {outcome : Outcome} (hkept : outcome ≠ .lost)
    (autoRecompile : Bool) (committed : String → Bool) {f : Finding}
    (hf : f ∈ suppressed s userId detections) :
    ∃ f' ∈ (runLint normalize s userId detections outcome autoRecompile committed).findings,
      f'.userId = userId ∧ f'.pair = f.pair := by
  have hmap : (linked normalize s.records
      (outcome.reach (activeFindings s userId detections).length)
      (suppressed s userId detections)).map (fun f ↦ (f.userId, f.pair)) =
      (suppressed s userId detections).map fun f ↦ (f.userId, f.pair) :=
    map_linked (fun _ _ ↦ rfl) _ _ _
  have hmem : (f.userId, f.pair) ∈
      (suppressed s userId detections).map fun f ↦ (f.userId, f.pair) :=
    List.mem_map_of_mem (f := fun f : Finding ↦ (f.userId, f.pair)) hf
  rw [← hmap] at hmem
  obtain ⟨f', hf', heq⟩ := List.mem_map.mp hmem
  obtain ⟨huser, hpair⟩ := Prod.mk.inj heq
  refine ⟨f', ?_, huser.trans (mem_suppressed hf).1, hpair⟩
  rw [findings_runLint s userId detections hkept]
  exact List.mem_append_right _ hf'

/-- A run triggers nothing, or it is complete and triggers what is new. -/
theorem triggers_runLint (normalize : String → String) (s : State) (userId : String)
    (detections : List Detection) (outcome : Outcome) (autoRecompile : Bool)
    (committed : String → Bool) :
    ∃ pairs jobs,
      (runLint normalize s userId detections outcome autoRecompile committed).triggers =
        s.triggers ++ [(userId, pairs)] ∧
      (runLint normalize s userId detections outcome autoRecompile committed).jobs =
        s.jobs ++ jobs ∧
      (pairs = [] ∧ jobs = [] ∨ outcome = .complete ∧ pairs = triggering s userId detections ∧
        jobs = queueRecompile (snapshotHashes s userId) (activeFindings s userId detections) userId
          committed) := by
  cases outcome with
  | complete =>
    cases autoRecompile with
    | true => exact ⟨_, _, rfl, rfl, .inr ⟨rfl, rfl, rfl⟩⟩
    | false => exact ⟨[], [], rfl, rfl, .inl ⟨rfl, rfl⟩⟩
  | stoppedAfter k => exact ⟨[], [], rfl, rfl, .inl ⟨rfl, rfl⟩⟩
  | lost => exact ⟨[], [], rfl, (List.append_nil _).symm, .inl ⟨rfl, rfl⟩⟩

private theorem findings_subset_runLint (outcome : Outcome) (autoRecompile : Bool)
    (committed : String → Bool) {f : Finding} (hf : f ∈ s.findings) :
    f ∈ (runLint normalize s userId detections outcome autoRecompile committed).findings := by
  by_cases hlost : outcome = .lost
  · subst hlost
    exact hf
  · rw [findings_runLint s userId detections hlost]
    exact List.mem_append_left _ hf

theorem State.Marked.runLint (hs : s.Marked) (outcome : Outcome) (autoRecompile : Bool)
    (committed : String → Bool) :
    (runLint normalize s userId detections outcome autoRecompile committed).Marked where
  hash := by
    intro f hf
    by_cases hlost : outcome = .lost
    · subst hlost
      exact hs.hash f hf
    · rw [findings_runLint s userId detections hlost] at hf
      rcases List.mem_append.mp hf with hold | hnew
      · exact hs.hash f hold
      · have hmap : (linked normalize s.records
            (outcome.reach (activeFindings s userId detections).length)
            (suppressed s userId detections)).map (fun f ↦ (f.contentHash, f.detection)) =
            (suppressed s userId detections).map fun f ↦ (f.contentHash, f.detection) :=
          map_linked (fun _ _ ↦ rfl) _ _ _
        have hmem := List.mem_map_of_mem (f := fun f : Finding ↦ (f.contentHash, f.detection)) hnew
        rw [hmap] at hmem
        obtain ⟨g, hg, heq⟩ := List.mem_map.mp hmem
        obtain ⟨hhash, hdetection⟩ := Prod.mk.inj heq
        rw [← hhash, ← hdetection]
        exact (mem_suppressed hg).2
  left := by
    intro r hr p hp
    obtain ⟨pairs, jobs, htriggers, _, hcases⟩ := triggers_runLint normalize s userId
      detections outcome autoRecompile committed
    rw [htriggers] at hr
    rcases List.mem_append.mp hr with hold | hnew
    · obtain ⟨f, hf, huser, hpair⟩ := hs.left r hold p hp
      exact ⟨f, findings_subset_runLint outcome autoRecompile committed hf, huser, hpair⟩
    · rw [List.mem_singleton.mp hnew] at hp ⊢
      rcases hcases with ⟨rfl, _⟩ | ⟨rfl, rfl, _⟩
      · cases hp
      · obtain ⟨f, hf, rfl⟩ := List.mem_map.mp hp
        have hactive := (List.mem_filter.mp hf).1
        exact exists_of_mem_suppressed (by simp) autoRecompile committed
          (List.mem_filter.mp hactive).1

theorem State.TriggersOnce.runLint (h : s.TriggersOnce) (hs : s.Marked) (outcome : Outcome)
    (autoRecompile : Bool) (committed : String → Bool) :
    (runLint normalize s userId detections outcome autoRecompile committed).TriggersOnce := by
  obtain ⟨pairs, jobs, htriggers, _, hcases⟩ := triggers_runLint normalize s userId
    detections outcome autoRecompile committed
  unfold State.TriggersOnce
  rw [htriggers, List.pairwise_append]
  refine ⟨h, List.pairwise_singleton .., ?_⟩
  intro r hr r' hr' huser p hp hp'
  rw [List.mem_singleton.mp hr'] at huser hp'
  rcases hcases with ⟨rfl, _⟩ | ⟨_, rfl, _⟩
  · cases hp'
  · obtain ⟨f, hf, hfuser, rfl⟩ := hs.left r hr p hp
    exact not_mem_triggering hs hf (hfuser.trans huser) hp'

theorem State.JobsTriggered.runLint (h : s.JobsTriggered) (outcome : Outcome)
    (autoRecompile : Bool) (committed : String → Bool) :
    (runLint normalize s userId detections outcome autoRecompile committed).JobsTriggered := by
  obtain ⟨pairs, jobs, htriggers, hjobs, hcases⟩ := triggers_runLint normalize s userId
    detections outcome autoRecompile committed
  intro job hjob
  rw [hjobs] at hjob
  rw [htriggers]
  rcases List.mem_append.mp hjob with hold | hnew
  · obtain ⟨r, hr, hrest⟩ := h job hold
    exact ⟨r, List.mem_append_left _ hr, hrest⟩
  · rcases hcases with ⟨_, rfl⟩ | ⟨_, rfl, rfl⟩
    · cases hnew
    · refine ⟨_, List.mem_append_right _ (List.mem_singleton_self _), ?_⟩
      simp only [queueRecompile, List.mem_map, List.mem_filter, List.mem_dedup,
        List.mem_flatMap] at hnew
      obtain ⟨articleId, ⟨⟨f, hf, harticle⟩, _⟩, rfl⟩ := hnew
      refine ⟨rfl, f.pair, List.mem_map_of_mem hf, ?_⟩
      rw [Finding.pair, Sym2.mem_iff]
      simpa using harticle

/-- What the user does between runs leaves the findings in place. -/
theorem State.Marked.dismissFinding (hs : s.Marked) (userId : String) (findingId : Nat) :
    (dismissFinding s userId findingId).Marked := by
  unfold Findings.dismissFinding
  split
  · exact hs
  · split
    · exact hs
    · constructor
      · intro f hf
        obtain ⟨g, hg, rfl⟩ := List.mem_map.mp hf
        have hhash := hs.hash g hg
        split <;> exact hhash
      · intro r hr p hp
        obtain ⟨f, hf, huser, hpair⟩ := hs.left r hr p hp
        refine ⟨_, List.mem_map_of_mem hf, ?_⟩
        split <;> exact ⟨huser, hpair⟩

/-- Over any runs of the system, a pair of articles triggers recompiles in one lint run of
its user at most, and recompiles are queued for articles of such pairs only. -/
theorem always_triggersOnce (normalize : String → String) (es : List Event) :
    (lifecycle normalize).Always (fun s ↦ s.TriggersOnce ∧ s.JobsTriggered) .empty es := by
  have hstep (s : State) (e : Event) (t : State)
      (hs : s.Marked ∧ s.TriggersOnce ∧ s.JobsTriggered)
      (ht : (lifecycle normalize).step s e = some t) :
      t.Marked ∧ t.TriggersOnce ∧ t.JobsTriggered := by
    obtain ⟨hmarked, honce, hjobs⟩ := hs
    cases ht
    cases e with
    | lint userId detections outcome autoRecompile committed =>
      exact ⟨hmarked.runLint .., honce.runLint hmarked ..,
        hjobs.runLint outcome autoRecompile committed⟩
    | dismissFinding userId findingId =>
      refine ⟨hmarked.dismissFinding userId findingId, ?_⟩
      simp only [step, dismissFinding]
      split
      · exact ⟨honce, hjobs⟩
      · split
        · exact ⟨honce, hjobs⟩
        · exact ⟨honce, hjobs⟩
    | resolveContradiction => exact ⟨⟨hmarked.hash, hmarked.left⟩, honce, hjobs⟩
    | resolveLegacyContradiction => exact ⟨⟨hmarked.hash, hmarked.left⟩, honce, hjobs⟩
  have hempty : State.empty.Marked ∧ State.empty.TriggersOnce ∧ State.empty.JobsTriggered := by
    refine ⟨⟨?_, ?_⟩, List.Pairwise.nil, ?_⟩
    · intro f hf
      cases hf
    · intro r hr
      cases hr
    · intro job hjob
      cases hjob
  have hinv := (lifecycle normalize).always_of_invariant hstep es hempty
  exact hinv.mono _ fun s h ↦ h.2

end

end WikiMind.Lint.Findings
