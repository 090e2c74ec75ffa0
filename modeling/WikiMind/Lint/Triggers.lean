import WikiMind.Base.Parties
import WikiMind.Base.Run

/-!
# Concurrent lint triggers

A lint run looks for a report in progress, writes its own report and works until its only
commit, all in one session (`engine/linter/runner.py:334–409`). A session sees what others
have committed. The system has one step for each part of a run between two awaits that
matter, in any interleaving of any number of triggers of any users, from the endpoint, the
cron job or elsewhere.
-/

namespace WikiMind.Lint.Triggers

open WikiMind.Base

/-- `models/enums.py:155`. -/
inductive LintReportStatus where
  | inProgress | complete | failed
  deriving DecidableEq, Repr

/-- A committed report: `models/tables/lint.py:21`. -/
structure LintReport where
  userId : String
  status : LintReportStatus
  deriving DecidableEq, Repr

/-- Where a trigger stands: before the check, past it, with its report written but not
committed; and how it ended: with the report it found, with its own, or rolled back. -/
inductive Phase where
  | triggered | checked | inProgress | joined | finished | rolledBack
  deriving DecidableEq, Repr

/-- The run has its report and has not ended. -/
def Phase.isInProgress : Phase → Bool
  | .inProgress => true
  | _ => false

/-- The run is past its check and has not ended. -/
def Phase.isPastCheck : Phase → Bool
  | .checked | .inProgress => true
  | _ => false

/-- The committed reports and all triggers so far, each with its user. -/
structure State where
  reports : List LintReport
  triggers : Parties String Phase

/-- The steps of the system. -/
inductive Label where
  | trigger (r : Nat) (userId : String)
  | check (r : Nat)
  | writeReport (r : Nat)
  | finish (r : Nat) (complete : Bool)
  | rollBack (r : Nat)
  deriving DecidableEq, Repr

/-- `_check_in_progress`, on what is committed: `runner.py:133`. -/
def checkInProgress (reports : List LintReport) (userId : String) : Option LintReport :=
  reports.find? fun report ↦ report.status = .inProgress ∧ report.userId = userId

/-- One step; `none` when it is not enabled. -/
def step (s : State) : Label → Option State
  | .trigger r userId =>
    (s.triggers.enter r userId .triggered).map fun triggers ↦ { s with triggers }
  | .check r =>
    (s.triggers.get? r).bind fun q ↦
      if q.phase ≠ .triggered then none
      else
        match checkInProgress s.reports q.data with
        | some _ => some { s with triggers := s.triggers.goto r .joined }
        | none => some { s with triggers := s.triggers.goto r .checked }
  | .writeReport r =>
    (s.triggers.get? r).bind fun q ↦
      if q.phase ≠ .checked then none
      else some { s with triggers := s.triggers.goto r .inProgress }
  | .finish r complete =>
    (s.triggers.get? r).bind fun q ↦
      if q.phase ≠ .inProgress then none
      else
        some {
          reports := s.reports ++ [⟨q.data, if complete then .complete else .failed⟩]
          triggers := s.triggers.goto r .finished }
  | .rollBack r =>
    (s.triggers.get? r).bind fun q ↦
      if q.phase.isPastCheck = false then none
      else some { s with triggers := s.triggers.goto r .rolledBack }

/-- The system of the lint triggers. -/
def lintTriggers : Machine State Label := ⟨step⟩

/-- The state before the first trigger, with the reports of earlier times. -/
def State.start (reports : List LintReport) : State := ⟨reports, []⟩

/-- At most one lint run of a user is in progress. -/
def State.OneRun (s : State) : Prop := s.triggers.AtMostOne Phase.isInProgress fun userId ↦ userId

/-- At most one lint run of a user is past its check. -/
def State.OnePastCheck (s : State) : Prop :=
  s.triggers.AtMostOne Phase.isPastCheck fun userId ↦ userId

instance (s : State) : Decidable s.OneRun :=
  inferInstanceAs (Decidable (Parties.AtMostOne _ _ _))

/-- A trigger checks when no other run of its user is past its check and has not ended; or
it finds a committed report in progress. -/
def ChecksAlone (s : State) : Label → Prop
  | .check r => ∀ q ∈ s.triggers.get? r, q.phase = .triggered →
      checkInProgress s.reports q.data = none →
      s.triggers.Alone Phase.isPastCheck (fun userId ↦ userId) q
  | _ => True

instance (s : State) : ∀ l, Decidable (ChecksAlone s l)
  | .check r =>
    inferInstanceAs (Decidable (∀ q ∈ s.triggers.get? r, q.phase = .triggered →
      checkInProgress s.reports q.data = none →
      s.triggers.Alone Phase.isPastCheck (fun userId ↦ userId) q))
  | .trigger .. | .writeReport _ | .finish .. | .rollBack _ => .isTrue trivial

section
variable {s t : State} {l : Label}

private theorem distinct_step (hs : s.triggers.Distinct) (h : step s l = some t) :
    t.triggers.Distinct := by
  cases l with
  | trigger r userId =>
    obtain ⟨triggers, henter, rfl⟩ := Option.map_eq_some_iff.mp h
    exact Parties.distinct_enter hs henter
  | check r =>
    obtain ⟨q, _, _, hnext⟩ := Parties.exists_of_bind hs h
    obtain ⟨_, hnext⟩ := Option.ite_none_left_eq_some.mp hnext
    split at hnext <;> cases hnext <;> exact Parties.distinct_goto hs
  | writeReport r =>
    obtain ⟨q, _, _, hnext⟩ := Parties.exists_of_bind hs h
    obtain ⟨_, hnext⟩ := Option.ite_none_left_eq_some.mp hnext
    cases hnext
    exact Parties.distinct_goto hs
  | finish r complete =>
    obtain ⟨q, _, _, hnext⟩ := Parties.exists_of_bind hs h
    obtain ⟨_, hnext⟩ := Option.ite_none_left_eq_some.mp hnext
    cases hnext
    exact Parties.distinct_goto hs
  | rollBack r =>
    obtain ⟨q, _, _, hnext⟩ := Parties.exists_of_bind hs h
    obtain ⟨_, hnext⟩ := Option.ite_none_left_eq_some.mp hnext
    cases hnext
    exact Parties.distinct_goto hs

/-- A step keeps the runs past their check apart precisely when its check is made alone. -/
theorem onePastCheck_step_iff (hs : s.triggers.Distinct) (hone : s.OnePastCheck)
    (h : step s l = some t) : t.OnePastCheck ↔ ChecksAlone s l := by
  cases l with
  | trigger r userId =>
    obtain ⟨triggers, henter, rfl⟩ := Option.map_eq_some_iff.mp h
    exact iff_of_true (Parties.atMostOne_enter hone rfl henter) trivial
  | check r =>
    obtain ⟨q, hq, rfl, hnext⟩ := Parties.exists_of_bind hs h
    obtain ⟨hphase, hnext⟩ := Option.ite_none_left_eq_some.mp hnext
    have hget : s.triggers.get? q.id = some q := (Parties.get?_eq_some hs).mpr ⟨hq, rfl⟩
    simp only [ChecksAlone, hget, Option.mem_def, Option.some.injEq, forall_eq',
      not_not.mp hphase, true_implies]
    split at hnext
    next hfound =>
      cases hnext
      simp only [hfound, reduceCtorEq, false_implies, iff_true]
      exact Parties.atMostOne_goto_outside hs hone hq rfl
    next hnone =>
      cases hnext
      simp only [hnone, true_implies]
      exact Parties.atMostOne_goto_inside_iff hs hone hq rfl
  | writeReport r =>
    obtain ⟨q, hq, rfl, hnext⟩ := Parties.exists_of_bind hs h
    obtain ⟨hphase, hnext⟩ := Option.ite_none_left_eq_some.mp hnext
    cases hnext
    have hin : q.phase.isPastCheck = true := by rw [not_not.mp hphase]; rfl
    have halone := hone.alone hq hin
    exact iff_of_true ((Parties.atMostOne_goto_inside_iff hs hone hq rfl).mpr halone) trivial
  | finish r complete =>
    obtain ⟨q, hq, rfl, hnext⟩ := Parties.exists_of_bind hs h
    obtain ⟨_, hnext⟩ := Option.ite_none_left_eq_some.mp hnext
    cases hnext
    exact iff_of_true (Parties.atMostOne_goto_outside hs hone hq rfl) trivial
  | rollBack r =>
    obtain ⟨q, hq, rfl, hnext⟩ := Parties.exists_of_bind hs h
    obtain ⟨_, hnext⟩ := Option.ite_none_left_eq_some.mp hnext
    cases hnext
    exact iff_of_true (Parties.atMostOne_goto_outside hs hone hq rfl) trivial

/-- A run in progress is past its check. -/
theorem State.OnePastCheck.oneRun (h : s.OnePastCheck) : s.OneRun := by
  have hin (phase : Phase) (hphase : phase.isInProgress = true) : phase.isPastCheck = true := by
    cases phase with
    | inProgress => rfl
    | _ => cases hphase
  intro q hq q' hq' hqin hqin' hkey
  exact h q hq q' hq' (hin _ hqin) (hin _ hqin') hkey

/-- Runs of a user are past their checks one at a time precisely as long as every check is
made alone. -/
theorem always_onePastCheck_iff (reports : List LintReport) (ls : List Label) :
    lintTriggers.Always State.OnePastCheck (.start reports) ls ↔
      lintTriggers.Guarded ChecksAlone (.start reports) ls := by
  rw [lintTriggers.always_iff_guarded (W := fun s ↦ s.triggers.Distinct)
    (fun _ _ _ hs h ↦ distinct_step hs h) (fun _ _ _ hs hone h ↦ onePastCheck_step_iff hs hone h)
    Parties.distinct_nil ls]
  simp [State.OnePastCheck, State.start, Parties.atMostOne_nil]

/-- As long as every check is made alone, at most one lint run of a user is in progress. -/
theorem always_oneRun (reports : List LintReport) (ls : List Label)
    (h : lintTriggers.Guarded ChecksAlone (.start reports) ls) :
    lintTriggers.Always State.OneRun (.start reports) ls :=
  ((always_onePastCheck_iff reports ls).mpr h).mono _ fun _ ↦ State.OnePastCheck.oneRun

/-- Two runs of one user one after the other, with a run of another user between. -/
theorem always_oneRun_in_turn :
    lintTriggers.Always State.OneRun (.start [])
      [.trigger 0 "u", .check 0, .trigger 1 "v", .check 1, .writeReport 0, .writeReport 1,
        .finish 0 true, .trigger 2 "u", .check 2, .writeReport 2] :=
  always_oneRun [] _ (by decide)

/-- The second trigger does not see the report that the first has written. -/
theorem not_always_oneRun :
    ¬ lintTriggers.Always State.OneRun (.start [])
      [.trigger 0 "u", .check 0, .writeReport 0, .trigger 1 "u", .check 1, .writeReport 1] := by
  decide

end

end WikiMind.Lint.Triggers
