import Mathlib.Algebra.Group.Nat.Defs
import WikiMind.Base.Rows
import WikiMind.Base.Run

/-!
# Dismissing lint findings

The counts of a report (`engine/linter/runner.py:236–288`) and what a dismissal does to them
(`services/linter.py:188–262`). The run counts its findings, of which some are dismissed
already because an earlier run found the same and the user dismissed it; each dismissal then
adjusts the counts without looking at the flag it sets. Findings have three tables and the
report a count for each. A run is one event, since nothing of it is committed before its end.
-/

namespace WikiMind.Lint.Dismissals

open WikiMind.Base

/-- `models/enums.py:180`. -/
inductive LintFindingKind where
  | contradiction | orphan | structural
  deriving DecidableEq, Repr

/-- `models/enums.py:192`, less the status of a run that has not ended. -/
inductive LintReportStatus where
  | complete | failed
  deriving DecidableEq, Repr

/-- `_LintFindingBase`: `models/tables/lint.py:39`. -/
structure LintFinding where
  id : Nat
  userId : String
  reportId : Nat
  contentHash : String
  dismissed : Bool
  deriving DecidableEq, Repr

/-- `models/tables/lint.py:17`. -/
structure LintReport where
  id : Nat
  userId : String
  status : LintReportStatus
  contradictionsCount : Nat
  orphansCount : Nat
  structuralCount : Nat
  totalFindings : Nat
  dismissedCount : Nat
  deriving DecidableEq, Repr

/-- The tables of findings, one for each kind, the reports and the hashes of the dismissed
findings. Rows are not deleted, so the length of a table gives the next identifier. -/
structure Tables where
  findings : LintFindingKind → List LintFinding
  reports : List LintReport
  dismissedFindings : List String

def Tables.empty : Tables := ⟨fun _ ↦ [], [], []⟩

/-- How a run ends: complete; failed with its findings and counts kept, because an alert or a
job could not be sent; failed with its findings kept but not counted; or with the report only. -/
inductive Outcome where
  | complete
  | failedAfterwards
  | failedUncounted
  | failedDetecting
  deriving DecidableEq, Repr

inductive Event where
  | lint (userId : String) (hashes : LintFindingKind → List String) (outcome : Outcome)
  | dismiss (kind : LintFindingKind) (findingId : Nat) (userId : String)

/-- The report of a run before its findings are counted. -/
def newReport (t : Tables) (userId : String) (status : LintReportStatus) : LintReport where
  id := t.reports.length
  userId := userId
  status := status
  contradictionsCount := 0
  orphansCount := 0
  structuralCount := 0
  totalFindings := 0
  dismissedCount := 0

/-- The findings of one kind that a run of the user makes, those with the hash of a dismissed
finding dismissed: `_apply_dismiss_suppression`, `runner.py:102`. -/
def detected (t : Tables) (userId : String) (kind : LintFindingKind) (hashes : List String) :
    List LintFinding :=
  hashes.zipIdx.map fun (hash, i) ↦
    { id := (t.findings kind).length + i
      userId := userId
      reportId := t.reports.length
      contentHash := hash
      dismissed := hash ∈ t.dismissedFindings }

def active (findings : List LintFinding) : List LintFinding := findings.filter (¬ ·.dismissed)

/-- The report with the counts of the findings: `runner.py:273–285`. -/
def finalize (report : LintReport) (contradictions orphans structurals : List LintFinding) :
    LintReport :=
  { report with
    contradictionsCount := (active contradictions).length
    orphansCount := (active orphans).length
    structuralCount := (active structurals).length
    totalFindings :=
      (active contradictions).length + (active orphans).length + (active structurals).length
    dismissedCount :=
      (contradictions.length - (active contradictions).length) +
        (orphans.length - (active orphans).length) +
        (structurals.length - (active structurals).length) }

/-- `run_lint`: `runner.py:314`. -/
def runLint (t : Tables) (userId : String) (hashes : LintFindingKind → List String)
    (outcome : Outcome) : Tables :=
  let found (kind : LintFindingKind) := detected t userId kind (hashes kind)
  let counted (status : LintReportStatus) : LintReport :=
    finalize (newReport t userId status) (found .contradiction) (found .orphan)
      (found .structural)
  let kept (kind : LintFindingKind) := t.findings kind ++ found kind
  match outcome with
  | .complete => { t with findings := kept, reports := t.reports ++ [counted .complete] }
  | .failedAfterwards => { t with findings := kept, reports := t.reports ++ [counted .failed] }
  | .failedUncounted =>
    { t with findings := kept, reports := t.reports ++ [newReport t userId .failed] }
  | .failedDetecting => { t with reports := t.reports ++ [newReport t userId .failed] }

/-- What a dismissal does to the counts of the report: `services/linter.py:236–244`. -/
def LintReport.discount (kind : LintFindingKind) (report : LintReport) : LintReport :=
  let report :=
    match kind with
    | .contradiction => { report with contradictionsCount := report.contradictionsCount - 1 }
    | .orphan => { report with orphansCount := report.orphansCount - 1 }
    | .structural => { report with structuralCount := report.structuralCount - 1 }
  { report with
    totalFindings := report.totalFindings - 1
    dismissedCount := report.dismissedCount + 1 }

/-- What an accepted dismissal writes: `services/linter.py:230–256`. -/
def Tables.dismiss (t : Tables) (kind : LintFindingKind) (finding : LintFinding) : Tables where
  findings := Function.update t.findings kind
    (Rows.modify (·.id = finding.id) (fun f ↦ { f with dismissed := true }) (t.findings kind))
  reports := Rows.modify (·.id = finding.reportId) (LintReport.discount kind) t.reports
  dismissedFindings :=
    if finding.contentHash ∈ t.dismissedFindings then t.dismissedFindings
    else t.dismissedFindings ++ [finding.contentHash]

/-- `dismiss_finding`: `services/linter.py:188`. -/
def dismissFinding (t : Tables) (kind : LintFindingKind) (findingId : Nat) (userId : String) :
    Except Exc Tables :=
  match (t.findings kind).find? (·.id = findingId) with
  | none => .error (.notFound "Finding not found")
  | some finding =>
    if finding.userId ≠ userId then .error (.notFound "Finding not found")
    else .ok (t.dismiss kind finding)

/-- One event; a rejected dismissal changes nothing. -/
def step (t : Tables) : Event → Tables
  | .lint userId hashes outcome => runLint t userId hashes outcome
  | .dismiss kind findingId userId =>
    match dismissFinding t kind findingId userId with
    | .ok t' => t'
    | .error _ => t

/-- The lint runs and dismissals of all users. -/
def linter : Machine Tables Event := .ofFun step

/-- The number of findings in a report that are dismissed, or that are not. -/
def number (findings : List LintFinding) (reportId : Nat) (dismissed : Bool) : Nat :=
  findings.countP fun f ↦ f.reportId = reportId ∧ f.dismissed = dismissed

/-- The five counts of a report are what they are called. -/
structure LintReport.Accurate (findings : LintFindingKind → List LintFinding)
    (report : LintReport) : Prop where
  contradictions :
    report.contradictionsCount = number (findings .contradiction) report.id false
  orphans : report.orphansCount = number (findings .orphan) report.id false
  structural : report.structuralCount = number (findings .structural) report.id false
  total : report.totalFindings =
    report.contradictionsCount + report.orphansCount + report.structuralCount
  dismissed : report.dismissedCount =
    number (findings .contradiction) report.id true + number (findings .orphan) report.id true +
      number (findings .structural) report.id true

/-- The counts of all complete reports are accurate. -/
def Tables.Accurate (t : Tables) : Prop :=
  ∀ report ∈ t.reports, report.status = .complete → report.Accurate t.findings

/-- The event dismisses no finding of a complete report that is dismissed already. -/
def Event.Fresh (t : Tables) : Event → Prop
  | .lint .. => True
  | .dismiss kind findingId userId =>
    ∀ f ∈ t.findings kind, f.id = findingId → f.userId = userId → f.dismissed = true →
      ∀ report ∈ t.reports, report.id = f.reportId → report.status ≠ .complete

/-- Identifiers are positions, and every finding belongs to a report. -/
structure Tables.WellFormed (t : Tables) : Prop where
  findingIds : ∀ kind, (t.findings kind).map (·.id) = List.range (t.findings kind).length
  reportIds : t.reports.map (·.id) = List.range t.reports.length
  parents : ∀ kind, ∀ f ∈ t.findings kind, f.reportId < t.reports.length

section
variable {t : Tables}

private theorem Tables.WellFormed.nodup_findingIds (h : t.WellFormed) (kind : LintFindingKind) :
    ((t.findings kind).map (·.id)).Nodup := by
  rw [h.findingIds kind]
  exact List.nodup_range

private theorem Tables.WellFormed.report_lt (h : t.WellFormed) {report : LintReport}
    (hreport : report ∈ t.reports) : report.id < t.reports.length := by
  rw [← List.mem_range, ← h.reportIds]
  exact List.mem_map_of_mem hreport

private theorem mem_detected {userId : String} {kind : LintFindingKind} {hashes : List String}
    {f : LintFinding} (h : f ∈ detected t userId kind hashes) :
    f.reportId = t.reports.length := by
  obtain ⟨⟨hash, i⟩, -, rfl⟩ := List.mem_map.mp h
  rfl

/-- The identifiers of a run's findings continue those of the table. -/
theorem map_id_detected (userId : String) (kind : LintFindingKind) (hashes : List String) :
    (detected t userId kind hashes).map (·.id) =
      (List.range (detected t userId kind hashes).length).map ((t.findings kind).length + ·) := by
  have hsnd : hashes.zipIdx.map Prod.snd = List.range hashes.length := by
    rw [List.zipIdx_map_snd, List.range_eq_range']
  unfold detected
  rw [List.map_map, List.length_map, List.length_zipIdx, ← hsnd, List.map_map]
  rfl

/-- The number of findings that are not dismissed. -/
theorem length_active (findings : List LintFinding) :
    (active findings).length = findings.countP (·.dismissed = false) := by
  rw [active, ← List.countP_eq_length_filter]
  apply List.countP_congr
  simp

/-- The number of the others. -/
theorem length_sub_active (findings : List LintFinding) :
    findings.length - (active findings).length = findings.countP (·.dismissed = true) := by
  have hsum := List.length_eq_countP_add_countP (l := findings) (fun f ↦ f.dismissed = true)
  have hother : findings.countP (fun f ↦ ¬ decide (f.dismissed = true) = true) =
      findings.countP (·.dismissed = false) := by
    apply List.countP_congr
    simp
  rw [length_active, ← hother]
  omega

/-- The tables after a run: findings and a report of their own are added, and where the report
is complete its counts are those of the findings. -/
theorem exists_runLint_eq (t : Tables) (userId : String) (hashes : LintFindingKind → List String)
    (outcome : Outcome) :
    ∃ (kept : LintFindingKind → List String) (report : LintReport),
      runLint t userId hashes outcome =
          { t with
            findings := fun kind ↦ t.findings kind ++ detected t userId kind (kept kind)
            reports := t.reports ++ [report] } ∧
        report.id = t.reports.length ∧
        (report.status = .complete →
          report = finalize report (detected t userId .contradiction (kept .contradiction))
            (detected t userId .orphan (kept .orphan))
            (detected t userId .structural (kept .structural))) := by
  cases outcome with
  | complete => exact ⟨hashes, _, rfl, rfl, fun _ ↦ rfl⟩
  | failedAfterwards =>
    refine ⟨hashes, _, rfl, rfl, ?_⟩
    rintro ⟨⟩
  | failedUncounted =>
    refine ⟨hashes, _, rfl, rfl, ?_⟩
    rintro ⟨⟩
  | failedDetecting =>
    refine ⟨fun _ ↦ [], newReport t userId .failed, ?_, rfl, ?_⟩
    · simp only [runLint, detected, List.zipIdx_nil, List.map_nil, List.append_nil]
    · rintro ⟨⟩

private theorem wellFormed_runLint (h : t.WellFormed) (userId : String)
    (hashes : LintFindingKind → List String) (outcome : Outcome) :
    (runLint t userId hashes outcome).WellFormed := by
  obtain ⟨kept, report, heq, hid, -⟩ := exists_runLint_eq t userId hashes outcome
  rw [heq]
  constructor
  · intro kind
    simp only
    rw [List.map_append, h.findingIds, map_id_detected, List.length_append, List.range_add]
  · simp only
    rw [List.map_append, h.reportIds, List.length_append, List.range_add]
    simp [hid]
  · intro kind f hf
    rw [List.length_append, List.length_singleton]
    obtain hold | hnew := List.mem_append.mp hf
    · exact Nat.lt_succ_of_lt (h.parents kind f hold)
    · rw [mem_detected hnew]
      exact Nat.lt_succ_self _

/-- New findings do not count for an earlier report. -/
theorem number_detected_earlier {reportId : Nat} (h : reportId < t.reports.length)
    (userId : String) (kind : LintFindingKind) (hashes : List String) (dismissed : Bool) :
    number (detected t userId kind hashes) reportId dismissed = 0 := by
  unfold number
  rw [List.countP_eq_zero]
  intro f hf
  have hother : f.reportId ≠ reportId := by
    rw [mem_detected hf]
    exact Nat.ne_of_gt h
  simp [hother]

/-- The findings of the table are none of the next report. -/
theorem number_next (h : t.WellFormed) (kind : LintFindingKind) (dismissed : Bool) :
    number (t.findings kind) t.reports.length dismissed = 0 := by
  unfold number
  rw [List.countP_eq_zero]
  intro f hf
  have hother : f.reportId ≠ t.reports.length := Nat.ne_of_lt (h.parents kind f hf)
  simp [hother]

/-- All findings of a run are of its report. -/
theorem number_detected (userId : String) (kind : LintFindingKind) (hashes : List String)
    (dismissed : Bool) :
    number (detected t userId kind hashes) t.reports.length dismissed =
      (detected t userId kind hashes).countP (·.dismissed = dismissed) := by
  apply List.countP_congr
  intro f hf
  simp [mem_detected hf]

private theorem number_append (findings findings' : List LintFinding) (reportId : Nat)
    (dismissed : Bool) :
    number (findings ++ findings') reportId dismissed =
      number findings reportId dismissed + number findings' reportId dismissed :=
  List.countP_append

/-- A run leaves the counts of all reports accurate: the old reports keep their findings, and
the new one has those that were counted. -/
theorem accurate_runLint (h : t.WellFormed) (hacc : t.Accurate) (userId : String)
    (hashes : LintFindingKind → List String) (outcome : Outcome) :
    (runLint t userId hashes outcome).Accurate := by
  obtain ⟨kept, report, heq, hid, hcounted⟩ := exists_runLint_eq t userId hashes outcome
  rw [heq]
  intro report' hreport' hcomplete
  obtain hold | hnew := List.mem_append.mp hreport'
  · obtain ⟨hcontradictions, horphans, hstructural, htotal, hdismissed⟩ :=
      hacc report' hold hcomplete
    have hnumber : ∀ kind dismissed,
        number (t.findings kind ++ detected t userId kind (kept kind)) report'.id dismissed =
          number (t.findings kind) report'.id dismissed := by
      intro kind dismissed
      rw [number_append, number_detected_earlier (h.report_lt hold), Nat.add_zero]
    exact
      { contradictions := by rw [hnumber, hcontradictions]
        orphans := by rw [hnumber, horphans]
        structural := by rw [hnumber, hstructural]
        total := htotal
        dismissed := by rw [hnumber, hnumber, hnumber, hdismissed] }
  · rw [List.mem_singleton.mp hnew] at hcomplete ⊢
    have hcounts := hcounted hcomplete
    have hnumber : ∀ kind dismissed,
        number (t.findings kind ++ detected t userId kind (kept kind)) report.id dismissed =
          (detected t userId kind (kept kind)).countP (·.dismissed = dismissed) := by
      intro kind dismissed
      rw [hid, number_append, number_next h, number_detected, Nat.zero_add]
    constructor
    · rw [hnumber, ← length_active]
      exact congrArg LintReport.contradictionsCount hcounts
    · rw [hnumber, ← length_active]
      exact congrArg LintReport.orphansCount hcounts
    · rw [hnumber, ← length_active]
      exact congrArg LintReport.structuralCount hcounts
    · rw [hcounts]
      rfl
    · rw [hnumber, hnumber, hnumber, ← length_sub_active, ← length_sub_active,
        ← length_sub_active]
      exact congrArg LintReport.dismissedCount hcounts

/-- What a dismissal does: it is rejected, because no finding of the user has the identifier, or
it writes that finding and its report. -/
theorem step_dismiss_cases (h : t.WellFormed) (kind : LintFindingKind) (findingId : Nat)
    (userId : String) :
    (step t (.dismiss kind findingId userId) = t ∧
        ∀ f ∈ t.findings kind, f.id = findingId → f.userId ≠ userId) ∨
      ∃ f ∈ t.findings kind, f.id = findingId ∧ f.userId = userId ∧
        step t (.dismiss kind findingId userId) = t.dismiss kind f := by
  cases hfind : (t.findings kind).find? (·.id = findingId) with
  | none =>
    have hnone := List.find?_eq_none.mp hfind
    left
    refine ⟨by simp [step, dismissFinding, hfind], fun f hf hid ↦ ?_⟩
    exact absurd hid (by simpa using hnone f hf)
  | some f =>
    have hmem := List.mem_of_find?_eq_some hfind
    have hid : f.id = findingId := by simpa using List.find?_some hfind
    by_cases huser : f.userId = userId
    · right
      exact ⟨f, hmem, hid, huser, by simp [step, dismissFinding, hfind, huser]⟩
    · left
      refine ⟨by simp [step, dismissFinding, hfind, huser], fun f' hf' hid' ↦ ?_⟩
      rwa [Rows.eq_of_nodup (h.nodup_findingIds kind) hmem hf' (hid'.trans hid.symm)]

/-- The findings of the kind after the dismissal of one of them. -/
theorem findings_dismiss_self (t : Tables) (kind : LintFindingKind) (f : LintFinding) :
    (t.dismiss kind f).findings kind =
      Rows.modify (·.id = f.id) (fun g ↦ { g with dismissed := true }) (t.findings kind) :=
  Function.update_self ..

private theorem findings_dismiss_other (t : Tables) {kind kind' : LintFindingKind}
    (hne : kind' ≠ kind)
    (f : LintFinding) : (t.dismiss kind f).findings kind' = t.findings kind' :=
  Function.update_of_ne hne ..

private theorem wellFormed_dismiss (h : t.WellFormed) (kind : LintFindingKind) (f : LintFinding) :
    (t.dismiss kind f).WellFormed := by
  have hlength : (t.dismiss kind f).reports.length = t.reports.length := List.length_map ..
  constructor
  · intro kind'
    by_cases hkind : kind' = kind
    · subst hkind
      have hids : ((t.dismiss kind' f).findings kind').map (·.id) =
          (t.findings kind').map (·.id) := by
        rw [findings_dismiss_self]
        exact Rows.map_modify fun _ _ _ ↦ rfl
      have hcount := congrArg List.length hids
      rw [List.length_map, List.length_map] at hcount
      rw [hids, hcount, h.findingIds kind']
    · rw [findings_dismiss_other t hkind, h.findingIds kind']
  · rw [hlength, ← h.reportIds]
    apply Rows.map_modify
    intro report _ _
    cases kind <;> rfl
  · intro kind' g hg
    rw [hlength]
    by_cases hkind : kind' = kind
    · subst hkind
      rw [findings_dismiss_self] at hg
      obtain ⟨g', hg', -, rfl⟩ | ⟨hg', -⟩ := Rows.mem_modify.mp hg
      · exact h.parents kind' g' hg'
      · exact h.parents kind' g hg'
    · rw [findings_dismiss_other t hkind] at hg
      exact h.parents kind' g hg

/-- What a dismissal does to the numbers of its kind: it moves the finding from those that are
not dismissed to those that are, if it was not there. -/
theorem number_dismiss (h : t.WellFormed) {kind : LintFindingKind} {f : LintFinding}
    (hf : f ∈ t.findings kind) (reportId : Nat) (dismissed : Bool) :
    number ((t.dismiss kind f).findings kind) reportId dismissed +
        (if f.reportId = reportId ∧ f.dismissed = dismissed then 1 else 0) =
      number (t.findings kind) reportId dismissed +
        (if f.reportId = reportId ∧ true = dismissed then 1 else 0) := by
  have hmove := Rows.countP_modify (f := fun g ↦ { g with dismissed := true })
    (fun g ↦ g.reportId = reportId ∧ g.dismissed = dismissed) (h.nodup_findingIds kind) hf
  rw [findings_dismiss_self]
  simpa only [number, decide_eq_true_eq] using hmove

/-- A dismissal leaves the numbers of other reports. -/
theorem number_dismiss_other (h : t.WellFormed) {kind : LintFindingKind} {f : LintFinding}
    (hf : f ∈ t.findings kind) {reportId : Nat} (hother : reportId ≠ f.reportId)
    (kind' : LintFindingKind) (dismissed : Bool) :
    number ((t.dismiss kind f).findings kind') reportId dismissed =
      number (t.findings kind') reportId dismissed := by
  by_cases hkind : kind' = kind
  · subst hkind
    simpa [hother.symm] using number_dismiss h hf reportId dismissed
  · rw [findings_dismiss_other t hkind]

/-- The counts of the report follow the dismissal of a finding that was not dismissed. -/
theorem accurate_discount (h : t.WellFormed) {kind : LintFindingKind} {f : LintFinding}
    (hf : f ∈ t.findings kind) (hfresh : f.dismissed = false) {report : LintReport}
    (hid : report.id = f.reportId) (hacc : report.Accurate t.findings) :
    (report.discount kind).Accurate (t.dismiss kind f).findings := by
  have hfalse := number_dismiss h hf report.id false
  have htrue := number_dismiss h hf report.id true
  simp only [hid, hfresh, and_self, and_false, if_true, if_false, Nat.add_zero,
    Bool.true_eq_false, Bool.false_eq_true] at hfalse htrue
  rw [← hid] at hfalse htrue
  obtain ⟨hcontradictions, horphans, hstructural, htotal, hdismissed⟩ := hacc
  cases kind with
  | contradiction =>
    have horphan : (t.dismiss .contradiction f).findings .orphan = t.findings .orphan :=
      findings_dismiss_other t (by decide) f
    have hstruct : (t.dismiss .contradiction f).findings .structural = t.findings .structural :=
      findings_dismiss_other t (by decide) f
    constructor <;> simp only [LintReport.discount, horphan, hstruct] <;> omega
  | orphan =>
    have hcontradict : (t.dismiss .orphan f).findings .contradiction = t.findings .contradiction :=
      findings_dismiss_other t (by decide) f
    have hstruct : (t.dismiss .orphan f).findings .structural = t.findings .structural :=
      findings_dismiss_other t (by decide) f
    constructor <;> simp only [LintReport.discount, hcontradict, hstruct] <;> omega
  | structural =>
    have hcontradict :
        (t.dismiss .structural f).findings .contradiction = t.findings .contradiction :=
      findings_dismiss_other t (by decide) f
    have horphan : (t.dismiss .structural f).findings .orphan = t.findings .orphan :=
      findings_dismiss_other t (by decide) f
    constructor <;> simp only [LintReport.discount, hcontradict, horphan] <;> omega

/-- They do not follow the dismissal of one that was: it is counted twice. -/
theorem not_accurate_discount (h : t.WellFormed) {kind : LintFindingKind} {f : LintFinding}
    (hf : f ∈ t.findings kind) (hagain : f.dismissed = true) {report : LintReport}
    (hacc : report.Accurate t.findings) :
    ¬ (report.discount kind).Accurate (t.dismiss kind f).findings := by
  intro hacc'
  have hnumber : ∀ kind', number ((t.dismiss kind f).findings kind') report.id true =
      number (t.findings kind') report.id true := by
    intro kind'
    by_cases hkind : kind' = kind
    · subst hkind
      simpa [hagain] using number_dismiss h hf report.id true
    · rw [findings_dismiss_other t hkind]
  have hid : (report.discount kind).id = report.id := by cases kind <;> rfl
  have hcount : (report.discount kind).dismissedCount = report.dismissedCount + 1 := by
    cases kind <;> rfl
  have hdismissed := hacc'.dismissed
  rw [hid, hcount, hnumber, hnumber, hnumber, ← hacc.dismissed] at hdismissed
  omega

/-- The counts stay accurate through a dismissal exactly when its finding was not dismissed or
is in no complete report. -/
theorem accurate_dismiss_iff (h : t.WellFormed) (hacc : t.Accurate) {kind : LintFindingKind}
    {f : LintFinding} (hf : f ∈ t.findings kind) :
    (t.dismiss kind f).Accurate ↔
      (f.dismissed = true →
        ∀ report ∈ t.reports, report.id = f.reportId → report.status ≠ .complete) := by
  have hstatus : ∀ report : LintReport, (report.discount kind).status = report.status := by
    intro report
    cases kind <;> rfl
  constructor
  · intro hacc' hagain report hreport hid hcomplete
    refine not_accurate_discount h hf hagain (hacc report hreport hcomplete) (hacc' _ ?_ ?_)
    · exact Rows.mem_modify.mpr (.inl ⟨report, hreport, by simpa using hid, rfl⟩)
    · rw [hstatus, hcomplete]
  · intro hfresh report' hreport' hcomplete
    obtain ⟨report, hreport, hid, rfl⟩ | ⟨hreport, hid⟩ := Rows.mem_modify.mp hreport'
    · rw [decide_eq_true_eq] at hid
      rw [hstatus] at hcomplete
      cases hdismissed : f.dismissed with
      | true => exact absurd hcomplete (hfresh hdismissed report hreport hid)
      | false => exact accurate_discount h hf hdismissed hid (hacc report hreport hcomplete)
    · have hother : report'.id ≠ f.reportId := by simpa using hid
      obtain ⟨hcontradictions, horphans, hstructural, htotal, hdismissed⟩ :=
        hacc report' hreport hcomplete
      have hnumber := number_dismiss_other h hf hother
      exact
        { contradictions := by rw [hnumber, hcontradictions]
          orphans := by rw [hnumber, horphans]
          structural := by rw [hnumber, hstructural]
          total := htotal
          dismissed := by rw [hnumber, hnumber, hnumber, hdismissed] }

private theorem wellFormed_step (h : t.WellFormed) (event : Event) : (step t event).WellFormed := by
  cases event with
  | lint userId hashes outcome => exact wellFormed_runLint h userId hashes outcome
  | dismiss kind findingId userId =>
    obtain ⟨heq, -⟩ | ⟨f, -, -, -, heq⟩ := step_dismiss_cases h kind findingId userId
    · rw [heq]
      exact h
    · rw [heq]
      exact wellFormed_dismiss h kind f

/-- An event keeps the counts accurate exactly when it dismisses nothing twice. -/
theorem accurate_step_iff (h : t.WellFormed) (hacc : t.Accurate) (event : Event) :
    (step t event).Accurate ↔ event.Fresh t := by
  cases event with
  | lint userId hashes outcome =>
    exact iff_of_true (accurate_runLint h hacc userId hashes outcome) trivial
  | dismiss kind findingId userId =>
    obtain ⟨heq, hnone⟩ | ⟨f, hf, hid, huser, heq⟩ := step_dismiss_cases h kind findingId userId
    · rw [heq]
      exact iff_of_true hacc fun f hf hid huser ↦ absurd huser (hnone f hf hid)
    · rw [heq, accurate_dismiss_iff h hacc hf]
      constructor
      · intro hfresh g hg hgid _
        rw [Rows.eq_of_nodup (h.nodup_findingIds kind) hf hg (hgid.trans hid.symm)]
        exact hfresh
      · intro hfresh
        exact hfresh f hf hid huser

private theorem wellFormed_empty : Tables.empty.WellFormed :=
  ⟨fun _ ↦ rfl, rfl, fun _ _ hf ↦ by cases hf⟩

end

/-- In every run of lint runs and dismissals the counts of all complete reports are those of
their findings in every state reached, exactly when no step dismisses a finding of a complete
report that is dismissed already. -/
theorem always_accurate_iff (events : List Event) :
    linter.Always Tables.Accurate .empty events ↔
      linter.Guarded (fun t event ↦ event.Fresh t) .empty events := by
  have hempty : Tables.empty.Accurate := fun report hreport ↦ by cases hreport
  rw [linter.always_iff_guarded (W := Tables.WellFormed) (G := fun t event ↦ event.Fresh t) ?_ ?_
    wellFormed_empty events, and_iff_right hempty]
  · rintro t event t' h ⟨⟩
    exact wellFormed_step h event
  · rintro t event t' h hacc ⟨⟩
    exact accurate_step_iff h hacc event

/-- A run finds two contradictions, and the first is dismissed twice. -/
def repeatedDismissal : List Event :=
  [.lint "u" (fun kind ↦ if kind = .contradiction then ["h1", "h2"] else []) .complete,
    .dismiss .contradiction 0 "u", .dismiss .contradiction 0 "u"]

/-- The report then counts two dismissed findings and none besides, while there is one of each. -/
theorem repeated_dismissal_counted :
    let t := repeatedDismissal.foldl step .empty
    (t.findings .contradiction).map (·.dismissed) = [true, false] ∧
      t.reports.map (fun report ↦
        (report.status, report.contradictionsCount, report.dismissedCount)) = [(.complete, 0, 2)] ∧
      ¬ linter.Always Tables.Accurate .empty repeatedDismissal := by
  refine ⟨by decide, by decide, fun h ↦ ?_⟩
  have hlast := (linter.always_iff_forall _ _ _).mp h repeatedDismissal (List.prefix_refl _) _
    (Machine.run_ofFun step .empty repeatedDismissal)
  have hdismissed := (hlast ⟨0, "u", .complete, 0, 0, 0, 0, 2⟩ (by decide) rfl).dismissed
  exact absurd hdismissed (by decide)

end WikiMind.Lint.Dismissals
