import Mathlib.Data.Sym.Sym2
import WikiMind.Base.Run
import WikiMind.Lint.Contradictions

/-!
# Contradiction findings and their records

What a lint run does with the contradictions it detected (`engine/linter/runner.py:102–409`)
and what the user does with them afterwards (`services/linter.py:188`,
`services/contradiction.py`, `services/wiki.py:1129`). A finding is a row of one report; a
record follows a contradiction through its life. Hashes are given by the texts they are
taken of, `normalize` stands for `strip().lower()`.
-/

namespace WikiMind.Lint.Findings

open WikiMind.Base WikiMind.Lint.Contradictions

/-- A contradiction as a run detects it. -/
structure Detection where
  articleAId : String
  articleBId : String
  articleAClaim : String
  articleBClaim : String
  description : String
  deriving DecidableEq, Repr

/-- `models/tables/lint.py:46`. -/
structure Finding where
  id : Nat
  reportId : Nat
  userId : String
  contentHash : String
  detection : Detection
  dismissed : Bool
  contradictionId : Option Nat
  deriving DecidableEq, Repr

/-- `models/enums.py:164`. -/
inductive ContradictionStatus where
  | active | resolved | dismissed
  deriving DecidableEq, Repr

/-- `models/tables/lint.py:90`. -/
structure Contradiction where
  id : Nat
  claimA : String
  claimB : String
  articleAId : String
  articleBId : String
  sourceFindingId : Option Nat
  claimFingerprint : String
  status : ContradictionStatus
  resolution : Option String
  resolvedBy : Option String
  userId : String
  deriving DecidableEq, Repr

/-- How a run ends: complete; with its findings kept but its loop over the records stopped by
an exception after some of them, which the handler commits; or with nothing kept. -/
inductive Outcome where
  | complete
  | stoppedAfter (k : Nat)
  | lost
  deriving DecidableEq, Repr

/-- How far the loop gets over a number of findings. -/
def Outcome.reach (n : Nat) : Outcome → Nat
  | .complete => n
  | .stoppedAfter k => k
  | .lost => 0

/-- A queued recompile job: `runner.py:193–199`. -/
structure Job where
  articleId : String
  userId : String
  deriving DecidableEq, Repr

/-- The tables. Rows are not deleted, so the length of a table gives the next identifier.
Beside them stand, for the statements only, the findings the user dismissed, and for each
run its user and the pairs of articles for which it queued jobs. -/
structure State where
  findings : List Finding
  dismissedFindings : List String
  records : List Contradiction
  reports : Nat
  jobs : List Job
  dismissals : List Detection
  triggers : List (String × List (Sym2 String))

def State.empty : State := ⟨[], [], [], 0, [], [], []⟩

/-- The lint runs and what the user does between them. A run is given by what it detects, by
its end, by the setting for recompiles and by the articles whose job can be committed. -/
inductive Event where
  | lint (userId : String) (detections : List Detection) (outcome : Outcome)
      (autoRecompile : Bool) (committed : String → Bool)
  | dismissFinding (userId : String) (findingId : Nat)
  | resolveContradiction (userId : String) (contradictionId : Nat)
      (newStatus : ContradictionStatus) (resolution : Option String)
  | resolveLegacyContradiction (userId sourceId targetId resolution : String)

section Source
variable (normalize : String → String)

/-- `_claim_fingerprint`: `services/contradiction.py:129`. -/
def claimFingerprint (articleAId articleBId claimA claimB : String) : String :=
  let ids := sortedIds articleAId articleBId
  let claims := sortedIds (normalize claimA) (normalize claimB)
  ids.1 ++ "|" ++ ids.2 ++ "|" ++ claims.1 ++ "|" ++ claims.2

/-- The fingerprint of a detection. -/
def Detection.fingerprint (d : Detection) : String :=
  claimFingerprint normalize d.articleAId d.articleBId d.articleAClaim d.articleBClaim

/-- The hash of a detection, of which its finding is a row. -/
def Detection.hash (d : Detection) : String := contentHash d.articleAId d.articleBId

/-- The record is an active one of the user with that fingerprint. -/
def isActive (userId fingerprint : String) (c : Contradiction) : Bool :=
  c.userId = userId ∧ c.status = .active ∧ c.claimFingerprint = fingerprint

/-- The record of a finding that has none. -/
def newRecord (id : Nat) (f : Finding) : Contradiction where
  id := id
  claimA := f.detection.articleAClaim
  claimB := f.detection.articleBClaim
  articleAId := f.detection.articleAId
  articleBId := f.detection.articleBId
  sourceFindingId := some f.id
  claimFingerprint := f.detection.fingerprint normalize
  status := .active
  resolution := none
  resolvedBy := none
  userId := f.userId

/-- `create_from_finding`: `services/contradiction.py:146`. -/
def createFromFinding (records : List Contradiction) (f : Finding) :
    Contradiction × List Contradiction :=
  match records.find? (isActive f.userId (f.detection.fingerprint normalize)) with
  | some existing => (existing, records)
  | none =>
    let contradiction := newRecord normalize records.length f
    (contradiction, records ++ [contradiction])

/-- The findings of a run, suppressed where the hash is that of a dismissed finding:
`_apply_dismiss_suppression`, `runner.py:102`. -/
def suppressed (s : State) (userId : String) (detections : List Detection) : List Finding :=
  detections.zipIdx.map fun (d, i) ↦
    { id := s.findings.length + i
      reportId := s.reports
      userId := userId
      contentHash := d.hash
      detection := d
      dismissed := d.hash ∈ s.dismissedFindings
      contradictionId := none }

/-- The records after the loop over active findings: `runner.py:275–287`. -/
def track (records : List Contradiction) (findings : List Finding) : List Contradiction :=
  findings.foldl (fun rs f ↦ (createFromFinding normalize rs f).2) records

/-- The findings with the records that the first `k` active ones of them were given. -/
def linked : List Contradiction → Nat → List Finding → List Finding
  | _, _, [] => []
  | _, 0, findings => findings
  | records, k + 1, f :: rest =>
    if f.dismissed then f :: linked records (k + 1) rest
    else
      let (contradiction, records') := createFromFinding normalize records f
      { f with contradictionId := some contradiction.id } :: linked records' k rest

/-- `_snapshot_existing_contradiction_hashes`: `runner.py:144`. -/
def snapshotHashes (s : State) (userId : String) : List String :=
  (s.findings.filter (·.userId = userId)).map Finding.contentHash

/-- The findings that count as new: `runner.py:183–187`. -/
def newFindings (existing : List String) (active : List Finding) : List Finding :=
  active.filter (·.contentHash ∉ existing)

/-- The unordered pair of articles of a finding. -/
def Finding.pair (f : Finding) : Sym2 String :=
  s(f.detection.articleAId, f.detection.articleBId)

/-- `_queue_recompile_for_new_contradictions`: `runner.py:163`. -/
def queueRecompile (existing : List String) (active : List Finding) (userId : String)
    (committed : String → Bool) : List Job :=
  let ids := (newFindings existing active).flatMap fun f ↦
    [f.detection.articleAId, f.detection.articleBId]
  (ids.dedup.filter committed).map fun articleId ↦ ⟨articleId, userId⟩

/-- A lint run from its detections on: `runner.py:334–409`. -/
def runLint (s : State) (userId : String) (detections : List Detection) (outcome : Outcome)
    (autoRecompile : Bool) (committed : String → Bool) : State :=
  let existing := snapshotHashes s userId
  let findings := suppressed s userId detections
  let active := findings.filter fun f ↦ ¬ f.dismissed
  let persist (k : Nat) (jobs : List Job) (pairs : List (Sym2 String)) : State :=
    { s with
      findings := s.findings ++ linked normalize s.records k findings
      records := track normalize s.records (active.take k)
      reports := s.reports + 1
      jobs := s.jobs ++ jobs
      triggers := s.triggers ++ [(userId, pairs)] }
  match outcome with
  | .lost => { s with triggers := s.triggers ++ [(userId, [])] }
  | .stoppedAfter k => persist k [] []
  | .complete =>
    if autoRecompile then
      persist active.length (queueRecompile existing active userId committed)
        ((newFindings existing active).map Finding.pair)
    else persist active.length [] []

end Source

/-- `dismiss_finding`: `services/linter.py:188`. A finding that is not there or is another
user's changes nothing. -/
def dismissFinding (s : State) (userId : String) (findingId : Nat) : State :=
  match s.findings.find? (·.id = findingId) with
  | none => s
  | some f =>
    if f.userId ≠ userId then s
    else
      { s with
        findings := Rows.modify (·.id = findingId) (fun f ↦ { f with dismissed := true }) s.findings
        dismissedFindings :=
          if f.contentHash ∈ s.dismissedFindings then s.dismissedFindings
          else s.dismissedFindings ++ [f.contentHash]
        dismissals := s.dismissals ++ [f.detection] }

/-- A record with the end the user gives it. -/
def Contradiction.settle (userId : String) (newStatus : ContradictionStatus)
    (resolution : Option String) (c : Contradiction) : Contradiction :=
  { c with
    status := newStatus
    resolution := resolution
    resolvedBy := if newStatus = .active then none else some userId }

/-- `resolve_contradiction`: `services/contradiction.py:86`. -/
def resolveContradiction (s : State) (userId : String) (contradictionId : Nat)
    (newStatus : ContradictionStatus) (resolution : Option String) : State :=
  let selected (c : Contradiction) : Bool := c.id = contradictionId ∧ c.userId = userId
  { s with
    records := Rows.modify selected (Contradiction.settle userId newStatus resolution) s.records }

/-- What `resolve_legacy_contradiction` does to the records: `services/wiki.py:1189–1204`. -/
def resolveLegacyContradiction (s : State) (userId sourceId targetId resolution : String) :
    State :=
  let ids := [sourceId, targetId]
  let selected (c : Contradiction) : Bool :=
    c.userId = userId ∧ c.status = .active ∧ c.articleAId ∈ ids ∧ c.articleBId ∈ ids
  { s with
    records :=
      Rows.modify selected (Contradiction.settle userId .resolved (some resolution)) s.records }

/-- One event. -/
def step (normalize : String → String) (s : State) : Event → State
  | .lint userId detections outcome autoRecompile committed =>
    runLint normalize s userId detections outcome autoRecompile committed
  | .dismissFinding userId findingId => dismissFinding s userId findingId
  | .resolveContradiction userId contradictionId newStatus resolution =>
    resolveContradiction s userId contradictionId newStatus resolution
  | .resolveLegacyContradiction userId sourceId targetId resolution =>
    resolveLegacyContradiction s userId sourceId targetId resolution

/-- The lint runs, dismissals and resolutions of all users. -/
def lifecycle (normalize : String → String) : Machine State Event := .ofFun (step normalize)

section
variable {normalize : String → String}

/-- Linking changes nothing of a finding but its record. -/
theorem map_linked {β : Type} {g : Finding → β}
    (hg : ∀ f id, g { f with contradictionId := id } = g f) (records : List Contradiction)
    (k : Nat) (findings : List Finding) :
    (linked normalize records k findings).map g = findings.map g := by
  fun_induction linked normalize records k findings with
  | case1 => rfl
  | case2 => rfl
  | case3 records k f rest hdismissed ih => simp [ih]
  | case4 records k f rest hdismissed contradiction records' hcreate ih => simp [ih, hg]

/-- The findings of a run that its loop goes over. -/
def activeFindings (s : State) (userId : String) (detections : List Detection) : List Finding :=
  (suppressed s userId detections).filter fun f ↦ ¬ f.dismissed

theorem mem_suppressed {s : State} {userId : String} {detections : List Detection} {f : Finding}
    (h : f ∈ suppressed s userId detections) :
    f.userId = userId ∧ f.contentHash = f.detection.hash := by
  obtain ⟨⟨d, i⟩, _, rfl⟩ := List.mem_map.mp h
  exact ⟨rfl, rfl⟩

theorem findings_runLint (s : State) (userId : String) (detections : List Detection)
    {outcome : Outcome} (h : outcome ≠ .lost) (autoRecompile : Bool)
    (committed : String → Bool) :
    (runLint normalize s userId detections outcome autoRecompile committed).findings =
      s.findings ++ linked normalize s.records
        (outcome.reach (activeFindings s userId detections).length)
        (suppressed s userId detections) := by
  cases outcome with
  | complete => cases autoRecompile <;> rfl
  | stoppedAfter k => rfl
  | lost => exact absurd rfl h

end

end WikiMind.Lint.Findings
