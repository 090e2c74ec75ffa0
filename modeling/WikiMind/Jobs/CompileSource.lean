import WikiMind.Base.Rows
import WikiMind.Base.Run

/-!
# Runs of the compile job

`compile_source` (`jobs/worker.py:239`) splits its status over the row of the source and a
job row, written in short sessions; its recovery looks for the job by source and status.
The system has one step for each session or block of work that may raise, in any
interleaving of any number of runs on one source. Rows of other jobs that name the source,
such as a recompile with guidance (`services/discussion.py:291`), are there too. A run is
known by the job it created; a row remembers which run wrote it, which the code does not.
-/

namespace WikiMind.Jobs

open WikiMind.Base

/-- Status of a source: `models/enums.py:50`. -/
inductive IngestStatus where
  | pending | processing | reviewPending | compiled | failed
  deriving DecidableEq, Repr

/-- Status of a job: `models/enums.py:128`. -/
inductive JobStatus where
  | queued | running | complete | failed
  deriving DecidableEq, Repr

/-- Where a run stands: before its document, before and after the compilation, with the
article or draft saved, with its job complete, in the handler before and after that, and
returned. A job of another kind has no such run. -/
inductive Phase where
  | normalizing | compiling | compiled | saved | completed | failing | failingLate | returned
  | other
  deriving DecidableEq, Repr

/-- The status of the source and the run that wrote it. -/
structure SourceStatus where
  status : IngestStatus
  writer : Option Nat
  deriving DecidableEq, Repr

/-- A job row, the run that gave it its final status, and the phase of its own run. -/
structure Job where
  id : Nat
  status : JobStatus
  markedBy : Option Nat
  phase : Phase
  deriving DecidableEq, Repr

/-- The source, if its row exists, and the jobs that name it. -/
structure State where
  source : Option SourceStatus
  jobs : List Job
  nextId : Nat

/-- How far the save of an article or a draft gets: the status of the source is part of its
first commit. -/
inductive SaveOutcome where
  | raisedBefore | raisedAfter | saved
  deriving DecidableEq, Repr

/-- The steps of the system. `ok` tells whether the step ends without an exception. -/
inductive Event where
  | start (docGiven : Bool)
  | normalize (i : Nat) (ok : Bool)
  | compile (i : Nat) (ok : Bool)
  | save (i : Nat) (interactive : Bool) (outcome : SaveOutcome)
  | complete (i : Nat) (ok : Bool)
  | finish (i : Nat) (ok : Bool)
  | recover (i : Nat) (commits : Bool)
  | deleteSource
  | startOther
  | finishOther (i : Nat) (ok : Bool)

/-- The run goes on to a phase. -/
def Job.goto (phase : Phase) (j : Job) : Job := { j with phase }

/-- The job gets its final status from a run. -/
def Job.mark (status : JobStatus) (run : Nat) (j : Job) : Job :=
  { j with status, markedBy := some run }

namespace State

/-- Rewrite a job. -/
def update (s : State) (i : Nat) (f : Job → Job) : State :=
  { s with jobs := Rows.modify (·.id = i) f s.jobs }

/-- Write the status of the source, if there is one. -/
def write (s : State) (status : IngestStatus) (run : Nat) : State :=
  { s with source := s.source.map fun _ ↦ ⟨status, some run⟩ }

/-- The run of a job stands at a phase. -/
def isAt (s : State) (i : Nat) (phase : Phase) : Bool :=
  s.jobs.any fun j ↦ j.id = i ∧ j.phase = phase

/-- A new row. -/
def insert (s : State) (phase : Phase) : State :=
  { s with jobs := s.jobs ++ [⟨s.nextId, .running, none, phase⟩], nextId := s.nextId + 1 }

/-- The first session: `jobs/worker.py:264–290`. -/
def start (s : State) (docGiven : Bool) : State :=
  match s.source with
  | none => s
  | some _ => (s.insert (if docGiven then .compiling else .normalizing)).write .processing s.nextId

/-- The document is built, unless the source is gone: `jobs/worker.py:295–303`. -/
def normalize (s : State) (i : Nat) (ok : Bool) : State :=
  s.update i (Job.goto (if s.source.isNone then .returned else if ok then .compiling else .failing))

/-- The save of the article or the draft: `jobs/worker.py:206–213`, `services/draft.py:60`. -/
def save (s : State) (i : Nat) (interactive : Bool) (outcome : SaveOutcome) : State :=
  let status := if interactive then .reviewPending else .compiled
  match s.source, outcome with
  | none, _ | some _, .raisedBefore => s.update i (Job.goto .failing)
  | some _, .raisedAfter => (s.update i (Job.goto .failing)).write status i
  | some _, .saved => (s.update i (Job.goto .saved)).write status i

/-- The handler: it finds a single running job of the source, or raises and records
nothing. `jobs/worker.py:313–337`. -/
def recover (s : State) (i : Nat) (commits : Bool) : State :=
  let s' := s.update i (Job.goto .returned)
  if commits then
    match s.jobs.filter (·.status = .running) with
    | [] => s'.write .failed i
    | [job] => (s'.write .failed i).update job.id (Job.mark .failed i)
    | _ => s'
  else s'

end State

/-- One step; `none` when the run is not at its point. -/
def step (s : State) : Event → Option State
  | .start docGiven => some (s.start docGiven)
  | .normalize i ok => if s.isAt i .normalizing then some (s.normalize i ok) else none
  | .compile i ok =>
    if s.isAt i .compiling then
      some (s.update i (Job.goto (if ok then .compiled else .failing)))
    else none
  | .save i interactive outcome =>
    if s.isAt i .compiled then some (s.save i interactive outcome) else none
  | .complete i ok =>
    if s.isAt i .saved then
      some (s.update i (if ok then Job.goto .completed ∘ Job.mark .complete i
        else Job.goto .failing))
    else none
  | .finish i ok =>
    if s.isAt i .completed then
      some (s.update i (Job.goto (if ok then .returned else .failingLate)))
    else none
  | .recover i commits =>
    if s.isAt i .failing ∨ s.isAt i .failingLate then some (s.recover i commits) else none
  | .deleteSource => some { s with source := none }
  | .startOther => some (s.insert .other)
  | .finishOther i ok =>
    if s.isAt i .other then
      some (s.update i (Job.mark (if ok then .complete else .failed) i))
    else none

/-- The system of the compile jobs of a source. -/
def compileSource : Machine State Event := ⟨step⟩

/-- The job is right: its run does not return while the row runs or the source is processed
for it, only its own run records its failure, and the source failed by it only if it did. -/
structure Job.Settled (source : Option SourceStatus) (j : Job) : Prop where
  returned : j.phase = .returned →
    j.status ≠ .running ∧ source ≠ some ⟨.processing, some j.id⟩
  marked : j.status = .failed → j.markedBy = some j.id
  failed : source = some ⟨.failed, some j.id⟩ → j.status = .failed

/-- All jobs are right. -/
def State.Settled (s : State) : Prop := ∀ j ∈ s.jobs, j.Settled s.source

/-- The step leaves its job right: the source is there when the document is built; a handler
commits and its own job is the only running one of the source, or it comes after the job
was completed and records nothing. -/
def MarksOwn (s : State) : Event → Prop
  | .normalize i _ => s.isAt i .normalizing = true → s.source.isSome = true
  | .recover i commits =>
    (s.isAt i .failing = true →
      commits = true ∧ ∀ j ∈ s.jobs, j.status = .running → j.id = i) ∧
    (s.isAt i .failingLate = true →
      commits = false ∨ 2 ≤ (s.jobs.filter (·.status = .running)).length ∨
        (s.source = none ∧ s.jobs.filter (·.status = .running) = []))
  | _ => True

/-- What a job keeps in any run. -/
structure Job.Sound (source : Option SourceStatus) (j : Job) : Prop where
  notQueued : j.status ≠ .queued
  running : j.status = .running ↔ j.markedBy = none
  complete : j.status = .complete → j.markedBy = some j.id
  live : j.phase ∈ [Phase.normalizing, .compiling, .compiled, .saved, .failing] →
    j.markedBy ≠ some j.id
  done : j.phase ∈ [Phase.completed, .failingLate] → j.status = .complete
  notProcessing : j.phase ∈ [Phase.saved, .completed, .failingLate] →
    source ≠ some ⟨.processing, some j.id⟩
  notFailed : j.phase ≠ .returned → source ≠ some ⟨.failed, some j.id⟩

/-- What the system keeps in any run. -/
structure State.Sound (s : State) : Prop where
  nodup : (s.jobs.map Job.id).Nodup
  ids : ∀ j ∈ s.jobs, j.id < s.nextId
  writer : ∀ status ∈ s.source, ∀ i ∈ status.writer, i < s.nextId
  job : ∀ j ∈ s.jobs, j.Sound s.source

/-- A source without jobs, as its ingest left it. -/
def fresh (status : Option IngestStatus) : State := ⟨status.map (⟨·, none⟩), [], 0⟩

/-- A step of run `i` leaves the source alone, finds it deleted or writes its status. -/
def WrittenBy (i : Nat) (source source' : Option SourceStatus) : Prop :=
  source' = source ∨ source' = none ∨ ∃ status, source' = some ⟨status, some i⟩

section
variable {s : State} {i : Nat} {source source' : Option SourceStatus}

private theorem isAt_iff {phase : Phase} :
    s.isAt i phase = true ↔ ∃ j ∈ s.jobs, j.id = i ∧ j.phase = phase := by
  simp [State.isAt]

private theorem writtenBy_write (s : State) (status : IngestStatus) (i : Nat) :
    WrittenBy i s.source (s.write status i).source := by
  unfold State.write
  cases h : s.source with
  | none => right; left; rfl
  | some old => right; right; exact ⟨status, rfl⟩

/-- Another run does not change what is kept of a job. -/
theorem Job.Sound.of_writtenBy {j : Job} (hj : j.Sound source) (hne : j.id ≠ i)
    (hw : WrittenBy i source source') : j.Sound source' := by
  rcases hw with rfl | rfl | ⟨status, rfl⟩
  · exact hj
  · exact { hj with notProcessing := by simp, notFailed := by simp }
  · have hwriter : i ≠ j.id := fun h ↦ hne h.symm
    exact { hj with notProcessing := by simp [hwriter], notFailed := by simp [hwriter] }

/-- Nor whether it is right. -/
theorem Job.Settled.of_writtenBy {j : Job} (hj : j.Settled source) (hne : j.id ≠ i)
    (hw : WrittenBy i source source') : j.Settled source' := by
  have hwriter : i ≠ j.id := fun h ↦ hne h.symm
  rcases hw with rfl | rfl | ⟨status, rfl⟩
  · exact hj
  · exact ⟨fun h ↦ ⟨(hj.returned h).1, by simp⟩, hj.marked, by simp⟩
  · exact ⟨fun h ↦ ⟨(hj.returned h).1, by simp [hwriter]⟩, hj.marked, by simp [hwriter]⟩

/-- A step that rewrites its own job and the status of the source. -/
theorem State.Sound.rewrite {f : Job → Job} (hs : s.Sound) (hi : i < s.nextId)
    (hw : WrittenBy i s.source source') (hid : ∀ j, (f j).id = j.id)
    (hf : ∀ j ∈ s.jobs, j.id = i → (f j).Sound source') :
    State.Sound ⟨source', Rows.modify (·.id = i) f s.jobs, s.nextId⟩ where
  nodup := by
    rw [Rows.map_modify fun j _ _ ↦ hid j]
    exact hs.nodup
  ids := by
    rw [Rows.forall_modify]
    exact ⟨fun j hj _ ↦ by rw [hid]; exact hs.ids j hj, fun j hj _ ↦ hs.ids j hj⟩
  writer := by
    rcases hw with rfl | rfl | ⟨status, rfl⟩
    · exact hs.writer
    · simp
    · simpa using hi
  job := by
    rw [Rows.forall_modify]
    constructor
    · intro j hj hid'
      exact hf j hj (by simpa using hid')
    · intro j hj hne
      exact (hs.job j hj).of_writtenBy (by simpa using hne) hw

theorem State.Sound.update {f : Job → Job} (hs : s.Sound) (hi : i < s.nextId)
    (hid : ∀ j, (f j).id = j.id) (hf : ∀ j ∈ s.jobs, j.id = i → (f j).Sound s.source) :
    (s.update i f).Sound :=
  hs.rewrite hi (.inl rfl) hid hf

private theorem State.Sound.update_write {f : Job → Job} {status : IngestStatus} (hs : s.Sound)
    (hi : i < s.nextId) (hid : ∀ j, (f j).id = j.id)
    (hf : ∀ j ∈ s.jobs, j.id = i → (f j).Sound (s.write status i).source) :
    ((s.update i f).write status i).Sound :=
  hs.rewrite hi (writtenBy_write s status i) hid hf

/-- After such a step all jobs are right when that one is. -/
theorem settled_rewrite_iff {f : Job → Job} {j : Job} (hsound : s.Sound) (hs : s.Settled)
    (hj : j ∈ s.jobs) (hw : WrittenBy j.id s.source source') :
    State.Settled ⟨source', Rows.modify (·.id = j.id) f s.jobs, s.nextId⟩ ↔
      (f j).Settled source' := by
  unfold State.Settled
  rw [Rows.forall_modify]
  constructor
  · intro h
    exact h.1 j hj (by simp)
  · intro h
    constructor
    · intro k hk hid
      rw [Rows.eq_of_nodup hsound.nodup hj hk (by simpa using hid)]
      exact h
    · intro k hk hne
      exact (hs k hk).of_writtenBy (by simpa using hne) hw

private theorem settled_update_iff {f : Job → Job} {j : Job} (hsound : s.Sound) (hs : s.Settled)
    (hj : j ∈ s.jobs) : (s.update j.id f).Settled ↔ (f j).Settled s.source :=
  settled_rewrite_iff hsound hs hj (.inl rfl)

private theorem settled_update_write_iff {f : Job → Job} {status : IngestStatus} {j : Job}
    (hsound : s.Sound) (hs : s.Settled) (hj : j ∈ s.jobs) :
    ((s.update j.id f).write status j.id).Settled ↔
      (f j).Settled (s.write status j.id).source :=
  settled_rewrite_iff hsound hs hj (writtenBy_write s status j.id)

/-- A run that has not returned from its work goes on, fails or returns. -/
theorem Job.Sound.goto_live {j : Job} {phase : Phase} (hj : j.Sound source)
    (hlive : j.phase ∈ [Phase.normalizing, .compiling, .compiled, .saved, .failing])
    (hphase : phase ∈ [Phase.compiling, .compiled, .failing, .returned]) :
    (j.goto phase).Sound source where
  notQueued := hj.notQueued
  running := hj.running
  complete := hj.complete
  live _ := hj.live hlive
  done h := by
    cases phase <;> simp_all [Job.goto]
  notProcessing h := by
    cases phase <;> simp_all [Job.goto]
  notFailed _ := by
    apply hj.notFailed
    intro hret
    simp [hret] at hlive

/-- A run whose job is complete fails late or returns. -/
theorem Job.Sound.goto_done {j : Job} {phase : Phase} (hj : j.Sound source)
    (hdone : j.phase ∈ [Phase.completed, .failingLate])
    (hphase : phase ∈ [Phase.failingLate, .returned]) : (j.goto phase).Sound source where
  notQueued := hj.notQueued
  running := hj.running
  complete := hj.complete
  live h := by
    cases phase <;> simp_all [Job.goto]
  done _ := hj.done hdone
  notProcessing _ := by
    apply hj.notProcessing
    simp_all
  notFailed _ := by
    apply hj.notFailed
    intro hret
    simp [hret] at hdone

/-- While a run works, its job is running, unless another run has marked it. -/
theorem Job.Sound.running_of_live {j : Job} (hj : j.Sound source) (hs : j.Settled source)
    (hlive : j.phase ∈ [Phase.normalizing, .compiling, .compiled, .saved, .failing]) :
    j.status = .running := by
  have hnot := hj.live hlive
  cases h : j.status with
  | queued => exact absurd h hj.notQueued
  | running => rfl
  | complete => exact absurd (hj.complete h) hnot
  | failed => exact absurd (hs.marked h) hnot

/-- A job that is right stays so when its run goes on, or returns with its work done. -/
theorem Job.Settled.goto_iff {j : Job} {phase : Phase} (hj : j.Settled source) :
    (j.goto phase).Settled source ↔
      (phase = .returned →
        j.status ≠ .running ∧ source ≠ some ⟨.processing, some j.id⟩) :=
  ⟨fun h ↦ h.returned, fun h ↦ ⟨h, hj.marked, hj.failed⟩⟩

/-- The runs at a point are the jobs with that id. -/
theorem phase_of_isAt {phase : Phase} (hs : s.Sound) (hat : s.isAt i phase = true) {j : Job}
    (hj : j ∈ s.jobs) (hid : j.id = i) : j.phase = phase := by
  obtain ⟨k, hk, hkid, hphase⟩ := isAt_iff.mp hat
  rw [← hphase, Rows.eq_of_nodup hs.nodup hk hj (hid.trans hkid.symm)]

private theorem lt_of_isAt {phase : Phase} (hs : s.Sound) (hat : s.isAt i phase = true) :
    i < s.nextId := by
  obtain ⟨k, hk, rfl, -⟩ := isAt_iff.mp hat
  exact hs.ids k hk

/-- A new row is not known to any other. -/
theorem State.Sound.insert {phase : Phase} (hs : s.Sound)
    (hphase : phase ∈ [Phase.normalizing, .compiling, .other]) : (s.insert phase).Sound where
  nodup := by
    have hnew : ∀ j ∈ s.jobs, j.id ≠ s.nextId := fun j hj ↦ Nat.ne_of_lt (hs.ids j hj)
    simp only [State.insert, List.map_append, List.map_cons, List.map_nil]
    exact List.nodup_append.mpr ⟨hs.nodup, by simp, by simpa using hnew⟩
  ids := by
    simp only [State.insert, List.mem_append, List.mem_singleton]
    rintro j (hj | rfl)
    · exact Nat.lt_succ_of_lt (hs.ids j hj)
    · exact Nat.lt_succ_self _
  writer status hstatus k hk := Nat.lt_succ_of_lt (hs.writer status hstatus k hk)
  job := by
    simp only [State.insert, List.mem_append, List.mem_singleton]
    rintro j (hj | rfl)
    · exact hs.job j hj
    · have hsource : ∀ status, s.source ≠ some ⟨status, some s.nextId⟩ := by
        intro status h
        exact absurd (hs.writer _ h _ rfl) (Nat.lt_irrefl _)
      constructor
      all_goals cases phase <;> simp_all

theorem State.Sound.start {docGiven : Bool} (hs : s.Sound) : (s.start docGiven).Sound := by
  unfold State.start
  split
  · exact hs
  next old hold =>
    have hinsert : (s.insert (if docGiven then .compiling else .normalizing)).Sound := by
      apply hs.insert
      cases docGiven <;> simp
    refine ⟨hinsert.nodup, hinsert.ids, by simp [State.write, State.insert, hold], ?_⟩
    intro j hj
    by_cases hid : j.id = s.nextId
    · have hj' : j = ⟨s.nextId, .running, none, if docGiven then .compiling else .normalizing⟩ := by
        rcases List.mem_append.mp hj with hj | hj
        · exact absurd (hs.ids j hj) (by omega)
        · exact List.mem_singleton.mp hj
      subst hj'
      constructor
      all_goals cases docGiven <;> simp [State.write, State.insert, hold]
    · exact (hinsert.job j hj).of_writtenBy hid (writtenBy_write _ _ _)

theorem State.Sound.normalize {ok : Bool} (hs : s.Sound)
    (hat : s.isAt i .normalizing = true) : (s.normalize i ok).Sound := by
  refine hs.update (lt_of_isAt hs hat) (fun _ ↦ rfl) ?_
  intro j hj hid
  have hphase := phase_of_isAt hs hat hj hid
  apply (hs.job j hj).goto_live
  · simp [hphase]
  · cases s.source.isNone <;> cases ok <;> simp

theorem State.Sound.save {interactive : Bool} {outcome : SaveOutcome} (hs : s.Sound)
    (hat : s.isAt i .compiled = true) : (s.save i interactive outcome).Sound := by
  have hi := lt_of_isAt hs hat
  have hfail : (s.update i (Job.goto .failing)).Sound := by
    refine hs.update hi (fun _ ↦ rfl) ?_
    intro j hj hid
    have hphase := phase_of_isAt hs hat hj hid
    exact (hs.job j hj).goto_live (by simp [hphase]) (by simp)
  unfold State.save
  extract_lets status
  split
  · exact hfail
  · exact hfail
  next old hold =>
    refine hs.update_write hi (fun _ ↦ rfl) ?_
    intro j hj hid
    have hphase := phase_of_isAt hs hat hj hid
    have hgoto : (j.goto .failing).Sound s.source :=
      (hs.job j hj).goto_live (by simp [hphase]) (by simp)
    exact { hgoto with
      notProcessing := by simp [Job.goto]
      notFailed := by cases interactive <;> simp [State.write, hold, status] }
  next old hold =>
    refine hs.update_write hi (fun _ ↦ rfl) ?_
    intro j hj hid
    have hphase := phase_of_isAt hs hat hj hid
    have hsound := hs.job j hj
    exact { hsound with
      live := fun _ ↦ hsound.live (by simp [hphase])
      done := by simp [Job.goto]
      notProcessing := by cases interactive <;> simp [State.write, hold, status]
      notFailed := by cases interactive <;> simp [State.write, hold, status] }

theorem State.Sound.complete {ok : Bool} (hs : s.Sound) (hat : s.isAt i .saved = true) :
    (s.update i (if ok then Job.goto .completed ∘ Job.mark .complete i
      else Job.goto .failing)).Sound := by
  refine hs.update (lt_of_isAt hs hat) (fun _ ↦ by cases ok <;> rfl) ?_
  intro j hj hid
  have hphase := phase_of_isAt hs hat hj hid
  have hsound := hs.job j hj
  cases ok with
  | false => exact hsound.goto_live (by simp [hphase]) (by simp)
  | true =>
    exact {
      notQueued := by simp [Job.goto, Job.mark]
      running := by simp [Job.goto, Job.mark]
      complete := by simp [Job.goto, Job.mark, hid]
      live := by simp [Job.goto]
      done := by simp [Job.goto, Job.mark]
      notProcessing := fun _ ↦ hsound.notProcessing (by simp [hphase])
      notFailed := fun _ ↦ hsound.notFailed (by simp [hphase]) }

theorem State.Sound.finish {ok : Bool} (hs : s.Sound) (hat : s.isAt i .completed = true) :
    (s.update i (Job.goto (if ok then .returned else .failingLate))).Sound := by
  refine hs.update (lt_of_isAt hs hat) (fun _ ↦ rfl) ?_
  intro j hj hid
  have hphase := phase_of_isAt hs hat hj hid
  exact (hs.job j hj).goto_done (by simp [hphase]) (by cases ok <;> simp)

private theorem State.Sound.finishOther {ok : Bool} (hs : s.Sound) (hat : s.isAt i .other = true) :
    (s.update i (Job.mark (if ok then .complete else .failed) i)).Sound := by
  refine hs.update (lt_of_isAt hs hat) (fun _ ↦ rfl) ?_
  intro j hj hid
  have hphase := phase_of_isAt hs hat hj hid
  have hsound := hs.job j hj
  exact {
    notQueued := by cases ok <;> simp [Job.mark]
    running := by cases ok <;> simp [Job.mark]
    complete := fun _ ↦ by simp [Job.mark, hid]
    live := by simp [Job.mark, hphase]
    done := by simp [Job.mark, hphase]
    notProcessing := by simp [Job.mark, hphase]
    notFailed := hsound.notFailed }

/-- The handler marks a running job, its own only when its run has returned. -/
theorem Job.Sound.mark_failed {j : Job} (hj : j.Sound source) (hstatus : j.status = .running)
    (hown : j.id = i → j.phase = .returned) : (j.mark .failed i).Sound source where
  notQueued := by simp [Job.mark]
  running := by simp [Job.mark]
  complete := by simp [Job.mark]
  live h := by
    intro hmark
    have hret := hown (Option.some.inj hmark).symm
    simp [Job.mark, hret] at h
  done h := by
    have := hj.done h
    simp [this] at hstatus
  notProcessing := hj.notProcessing
  notFailed := hj.notFailed

private theorem State.Sound.recover {commits : Bool} (hs : s.Sound)
    (hat : s.isAt i .failing = true ∨ s.isAt i .failingLate = true) :
    (s.recover i commits).Sound := by
  have hi : i < s.nextId := by
    rcases hat with hat | hat
    · exact lt_of_isAt hs hat
    · exact lt_of_isAt hs hat
  have hgoto : ∀ j ∈ s.jobs, j.id = i → (j.goto .returned).Sound s.source := by
    intro j hj hid
    rcases hat with hat | hat
    · have hphase := phase_of_isAt hs hat hj hid
      exact (hs.job j hj).goto_live (by simp [hphase]) (by simp)
    · have hphase := phase_of_isAt hs hat hj hid
      exact (hs.job j hj).goto_done (by simp [hphase]) (by simp)
  have hreturned : (s.update i (Job.goto .returned)).Sound :=
    hs.update hi (fun _ ↦ rfl) hgoto
  have hfailed : ((s.update i (Job.goto .returned)).write .failed i).Sound := by
    refine hs.update_write hi (fun _ ↦ rfl) ?_
    intro j hj hid
    have hsound := hgoto j hj hid
    exact { hsound with
      notProcessing := by simp [Job.goto]
      notFailed := by simp [Job.goto] }
  unfold State.recover
  extract_lets s'
  split
  next =>
    split
    next => exact hfailed
    next job hjob =>
      have hmem : job ∈ s.jobs.filter (·.status = .running) := by simp [hjob]
      obtain ⟨hmem, hrunning⟩ := List.mem_filter.mp hmem
      have hstatus : job.status = .running := of_decide_eq_true hrunning
      refine hfailed.update (hs.ids job hmem) (fun _ ↦ rfl) ?_
      intro k hk hid
      have hsound := hfailed.job k hk
      rcases Rows.mem_modify.mp hk with ⟨j, hj, -, rfl⟩ | ⟨hk, hne⟩
      · rw [Rows.eq_of_nodup hs.nodup hmem hj hid] at hsound ⊢
        exact hsound.mark_failed hstatus fun _ ↦ rfl
      · rw [Rows.eq_of_nodup hs.nodup hmem hk hid] at hsound hne ⊢
        exact hsound.mark_failed hstatus fun hid ↦ by simp [hid] at hne
    next => exact hreturned
  next => exact hreturned

end

/-- Every step keeps what is kept in any run. -/
theorem sound_step {s t : State} {e : Event} (hs : s.Sound) (h : step s e = some t) :
    t.Sound := by
  cases e with
  | start docGiven =>
    cases h
    exact hs.start
  | startOther =>
    cases h
    exact hs.insert (by simp)
  | deleteSource =>
    cases h
    refine ⟨hs.nodup, hs.ids, by simp, fun j hj ↦ ?_⟩
    exact { hs.job j hj with notProcessing := by simp, notFailed := by simp }
  | normalize i ok =>
    obtain ⟨hat, ht⟩ := Option.ite_none_right_eq_some.mp h
    cases ht
    exact hs.normalize hat
  | compile i ok =>
    obtain ⟨hat, ht⟩ := Option.ite_none_right_eq_some.mp h
    cases ht
    refine hs.update (lt_of_isAt hs hat) (fun _ ↦ rfl) ?_
    intro j hj hid
    have hphase := phase_of_isAt hs hat hj hid
    exact (hs.job j hj).goto_live (by simp [hphase]) (by cases ok <;> simp)
  | save i interactive outcome =>
    obtain ⟨hat, ht⟩ := Option.ite_none_right_eq_some.mp h
    cases ht
    exact hs.save hat
  | complete i ok =>
    obtain ⟨hat, ht⟩ := Option.ite_none_right_eq_some.mp h
    cases ht
    exact hs.complete hat
  | finish i ok =>
    obtain ⟨hat, ht⟩ := Option.ite_none_right_eq_some.mp h
    cases ht
    exact hs.finish hat
  | recover i commits =>
    obtain ⟨hat, ht⟩ := Option.ite_none_right_eq_some.mp h
    cases ht
    exact hs.recover hat
  | finishOther i ok =>
    obtain ⟨hat, ht⟩ := Option.ite_none_right_eq_some.mp h
    cases ht
    exact hs.finishOther hat

section
variable {s : State} {i : Nat}

theorem State.Settled.insert {phase : Phase} (hs : s.Settled) (hsound : s.Sound)
    (hphase : phase ≠ .returned) : (s.insert phase).Settled := by
  unfold State.Settled State.insert
  simp only [List.mem_append, List.mem_singleton]
  rintro j (hj | rfl)
  · exact hs j hj
  · refine ⟨fun h ↦ absurd h hphase, by simp, fun h ↦ ?_⟩
    exact absurd (hsound.writer _ h _ rfl) (Nat.lt_irrefl _)

theorem State.Settled.start {docGiven : Bool} (hs : s.Settled) (hsound : s.Sound) :
    (s.start docGiven).Settled := by
  unfold State.start
  split
  · exact hs
  next old hold =>
    have hinsert : (s.insert (if docGiven then .compiling else .normalizing)).Settled := by
      apply hs.insert hsound
      cases docGiven <;> simp
    intro j hj
    by_cases hid : j.id = s.nextId
    · have hj' : j = ⟨s.nextId, .running, none, if docGiven then .compiling else .normalizing⟩ := by
        rcases List.mem_append.mp hj with hj | hj
        · exact absurd (hsound.ids j hj) (by omega)
        · exact List.mem_singleton.mp hj
      subst hj'
      constructor
      all_goals cases docGiven <;> simp [State.write, State.insert, hold]
    · exact (hinsert j hj).of_writtenBy hid (writtenBy_write _ _ _)

/-- The early return leaves the job running. -/
theorem normalize_settled_iff {ok : Bool} (hsound : s.Sound) (hs : s.Settled)
    (hat : s.isAt i .normalizing = true) :
    (s.normalize i ok).Settled ↔ s.source.isSome = true := by
  obtain ⟨j, hj, rfl, hphase⟩ := isAt_iff.mp hat
  have hrunning := (hsound.job j hj).running_of_live (hs j hj) (by simp [hphase])
  unfold State.normalize
  rw [settled_update_iff hsound hs hj, (hs j hj).goto_iff]
  cases s.source with
  | none => simp [hrunning]
  | some status => cases ok <;> simp

theorem State.Settled.save {interactive : Bool} {outcome : SaveOutcome} (hs : s.Settled)
    (hsound : s.Sound) (hat : s.isAt i .compiled = true) :
    (s.save i interactive outcome).Settled := by
  obtain ⟨j, hj, rfl, hphase⟩ := isAt_iff.mp hat
  have hrunning := (hsound.job j hj).running_of_live (hs j hj) (by simp [hphase])
  have hfail : (s.update j.id (Job.goto .failing)).Settled := by
    rw [settled_update_iff hsound hs hj, (hs j hj).goto_iff]
    simp
  have hwrite : ∀ phase status, phase ≠ .returned → status ≠ .failed →
      ((s.update j.id (Job.goto phase)).write status j.id).Settled := by
    intro phase status hphase hstatus
    rw [settled_update_write_iff hsound hs hj]
    refine ⟨fun h ↦ absurd h hphase, (hs j hj).marked, ?_⟩
    unfold State.write
    cases s.source <;> simp [hstatus]
  unfold State.save
  extract_lets status
  have hstatus : status ≠ .failed := by cases interactive <;> simp [status]
  split
  · exact hfail
  · exact hfail
  · exact hwrite _ _ (by simp) hstatus
  · exact hwrite _ _ (by simp) hstatus

theorem State.Settled.complete {ok : Bool} (hs : s.Settled) (hsound : s.Sound)
    (hat : s.isAt i .saved = true) :
    (s.update i (if ok then Job.goto .completed ∘ Job.mark .complete i
      else Job.goto .failing)).Settled := by
  obtain ⟨j, hj, rfl, hphase⟩ := isAt_iff.mp hat
  rw [settled_update_iff hsound hs hj]
  cases ok with
  | false => exact (hs j hj).goto_iff.mpr (by simp)
  | true =>
    have hfailed := (hsound.job j hj).notFailed (by simp [hphase])
    exact ⟨by simp [Job.goto], by simp [Job.goto, Job.mark], fun h ↦ absurd h hfailed⟩

theorem State.Settled.finish {ok : Bool} (hs : s.Settled) (hsound : s.Sound)
    (hat : s.isAt i .completed = true) :
    (s.update i (Job.goto (if ok then .returned else .failingLate))).Settled := by
  obtain ⟨j, hj, rfl, hphase⟩ := isAt_iff.mp hat
  have hcomplete := (hsound.job j hj).done (by simp [hphase])
  rw [settled_update_iff hsound hs hj, (hs j hj).goto_iff]
  intro _
  exact ⟨by simp [hcomplete], (hsound.job j hj).notProcessing (by simp [hphase])⟩

private theorem State.Settled.finishOther {ok : Bool} (hs : s.Settled) (hsound : s.Sound)
    (hat : s.isAt i .other = true) :
    (s.update i (Job.mark (if ok then .complete else .failed) i)).Settled := by
  obtain ⟨j, hj, rfl, hphase⟩ := isAt_iff.mp hat
  have hfailed := (hsound.job j hj).notFailed (by simp [hphase])
  rw [settled_update_iff hsound hs hj]
  exact ⟨by simp [Job.mark, hphase], fun _ ↦ rfl, fun h ↦ absurd h hfailed⟩

/-- A running job is the only one when the selection is that job. -/
theorem only_running_iff {j : Job} (hsound : s.Sound) (hj : j ∈ s.jobs)
    (hrunning : j.status = .running) :
    (∀ k ∈ s.jobs, k.status = .running → k.id = j.id) ↔
      s.jobs.filter (·.status = .running) = [j] := by
  constructor
  · intro honly
    rw [← Rows.oneOrNone_eq_some.mp (Rows.oneOrNone_of_nodup hsound.nodup hj)]
    apply List.filter_congr
    intro k hk
    by_cases hid : k.id = j.id
    · rw [Rows.eq_of_nodup hsound.nodup hj hk hid]
      simp [hrunning]
    · have hstatus : k.status ≠ .running := fun h ↦ hid (honly k hk h)
      simp [hid, hstatus]
  · intro hfilter k hk hstatus
    have hmem : k ∈ s.jobs.filter (·.status = .running) :=
      List.mem_filter.mpr ⟨hk, by simpa⟩
    rw [hfilter, List.mem_singleton] at hmem
    rw [hmem]

/-- The handler of a run whose job still runs is right when it commits and finds that job. -/
theorem recover_settled_iff_of_failing {commits : Bool} (hsound : s.Sound) (hs : s.Settled)
    (hat : s.isAt i .failing = true) :
    (s.recover i commits).Settled ↔
      commits = true ∧ ∀ j ∈ s.jobs, j.status = .running → j.id = i := by
  obtain ⟨j, hj, rfl, hphase⟩ := isAt_iff.mp hat
  have hrunning := (hsound.job j hj).running_of_live (hs j hj) (by simp [hphase])
  have hlost : ¬ (s.update j.id (Job.goto .returned)).Settled := by
    rw [settled_update_iff hsound hs hj, (hs j hj).goto_iff]
    simp [hrunning]
  have hmem : j ∈ s.jobs.filter (·.status = .running) := List.mem_filter.mpr ⟨hj, by simpa⟩
  rw [only_running_iff hsound hj hrunning]
  unfold State.recover
  extract_lets s'
  cases commits with
  | false => simpa using hlost
  | true =>
    simp only [if_true, true_and]
    split
    next hnone => simp [hnone] at hmem
    next job hjob =>
      -- the selection is the job of the run itself
      rw [hjob, List.mem_singleton] at hmem
      subst hmem
      have hmark : ((s.update j.id (Job.mark .failed j.id ∘ Job.goto .returned)).write
          .failed j.id).Settled := by
        rw [settled_update_write_iff hsound hs hj]
        refine ⟨fun _ ↦ ⟨by simp [Job.mark], ?_⟩, fun _ ↦ rfl, fun _ ↦ rfl⟩
        unfold State.write
        cases s.source <;> simp
      unfold State.update State.write at hmark
      rw [← Rows.modify_modify (p := fun k : Job ↦ decide (k.id = j.id))
        (f := Job.goto .returned) fun _ hk ↦ hk] at hmark
      exact iff_of_true hmark hjob
    next hnone hone =>
      exact iff_of_false hlost (hone j)

/-- That of a run whose job is complete is right when it records nothing. -/
theorem recover_settled_iff_of_failingLate {commits : Bool} (hsound : s.Sound)
    (hs : s.Settled) (hat : s.isAt i .failingLate = true) :
    (s.recover i commits).Settled ↔
      commits = false ∨ 2 ≤ (s.jobs.filter (·.status = .running)).length ∨
        (s.source = none ∧ s.jobs.filter (·.status = .running) = []) := by
  obtain ⟨j, hj, rfl, hphase⟩ := isAt_iff.mp hat
  have hcomplete := (hsound.job j hj).done (by simp [hphase])
  have hprocessing := (hsound.job j hj).notProcessing (by simp [hphase])
  have hreturned : (s.update j.id (Job.goto .returned)).Settled := by
    rw [settled_update_iff hsound hs hj, (hs j hj).goto_iff]
    intro _
    exact ⟨by simp [hcomplete], hprocessing⟩
  unfold State.recover
  extract_lets s'
  cases commits with
  | false => simpa using hreturned
  | true =>
    simp only [if_true, Bool.true_eq_false, false_or]
    split
    next hnone =>
      rw [settled_update_write_iff hsound hs hj, hnone]
      unfold State.write
      cases s.source with
      | none =>
        have hright : (j.goto .returned).Settled none :=
          ⟨by simp [Job.goto, hcomplete], (hs j hj).marked, by simp⟩
        simpa using hright
      | some old =>
        refine iff_of_false (fun h ↦ ?_) (by simp)
        have hfailed := h.failed rfl
        simp [Job.goto, hcomplete] at hfailed
    next job hjob =>
      have hmem : job ∈ s.jobs.filter (·.status = .running) := by simp [hjob]
      obtain ⟨hmem, hstatus⟩ := List.mem_filter.mp hmem
      have hne : job.id ≠ j.id := by
        intro hid
        rw [Rows.eq_of_nodup hsound.nodup hj hmem hid] at hstatus
        simp [hcomplete] at hstatus
      -- the selection is the job of another run
      refine iff_of_false (fun h ↦ ?_) (by simp [hjob])
      have hmarked : job.mark .failed j.id ∈
          ((s'.write .failed j.id).update job.id (Job.mark .failed j.id)).jobs := by
        apply Rows.mem_modify.mpr
        left
        refine ⟨job, Rows.mem_modify.mpr ?_, by simp, rfl⟩
        right
        exact ⟨hmem, by simpa using hne⟩
      have := (h _ hmarked).marked rfl
      simp [Job.mark, hne.symm] at this
    next hnone hone =>
      refine iff_of_true hreturned (.inl ?_)
      cases hfilter : s.jobs.filter (·.status = .running) with
      | nil => exact absurd hfilter hnone
      | cons k rest =>
        cases rest with
        | nil => exact absurd hfilter (hone k)
        | cons _ _ => simp

/-- A step leaves all jobs right exactly under its condition. -/
theorem settled_step_iff {t : State} {e : Event} (hsound : s.Sound) (hs : s.Settled)
    (h : step s e = some t) : t.Settled ↔ MarksOwn s e := by
  cases e with
  | start docGiven =>
    cases h
    exact iff_of_true (hs.start hsound) trivial
  | startOther =>
    cases h
    exact iff_of_true (hs.insert hsound (by simp)) trivial
  | deleteSource =>
    cases h
    refine iff_of_true (fun j hj ↦ ?_) trivial
    exact ⟨fun hret ↦ ⟨((hs j hj).returned hret).1, by simp⟩, (hs j hj).marked, by simp⟩
  | normalize i ok =>
    obtain ⟨hat, ht⟩ := Option.ite_none_right_eq_some.mp h
    cases ht
    rw [normalize_settled_iff hsound hs hat]
    exact ⟨fun hsource _ ↦ hsource, fun hguard ↦ hguard hat⟩
  | compile i ok =>
    obtain ⟨hat, ht⟩ := Option.ite_none_right_eq_some.mp h
    cases ht
    obtain ⟨j, hj, rfl, -⟩ := isAt_iff.mp hat
    refine iff_of_true ?_ trivial
    rw [settled_update_iff hsound hs hj, (hs j hj).goto_iff]
    cases ok <;> simp
  | save i interactive outcome =>
    obtain ⟨hat, ht⟩ := Option.ite_none_right_eq_some.mp h
    cases ht
    exact iff_of_true (hs.save hsound hat) trivial
  | complete i ok =>
    obtain ⟨hat, ht⟩ := Option.ite_none_right_eq_some.mp h
    cases ht
    exact iff_of_true (hs.complete hsound hat) trivial
  | finish i ok =>
    obtain ⟨hat, ht⟩ := Option.ite_none_right_eq_some.mp h
    cases ht
    exact iff_of_true (hs.finish hsound hat) trivial
  | recover i commits =>
    obtain ⟨hat, ht⟩ := Option.ite_none_right_eq_some.mp h
    cases ht
    rcases hat with hat | hat
    · rw [recover_settled_iff_of_failing hsound hs hat]
      have hlate : s.isAt i .failingLate ≠ true := fun hlate ↦ by
        obtain ⟨j, hj, hid, hphase⟩ := isAt_iff.mp hlate
        simp [phase_of_isAt hsound hat hj hid] at hphase
      exact ⟨fun hright ↦ ⟨fun _ ↦ hright, fun hat' ↦ absurd hat' hlate⟩,
        fun hguard ↦ hguard.1 hat⟩
    · rw [recover_settled_iff_of_failingLate hsound hs hat]
      have hearly : s.isAt i .failing ≠ true := fun hearly ↦ by
        obtain ⟨j, hj, hid, hphase⟩ := isAt_iff.mp hearly
        simp [phase_of_isAt hsound hat hj hid] at hphase
      exact ⟨fun hright ↦ ⟨fun hat' ↦ absurd hat' hearly, fun _ ↦ hright⟩,
        fun hguard ↦ hguard.2 hat⟩
  | finishOther i ok =>
    obtain ⟨hat, ht⟩ := Option.ite_none_right_eq_some.mp h
    cases ht
    exact iff_of_true (hs.finishOther hsound hat) trivial

end

private theorem fresh_sound (status : Option IngestStatus) : (fresh status).Sound := by
  refine ⟨List.nodup_nil, by simp [fresh], ?_, by simp [fresh]⟩
  cases status <;> simp [fresh]

/-- From a source without jobs, in every interleaving: the runs settle the source and their
own jobs throughout exactly when every step leaves its job right. -/
theorem compileSource_settled_iff (status : Option IngestStatus) (events : List Event) :
    compileSource.Always State.Settled (fresh status) events ↔
      compileSource.Guarded MarksOwn (fresh status) events := by
  have hfresh : (fresh status).Settled := by simp [State.Settled, fresh]
  rw [compileSource.always_iff_guarded (fun _ _ _ hs h ↦ sound_step hs h)
    (fun _ _ _ hsound hs h ↦ settled_step_iff hsound hs h) (fresh_sound status) events]
  exact and_iff_right hfresh

instance (source : Option SourceStatus) (j : Job) : Decidable (j.Settled source) :=
  decidable_of_iff
    ((j.phase = .returned → j.status ≠ .running ∧ source ≠ some ⟨.processing, some j.id⟩) ∧
      (j.status = .failed → j.markedBy = some j.id) ∧
      (source = some ⟨.failed, some j.id⟩ → j.status = .failed))
    ⟨fun ⟨h₁, h₂, h₃⟩ ↦ ⟨h₁, h₂, h₃⟩, fun ⟨h₁, h₂, h₃⟩ ↦ ⟨h₁, h₂, h₃⟩⟩

instance (s : State) : Decidable s.Settled :=
  inferInstanceAs (Decidable (∀ j ∈ s.jobs, j.Settled s.source))

/-- Two runs of one source: the compilation of the first raises, and its handler finds two
running jobs and records nothing. The run has returned and its job is running. -/
theorem compileSource_unsettled :
    ¬ compileSource.Always State.Settled (fresh (some .pending))
      [.start true, .start true, .compile 0 false, .recover 0 true] := by
  decide +kernel

end WikiMind.Jobs
