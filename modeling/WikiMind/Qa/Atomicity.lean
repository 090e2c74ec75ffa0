import WikiMind.Qa.Isolation
import WikiMind.Qa.Requests

/-!
# What a failed question leaves behind

A failed request should leave conversations, turns and counts as they were. Up to its first
commit a request leaves nothing, whatever stops it. After the commit of its answer it leaves
the answer, and a stream leaves its conversation and its count from the commit of its cost
on. `handle_atomic_iff` says exactly when a failed request is undone.
-/

namespace WikiMind.Qa

open WikiMind.Base WikiMind.Llm Session Stateful

variable {env : QaEnv} {maxQueriesPerDay : Option Nat} {userId : String} {request : QueryRequest}
variable {run : Run} {store : Store} {s t : Session Store}

/-! ### What the parts of a request do -/

section Parts

private theorem exec_point_eq_ok {p : Point} {u : Unit} :
    exec (run.point p) s = (.ok u, t) ↔ run.stopAt p = none ∧ t = s := by
  unfold Run.point
  cases run.stopAt p with
  | none => simp [eq_comm]
  | some stop => simp

private theorem silent_point (p : Point) : Silent (run.point p) := by
  unfold Run.point
  split
  · exact silent_pure ()
  · exact silent_throw _

@[simp] theorem exec_orRaise_eq_ok {α : Type} {x : Except Exc α} {a : α} :
    exec (orRaise x) s = (.ok a, t) ↔ x = .ok a ∧ t = s := by
  cases x with
  | error e => simp [orRaise, Except.mapError]
  | ok b => simp [orRaise, Except.mapError, eq_comm]

private theorem silent_orRaise {α : Type} (x : Except Exc α) :
    Silent (orRaise x) := silent_ofExcept _

private theorem silent_chargeQuery : Silent (chargeQuery maxQueriesPerDay userId run) := by
  apply (silent_point _).bind
  intro _
  apply silent_read.bind
  intro store
  apply (silent_orRaise _).bind
  intro charged
  split
  · exact silent_write _
  · exact silent_pure ()

private theorem silent_prepare : Silent (prepare env userId request run) := by
  apply silent_read.bind
  intro store
  apply (silent_orRaise _).bind
  intro prepared
  exact (silent_write _).bind fun _ ↦ (silent_point _).bind fun _ ↦ silent_pure _

private theorem silent_askModel {ctx : PreparedContext} :
    Silent (askModel env request ctx run) := by
  unfold askModel
  split
  · exact silent_pure _
  · exact (silent_point _).bind fun _ ↦ silent_orRaise _

private theorem silent_stageAnswer {ctx : PreparedContext} {result : QueryResult} :
    Silent (stageAnswer env userId request result ctx run) := by
  apply (silent_point _).bind
  intro _
  apply silent_read.bind
  intro store
  apply (silent_orRaise _).bind
  intro answered
  exact (silent_write _).bind fun _ ↦ (silent_point _).bind fun _ ↦ silent_pure _

private theorem silent_stageCost {response : CompletionResponse} :
    Silent (stageCost userId response run) := (silent_write _).bind fun _ ↦ silent_point _

private theorem silent_openFork {conversationId : String} {forkRequest : ForkRequest} :
    Silent (openFork env userId conversationId forkRequest run) := by
  apply silent_read.bind
  intro store
  apply (silent_orRaise _).bind
  intro parent
  apply (silent_orRaise _).bind
  intro _
  exact (silent_write _).bind fun _ ↦ (silent_point _).bind fun _ ↦ silent_pure _

private theorem silent_yieldChunks (chunks : List String) (index : Nat) :
    Silent (yieldChunks run index chunks) := by
  induction chunks generalizing index with
  | nil => exact silent_pure ()
  | cons chunk chunks ih => exact (silent_point _).bind fun _ ↦ ih (index + 1)

private theorem silent_streamModel {ctx : PreparedContext} :
    Silent (streamModel env request ctx run) := by
  apply (silent_point _).bind
  intro _
  split
  · exact silent_throw _
  · exact (silent_yieldChunks _ 0).bind fun _ ↦ silent_throw _
  · exact (silent_yieldChunks _ 0).bind fun _ ↦ silent_pure _

end Parts

/-! ### How far a request gets -/

/-- The request is not stopped at any of the points. -/
def Run.Passes (run : Run) (ps : List Point) : Prop := ∀ p ∈ ps, run.stopAt p = none

instance (run : Run) (ps : List Point) : Decidable (run.Passes ps) :=
  inferInstanceAs (Decidable (∀ p ∈ ps, run.stopAt p = none))

/-- The quota lets the question through, and it is charged or not. -/
def Charges (maxQueriesPerDay : Option Nat) (userId : String) (run : Run) (store : Store)
    (charged : Bool) : Prop :=
  run.Passes [.checkQuota] ∧
    Quota.checkQueryQuota maxQueriesPerDay (store.count userId run.today) = .ok charged

/-- The fork is opened: its parent is a conversation of the user and its turn is not
negative. -/
def Forks (env : QaEnv) (userId conversationId : String) (request : ForkRequest) (run : Run)
    (db : Db) (fork : Conversation) : Prop :=
  run.Passes [.flushFork] ∧ (∃ parent, ownConversation db userId conversationId = .ok parent) ∧
    0 ≤ request.turnIndex ∧
    fork = forkRow env userId conversationId request run.toSurroundings

/-- The question is prepared: its conversation is known or new. -/
def Prepares (env : QaEnv) (userId : String) (request : QueryRequest) (run : Run) (db : Db)
    (ctx : PreparedContext) (prepared : Db) : Prop :=
  run.Passes [.prepareContext] ∧
    prepareContext env db userId request run.toSurroundings = .ok (ctx, prepared)

/-- The model need not be asked, or it replies. -/
def Replies (env : QaEnv) (request : QueryRequest) (run : Run) (ctx : PreparedContext)
    (result : QueryResult) : Prop :=
  if ctx.wikiContext = [] then result = noContextResult
  else run.Passes [.callModel] ∧
    queryLlm env (ctx.prompt env request) run.toSurroundings = .ok result

/-- The answer gets to its commit: filing it back does not fail, nor does the commit. -/
def Stores (request : QueryRequest) (result : QueryResult) (run : Run) : Prop :=
  run.Passes [.fileBack, .commit] ∧ (filesBack request result → run.fileBackFails = false) ∧
    run.commitFails = false

/-- The model streams its whole answer, and the client takes every chunk. -/
def Delivers (env : QaEnv) (request : QueryRequest) (run : Run) (ctx : PreparedContext)
    (chunks : List String) : Prop :=
  run.Passes [.callModel] ∧ run.stream (ctx.prompt env request) = .completed chunks ∧
    ∀ i < chunks.length, run.stopAt (.chunk i) = none

/-- The streamed text is parsed and its answer gets to its commit. -/
def Finishes (env : QaEnv) (request : QueryRequest) (run : Run) (chunks : List String) : Prop :=
  run.Passes [.parseReply] ∧
    Stores request ((env.parseStream (String.join chunks)).getD errorResult) run

instance (request : QueryRequest) (result : QueryResult) (run : Run) :
    Decidable (Stores request result run) := by
  unfold Stores
  infer_instance

instance (env : QaEnv) (request : QueryRequest) (run : Run) (chunks : List String) :
    Decidable (Finishes env request run chunks) := by
  unfold Finishes
  infer_instance

section Progress

variable {ctx : PreparedContext} {result : QueryResult} {chunks : List String}

private theorem exec_chargeQuery_eq_ok :
    exec (chargeQuery maxQueriesPerDay userId run) s = (.ok (), t) ↔
      ∃ charged, Charges maxQueriesPerDay userId run s.working charged ∧
        t = ⟨s.committed, if charged then s.working.raiseCount userId run.today
          else s.working⟩ := by
  unfold chargeQuery Charges Run.Passes
  simp only [exec_bind_eq_ok, exec_point_eq_ok, exec_read, exec_orRaise_eq_ok,
    List.forall_mem_singleton]
  constructor
  · rintro ⟨_, _, ⟨hpoint, rfl⟩, store, _, hread, charged, _, ⟨hquota, rfl⟩, hwrite⟩
    cases hread
    refine ⟨charged, ⟨hpoint, hquota⟩, ?_⟩
    cases charged with
    | false => simpa [eq_comm] using hwrite
    | true => simpa [eq_comm] using hwrite
  · rintro ⟨charged, ⟨hpoint, hquota⟩, rfl⟩
    refine ⟨(), s, ⟨hpoint, rfl⟩, s.working, s, rfl, charged, s, ⟨hquota, rfl⟩, ?_⟩
    cases charged with
    | false => rfl
    | true => rfl

private theorem exec_prepare_eq_ok :
    exec (prepare env userId request run) s = (.ok ctx, t) ↔
      ∃ prepared, Prepares env userId request run s.working.db ctx prepared ∧
        t = ⟨s.committed, { s.working with db := prepared }⟩ := by
  unfold prepare Prepares Run.Passes
  simp only [exec_bind_eq_ok, exec_point_eq_ok, exec_read, exec_orRaise_eq_ok, exec_write,
    exec_pure, List.forall_mem_singleton]
  constructor
  · rintro ⟨store, _, hread, ⟨ctx', db⟩, _, ⟨hprepare, rfl⟩, _, _, hwrite, _, _, ⟨hpoint, rfl⟩,
      hpure⟩
    cases hread
    cases hwrite
    cases hpure
    exact ⟨db, ⟨hpoint, hprepare⟩, rfl⟩
  · rintro ⟨prepared, ⟨hpoint, hprepare⟩, rfl⟩
    exact ⟨s.working, s, rfl, (ctx, prepared), s, ⟨hprepare, rfl⟩, (), _, rfl, (), _,
      ⟨hpoint, rfl⟩, rfl⟩

private theorem exec_askModel_eq_ok :
    exec (askModel env request ctx run) s = (.ok result, t) ↔
      Replies env request run ctx result ∧ t = s := by
  unfold askModel Replies Run.Passes
  split
  · simp [eq_comm]
  · simp only [exec_bind_eq_ok, exec_point_eq_ok, exec_orRaise_eq_ok, List.forall_mem_singleton]
    constructor
    · rintro ⟨_, _, ⟨hpoint, rfl⟩, hreply, rfl⟩
      exact ⟨⟨hpoint, hreply⟩, rfl⟩
    · rintro ⟨⟨hpoint, hreply⟩, rfl⟩
      exact ⟨(), t, ⟨hpoint, rfl⟩, hreply, rfl⟩

private theorem persistQuery_isOk {db : Db} :
    (∃ q c db', persistQuery env db userId request result ctx run.toSurroundings =
      .ok (q, c, db')) ↔
      (filesBack request result → run.fileBackFails = false) ∧ run.commitFails = false := by
  unfold persistQuery manualFileBack fileBackThread commit
  cases hcommit : run.commitFails with
  | true =>
    split
    · split
      · simp [bind, Except.bind]
      · split <;> simp [bind, Except.bind]
    · simp [bind, Except.bind]
  | false =>
    split
    next hfiles =>
      cases hback : run.fileBackFails with
      | true => simp [bind, Except.bind, hfiles]
      | false =>
        simp only [Bool.false_eq_true, if_false]
        split
        · simp [bind, Except.bind, pure, Except.pure]
        · simp [bind, Except.bind, pure, Except.pure]
    next hfiles => simp [bind, Except.bind, pure, Except.pure, hfiles]

private theorem persistQuery_queries {db db' : Db} {q : Query} {c : Conversation}
    (h : persistQuery env db userId request result ctx run.toSurroundings = .ok (q, c, db')) :
    db'.queries = db.queries ++ [q] := by
  unfold persistQuery at h
  obtain ⟨filed, -, h⟩ := bind_eq_ok.mp h
  obtain ⟨_, -, h⟩ := bind_eq_ok.mp h
  cases h
  rfl

private theorem exec_stageAnswer_eq_ok {answered : Query × Conversation} :
    exec (stageAnswer env userId request result ctx run) s = (.ok answered, t) ↔
      run.Passes [.fileBack, .commit] ∧ ∃ db',
        persistQuery env s.working.db userId request result ctx run.toSurroundings =
          .ok (answered.1, answered.2, db') ∧
        t = ⟨s.committed, { s.working with db := db' }⟩ := by
  unfold stageAnswer Run.Passes
  simp only [exec_bind_eq_ok, exec_point_eq_ok, exec_read, exec_orRaise_eq_ok, exec_write,
    exec_pure, List.forall_mem_cons, List.not_mem_nil, IsEmpty.forall_iff, implies_true, and_true]
  constructor
  · rintro ⟨_, _, ⟨hback, rfl⟩, store, _, hread, ⟨q, c, db'⟩, _, ⟨hpersist, rfl⟩, _, _, hwrite,
      _, _, ⟨hcommit, rfl⟩, hpure⟩
    cases hread
    cases hwrite
    cases hpure
    exact ⟨⟨hback, hcommit⟩, db', hpersist, rfl⟩
  · rintro ⟨⟨hback, hcommit⟩, db', hpersist, rfl⟩
    exact ⟨(), s, ⟨hback, rfl⟩, s.working, s, rfl, (answered.1, answered.2, db'), s,
      ⟨hpersist, rfl⟩, (), _, rfl, (), _, ⟨hcommit, rfl⟩, rfl⟩

private theorem exec_yieldChunks_eq_ok {index : Nat} :
    exec (yieldChunks run index chunks) s = (.ok (), t) ↔
      (∀ i < chunks.length, run.stopAt (.chunk (index + i)) = none) ∧ t = s := by
  induction chunks generalizing index with
  | nil => simp [yieldChunks, eq_comm]
  | cons chunk chunks ih =>
    rw [yieldChunks, exec_bind_eq_ok]
    simp only [exec_point_eq_ok, List.length_cons, Nat.forall_lt_succ_left, Nat.add_zero]
    constructor
    · rintro ⟨_, _, ⟨hpoint, rfl⟩, hrest⟩
      obtain ⟨hchunks, rfl⟩ := ih.mp hrest
      refine ⟨⟨hpoint, fun i hi ↦ ?_⟩, rfl⟩
      rw [← hchunks i hi, Nat.add_right_comm, Nat.add_assoc]
    · rintro ⟨⟨hpoint, hrest⟩, rfl⟩
      refine ⟨(), t, ⟨hpoint, rfl⟩, ih.mpr ⟨fun i hi ↦ ?_, rfl⟩⟩
      rw [← hrest i hi, Nat.add_right_comm, Nat.add_assoc]

private theorem exec_streamModel_eq_ok :
    exec (streamModel env request ctx run) s = (.ok chunks, t) ↔
      Delivers env request run ctx chunks ∧ t = s := by
  unfold streamModel Delivers Run.Passes
  simp only [exec_bind_eq_ok, exec_point_eq_ok, List.forall_mem_singleton]
  constructor
  · rintro ⟨_, _, ⟨hpoint, rfl⟩, h⟩
    split at h
    · cases h
    · obtain ⟨_, _, _, hthrow⟩ := exec_bind_eq_ok.mp h
      cases hthrow
    next sent hsent =>
      obtain ⟨_, _, hyield, hpure⟩ := exec_bind_eq_ok.mp h
      obtain ⟨hchunks, rfl⟩ := exec_yieldChunks_eq_ok.mp hyield
      cases hpure
      exact ⟨⟨hpoint, hsent, by simpa using hchunks⟩, rfl⟩
  · rintro ⟨⟨hpoint, hsent, hchunks⟩, rfl⟩
    refine ⟨(), t, ⟨hpoint, rfl⟩, ?_⟩
    rw [hsent]
    dsimp only
    rw [exec_bind_eq_ok]
    exact ⟨(), t, exec_yieldChunks_eq_ok.mpr ⟨by simpa using hchunks, rfl⟩, rfl⟩

private theorem exec_stageCost_eq_ok {response : CompletionResponse} {u : Unit} :
    exec (stageCost userId response run) s = (.ok u, t) ↔
      run.Passes [.commitCost] ∧ t = ⟨s.committed, { s.working with
        costLogs := s.working.costLogs ++ [costEntry userId response run] }⟩ := by
  unfold stageCost Run.Passes
  simp only [exec_bind_eq_ok, exec_point_eq_ok, exec_write, List.forall_mem_singleton]
  constructor
  · rintro ⟨_, _, hwrite, hpoint, rfl⟩
    cases hwrite
    exact ⟨hpoint, rfl⟩
  · rintro ⟨hpoint, rfl⟩
    exact ⟨(), _, rfl, hpoint, rfl⟩

private theorem checkTurnIndex_eq_ok {forkRequest : ForkRequest} :
    checkTurnIndex forkRequest = .ok () ↔ 0 ≤ forkRequest.turnIndex := by
  unfold checkTurnIndex
  split
  · simp only [reduceCtorEq, false_iff]
    omega
  · simp only [true_iff]
    omega

private theorem exec_openFork_eq_ok {conversationId : String} {forkRequest : ForkRequest}
    {fork : Conversation} :
    exec (openFork env userId conversationId forkRequest run) s = (.ok fork, t) ↔
      Forks env userId conversationId forkRequest run s.working.db fork ∧
        t = ⟨s.committed, { s.working with db := s.working.db.addConversation fork }⟩ := by
  unfold openFork Forks Run.Passes
  simp only [exec_bind_eq_ok, exec_point_eq_ok, exec_read, exec_orRaise_eq_ok, exec_write,
    exec_pure, List.forall_mem_singleton]
  constructor
  · rintro ⟨store, _, hread, parent, _, ⟨hparent, rfl⟩, _, _, ⟨hturn, rfl⟩, _, _, hwrite, _, _,
      ⟨hpoint, rfl⟩, hpure⟩
    cases hread
    cases hwrite
    cases hpure
    exact ⟨⟨hpoint, ⟨parent, hparent⟩, checkTurnIndex_eq_ok.mp hturn, rfl⟩, rfl⟩
  · rintro ⟨⟨hpoint, ⟨parent, hparent⟩, hturn, rfl⟩, rfl⟩
    exact ⟨s.working, s, rfl, parent, s, ⟨hparent, rfl⟩, (), s,
      ⟨checkTurnIndex_eq_ok.mpr hturn, rfl⟩, (), _, rfl, (), _, ⟨hpoint, rfl⟩, rfl⟩

/-- A prepared question opens at most a conversation. -/
theorem prepareContext_tables {db prepared : Db}
    (h : prepareContext env db userId request run.toSurroundings = .ok (ctx, prepared)) :
    prepared.queries = db.queries ∧ (prepared = db ↔ request.conversationId.isSome) := by
  unfold prepareContext getOrCreateConversation at h
  cases hrequest : request.conversationId with
  | some id =>
    rw [hrequest] at h
    dsimp only at h
    split at h
    · cases h
    · cases h
      simp
  | none =>
    rw [hrequest] at h
    cases h
    refine ⟨rfl, ?_⟩
    simp only [Option.isSome_none, Bool.false_eq_true, iff_false]
    intro heq
    simpa using congrArg (List.length ∘ Db.conversations) heq

end Progress

/-! ### What is left behind -/

/-- The tables of the agent and the counts are as before. -/
def Clean (before after : Store) : Prop := after.db = before.db ∧ after.counts = before.counts

/-- A request that failed or was aborted has been undone. -/
def Undone {α : Type} (before : Store) (outcome : Except Stop α × Store) : Prop :=
  ∀ stop, outcome.1 = .error stop → Clean before outcome.2

section Undone

variable {α β : Type} {before : Store} {ps : List Point}

/-- Pass the points, one after the other, and go on. -/
def Run.passing (run : Run) (ps : List Point) (f : Serving α) : Serving α :=
  ps.foldr (fun p rest ↦ run.point p >>= fun _ ↦ rest) f

@[simp] theorem undone_error {stop : Stop} {w : Store} :
    Undone (α := α) before (.error stop, w) ↔ Clean before w := by
  simp [Undone]

@[simp] theorem undone_ok (a : α) (w : Store) : Undone before (.ok a, w) := by
  simp [Undone]

private theorem undone_silent_bind_iff {x : Serving α} (hx : Silent x) (f : α → Serving β)
    (hclean : Clean before s.committed) :
    Undone before (close (x >>= f) s) ↔
      ∀ a t, exec x s = (.ok a, t) → Undone before (close (f a) t) := by
  cases h : exec x s with
  | mk outcome u =>
    cases outcome with
    | error e =>
      rw [hx.close_bind_of_error h]
      simpa using hclean
    | ok a =>
      rw [close_bind_of_ok h]
      simp

private theorem close_passing_of_passes (h : run.Passes ps) (f : Serving α) (s : Session Store) :
    close (run.passing ps f) s = close f s := by
  induction ps with
  | nil => rfl
  | cons p ps ih =>
    have hpoint : exec (run.point p) s = (.ok (), s) :=
      exec_point_eq_ok.mpr ⟨h p List.mem_cons_self, rfl⟩
    have hrest := ih fun q hq ↦ h q (List.mem_cons_of_mem p hq)
    exact (close_bind_of_ok hpoint _).trans hrest

private theorem close_passing_of_not_passes (h : ¬ run.Passes ps) (f : Serving α)
    (s : Session Store) :
    ∃ stop, close (run.passing ps f) s = (.error stop, s.committed) := by
  induction ps with
  | nil => exact absurd (by simp [Run.Passes]) h
  | cons p ps ih =>
    cases hstop : run.stopAt p with
    | some stop =>
      have hpoint : exec (run.point p) s = (.error stop, s) := by
        unfold Run.point
        rw [hstop]
        rfl
      exact ⟨stop, close_bind_of_error hpoint _⟩
    | none =>
      have hpoint : exec (run.point p) s = (.ok (), s) := exec_point_eq_ok.mpr ⟨hstop, rfl⟩
      have hrest : ¬ run.Passes ps := fun hps ↦ h (List.forall_mem_cons.mpr ⟨hstop, hps⟩)
      obtain ⟨other, hclose⟩ := ih hrest
      exact ⟨other, (close_bind_of_ok hpoint _).trans hclose⟩

/-- Persist an answer, pass some points and go on. -/
def persistAndPass (env : QaEnv) (userId : String) (request : QueryRequest) (run : Run)
    (result : QueryResult) (ctx : PreparedContext) (ps : List Point)
    (f : Query × Conversation → Serving α) : Serving α :=
  stageAnswer env userId request result ctx run >>= fun answered ↦
    Session.commit >>= fun _ ↦ run.passing ps (f answered)

private theorem exec_stageAnswer_of_stores (env : QaEnv) (userId : String) (ctx : PreparedContext)
    {result : QueryResult} (h : Stores request result run) (s : Session Store) :
    ∃ q c db', exec (stageAnswer env userId request result ctx run) s =
        (.ok (q, c), ⟨s.committed, { s.working with db := db' }⟩) ∧
      db'.queries = s.working.db.queries ++ [q] := by
  obtain ⟨hpasses, hpersists⟩ := h
  have hok : ∃ q c db', persistQuery env s.working.db userId request result ctx
      run.toSurroundings = .ok (q, c, db') := persistQuery_isOk.mpr hpersists
  obtain ⟨q, c, db', hpersist⟩ := hok
  exact ⟨q, c, db', exec_stageAnswer_eq_ok.mpr ⟨hpasses, db', hpersist, rfl⟩,
    persistQuery_queries hpersist⟩

private theorem exec_stageAnswer_of_not_stores (env : QaEnv) (userId : String)
    (ctx : PreparedContext)
    {result : QueryResult} (h : ¬ Stores request result run) (s : Session Store) :
    ∃ stop t, exec (stageAnswer env userId request result ctx run) s = (.error stop, t) := by
  cases hexec : exec (stageAnswer env userId request result ctx run) s with
  | mk outcome t =>
    cases outcome with
    | error stop => exact ⟨stop, t, rfl⟩
    | ok answered =>
      obtain ⟨hpasses, db', hpersist, -⟩ := exec_stageAnswer_eq_ok.mp hexec
      exact absurd ⟨hpasses, persistQuery_isOk.mp ⟨_, _, _, hpersist⟩⟩ h

/-- What a failure from here on leaves depends on whether the answer gets to its commit:
before it, what was committed already; after it, the answer too. -/
theorem undone_persistAndPass_iff (env : QaEnv) (userId : String) (request : QueryRequest)
    (run : Run) (ctx : PreparedContext) (result : QueryResult) (ps : List Point)
    {f : Query × Conversation → Serving α}
    (hf : ∀ answered w, ∃ a, close (f answered) (start w) = (.ok a, w))
    (hqueries : s.working.db.queries = before.db.queries) :
    Undone before (close (persistAndPass env userId request run result ctx ps f) s) ↔
      (Stores request result run ∧ run.Passes ps) ∨
        (¬ Stores request result run ∧ Clean before s.committed) := by
  unfold persistAndPass
  by_cases hstores : Stores request result run
  · obtain ⟨q, c, db', hstage, hq⟩ := exec_stageAnswer_of_stores env userId ctx hstores s
    rw [close_bind_of_ok hstage, close_commit_bind]
    have hchanged : ¬ Clean before { s.working with db := db' } := by
      rintro ⟨hdb, -⟩
      have hlength := congrArg (List.length ∘ Db.queries) hdb
      simp [hq, hqueries] at hlength
    by_cases hlate : run.Passes ps
    · obtain ⟨a, hclose⟩ := hf (q, c) { s.working with db := db' }
      unfold serve
      rw [close_passing_of_passes hlate, hclose]
      simp [hstores, hlate]
    · obtain ⟨stop, hclose⟩ := close_passing_of_not_passes hlate (f (q, c))
        (start { s.working with db := db' })
      unfold serve
      rw [hclose, undone_error]
      simpa [hstores, hlate, start] using hchanged
  · obtain ⟨stop, t, hstage⟩ := exec_stageAnswer_of_not_stores env userId ctx hstores s
    rw [silent_stageAnswer.close_bind_of_error hstage, undone_error]
    simp [hstores]

private theorem close_pure (a : α) (w : Store) :
    close (pure a : Serving α) (start w) = (.ok a, w) := rfl

private theorem close_commit_pure (a : α) (w : Store) :
    close (Session.commit >>= fun _ ↦ (pure a : Serving α)) (start w) = (.ok a, w) := rfl

theorem Clean.refl (store : Store) : Clean store store := ⟨rfl, rfl⟩

end Undone

/-! ### When a failed request is undone -/

/-- After the commit of its answer a request is not stopped any more. -/
def UndoneAnswer (env : QaEnv) (userId : String) (request : QueryRequest) (run : Run) (db : Db)
    (late : List Point) : Prop :=
  ∀ ctx prepared, Prepares env userId request run db ctx prepared →
    ∀ result, Replies env request run ctx result → Stores request result run → run.Passes late

/-- After the commit of its cost a stream is not stopped before its answer is committed,
unless it neither opened a conversation nor was charged; after that commit it is not
stopped at all. -/
def UndoneStream (env : QaEnv) (userId : String) (request : QueryRequest) (run : Run) (db : Db)
    (charged : Bool) (late : List Point) : Prop :=
  ∀ ctx prepared, Prepares env userId request run db ctx prepared →
    if ctx.wikiContext = [] then
      run.Passes [.chunk 0] → Stores request noContextResult run → run.Passes late
    else
      ∀ chunks, Delivers env request run ctx chunks →
        if run.streamResult.isSome then
          run.Passes [.commitCost] →
            if Finishes env request run chunks then run.Passes late
            else request.conversationId.isSome ∧ charged = false
        else Finishes env request run chunks → run.Passes late

/-- The requests that are undone when they fail. -/
def UndoneWhen (env : QaEnv) (maxQueriesPerDay : Option Nat) (userId : String) (run : Run)
    (store : Store) : QuestionRoute → Prop
  | .ask request =>
    ∀ charged, Charges maxQueriesPerDay userId run store charged →
      UndoneAnswer env userId request run store.db
        [.appendLogEntry, .refresh, .buildCitations, .respond]
  | .askStream request =>
    ∀ charged, Charges maxQueriesPerDay userId run store charged →
      UndoneStream env userId request run store.db charged
        [.appendLogEntry, .refresh, .buildCitations, .respond]
  | .fork conversationId request =>
    ∀ fork, Forks env userId conversationId request run store.db fork →
      UndoneAnswer env userId (request.question fork) run (store.db.addConversation fork)
        [.appendLogEntry, .refresh, .buildCitations, .countForks, .respond]

section Routes

variable {α : Type} {before : Store} {ps : List Point}

private theorem undone_prepare_bind_iff (f : PreparedContext → Serving α)
    (hclean : Clean before s.committed) :
    Undone before (close (prepare env userId request run >>= f) s) ↔
      ∀ ctx prepared, Prepares env userId request run s.working.db ctx prepared →
        Undone before (close (f ctx) ⟨s.committed, { s.working with db := prepared }⟩) := by
  rw [undone_silent_bind_iff silent_prepare f hclean]
  constructor
  · intro h ctx prepared hprepares
    exact h ctx _ (exec_prepare_eq_ok.mpr ⟨prepared, hprepares, rfl⟩)
  · intro h ctx t hprepare
    obtain ⟨prepared, hprepares, rfl⟩ := exec_prepare_eq_ok.mp hprepare
    exact h ctx prepared hprepares

/-- An answer, up to its commit and after it. -/
theorem undone_answer_iff {f : Query × Conversation → Serving α}
    (hf : ∀ answered w, ∃ a, close (f answered) (start w) = (.ok a, w))
    (hclean : Clean before s.committed)
    (hqueries : s.working.db.queries = before.db.queries) :
    Undone before (close (prepare env userId request run >>= fun ctx ↦
        askModel env request ctx run >>= fun result ↦
          persistAndPass env userId request run result ctx ps f) s) ↔
      UndoneAnswer env userId request run s.working.db ps := by
  rw [undone_prepare_bind_iff _ hclean]
  unfold UndoneAnswer
  refine forall₃_congr fun ctx prepared hprepares ↦ ?_
  have hprepared := (prepareContext_tables hprepares.2).1.trans hqueries
  rw [undone_silent_bind_iff silent_askModel _ (by exact hclean)]
  refine forall_congr' fun result ↦ ?_
  have hpersist := undone_persistAndPass_iff env userId request run ctx result ps
    (s := ⟨s.committed, { s.working with db := prepared }⟩) hf hprepared
  constructor
  · intro h hreplies hstores
    have hresult := hpersist.mp (h _ (exec_askModel_eq_ok.mpr ⟨hreplies, rfl⟩))
    simpa [hstores] using hresult
  · intro h t hask
    obtain ⟨hreplies, rfl⟩ := exec_askModel_eq_ok.mp hask
    rw [hpersist]
    by_cases hstores : Stores request result run
    · exact .inl ⟨hstores, h hreplies hstores⟩
    · exact .inr ⟨hstores, hclean⟩

private theorem finishStream_eq (ctx : PreparedContext) (chunks : List String) :
    finishStream env userId request ctx chunks run =
      run.passing [.parseReply] (persistAndPass env userId request run
        ((env.parseStream (String.join chunks)).getD errorResult) ctx
        [.appendLogEntry, .refresh, .buildCitations, .respond] pure) := by
  unfold finishStream persist persistAndPass
  simp only [bind_assoc, pure_bind]
  rfl

private theorem streamNoContext_eq (ctx : PreparedContext) :
    streamNoContext env userId request ctx run =
      run.passing [.chunk 0] (persistAndPass env userId request run noContextResult ctx
        [.appendLogEntry, .refresh, .buildCitations, .respond] pure) := by
  unfold streamNoContext persist persistAndPass
  simp only [yieldChunks, bind_assoc, pure_bind]
  rfl

private theorem handleAsk_eq :
    handleAsk env maxQueriesPerDay userId request run =
      chargeQuery maxQueriesPerDay userId run >>= fun _ ↦
        prepare env userId request run >>= fun ctx ↦
          askModel env request ctx run >>= fun result ↦
            persistAndPass env userId request run result ctx
              [.appendLogEntry, .refresh, .buildCitations, .respond]
              fun answered ↦ Session.commit >>= fun _ ↦ pure answered := by
  unfold handleAsk answer persist persistAndPass
  simp only [bind_assoc, pure_bind]
  rfl

private theorem handleFork_eq (conversationId : String) (request : ForkRequest) :
    handleFork env userId conversationId request run =
      openFork env userId conversationId request run >>= fun fork ↦
        prepare env userId (request.question fork) run >>= fun ctx ↦
          askModel env (request.question fork) ctx run >>= fun result ↦
            persistAndPass env userId (request.question fork) run result ctx
              [.appendLogEntry, .refresh, .buildCitations, .countForks, .respond]
              fun answered ↦ Session.commit >>= fun _ ↦ pure answered := by
  unfold handleFork answer persist persistAndPass
  simp only [bind_assoc, pure_bind]
  rfl

/-- Points before a handler: it is stopped there, or it goes on. -/
theorem undone_passing_iff (f : Serving α) :
    Undone before (close (run.passing ps f) s) ↔
      (run.Passes ps ∧ Undone before (close f s)) ∨
        (¬ run.Passes ps ∧ Clean before s.committed) := by
  by_cases hpasses : run.Passes ps
  · rw [close_passing_of_passes hpasses]
    simp [hpasses]
  · obtain ⟨stop, hclose⟩ := close_passing_of_not_passes hpasses f s
    rw [hclose, undone_error]
    simp [hpasses]

private theorem undone_finishStream_iff {ctx : PreparedContext} {chunks : List String}
    (hqueries : s.working.db.queries = before.db.queries) :
    Undone before (close (finishStream env userId request ctx chunks run) s) ↔
      if Finishes env request run chunks then
        run.Passes [.appendLogEntry, .refresh, .buildCitations, .respond]
      else Clean before s.committed := by
  rw [finishStream_eq, undone_passing_iff,
    undone_persistAndPass_iff _ _ _ _ _ _ _
      (fun answered w ↦ ⟨answered, close_pure answered w⟩) hqueries]
  unfold Finishes
  by_cases hparse : run.Passes [.parseReply]
  · by_cases hstores :
      Stores request ((env.parseStream (String.join chunks)).getD errorResult) run
    · simp [hparse, hstores]
    · simp [hparse, hstores]
  · simp [hparse]

/-- A stream that was charged or not, from the preparation of its question on. -/
theorem undone_stream_iff (charged : Bool) (hclean : Clean before s.committed)
    (hdb : s.working.db = before.db)
    (hcounts : s.working.counts = before.counts ↔ charged = false) :
    Undone before
        (close (prepare env userId request run >>= streamAnswer env userId request run) s) ↔
      UndoneStream env userId request run s.working.db charged
        [.appendLogEntry, .refresh, .buildCitations, .respond] := by
  rw [undone_prepare_bind_iff _ hclean]
  unfold UndoneStream
  refine forall₃_congr fun ctx prepared hprepares ↦ ?_
  obtain ⟨hqueries, hsame⟩ := prepareContext_tables hprepares.2
  rw [hdb] at hqueries hsame
  unfold streamAnswer
  split
  · rw [streamNoContext_eq, undone_passing_iff,
      undone_persistAndPass_iff _ _ _ _ _ _ _
      (fun answered w ↦ ⟨answered, close_pure answered w⟩) hqueries]
    by_cases hchunk : run.Passes [.chunk 0]
    · by_cases hstores : Stores request noContextResult run
      · simp [hchunk, hstores]
      · simp [hchunk, hstores, hclean]
    · simp [hchunk, hclean]
  · rw [undone_silent_bind_iff silent_streamModel _ (by exact hclean)]
    simp only [exec_streamModel_eq_ok, and_imp, forall_eq_apply_imp_iff]
    refine forall₂_congr fun chunks _ ↦ ?_
    unfold completeStream
    cases run.streamResult with
    | none =>
      dsimp only
      rw [undone_finishStream_iff hqueries, Option.isSome_none, if_neg Bool.false_ne_true]
      by_cases hfinishes : Finishes env request run chunks
      · simp [hfinishes]
      · simpa [hfinishes] using hclean
    | some response =>
      dsimp only
      rw [undone_silent_bind_iff silent_stageCost _ (by exact hclean), Option.isSome_some,
        if_pos rfl]
      simp only [exec_stageCost_eq_ok, and_imp, forall_eq_apply_imp_iff, forall_const,
        close_commit_bind]
      refine forall_congr' fun _ ↦ ?_
      unfold serve
      rw [undone_finishStream_iff hqueries]
      simp only [Clean, start, hsame, hcounts]

/-- A question that may be charged, and what is left of it if it fails later. -/
theorem undone_charged_iff (f : Serving α) {P : Bool → Prop}
    (hf : ∀ charged, Undone store (close f ⟨store,
      if charged then store.raiseCount userId run.today else store⟩) ↔ P charged) :
    Undone store (serve (chargeQuery maxQueriesPerDay userId run >>= fun _ ↦ f) store) ↔
      ∀ charged, Charges maxQueriesPerDay userId run store charged → P charged := by
  unfold serve
  rw [undone_silent_bind_iff silent_chargeQuery _ (Clean.refl store)]
  constructor
  · intro h charged hcharges
    exact (hf charged).mp (h () _ (exec_chargeQuery_eq_ok.mpr ⟨charged, hcharges, rfl⟩))
  · intro h _ t hcharge
    obtain ⟨charged, hcharges, rfl⟩ := exec_chargeQuery_eq_ok.mp hcharge
    exact (hf charged).mpr (h charged hcharges)

/-- A raised count is not the one before. -/
theorem raiseCount_counts_ne (userId : String) (day : Nat) (store : Store) :
    (store.raiseCount userId day).counts ≠ store.counts := by
  intro h
  have hcount := congrArg (Option.getD · 0) (congrFun (congrFun h userId) day)
  simp [Store.raiseCount, Store.count] at hcount

/-- A failed request leaves conversations, turns and counts as they were exactly if it is
not stopped after its answer is committed, nor, as a stream that opened a conversation or
was charged, between the commit of its cost and that of its answer. -/
theorem handle_atomic_iff (route : QuestionRoute) :
    Undone store (serve (handle env maxQueriesPerDay userId run route) store) ↔
      UndoneWhen env maxQueriesPerDay userId run store route := by
  cases route with
  | ask request =>
    show Undone store (serve (handleAsk env maxQueriesPerDay userId request run) store) ↔ _
    rw [handleAsk_eq]
    apply undone_charged_iff
    intro charged
    rw [undone_answer_iff (fun answered w ↦ ⟨answered, close_commit_pure answered w⟩)
      (Clean.refl store)]
    · cases charged <;> rfl
    · cases charged <;> rfl
  | askStream request =>
    show Undone store (serve (handleAskStream env maxQueriesPerDay userId request run) store) ↔ _
    apply undone_charged_iff
    intro charged
    rw [undone_stream_iff charged (by exact Clean.refl store)]
    · cases charged <;> rfl
    · cases charged <;> rfl
    · cases charged with
      | false => simp
      | true => simpa using raiseCount_counts_ne userId run.today store
  | fork conversationId request =>
    show Undone store (serve (handleFork env userId conversationId request run) store) ↔ _
    rw [handleFork_eq]
    unfold serve
    rw [undone_silent_bind_iff silent_openFork _ (Clean.refl store)]
    simp only [exec_openFork_eq_ok, and_imp, forall_eq_apply_imp_iff]
    refine forall₂_congr fun fork _ ↦ ?_
    exact undone_answer_iff (fun answered w ↦ ⟨answered, close_commit_pure answered w⟩)
      (Clean.refl store) rfl

/-- A stream that completes, and whose answer cannot be committed. -/
def unstoredRun : Run :=
  { sampleRun with
    stream := fun _ ↦ .completed ["Yes."], commitFails := true, today := 0, clock := ⟨0, none⟩
    streamResult := some ⟨"Yes.", .anthropic, "m", 9, 2, 1, 5⟩, stopAt := fun _ ↦ none }

/-- A user with one article, before the first question of the day. -/
def unaskedStore : Store := ⟨sampleDb [], fun _ _ ↦ none, []⟩

/-- A streamed question ends in an error; its conversation and its count remain. -/
theorem askStream_keeps_conversation :
    let outcome := serve (handle sampleEnv (some 5) "u" unstoredRun
      (.askStream ⟨"merger", false, none⟩)) unaskedStore
    outcome.1 = .error (.raised (.runtimeError "commit")) ∧
      outcome.2.db.conversations.map (·.id) = ["c", "n"] ∧ outcome.2.db.queries = [] ∧
      unaskedStore.count "u" 0 = 0 ∧ outcome.2.count "u" 0 = 1 ∧
      ¬ Undone unaskedStore outcome := by
  intro outcome
  have herror : outcome.1 = .error (.raised (.runtimeError "commit")) := by decide +kernel
  have hkept : outcome.2.db.conversations.map (·.id) = ["c", "n"] := by decide +kernel
  refine ⟨herror, hkept, by decide +kernel, rfl, by decide +kernel, ?_⟩
  intro hundone
  rw [(hundone _ herror).1] at hkept
  revert hkept
  decide

end Routes

section Agent

private theorem exec_point_of_unstopped (h : ∀ p, run.stopAt p = none) (p : Point) :
    exec (run.point p) s = (.ok (), s) := exec_point_eq_ok.mpr ⟨h p, rfl⟩

@[simp] theorem exec_orRaise {α : Type} (x : Except Exc α) :
    exec (orRaise x) s = (x.mapError .raised, s) := exec_ofExcept _ s

private theorem exec_stageAnswer_of_unstopped (env : QaEnv) (userId : String)
    (request : QueryRequest)
    (result : QueryResult) (ctx : PreparedContext) (s : Session Store)
    (h : ∀ p, run.stopAt p = none) :
    exec (stageAnswer env userId request result ctx run) s =
      match persistQuery env s.working.db userId request result ctx run.toSurroundings with
      | .error e => (.error (.raised e), s)
      | .ok (q, c, db) => (.ok (q, c), ⟨s.committed, { s.working with db }⟩) := by
  unfold stageAnswer
  simp only [exec_bind, exec_point_of_unstopped h, exec_read, exec_write, exec_orRaise]
  cases persistQuery env s.working.db userId request result ctx run.toSurroundings with
  | error e => rfl
  | ok answered => rfl

/-- Where nothing stops it and no plan limits it, the route does what the agent does. -/
theorem serve_handleAsk (h : ∀ p, run.stopAt p = none) :
    serve (handleAsk env none userId request run) store =
      ((ask env store.db userId request run.toSurroundings).response.mapError Stop.raised,
        { store with db := (ask env store.db userId request run.toSurroundings).db }) := by
  have hpasses (ps : List Point) : run.Passes ps := fun p _ ↦ h p
  have hpersist (result : QueryResult) (ctx : PreparedContext) (db : Db) (turns : List Query) :
      close (persistAndPass env userId request run result ctx
          [.appendLogEntry, .refresh, .buildCitations, .respond]
          fun answered ↦ Session.commit >>= fun _ ↦ pure answered)
          ⟨store, { store with db }⟩ =
        ((respond env store.db db userId request result ctx turns
            run.toSurroundings).response.mapError Stop.raised,
          { store with db := (respond env store.db db userId request result ctx turns
              run.toSurroundings).db }) := by
    have hstage := exec_stageAnswer_of_unstopped env userId request result ctx
      ⟨store, { store with db }⟩ h
    unfold persistAndPass respond
    dsimp only at hstage ⊢
    cases hok : persistQuery env db userId request result ctx run.toSurroundings with
    | error e =>
      rw [hok] at hstage
      rw [close_bind_of_error hstage]
      rfl
    | ok answered =>
      rw [hok] at hstage
      rw [close_bind_of_ok hstage, close_commit_bind]
      exact close_passing_of_passes (hpasses _) _ _
  rw [handleAsk_eq]
  have hcharge : exec (chargeQuery none userId run) (start store) = (.ok (), start store) :=
    exec_chargeQuery_eq_ok.mpr ⟨false, ⟨hpasses _, rfl⟩, rfl⟩
  unfold serve ask
  rw [close_bind_of_ok hcharge]
  cases hprepare : prepareContext env store.db userId request run.toSurroundings with
  | error e =>
    unfold prepare close
    simp only [exec_bind, exec_read, exec_orRaise]
    simp [start, hprepare, Except.mapError]
  | ok prepared =>
    obtain ⟨ctx, db⟩ := prepared
    have hctx := exec_prepare_eq_ok (s := start store) |>.mpr ⟨db, ⟨hpasses _, hprepare⟩, rfl⟩
    rw [close_bind_of_ok hctx]
    by_cases hwiki : ctx.wikiContext = []
    · have hask : Replies env request run ctx noContextResult := by simp [Replies, hwiki]
      rw [close_bind_of_ok (exec_askModel_eq_ok.mpr ⟨hask, rfl⟩)]
      simpa [hwiki, start] using hpersist _ ctx db []
    · have hmodel : exec (askModel env request ctx run) ⟨store, { store with db }⟩ =
          ((queryLlm env (ctx.prompt env request) run.toSurroundings).mapError .raised,
            ⟨store, { store with db }⟩) := by
        unfold askModel
        rw [if_neg hwiki, exec_bind, exec_point_of_unstopped h]
        exact exec_orRaise _
      simp only [hwiki, if_false]
      unfold PreparedContext.prompt at hmodel
      cases hreply : queryLlm env (buildCompletionRequest env request.question ctx.wikiContext
          ctx.priorTurns) run.toSurroundings with
      | error e =>
        rw [hreply] at hmodel
        exact close_bind_of_error hmodel _
      | ok result =>
        rw [hreply] at hmodel
        exact (close_bind_of_ok hmodel _).trans (hpersist result ctx db ctx.priorTurns)

end Agent

end WikiMind.Qa
