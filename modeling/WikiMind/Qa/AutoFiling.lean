import WikiMind.Base.Stateful
import WikiMind.Qa.Isolation

/-!
# An automatic file-back that fails

`_persist_query` (`engine/qa_agent.py:444`) scores an answer, files its thread back by itself
inside a broad `except` and commits. What the file-back has changed before it fails stays
pending. A failed flush leaves the session refusing the commit, and so does a failed
statement on a database that aborts its transaction then. Files are known by their owner and
path; their text, the search index and the activity log are left out.
-/

namespace WikiMind.Qa

open WikiMind.Base
open Stateful

/-- The steps of an automatic file-back that may fail. A file is emptied when it is opened. -/
inductive FilingStep where
  | score | derive | flush | load | serialize | find | openFile | writeFile | insert | index
  deriving DecidableEq, Repr

/-- The steps that fail where they are reached, and whether the database aborts a transaction
in which a statement fails. -/
structure FilingFaults where
  fails : FilingStep → Bool
  aborts : Bool

/-- The session refuses what follows the failure of the step. -/
def FilingStep.blocks (aborts : Bool) : FilingStep → Bool
  | .flush | .insert => true
  | .load | .find | .index => aborts
  | _ => false

/-- The rows a request has pending, and the files its automatic file-back has opened. -/
structure Filing where
  pending : Pending
  files : List (String × String)

/-- Change the conversation that is pending. -/
def Filing.mapConversation (f : Conversation → Conversation) (s : Filing) : Filing :=
  { s with pending := { s.pending with conversation := f s.pending.conversation } }

/-- The article of the conversation; a reference to a missing one is cleared:
`engine/qa_agent.py:796–806`. -/
def findFiled (fails : FilingStep → Bool) : Stateful Filing FilingStep (Option Article) := do
  let p := (← get).pending
  match p.conversation.filedArticleId with
  | none => return none
  | some id =>
    reach fails .find
    match p.articles.find? (·.id = id) with
    | some article => return some article
    | none =>
      modify (Filing.mapConversation fun c ↦ { c with filedArticleId := none })
      return none

/-- `storage.write`: `storage.py:95`. -/
def writeFiled (fails : FilingStep → Bool) (userId path : String) :
    Stateful Filing FilingStep Unit := do
  reach fails .openFile
  modify fun s ↦ { s with files := s.files ++ [(userId, path)] }
  reach fails .writeFile

/-- A new article for the conversation: `engine/qa_agent.py:808–838`. -/
def createFiled (fails : FilingStep → Bool) (userId : String) (run : Surroundings) :
    Stateful Filing FilingStep String := do
  let c := (← get).pending.conversation
  let path := "qa-answers/" ++ c.id ++ ".md"
  writeFiled fails userId path
  reach fails .insert
  modify fun s ↦ { s with pending := { s.pending with
    articles := s.pending.articles ++ [⟨run.articleId, userId, c.id, c.title, path⟩] } }
  modify (Filing.mapConversation fun c ↦
    { c with filedArticleId := some run.articleId, updatedAt := run.now })
  reach fails .index
  return run.articleId

/-- The article the conversation has: `engine/qa_agent.py:840–849`. -/
def updateFiled (fails : FilingStep → Bool) (userId : String) (run : Surroundings)
    (article : Article) : Stateful Filing FilingStep String := do
  writeFiled fails userId article.filePath
  modify (Filing.mapConversation fun c ↦ { c with updatedAt := run.now })
  reach fails .index
  return article.id

/-- `_file_back_thread`, with the id of the article: `engine/qa_agent.py:749`. -/
def fileThread (fails : FilingStep → Bool) (userId : String) (run : Surroundings) :
    Stateful Filing FilingStep String := do
  reach fails .load
  reach fails .serialize
  match ← findFiled fails with
  | none => createFiled fails userId run
  | some article => updateFiled fails userId run article

/-- What the broad `except` encloses: `engine/qa_agent.py:510–521`. -/
def fileAutomatically (env : QaEnv) (userId : String) (result : QueryResult)
    (run : Surroundings) (fails : FilingStep → Bool) : Stateful Filing FilingStep Unit := do
  reach fails .derive
  modify (Filing.mapConversation fun c ↦ { c with title := deriveAutoFileBackTitle env result })
  reach fails .flush
  let articleId ← fileThread fails userId run
  modify fun s ↦ { s with pending := { s.pending with
    query := { s.pending.query with filedBack := true, filedArticleId := some articleId } } }

/-- The commit of the pending rows: `engine/qa_agent.py:528`. -/
def commitPending (db : Db) (ctx : PreparedContext) (run : Surroundings) (p : Pending) :
    Except Exc (Query × Conversation × Db) := do
  commit run
  return (p.query, p.conversation,
    { conversations := Rows.modify (·.id = ctx.conversation.id) (fun _ ↦ p.conversation)
        db.conversations
      queries := db.queries ++ [p.query]
      articles := p.articles })

/-- What a request persists and returns, and the files it has opened for an automatic
file-back. -/
structure Persisted where
  outcome : Except Exc (Query × Conversation × Db)
  files : List (String × String)

/-- `_persist_query` with an automatic file-back that may fail: `engine/qa_agent.py:444–528`. -/
def persistAnswer (env : QaEnv) (db : Db) (userId : String) (request : QueryRequest)
    (result : QueryResult) (ctx : PreparedContext) (run : Surroundings)
    (faults : FilingFaults) : Persisted :=
  match manualFileBack (pendingAnswer db userId request result ctx run) userId request result
    run with
  | .error e => ⟨.error e, []⟩
  | .ok p =>
    if env.autoFileBackEnabled && faults.fails .score then ⟨.error (.runtimeError "score"), []⟩
    else if autoFilesBack env p.articles userId result && !filesBack request result then
      match exec (fileAutomatically env userId result run faults.fails) ⟨p, []⟩ with
      | (.ok _, s) => ⟨commitPending db ctx run s.pending, s.files⟩
      | (.error step, s) =>
        if step.blocks faults.aborts then ⟨.error (.runtimeError "pending rollback"), s.files⟩
        else ⟨commitPending db ctx run s.pending, s.files⟩
    else ⟨commitPending db ctx run p, []⟩

/-- The same settings with `auto_file_back_enabled = False`. -/
def QaEnv.withoutAutoFileBack (env : QaEnv) : QaEnv := { env with autoFileBackEnabled := false }

/-- The request persists, returns and writes what it does without an automatic file-back. -/
def Unaffected (env : QaEnv) (db : Db) (userId : String) (request : QueryRequest)
    (result : QueryResult) (ctx : PreparedContext) (run : Surroundings)
    (faults : FilingFaults) : Prop :=
  let x := persistAnswer env db userId request result ctx run faults
  let y := persistAnswer env.withoutAutoFileBack db userId request result ctx run faults
  x.outcome.toOption = y.outcome.toOption ∧ x.files = y.files

/-- The article that a conversation was filed as. -/
def filedArticle (p : Pending) : Option Article :=
  p.conversation.filedArticleId.bind fun id ↦ p.articles.find? (·.id = id)

/-- The steps that an automatic file-back reaches, in their order. -/
def filingSteps (p : Pending) : List FilingStep :=
  let find := if p.conversation.filedArticleId.isSome then [FilingStep.find] else []
  let insert := if (filedArticle p).isSome then [] else [FilingStep.insert]
  .derive :: .flush :: .load :: .serialize :: (find ++
    .openFile :: .writeFile :: (insert ++ [FilingStep.index]))

/-- The step at which the automatic file-back of a request fails, if it does. -/
def failedStep (env : QaEnv) (db : Db) (userId : String) (request : QueryRequest)
    (result : QueryResult) (ctx : PreparedContext) (run : Surroundings)
    (faults : FilingFaults) : Option FilingStep :=
  if filesBack request result && run.fileBackFails then none
  else if env.autoFileBackEnabled && faults.fails .score then some .score
  else if autoFilesBack env db.articles userId result && !filesBack request result then
    (filingSteps (pendingAnswer db userId request result ctx run)).find? faults.fails
  else none

/-- The steps that fail when the file is open. -/
def FilingStep.opened : FilingStep → Bool
  | .writeFile | .insert | .index => true
  | _ => false

/-- The failed step leaves nothing behind: it is the derivation of the title, or the title stays
as it was, no reference to a missing article was cleared and the session works; or no answer
was to be delivered. -/
def LeavesNothing (env : QaEnv) (db : Db) (result : QueryResult) (ctx : PreparedContext)
    (run : Surroundings) (faults : FilingFaults) (step : FilingStep) : Prop :=
  step.opened = false ∧ (run.commitFails = true ∨ step = .derive ∨
    (step ≠ .score ∧ step.blocks faults.aborts = false ∧
      deriveAutoFileBackTitle env result = ctx.conversation.title ∧
      (step = .openFile → ∀ id, ctx.conversation.filedArticleId = some id →
        ∃ x ∈ db.articles, x.id = id)))

/-- What a step that fails leaves pending while no file is open. -/
def leftPending (env : QaEnv) (result : QueryResult) (p : Pending) : FilingStep → Pending
  | .score | .derive => p
  | .openFile =>
    { p with conversation := { p.conversation with
        title := deriveAutoFileBackTitle env result
        filedArticleId := (filedArticle p).bind fun _ ↦ p.conversation.filedArticleId } }
  | _ => { p with conversation := { p.conversation with
        title := deriveAutoFileBackTitle env result } }

/-- What a step that fails leaves. -/
def Leaves (env : QaEnv) (result : QueryResult) (p : Pending) (step : FilingStep)
    (s : Filing) : Prop :=
  if step.opened then s.files ≠ [] else s = ⟨leftPending env result p step, []⟩

section Filing

variable {env : QaEnv} {fails : FilingStep → Bool} {userId : String} {run : Surroundings}
  {result : QueryResult} {s : Filing} {p : Pending} {step : FilingStep}
  {Q : Unit → Filing → Prop} {R : FilingStep → Filing → Prop}

/-- The steps of a new article. -/
theorem reaches_createFiled {f : String → Stateful Filing FilingStep Unit}
    (hopen : R .openFile s) (hopened : ∀ step t, step.opened = true → t.files ≠ [] → R step t)
    (h : Reaches fails [] (f run.articleId)
      ⟨{ s.pending with
          articles := s.pending.articles ++
            [⟨run.articleId, userId, s.pending.conversation.id, s.pending.conversation.title,
              "qa-answers/" ++ s.pending.conversation.id ++ ".md"⟩]
          conversation := { s.pending.conversation with
            filedArticleId := some run.articleId, updatedAt := run.now } },
        s.files ++ [(userId, "qa-answers/" ++ s.pending.conversation.id ++ ".md")]⟩ Q R) :
    Reaches fails [.openFile, .writeFile, .insert, .index]
      (createFiled fails userId run >>= f) s Q R := by
  simp only [createFiled, writeFiled, bind_assoc, pure_bind]
  refine reaches_get_bind (reaches_reach_bind hopen (reaches_modify_bind ?_))
  refine reaches_reach_bind (hopened _ _ rfl (by simp)) ?_
  refine reaches_reach_bind (hopened _ _ rfl (by simp)) ?_
  refine reaches_modify_bind (reaches_modify_bind ?_)
  exact reaches_reach_bind (hopened _ _ rfl (by simp [Filing.mapConversation])) h

/-- The steps of an article that is written anew. -/
theorem reaches_updateFiled {article : Article} {f : String → Stateful Filing FilingStep Unit}
    (hopen : R .openFile s) (hopened : ∀ step t, step.opened = true → t.files ≠ [] → R step t)
    (h : Reaches fails [] (f article.id)
      ⟨{ s.pending with conversation := { s.pending.conversation with updatedAt := run.now } },
        s.files ++ [(userId, article.filePath)]⟩ Q R) :
    Reaches fails [.openFile, .writeFile, .index]
      (updateFiled fails userId run article >>= f) s Q R := by
  simp only [updateFiled, writeFiled, bind_assoc, pure_bind]
  refine reaches_reach_bind hopen (reaches_modify_bind ?_)
  refine reaches_reach_bind (hopened _ _ rfl (by simp)) (reaches_modify_bind ?_)
  exact reaches_reach_bind (hopened _ _ rfl (by simp [Filing.mapConversation])) h

/-- The steps of an automatic file-back, what those that fail leave, and that of one that
succeeds. -/
theorem reaches_fileAutomatically (env : QaEnv) (userId : String) (result : QueryResult)
    (run : Surroundings) (fails : FilingStep → Bool) (p : Pending) :
    Reaches fails (filingSteps p) (fileAutomatically env userId result run fails) ⟨p, []⟩
      (fun _ t ↦ fileBackThread { p with conversation := { p.conversation with
          title := deriveAutoFileBackTitle env result } } userId
        { run with fileBackFails := false } = .ok t.pending)
      (Leaves env result p) := by
  have hopened : ∀ step t, step.opened = true → t.files ≠ [] → Leaves env result p step t := by
    intro step t hstep hfiles
    rw [Leaves, if_pos hstep]
    exact hfiles
  simp only [fileAutomatically, fileThread, filingSteps, bind_assoc]
  refine reaches_reach_bind rfl (reaches_modify_bind ?_)
  refine reaches_reach_bind rfl (reaches_reach_bind rfl (reaches_reach_bind rfl ?_))
  simp only [findFiled, bind_assoc]
  refine reaches_get_bind ?_
  cases hid : p.conversation.filedArticleId with
  | none =>
    simp only [Filing.mapConversation, filedArticle, hid, Option.bind_none, Option.isSome_none,
      Bool.false_eq_true, if_false, pure_bind, List.cons_append, List.nil_append]
    refine reaches_createFiled ?_ hopened (reaches_modify ?_)
    · simp [Leaves, FilingStep.opened, leftPending, filedArticle, hid]
    · simp [fileBackThread]
  | some id =>
    simp only [Filing.mapConversation, filedArticle, hid, Option.bind_some, Option.isSome_some,
      if_true, bind_assoc, List.cons_append, List.nil_append]
    refine reaches_reach_bind (by simp [Leaves, FilingStep.opened, leftPending, hid]) ?_
    cases harticle : p.articles.find? (·.id = id) with
    | none =>
      simp only [Option.isSome_none, Bool.false_eq_true, if_false, bind_assoc, pure_bind,
        List.cons_append, List.nil_append]
      refine reaches_modify_bind (reaches_createFiled ?_ hopened (reaches_modify ?_))
      · simp [Leaves, FilingStep.opened, leftPending, filedArticle, hid, harticle,
          Filing.mapConversation]
      · simp [fileBackThread, harticle, Filing.mapConversation]
    | some article =>
      simp only [Option.isSome_some, if_true, pure_bind, List.nil_append]
      refine reaches_updateFiled ?_ hopened (reaches_modify ?_)
      · simp [Leaves, FilingStep.opened, leftPending, filedArticle, hid, harticle]
      · simp [fileBackThread, harticle]

/-- A reference to an article stays unless the article is missing. -/
theorem filedArticle_bind_eq_iff (p : Pending) :
    ((filedArticle p).bind fun _ ↦ p.conversation.filedArticleId) =
        p.conversation.filedArticleId ↔
      ∀ id, p.conversation.filedArticleId = some id → ∃ x ∈ p.articles, x.id = id := by
  unfold filedArticle
  cases p.conversation.filedArticleId with
  | none => simp
  | some id =>
    simp only [Option.bind_some, Option.some.injEq, forall_eq']
    cases harticle : p.articles.find? (·.id = id) with
    | none => simpa using harticle
    | some x =>
      have hid : x.id = id := by simpa using List.find?_some harticle
      exact iff_of_true rfl ⟨x, List.mem_of_find?_eq_some harticle, hid⟩

private theorem leftPending_eq_iff (hscore : step ≠ .score) (hopened : step.opened = false) :
    leftPending env result p step = p ↔ step = .derive ∨
      (deriveAutoFileBackTitle env result = p.conversation.title ∧
        (step = .openFile → ∀ id, p.conversation.filedArticleId = some id →
          ∃ x ∈ p.articles, x.id = id)) := by
  rw [← filedArticle_bind_eq_iff]
  obtain ⟨query, ⟨id, owner, title, updatedAt, filed, parent, forkedAt⟩, articles⟩ := p
  cases step <;> simp_all [leftPending, FilingStep.opened]

end Filing

section Persisting

variable {env : QaEnv} {db : Db} {userId : String} {request : QueryRequest}
  {result : QueryResult} {ctx : PreparedContext} {run : Surroundings} {faults : FilingFaults}
  {step : FilingStep} {p p' : Pending}

private theorem commitPending_eq (db : Db) (ctx : PreparedContext) (run : Surroundings)
    (p : Pending) :
    (commitPending db ctx run p).toOption = if run.commitFails then none else
      some (p.query, p.conversation,
        { conversations := Rows.modify (·.id = ctx.conversation.id) (fun _ ↦ p.conversation)
            db.conversations
          queries := db.queries ++ [p.query]
          articles := p.articles }) := by
  unfold commitPending commit
  split <;> rfl

/-- Two requests persist the same rows only if these were pending. -/
theorem commitPending_eq_iff :
    (commitPending db ctx run p').toOption = (commitPending db ctx run p).toOption ↔
      run.commitFails = true ∨ p' = p := by
  rw [commitPending_eq, commitPending_eq]
  cases run.commitFails with
  | true => simp
  | false =>
    obtain ⟨query, conversation, articles⟩ := p
    obtain ⟨query', conversation', articles'⟩ := p'
    simp only [Bool.false_eq_true, if_false, Option.some.injEq, Prod.mk.injEq, Db.mk.injEq,
      false_or, Pending.mk.injEq]
    constructor
    · rintro ⟨rfl, rfl, -, -, rfl⟩
      exact ⟨rfl, rfl, rfl⟩
    · rintro ⟨rfl, rfl, rfl⟩
      exact ⟨rfl, rfl, rfl, rfl, rfl⟩

/-- The request without an automatic file-back. -/
theorem persistAnswer_without
    (hmanual : manualFileBack (pendingAnswer db userId request result ctx run) userId request
      result run = .ok p) :
    persistAnswer env.withoutAutoFileBack db userId request result ctx run faults =
      ⟨commitPending db ctx run p, []⟩ := by
  unfold persistAnswer
  rw [hmanual]
  rfl

private theorem none_eq_commitPending_iff :
    none = (commitPending db ctx run p).toOption ↔ run.commitFails = true := by
  rw [commitPending_eq]
  cases run.commitFails <;> simp

/-- A request that scores its answer without failing and whose automatic file-back stops. -/
theorem unaffected_iff_of_step (hscore : step ≠ .score)
    (hfails : (env.autoFileBackEnabled && faults.fails .score) = false)
    (hauto : (autoFilesBack env db.articles userId result && !filesBack request result) = true)
    (hstep : (filingSteps (pendingAnswer db userId request result ctx run)).find? faults.fails =
      some step) :
    Unaffected env db userId request result ctx run faults ↔
      LeavesNothing env db result ctx run faults step := by
  have hnot : filesBack request result = false := by
    simp only [Bool.and_eq_true, Bool.not_eq_true'] at hauto
    exact hauto.2
  have hmanual : manualFileBack (pendingAnswer db userId request result ctx run) userId request
      result run = .ok (pendingAnswer db userId request result ctx run) :=
    if_neg (by simp [hnot])
  have hreaches := reaches_fileAutomatically env userId result run faults.fails
    (pendingAnswer db userId request result ctx run)
  rw [Reaches, hstep] at hreaches
  obtain ⟨t, hexec, hleaves⟩ := hreaches
  have hpersist : persistAnswer env db userId request result ctx run faults =
      if step.blocks faults.aborts then ⟨.error (.runtimeError "pending rollback"), t.files⟩
      else ⟨commitPending db ctx run t.pending, t.files⟩ := by
    unfold persistAnswer
    rw [hmanual]
    dsimp only
    rw [if_neg (by simp [hfails]), if_pos (by exact hauto), hexec]
  unfold Unaffected LeavesNothing
  rw [hpersist, persistAnswer_without hmanual]
  dsimp only
  unfold Leaves at hleaves
  cases hopened : step.opened with
  | true =>
    -- The file that was opened stays.
    rw [if_pos hopened] at hleaves
    split <;> simp [hleaves]
  | false =>
    rw [if_neg (by simp [hopened])] at hleaves
    rw [hleaves]
    cases hblocks : step.blocks faults.aborts with
    | true =>
      have hderive : step ≠ .derive := by
        rintro rfl
        cases hblocks
      simp only [if_true, and_true, true_and, hderive, reduceCtorEq, false_and, and_false, or_false]
      exact none_eq_commitPending_iff
    | false =>
      simp only [Bool.false_eq_true, if_false, and_true, true_and]
      rw [commitPending_eq_iff, leftPending_eq_iff hscore hopened]
      simp [hscore, pendingAnswer]

end Persisting

/-- The request whose file-back fails or not as a whole is one whose file-back fails while it loads
the thread. -/
theorem persistQuery_eq (env : QaEnv) (db : Db) (userId : String) (request : QueryRequest)
    (result : QueryResult) (ctx : PreparedContext) (run : Surroundings) :
    persistQuery env db userId request result ctx run =
      (persistAnswer env db userId request result ctx run
        ⟨fun step ↦ run.fileBackFails && step = .load, false⟩).outcome := by
  unfold persistQuery persistAnswer
  cases manualFileBack (pendingAnswer db userId request result ctx run) userId request result
    run with
  | error e => rfl
  | ok p =>
    dsimp only
    rw [if_neg (by simp)]
    show commitPending db ctx run (autoFileBack env p userId result (filesBack request result)
      run) = _
    unfold autoFileBack
    split
    next hauto =>
      have hreaches := reaches_fileAutomatically env userId result run
        (fun step ↦ run.fileBackFails && step = .load) p
      unfold Reaches at hreaches
      cases hfails : run.fileBackFails with
      | true =>
        have hfind : (filingSteps p).find? (fun step ↦ true && step = .load) = some .load := by
          simp [filingSteps]
        rw [hfails, hfind] at hreaches
        obtain ⟨t, hexec, hleaves⟩ := hreaches
        cases hleaves
        rw [hexec]
        unfold fileBackThread
        simp [hfails, FilingStep.blocks, leftPending]
      | false =>
        have hfind : (filingSteps p).find? (fun step ↦ false && step = .load) = none := by
          simp
        rw [hfails, hfind] at hreaches
        obtain ⟨_, t, hexec, hfiled⟩ := hreaches
        have hrun : { run with fileBackFails := false } = run := by rw [← hfails]
        rw [hrun] at hfiled
        dsimp only at hfiled
        rw [hexec]
        dsimp only
        rw [hfiled]
    next => rfl

/-- An automatic file-back that fails leaves the request as it is without one exactly when the
step it fails at leaves nothing behind. -/
theorem failed_filing_unaffected_iff (env : QaEnv) (db : Db) (userId : String)
    (request : QueryRequest) (result : QueryResult) (ctx : PreparedContext)
    (run : Surroundings) (faults : FilingFaults) (step : FilingStep)
    (hfailed : failedStep env db userId request result ctx run faults = some step) :
    Unaffected env db userId request result ctx run faults ↔
      LeavesNothing env db result ctx run faults step := by
  unfold failedStep at hfailed
  simp only [Option.ite_none_left_eq_some] at hfailed
  obtain ⟨hmanual, hfailed⟩ := hfailed
  split at hfailed
  next hscore =>
    cases hfailed
    obtain ⟨p, hp⟩ : ∃ p, manualFileBack (pendingAnswer db userId request result ctx run) userId
        request result run = .ok p := by
      rcases manualFileBack_cases userId request run
        (pendingAnswer db userId request result ctx run) result with ⟨hfails, -⟩ | ⟨-, p, hp, -⟩
      · exact absurd hfails (by simpa using hmanual)
      · exact ⟨p, hp⟩
    unfold Unaffected LeavesNothing
    rw [persistAnswer_without hp]
    unfold persistAnswer
    rw [hp]
    dsimp only
    rw [if_pos hscore]
    simp only [and_true, FilingStep.opened, true_and, reduceCtorEq, ne_eq, not_true_eq_false,
      false_and, or_false]
    exact none_eq_commitPending_iff
  next hscore =>
    split at hfailed
    next hauto =>
      refine unaffected_iff_of_step ?_ (by simpa using hscore) hauto hfailed
      rintro rfl
      have hmem := List.mem_of_find?_eq_some hfailed
      unfold filingSteps at hmem
      split at hmem <;> split at hmem <;> simp at hmem
    next => cases hfailed

instance (env : QaEnv) (db : Db) (userId : String) (request : QueryRequest)
    (result : QueryResult) (ctx : PreparedContext) (run : Surroundings)
    (faults : FilingFaults) :
    Decidable (Unaffected env db userId request result ctx run faults) :=
  inferInstanceAs (Decidable (_ ∧ _))

/-- Settings under which an answer with two sources is filed back by itself. -/
def filingEnv : QaEnv :=
  { sampleEnv with
    autoFileBackEnabled := true, autoFileBackMinWords := 1, autoFileBackMinSources := 2 }

/-- An answer with two sources and a title. -/
def filingResult : QueryResult := ⟨"Yes.", "high", ["A", "B"], [], some "Acme"⟩

/-- A conversation of user `u` without turns. -/
def ownPlans : Conversation := ⟨"c", "u", "Plans", 0, none, none, none⟩

theorem failed_filing_unaffected_derive :
    Unaffected filingEnv ⟨[ownPlans], [], []⟩ "u" sampleRequest filingResult
      ⟨ownPlans, 0, [], []⟩ sampleRun ⟨(· = .derive), false⟩ :=
  (failed_filing_unaffected_iff filingEnv ⟨[ownPlans], [], []⟩ "u" sampleRequest filingResult
    ⟨ownPlans, 0, [], []⟩ sampleRun ⟨(· = .derive), false⟩ .derive (by decide)).mpr
    ⟨rfl, .inr (.inl rfl)⟩

/-- The file-back of this answer fails at the step and does not leave the request alone. -/
def Spoils (step : FilingStep) : Prop :=
  failedStep filingEnv ⟨[ownPlans], [], []⟩ "u" sampleRequest filingResult ⟨ownPlans, 0, [], []⟩
      sampleRun ⟨(· = step), false⟩ = some step ∧
    ¬ Unaffected filingEnv ⟨[ownPlans], [], []⟩ "u" sampleRequest filingResult
      ⟨ownPlans, 0, [], []⟩ sampleRun ⟨(· = step), false⟩

instance (step : FilingStep) : Decidable (Spoils step) := inferInstanceAs (Decidable (_ ∧ _))

/-- A failed flush fails the request, a file that cannot be opened leaves the title, and what
fails behind it leaves a file. -/
theorem failed_filing_not_unaffected :
    Spoils .flush ∧ Spoils .openFile ∧ Spoils .writeFile ∧ Spoils .insert ∧ Spoils .index := by
  decide +kernel

end WikiMind.Qa
