import WikiMind.Qa.Agent

/-!
# Conversations of other users

A request names its conversation by id, and `_get_or_create_conversation` looks it up by id
alone. So a request on a conversation of another user reads and extends it like one of the
asking user's own; it only stays without effect where nothing was read and the stream dies
before its first chunk.
-/

namespace WikiMind.Qa

open WikiMind.Base WikiMind.Llm

/-- The tables as if a conversation did not exist: without it and its turns. -/
def Db.without (db : Db) (id : String) : Db :=
  { db with
    conversations := db.conversations.filter (·.id ≠ id)
    queries := db.queries.filter (·.conversationId ≠ id) }

/-- A request left a conversation alone: the prompt has no turn of its thread, its row and
its turns are the same after it, and the response is the one given where it does not
exist. -/
structure LeftAlone {ρ : Type} (db : Db) (id : String) (outcome absent : Outcome ρ) : Prop where
  prompt : outcome.promptTurns = []
  row : outcome.db.conversations.filter (·.id = id) = db.conversations.filter (·.id = id)
  turns : outcome.db.queries.filter (·.conversationId = id) =
    db.queries.filter (·.conversationId = id)
  response : outcome.response = absent.response

/-- The prior turns a request on a conversation loads. -/
def priorTurnsOf (env : QaEnv) (db : Db) (conversation : Conversation) : List Query :=
  loadPriorTurns env db conversation (nextTurnIndex db conversation.id)

/-- Persisting an answer raises: the commit does, or a file-back on request. -/
def PersistFails (request : QueryRequest) (result : QueryResult) (run : Surroundings) : Prop :=
  run.commitFails = true ∨ (filesBack request result = true ∧ run.fileBackFails = true)

/-- The stream ends in an error before its first chunk. -/
def DiesSilently (env : QaEnv) (request : QueryRequest) (run : Surroundings) :
    StreamReply → Prop
  | .refused _ => True
  | .broken chunks _ => chunks = []
  | .completed chunks =>
    chunks = [] ∧ PersistFails request ((env.parseStream "").getD errorResult) run

section Isolation

variable {env : QaEnv} {db : Db} {userId : String} {request : QueryRequest}
  {run : Surroundings} {conversation : Conversation}

/-- A conversation that does not exist is not found. -/
theorem prepareContext_without (hid : request.conversationId = some conversation.id) :
    prepareContext env (db.without conversation.id) userId request run =
      .error (.notFound "Conversation not found") := by
  have hnone : (db.without conversation.id).conversation conversation.id = none := by
    unfold Db.conversation Db.without
    rw [List.find?_eq_none]
    intro c hc
    have hne := (List.mem_filter.mp hc).2
    simpa using hne
  unfold prepareContext getOrCreateConversation
  rw [hid]
  simp only [hnone]
  rfl

/-- A conversation that exists is taken, whoever owns it. -/
theorem prepareContext_of_found (env : QaEnv) (userId : String) (run : Surroundings)
    (hid : request.conversationId = some conversation.id)
    (hfound : db.conversation conversation.id = some conversation) :
    prepareContext env db userId request run =
      .ok (⟨conversation, nextTurnIndex db conversation.id, priorTurnsOf env db conversation,
        retrieveContext env db userId request.question⟩, db) := by
  unfold prepareContext getOrCreateConversation
  rw [hid]
  simp only [hfound]
  rfl

/-- A file-back raises where it fails, and is no missing conversation. -/
theorem fileBackThread_cases (userId : String) (run : Surroundings) (p : Pending) :
    (run.fileBackFails = true ∧ fileBackThread p userId run = .error (.runtimeError "file back")) ∨
    (run.fileBackFails = false ∧ ∃ filed, fileBackThread p userId run = .ok filed ∧
      filed.query.conversationId = p.query.conversationId) := by
  unfold fileBackThread
  cases run.fileBackFails with
  | true => exact .inl ⟨rfl, rfl⟩
  | false =>
    right
    refine ⟨rfl, ?_⟩
    rw [if_neg (by simp)]
    split
    · exact ⟨_, rfl, rfl⟩
    · exact ⟨_, rfl, rfl⟩

/-- An automatic file-back keeps the turn in its conversation. -/
theorem autoFileBack_conversationId (p : Pending) (result : QueryResult) (manual : Bool) :
    (autoFileBack env p userId result manual run).query.conversationId =
      p.query.conversationId := by
  unfold autoFileBack
  split
  · dsimp only
    split
    · next filed hfiled =>
      rcases fileBackThread_cases userId run
        { p with conversation := { p.conversation with
            title := deriveAutoFileBackTitle env result } } with ⟨_, herror⟩ | ⟨_, _, hok, hid⟩
      · rw [hfiled] at herror
        cases herror
      · rw [hfiled] at hok
        cases hok
        exact hid
    · rfl
  · rfl

/-- The file-back on request raises where it is asked for and fails. -/
theorem manualFileBack_cases (userId : String) (request : QueryRequest) (run : Surroundings)
    (p : Pending) (result : QueryResult) :
    ((filesBack request result = true ∧ run.fileBackFails = true) ∧
      manualFileBack p userId request result run = .error (.runtimeError "file back")) ∨
    (¬ (filesBack request result = true ∧ run.fileBackFails = true) ∧
      ∃ filed, manualFileBack p userId request result run = .ok filed ∧
        filed.query.conversationId = p.query.conversationId) := by
  unfold manualFileBack
  by_cases hfiles : filesBack request result = true
  · rw [if_pos hfiles]
    rcases fileBackThread_cases userId run p with
      ⟨hfails, herror⟩ | ⟨hfails, filed, hok, hid⟩
    · exact .inl ⟨⟨hfiles, hfails⟩, herror⟩
    · exact .inr ⟨by simp [hfails], filed, hok, hid⟩
  · rw [if_neg hfiles]
    exact .inr ⟨fun h ↦ hfiles h.1, p, rfl, rfl⟩

/-- All persisting an answer can do: raise, for a reason of its own, or append one turn to
the conversation of its context. -/
theorem persistQuery_cases (env : QaEnv) (db : Db) (userId : String) (request : QueryRequest)
    (result : QueryResult) (ctx : PreparedContext) (run : Surroundings) :
    (PersistFails request result run ∧ ∃ detail,
      persistQuery env db userId request result ctx run = .error (.runtimeError detail)) ∨
    (¬ PersistFails request result run ∧ ∃ query conv db',
      persistQuery env db userId request result ctx run = .ok (query, conv, db') ∧
      db'.queries = db.queries ++ [query] ∧ query.conversationId = ctx.conversation.id) := by
  unfold PersistFails persistQuery
  rcases manualFileBack_cases userId request run
      (pendingAnswer db userId request result ctx run) result with
    ⟨hfails, herror⟩ | ⟨hfiled, filed, hok, hid⟩
  · rw [herror]
    exact .inl ⟨.inr hfails, "file back", rfl⟩
  · rw [hok]
    cases hcommit : run.commitFails with
    | true =>
      left
      refine ⟨.inl rfl, "commit", ?_⟩
      simp [commit, hcommit, bind, Except.bind]
    | false =>
      right
      let p := autoFileBack env filed userId result (filesBack request result) run
      have hturn : p.query.conversationId = ctx.conversation.id :=
        (autoFileBack_conversationId filed result _).trans hid
      have hdone : commit run = .ok () := by simp [commit, hcommit]
      refine ⟨by simpa using hfiled, p.query, p.conversation,
        ⟨Rows.modify (·.id = ctx.conversation.id) (fun _ ↦ p.conversation) db.conversations,
          db.queries ++ [p.query], p.articles⟩, ?_, rfl, hturn⟩
      rw [hdone]
      rfl

/-- Persisting an answer appends a turn to the conversation, or raises and leaves the tables
before it; what it raises is no missing conversation. -/
theorem respond_cases (env : QaEnv) (before db : Db) (userId : String) (request : QueryRequest)
    (result : QueryResult) (ctx : PreparedContext) (promptTurns : List Query)
    (run : Surroundings) :
    (PersistFails request result run ∧ ∃ detail,
      respond env before db userId request result ctx promptTurns run =
        ⟨.error (.runtimeError detail), before, promptTurns⟩) ∨
    (¬ PersistFails request result run ∧ ∃ query conv db',
      respond env before db userId request result ctx promptTurns run =
        ⟨.ok (query, conv), db', promptTurns⟩ ∧
      db'.queries.filter (·.conversationId = ctx.conversation.id) ≠
        db.queries.filter (·.conversationId = ctx.conversation.id)) := by
  unfold respond
  rcases persistQuery_cases env db userId request result ctx run with
    ⟨hfails, detail, herror⟩ | ⟨hok, query, conv, db', hpersist, hqueries, hid⟩
  · rw [herror]
    exact .inl ⟨hfails, detail, rfl⟩
  · rw [hpersist]
    refine .inr ⟨hok, query, conv, db', rfl, fun hsame ↦ ?_⟩
    rw [hqueries, List.filter_append] at hsame
    have hlength := congrArg List.length hsame
    simp [hid] at hlength

private theorem respond_found {before db : Db} {result : QueryResult} {ctx : PreparedContext}
    {promptTurns : List Query} : (respond env before db userId request result ctx promptTurns
      run).response ≠ .error (.notFound "Conversation not found") := by
  intro h
  rcases respond_cases env before db userId request result ctx promptTurns run with
    ⟨_, detail, heq⟩ | ⟨_, query, conv, db', heq, _⟩
  · rw [heq] at h
    cases h
  · rw [heq] at h
    cases h

/-- A blocking request never leaves a conversation alone: it answers, or raises something
else than for a conversation that does not exist. -/
theorem not_leftAlone_ask (hid : request.conversationId = some conversation.id)
    (hfound : db.conversation conversation.id = some conversation) :
    ¬ LeftAlone db conversation.id (ask env db userId request run)
      (ask env (db.without conversation.id) userId request run) := by
  intro h
  have hresponse := h.response
  unfold ask at hresponse
  rw [prepareContext_without hid, prepareContext_of_found env userId run hid hfound] at hresponse
  dsimp only at hresponse
  split at hresponse
  · exact respond_found hresponse
  · split at hresponse
    · next e hcall =>
      cases hresponse
      unfold queryLlm at hcall
      split at hcall
      · cases hcall
      · cases hcall
      · cases hcall
    · exact respond_found hresponse

private theorem chunks_eq_nil {chunks : List String} {last e : Event} :
    chunks.map Event.chunk ++ [last] = [e] ↔ chunks = [] ∧ last = e := by
  cases chunks with
  | nil => simp
  | cons c rest => cases rest <;> simp

/-- An event stream that ends in one event is the failure of a request alone. -/
theorem response_toEvents {chunks : List String}
    {o : Outcome (Except Exc (Query × Conversation))} :
    (o.toEvents chunks).response = [streamFailed] ↔
      chunks = [] ∧ ∃ e, o.response = .error e := by
  unfold Outcome.toEvents
  cases o.response with
  | error e => simp
  | ok answer =>
    dsimp only
    rw [chunks_eq_nil]
    simp [streamFailed]

/-- A streamed request leaves a conversation alone precisely when the wiki gives context, no
prior turn is loaded, and the stream dies before its first chunk. -/
theorem leftAlone_askStream_iff (hid : request.conversationId = some conversation.id)
    (hfound : db.conversation conversation.id = some conversation) :
    LeftAlone db conversation.id (askStream env db userId request run)
        (askStream env (db.without conversation.id) userId request run) ↔
      retrieveContext env db userId request.question ≠ [] ∧
        priorTurnsOf env db conversation = [] ∧
        DiesSilently env request run (run.stream (buildCompletionRequest env request.question
          (retrieveContext env db userId request.question)
          (priorTurnsOf env db conversation))) := by
  have habsent : (askStream env (db.without conversation.id) userId request run).response =
      [streamFailed] := by
    unfold askStream
    rw [prepareContext_without hid]
  have hpresent := prepareContext_of_found env userId run hid hfound
  unfold askStream at habsent ⊢
  rw [hpresent]
  by_cases hctx : retrieveContext env db userId request.question = []
  · simp only [hctx, if_true, ne_eq, not_true_eq_false, false_and, iff_false]
    intro h
    have hresponse := h.response.trans habsent
    rw [response_toEvents] at hresponse
    cases hresponse.1
  · simp only [hctx, if_false, ne_eq, not_false_eq_true, true_and]
    generalize run.stream (buildCompletionRequest env request.question
      (retrieveContext env db userId request.question) (priorTurnsOf env db conversation)) = reply
    cases reply with
    | refused detail =>
      constructor
      · exact fun h ↦ ⟨h.prompt, trivial⟩
      · exact fun h ↦ ⟨h.1, rfl, rfl, habsent.symm⟩
    | broken chunks detail =>
      constructor
      · exact fun h ↦ ⟨h.prompt, (chunks_eq_nil.mp (h.response.trans habsent)).1⟩
      · rintro ⟨hprompt, rfl⟩
        exact ⟨hprompt, rfl, rfl, habsent.symm⟩
    | completed chunks =>
      have hempty : chunks = [] → String.join chunks = "" := by
        rintro rfl
        rfl
      rcases respond_cases env db db userId request
          ((env.parseStream (String.join chunks)).getD errorResult)
          ⟨conversation, nextTurnIndex db conversation.id, priorTurnsOf env db conversation,
            retrieveContext env db userId request.question⟩
          (priorTurnsOf env db conversation) run with
        ⟨hfails, cause, heq⟩ | ⟨hok, query, conv, db', heq, _⟩
      · simp only [heq]
        constructor
        · intro h
          obtain ⟨hnil, _⟩ := response_toEvents.mp (h.response.trans habsent)
          rw [hempty hnil] at hfails
          exact ⟨h.prompt, hnil, hfails⟩
        · rintro ⟨hprompt, hnil, _⟩
          exact ⟨hprompt, rfl, rfl,
            (response_toEvents.mpr ⟨hnil, _, rfl⟩).trans habsent.symm⟩
      · simp only [heq]
        constructor
        · intro h
          obtain ⟨_, e, herror⟩ := response_toEvents.mp (h.response.trans habsent)
          cases herror
        · rintro ⟨_, hnil, hfails⟩
          rw [hempty hnil] at hok
          exact absurd hfails hok

end Isolation

/-- What a request on a conversation has to be for the conversation to be left alone: a
streamed one whose question finds context in the asking user's wiki, with no prior turn
loaded, and a stream that dies before its first chunk. Whose conversation it is plays no
part. -/
theorem leftAlone_iff {env : QaEnv} {db : Db} {userId : String} {request : QueryRequest}
    {run : Surroundings} {conversation : Conversation}
    (hid : request.conversationId = some conversation.id)
    (hfound : db.conversation conversation.id = some conversation) :
    ¬ LeftAlone db conversation.id (ask env db userId request run)
        (ask env (db.without conversation.id) userId request run) ∧
    (LeftAlone db conversation.id (askStream env db userId request run)
        (askStream env (db.without conversation.id) userId request run) ↔
      retrieveContext env db userId request.question ≠ [] ∧
        priorTurnsOf env db conversation = [] ∧
        DiesSilently env request run (run.stream (buildCompletionRequest env request.question
          (retrieveContext env db userId request.question)
          (priorTurnsOf env db conversation)))) :=
  ⟨not_leftAlone_ask hid hfound, leftAlone_askStream_iff hid hfound⟩

/-- Settings for runs on fixed inputs; every article reads the same. -/
def sampleEnv : QaEnv :=
  { maxPriorTurnsInContext := 5, priorAnswerTruncateChars := 500, conversationTitleMaxChars := 120
    maxTokens := 2048, autoFileBackEnabled := false, autoFileBackMinWords := 200
    autoFileBackMinSources := 3, systemPrompt := "Answer.", lower := id, words := fun s ↦ [s]
    strip := id, slugify := id, readArticle := fun _ _ ↦ "the merger plan"
    parseReply := fun s ↦ some ⟨s, "high", [], [], none⟩
    parseStream := fun s ↦ some ⟨s, "high", [], [], none⟩ }

/-- A model that answers, and refuses streams. -/
def sampleRun : Surroundings :=
  { conversationId := "n", articleId := "n", now := 1, complete := fun _ ↦ .text "Yes."
    stream := fun _ ↦ .refused "down", fileBackFails := false, commitFails := false }

/-- A conversation of user `v`. -/
def foreignConversation : Conversation := ⟨"c", "v", "Plans", 0, none, none, none⟩

/-- User `u` with one article, and the conversation of `v` with these turns. -/
def sampleDb (turns : List Query) : Db :=
  ⟨[foreignConversation], turns, [⟨"a", "u", "s", "T", "p"⟩]⟩

/-- A question of `u` that names the conversation of `v`. -/
def sampleRequest : QueryRequest := ⟨"merger", false, some "c"⟩

/-- A refused stream on a conversation without turns leaves it alone. -/
theorem leftAlone_refused :
    LeftAlone (sampleDb []) "c" (askStream sampleEnv (sampleDb []) "u" sampleRequest sampleRun)
      (askStream sampleEnv ((sampleDb []).without "c") "u" sampleRequest sampleRun) := by
  have hiff := @leftAlone_iff sampleEnv (sampleDb []) "u" sampleRequest sampleRun
    foreignConversation rfl rfl
  exact hiff.2.mpr ⟨by decide, by decide, trivial⟩

/-- A turn of `v`. -/
def foreignTurn : Query :=
  ⟨"v", "Who do we buy?", "Acme.", "high", [], [], false, none, "c", 0⟩

/-- A question of `u` that names the conversation of `v` gets its turn into the prompt, and
is appended to it as the next turn. -/
theorem ask_reads_and_extends :
    let outcome := ask sampleEnv (sampleDb [foreignTurn]) "u" sampleRequest sampleRun
    outcome.promptTurns = [foreignTurn] ∧
      outcome.db.queries.map (fun q ↦ (q.userId, q.conversationId, q.turnIndex)) =
        [("v", "c", 0), ("u", "c", 1)] ∧
      (ask sampleEnv ((sampleDb [foreignTurn]).without "c") "u" sampleRequest sampleRun).response =
        .error (.notFound "Conversation not found") := by
  refine ⟨by decide, by decide, rfl⟩

end WikiMind.Qa
