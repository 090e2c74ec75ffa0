import WikiMind.Base.Transaction
import WikiMind.Llm.Router
import WikiMind.Qa.Threads
import WikiMind.Quota.QueryQuota

/-!
# Failing questions

The routes `ask`, `ask_stream` and `fork_conversation` (`api/routes/query.py`) with the
session of the request: the quota check, the agent and the commits between them. A request
can be stopped at every point of the list below, by an exception or because its task is
cancelled. Closing the session drops what is not committed. The router keeps the cost of a
blocking call in a session of its own, which is left out.
-/

namespace WikiMind.Qa

open WikiMind.Base WikiMind.Llm Session

/-- How a request is stopped. -/
inductive Stop where
  | raised (e : Exc)
  | cancelled
  deriving DecidableEq, Repr

/-- Where a request can be stopped. -/
inductive Point where
  | checkQuota | prepareContext | flushFork | callModel | chunk (index : Nat) | commitCost
  | parseReply | fileBack | commit | appendLogEntry | refresh | buildCitations | countForks
  | respond
  deriving DecidableEq, Repr

/-- The tables a request writes: those of the agent, `query_count` by user and date, and the
cost log. -/
structure Store where
  db : Db
  counts : String → Nat → Option Nat
  costLogs : List CostLog

/-- The surroundings of a request: those of the agent, the date, the clock, what the
provider reports of a completed stream, and where the request is stopped. An `OSError` of
the activity log is caught and no stop. -/
structure Run extends Surroundings where
  today : Nat
  clock : DateTime
  streamResult : Option CompletionResponse
  stopAt : Point → Option Stop

/-- A handler of the question routes. -/
abbrev Serving (α : Type) := Handler Store Stop α

/-- What can raise in the modelled code. -/
def orRaise {α : Type} (x : Except Exc α) : Serving α := Stateful.ofExcept (x.mapError .raised)

/-- A point at which the request can be stopped. -/
def Run.point (run : Run) (p : Point) : Serving Unit :=
  match run.stopAt p with
  | none => pure ()
  | some stop => throw stop

/-- The count of a user and a date; a missing row counts nothing. -/
def Store.count (store : Store) (userId : String) (day : Nat) : Nat :=
  (store.counts userId day).getD 0

/-- The upsert and the update of `check_query_quota`. -/
def Store.raiseCount (userId : String) (day : Nat) (store : Store) : Store :=
  { store with
    counts := fun u d ↦
      if u = userId ∧ d = day then some (store.count userId day + 1) else store.counts u d }

/-- `check_query_quota` where there is a plan: `services/quota.py:183`. -/
def chargeQuery (maxQueriesPerDay : Option Nat) (userId : String) (run : Run) :
    Serving Unit := do
  run.point .checkQuota
  let store ← read
  let charged ← orRaise (Quota.checkQueryQuota maxQueriesPerDay (store.count userId run.today))
  if charged then write (Store.raiseCount userId run.today)

/-- `_prepare_context`; a new conversation is flushed and not committed. -/
def prepare (env : QaEnv) (userId : String) (request : QueryRequest) (run : Run) :
    Serving PreparedContext := do
  let store ← read
  let (ctx, db) ← orRaise (prepareContext env store.db userId request run.toSurroundings)
  write fun store ↦ { store with db }
  run.point .prepareContext
  return ctx

/-- The prompt of a prepared question. -/
def PreparedContext.prompt (ctx : PreparedContext) (env : QaEnv) (request : QueryRequest) :
    CompletionRequest :=
  buildCompletionRequest env request.question ctx.wikiContext ctx.priorTurns

/-- The writes of `_persist_query` up to its commit. -/
def stageAnswer (env : QaEnv) (userId : String) (request : QueryRequest) (result : QueryResult)
    (ctx : PreparedContext) (run : Run) : Serving (Query × Conversation) := do
  run.point .fileBack
  let store ← read
  let (query, conversation, db) ← orRaise
    (persistQuery env store.db userId request result ctx run.toSurroundings)
  write fun store ↦ { store with db }
  run.point .commit
  return (query, conversation)

/-- `_persist_query`: `engine/qa_agent.py:444`. -/
def persist (env : QaEnv) (userId : String) (request : QueryRequest) (result : QueryResult)
    (ctx : PreparedContext) (run : Run) : Serving (Query × Conversation) := do
  let answered ← stageAnswer env userId request result ctx run
  Session.commit
  run.point .appendLogEntry
  run.point .refresh
  return answered

/-- The answer to a prepared question: `engine/qa_agent.py:577–586`. -/
def askModel (env : QaEnv) (request : QueryRequest) (ctx : PreparedContext) (run : Run) :
    Serving QueryResult :=
  if ctx.wikiContext = [] then pure noContextResult
  else do
    run.point .callModel
    orRaise (queryLlm env (ctx.prompt env request) run.toSurroundings)

/-- `QAAgent.answer`: `engine/qa_agent.py:551`. -/
def answer (env : QaEnv) (userId : String) (request : QueryRequest) (run : Run) :
    Serving (Query × Conversation) := do
  let ctx ← prepare env userId request run
  let result ← askModel env request ctx run
  persist env userId request result ctx run

/-- The route `ask` and its session, which commits at the end: `api/routes/query.py:39`,
`database.py:131`. -/
def handleAsk (env : QaEnv) (maxQueriesPerDay : Option Nat) (userId : String)
    (request : QueryRequest) (run : Run) : Serving (Query × Conversation) := do
  chargeQuery maxQueriesPerDay userId run
  let answered ← answer env userId request run
  run.point .buildCitations
  run.point .respond
  Session.commit
  return answered

/-- The question a fork asks: `services/query.py:523`. -/
def ForkRequest.question (request : ForkRequest) (fork : Conversation) : QueryRequest :=
  ⟨request.newQuestion, false, some fork.id⟩

/-- The check of the turn a fork starts at: `services/query.py:507`. -/
def checkTurnIndex (request : ForkRequest) : Except Exc Unit :=
  if request.turnIndex < 0 then .error (.httpException 400 "turn_index must be >= 0") else .ok ()

/-- Add the row of a conversation. -/
def Db.addConversation (db : Db) (conversation : Conversation) : Db :=
  { db with conversations := db.conversations ++ [conversation] }

/-- The checks of `fork_conversation`, and the row of the fork: `services/query.py:497–520`. -/
def openFork (env : QaEnv) (userId conversationId : String) (request : ForkRequest) (run : Run) :
    Serving Conversation := do
  let store ← read
  let _ ← orRaise (ownConversation store.db userId conversationId)
  orRaise (checkTurnIndex request)
  let fork := forkRow env userId conversationId request run.toSurroundings
  write fun store ↦ { store with db := store.db.addConversation fork }
  run.point .flushFork
  return fork

/-- The route of `fork_conversation`: `api/routes/query.py:185`, `services/query.py:471`. It
checks no quota. -/
def handleFork (env : QaEnv) (userId conversationId : String) (request : ForkRequest)
    (run : Run) : Serving (Query × Conversation) := do
  let fork ← openFork env userId conversationId request run
  let answered ← answer env userId (request.question fork) run
  run.point .buildCitations
  run.point .countForks
  run.point .respond
  Session.commit
  return answered

/-- Hand the chunks of a stream to the client, one after the other. -/
def yieldChunks (run : Run) : Nat → List String → Serving Unit
  | _, [] => pure ()
  | index, _ :: chunks => do
    run.point (.chunk index)
    yieldChunks run (index + 1) chunks

/-- The cost entry of a completed stream: `engine/qa_agent.py:629–638`. -/
def costEntry (userId : String) (response : CompletionResponse) (run : Run) : CostLog :=
  { userId, provider := response.providerUsed, model := response.modelUsed, taskType := .qa
    inputTokens := response.inputTokens, outputTokens := response.outputTokens
    costUsd := response.costUsd, latencyMs := response.latencyMs, createdAt := run.clock }

/-- Add the cost entry to the session: `engine/qa_agent.py:627–639`. -/
def stageCost (userId : String) (response : CompletionResponse) (run : Run) : Serving Unit := do
  write fun store ↦ { store with costLogs := store.costLogs ++ [costEntry userId response run] }
  run.point .commitCost

/-- The stream of a prepared question until the provider is done: its chunks. -/
def streamModel (env : QaEnv) (request : QueryRequest) (ctx : PreparedContext) (run : Run) :
    Serving (List String) := do
  run.point .callModel
  match run.stream (ctx.prompt env request) with
  | .refused detail => throw (.raised (.runtimeError detail))
  | .broken chunks detail => do
    yieldChunks run 0 chunks
    throw (.raised (.runtimeError detail))
  | .completed chunks => do
    yieldChunks run 0 chunks
    return chunks

/-- What follows the cost entry: the text is parsed and persisted, and the last event is
sent. `engine/qa_agent.py:643–683`, `services/query.py:293–300`. -/
def finishStream (env : QaEnv) (userId : String) (request : QueryRequest) (ctx : PreparedContext)
    (chunks : List String) (run : Run) : Serving (Query × Conversation) := do
  run.point .parseReply
  let result := (env.parseStream (String.join chunks)).getD errorResult
  let answered ← persist env userId request result ctx run
  run.point .buildCitations
  run.point .respond
  return answered

/-- The answer without context, as one chunk: `engine/qa_agent.py:620–624`. -/
def streamNoContext (env : QaEnv) (userId : String) (request : QueryRequest)
    (ctx : PreparedContext) (run : Run) : Serving (Query × Conversation) := do
  yieldChunks run 0 [noContextResult.answer]
  let answered ← persist env userId request noContextResult ctx run
  run.point .buildCitations
  run.point .respond
  return answered

/-- What follows the last chunk. The cost a provider reports is committed first:
`engine/qa_agent.py:634–683`. -/
def completeStream (env : QaEnv) (userId : String) (request : QueryRequest)
    (ctx : PreparedContext) (run : Run) (chunks : List String) : Serving (Query × Conversation) :=
  match run.streamResult with
  | none => finishStream env userId request ctx chunks run
  | some response => do
    stageCost userId response run
    Session.commit
    finishStream env userId request ctx chunks run

/-- `answer_stream` on a prepared question: `engine/qa_agent.py:620–683`. -/
def streamAnswer (env : QaEnv) (userId : String) (request : QueryRequest) (run : Run)
    (ctx : PreparedContext) : Serving (Query × Conversation) :=
  if ctx.wikiContext = [] then streamNoContext env userId request ctx run
  else do
    let chunks ← streamModel env request ctx run
    completeStream env userId request ctx run chunks

/-- The event generator of `ask_stream`: `api/routes/query.py:76`, `services/query.py:264`,
`engine/qa_agent.py:590`. An exception becomes the error event. -/
def handleAskStream (env : QaEnv) (maxQueriesPerDay : Option Nat) (userId : String)
    (request : QueryRequest) (run : Run) : Serving (Query × Conversation) := do
  chargeQuery maxQueriesPerDay userId run
  let ctx ← prepare env userId request run
  streamAnswer env userId request run ctx

/-- A request to one of the three routes. -/
inductive QuestionRoute where
  | ask (request : QueryRequest)
  | askStream (request : QueryRequest)
  | fork (conversationId : String) (request : ForkRequest)
  deriving DecidableEq, Repr

/-- Serve a request. -/
def handle (env : QaEnv) (maxQueriesPerDay : Option Nat) (userId : String) (run : Run) :
    QuestionRoute → Serving (Query × Conversation)
  | .ask request => handleAsk env maxQueriesPerDay userId request run
  | .askStream request => handleAskStream env maxQueriesPerDay userId request run
  | .fork conversationId request => handleFork env userId conversationId request run

end WikiMind.Qa
