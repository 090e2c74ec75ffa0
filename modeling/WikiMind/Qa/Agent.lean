import Mathlib.Data.List.Sort
import WikiMind.Base.Rows
import WikiMind.Base.Text
import WikiMind.Llm.Request

/-!
# The question-answering agent

`QAAgent` (`engine/qa_agent.py`): how a question finds its conversation, loads prior turns
and wiki context, becomes a completion request, and how its answer is persisted. A request
runs in one transaction; an exception takes back what it did not commit. Files are read
through the environment, and file-back is modelled by the rows it writes. Citations are
derived from the persisted turn and left out.
-/

namespace WikiMind.Qa

open WikiMind.Base WikiMind.Llm

/-- A conversation: `models/tables/qa.py:11`. -/
structure Conversation where
  id : String
  userId : String
  title : String
  updatedAt : Nat
  filedArticleId : Option String
  parentConversationId : Option String
  forkedAtTurnIndex : Option Nat
  deriving DecidableEq, Repr

/-- A turn of a conversation, with its decoded JSON columns: `models/tables/qa.py:35`. -/
structure Query where
  userId : String
  question : String
  answer : String
  confidence : String
  sourceArticleIds : List String
  relatedArticleIds : List String
  filedBack : Bool
  filedArticleId : Option String
  conversationId : String
  turnIndex : Nat
  deriving DecidableEq, Repr

/-- The columns of an article that the agent reads and writes. -/
structure Article where
  id : String
  userId : String
  slug : String
  title : String
  filePath : String
  deriving DecidableEq, Repr

/-- The tables of the agent. -/
structure Db where
  conversations : List Conversation
  queries : List Query
  articles : List Article
  deriving DecidableEq, Repr

/-- A question: `models/dto/query.py:46`. -/
structure QueryRequest where
  question : String
  fileBack : Bool
  conversationId : Option String
  deriving DecidableEq, Repr

/-- An answer of the model: `models/dto/query.py:14`. -/
structure QueryResult where
  answer : String
  confidence : String
  sources : List String
  relatedArticles : List String
  newArticleSuggested : Option String
  deriving DecidableEq, Repr

/-- An article retrieved as context. -/
structure ContextEntry where
  title : String
  content : String
  score : Nat
  deriving DecidableEq, Repr

/-- Settings (`config.py:163`), the system prompt with its tool block, text functions, the
files of a user, and the decoders of blocking and streamed replies. -/
structure QaEnv where
  maxPriorTurnsInContext : Nat
  priorAnswerTruncateChars : Nat
  conversationTitleMaxChars : Nat
  maxTokens : Nat
  autoFileBackEnabled : Bool
  autoFileBackMinWords : Nat
  autoFileBackMinSources : Nat
  systemPrompt : String
  lower : String → String
  words : String → List String
  strip : String → String
  slugify : String → String
  readArticle : (userId filePath : String) → String
  parseReply : String → Option QueryResult
  parseStream : String → Option QueryResult

/-- What a blocking call to the model comes to. -/
inductive Reply where
  | raised (detail : String)
  | missing
  | text (content : String)
  deriving DecidableEq, Repr

/-- What a stream comes to: it cannot be opened, breaks off after some chunks, or ends. -/
inductive StreamReply where
  | refused (detail : String)
  | broken (chunks : List String) (detail : String)
  | completed (chunks : List String)
  deriving DecidableEq, Repr

/-- What one run takes from outside: fresh ids, the time, the replies of the model, and
whether file-back and the final commit fail. -/
structure Surroundings where
  conversationId : String
  articleId : String
  now : Nat
  complete : CompletionRequest → Reply
  stream : CompletionRequest → StreamReply
  fileBackFails : Bool
  commitFails : Bool

/-- The turns of a conversation with an index below a bound, by index. -/
def turnsBefore (db : Db) (conversationId : String) (bound : Nat) : List Query :=
  (db.queries.filter fun q ↦ q.conversationId = conversationId ∧ q.turnIndex < bound).insertionSort
    fun p q ↦ p.turnIndex ≤ q.turnIndex

/-- A conversation by its primary key. -/
def Db.conversation (db : Db) (id : String) : Option Conversation :=
  db.conversations.find? (·.id = id)

/-- The ancestors of a forked conversation with the turn each was forked at, nearest first.
A parent is older than its forks, so the number of conversations is fuel enough.
`engine/qa_agent.py:232–242`. -/
def ancestors (db : Db) : Nat → Conversation → List (String × Nat)
  | 0, _ => []
  | fuel + 1, current =>
    match current.parentConversationId, current.forkedAtTurnIndex with
    | some parentId, some forkAt =>
      (parentId, forkAt) :: match db.conversation parentId with
        | none => []
        | some parent => ancestors db fuel parent
    | _, _ => []

/-- `all_turns[-cap:]` where there are more than `cap`: the last turns, or all of them for a
cap of zero. -/
def lastTurns (cap : Nat) (turns : List Query) : List Query :=
  if cap < turns.length ∧ cap ≠ 0 then turns.drop (turns.length - cap) else turns

/-- `_load_prior_turns`: `engine/qa_agent.py:204`. -/
def loadPriorTurns (env : QaEnv) (db : Db) (conversation : Conversation) (upTo : Nat) :
    List Query :=
  let cap := env.maxPriorTurnsInContext
  let own := turnsBefore db conversation.id upTo
  if conversation.parentConversationId.isSome then
    let chain := (ancestors db db.conversations.length conversation).reverse
    lastTurns cap (chain.flatMap (fun (id, forkAt) ↦ turnsBefore db id forkAt) ++ own)
  else own.drop (own.length - cap)

/-- `_next_turn_index`: `engine/qa_agent.py:301`. -/
def nextTurnIndex (db : Db) (conversationId : String) : Nat :=
  ((db.queries.filter (·.conversationId = conversationId)).map (·.turnIndex + 1)).foldl max 0

/-- `_get_or_create_conversation`, the conversation and the tables with it:
`engine/qa_agent.py:278`. -/
def getOrCreateConversation (env : QaEnv) (db : Db) (userId : String) (request : QueryRequest)
    (run : Surroundings) : Except Exc (Conversation × Db) :=
  match request.conversationId with
  | some id =>
    match db.conversation id with
    | none => .error (.notFound "Conversation not found")
    | some existing => .ok (existing, db)
  | none =>
    let conversation : Conversation :=
      ⟨run.conversationId, userId, slice env.conversationTitleMaxChars request.question, run.now,
        none, none, none⟩
    .ok (conversation, { db with conversations := db.conversations ++ [conversation] })

/-- `_retrieve_context`: the five articles of the user that share most terms with the
question. `engine/qa_agent.py:685`. -/
def retrieveContext (env : QaEnv) (db : Db) (userId question : String) : List ContextEntry :=
  let terms := (env.words (env.lower question)).filter fun t ↦ 3 < t.length
  let entries := (db.articles.filter (·.userId = userId)).filterMap fun article ↦
    let content := env.readArticle userId article.filePath
    let text := (env.lower content).toList
    let score := terms.countP fun t ↦ occursIn t.toList text
    if content = "" ∨ score = 0 then none
    else some ⟨article.title, slice 3000 content, score⟩
  (entries.insertionSort fun x y ↦ y.score ≤ x.score).take 5

/-- The conversation block of a prompt: `engine/qa_agent.py:408–417`. -/
def conversationBlock (env : QaEnv) (priorTurns : List Query) : String :=
  if priorTurns = [] then ""
  else
    let turnLines := priorTurns.flatMap fun prior ↦
      let n := toString (prior.turnIndex + 1)
      ["Q" ++ n ++ ": " ++ prior.question,
       "A" ++ n ++ ": " ++ slice env.priorAnswerTruncateChars prior.answer]
    "\n".intercalate (["", "---", "", "Conversation so far:"] ++ turnLines)

/-- `_build_completion_request`: `engine/qa_agent.py:388`. -/
def buildCompletionRequest (env : QaEnv) (question : String) (context : List ContextEntry)
    (priorTurns : List Query) : CompletionRequest :=
  let contextText := "\n\n---\n\n".intercalate
    (context.map fun c ↦ "## " ++ c.title ++ "\n\n" ++ c.content)
  let userMessage := "Wiki context:\n\n" ++ contextText ++ conversationBlock env priorTurns ++
    "\n\n---\n\nCurrent question: " ++ question ++
    "\n\nAnswer based on the wiki context above. Use the conversation history\n" ++
    "to disambiguate references like \"it\" or \"that approach\". If the\n" ++
    "conversation context contradicts the wiki, prefer the wiki."
  { system := env.systemPrompt, messages := [("user", userMessage)], maxTokens := env.maxTokens,
    temperature := 3, responseFormat := "json", taskType := .qa }

/-- Everything a request prepares before the model is called. -/
structure PreparedContext where
  conversation : Conversation
  nextTurnIndex : Nat
  priorTurns : List Query
  wikiContext : List ContextEntry

/-- `_prepare_context`: `engine/qa_agent.py:312`. -/
def prepareContext (env : QaEnv) (db : Db) (userId : String) (request : QueryRequest)
    (run : Surroundings) : Except Exc (PreparedContext × Db) := do
  let (conversation, db) ← getOrCreateConversation env db userId request run
  let next := if request.conversationId.isSome then nextTurnIndex db conversation.id else 0
  let priorTurns :=
    if request.conversationId.isSome then loadPriorTurns env db conversation next else []
  return (⟨conversation, next, priorTurns, retrieveContext env db userId request.question⟩, db)

/-- The answer without context: `engine/qa_agent.py:354–363`. -/
def noContextResult : QueryResult :=
  { answer := "No relevant articles found in your wiki for this question." ++
      " Consider ingesting sources on this topic."
    confidence := "low", sources := [], relatedArticles := [], newArticleSuggested := none }

/-- The answer for a reply that cannot be used: `engine/qa_agent.py:676–681, 731–746`. -/
def errorResult : QueryResult :=
  { answer := "Error processing answer. Please try again."
    confidence := "low", sources := [], relatedArticles := [], newArticleSuggested := none }

/-- The rows a request has pending before its commit. -/
structure Pending where
  query : Query
  conversation : Conversation
  articles : List Article

/-- `_file_back_thread`: a new article for the conversation, or the one it has.
`engine/qa_agent.py:749`. -/
def fileBackThread (p : Pending) (userId : String) (run : Surroundings) : Except Exc Pending :=
  if run.fileBackFails then .error (.runtimeError "file back")
  else
    match p.conversation.filedArticleId.bind fun id ↦ p.articles.find? (·.id = id) with
    | some article =>
      .ok { p with
        conversation := { p.conversation with updatedAt := run.now }
        query := { p.query with filedBack := true, filedArticleId := some article.id } }
    | none =>
      let slug := p.conversation.id
      .ok { p with
        articles := p.articles ++
          [⟨run.articleId, userId, slug, p.conversation.title, "qa-answers/" ++ slug ++ ".md"⟩]
        conversation :=
          { p.conversation with filedArticleId := some run.articleId, updatedAt := run.now }
        query := { p.query with filedBack := true, filedArticleId := some run.articleId } }

/-- Whether the caller's request files the answer back: `engine/qa_agent.py:485`. -/
def filesBack (request : QueryRequest) (result : QueryResult) : Bool :=
  request.fileBack && (result.confidence = "high" || result.confidence = "medium")

/-- `_derive_auto_file_back_title`: `engine/qa_agent.py:86`. -/
def deriveAutoFileBackTitle (env : QaEnv) (result : QueryResult) : String :=
  match truthy result.newArticleSuggested with
  | some title => env.strip title
  | none =>
    let words := env.words result.answer
    if words = [] then "Untitled answer" else " ".intercalate (words.take 8)

/-- Whether the answer is filed back by itself: `_score_wiki_worthiness` passes and finds no
article of the user with that slug. `engine/qa_agent.py:106, 497–508`. -/
def autoFilesBack (env : QaEnv) (articles : List Article) (userId : String)
    (result : QueryResult) : Bool :=
  let slug := env.slugify (deriveAutoFileBackTitle env result)
  let synthesizes := 2 ≤ result.sources.length && result.confidence ≠ "low"
  let collision := slug ≠ "" && articles.any fun a ↦ a.slug = slug && a.userId = userId
  env.autoFileBackEnabled && env.autoFileBackMinWords ≤ (env.words result.answer).length &&
    env.autoFileBackMinSources ≤ result.sources.length && synthesizes && !collision

/-- The automatic file-back after a manual one that did or did not happen. A failure is
swallowed and leaves the new title pending: `engine/qa_agent.py:497–526`. -/
def autoFileBack (env : QaEnv) (p : Pending) (userId : String) (result : QueryResult)
    (alreadyFiled : Bool) (run : Surroundings) : Pending :=
  if autoFilesBack env p.articles userId result && !alreadyFiled then
    let title := deriveAutoFileBackTitle env result
    let renamed := { p with conversation := { p.conversation with title } }
    match fileBackThread renamed userId run with
    | .ok filed => filed
    | .error _ => renamed
  else p

/-- The turn of an answer and its conversation, before any file-back:
`engine/qa_agent.py:469–481`. -/
def pendingAnswer (db : Db) (userId : String) (request : QueryRequest) (result : QueryResult)
    (ctx : PreparedContext) (run : Surroundings) : Pending :=
  { query :=
      { userId, question := request.question, answer := result.answer
        confidence := result.confidence, sourceArticleIds := result.sources
        relatedArticleIds := result.relatedArticles, filedBack := false, filedArticleId := none
        conversationId := ctx.conversation.id, turnIndex := ctx.nextTurnIndex }
    conversation := { ctx.conversation with updatedAt := run.now }
    articles := db.articles }

/-- The file-back the caller asked for: `engine/qa_agent.py:484–491`. -/
def manualFileBack (p : Pending) (userId : String) (request : QueryRequest)
    (result : QueryResult) (run : Surroundings) : Except Exc Pending :=
  if filesBack request result then fileBackThread p userId run else .ok p

/-- The final commit of the request: `engine/qa_agent.py:528`. -/
def commit (run : Surroundings) : Except Exc Unit :=
  if run.commitFails then .error (.runtimeError "commit") else .ok ()

/-- `_persist_query`: the turn, its conversation, and the tables after the commit.
`engine/qa_agent.py:444`. -/
def persistQuery (env : QaEnv) (db : Db) (userId : String) (request : QueryRequest)
    (result : QueryResult) (ctx : PreparedContext) (run : Surroundings) :
    Except Exc (Query × Conversation × Db) := do
  let filed ← manualFileBack (pendingAnswer db userId request result ctx run) userId request
    result run
  let p := autoFileBack env filed userId result (filesBack request result) run
  commit run
  return (p.query, p.conversation,
    { conversations := Rows.modify (·.id = ctx.conversation.id) (fun _ ↦ p.conversation)
        db.conversations
      queries := db.queries ++ [p.query]
      articles := p.articles })

/-- A response, the committed tables, and the prior turns that went into the prompt. -/
structure Outcome (ρ : Type) where
  response : ρ
  db : Db
  promptTurns : List Query

/-- `_query_llm`: `engine/qa_agent.py:715`. -/
def queryLlm (env : QaEnv) (request : CompletionRequest) (run : Surroundings) :
    Except Exc QueryResult :=
  match run.complete request with
  | .raised detail => .error (.runtimeError detail)
  | .missing => .ok errorResult
  | .text content => .ok ((env.parseReply content).getD errorResult)

/-- Persist an answer and respond; the tables before the request remain where that raises. -/
def respond (env : QaEnv) (before db : Db) (userId : String) (request : QueryRequest)
    (result : QueryResult) (ctx : PreparedContext) (promptTurns : List Query)
    (run : Surroundings) : Outcome (Except Exc (Query × Conversation)) :=
  match persistQuery env db userId request result ctx run with
  | .error e => ⟨.error e, before, promptTurns⟩
  | .ok (query, conversation, db') => ⟨.ok (query, conversation), db', promptTurns⟩

/-- `answer` behind `ask`: `engine/qa_agent.py:551`, `services/query.py:242`. -/
def ask (env : QaEnv) (db : Db) (userId : String) (request : QueryRequest) (run : Surroundings) :
    Outcome (Except Exc (Query × Conversation)) :=
  match prepareContext env db userId request run with
  | .error e => ⟨.error e, db, []⟩
  | .ok (ctx, prepared) =>
    if ctx.wikiContext = [] then
      respond env db prepared userId request noContextResult ctx [] run
    else
      let completion := buildCompletionRequest env request.question ctx.wikiContext ctx.priorTurns
      match queryLlm env completion run with
      | .error e => ⟨.error e, db, ctx.priorTurns⟩
      | .ok result => respond env db prepared userId request result ctx ctx.priorTurns run

/-- Server-sent events. -/
inductive Event where
  | chunk (text : String)
  | done (query : Query) (conversation : Conversation)
  | error (code message : String)
  deriving DecidableEq, Repr

/-- The event every exception becomes: `services/query.py:301`. -/
def streamFailed : Event := .error "stream_failed" "Internal server error"

/-- The events of a streamed answer: its chunks, then what persisting it comes to. -/
def Outcome.toEvents (chunks : List String) (o : Outcome (Except Exc (Query × Conversation))) :
    Outcome (List Event) :=
  { o with response := chunks.map .chunk ++ match o.response with
      | .ok (query, conversation) => [.done query conversation]
      | .error _ => [streamFailed] }

/-- `answer_stream` behind `ask_stream`. The cost of a completed stream is committed before
the answer is persisted, and a new conversation with it: `engine/qa_agent.py:590`,
`services/query.py:264`. -/
def askStream (env : QaEnv) (db : Db) (userId : String) (request : QueryRequest)
    (run : Surroundings) : Outcome (List Event) :=
  match prepareContext env db userId request run with
  | .error _ => ⟨[streamFailed], db, []⟩
  | .ok (ctx, prepared) =>
    if ctx.wikiContext = [] then
      (respond env db prepared userId request noContextResult ctx [] run).toEvents
        [noContextResult.answer]
    else
      match run.stream (buildCompletionRequest env request.question ctx.wikiContext
        ctx.priorTurns) with
      | .refused _ => ⟨[streamFailed], db, ctx.priorTurns⟩
      | .broken chunks _ => ⟨chunks.map .chunk ++ [streamFailed], db, ctx.priorTurns⟩
      | .completed chunks =>
        let result := (env.parseStream (String.join chunks)).getD errorResult
        (respond env prepared prepared userId request result ctx ctx.priorTurns run).toEvents
          chunks

end WikiMind.Qa
