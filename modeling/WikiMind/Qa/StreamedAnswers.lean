import WikiMind.Llm.Responses
import WikiMind.Qa.Agent

/-!
# Streamed answers

`answer` and `answer_stream` (`engine/qa_agent.py:551–683`) from the request to the persisted
turn, with what reads the text of the model. The streaming path has a copy of the parser of its
own and gets the text in chunks. In self-hosted mode both send one request and persist one turn.
-/

namespace WikiMind.Qa

open WikiMind.Base WikiMind.Llm

/-- The check of a `str`. -/
def readStr : JsonValue → Except Exc String
  | .str s => .ok s
  | _ => .error .valueError

/-- The check of a `list[str]`. -/
def readStrs : JsonValue → Except Exc (List String)
  | .arr items => items.mapM readStr
  | _ => .error .valueError

/-- The value of a field without a default. -/
def required (fields : List (String × JsonValue)) (key : String) : Except Exc JsonValue :=
  match JsonValue.lookup fields key with
  | some value => .ok value
  | none => .error .valueError

/-- The check of a `str | None` with the default `None`. -/
def readOptional (fields : List (String × JsonValue)) (key : String) :
    Except Exc (Option String) :=
  match JsonValue.lookup fields key with
  | none | some .null => .ok none
  | some value => (readStr value).map some

/-- `QueryResult(**data)`: `models/dto/query.py:14`. Only an object can be unpacked; a failed check
of a field is a `ValueError`. -/
def queryResult : JsonValue → Except Exc QueryResult
  | .obj fields => do
    let answer ← required fields "answer" >>= readStr
    let confidence ← required fields "confidence" >>= readStr
    let sources ← required fields "sources" >>= readStrs
    let relatedArticles ← required fields "related_articles" >>= readStrs
    let newArticleSuggested ← readOptional fields "new_article_suggested"
    let _ ← readStrs ((JsonValue.lookup fields "follow_up_questions").getD (.arr []))
    return ⟨answer, confidence, sources, relatedArticles, newArticleSuggested⟩
  | _ => .error .typeError

/-- The reply of a blocking call: `engine/qa_agent.py:737–747`. -/
def readReply (loads : Loads) (response : CompletionResponse) : Except Exc QueryResult :=
  handling isParseFailure errorResult do
    let data ← parseJsonResponse loads response
    queryResult data

/-- The copy of the parser, on the text between the fences: `engine/qa_agent.py:654–667`. -/
def loadStreamed (loads : Loads) (content : List Char) : Except JsonError JsonValue :=
  match loads content with
  | .error .decodeError =>
    match outermostObject content with
    | some extracted =>
      match loads extracted with
      | .error .decodeError => loads (sanitizeJsonControlChars extracted)
      | outcome => outcome
    | none => loads content
  | outcome => outcome

/-- The chunks of a completed stream, joined and read: `engine/qa_agent.py:632, 643–681`. -/
def readStreamed (loads : Loads) (chunks : List String) : Except Exc QueryResult :=
  let fullText := String.join chunks
  handling isParseFailure errorResult do
    let data ← (loadStreamed loads (stripFences (strip fullText.toList))).mapError JsonError.toExc
    queryResult data

/-- How `plan_aware_complete` treats a request: in hosted mode the plan of the user restricts it
or refuses the call, else it passes through. `services/plan_routing.py:45–73`. -/
inductive Deployment where
  | selfHosted
  | hosted (restrict : String → CompletionRequest → Except Exc CompletionRequest)

/-- The request that reaches the router. -/
def Deployment.route (d : Deployment) (userId : String) (request : CompletionRequest) :
    Except Exc CompletionRequest :=
  match d with
  | .selfHosted => .ok request
  | .hosted restrict => restrict userId request

/-- A model: its response to each request, and the chunks in which it is streamed. -/
structure Model where
  respond : CompletionRequest → CompletionResponse
  chunks : CompletionRequest → List String
  join : ∀ request, String.join (chunks request) = (respond request).content

/-- What a question comes to: the request the router gets, if any, and the persisted turn with
its conversation and the tables. -/
structure Answered where
  sent : Option CompletionRequest
  turn : Except Exc (Query × Conversation × Db)

variable (env : QaEnv) (loads : Loads) (model : Model)

/-- `QAAgent.answer` with `_query_llm`: `engine/qa_agent.py:551, 715`. -/
def answerBlocking (d : Deployment) (db : Db) (userId : String) (request : QueryRequest)
    (run : Surroundings) : Answered :=
  match prepareContext env db userId request run with
  | .error e => ⟨none, .error e⟩
  | .ok (ctx, db) =>
    if ctx.wikiContext = [] then
      ⟨none, persistQuery env db userId request noContextResult ctx run⟩
    else
      let completion := buildCompletionRequest env request.question ctx.wikiContext ctx.priorTurns
      match d.route userId completion with
      | .error e => ⟨none, .error e⟩
      | .ok sent => ⟨some sent, do
          let result ← readReply loads (model.respond sent)
          persistQuery env db userId request result ctx run⟩

/-- `QAAgent.answer_stream`, which gives the prepared request to the router:
`engine/qa_agent.py:590`. -/
def answerStreaming (db : Db) (userId : String) (request : QueryRequest) (run : Surroundings) :
    Answered :=
  match prepareContext env db userId request run with
  | .error e => ⟨none, .error e⟩
  | .ok (ctx, db) =>
    if ctx.wikiContext = [] then
      ⟨none, persistQuery env db userId request noContextResult ctx run⟩
    else
      let completion := buildCompletionRequest env request.question ctx.wikiContext ctx.priorTurns
      ⟨some completion, do
        let result ← readStreamed loads (model.chunks completion)
        persistQuery env db userId request result ctx run⟩

section Readers

variable {env loads model}

/-- The copy of the parser tries what the parser of the router tries. -/
theorem loadStreamed_eq (response : CompletionResponse) :
    (loadStreamed loads (stripFences (strip response.content.toList))).mapError JsonError.toExc =
      parseJsonResponse loads response := by
  unfold parseJsonResponse
  dsimp only
  generalize stripFences (strip response.content.toList) = content
  congr 1
  unfold loadStreamed parseOutermost
  cases houtermost : outermostObject content <;> rfl

/-- Chunks are read as the response they make up. -/
theorem readStreamed_eq {chunks : List String} {response : CompletionResponse}
    (h : String.join chunks = response.content) :
    readStreamed loads chunks = readReply loads response := by
  unfold readStreamed readReply
  rw [h]
  dsimp only
  rw [loadStreamed_eq]

end Readers

/-- In self-hosted mode a streamed answer sends the request of the blocking one and persists its
turn, whatever the model responds and however its text is divided. -/
theorem answerStreaming_eq (db : Db) (userId : String) (request : QueryRequest)
    (run : Surroundings) :
    (answerStreaming env loads model db userId request run).sent =
        (answerBlocking env loads model .selfHosted db userId request run).sent ∧
      (answerStreaming env loads model db userId request run).turn =
        (answerBlocking env loads model .selfHosted db userId request run).turn := by
  unfold answerStreaming answerBlocking
  cases prepareContext env db userId request run with
  | error e => exact ⟨rfl, rfl⟩
  | ok prepared =>
    dsimp only [Deployment.route]
    by_cases hcontext : prepared.1.wikiContext = []
    · rw [if_pos hcontext, if_pos hcontext]
      exact ⟨rfl, rfl⟩
    · rw [if_neg hcontext, if_neg hcontext, readStreamed_eq (model.join _)]
      exact ⟨rfl, rfl⟩

end WikiMind.Qa
