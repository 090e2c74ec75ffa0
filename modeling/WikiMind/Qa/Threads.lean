import WikiMind.Qa.Agent

/-!
# Threads of forked conversations

A fork names its parent and the turn it was forked at, and stores its own turns only.
`_materialize_thread` (`services/query.py:195`) recomputes what it inherits from the chain of
its ancestors. The readers of a conversation are given by the turns they hand on; citations
and the rendering of the turns are left out.
-/

namespace WikiMind.Qa

open WikiMind.Base WikiMind.Llm

/-- All turns of a conversation, by index. -/
def ownTurns (db : Db) (conversationId : String) : List Query :=
  (db.queries.filter (·.conversationId = conversationId)).insertionSort
    fun p q ↦ p.turnIndex ≤ q.turnIndex

/-- The ancestors of a conversation with the turn each was forked at, nearest first. -/
def chain (db : Db) (conversation : Conversation) : List (String × Nat) :=
  ancestors db db.conversations.length conversation

/-- The turns of the ancestors, oldest ancestor first: `services/query.py:206–224`. -/
def ancestorTurns (db : Db) (conversation : Conversation) : List Query :=
  (chain db conversation).reverse.flatMap fun (id, forkAt) ↦ turnsBefore db id forkAt

/-- `_materialize_thread`: `services/query.py:195`. -/
def materializeThread (db : Db) (conversation : Conversation) : List Query :=
  ancestorTurns db conversation ++ ownTurns db conversation.id

/-- A conversation of the user; a user without name sees all. -/
def ownConversation (db : Db) (userId conversationId : String) : Except Exc Conversation :=
  match db.conversation conversationId with
  | none => .error (.notFound "Conversation not found")
  | some conversation =>
    if userId ≠ "" ∧ conversation.userId ≠ userId then .error (.notFound "Conversation not found")
    else .ok conversation

/-- The turns of a conversation that a page shows: `services/query.py:405–412`. -/
def shownTurns (db : Db) (conversation : Conversation) : List Query :=
  if conversation.parentConversationId.isSome then materializeThread db conversation
  else ownTurns db conversation.id

/-- `_count_forks`: `services/query.py:189`. -/
def countForks (db : Db) (conversationId : String) : Nat :=
  db.conversations.countP (·.parentConversationId = some conversationId)

/-- `get_conversation`: `services/query.py:376`. -/
def getConversation (db : Db) (userId conversationId : String) :
    Except Exc (Conversation × Nat × List Query) := do
  let conversation ← ownConversation db userId conversationId
  return (conversation, countForks db conversationId, shownTurns db conversation)

/-- `export_conversation`, the conversation and the turns it serializes:
`services/query.py:638`. -/
def exportConversation (db : Db) (userId conversationId : String) :
    Except Exc (Conversation × List Query) := do
  let conversation ← ownConversation db userId conversationId
  return (conversation, ownTurns db conversationId)

/-- `file_back_conversation`, up to the serialization in `_file_back_thread`:
`services/query.py:436`, `engine/qa_agent.py:777–789`. -/
def fileBackConversation (db : Db) (userId conversationId : String) :
    Except Exc (Conversation × List Query) := do
  let _ ← ownConversation db userId conversationId
  match db.conversation conversationId with
  | none => .error (.notFound "Conversation not found")
  | some conversation => return (conversation, ownTurns db conversationId)

/-- `crystallize_conversation`, up to the prompt: `services/crystallization.py:169–195`. A
conversation that was crystallized before is not serialized again and is left out. -/
def crystallizeConversation (db : Db) (userId conversationId : String) :
    Except Exc (Conversation × List Query) := do
  let conversation ← ownConversation db userId conversationId
  let queries := ownTurns db conversationId
  if queries = [] then .error (.httpException 400 "Conversation has no turns to crystallize")
  else return (conversation, queries)

/-- A request to fork: `models/dto/query.py:54`. -/
structure ForkRequest where
  turnIndex : Int
  newQuestion : String
  deriving DecidableEq, Repr

/-- The row of a fork: `services/query.py:513–518`. -/
def forkRow (env : QaEnv) (userId conversationId : String) (request : ForkRequest)
    (run : Surroundings) : Conversation :=
  { id := run.conversationId, userId
    title := slice env.conversationTitleMaxChars request.newQuestion
    updatedAt := run.now, filedArticleId := none, parentConversationId := some conversationId
    forkedAtTurnIndex := some request.turnIndex.toNat }

/-- `fork_conversation`: `services/query.py:471`. The row of the fork is rolled back when its
question is not answered. -/
def forkConversation (env : QaEnv) (db : Db) (userId conversationId : String)
    (request : ForkRequest) (run : Surroundings) : Outcome (Except Exc (Query × Conversation)) :=
  match ownConversation db userId conversationId with
  | .error e => ⟨.error e, db, []⟩
  | .ok _ =>
    if request.turnIndex < 0 then ⟨.error (.httpException 400 "turn_index must be >= 0"), db, []⟩
    else
      let fork := forkRow env userId conversationId request run
      let outcome := ask env { db with conversations := db.conversations ++ [fork] } userId
        ⟨request.newQuestion, false, some fork.id⟩ run
      match outcome.response with
      | .ok _ => outcome
      | .error _ => { outcome with db }

/-- No ancestor has a turn before the one the chain cuts it at. -/
def InheritsNothing (db : Db) (conversation : Conversation) : Prop :=
  ∀ ancestor ∈ chain db conversation, ∀ q ∈ db.queries,
    q.conversationId = ancestor.1 → ancestor.2 ≤ q.turnIndex

/-- What a page shows of a conversation. -/
def shown (db : Db) (userId conversationId : String) : Except Exc (Conversation × List Query) :=
  (getConversation db userId conversationId).map fun (conversation, _, turns) ↦
    (conversation, turns)

/-- Export, file-back and crystallization take the turns that are shown. An empty thread is
not crystallized. -/
structure ReadersAgree (db : Db) (userId conversationId : String) : Prop where
  exported : exportConversation db userId conversationId = shown db userId conversationId
  filedBack : fileBackConversation db userId conversationId = shown db userId conversationId
  crystallized : crystallizeConversation db userId conversationId = do
    let (conversation, turns) ← shown db userId conversationId
    if turns = [] then .error (.httpException 400 "Conversation has no turns to crystallize")
    else return (conversation, turns)

instance : Std.Total fun p q : Query ↦ p.turnIndex ≤ q.turnIndex :=
  ⟨fun p q ↦ Nat.le_total p.turnIndex q.turnIndex⟩

instance : IsTrans Query fun p q ↦ p.turnIndex ≤ q.turnIndex :=
  ⟨fun _ _ _ ↦ Nat.le_trans⟩

section
variable {db db' : Db} {conversation conversation' : Conversation} {id : String}

/-- The turns of a conversation with an index below the bound. -/
theorem mem_turnsBefore {bound : Nat} {q : Query} :
    q ∈ turnsBefore db id bound ↔
      q ∈ db.queries ∧ q.conversationId = id ∧ q.turnIndex < bound := by
  unfold turnsBefore
  rw [List.mem_insertionSort, List.mem_filter, decide_eq_true_eq]

private theorem turnsBefore_eq_nil {bound : Nat} :
    turnsBefore db id bound = [] ↔
      ∀ q ∈ db.queries, q.conversationId = id → bound ≤ q.turnIndex := by
  rw [List.eq_nil_iff_forall_not_mem]
  constructor
  · intro h q hq hid
    by_contra hlt
    exact h q (mem_turnsBefore.mpr ⟨hq, hid, by omega⟩)
  · intro h q hq
    obtain ⟨hmem, hid, hlt⟩ := mem_turnsBefore.mp hq
    have := h q hmem hid
    omega

/-- A conversation inherits no turns where each ancestor has none before its cut. -/
theorem ancestorTurns_eq_nil :
    ancestorTurns db conversation = [] ↔ InheritsNothing db conversation := by
  unfold ancestorTurns InheritsNothing
  rw [List.flatMap_eq_nil_iff]
  constructor
  · intro h ancestor hancestor
    exact turnsBefore_eq_nil.mp (h ancestor (List.mem_reverse.mpr hancestor))
  · intro h ancestor hancestor
    exact turnsBefore_eq_nil.mpr (h ancestor (List.mem_reverse.mp hancestor))

/-- A conversation without parent or cut has no ancestors. -/
theorem ancestors_of_root (fuel : Nat) (h : conversation.parentConversationId = none ∨
    conversation.forkedAtTurnIndex = none) : ancestors db fuel conversation = [] := by
  cases fuel with
  | zero => rfl
  | succ fuel =>
    unfold ancestors
    rcases h with h | h
    · rw [h]
    · rw [h]
      cases conversation.parentConversationId <;> rfl

/-- The page shows the inherited turns and the own ones. -/
theorem shownTurns_eq :
    shownTurns db conversation =
      ancestorTurns db conversation ++ ownTurns db conversation.id := by
  unfold shownTurns
  split
  · rfl
  next hroot =>
    have hnone : conversation.parentConversationId = none := by simpa using hroot
    have hchain : chain db conversation = [] := ancestors_of_root _ (.inl hnone)
    unfold ancestorTurns
    rw [hchain]
    rfl

theorem shownTurns_eq_ownTurns_iff :
    shownTurns db conversation = ownTurns db conversation.id ↔
      InheritsNothing db conversation := by
  rw [shownTurns_eq, List.append_left_eq_self, ancestorTurns_eq_nil]

/-- A conversation is found under its id. -/
theorem conversation_of_own {userId : String}
    (h : ownConversation db userId id = .ok conversation) :
    db.conversation id = some conversation ∧ conversation.id = id := by
  unfold ownConversation at h
  split at h
  · cases h
  next found hfound =>
    split at h
    · cases h
    · cases h
      have hid := List.find?_some hfound
      exact ⟨hfound, by simpa using hid⟩

end

/-- The readers take the turns that are shown exactly when the conversation inherits none. -/
theorem readersAgree_iff (db : Db) (userId conversationId : String) :
    ReadersAgree db userId conversationId ↔
      ∀ conversation, ownConversation db userId conversationId = .ok conversation →
        InheritsNothing db conversation := by
  cases hown : ownConversation db userId conversationId with
  | error e =>
    have hshown : shown db userId conversationId = .error e := by
      unfold shown getConversation
      rw [hown]
      rfl
    refine iff_of_true ⟨?_, ?_, ?_⟩ (by simp)
    · rw [hshown]
      unfold exportConversation
      rw [hown]
      rfl
    · rw [hshown]
      unfold fileBackConversation
      rw [hown]
      rfl
    · rw [hshown]
      unfold crystallizeConversation
      rw [hown]
      rfl
  | ok conversation =>
    obtain ⟨hfound, hid⟩ := conversation_of_own hown
    have hshown :
        shown db userId conversationId = .ok (conversation, shownTurns db conversation) := by
      unfold shown getConversation
      rw [hown]
      rfl
    have hexport : exportConversation db userId conversationId =
        .ok (conversation, ownTurns db conversationId) := by
      unfold exportConversation
      rw [hown]
      rfl
    constructor
    · rintro h _ hsome
      cases hsome
      have heq := h.exported
      rw [hexport, hshown, ← hid] at heq
      exact shownTurns_eq_ownTurns_iff.mp (congrArg Prod.snd (Except.ok.inj heq)).symm
    · intro h
      have hturns : shownTurns db conversation = ownTurns db conversationId := by
        rw [shownTurns_eq_ownTurns_iff.mpr (h conversation rfl), hid]
      rw [hturns] at hshown
      refine ⟨by rw [hexport, hshown], ?_, ?_⟩
      · rw [hshown]
        unfold fileBackConversation
        rw [hown]
        show (match db.conversation conversationId with | none => _ | some _ => _) = _
        rw [hfound]
        rfl
      · rw [hshown]
        unfold crystallizeConversation
        rw [hown]
        rfl

/-- A conversation with two turns and a fork of it at its second turn, with a turn of its own. -/
def forkedDb : Db where
  conversations :=
    [⟨"p", "u", "Plans", 0, none, none, none⟩, ⟨"f", "u", "Costs", 0, none, some "p", some 1⟩]
  queries :=
    [⟨"u", "Who?", "Acme.", "high", [], [], false, none, "p", 0⟩,
     ⟨"u", "When?", "May.", "high", [], [], false, none, "p", 1⟩,
     ⟨"u", "Why?", "Cheap.", "high", [], [], false, none, "f", 0⟩]
  articles := []

/-- The export of a fork lacks the turns it inherits. -/
theorem fork_export_differs : ¬ ReadersAgree forkedDb "u" "f" := by
  intro h
  have hexported := h.exported
  revert hexported
  decide

end WikiMind.Qa
