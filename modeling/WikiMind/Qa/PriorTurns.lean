import WikiMind.Qa.Forks

/-!
# The prior turns of a prompt

`_load_prior_turns` (`engine/qa_agent.py:204`) should hand the prompt the end of the thread that
`get_conversation` shows. A conversation without parent is queried with the cap as its limit. A
fork is cut by `all_turns[-cap:]`, which for a cap of zero is the whole thread.
-/

namespace WikiMind.Qa

open WikiMind.Base WikiMind.Llm

/-- The last turns of a thread, as many as the cap allows. -/
def lastOf (cap : Nat) (turns : List Query) : List Query :=
  turns.drop (turns.length - min cap turns.length)

/-- A new turn of a conversation is prompted with the end of the thread that is shown. -/
def PromptsEnd (env : QaEnv) (db : Db) (userId : String) (request : QueryRequest)
    (run : Surroundings) : Prop :=
  ∀ conversation ctx db', request.conversationId.bind db.conversation = some conversation →
    prepareContext env db userId request run = .ok (ctx, db') →
    ctx.priorTurns = lastOf env.maxPriorTurnsInContext (shownTurns db conversation)

/-- Where the cap is zero, the new turn is one of a conversation without parent or without
turns. -/
def CapReaches (env : QaEnv) (db : Db) (request : QueryRequest) : Prop :=
  env.maxPriorTurnsInContext = 0 → ∀ conversation,
    request.conversationId.bind db.conversation = some conversation →
    conversation.parentConversationId = none ∨ shownTurns db conversation = []

section PriorTurns

variable {env : QaEnv} {db : Db} {conversation : Conversation} {cap : Nat} {turns : List Query}

/-- All turns of a conversation lie below its next index. -/
theorem turnsBefore_next (db : Db) (id : String) :
    turnsBefore db id (nextTurnIndex db id) = ownTurns db id := by
  rw [turnsBefore_eq_filter, List.filter_eq_self]
  intro q hq
  unfold ownTurns at hq
  rw [List.mem_insertionSort, List.mem_filter, decide_eq_true_eq] at hq
  obtain ⟨hmem, rfl⟩ := hq
  exact decide_eq_true (lt_nextTurnIndex hmem)

/-- The limit of the query, and the slice of a list that is longer than the cap. -/
theorem lastOf_eq_drop (cap : Nat) (turns : List Query) :
    lastOf cap turns = turns.drop (turns.length - cap) := by
  unfold lastOf
  congr 1
  omega

@[simp] theorem lastOf_zero (turns : List Query) : lastOf 0 turns = [] := by simp [lastOf]

/-- The slice is the end of the list, except for a cap of zero, where it is the list. -/
theorem lastTurns_eq_lastOf_iff :
    lastTurns cap turns = lastOf cap turns ↔ (cap = 0 → turns = []) := by
  unfold lastTurns
  by_cases hzero : cap = 0
  · simp [hzero]
  · by_cases hlong : cap < turns.length
    · simp [hzero, hlong, lastOf_eq_drop]
    · have hall : turns.length - cap = 0 := by omega
      simp [hzero, hlong, lastOf_eq_drop, hall]

/-- What is loaded for the next turn of a conversation. -/
theorem priorTurnsOf_eq : priorTurnsOf env db conversation =
    if conversation.parentConversationId.isSome then
      lastTurns env.maxPriorTurnsInContext (shownTurns db conversation)
    else lastOf env.maxPriorTurnsInContext (shownTurns db conversation) := by
  unfold priorTurnsOf loadPriorTurns shownTurns
  rw [turnsBefore_next]
  cases conversation.parentConversationId with
  | none => exact (lastOf_eq_drop _ _).symm
  | some parentId => rfl

end PriorTurns

end WikiMind.Qa
