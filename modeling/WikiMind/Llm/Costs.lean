import WikiMind.Llm.Router

/-!
# The books of the router

Every provider call that yields output should be in the cost log once, under the user it
was made for. The router logs the blocking calls itself (`_log_cost`,
`engine/llm_router.py:351`); a stream is logged by its consumer, after its last chunk
(`engine/qa_agent.py:625–640`). `recorded_iff` says for which runs the log is complete.
-/

namespace WikiMind.Llm

open WikiMind.Base

/-- What a provider reports when a stream has ended. -/
structure Usage where
  inputTokens : Nat
  outputTokens : Nat
  costUsd : Rat
  latencyMs : Nat
  deriving DecidableEq, Repr

/-- What a provider does with a stream: the chunks it sends, and how it ends. -/
structure StreamOutcome where
  chunks : List String
  ending : Except LlmError Usage

/-- A stream yields output if it sends a chunk or ends regularly. -/
def StreamOutcome.billable (outcome : StreamOutcome) : Bool :=
  outcome.chunks ≠ [] || outcome.ending.isOk

/-- The router with what its providers bill: whether a blocking call yields output, what
becomes of a stream, and the fault of the commit that stores the cost of one. A reply is
output; a call may yield output and raise. -/
structure BillingEnv extends LlmEnv where
  billable : Provider → Bool
  billable_of_reply : ∀ p response, reply p = .ok response → billable p = true
  stream : Provider → StreamOutcome
  costCommitFault : Option LlmError

/-- A request whose client has gone away. -/
def cancelled : LlmError := .other "CancelledError"

namespace BillingEnv

variable (env : BillingEnv)

/-- The result of a stream that has ended: `engine/providers/openai_compatible.py:190`. -/
def streamResult (session : StreamSession) (usage : Usage) : CompletionResponse :=
  { content := String.join (env.stream session.provider).chunks, providerUsed := session.provider
    modelUsed := session.model, inputTokens := usage.inputTokens
    outputTokens := usage.outputTokens, costUsd := usage.costUsd, latencyMs := usage.latencyMs }

/-- Hand the chunks of a stream on, to a client that may go away at one of them. The
provider is called when the first is pulled, and the session has a result when the last
was: `engine/providers/openai_compatible.py:170–201`. -/
def consumeStream (session : StreamSession) (abortAt : Option Nat) : Call CompletionResponse := do
  .emit (.providerCall session.provider session.model session.credential)
  if ∃ index ∈ abortAt, index < (env.stream session.provider).chunks.length then .raise cancelled
  else .lift ((env.stream session.provider).ending.map (env.streamResult session))

/-- Add the cost of a stream to the session of the request and commit it:
`engine/qa_agent.py:625–640`. -/
def commitCost (response : CompletionResponse) (userId : String) : Call Unit :=
  match env.costCommitFault with
  | none => .emit (.costLogged {
      userId, provider := response.providerUsed, model := response.modelUsed, taskType := .qa
      inputTokens := response.inputTokens, outputTokens := response.outputTokens
      costUsd := response.costUsd, latencyMs := response.latencyMs, createdAt := env.now })
  | some e => .raise e

/-- The calls of `answer_stream` on a prepared question: `engine/qa_agent.py:617–640`. -/
def answerStream (request : CompletionRequest) (userId : String) (abortAt : Option Nat) :
    Call Unit := do
  let session ← env.streamComplete request userId
  let response ← env.consumeStream session abortAt
  env.commitCost response userId

end BillingEnv

/-- The runs: a blocking call, one with images, and a stream that its client may abort. -/
inductive RouterRun where
  | complete (request : CompletionRequest)
  | completeMultimodal (taskType : TaskType) (preferred : Option Provider)
  | stream (request : CompletionRequest) (abortAt : Option Nat)
  deriving DecidableEq, Repr

namespace RouterRun

/-- The effects of a run. -/
def effects (env : BillingEnv) (userId : String) : RouterRun → List Effect
  | complete request => (env.complete request userId).effects
  | completeMultimodal taskType preferred =>
    (env.completeMultimodal taskType userId preferred).effects
  | stream request abortAt => (env.answerStream request userId abortAt).effects

/-- Whether a call of the run to a provider yields output. -/
def billable (env : BillingEnv) : RouterRun → Provider → Bool
  | complete _ | completeMultimodal _ _ => env.billable
  | stream _ _ => fun p ↦ (env.stream p).billable

end RouterRun

/-- A call to a provider and model that yields output. -/
def isCall (billable : Provider → Bool) (p : Provider) (model : String) : Effect → Bool
  | .providerCall q m _ => q = p && m = model && billable q
  | _ => false

/-- A cost entry of a user for a provider and model. -/
def isEntry (userId : String) (p : Provider) (model : String) : Effect → Bool
  | .costLogged entry => entry.userId = userId && entry.provider = p && entry.model = model
  | _ => false

/-- A cost entry of another user. -/
def isForeignEntry (userId : String) : Effect → Bool
  | .costLogged entry => entry.userId ≠ userId
  | _ => false

/-- Every call that yields output has one entry of the user, and there are no others. -/
def Recorded (billable : Provider → Bool) (userId : String) (effects : List Effect) : Prop :=
  (∀ p model, effects.countP (isEntry userId p model) =
    effects.countP (isCall billable p model)) ∧
  effects.countP (isForeignEntry userId) = 0

/-- The loop of a blocking call gets to a provider and can call it. -/
def LlmEnv.Calls (env : LlmEnv) (taskType : TaskType) (userId : String) (disableFallback : Bool)
    (modelOverride : Option String) (preferred : Option Provider) (p : Provider) : Prop :=
  ∃ order, env.config.candidates preferred = .ok order ∧
    p ∈ tried (env.tryProvider userId (env.ask taskType userId) disableFallback modelOverride)
      order ∧
    ∃ credential, env.standing userId p = .ready credential

/-- The reply of a provider arrives, and its cost entry is written. -/
def LlmEnv.books (env : LlmEnv) (p : Provider) : Bool :=
  (env.reply p).isOk && (env.costLogFault p).isNone

/-- The stream is taken to its end, and its cost is committed. -/
def BillingEnv.StreamBooked (env : BillingEnv) (session : StreamSession) (abortAt : Option Nat) :
    Prop :=
  (∀ index ∈ abortAt, (env.stream session.provider).chunks.length ≤ index) ∧
    (∃ usage, (env.stream session.provider).ending = .ok usage) ∧ env.costCommitFault = none

/-- The runs that leave the books complete: what yields output also returns it, and its
cost entry is written; a stream is taken to its end. -/
def RecordedWhen (env : BillingEnv) (userId : String) : RouterRun → Prop
  | .complete request =>
    ∀ p, env.Calls request.taskType userId request.disableFallback request.modelOverride
      request.preferredProvider p → env.billable p = true → env.books p = true
  | .completeMultimodal taskType preferred =>
    ∀ p, env.Calls taskType userId false none preferred p → env.billable p = true →
      env.books p = true
  | .stream request abortAt =>
    ∀ session, (env.streamComplete request userId).result = .ok session →
      (env.stream session.provider).billable = true → env.StreamBooked session abortAt

section Counts

variable {env : LlmEnv} {userId : String} {billable : Provider → Bool} {p q : Provider}
variable {α : Type} {model m : String} {taskType : TaskType} {credential : Credential}

/-- The trace is no part of the books. -/
theorem countP_logTrace {P : Effect → Bool}
    (hP : ∀ u m t, P (.traceLogged u m t) = false) :
    (env.logTrace p model taskType userId).effects.countP P = 0 := by
  unfold LlmEnv.logTrace
  split
  · split
    · simp [Traced.emit, hP]
    · rfl
    · rfl
  · rfl

/-- After a reply, the books are those of `_log_cost`. -/
theorem countP_ask {P : Effect → Bool} (hP : ∀ u m t, P (.traceLogged u m t) = false) :
    (env.ask taskType userId p model credential).effects.countP P =
      [Effect.providerCall p model credential].countP P +
        match env.reply p with
        | .error _ => 0
        | .ok response => (env.logCost p model taskType response userId).effects.countP P := by
  unfold LlmEnv.ask
  rw [Traced.emit_bind]
  dsimp only
  rw [List.countP_cons, List.countP_singleton, Nat.add_comm]
  congr 1
  cases env.reply p with
  | error e => rfl
  | ok response =>
    rw [Traced.lift_ok_bind, Traced.countP_effects_bind]
    intro _
    rw [Traced.countP_effects_bind (fun _ ↦ rfl)]
    exact countP_logTrace hP

private theorem countP_isCall_ask :
    (env.ask taskType userId p model credential).effects.countP (isCall billable q m) =
      if p = q ∧ model = m ∧ billable p = true then 1 else 0 := by
  rw [countP_ask (fun _ _ _ ↦ rfl)]
  have hnone : ∀ response, (env.logCost p model taskType response userId).effects.countP
      (isCall billable q m) = 0 := by
    intro response
    unfold LlmEnv.logCost
    split <;> rfl
  have hbooks : (match env.reply p with
      | .error _ => 0
      | .ok response => (env.logCost p model taskType response userId).effects.countP
          (isCall billable q m)) = 0 := by
    split
    · rfl
    · exact hnone _
  rw [hbooks, Nat.add_zero, List.countP_singleton]
  simp [isCall, and_assoc]

/-- The entry of a blocking call is written exactly if its reply is booked. -/
theorem countP_isEntry_ask :
    (env.ask taskType userId p model credential).effects.countP (isEntry userId q m) =
      if p = q ∧ model = m ∧ env.books p = true then 1 else 0 := by
  rw [countP_ask (fun _ _ _ ↦ rfl)]
  unfold LlmEnv.books LlmEnv.logCost
  cases env.reply p with
  | error e => simp [isEntry, Except.isOk, Except.toBool]
  | ok response =>
    cases env.costLogFault p with
    | none => simp [isEntry, Traced.emit, List.countP_singleton, Except.isOk, Except.toBool]
    | some e => cases e <;> simp [isEntry, Traced.raise, pure]

private theorem countP_isForeignEntry_ask :
    (env.ask taskType userId p model credential).effects.countP (isForeignEntry userId) = 0 := by
  rw [countP_ask (fun _ _ _ ↦ rfl)]
  unfold LlmEnv.logCost
  cases env.reply p with
  | error e => rfl
  | ok response =>
    cases env.costLogFault p with
    | none => simp [isForeignEntry, Traced.emit]
    | some e => cases e <;> simp [isForeignEntry, Traced.raise, pure]

/-- A round of the loop has the effects of the call, or none. -/
theorem effects_tryProvider (env : LlmEnv) (userId : String)
    (operation : Provider → String → Credential → Call α)
    (disableFallback : Bool) (modelOverride : Option String) (p : Provider) :
    (∃ credential, env.standing userId p = .ready credential ∧
        (env.tryProvider userId operation disableFallback modelOverride p).1 =
          (operation p (env.config.getModel p modelOverride) credential).effects) ∨
      (¬ ∃ credential, env.standing userId p = .ready credential) ∧
        (env.tryProvider userId operation disableFallback modelOverride p).1 = [] := by
  cases h : env.standing userId p with
  | locked e =>
    rw [tryProvider_of_locked operation disableFallback modelOverride h]
    exact .inr ⟨by simp, rfl⟩
  | skipped =>
    rw [tryProvider_of_skipped operation disableFallback modelOverride h]
    exact .inr ⟨by simp, rfl⟩
  | broken e =>
    rw [(tryProvider_of_broken operation disableFallback modelOverride h).2]
    exact .inr ⟨by simp, rfl⟩
  | ready credential =>
    rw [tryProvider_of_ready operation disableFallback modelOverride h]
    exact .inl ⟨credential, rfl, rfl⟩

private theorem books_imp_billable (hbillable : ∀ p response, env.reply p = .ok response →
    billable p = true) (h : env.books p = true) : billable p = true := by
  unfold LlmEnv.books at h
  cases hreply : env.reply p with
  | error e => simp [hreply, Except.isOk, Except.toBool] at h
  | ok response => exact hbillable p response hreply

/-- A round never books more than it calls, and as much if what it bills is booked. -/
theorem countP_round (disableFallback : Bool) (modelOverride : Option String)
    (hbillable : ∀ p response, env.reply p = .ok response → billable p = true) (p q : Provider)
    (m : String) :
    let round :=
      (env.tryProvider userId (env.ask taskType userId) disableFallback modelOverride p).1
    round.countP (isEntry userId q m) ≤ round.countP (isCall billable q m) ∧
      (round.countP (isEntry userId q m) = round.countP (isCall billable q m) ↔
        ((∃ credential, env.standing userId p = .ready credential) → p = q →
          env.config.getModel p modelOverride = m → billable p = true → env.books p = true)) := by
  intro round
  have himp := books_imp_billable (p := p) hbillable
  rcases effects_tryProvider env userId (env.ask taskType userId) disableFallback modelOverride p
    with ⟨credential, hready, heffects⟩ | ⟨hready, heffects⟩
  · simp only [round, heffects, countP_isEntry_ask, countP_isCall_ask]
    by_cases hcall : p = q ∧ env.config.getModel p modelOverride = m
    · obtain ⟨rfl, rfl⟩ := hcall
      by_cases hbooks : env.books p = true
      · simp [hbooks, himp hbooks]
      · simp [hbooks, hready]
    · have hnone (b : Prop) : ¬ (p = q ∧ env.config.getModel p modelOverride = m ∧ b) :=
        fun h ↦ hcall ⟨h.1, h.2.1⟩
      simp only [hnone, if_false, le_refl, true_and, true_iff]
      exact fun _ hp hm _ ↦ absurd ⟨hp, hm⟩ hcall
  · simp [round, heffects, hready]

/-- The books of a blocking call are complete exactly if every call that yields output is
booked. -/
theorem recorded_blocking_iff (disableFallback : Bool) (modelOverride : Option String)
    (preferred : Option Provider)
    (hbillable : ∀ p response, env.reply p = .ok response → billable p = true) :
    Recorded billable userId (env.executeWithFallback userId (env.ask taskType userId)
        disableFallback modelOverride preferred).effects ↔
      ∀ p, env.Calls taskType userId disableFallback modelOverride preferred p →
        billable p = true → env.books p = true := by
  unfold Recorded LlmEnv.Calls LlmEnv.executeWithFallback
  cases env.config.candidates preferred with
  | error e => simp [Traced.raise]
  | ok order =>
    have hforeign : (failover (env.tryProvider userId (env.ask taskType userId) disableFallback
        modelOverride) LlmEnv.allFailed order none).effects.countP (isForeignEntry userId) = 0 := by
      apply countP_failover_eq_zero
      intro p
      rcases effects_tryProvider env userId (env.ask taskType userId) disableFallback
        modelOverride p with ⟨credential, -, heffects⟩ | ⟨-, heffects⟩
      · rw [heffects, countP_isForeignEntry_ask]
      · rw [heffects]
        rfl
    simp only [hforeign, and_true]
    rw [forall_congr' fun q ↦ forall_congr' fun m ↦
      countP_failover_eq_iff LlmEnv.allFailed order none fun p _ ↦
        (countP_round disableFallback modelOverride hbillable p q m).1]
    constructor
    · rintro h p ⟨order', horder, htried, hready⟩ hbill
      cases horder
      exact ((countP_round disableFallback modelOverride hbillable p p _).2.mp
        (h p _ p htried)) hready rfl rfl hbill
    · intro h q m p htried
      exact (countP_round disableFallback modelOverride hbillable p q m).2.mpr
        fun hready _ _ hbill ↦ h p ⟨order, rfl, htried, hready⟩ hbill

end Counts

section Streams

variable {env : BillingEnv} {userId : String} {request : CompletionRequest}

/-- Opening a stream calls nobody. -/
theorem effects_streamComplete (env : LlmEnv) (request : CompletionRequest) (userId : String) :
    (env.streamComplete request userId).effects = [] := by
  unfold LlmEnv.streamComplete LlmEnv.executeWithFallback
  cases env.config.candidates request.preferredProvider with
  | error e => rfl
  | ok order =>
    dsimp only
    rw [effects_failover, List.flatMap_eq_nil_iff]
    intro p _
    rcases effects_tryProvider env userId
      (fun p model credential ↦ (pure ⟨p, model, credential⟩ : Call StreamSession)) false none p
      with ⟨credential, -, heffects⟩ | ⟨-, heffects⟩
    · exact heffects
    · exact heffects

/-- Consuming a stream is one call. -/
theorem effects_consumeStream (env : BillingEnv) (session : StreamSession)
    (abortAt : Option Nat) :
    (env.consumeStream session abortAt).effects =
      [.providerCall session.provider session.model session.credential] := by
  unfold BillingEnv.consumeStream
  rw [Traced.emit_bind]
  split <;> rfl

/-- A stream has a result if it ends and its client stays to the end. -/
theorem result_consumeStream (env : BillingEnv) (session : StreamSession)
    (abortAt : Option Nat) (response : CompletionResponse) :
    (env.consumeStream session abortAt).result = .ok response ↔
      (∀ index ∈ abortAt, (env.stream session.provider).chunks.length ≤ index) ∧
        ∃ usage, (env.stream session.provider).ending = .ok usage ∧
          env.streamResult session usage = response := by
  unfold BillingEnv.consumeStream
  rw [Traced.emit_bind]
  dsimp only
  split
  next hgoes =>
    obtain ⟨index, hindex, hlt⟩ := hgoes
    simp only [Traced.raise, reduceCtorEq, false_iff]
    exact fun h ↦ absurd hlt (Nat.not_lt.mpr (h.1 index hindex))
  next hgoes =>
    push Not at hgoes
    cases (env.stream session.provider).ending with
    | error e => simp [Traced.lift, Except.map]
    | ok usage => simpa [Traced.lift, Except.map] using fun _ ↦ hgoes

/-- What a stream that was opened does to the books: a call, and an entry if it is booked. -/
theorem effects_answerStream {session : StreamSession} (abortAt : Option Nat)
    (h : (env.streamComplete request userId).result = .ok session) :
    ∃ entries, (env.answerStream request userId abortAt).effects =
        .providerCall session.provider session.model session.credential :: entries ∧
      (env.StreamBooked session abortAt → ∃ entry : CostLog, entry.userId = userId ∧
        entry.provider = session.provider ∧ entry.model = session.model ∧
        entries = [.costLogged entry]) ∧
      (¬ env.StreamBooked session abortAt → entries = []) := by
  unfold BillingEnv.answerStream
  rw [Traced.bind_of_ok h, effects_streamComplete, List.nil_append]
  cases hresult : (env.consumeStream session abortAt).result with
  | error e =>
    rw [Traced.bind_of_error hresult, effects_consumeStream]
    refine ⟨_, rfl, fun hbooked ↦ ?_, fun _ ↦ rfl⟩
    obtain ⟨habort, ⟨usage, hending⟩, -⟩ := hbooked
    have hok := (result_consumeStream env session abortAt _).mpr ⟨habort, usage, hending, rfl⟩
    rw [hresult] at hok
    cases hok
  | ok response =>
    rw [Traced.bind_of_ok hresult, effects_consumeStream]
    obtain ⟨habort, usage, hending, rfl⟩ := (result_consumeStream env session abortAt _).mp hresult
    unfold BillingEnv.commitCost
    cases hcommit : env.costCommitFault with
    | none =>
      exact ⟨_, rfl, fun _ ↦ ⟨_, rfl, rfl, rfl, rfl⟩,
        fun hlost ↦ absurd ⟨habort, ⟨usage, hending⟩, hcommit⟩ hlost⟩
    | some e =>
      refine ⟨_, rfl, fun hbooked ↦ ?_, fun _ ↦ rfl⟩
      have hcommitted := hbooked.2.2
      rw [hcommit] at hcommitted
      cases hcommitted

end Streams

/-- The cost log is complete exactly if every call that yields output returns it and has
its entry written, and a stream that yields output is taken to its end. -/
theorem recorded_iff (env : BillingEnv) (userId : String) (run : RouterRun) :
    Recorded (run.billable env) userId (run.effects env userId) ↔ RecordedWhen env userId run := by
  cases run with
  | complete request => exact recorded_blocking_iff _ _ _ env.billable_of_reply
  | completeMultimodal taskType preferred =>
    exact recorded_blocking_iff _ _ _ env.billable_of_reply
  | stream request abortAt =>
    unfold RecordedWhen
    cases hsession : (env.streamComplete request userId).result with
    | error e =>
      have heffects : (env.answerStream request userId abortAt).effects = [] := by
        unfold BillingEnv.answerStream
        rw [Traced.bind_of_error hsession, effects_streamComplete]
      simp [RouterRun.effects, heffects, Recorded, hsession]
    | ok session =>
      show Recorded (fun p ↦ (env.stream p).billable) userId
        (env.answerStream request userId abortAt).effects ↔ _
      obtain ⟨entries, heffects, hbooked, hlost⟩ := effects_answerStream abortAt hsession
      simp only [heffects, hsession, Except.ok.injEq, forall_eq']
      by_cases hb : env.StreamBooked session abortAt
      · obtain ⟨entry, rfl, hp, hm, rfl⟩ := hbooked hb
        have hbillable : (env.stream session.provider).billable = true := by
          obtain ⟨-, ⟨usage, hending⟩, -⟩ := hb
          simp [StreamOutcome.billable, hending, Except.isOk, Except.toBool]
        simp [Recorded, isEntry, isCall, isForeignEntry, List.countP_cons, hp, hm, hb, hbillable]
      · rw [hlost hb]
        simp [Recorded, isEntry, isCall, isForeignEntry, List.countP_cons, hb]

/-- One provider with a system key, whose streams send two chunks and end as given. -/
def streaming (ending : Except LlmError Usage) : BillingEnv where
  config := {
    billingEnabled := false, defaultProvider := "anthropic", fallbackEnabled := false
    traceEnabled := false, enabled := fun p ↦ p = .anthropic, model := fun _ ↦ "claude"
    apiKey := fun p ↦ if p = .anthropic then some "sk-a" else none, hasCompatibleKey := false
    compatibleModel := "", compatibleBaseUrl := "", compatibleMaxTokensField := "max_tokens"
    compatibleReasoningFormat := "none" }
  userApiKeys := []
  cached := fun _ ↦ false
  now := ⟨0, none⟩
  reply := fun p ↦ .ok ⟨"{}", p, "claude", 1, 1, 0, 1⟩
  lookupFails := fun _ ↦ false
  costLogFault := fun _ ↦ none
  traceLogFault := fun _ ↦ none
  billable := fun _ ↦ true
  billable_of_reply := fun _ _ _ ↦ rfl
  stream := fun _ ↦ ⟨["\x7b", "\x7d"], ending⟩
  costCommitFault := none

/-- A streamed question. -/
def streamedQuestion : CompletionRequest :=
  { system := "", messages := [("user", "q")], taskType := .qa }

/-- A stream that its client aborts at the second chunk, and one that breaks off after it,
have called the provider and are in no cost entry. -/
theorem aborted_stream_unrecorded :
    let aborted : RouterRun := .stream streamedQuestion (some 1)
    let broken : RouterRun := .stream streamedQuestion none
    let complete := streaming (.ok ⟨9, 2, 1, 5⟩)
    let breaking := streaming (.error (.sdk "connection reset"))
    aborted.effects complete "u" = [.providerCall .anthropic "claude" .system] ∧
      broken.effects breaking "u" = [.providerCall .anthropic "claude" .system] ∧
      ¬ Recorded (aborted.billable complete) "u" (aborted.effects complete "u") ∧
      ¬ Recorded (broken.billable breaking) "u" (broken.effects breaking "u") := by
  intro aborted broken complete breaking
  have haborted : aborted.effects complete "u" = [.providerCall .anthropic "claude" .system] := by
    decide +kernel
  have hbroken : broken.effects breaking "u" = [.providerCall .anthropic "claude" .system] := by
    decide +kernel
  refine ⟨haborted, hbroken, ?_, ?_⟩
  · rw [haborted]
    intro h
    exact absurd (h.1 .anthropic "claude") (by decide +kernel)
  · rw [hbroken]
    intro h
    exact absurd (h.1 .anthropic "claude") (by decide +kernel)

end WikiMind.Llm
