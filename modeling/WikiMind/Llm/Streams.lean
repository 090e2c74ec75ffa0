import WikiMind.Llm.Fallback

/-!
# Streams and fallback

`LLMRouter.stream_complete` (`engine/llm_router.py:603`) runs the loop of `complete` around
`stream` of a provider. That builds a generator: the request is issued when its first chunk is
pulled (`providers/openai_compatible.py:177`, `anthropic.py:111`, `google.py:174`,
`ollama.py:129`), after the loop has returned. What follows says when a stream comes from the
provider that a completion would come from.
-/

namespace WikiMind.Llm

open WikiMind.Base

namespace LlmEnv

variable (env : LlmEnv) (userId : String)

/-- A stream that is read to its end. -/
def streamed (request : CompletionRequest) : Call CompletionResponse := do
  let session ← env.streamComplete request userId
  env.consume session

/-- The same surroundings, with every entry in the books written. -/
def quiet : LlmEnv :=
  { env with costLogFault := fun _ ↦ none, traceLogFault := fun _ ↦ none }

/-- What a provider that can be called answers, if it accepts the request. -/
def answer? (p : Provider) : Option CompletionResponse :=
  match env.standing userId p, env.reply p with
  | .ready _, .ok response => some response
  | _, _ => none

/-- The stream is that of the first provider that accepts the request, there is none only if all
reject it, and a completion comes from the same one. -/
structure StreamsAsComplete (request : CompletionRequest) : Prop where
  first : ∀ order, env.config.candidates request.preferredProvider = .ok order →
    (env.streamed userId request).result.toOption = order.findSome? (env.answer? userId)
  same : (env.streamed userId request).result.toOption =
    (env.quiet.complete request userId).result.toOption

/-- What comes of the first provider that is not passed over. -/
def opened : List Provider → Option CompletionResponse
  | [] => none
  | p :: ps =>
    match env.standing userId p with
    | .skipped | .broken _ => opened ps
    | .ready _ => (env.reply p).toOption
    | .locked _ => none

/-- The loop opens the stream of a provider that accepts the request, or none accepts it. -/
def OpensAccepting (order : List Provider) : Prop :=
  (∀ p ∈ order, env.answer? userId p = none) ∨
    Gets (fun p ↦ env.PassedOver false (env.standing userId p)) (env.Answers userId) order

end LlmEnv

section
variable {env : LlmEnv} {userId : String}

private theorem answer?_eq_some {p : Provider} {response : CompletionResponse} :
    env.answer? userId p = some response ↔
      (∃ credential, env.standing userId p = .ready credential) ∧
        env.reply p = .ok response := by
  unfold LlmEnv.answer?
  cases env.standing userId p <;> cases env.reply p <;> simp

/-- With fallback on, only a provider that cannot be used or built is passed over. -/
theorem passedOver_iff (hfallback : env.config.fallbackEnabled = true) {standing : Standing} :
    env.PassedOver false standing ↔ standing = .skipped ∨ ∃ e, standing = .broken e := by
  cases standing <;> simp [LlmEnv.PassedOver, hfallback]

private theorem opened_of_passed (hfallback : env.config.fallbackEnabled = true) {p : Provider}
    (order : List Provider) (h : env.PassedOver false (env.standing userId p)) :
    env.opened userId (p :: order) = env.opened userId order := by
  rcases (passedOver_iff hfallback).mp h with hskipped | ⟨e, hbroken⟩
  · simp only [LlmEnv.opened, hskipped]
  · simp only [LlmEnv.opened, hbroken]

/-- A stream is that of the first provider that is not passed over. -/
theorem toOption_streamed (hfallback : env.config.fallbackEnabled = true)
    (order : List Provider) (last : Option LlmError) :
    (failover (env.tryProvider userId (fun p model credential ↦ pure ⟨p, model, credential⟩) false
      none) LlmEnv.allFailed order last >>= env.consume).result.toOption =
      env.opened userId order := by
  induction order generalizing last with
  | nil => rfl
  | cons p order ih =>
    by_cases hpassed : env.PassedOver false (env.standing userId p)
    · obtain ⟨hsilent, hpasses⟩ := tryProvider_of_passedOver
        (fun p model credential ↦ (pure ⟨p, model, credential⟩ : Call StreamSession)) false none
        hpassed
      obtain ⟨last', hloop⟩ := failover_of_silent LlmEnv.allFailed order last hsilent hpasses
      rw [hloop, ih last', opened_of_passed hfallback order hpassed]
    · rw [passedOver_iff hfallback] at hpassed
      unfold LlmEnv.opened
      cases hstanding : env.standing userId p with
      | skipped => exact absurd (.inl hstanding) hpassed
      | broken e => exact absurd (.inr ⟨e, hstanding⟩) hpassed
      | locked e =>
        have htry := tryProvider_of_locked
          (fun p model credential ↦ (pure ⟨p, model, credential⟩ : Call StreamSession)) false none
          hstanding
        rw [failover_of_settle LlmEnv.allFailed order last (congrArg Prod.snd htry)]
        rfl
      | ready credential =>
        have htry := tryProvider_of_ready
          (fun p model credential ↦ (pure ⟨p, model, credential⟩ : Call StreamSession)) false none
          hstanding
        rw [failover_of_settle LlmEnv.allFailed order last (congrArg Prod.snd htry)]
        rfl

private theorem answers_iff {p : Provider} :
    env.Answers userId p ↔ ∃ response, env.answer? userId p = some response := by
  simp only [LlmEnv.Answers, answer?_eq_some, exists_and_left]

/-- A provider that neither passes the loop on nor accepts ends it without a stream. -/
theorem opened_of_rejected (hfallback : env.config.fallbackEnabled = true) {p : Provider}
    (order : List Provider) (hpassed : ¬ env.PassedOver false (env.standing userId p))
    (hnone : env.answer? userId p = none) : env.opened userId (p :: order) = none := by
  rw [passedOver_iff hfallback] at hpassed
  unfold LlmEnv.opened
  cases hstanding : env.standing userId p with
  | skipped => exact absurd (.inl hstanding) hpassed
  | broken e => exact absurd (.inr ⟨e, hstanding⟩) hpassed
  | locked e => rfl
  | ready credential =>
    cases hreply : env.reply p with
    | error e => rfl
    | ok response =>
      rw [answer?_eq_some.mpr ⟨⟨credential, hstanding⟩, hreply⟩] at hnone
      cases hnone

/-- What is opened is what is accepted first, precisely when the loop opens the stream of an
accepting provider or there is none. -/
theorem opened_eq_iff (hfallback : env.config.fallbackEnabled = true) (order : List Provider) :
    env.opened userId order = order.findSome? (env.answer? userId) ↔
      env.OpensAccepting userId order := by
  induction order with
  | nil => exact iff_of_true rfl (.inl (by simp))
  | cons p order ih =>
    unfold LlmEnv.OpensAccepting at ih ⊢
    unfold Gets
    rw [List.findSome?_cons, List.forall_mem_cons, answers_iff]
    cases hanswer : env.answer? userId p with
    | some response =>
      obtain ⟨⟨credential, hready⟩, hreply⟩ := answer?_eq_some.mp hanswer
      refine iff_of_true ?_ (.inr (.inl ⟨response, rfl⟩))
      simp [LlmEnv.opened, hready, hreply, Except.toOption]
    | none =>
      by_cases hpassed : env.PassedOver false (env.standing userId p)
      · rw [opened_of_passed hfallback order hpassed]
        simpa [hpassed] using ih
      · rw [opened_of_rejected hfallback order hpassed hanswer, eq_comm,
          List.findSome?_eq_none_iff]
        simp [hpassed]

/-- Where every entry is written, a completion comes of the first provider that is not passed
over, if that one accepts the request. -/
theorem result_quiet_of_gets (hfallback : env.config.fallbackEnabled = true)
    (request : CompletionRequest) {order : List Provider} (last : Option LlmError)
    (h : Gets (fun p ↦ env.PassedOver false (env.standing userId p)) (env.Answers userId) order) :
    (failover (env.quiet.tryProvider userId (env.quiet.ask request.taskType userId) false
      request.modelOverride) LlmEnv.allFailed order last).result.toOption =
      env.opened userId order := by
  induction order generalizing last with
  | nil => cases h
  | cons p order ih =>
    rcases h with ⟨⟨credential, hready⟩, response, hreply⟩ | ⟨hpassed, hgets⟩
    · have hready' : env.quiet.standing userId p = .ready credential := hready
      have hbooks : env.quiet.booksFault p = none := by
        unfold LlmEnv.booksFault LlmEnv.quiet LlmEnv.escapes
        split <;> rfl
      have houtcome : env.quiet.outcome p = .ok response := outcome_eq_ok.mpr ⟨hreply, hbooks⟩
      have htry := tryProvider_of_ready (env.quiet.ask request.taskType userId) false
        request.modelOverride hready'
      rw [result_ask, houtcome] at htry
      rw [failover_of_settle LlmEnv.allFailed order last (congrArg Prod.snd htry)]
      simp [LlmEnv.opened, hready, hreply, Except.toOption]
    · have hpassed' : env.quiet.PassedOver false (env.quiet.standing userId p) := hpassed
      obtain ⟨hsilent, hpasses⟩ := tryProvider_of_passedOver
        (env.quiet.ask request.taskType userId) false request.modelOverride hpassed'
      obtain ⟨last', hloop⟩ := failover_of_silent LlmEnv.allFailed order last hsilent hpasses
      rw [hloop, ih last' hgets, opened_of_passed hfallback order hpassed]

/-- There is no completion where no provider accepts the request. -/
theorem result_quiet_of_none (request : CompletionRequest) {order : List Provider}
    (last : Option LlmError) (h : ∀ p ∈ order, env.answer? userId p = none) :
    (failover (env.quiet.tryProvider userId (env.quiet.ask request.taskType userId) false
      request.modelOverride) LlmEnv.allFailed order last).result.toOption = none := by
  cases hresult : (failover (env.quiet.tryProvider userId (env.quiet.ask request.taskType userId)
    false request.modelOverride) LlmEnv.allFailed order last).result with
  | error e => rfl
  | ok response =>
    obtain ⟨p, hp, hsettle⟩ := exists_settle_of_ok LlmEnv.allFailed order last hresult
    obtain ⟨-, hnone, -⟩ | ⟨credential, books, hready, -, htry⟩ :=
      tryProvider_ask env.quiet userId request.taskType false request.modelOverride p
    · exact absurd hsettle (hnone response)
    · rw [htry] at hsettle
      have hreply : env.reply p = .ok response := (outcome_eq_ok.mp (settle_eq_ok.mp hsettle)).1
      have hready' : env.standing userId p = .ready credential := hready
      have hanswer := h p (mem_of_mem_tried hp)
      rw [answer?_eq_some.mpr ⟨⟨credential, hready'⟩, hreply⟩] at hanswer
      cases hanswer

/-- **Streams.** With fallback on, a stream comes from the first provider that accepts the
request, as a completion does, precisely when that is the first one that is not passed over, or
none accepts it. -/
theorem streamsAsComplete_iff (env : LlmEnv) (userId : String) (request : CompletionRequest)
    (hfallback : env.config.fallbackEnabled = true) (hrequest : request.disableFallback = false) :
    env.StreamsAsComplete userId request ↔
      ∀ order, env.config.candidates request.preferredProvider = .ok order →
        env.OpensAccepting userId order := by
  cases horder : env.config.candidates request.preferredProvider with
  | error e =>
    refine iff_of_true ⟨by simp [horder], ?_⟩ (by simp)
    have hquiet : env.quiet.config.candidates request.preferredProvider = .error e := horder
    simp only [LlmEnv.streamed, LlmEnv.streamComplete, LlmEnv.complete,
      LlmEnv.executeWithFallback, horder, hquiet]
    rfl
  | ok order =>
    have hstreamed : (env.streamed userId request).result.toOption = env.opened userId order := by
      unfold LlmEnv.streamed LlmEnv.streamComplete LlmEnv.executeWithFallback
      rw [horder]
      exact toOption_streamed hfallback order none
    have hcomplete : env.quiet.complete request userId =
        failover (env.quiet.tryProvider userId (env.quiet.ask request.taskType userId) false
          request.modelOverride) LlmEnv.allFailed order none := by
      have hquiet : env.quiet.config.candidates request.preferredProvider = .ok order := horder
      unfold LlmEnv.complete LlmEnv.executeWithFallback
      rw [hquiet, hrequest]
    simp only [Except.ok.injEq, forall_eq']
    rw [← opened_eq_iff hfallback]
    constructor
    · intro h
      rw [← hstreamed]
      exact h.first order horder
    · intro h
      refine ⟨?_, ?_⟩
      · simp only [horder, Except.ok.injEq, forall_eq']
        exact hstreamed.trans h
      · rw [hstreamed, hcomplete]
        rcases (opened_eq_iff hfallback order).mp h with hnone | hgets
        · rw [result_quiet_of_none request none hnone, h]
          exact List.findSome?_eq_none_iff.mpr hnone
        · exact (result_quiet_of_gets hfallback request none hgets).symm

end

namespace PlanEnv

theorem streams_seeded :
    (seeded (some "sk-c") []).StreamsAsComplete "u" question := by
  refine (streamsAsComplete_iff (seeded (some "sk-c") []).toLlmEnv "u" question rfl rfl).mpr ?_
  intro order horder
  cases horder
  exact .inr (.inl ⟨⟨.system, rfl⟩, _, rfl⟩)

/-- The compatible provider rejects what Anthropic accepts. -/
def rejecting : PlanEnv :=
  { seeded (some "sk-c") [] with
    reply := fun p ↦
      if p = .openaiCompatible then .error (.sdk "rate limit")
      else .ok ⟨"{}", p, "model", 1, 1, 0, 1⟩ }

theorem stream_lost : ¬ ∀ (env : LlmEnv) (userId : String) (request : CompletionRequest),
    env.config.fallbackEnabled = true → request.disableFallback = false →
      env.StreamsAsComplete userId request := by
  intro h
  have hsame := (h rejecting.toLlmEnv "u" question rfl rfl).same
  revert hsame
  decide +kernel

end PlanEnv

end WikiMind.Llm
