import Mathlib.Algebra.Field.Rat
import WikiMind.Billing.Entitlement
import WikiMind.Llm.Router

/-!
# Plan-aware routing

`plan_aware_complete` (`services/plan_routing.py:22`) and the places that call a model. In
hosted mode a call should reach a provider only after the plan of its user was looked up
and the daily cap checked, and then with the plan's provider and model unless the plan
allows own keys and the user has one. The result says for every call when it does.
-/

namespace WikiMind.Llm

open WikiMind.Base WikiMind.Billing

/-- The router with the tables plan routing reads, and the faults of its three lookups. -/
structure PlanEnv extends LlmEnv where
  billing : Billing.Db
  costLog : List CostLog
  planLookupFault : Option Exc
  spendLookupFault : Option LlmError
  keyCheckFails : Bool

/-- `int(q)`: rounding towards zero. -/
def truncate (q : Rat) : Int := if 0 ≤ q then q.floor else q.ceil

namespace PlanEnv

variable (env : PlanEnv)

/-- `get_effective_plan` as the caller sees it. -/
def effectivePlan (userId : String) : Except Exc Plan :=
  match env.planLookupFault with
  | some e => .error e
  | none => getEffectivePlan env.billing userId env.now

/-- Today's spend of a user, in whole cents. -/
def todayCents (userId : String) : Int :=
  truncate
    (((env.costLog.filter fun c ↦ c.userId = userId ∧ c.createdAt.date = env.now.date).map
      (·.costUsd)).sum * 100)

/-- Raise if today's spend has reached the cap of the plan: `services/quota.py:271`. -/
def checkDailyLlmSpend (userId : String) (plan : Plan) : Except LlmError Unit :=
  match plan.dailyLlmSpendCapCents.filter (· ≠ 0) with
  | none => .ok ()
  | some cap =>
    match env.spendLookupFault with
    | some e => .error e
    | none =>
      if cap ≤ env.todayCents userId then
        .error (.quota "llm_spend" (env.todayCents userId).toNat cap)
      else .ok ()

/-- `LLMRouter.has_user_key`: `engine/llm_router.py:245`. -/
def hasUserKey (userId : String) (p : Provider) : Except LlmError Bool :=
  (resolveUserKey env.userApiKeys env.keyCheckFails userId p).map Option.isSome

/-- The call with the restrictions of a plan: `services/plan_routing.py:68–73`. -/
def completeRestricted (plan : Plan) (request : CompletionRequest) (userId : String) :
    Call CompletionResponse :=
  match Provider.ofValue plan.llmProvider with
  | none => .raise (invalidProvider plan.llmProvider)
  | some p =>
    env.complete { request with
      preferredProvider := some p, modelOverride := some plan.llmModel, disableFallback := true }
      userId

/-- Own keys first, where the plan allows them: `services/plan_routing.py:63–73`. -/
def completeOnPlan (plan : Plan) (request : CompletionRequest) (userId : String) :
    Call CompletionResponse :=
  if plan.byokAllowed then
    match Provider.ofValue plan.llmProvider with
    | none => .raise (invalidProvider plan.llmProvider)
    | some p =>
      match env.hasUserKey userId p with
      | .error e => .raise e
      | .ok true => env.complete request userId
      | .ok false => env.completeRestricted plan request userId
  else env.completeRestricted plan request userId

/-- `plan_aware_complete`: `services/plan_routing.py:22`. Without billing or a session, and
after any exception of the plan lookup, the request passes through. -/
def planAwareComplete (request : CompletionRequest) (userId : String) (session : Bool) :
    Call CompletionResponse :=
  if env.config.billingEnabled ∧ session then
    match env.effectivePlan userId with
    | .error _ => env.complete request userId
    | .ok plan =>
      match env.checkDailyLlmSpend userId plan with
      | .error e => .raise e
      | .ok () => do
        .emit (.spendChecked userId plan.id)
        env.completeOnPlan plan request userId
  else env.complete request userId

/-- The calls of `answer_stream` for a stream read to its end: `engine/qa_agent.py:626–643`. -/
def answerStream (request : CompletionRequest) (userId : String) : Call CompletionResponse := do
  let session ← env.streamComplete request userId
  let response ← env.consume session
  .emit (.costLogged {
    userId, provider := response.providerUsed, model := response.modelUsed, taskType := .qa,
    inputTokens := response.inputTokens, outputTokens := response.outputTokens,
    costUsd := response.costUsd, latencyMs := response.latencyMs, createdAt := env.now })
  return response

end PlanEnv

/-! ### Call sites -/

/-- The functions that call a model. -/
inductive Site where
  | compile | compileWithGuidance | extractTakeaways | callLlm | crystallizeConversation
  | rebuildTaxonomy | runBatch | compareArticlePair | queryLlm | answerStream | postMessage
  | exportLinkedin | exportSlides | describeImagesViaLlm | testLlmConnection
  deriving DecidableEq, Repr

/-- How a call gets to the router. -/
inductive Route where
  | planAware (session : Bool)
  | complete
  | multimodal
  | stream
  deriving DecidableEq, Repr

/-- What each function calls, and whether it passes its session. -/
def Site.route : Site → Route
  -- engine/compiler.py:347, 438, engine/base_compiler.py:82
  | compile | compileWithGuidance | callLlm => .planAware true
  -- services/crystallization.py:213, services/taxonomy.py:334
  | crystallizeConversation | rebuildTaxonomy => .planAware true
  -- engine/linter/contradictions.py:316, 706, engine/qa_agent.py:728
  | runBatch | compareArticlePair | queryLlm => .planAware true
  -- engine/compiler.py:266, services/discussion.py:165
  | extractTakeaways | postMessage => .planAware false
  -- services/export.py:316, 343, api/routes/settings.py:526
  | exportLinkedin | exportSlides | testLlmConnection => .complete
  -- ingest/adapters/pdf.py:606
  | describeImagesViaLlm => .multimodal
  -- engine/qa_agent.py:626
  | answerStream => .stream

namespace PlanEnv

/-- The connection test turns fallback off while it runs: `api/routes/settings.py:513`. -/
def surroundings (env : PlanEnv) : Site → PlanEnv
  | .testLlmConnection => { env with config := { env.config with fallbackEnabled := false } }
  | _ => env

/-- The call a function makes for a user with the request it has built. -/
def callFrom (env : PlanEnv) (site : Site) (request : CompletionRequest) (userId : String) :
    Call CompletionResponse :=
  match site.route with
  | .planAware session => (env.surroundings site).planAwareComplete request userId session
  | .complete => (env.surroundings site).complete request userId
  | .multimodal => (env.surroundings site).completeMultimodal request.taskType userId none
  | .stream => (env.surroundings site).answerStream request userId

/-! ### Governed calls -/

/-- The plan allows own keys and the user has stored one. -/
def Exempt (env : PlanEnv) (userId : String) (plan : Plan) : Prop :=
  plan.byokAllowed = true ∧ ∃ k ∈ env.userApiKeys, k.userId = userId

/-- Every provider call comes after the spend check under the plan in force, and has the
provider and model of the plan unless the user is exempt. -/
def Governed (env : PlanEnv) (userId : String) (effects : List Effect) : Prop :=
  ∀ before p model credential after,
    effects = before ++ .providerCall p model credential :: after →
    ∃ plan, env.effectivePlan userId = .ok plan ∧ .spendChecked userId plan.id ∈ before ∧
      (env.Exempt userId plan ∨
        Provider.ofValue plan.llmProvider = some p ∧ model = plan.llmModel)

/-- The provider of a plan serves the call, or no provider does: its key lookup raises, its
client cannot be built, it can be called with the model of the plan, or it is not usable
and the loop gets to no other one. -/
def ServedByPlan (env : PlanEnv) (userId : String) (plan : Plan) (p : Provider) : Prop :=
  ∀ order, env.config.candidates (some p) = .ok order →
    match env.standing userId p with
    | .locked _ | .broken _ => True
    | .ready _ => env.config.getModel p (some plan.llmModel) = plan.llmModel
    | .skipped => ¬ env.Reaches userId true order

/-- When a call with a session is governed. -/
def PlanComplies (env : PlanEnv) (request : CompletionRequest) (userId : String) : Prop :=
  match env.effectivePlan userId with
  | .error _ => env.NoneReached userId request.disableFallback request.preferredProvider
  | .ok plan =>
    (∃ e, env.checkDailyLlmSpend userId plan = .error e) ∨ env.Exempt userId plan ∨
      ∀ p, Provider.ofValue plan.llmProvider = some p → env.ServedByPlan userId plan p

/-- When a call is governed: it passes its session and complies with the plan, or no
provider can be called. -/
def Complies (env : PlanEnv) (site : Site) (request : CompletionRequest) (userId : String) :
    Prop :=
  match site.route with
  | .planAware true => (env.surroundings site).PlanComplies request userId
  | .planAware false | .complete =>
    (env.surroundings site).NoneReached userId request.disableFallback request.preferredProvider
  | .multimodal => (env.surroundings site).NoneReached userId false none
  | .stream => (env.surroundings site).NoneReached userId false request.preferredProvider

section Governed

variable {env : PlanEnv} {userId : String}

private theorem governed_nil : env.Governed userId [] := by
  intro before p model credential after h
  simp at h

/-- A call that comes first is not governed. -/
theorem not_governed_of_call_first (p : Provider) (model : String) (credential : Credential)
    (rest : List Effect) : ¬ env.Governed userId (.providerCall p model credential :: rest) := by
  intro h
  rcases h [] p model credential rest rfl with ⟨plan, _, hmem, _⟩
  cases hmem

/-- After the spend check, a call has only to be one of the plan or of an exempt user. -/
theorem governed_checked_iff {plan : Plan} {rest : List Effect}
    (hplan : env.effectivePlan userId = .ok plan) :
    env.Governed userId (.spendChecked userId plan.id :: rest) ↔
      ∀ p model credential, .providerCall p model credential ∈ rest →
        env.Exempt userId plan ∨
          Provider.ofValue plan.llmProvider = some p ∧ model = plan.llmModel := by
  constructor
  · intro h p model credential hmem
    rcases List.append_of_mem hmem with ⟨before, after, hrest⟩
    rcases h (.spendChecked userId plan.id :: before) p model credential after
      (by rw [hrest, List.cons_append]) with ⟨plan', hplan', _, hcall⟩
    rw [hplan] at hplan'
    cases hplan'
    exact hcall
  · intro h before p model credential after hsplit
    cases before with
    | nil => simp at hsplit
    | cons effect before =>
      rw [List.cons_append, List.cons.injEq] at hsplit
      refine ⟨plan, hplan, ?_, h p model credential ?_⟩
      · rw [← hsplit.1]
        exact List.mem_cons_self
      · rw [hsplit.2]
        exact List.mem_append_right _ List.mem_cons_self

/-- A call that passes plan routing by is governed only if no provider can be called. -/
theorem governed_ask_iff {taskType : TaskType} {disableFallback : Bool}
    {modelOverride : Option String} {preferred : Option Provider} {called : PlanEnv} :
    env.Governed userId
        (called.executeWithFallback userId (called.ask taskType userId) disableFallback
          modelOverride preferred).effects ↔
      called.NoneReached userId disableFallback preferred := by
  constructor
  · intro h
    by_contra hreached
    rcases executeWithFallback_of_reached (called.ask taskType userId) modelOverride hreached with
      ⟨p, credential, rest, heffects, _⟩
    rcases effects_ask called.toLlmEnv userId taskType p
      (called.config.getModel p modelOverride) credential with ⟨books, hask, _⟩
    rw [heffects, hask] at h
    exact not_governed_of_call_first _ _ _ _ h
  · intro h
    rcases executeWithFallback_of_noneReached (called.ask taskType userId) modelOverride h with
      ⟨e, he⟩
    rw [he]
    exact governed_nil

/-- The same for a stream. -/
theorem governed_answerStream_iff {request : CompletionRequest} {called : PlanEnv} :
    env.Governed userId (called.answerStream request userId).effects ↔
      called.NoneReached userId false request.preferredProvider := by
  constructor
  · intro h
    by_contra hreached
    rcases executeWithFallback_of_reached
      (fun p model credential ↦ (pure ⟨p, model, credential⟩ : Call StreamSession)) none
      hreached with ⟨p, credential, rest, heffects, hreturn⟩
    rcases hreturn _ rfl with ⟨rfl, hresult⟩
    have hopened : called.streamComplete request userId =
        ⟨[], .ok ⟨p, called.config.getModel p none, credential⟩⟩ :=
      Traced.ext heffects hresult
    have hcall : ∃ rest, (called.answerStream request userId).effects =
        .providerCall p (called.config.getModel p none) credential :: rest := by
      unfold PlanEnv.answerStream
      rw [hopened, Traced.bind_of_ok rfl]
      rcases Traced.effects_bind
        (called.consume ⟨p, called.config.getModel p none, credential⟩) _ with ⟨rest, hrest⟩
      exact ⟨rest, hrest⟩
    rcases hcall with ⟨rest, hcall⟩
    rw [hcall] at h
    exact not_governed_of_call_first _ _ _ _ h
  · intro h
    rcases executeWithFallback_of_noneReached
      (fun p model credential ↦ (pure ⟨p, model, credential⟩ : Call StreamSession)) none h with
      ⟨e, he⟩
    have hstream : called.streamComplete request userId = .raise e := he
    have hraise : called.answerStream request userId = .raise e := by
      unfold PlanEnv.answerStream
      rw [hstream]
      rfl
    rw [hraise]
    exact governed_nil

private theorem resolveUserKey_of_no_key {keys : List UserApiKey} {fails : Bool} {p : Provider}
    (h : ∀ k ∈ keys, k.userId ≠ userId) : resolveUserKey keys fails userId p = .ok none := by
  unfold resolveUserKey
  split
  · rfl
  · have hnone : getUserApiKey keys userId p = .ok none := by
      have hrows : keys.filter (fun k ↦ k.userId = userId ∧ k.provider = p) = [] := by
        rw [List.filter_eq_nil_iff]
        intro k hk
        simp [h k hk]
      simp only [getUserApiKey, Rows.oneOrNone, hrows]
    rw [hnone]

/-- A user who is not exempt gets the restrictions of the plan. -/
theorem completeOnPlan_of_not_exempt {plan : Plan} {request : CompletionRequest}
    (h : ¬ env.Exempt userId plan) :
    env.completeOnPlan plan request userId = env.completeRestricted plan request userId := by
  unfold PlanEnv.completeOnPlan
  split
  · next hbyok =>
    have hkeys : ∀ k ∈ env.userApiKeys, k.userId ≠ userId := by
      intro k hk huser
      exact h ⟨hbyok, k, hk, huser⟩
    cases hp : Provider.ofValue plan.llmProvider with
    | none => simp only [PlanEnv.completeRestricted, hp]
    | some p =>
      have hcheck : env.hasUserKey userId p = .ok false := by
        unfold PlanEnv.hasUserKey
        rw [resolveUserKey_of_no_key hkeys]
        rfl
      simp only [hcheck]
  · rfl

section Loop

variable {p : Provider} (rest : List Provider) (taskType : TaskType) (modelOverride : Option String)

/-- Without fallback, a first provider that can be called is the only one called. -/
theorem calls_of_ready {credential : Credential}
    (hstanding : env.standing userId p = .ready credential) :
    ∃ books, (failover (env.tryProvider userId (env.ask taskType userId) true modelOverride)
        LlmEnv.allFailed (p :: rest) none).effects =
          .providerCall p (env.config.getModel p modelOverride) credential :: books ∧
      ∀ q m c, .providerCall q m c ∉ books := by
  have htry := tryProvider_of_ready (env.ask taskType userId) true modelOverride hstanding
  rcases settle_disabled env.toLlmEnv p
    (env.ask taskType userId p (env.config.getModel p modelOverride) credential).result with
    ⟨r, hr⟩
  rw [failover_of_settle LlmEnv.allFailed rest none (by rw [htry, hr]), htry]
  exact effects_ask _ _ taskType p _ credential

/-- After a first provider that is not usable, the loop calls another one if it gets to any. -/
theorem calls_of_skipped (hstanding : env.standing userId p = .skipped) :
    (¬ env.Reaches userId true (p :: rest) →
      (failover (env.tryProvider userId (env.ask taskType userId) true modelOverride)
        LlmEnv.allFailed (p :: rest) none).effects = []) ∧
    (env.Reaches userId true (p :: rest) → ∃ q ∈ rest, ∃ m c, .providerCall q m c ∈
      (failover (env.tryProvider userId (env.ask taskType userId) true modelOverride)
        LlmEnv.allFailed (p :: rest) none).effects) := by
  have htry := tryProvider_of_skipped (env.ask taskType userId) true modelOverride hstanding
  have hloop : failover (env.tryProvider userId (env.ask taskType userId) true modelOverride)
      LlmEnv.allFailed (p :: rest) none =
      failover (env.tryProvider userId (env.ask taskType userId) true modelOverride)
        LlmEnv.allFailed rest none := by
    simp only [failover, htry, List.nil_append]
  have hreaches : env.Reaches userId true (p :: rest) ↔ env.Reaches userId true rest := by
    simp [LlmEnv.Reaches, hstanding, LlmEnv.PassedOver]
  rw [hloop, hreaches]
  constructor
  · intro hnone
    rcases failover_of_not_reaches (env.ask taskType userId) modelOverride hnone none with ⟨e, he⟩
    rw [he]
    rfl
  · intro hreached
    rcases failover_of_reaches (env.ask taskType userId) modelOverride hreached none with
      ⟨q, hq, credential, after, heffects, _⟩
    rcases effects_ask env.toLlmEnv userId taskType q
      (env.config.getModel q modelOverride) credential with ⟨books, hask, _⟩
    refine ⟨q, hq, env.config.getModel q modelOverride, credential, ?_⟩
    rw [heffects, hask]
    exact List.mem_append_left _ List.mem_cons_self

end Loop

/-- Under the restrictions of a plan, calls go to its provider and model exactly when its
provider serves the call. -/
theorem onPlan_iff_served {plan : Plan} (request : CompletionRequest) {p : Provider}
    (hp : Provider.ofValue plan.llmProvider = some p) :
    (∀ q model credential,
      .providerCall q model credential ∈ (env.completeRestricted plan request userId).effects →
        p = q ∧ model = plan.llmModel) ↔
      env.ServedByPlan userId plan p := by
  have hcomplete : env.completeRestricted plan request userId =
      env.executeWithFallback userId (env.ask request.taskType userId) true (some plan.llmModel)
        (some p) := by
    simp only [PlanEnv.completeRestricted, hp]
    rfl
  rw [hcomplete]
  unfold PlanEnv.ServedByPlan LlmEnv.executeWithFallback
  cases horder : env.config.candidates (some p) with
  | error e => simp [Traced.raise]
  | ok order =>
    rcases candidates_some horder with ⟨rest, rfl, hrest⟩
    simp only [Except.ok.injEq, forall_eq']
    cases hstanding : env.standing userId p with
    | locked e =>
      have htry := tryProvider_of_locked (env.ask request.taskType userId) true
        (some plan.llmModel) hstanding
      simp [failover, htry]
    | broken e =>
      rcases tryProvider_of_broken (env.ask request.taskType userId) true (some plan.llmModel)
        hstanding with ⟨he, htry⟩
      simp [failover, htry, settle_error, he]
    | ready credential =>
      rcases calls_of_ready rest request.taskType (some plan.llmModel) hstanding with
        ⟨books, heffects, hbooks⟩
      rw [heffects]
      constructor
      · intro h
        exact (h p _ credential List.mem_cons_self).2
      · intro h q model c hmem
        rcases List.mem_cons.mp hmem with hcall | hmem
        · cases hcall
          exact ⟨rfl, h⟩
        · exact absurd hmem (hbooks q model c)
    | skipped =>
      rcases calls_of_skipped rest request.taskType (some plan.llmModel) hstanding with
        ⟨hnone, hreached⟩
      constructor
      · intro h hreaches
        rcases hreached hreaches with ⟨q, hq, m, c, hmem⟩
        rw [← (h q m c hmem).1] at hq
        exact hrest hq
      · intro h q model c hmem
        rw [hnone h] at hmem
        cases hmem

/-- When a call with a session is governed. -/
theorem governed_planAware_iff {request : CompletionRequest}
    (hhosted : env.config.billingEnabled = true) :
    env.Governed userId (env.planAwareComplete request userId true).effects ↔
      env.PlanComplies request userId := by
  have hrouted : env.config.billingEnabled = true ∧ true = true := ⟨hhosted, rfl⟩
  unfold PlanEnv.planAwareComplete PlanEnv.PlanComplies
  rw [if_pos hrouted]
  cases hplan : env.effectivePlan userId with
  | error e => exact governed_ask_iff
  | ok plan =>
    cases hspend : env.checkDailyLlmSpend userId plan with
    | error e =>
      simp only [hspend]
      exact iff_of_true governed_nil (.inl ⟨e, rfl⟩)
    | ok _ =>
      simp only [hspend, Traced.emit_bind]
      rw [governed_checked_iff hplan]
      simp only [reduceCtorEq, exists_false, false_or]
      by_cases hexempt : env.Exempt userId plan
      · simp [hexempt]
      · rw [or_iff_right hexempt, completeOnPlan_of_not_exempt hexempt]
        simp only [hexempt, false_or]
        cases hp : Provider.ofValue plan.llmProvider with
        | none => simp [PlanEnv.completeRestricted, hp, Traced.raise]
        | some p =>
          simp only [Option.some.injEq, forall_eq']
          exact onPlan_iff_served request hp

end Governed

/-- **Governed calls.** In hosted mode, the provider calls of every call site are governed by
the plan of the user exactly when the call complies: it passes its session, the plan lookup
succeeds, and the spend check stops it, the user is exempt or the plan's provider serves
it; or no provider can be called. -/
theorem governed_iff (env : PlanEnv) (site : Site) (request : CompletionRequest)
    (userId : String) (hhosted : env.config.billingEnabled = true) :
    env.Governed userId (env.callFrom site request userId).effects ↔
      env.Complies site request userId := by
  have hrouted : ∀ called : PlanEnv,
      env.Governed userId (called.planAwareComplete request userId false).effects ↔
        called.NoneReached userId request.disableFallback request.preferredProvider := by
    intro called
    simp only [PlanEnv.planAwareComplete, Bool.false_eq_true, and_false, if_false]
    exact governed_ask_iff
  cases site with
  | compile | compileWithGuidance | callLlm | crystallizeConversation | rebuildTaxonomy
  | runBatch | compareArticlePair | queryLlm => exact governed_planAware_iff hhosted
  | extractTakeaways | postMessage => exact hrouted env
  | exportLinkedin | exportSlides | testLlmConnection | describeImagesViaLlm =>
    exact governed_ask_iff
  | answerStream => exact governed_answerStream_iff

/-- A hosted instance with the seeded free plan as default, a compatible provider as its
default provider, and Anthropic as a fallback. Every provider answers. -/
def seeded (compatibleKey : Option String) (costLog : List CostLog) : PlanEnv where
  config := {
    billingEnabled := true, defaultProvider := "openai_compatible", fallbackEnabled := true
    traceEnabled := false, enabled := fun p ↦ p = .anthropic ∨ p = .openaiCompatible
    model := fun _ ↦ "model"
    apiKey := fun p ↦
      if p = .anthropic then some "sk-a" else if p = .openaiCompatible then compatibleKey else none
    hasCompatibleKey := compatibleKey.isSome, compatibleModel := "gpt-4o-mini"
    compatibleBaseUrl := "http://llm", compatibleMaxTokensField := "max_tokens"
    compatibleReasoningFormat := "openai" }
  userApiKeys := []
  cached := fun _ ↦ false
  now := ⟨0, none⟩
  reply := fun p ↦ .ok ⟨"{}", p, "model", 1, 1, 0, 1⟩
  lookupFails := fun _ ↦ false
  costLogFault := fun _ ↦ none
  traceLogFault := fun _ ↦ none
  billing := { plans := [freePlan "f"], users := [], subscriptions := [], webhookEvents := [] }
  costLog := costLog
  planLookupFault := none
  spendLookupFault := none
  keyCheckFails := false

/-- A request of user `u`. -/
def question : CompletionRequest := { system := "", messages := [("user", "q")] }

/-- An entry of one dollar, twice the daily cap of the free plan. -/
def oneDollar : CostLog :=
  ⟨"u", .openaiCompatible, "gpt-4o-mini", .qa, 1, 1, 1, 1, ⟨0, none⟩⟩

theorem governed_compile :
    (seeded (some "sk-c") []).Governed "u"
      ((seeded (some "sk-c") []).callFrom .compile question "u").effects := by
  refine (governed_iff (seeded (some "sk-c") []) .compile question "u" rfl).mpr ?_
  refine .inr (.inr fun p hp order _ ↦ ?_)
  cases hp
  rfl

/-- Over the cap, a stream, a discussion, takeaways, exports and page descriptions still
reach a provider; without a key for the plan's provider, a compilation reaches another one. -/
theorem ungoverned_calls :
    (seeded (some "sk-c") [oneDollar]).checkDailyLlmSpend "u" (freePlan "f") =
        .error (.quota "llm_spend" 100 50) ∧
      (∀ site ∈ [Site.answerStream, .postMessage, .extractTakeaways, .exportLinkedin,
          .exportSlides, .describeImagesViaLlm],
        ¬ (seeded (some "sk-c") [oneDollar]).Governed "u"
          ((seeded (some "sk-c") [oneDollar]).callFrom site question "u").effects) ∧
      ¬ (seeded none []).Governed "u"
        ((seeded none []).callFrom .compile question "u").effects := by
  refine ⟨by decide +kernel, ?_, ?_⟩
  · simp only [List.mem_cons, List.not_mem_nil, or_false, forall_eq_or_imp, forall_eq]
    refine ⟨?_, ?_, ?_, ?_, ?_, ?_⟩ <;> exact not_governed_of_call_first _ _ _ _
  · intro h
    have heffects : ((seeded none []).callFrom .compile question "u").effects =
        [.spendChecked "u" "f", .providerCall .anthropic "gpt-4o-mini" .system,
          .costLogged ⟨"u", .anthropic, "gpt-4o-mini", .compile, 1, 1, 0, 1, ⟨0, none⟩⟩] := by
      decide +kernel
    rcases h [.spendChecked "u" "f"] .anthropic "gpt-4o-mini" .system _ heffects with
      ⟨plan, hplan, _, hcall⟩
    cases hplan
    rcases hcall with hexempt | hcall
    · cases hexempt.1
    · cases hcall.1

end PlanEnv

end WikiMind.Llm
