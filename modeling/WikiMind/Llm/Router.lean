import WikiMind.Base.DateTime
import WikiMind.Base.Failover
import WikiMind.Base.Text
import WikiMind.Llm.Request

/-!
# The LLM router

`LLMRouter` (`engine/llm_router.py`): the order of providers, their availability and keys,
the fallback loop, and the three ways to call a model. A call is traced by its effects on
providers and on the cost and trace tables. Provider replies and faults of the database
come from the environment; the client sends a request when `complete` runs, or, for a
stream, when its chunks are first pulled. The budget check runs as a task of its own.
-/

namespace WikiMind.Llm

open WikiMind.Base

/-- Exceptions by their class, with the text `str` gives. -/
inductive LlmError where
  | upstream (text : String)
  | value (text : String)
  | key (text : String)
  | os (text : String)
  | sdk (text : String)
  | sqlalchemy (text : String)
  | quota (resource : String) (used limit : Nat)
  | other (text : String)
  deriving DecidableEq, Repr

namespace LlmError

/-- `str(e)`. -/
def text : LlmError → String
  | upstream t | value t | key t | os t | sdk t | sqlalchemy t | other t => t
  | quota resource used limit =>
    resource ++ " quota exceeded: " ++ toString used ++ "/" ++ toString limit

/-- Membership in `_LLM_PROVIDER_ERRORS`: `engine/llm_router.py:103`. -/
def isProviderError : LlmError → Bool
  | upstream _ | value _ | key _ | os _ | sdk _ => true
  | sqlalchemy _ | quota .. | other _ => false

end LlmError

/-- The `ValueError` of `Provider(text)`. -/
def invalidProvider (text : String) : LlmError :=
  .value ("'" ++ text ++ "' is not a valid Provider")

/-- `settings.llm` under the runtime overlay, the system keys (`config.py:736`) and whether
the settings see a key of the compatible provider (`config.py:590`). -/
structure LlmConfig where
  billingEnabled : Bool
  defaultProvider : String
  fallbackEnabled : Bool
  traceEnabled : Bool
  enabled : Provider → Bool
  model : Provider → String
  apiKey : Provider → Option String
  hasCompatibleKey : Bool
  compatibleModel : String
  compatibleBaseUrl : String
  compatibleMaxTokensField : String
  compatibleReasoningFormat : String

/-- A stored key of a user; `key` is what decryption gives.
`models/tables/user_settings.py:13`. -/
structure UserApiKey where
  userId : String
  provider : Provider
  key : Option String
  deriving DecidableEq, Repr

/-- A cost entry: `models/tables/jobs.py:30`. -/
structure CostLog where
  userId : String
  provider : Provider
  model : String
  taskType : TaskType
  inputTokens : Nat
  outputTokens : Nat
  costUsd : Rat
  latencyMs : Nat
  createdAt : DateTime
  deriving DecidableEq, Repr

/-- Whose key a request is sent with. -/
inductive Credential where
  | user (key : String)
  | system
  deriving DecidableEq, Repr

/-- What the modelled calls do to the outside. -/
inductive Effect where
  | spendChecked (userId planId : String)
  | providerCall (provider : Provider) (model : String) (credential : Credential)
  | costLogged (entry : CostLog)
  | traceLogged (userId model : String) (taskType : TaskType)
  deriving DecidableEq, Repr

/-- A computation of the router. -/
abbrev Call (α : Type) := Traced Effect LlmError α

/-- The router and its surroundings during one call: configuration, stored keys, the
instances cached with a system key, the clock, the reply of each provider, and the faults
of key lookups and bookkeeping writes. -/
structure LlmEnv where
  config : LlmConfig
  userApiKeys : List UserApiKey
  cached : Provider → Bool
  now : DateTime
  reply : Provider → Except LlmError CompletionResponse
  lookupFails : Provider → Bool
  costLogFault : Provider → Option LlmError
  traceLogFault : Provider → Option LlmError

namespace LlmConfig

variable (c : LlmConfig)

/-- `RuntimeConfig.get_openai_compatible_enabled`: `config.py:700`. -/
def compatibleEnabled : Bool :=
  (c.hasCompatibleKey || c.enabled .openaiCompatible) && c.compatibleBaseUrl != "" &&
    c.compatibleModel != ""

/-- Whether a provider is added to the order as a fallback. -/
def orderEnabled (p : Provider) : Bool :=
  if p = .openaiCompatible then c.compatibleEnabled else c.enabled p

/-- The preferred provider and the default one, once. -/
def leadingProviders (preferred : Option Provider) (default : Provider) : List Provider :=
  if default ∈ preferred.toList then preferred.toList else preferred.toList ++ [default]

/-- The providers to try: `engine/llm_router.py:159`. -/
def getProviderOrder (preferred : Option Provider) : Except LlmError (List Provider) :=
  match Provider.ofValue c.defaultProvider with
  | none => .error (invalidProvider c.defaultProvider)
  | some default =>
    let order := leadingProviders preferred default
    .ok (order ++ Provider.all.filter fun p ↦ p ∉ order ∧ c.orderEnabled p)

/-- Add the providers a user may have a key for: `engine/llm_router.py:445`. -/
def withKeyCapable (order : List Provider) : List Provider :=
  order ++ [Provider.anthropic, .openai, .google].filter (· ∉ order)

/-- The providers of the fallback loop. -/
def candidates (preferred : Option Provider) : Except LlmError (List Provider) :=
  (c.getProviderOrder preferred).map withKeyCapable

/-- Whether the system can call a provider: `engine/llm_router.py:184`. -/
def isProviderAvailable (p : Provider) : Bool :=
  match p with
  | .openaiCompatible =>
    (truthy (c.apiKey p)).isSome && c.compatibleModel != "" && c.compatibleBaseUrl != ""
  | .ollama | .mock => c.enabled p
  | .anthropic | .openai | .google => c.enabled p && (truthy (c.apiKey p)).isSome

/-- The model to ask for: `engine/llm_router.py:250`. An empty override counts as none. -/
def getModel (p : Provider) (modelOverride : Option String) : String :=
  match truthy modelOverride with
  | some model => model
  | none =>
    if p = .openaiCompatible then
      if c.compatibleModel = "" then "unknown" else c.compatibleModel
    else c.model p

/-- The key check of a provider's constructor: the user's key, else the system's. -/
def requireKey (p : Provider) (name : String) (userKey : Option String) :
    Except LlmError Credential :=
  match truthy userKey with
  | some key => .ok (.user key)
  | none =>
    if (truthy (c.apiKey p)).isSome then .ok .system
    else .error (.value (name ++ " API key not configured"))

/-- The further checks of the compatible provider:
`engine/providers/openai_compatible.py:41`. -/
def checkCompatible (credential : Credential) : Except LlmError Credential :=
  if c.compatibleBaseUrl = "" then .error (.value "OpenAI-compatible base URL not configured")
  else if c.compatibleMaxTokensField ∉ ["max_tokens", "max_completion_tokens"] then
    .error (.value "max_tokens_field must be 'max_tokens' or 'max_completion_tokens'")
  else if c.compatibleReasoningFormat ∉ ["none", "openai", "openrouter"] then
    .error (.value "reasoning_format must be 'none', 'openai', or 'openrouter'")
  else .ok credential

/-- Build a provider's client, or raise the error of its constructor. -/
def construct (p : Provider) (userKey : Option String) : Except LlmError Credential :=
  match p with
  | .anthropic => c.requireKey p "Anthropic" userKey
  | .openai => c.requireKey p "openai" userKey
  | .openaiCompatible => c.requireKey p "openai_compatible" userKey >>= c.checkCompatible
  | .google => c.requireKey p "Google" userKey
  | .ollama | .mock => .ok .system

end LlmConfig

/-- The row of a user and a provider, decrypted: `services/api_keys.py:152`. Several rows
raise a database error, a row that does not decrypt raises `InvalidToken`. -/
def getUserApiKey (keys : List UserApiKey) (userId : String) (p : Provider) :
    Except LlmError (Option String) :=
  match Rows.oneOrNone (fun k ↦ k.userId = userId ∧ k.provider = p) keys with
  | .error _ => .error (.sqlalchemy "Multiple rows were found when one or none was required")
  | .ok none => .ok none
  | .ok (some row) =>
    match row.key with
    | some key => .ok (some key)
    | none => .error (.other "")

/-- Look up the user's key for a provider: `engine/llm_router.py:234`. Database faults
count as no key. -/
def resolveUserKey (keys : List UserApiKey) (fails : Bool) (userId : String) (p : Provider) :
    Except LlmError (Option String) :=
  if p = .ollama ∨ p = .mock ∨ fails then .ok none
  else
    match getUserApiKey keys userId p with
    | .error (.sqlalchemy _) => .ok none
    | key => key

namespace LlmEnv

variable (env : LlmEnv)

/-- A cached instance or a new one: `engine/llm_router.py:197`. No provider occurs twice in
one loop, so the cache it began with decides. -/
def getProviderInstance (p : Provider) (userKey : Option String) : Except LlmError Credential :=
  if userKey = none ∧ env.cached p then .ok .system else env.config.construct p userKey

/-- Write a cost entry; database errors are swallowed. `engine/llm_router.py:351`. -/
def logCost (p : Provider) (model : String) (taskType : TaskType)
    (response : CompletionResponse) (userId : String) : Call Unit :=
  match env.costLogFault p with
  | none => .emit (.costLogged {
      userId, provider := p, model, taskType, inputTokens := response.inputTokens,
      outputTokens := response.outputTokens, costUsd := response.costUsd,
      latencyMs := response.latencyMs, createdAt := env.now })
  | some (.sqlalchemy _) => pure ()
  | some e => .raise e

/-- Write a trace entry when tracing is on: `engine/llm_router.py:377`. -/
def logTrace (p : Provider) (model : String) (taskType : TaskType) (userId : String) :
    Call Unit :=
  if env.config.traceEnabled then
    match env.traceLogFault p with
    | none => .emit (.traceLogged userId model taskType)
    | some (.sqlalchemy _) => pure ()
    | some e => .raise e
  else pure ()

/-- Wrap the error of a provider: `engine/llm_router.py:475`. -/
def providerFailed (p : Provider) (e : LlmError) : LlmError :=
  .upstream ("Provider " ++ p.value ++ " failed: " ++ e.text)

/-- The error after the last candidate: `engine/llm_router.py:481`. -/
def allFailed (last : Option LlmError) : LlmError :=
  .upstream ("All LLM providers failed. Last error: " ++ (last.map LlmError.text).getD "None")

section Fallback

variable {α : Type} (userId : String)
  (operation : Provider → String → Credential → Call α) (disableFallback : Bool)
  (modelOverride : Option String)

/-- Create the instance and run the operation on it. -/
def invoke (p : Provider) (userKey : Option String) : Call α :=
  .lift (env.getProviderInstance p userKey) >>=
    operation p (env.config.getModel p modelOverride)

/-- What the loop does with the result of an operation: `engine/llm_router.py:454–479`. -/
def settle (p : Provider) : Except LlmError α → Attempt LlmError α
  | .ok a => .settle (.ok a)
  | .error e =>
    if ¬ e.isProviderError then .settle (.error e)
    else if disableFallback then .settle (.error (providerFailed p e))
    else if env.config.fallbackEnabled then .next e
    else .settle (.error e)

/-- One round of the loop. The key lookup is outside its `try`. -/
def tryProvider (p : Provider) : List Effect × Attempt LlmError α :=
  match resolveUserKey env.userApiKeys (env.lookupFails p) userId p with
  | .error e => ([], .settle (.error e))
  | .ok userKey =>
    if truthy userKey = none ∧ ¬ env.config.isProviderAvailable p then ([], .skip)
    else
      let tried := env.invoke operation modelOverride p userKey
      (tried.effects, env.settle disableFallback p tried.result)

/-- The fallback loop: `engine/llm_router.py:409`. -/
def executeWithFallback (preferred : Option Provider) : Call α :=
  match env.config.candidates preferred with
  | .error e => .raise e
  | .ok order =>
    failover (env.tryProvider userId operation disableFallback modelOverride) allFailed order none

end Fallback

/-- Ask a provider, and keep its answer in the books: `engine/llm_router.py:495`. -/
def ask (taskType : TaskType) (userId : String) (p : Provider) (model : String)
    (credential : Credential) : Call CompletionResponse := do
  .emit (.providerCall p model credential)
  let response ← .lift (env.reply p)
  env.logCost p model taskType response userId
  env.logTrace p model taskType userId
  return response

/-- `LLMRouter.complete`: `engine/llm_router.py:484`. -/
def complete (request : CompletionRequest) (userId : String) : Call CompletionResponse :=
  env.executeWithFallback userId (env.ask request.taskType userId) request.disableFallback
    request.modelOverride request.preferredProvider

/-- `LLMRouter.complete_multimodal`, which has no override and no way to turn fallback off:
`engine/llm_router.py:537`. -/
def completeMultimodal (taskType : TaskType) (userId : String) (preferred : Option Provider) :
    Call CompletionResponse :=
  env.executeWithFallback userId (env.ask taskType userId) false none preferred

end LlmEnv

/-- An opened stream: `engine/provider_base.py:52`. -/
structure StreamSession where
  provider : Provider
  model : String
  credential : Credential
  deriving DecidableEq, Repr

namespace LlmEnv

variable (env : LlmEnv)

/-- `LLMRouter.stream_complete`: `engine/llm_router.py:603`. The request's override and its
fallback flag are not passed on. Opening a stream sends nothing yet. -/
def streamComplete (request : CompletionRequest) (userId : String) : Call StreamSession :=
  env.executeWithFallback userId (fun p model credential ↦ pure ⟨p, model, credential⟩) false none
    request.preferredProvider

/-- Pull the chunks of a stream: the provider is called now. -/
def consume (s : StreamSession) : Call CompletionResponse := do
  .emit (.providerCall s.provider s.model s.credential)
  .lift (env.reply s.provider)

end LlmEnv

/-! ### How far the loop gets -/

/-- How the loop finds a provider: the key lookup raises, the provider is not usable, its
client cannot be built, or it can be called. -/
inductive Standing where
  | locked (e : LlmError)
  | skipped
  | broken (e : LlmError)
  | ready (credential : Credential)
  deriving DecidableEq, Repr

namespace LlmEnv

variable (env : LlmEnv) (userId : String)

/-- The standing of a provider for a user. -/
def standing (p : Provider) : Standing :=
  match resolveUserKey env.userApiKeys (env.lookupFails p) userId p with
  | .error e => .locked e
  | .ok userKey =>
    if truthy userKey = none ∧ ¬ env.config.isProviderAvailable p then .skipped
    else
      match env.getProviderInstance p userKey with
      | .error e => .broken e
      | .ok credential => .ready credential

/-- Whether the loop goes on to the next provider without a call. -/
def PassedOver (disableFallback : Bool) : Standing → Prop
  | .skipped => True
  | .broken _ => disableFallback = false ∧ env.config.fallbackEnabled = true
  | .locked _ | .ready _ => False

/-- Whether the loop gets to a provider it can call. -/
def Reaches (disableFallback : Bool) : List Provider → Prop
  | [] => False
  | p :: ps =>
    (∃ credential, env.standing userId p = .ready credential) ∨
      env.PassedOver disableFallback (env.standing userId p) ∧ Reaches disableFallback ps

end LlmEnv

/-- The constructors raise provider errors only. -/
theorem construct_error {c : LlmConfig} {p : Provider} {userKey : Option String} {e : LlmError}
    (h : c.construct p userKey = .error e) : e.isProviderError = true := by
  have hkey : ∀ (q : Provider) (name : String) (e' : LlmError),
      c.requireKey q name userKey = .error e' → e'.isProviderError = true := by
    intro q name e' h'
    unfold LlmConfig.requireKey at h'
    split at h'
    · cases h'
    · split at h'
      · cases h'
      · cases h'
        rfl
  cases p with
  | anthropic => exact hkey _ _ _ h
  | openai => exact hkey _ _ _ h
  | google => exact hkey _ _ _ h
  | ollama => cases h
  | mock => cases h
  | openaiCompatible =>
    simp only [LlmConfig.construct] at h
    cases hcred : c.requireKey .openaiCompatible "openai_compatible" userKey with
    | error e' =>
      rw [hcred] at h
      cases h
      exact hkey _ _ _ hcred
    | ok credential =>
      rw [hcred] at h
      change c.checkCompatible credential = .error e at h
      unfold LlmConfig.checkCompatible at h
      split at h
      · cases h
        rfl
      · split at h
        · cases h
          rfl
        · split at h
          · cases h
            rfl
          · cases h

section Loop

variable {α : Type} {env : LlmEnv} {userId : String}
  (operation : Provider → String → Credential → Call α) (disableFallback : Bool)
  (modelOverride : Option String) {p : Provider}

private theorem getProviderInstance_error {userKey : Option String} {e : LlmError}
    (h : env.getProviderInstance p userKey = .error e) : e.isProviderError = true := by
  unfold LlmEnv.getProviderInstance at h
  split at h
  · cases h
  · exact construct_error h

/-- A key lookup that raises ends the loop. -/
theorem tryProvider_of_locked {e : LlmError} (h : env.standing userId p = .locked e) :
    env.tryProvider userId operation disableFallback modelOverride p =
      ([], .settle (.error e)) := by
  unfold LlmEnv.standing at h
  unfold LlmEnv.tryProvider
  split at h
  · cases h
    rfl
  · split at h
    · cases h
    · split at h <;> cases h

/-- An unusable provider is passed over. -/
theorem tryProvider_of_skipped (h : env.standing userId p = .skipped) :
    env.tryProvider userId operation disableFallback modelOverride p = ([], .skip) := by
  unfold LlmEnv.standing at h
  unfold LlmEnv.tryProvider
  split at h
  · cases h
  · next userKey hkey =>
    split at h
    · next hunusable => simp only [if_pos hunusable]
    · split at h <;> cases h

/-- A client that cannot be built is a provider error without a call. -/
theorem tryProvider_of_broken {e : LlmError} (h : env.standing userId p = .broken e) :
    e.isProviderError = true ∧
      env.tryProvider userId operation disableFallback modelOverride p =
        ([], env.settle disableFallback p (.error e)) := by
  unfold LlmEnv.standing at h
  unfold LlmEnv.tryProvider
  split at h
  · cases h
  · next userKey hkey =>
    split at h
    · cases h
    · next husable =>
      split at h
      · next e' hinstance =>
        cases h
        refine ⟨getProviderInstance_error hinstance, ?_⟩
        simp only [if_neg husable, LlmEnv.invoke, hinstance]
        rfl
      · cases h

/-- A provider that can be called runs the operation. -/
theorem tryProvider_of_ready {credential : Credential}
    (h : env.standing userId p = .ready credential) :
    env.tryProvider userId operation disableFallback modelOverride p =
      ((operation p (env.config.getModel p modelOverride) credential).effects,
        env.settle disableFallback p
          (operation p (env.config.getModel p modelOverride) credential).result) := by
  unfold LlmEnv.standing at h
  unfold LlmEnv.tryProvider
  split at h
  · cases h
  · next userKey hkey =>
    split at h
    · cases h
    · next husable =>
      split at h
      · cases h
      · next credential' hinstance =>
        cases h
        simp only [if_neg husable, LlmEnv.invoke, hinstance, Traced.lift_ok_bind]

/-- What becomes of a provider error. -/
theorem settle_error {e : LlmError} (he : e.isProviderError = true) :
    (env.settle disableFallback p (.error e) : Attempt LlmError α) =
      if disableFallback then .settle (.error (LlmEnv.providerFailed p e))
      else if env.config.fallbackEnabled then .next e else .settle (.error e) := by
  simp only [LlmEnv.settle, he, not_true_eq_false, if_false]

/-- With fallback turned off, the first provider tried settles the loop. -/
theorem settle_disabled (env : LlmEnv) (p : Provider) (r : Except LlmError α) :
    ∃ r', env.settle true p r = .settle r' := by
  cases r with
  | ok a => exact ⟨.ok a, rfl⟩
  | error e =>
    cases he : e.isProviderError with
    | true => exact ⟨_, by rw [settle_error true he, if_pos rfl]⟩
    | false => exact ⟨.error e, by simp [LlmEnv.settle, he]⟩

/-- A provider passed over leaves no effect. -/
theorem tryProvider_of_passedOver
    (h : env.PassedOver disableFallback (env.standing userId p)) :
    (env.tryProvider userId operation disableFallback modelOverride p).1 = [] ∧
      (env.tryProvider userId operation disableFallback modelOverride p).2.Passes := by
  cases hp : env.standing userId p with
  | locked e =>
    rw [hp] at h
    cases h
  | skipped =>
    rw [tryProvider_of_skipped operation disableFallback modelOverride hp]
    exact ⟨rfl, trivial⟩
  | broken e =>
    rw [hp] at h
    rcases tryProvider_of_broken operation disableFallback modelOverride hp with ⟨he, htry⟩
    rw [htry, settle_error disableFallback he, h.1, h.2]
    exact ⟨rfl, trivial⟩
  | ready credential =>
    rw [hp] at h
    cases h

/-- A provider that is neither called nor passed over ends the loop with an error. -/
theorem tryProvider_of_stuck
    (hready : ¬ ∃ credential, env.standing userId p = .ready credential)
    (hpassed : ¬ env.PassedOver disableFallback (env.standing userId p)) :
    ∃ e, env.tryProvider userId operation disableFallback modelOverride p =
      ([], .settle (.error e)) := by
  cases hp : env.standing userId p with
  | locked e => exact ⟨e, tryProvider_of_locked operation disableFallback modelOverride hp⟩
  | skipped =>
    rw [hp] at hpassed
    exact absurd trivial hpassed
  | broken e =>
    rw [hp] at hpassed
    rcases tryProvider_of_broken operation disableFallback modelOverride hp with ⟨he, htry⟩
    rw [htry, settle_error disableFallback he]
    cases disableFallback with
    | true => exact ⟨_, rfl⟩
    | false =>
      cases hfallback : env.config.fallbackEnabled with
      | true => exact absurd ⟨rfl, hfallback⟩ hpassed
      | false => exact ⟨_, rfl⟩
  | ready credential => exact absurd ⟨credential, hp⟩ hready

variable {disableFallback}

/-- A loop that gets to no provider it can call has no effect and raises. -/
theorem failover_of_not_reaches {ps : List Provider}
    (h : ¬ env.Reaches userId disableFallback ps) (last : Option LlmError) :
    ∃ e, failover (env.tryProvider userId operation disableFallback modelOverride)
      LlmEnv.allFailed ps last = .raise e := by
  induction ps generalizing last with
  | nil => exact ⟨_, rfl⟩
  | cons p ps ih =>
    unfold LlmEnv.Reaches at h
    rw [not_or, not_and] at h
    by_cases hpassed : env.PassedOver disableFallback (env.standing userId p)
    · have hsilent := tryProvider_of_passedOver operation disableFallback modelOverride hpassed
      rcases failover_of_silent LlmEnv.allFailed ps last hsilent.1 hsilent.2 with ⟨last', hloop⟩
      rw [hloop]
      exact ih (h.2 hpassed) last'
    · rcases tryProvider_of_stuck operation disableFallback modelOverride h.1 hpassed with ⟨e, he⟩
      exact ⟨e, by rw [failover_of_settle LlmEnv.allFailed ps last (by rw [he]), he]; rfl⟩

/-- A loop that gets to a provider begins with the operation on it, and ends there if that
returns. -/
theorem failover_of_reaches {ps : List Provider}
    (h : env.Reaches userId disableFallback ps) (last : Option LlmError) :
    ∃ p ∈ ps, ∃ credential rest,
      (failover (env.tryProvider userId operation disableFallback modelOverride)
        LlmEnv.allFailed ps last).effects =
          (operation p (env.config.getModel p modelOverride) credential).effects ++ rest ∧
      ∀ a, (operation p (env.config.getModel p modelOverride) credential).result = .ok a →
        rest = [] ∧
        (failover (env.tryProvider userId operation disableFallback modelOverride)
          LlmEnv.allFailed ps last).result = .ok a := by
  induction ps generalizing last with
  | nil => cases h
  | cons p ps ih =>
    unfold LlmEnv.Reaches at h
    rcases h with ⟨credential, hready⟩ | ⟨hpassed, hreaches⟩
    · have htry := tryProvider_of_ready operation disableFallback modelOverride hready
      cases hresult : (operation p (env.config.getModel p modelOverride) credential).result with
      | ok a =>
        refine ⟨p, List.mem_cons_self, credential, [], ?_⟩
        have hsettle : (env.tryProvider userId operation disableFallback modelOverride p).2 =
            .settle (.ok a) := by
          rw [htry, hresult]
          rfl
        rw [failover_of_settle LlmEnv.allFailed ps last hsettle, htry]
        refine ⟨(List.append_nil _).symm, fun b hb ↦ ?_⟩
        rw [hresult] at hb
        exact ⟨rfl, hb⟩
      | error e =>
        rcases effects_failover_cons LlmEnv.allFailed ps last with ⟨rest, hrest⟩
        refine ⟨p, List.mem_cons_self, credential, rest, ?_, fun b hb ↦ ?_⟩
        · rw [hrest, htry]
        · rw [hresult] at hb
          cases hb
    · have hsilent := tryProvider_of_passedOver operation disableFallback modelOverride hpassed
      rcases failover_of_silent LlmEnv.allFailed ps last hsilent.1 hsilent.2 with ⟨last', hloop⟩
      rcases ih hreaches last' with ⟨q, hq, credential, rest, hrest⟩
      rw [hloop]
      exact ⟨q, List.mem_cons_of_mem _ hq, credential, rest, hrest⟩

end Loop

/-! ### What a call to the router comes to -/

/-- No provider can be called: the order cannot be built, or the loop gets to none. -/
def LlmEnv.NoneReached (env : LlmEnv) (userId : String) (disableFallback : Bool)
    (preferred : Option Provider) : Prop :=
  ∀ order, env.config.candidates preferred = .ok order → ¬ env.Reaches userId disableFallback order

section Routes

variable {env : LlmEnv} {userId : String} {preferred : Option Provider}

private theorem leadingProviders_some (p default : Provider) :
    ∃ rest, LlmConfig.leadingProviders (some p) default = p :: rest ∧ p ∉ rest := by
  by_cases h : default = p
  · exact ⟨[], by simp [LlmConfig.leadingProviders, h], by simp⟩
  · exact ⟨[default], by simp [LlmConfig.leadingProviders, h], by simp [Ne.symm h]⟩

/-- A preferred provider is tried first, and once. -/
theorem candidates_some {c : LlmConfig} {p : Provider} {order : List Provider}
    (h : c.candidates (some p) = .ok order) : ∃ rest, order = p :: rest ∧ p ∉ rest := by
  unfold LlmConfig.candidates LlmConfig.getProviderOrder at h
  split at h
  · cases h
  · next default hdefault =>
    rcases leadingProviders_some p default with ⟨rest, hleading, hrest⟩
    cases h
    refine ⟨_, by simp only [LlmConfig.withKeyCapable, hleading, List.cons_append]; rfl, ?_⟩
    simp [hrest]

variable {α : Type} (operation : Provider → String → Credential → Call α)
  {disableFallback : Bool} (modelOverride : Option String)

/-- Without a provider to call, nothing happens. -/
theorem executeWithFallback_of_noneReached
    (h : env.NoneReached userId disableFallback preferred) :
    ∃ e, env.executeWithFallback userId operation disableFallback modelOverride preferred =
      .raise e := by
  unfold LlmEnv.executeWithFallback
  cases horder : env.config.candidates preferred with
  | error e => exact ⟨e, rfl⟩
  | ok order => exact failover_of_not_reaches operation modelOverride (h order horder) none

/-- Otherwise the operation on some provider comes first, and last if it returns. -/
theorem executeWithFallback_of_reached
    (h : ¬ env.NoneReached userId disableFallback preferred) :
    ∃ p credential rest,
      (env.executeWithFallback userId operation disableFallback modelOverride preferred).effects =
        (operation p (env.config.getModel p modelOverride) credential).effects ++ rest ∧
      ∀ a, (operation p (env.config.getModel p modelOverride) credential).result = .ok a →
        rest = [] ∧ (env.executeWithFallback userId operation disableFallback modelOverride
          preferred).result = .ok a := by
  unfold LlmEnv.NoneReached at h
  push Not at h
  rcases h with ⟨order, horder, hreaches⟩
  unfold LlmEnv.executeWithFallback
  rw [horder]
  rcases failover_of_reaches operation modelOverride hreaches none with
    ⟨p, _, credential, rest, hrest⟩
  exact ⟨p, credential, rest, hrest⟩

/-- Asking a provider begins with the call, and there is no other one. -/
theorem effects_ask (env : LlmEnv) (userId : String) (taskType : TaskType) (p : Provider)
    (model : String)
    (credential : Credential) :
    ∃ books, (env.ask taskType userId p model credential).effects =
        .providerCall p model credential :: books ∧
      ∀ q m c, .providerCall q m c ∉ books := by
  have hcost : ∀ (response : CompletionResponse) q m c,
      .providerCall q m c ∉ (env.logCost p model taskType response userId).effects := by
    intro response q m c
    unfold LlmEnv.logCost
    split <;> simp [Traced.emit, Traced.raise, pure]
  have htrace : ∀ q m c, .providerCall q m c ∉ (env.logTrace p model taskType userId).effects := by
    intro q m c
    unfold LlmEnv.logTrace
    split
    · split <;> simp [Traced.emit, Traced.raise, pure]
    · simp [pure]
  refine ⟨_, rfl, fun q m c ↦ ?_⟩
  refine Traced.notMem_effects_bind (by simp [Traced.lift]) fun response ↦ ?_
  refine Traced.notMem_effects_bind (hcost response q m c) fun _ ↦ ?_
  exact Traced.notMem_effects_bind (htrace q m c) fun _ ↦ by simp [pure]

end Routes

end WikiMind.Llm
