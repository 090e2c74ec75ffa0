import WikiMind.Base.Run
import WikiMind.Base.Stateful
import WikiMind.Base.Text
import WikiMind.Llm.Router
import Mathlib.Logic.Function.Basic

/-!
# Runtime settings

Settings requests write a preference of their user and a value of one overlay that the whole
process reads (`api/routes/settings.py:220–499`, `config.py:655`). What the router takes for
the request of any user are the three values of the overlay, else those of the settings
(`engine/llm_router.py:161, 331, 478`).
-/

namespace WikiMind.Llm.RuntimeSettings

open WikiMind.Base

/-- A `float`, as a request may carry it. -/
inductive Amount where
  | finite (value : Rat)
  | infinity | negInfinity | nan
  deriving DecidableEq, Repr

/-- `amount <= 0`. -/
def Amount.nonPositive : Amount → Bool
  | .finite value => value ≤ 0
  | .negInfinity => true
  | .infinity | .nan => false

/-- A value of the overlay. -/
inductive Value where
  | str (value : String)
  | bool (value : Bool)
  | amount (value : Amount)
  deriving DecidableEq, Repr

/-- `models/tables/user_settings.py:32`: the key alone is the primary key. -/
structure UserPreference where
  key : String
  userId : String
  value : String
  deriving DecidableEq, Repr

/-- The settings of the process and the stored keys, which no settings request changes. -/
structure Env where
  isDev : Bool
  defaultProvider : String
  monthlyBudgetUsd : Amount
  fallbackEnabled : Bool
  enabled : Provider → Bool
  hasSystemKey : Provider → Bool
  compatibleBaseUrl : String
  compatibleModel : String
  userApiKeys : List UserApiKey
  amountStr : Amount → String

/-- The overlay, the preferences, and the connection tests under way, each with the value
it will put back. -/
structure State where
  overrides : String → Option Value
  preferences : List UserPreference
  tests : List (Nat × Value)

/-- How a request fails: with an answer, or by another exception. -/
inductive Failure where
  | http (status : Nat) (detail : String)
  | raised
  deriving DecidableEq, Repr

/-- `SettingsUpdateRequest`: `api/routes/settings.py:29`. -/
structure SettingsUpdateRequest where
  monthlyBudgetUsd : Option Amount := none
  defaultProvider : Option String := none
  fallbackEnabled : Option Bool := none
  openaiCompatibleBaseUrl : Option String := none
  openaiCompatibleModel : Option String := none
  openaiCompatibleSupportsJsonResponseFormat : Option Bool := none
  openaiCompatibleSupportsStreamUsage : Option Bool := none
  openaiCompatibleSupportsReasoningEffort : Option Bool := none
  openaiCompatibleMaxTokensField : Option String := none
  openaiCompatibleReasoningFormat : Option String := none
  deriving DecidableEq, Repr

abbrev Call := Stateful State Failure Unit

def providerKey : String := "llm.default_provider"

def budgetKey : String := "llm.monthly_budget_usd"

def fallbackKey : String := "llm.fallback_enabled"

/-- `str(value).lower()` of a flag. -/
def boolStr (value : Bool) : String := if value then "true" else "false"

/-! ### The overlay -/

/-- The settings the router takes. -/
@[ext] structure Effective where
  defaultProvider : Value
  monthlyBudgetUsd : Value
  fallbackEnabled : Value
  deriving DecidableEq, Repr

/-- `get_default_provider`, `get_monthly_budget_usd` and `get_fallback_enabled`, for the
request of any user: `config.py:686–708`. -/
def State.effective (env : Env) (s : State) : Effective where
  defaultProvider := (s.overrides providerKey).getD (.str env.defaultProvider)
  monthlyBudgetUsd := (s.overrides budgetKey).getD (.amount env.monthlyBudgetUsd)
  fallbackEnabled := (s.overrides fallbackKey).getD (.bool env.fallbackEnabled)

/-- `RuntimeConfig.set`. -/
def State.set (s : State) (key : String) (value : Value) : State :=
  { s with overrides := Function.update s.overrides key (some value) }

/-- The text override of a key, else a default. -/
def State.text (s : State) (key default : String) : String :=
  match s.overrides key with
  | some (.str value) => value
  | _ => default

/-- `_has_required_provider_config`: `api/routes/settings.py:186`. -/
def hasRequiredProviderConfig (env : Env) (s : State) (p : Provider) : Bool :=
  if p ≠ .openaiCompatible then true
  else
    s.text "llm.openai_compatible.base_url" env.compatibleBaseUrl ≠ "" &&
      s.text "llm.openai_compatible.model" env.compatibleModel ≠ ""

/-! ### Writes -/

/-- `_set_preference`: an existing row keeps its user. `api/routes/settings.py:220`. -/
def setPreference (preferences : List UserPreference) (key value userId : String) :
    List UserPreference :=
  if preferences.any (·.key = key) then
    Rows.modify (·.key = key) (fun pref ↦ { pref with value }) preferences
  else preferences ++ [⟨key, userId, value⟩]

section
variable (env : Env) (userId : String) (faults : List String)

/-- `_set_preference`, which raises where the database does. -/
def writePreference (key text : String) : Call :=
  if key ∈ faults then throw .raised
  else modify fun s ↦ { s with preferences := setPreference s.preferences key text userId }

/-- A preference is written and then its override. -/
def store (key text : String) (value : Value) : Call := do
  writePreference userId faults key text
  modify (·.set key value)

/-- The checks of `set_default_provider`: `api/routes/settings.py:424–449`. -/
def checkDefaultProvider (s : State) (provider : String) : Except Failure Unit :=
  match Provider.ofValue provider with
  | none => .error (.http 400 ("Unknown provider: " ++ provider))
  | some p =>
    match getUserApiKey env.userApiKeys userId p with
    | .error _ => .error .raised
    | .ok key =>
      let hasUserKey := (truthy key).isSome
      if ¬ env.enabled p ∧ ¬ hasUserKey then
        .error (.http 400 ("Provider " ++ provider ++ " is not enabled"))
      else if ¬ hasRequiredProviderConfig env s p then
        .error (.http 400 ("Provider " ++ provider ++ " is missing required configuration"))
      else if p ≠ .ollama ∧ p ≠ .mock ∧ ¬ env.hasSystemKey p ∧ ¬ hasUserKey then
        .error (.http 400 ("Provider " ++ provider ++ " has no API key configured"))
      else .ok ()

/-- `set_default_provider`: `api/routes/settings.py:414`. -/
def setDefaultProvider (provider : String) : Call := do
  Stateful.ofExcept (checkDefaultProvider env userId (← get) provider)
  store userId faults providerKey provider (.str provider)

/-- A write of one field of the compatible provider, or why it is refused. -/
abbrev FieldWrite := Except Failure (Option (String × String × Value))

/-- `_update_openai_compatible_base_url`: `api/routes/settings.py:232`. -/
def baseUrlWrite (field : Option String) : FieldWrite :=
  match field with
  | none => .ok none
  | some url =>
    let baseUrl := (strip url.toList).rdropWhile (· = '/')
    if baseUrl ≠ [] ∧ ¬ (startsWith baseUrl "http://" ∨ startsWith baseUrl "https://") then
      .error (.http 400 "OpenAI-compatible base URL must start with http:// or https://")
    else .ok (some ("llm.openai_compatible.base_url", String.ofList baseUrl,
      .str (String.ofList baseUrl)))

/-- A stripped text that one of the checks admits: `api/routes/settings.py:249, 291, 309`. -/
def textWrite (key detail : String) (admits : String → Bool) (field : Option String) :
    FieldWrite :=
  match field with
  | none => .ok none
  | some text =>
    let value := String.ofList (strip text.toList)
    if admits value then .ok (some (key, value, .str value)) else .error (.http 400 detail)

/-- `_update_openai_compatible_model`. -/
def modelWrite : Option String → FieldWrite :=
  textWrite "llm.openai_compatible.model" "OpenAI-compatible model must not be empty" (· ≠ "")

/-- `_update_openai_compatible_max_tokens_field`. -/
def maxTokensFieldWrite : Option String → FieldWrite :=
  textWrite "llm.openai_compatible.max_tokens_field"
    "OpenAI-compatible max token field must be max_tokens or max_completion_tokens"
    (["max_tokens", "max_completion_tokens"].contains ·)

/-- `_update_openai_compatible_reasoning_format`. -/
def reasoningFormatWrite : Option String → FieldWrite :=
  textWrite "llm.openai_compatible.reasoning_format"
    "OpenAI-compatible reasoning format must be none, openai, or openrouter"
    (["none", "openai", "openrouter"].contains ·)

/-- One flag of `_update_openai_compatible_bools`. -/
def flagWrite (key : String) (field : Option Bool) : FieldWrite :=
  .ok (field.map fun value ↦ (key, boolStr value, .bool value))

/-- The writes of `_update_openai_compatible_settings`, in their order. -/
def SettingsUpdateRequest.compatibleWrites (request : SettingsUpdateRequest) : List FieldWrite :=
  [baseUrlWrite request.openaiCompatibleBaseUrl,
    modelWrite request.openaiCompatibleModel,
    flagWrite "llm.openai_compatible.supports_json_response_format"
      request.openaiCompatibleSupportsJsonResponseFormat,
    flagWrite "llm.openai_compatible.supports_stream_usage"
      request.openaiCompatibleSupportsStreamUsage,
    flagWrite "llm.openai_compatible.supports_reasoning_effort"
      request.openaiCompatibleSupportsReasoningEffort,
    maxTokensFieldWrite request.openaiCompatibleMaxTokensField,
    reasoningFormatWrite request.openaiCompatibleReasoningFormat]

/-- `_has_openai_compatible_runtime_update`: `api/routes/settings.py:198`. -/
def SettingsUpdateRequest.hasCompatibleUpdate (request : SettingsUpdateRequest) : Bool :=
  request.openaiCompatibleBaseUrl.isSome || request.openaiCompatibleModel.isSome ||
    request.openaiCompatibleSupportsJsonResponseFormat.isSome ||
    request.openaiCompatibleSupportsStreamUsage.isSome ||
    request.openaiCompatibleSupportsReasoningEffort.isSome ||
    request.openaiCompatibleMaxTokensField.isSome ||
    request.openaiCompatibleReasoningFormat.isSome

/-- One write of a field. -/
def storeField (_ : Unit) (write : FieldWrite) : Call := do
  match ← Stateful.ofExcept write with
  | none => pure ()
  | some (key, text, value) => store userId faults key text value

/-- `_update_openai_compatible_settings`: only a development process has them changed.
`api/routes/settings.py:328`. -/
def updateOpenaiCompatibleSettings (request : SettingsUpdateRequest) : Call :=
  if ¬ env.isDev ∧ request.hasCompatibleUpdate then
    throw (.http 403 ("OpenAI-compatible runtime settings are global and cannot be changed " ++
      "by users when auth is enabled"))
  else request.compatibleWrites.foldlM (storeField userId faults) ()

/-- The budget of `update_settings`. -/
def updateBudget (request : SettingsUpdateRequest) : Call :=
  match request.monthlyBudgetUsd with
  | none => pure ()
  | some budget =>
    if budget.nonPositive then throw (.http 400 "Budget must be positive")
    else store userId faults budgetKey (env.amountStr budget) (.amount budget)

/-- The fallback flag of `update_settings`. -/
def updateFallback (request : SettingsUpdateRequest) : Call :=
  match request.fallbackEnabled with
  | none => pure ()
  | some fallback => store userId faults fallbackKey (boolStr fallback) (.bool fallback)

/-- The default provider of `update_settings`, which need not be enabled. -/
def updateDefaultProvider (request : SettingsUpdateRequest) : Call :=
  match request.defaultProvider with
  | none => pure ()
  | some provider =>
    if Provider.ofValue provider = none then
      throw (.http 400 ("Unknown provider: " ++ provider))
    else store userId faults providerKey provider (.str provider)

/-- `update_settings`: `api/routes/settings.py:459`. -/
def updateSettings (request : SettingsUpdateRequest) : Call := do
  updateBudget env userId faults request
  updateFallback userId faults request
  updateOpenaiCompatibleSettings env userId faults request
  updateDefaultProvider userId faults request

/-- `complete_onboarding`, whose keys are the user's own: `api/routes/settings.py:675`. -/
def completeOnboarding : Call := do
  writePreference userId faults ("onboarding.completed:" ++ userId) "true"
  writePreference userId faults ("onboarding.step:" ++ userId) "5"

end

/-- The settings requests of a user; each names the preferences whose write fails. A
connection test turns fallback off at its start and puts the value back that it found. -/
inductive Label where
  | setDefaultProvider (provider : String) (faults : List String)
  | updateSettings (request : SettingsUpdateRequest) (faults : List String)
  | completeOnboarding (faults : List String)
  | testStart (r : Nat)
  | testEnd (r : Nat)
  deriving DecidableEq, Repr

section
variable (env : Env) (userId : String)

/-- The value a connection test puts back. -/
def State.original? (s : State) (r : Nat) : Option Value :=
  (s.tests.find? (·.1 = r)).map Prod.snd

/-- One step; `none` when it is not enabled. -/
def step (s : State) : Label → Option State
  | .setDefaultProvider provider faults =>
    some (Stateful.exec (setDefaultProvider env userId faults provider) s).2
  | .updateSettings request faults =>
    some (Stateful.exec (updateSettings env userId faults request) s).2
  | .completeOnboarding faults => some (Stateful.exec (completeOnboarding userId faults) s).2
  | .testStart r =>
    if (s.original? r).isSome then none
    else
      some { s.set fallbackKey (.bool false) with
        tests := (r, (s.effective env).fallbackEnabled) :: s.tests }
  | .testEnd r =>
    (s.original? r).map fun original ↦
      { s.set fallbackKey original with tests := s.tests.filter (·.1 ≠ r) }

/-- The system of the settings requests of a user. -/
def settingsRequests : Machine State Label := ⟨step env userId⟩

/-! ### What an update asks for -/

namespace SettingsUpdateRequest

variable (request : SettingsUpdateRequest) (faults : List String)

/-- The budget that is not refused. -/
def admittedBudget : Option Amount :=
  request.monthlyBudgetUsd.filter fun budget ↦ !budget.nonPositive && !faults.contains budgetKey

/-- The fallback flag, where the update gets there. -/
def admittedFallback : Option Bool :=
  if request.monthlyBudgetUsd = request.admittedBudget faults then
    request.fallbackEnabled.filter fun _ ↦ !faults.contains fallbackKey
  else none

/-- A write of a field that is not refused. -/
def admitsWrite : FieldWrite → Bool
  | .error _ => false
  | .ok none => true
  | .ok (some (key, _, _)) => !faults.contains key

/-- The fields of the compatible provider are not refused. -/
def admitsCompatible : Bool :=
  (env.isDev || !request.hasCompatibleUpdate) && request.compatibleWrites.all (admitsWrite faults)

/-- The default provider that is not refused, where the update gets there. -/
def admittedProvider : Option String :=
  if request.monthlyBudgetUsd = request.admittedBudget faults ∧
      request.fallbackEnabled = request.admittedFallback faults ∧
      request.admitsCompatible env faults then
    request.defaultProvider.filter fun provider ↦
      (Provider.ofValue provider).isSome && !faults.contains providerKey
  else none

end SettingsUpdateRequest

/-- A request sets no effective setting to another value than it has. -/
def Unchanging (s : State) : Label → Prop
  | .setDefaultProvider provider faults =>
    checkDefaultProvider env userId s provider = .ok () → providerKey ∉ faults →
      .str provider = (s.effective env).defaultProvider
  | .updateSettings request faults =>
    (∀ budget ∈ request.admittedBudget faults,
      .amount budget = (s.effective env).monthlyBudgetUsd) ∧
    (∀ fallback ∈ request.admittedFallback faults,
      .bool fallback = (s.effective env).fallbackEnabled) ∧
    ∀ provider ∈ request.admittedProvider env faults,
      .str provider = (s.effective env).defaultProvider
  | .completeOnboarding _ => True
  | .testStart _ => (s.effective env).fallbackEnabled = .bool false
  | .testEnd r => ∀ original ∈ s.original? r, original = (s.effective env).fallbackEnabled

end

section
variable {env : Env} {userId : String} {faults : List String} {s : State}

theorem exec_writePreference (key text : String) (s : State) :
    Stateful.exec (writePreference userId faults key text) s =
      if key ∈ faults then (.error .raised, s)
      else (.ok (), { s with preferences := setPreference s.preferences key text userId }) := by
  unfold writePreference
  split <;> rfl

/-- The state with a preference and its override written. -/
def State.stored (s : State) (userId key text : String) (value : Value) : State :=
  { s.set key value with preferences := setPreference s.preferences key text userId }

theorem exec_store (key text : String) (value : Value) (s : State) :
    Stateful.exec (store userId faults key text value) s =
      if key ∈ faults then (.error .raised, s) else (.ok (), s.stored userId key text value) := by
  unfold store
  rw [Stateful.exec_bind, exec_writePreference]
  split
  next heq =>
    split at heq <;> cases heq
    next hfault => simp [hfault, State.stored, State.set]
  next heq =>
    split at heq <;> cases heq
    next hfault => simp [hfault]

/-- What the effective settings are once a value is written: another key leaves them. -/
theorem effective_stored_other (env : Env) (userId : String) (s : State) {key : String}
    (text : String) (value : Value)
    (hprovider : key ≠ providerKey) (hbudget : key ≠ budgetKey) (hfallback : key ≠ fallbackKey) :
    (s.stored userId key text value).effective env = s.effective env := by
  simp [State.effective, State.stored, State.set, Function.update_of_ne, hprovider.symm,
    hbudget.symm, hfallback.symm]

private theorem effective_stored_provider (text : String) (value : Value) :
    (s.stored userId providerKey text value).effective env =
      { s.effective env with defaultProvider := value } := by
  simp [State.effective, State.stored, State.set, Function.update_of_ne, providerKey, budgetKey,
    fallbackKey]

private theorem effective_stored_budget (text : String) (value : Value) :
    (s.stored userId budgetKey text value).effective env =
      { s.effective env with monthlyBudgetUsd := value } := by
  simp [State.effective, State.stored, State.set, Function.update_of_ne, providerKey, budgetKey,
    fallbackKey]

private theorem effective_stored_fallback (text : String) (value : Value) :
    (s.stored userId fallbackKey text value).effective env =
      { s.effective env with fallbackEnabled := value } := by
  simp [State.effective, State.stored, State.set, Function.update_of_ne, providerKey, budgetKey,
    fallbackKey]

theorem effective_set_fallback (value : Value) :
    (s.set fallbackKey value).effective env =
      { s.effective env with fallbackEnabled := value } := by
  simp [State.effective, State.set, Function.update_of_ne, providerKey, budgetKey, fallbackKey]

private theorem updateBudget_spec (env : Env) (userId : String) (faults : List String)
    (request : SettingsUpdateRequest) (s : State) :
    ((Stateful.exec (updateBudget env userId faults request) s).1 = .ok () ↔
      request.monthlyBudgetUsd = request.admittedBudget faults) ∧
    (Stateful.exec (updateBudget env userId faults request) s).2.effective env =
      { s.effective env with
        monthlyBudgetUsd := ((request.admittedBudget faults).map .amount).getD
          (s.effective env).monthlyBudgetUsd } := by
  unfold updateBudget SettingsUpdateRequest.admittedBudget
  cases request.monthlyBudgetUsd with
  | none => simp
  | some budget =>
    by_cases hpos : budget.nonPositive = true
    · simp [hpos, Option.filter_some]
    · by_cases hfault : budgetKey ∈ faults
      · simp [hpos, exec_store, hfault, Option.filter_some]
      · simp [hpos, exec_store, hfault, Option.filter_some, effective_stored_budget]

private theorem updateFallback_spec (env : Env) (userId : String) (faults : List String)
    (request : SettingsUpdateRequest) (s : State)
    (hbudget : request.monthlyBudgetUsd = request.admittedBudget faults) :
    ((Stateful.exec (updateFallback userId faults request) s).1 = .ok () ↔
      request.fallbackEnabled = request.admittedFallback faults) ∧
    (Stateful.exec (updateFallback userId faults request) s).2.effective env =
      { s.effective env with
        fallbackEnabled := ((request.admittedFallback faults).map .bool).getD
          (s.effective env).fallbackEnabled } := by
  unfold updateFallback SettingsUpdateRequest.admittedFallback
  rw [if_pos hbudget]
  cases request.fallbackEnabled with
  | none => simp
  | some fallback =>
    by_cases hfault : fallbackKey ∈ faults
    · simp [exec_store, hfault, Option.filter_some]
    · simp [exec_store, hfault, Option.filter_some, effective_stored_fallback]

private theorem updateDefaultProvider_spec (env : Env) (userId : String) (faults : List String)
    (request : SettingsUpdateRequest) (s : State)
    (hbudget : request.monthlyBudgetUsd = request.admittedBudget faults)
    (hfallback : request.fallbackEnabled = request.admittedFallback faults)
    (hcompatible : request.admitsCompatible env faults = true) :
    (Stateful.exec (updateDefaultProvider userId faults request) s).2.effective env =
      { s.effective env with
        defaultProvider := ((request.admittedProvider env faults).map .str).getD
          (s.effective env).defaultProvider } := by
  unfold updateDefaultProvider SettingsUpdateRequest.admittedProvider
  rw [if_pos ⟨hbudget, hfallback, hcompatible⟩]
  cases request.defaultProvider with
  | none => simp
  | some provider =>
    cases hvalue : Provider.ofValue provider with
    | none => simp [hvalue, Option.filter_some]
    | some p =>
      by_cases hfault : providerKey ∈ faults
      · simp [hvalue, exec_store, hfault, Option.filter_some]
      · simp [hvalue, exec_store, hfault, Option.filter_some, effective_stored_provider]

/-! ### The fields of the compatible provider -/

/-- A write goes to a key of the compatible provider. -/
def OtherKey (key : String) : Prop := key ≠ providerKey ∧ key ≠ budgetKey ∧ key ≠ fallbackKey

instance (key : String) : Decidable (OtherKey key) := inferInstanceAs (Decidable (_ ∧ _))

theorem textWrite_key {key detail : String} {admits : String → Bool} {field : Option String}
    {w : String × String × Value} (h : textWrite key detail admits field = .ok (some w)) :
    w.1 = key := by
  unfold textWrite at h
  split at h
  · cases h
  · dsimp only at h
    split at h <;> cases h
    rfl

theorem flagWrite_key {key : String} {field : Option Bool} {w : String × String × Value}
    (h : flagWrite key field = .ok (some w)) : w.1 = key := by
  cases field with
  | none => cases h
  | some value =>
    cases h
    rfl

theorem baseUrlWrite_key {field : Option String} {w : String × String × Value}
    (h : baseUrlWrite field = .ok (some w)) : w.1 = "llm.openai_compatible.base_url" := by
  unfold baseUrlWrite at h
  split at h
  · cases h
  · dsimp only at h
    split at h <;> cases h
    rfl

private theorem compatibleWrites_key {request : SettingsUpdateRequest} {w : String × String × Value}
    (h : .ok (some w) ∈ request.compatibleWrites) : OtherKey w.1 := by
  simp only [SettingsUpdateRequest.compatibleWrites, List.mem_cons, List.not_mem_nil,
    or_false] at h
  rcases h with h | h | h | h | h | h | h
  · rw [baseUrlWrite_key h.symm]
    decide
  · rw [textWrite_key h.symm]
    decide
  · rw [flagWrite_key h.symm]
    decide
  · rw [flagWrite_key h.symm]
    decide
  · rw [flagWrite_key h.symm]
    decide
  · rw [textWrite_key h.symm]
    decide
  · rw [textWrite_key h.symm]
    decide

private theorem storeField_spec (env : Env) (userId : String) (faults : List String)
    {write : FieldWrite} (hkey : ∀ w, write = .ok (some w) → OtherKey w.1) (s : State) :
    ((Stateful.exec (storeField userId faults () write) s).1 = .ok () ↔
      SettingsUpdateRequest.admitsWrite faults write = true) ∧
    (Stateful.exec (storeField userId faults () write) s).2.effective env = s.effective env := by
  unfold storeField
  rw [Stateful.exec_bind, Stateful.exec_ofExcept]
  match write with
  | .error e => simp [SettingsUpdateRequest.admitsWrite]
  | .ok none => simp [SettingsUpdateRequest.admitsWrite]
  | .ok (some (key, text, value)) =>
    obtain ⟨hprovider, hbudget, hfallback⟩ := hkey _ rfl
    by_cases hfault : key ∈ faults
    · simp [SettingsUpdateRequest.admitsWrite, exec_store, hfault]
    · have hset := effective_stored_other env userId s text value
        hprovider hbudget hfallback
      simp only [exec_store, if_neg hfault, SettingsUpdateRequest.admitsWrite]
      exact ⟨by simpa using hfault, hset⟩

private theorem foldlM_storeField_spec (env : Env) (userId : String) (faults : List String)
    {writes : List FieldWrite}
    (hkeys : ∀ w, .ok (some w) ∈ writes → OtherKey w.1) (s : State) :
    ((Stateful.exec (writes.foldlM (storeField userId faults) ()) s).1 = .ok () ↔
      writes.all (SettingsUpdateRequest.admitsWrite faults) = true) ∧
    (Stateful.exec (writes.foldlM (storeField userId faults) ()) s).2.effective env =
      s.effective env := by
  induction writes generalizing s with
  | nil => simp
  | cons write writes ih =>
    have hkey : ∀ w, write = .ok (some w) → OtherKey w.1 :=
      fun w hw ↦ hkeys w (hw ▸ List.mem_cons_self ..)
    obtain ⟨hok, hsame⟩ := storeField_spec env userId faults hkey s
    rw [List.foldlM_cons, Stateful.exec_bind, List.all_cons, Bool.and_eq_true, ← hok]
    cases hexec : Stateful.exec (storeField userId faults () write) s with
    | mk outcome t =>
      rw [hexec] at hsame
      cases outcome with
      | error e => simpa using hsame
      | ok a =>
        obtain ⟨hrest, hsame'⟩ := ih (fun w hw ↦ hkeys w (List.mem_cons_of_mem _ hw)) t
        exact ⟨by simpa using hrest, hsame'.trans hsame⟩

private theorem updateOpenaiCompatibleSettings_spec (env : Env) (userId : String)
    (faults : List String)
    (request : SettingsUpdateRequest) (s : State) :
    ((Stateful.exec (updateOpenaiCompatibleSettings env userId faults request) s).1 = .ok () ↔
      request.admitsCompatible env faults = true) ∧
    (Stateful.exec (updateOpenaiCompatibleSettings env userId faults request) s).2.effective env =
      s.effective env := by
  unfold updateOpenaiCompatibleSettings SettingsUpdateRequest.admitsCompatible
  by_cases hforbidden : ¬ env.isDev ∧ request.hasCompatibleUpdate
  · rw [if_pos hforbidden]
    simp [hforbidden.1, hforbidden.2]
  · rw [if_neg hforbidden]
    obtain ⟨hok, hsame⟩ := foldlM_storeField_spec env userId faults
      (fun (w : String × String × Value) (hw : .ok (some w) ∈ request.compatibleWrites) ↦
        compatibleWrites_key hw) s
    refine ⟨hok.trans ?_, hsame⟩
    have hallowed : (env.isDev || !request.hasCompatibleUpdate) = true := by
      cases hdev : env.isDev <;> simp_all
    rw [hallowed, Bool.true_and]

/-- What an update leaves: each setting it admits, and the others as they were. -/
theorem effective_updateSettings (request : SettingsUpdateRequest) (s : State) :
    (Stateful.exec (updateSettings env userId faults request) s).2.effective env = {
      defaultProvider := ((request.admittedProvider env faults).map .str).getD
        (s.effective env).defaultProvider
      monthlyBudgetUsd := ((request.admittedBudget faults).map .amount).getD
        (s.effective env).monthlyBudgetUsd
      fallbackEnabled := ((request.admittedFallback faults).map .bool).getD
        (s.effective env).fallbackEnabled } := by
  obtain ⟨hbudget, hstate₁⟩ := updateBudget_spec env userId faults request s
  unfold updateSettings
  rw [Stateful.exec_bind]
  cases hexec₁ : Stateful.exec (updateBudget env userId faults request) s with
  | mk outcome₁ s₁ =>
  rw [hexec₁] at hbudget hstate₁
  cases outcome₁ with
  | error e =>
    -- a refused budget ends the update
    have hrefused : request.monthlyBudgetUsd ≠ request.admittedBudget faults :=
      fun h ↦ by cases hbudget.mpr h
    have hfallback : request.admittedFallback faults = none := if_neg hrefused
    have hprovider : request.admittedProvider env faults = none := if_neg fun h ↦ hrefused h.1
    rw [hfallback, hprovider]
    exact hstate₁
  | ok _ =>
  have hbudget := hbudget.mp rfl
  obtain ⟨hfallback, hstate₂⟩ := updateFallback_spec env userId faults request s₁ hbudget
  dsimp only
  rw [Stateful.exec_bind]
  cases hexec₂ : Stateful.exec (updateFallback userId faults request) s₁ with
  | mk outcome₂ s₂ =>
  rw [hexec₂] at hfallback hstate₂
  rw [hstate₁] at hstate₂
  cases outcome₂ with
  | error e =>
    have hrefused : request.fallbackEnabled ≠ request.admittedFallback faults :=
      fun h ↦ by cases hfallback.mpr h
    have hprovider : request.admittedProvider env faults = none := if_neg fun h ↦ hrefused h.2.1
    rw [hprovider]
    exact hstate₂
  | ok _ =>
  have hfallback := hfallback.mp rfl
  obtain ⟨hcompatible, hstate₃⟩ := updateOpenaiCompatibleSettings_spec env userId faults request s₂
  dsimp only
  rw [Stateful.exec_bind]
  cases hexec₃ : Stateful.exec (updateOpenaiCompatibleSettings env userId faults request) s₂ with
  | mk outcome₃ s₃ =>
  rw [hexec₃] at hcompatible hstate₃
  rw [hstate₂] at hstate₃
  cases outcome₃ with
  | error e =>
    have hrefused : ¬ request.admitsCompatible env faults = true :=
      fun h ↦ by cases hcompatible.mpr h
    have hprovider : request.admittedProvider env faults = none := if_neg fun h ↦ hrefused h.2.2
    rw [hprovider]
    exact hstate₃
  | ok _ =>
  have hstate₄ := updateDefaultProvider_spec env userId faults request s₃ hbudget hfallback
    (hcompatible.mp rfl)
  rw [hstate₃] at hstate₄
  exact hstate₄

/-- A value that replaces another leaves it precisely where it is the same. -/
theorem getD_map_eq_iff {α : Type} {admitted : Option α} {inject : α → Value} {value : Value} :
    (admitted.map inject).getD value = value ↔ ∀ a ∈ admitted, inject a = value := by
  cases admitted with
  | none => simp
  | some a => simp

private theorem effective_setDefaultProvider (provider : String) (s : State) :
    (Stateful.exec (setDefaultProvider env userId faults provider) s).2.effective env =
      if checkDefaultProvider env userId s provider = .ok () ∧ providerKey ∉ faults then
        { s.effective env with defaultProvider := .str provider }
      else s.effective env := by
  unfold setDefaultProvider
  rw [Stateful.exec_bind, Stateful.exec_get]
  dsimp only
  rw [Stateful.exec_bind, Stateful.exec_ofExcept]
  cases hcheck : checkDefaultProvider env userId s provider with
  | error e => simp
  | ok _ =>
    by_cases hfault : providerKey ∈ faults
    · simp [exec_store, hfault]
    · simp [exec_store, hfault, effective_stored_provider]

private theorem effective_completeOnboarding (s : State) :
    (Stateful.exec (completeOnboarding userId faults) s).2.effective env = s.effective env := by
  have hwrite (key text : String) (s : State) :
      (Stateful.exec (writePreference userId faults key text) s).2.overrides = s.overrides := by
    rw [exec_writePreference]
    split <;> rfl
  have hoverrides : (Stateful.exec (completeOnboarding userId faults) s).2.overrides =
      s.overrides := by
    unfold completeOnboarding
    rw [Stateful.exec_bind]
    have hfirst := hwrite ("onboarding.completed:" ++ userId) "true" s
    split
    next a t hexec =>
      rw [hexec] at hfirst
      exact (hwrite ("onboarding.step:" ++ userId) "5" t).trans hfirst
    next e t hexec =>
      rw [hexec] at hfirst
      exact hfirst
  simp only [State.effective, hoverrides]

/-- A step leaves the effective settings precisely where it sets none of them to another
value. -/
theorem effective_step_iff {l : Label} {t : State} (h : step env userId s l = some t) :
    t.effective env = s.effective env ↔ Unchanging env userId s l := by
  cases l with
  | setDefaultProvider provider faults =>
    cases h
    rw [effective_setDefaultProvider]
    unfold Unchanging
    split
    next haccepted =>
      simp [haccepted.1, haccepted.2, Effective.ext_iff]
    next hrefused =>
      exact iff_of_true rfl fun hcheck hfault ↦ absurd ⟨hcheck, hfault⟩ hrefused
  | updateSettings request faults =>
    cases h
    rw [effective_updateSettings]
    dsimp only [Unchanging]
    rw [← getD_map_eq_iff, ← getD_map_eq_iff, ← getD_map_eq_iff, Effective.ext_iff]
    tauto
  | completeOnboarding faults =>
    cases h
    exact iff_of_true (effective_completeOnboarding s) trivial
  | testStart r =>
    obtain ⟨_, hnext⟩ := Option.ite_none_left_eq_some.mp h
    cases hnext
    change (s.set fallbackKey (.bool false)).effective env = s.effective env ↔
      (s.effective env).fallbackEnabled = .bool false
    rw [effective_set_fallback, Effective.ext_iff]
    simp [eq_comm]
  | testEnd r =>
    obtain ⟨original, horiginal, rfl⟩ := Option.map_eq_some_iff.mp h
    change (s.set fallbackKey original).effective env = s.effective env ↔
      ∀ original ∈ s.original? r, original = (s.effective env).fallbackEnabled
    rw [effective_set_fallback, Effective.ext_iff, horiginal]
    simp

end

/-- The settings effective for any user's next request stay as they would be without the
requests of a user, at every moment of any sequence of them, precisely as long as each sets
no effective setting to another value. -/
theorem effective_always_iff (env : Env) (userId : String) (s : State) (ls : List Label) :
    (settingsRequests env userId).Always (fun t ↦ t.effective env = s.effective env) s ls ↔
      (settingsRequests env userId).Guarded (Unchanging env userId) s ls := by
  rw [(settingsRequests env userId).always_iff_guarded (W := fun _ ↦ True)
    (G := Unchanging env userId) (fun _ _ _ _ _ ↦ trivial) ?_ trivial ls]
  · simp
  · intro s' l t _ hs h
    rw [← hs]
    exact effective_step_iff h

/-- A hosted process with the defaults of `config.py:110` and no stored keys. -/
def hosted : Env where
  isDev := false
  defaultProvider := "anthropic"
  monthlyBudgetUsd := .finite 50
  fallbackEnabled := true
  enabled p := p = .anthropic
  hasSystemKey p := p = .anthropic
  compatibleBaseUrl := ""
  compatibleModel := "gpt-4o-mini"
  userApiKeys := []
  amountStr _ := "1.0"

/-- An update of the three settings. -/
def poorUpdate : SettingsUpdateRequest where
  monthlyBudgetUsd := some (.finite 1)
  fallbackEnabled := some false
  defaultProvider := some "mock"

/-- One user's budget, fallback flag and default provider become everybody's, and a
connection test of one user turns the fallback of everybody off while it runs. -/
theorem hosted_effective_changes :
    ¬ (settingsRequests hosted "u").Always
        (fun t ↦ t.effective hosted = State.effective hosted ⟨fun _ ↦ none, [], []⟩)
        ⟨fun _ ↦ none, [], []⟩ [.updateSettings poorUpdate []] ∧
      ¬ (settingsRequests hosted "u").Always
        (fun t ↦ t.effective hosted = State.effective hosted ⟨fun _ ↦ none, [], []⟩)
        ⟨fun _ ↦ none, [], []⟩ [.testStart 0] := by
  constructor
  all_goals decide +kernel

end WikiMind.Llm.RuntimeSettings
