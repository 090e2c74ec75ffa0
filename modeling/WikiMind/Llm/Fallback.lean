import WikiMind.Llm.PlanRouting

/-!
# What the fallback loop calls

Which providers `_execute_with_fallback` (`engine/llm_router.py:409`) reaches for a completion,
with which key, and what becomes of an answer whose bookkeeping fails. `disable_fallback` is
looked at only after a provider has failed; the books are written inside the operation that the
loop guards.
-/

namespace WikiMind.Llm

open WikiMind.Base

namespace LlmEnv

variable (env : LlmEnv) (userId : String)

/-- The errors that `_log_cost` and `_log_trace` let through: all but those of SQLAlchemy. -/
def escapes (fault : Option LlmError) : Option LlmError :=
  fault.filter fun e ↦
    match e with
    | .sqlalchemy _ => false
    | _ => true

/-- The error of the bookkeeping after an answer, where one gets out. -/
def booksFault (p : Provider) : Option LlmError :=
  (escapes (env.costLogFault p)).or
    (if env.config.traceEnabled then escapes (env.traceLogFault p) else none)

/-- What asking a provider comes to: its answer, unless the bookkeeping raises. -/
def outcome (p : Provider) : Except LlmError CompletionResponse :=
  match env.reply p with
  | .error e => .error e
  | .ok response =>
    match env.booksFault p with
    | some e => .error e
    | none => .ok response

/-- Whether the loop goes on after a provider. -/
def GoesOn (disableFallback : Bool) (p : Provider) : Prop :=
  match env.standing userId p with
  | .locked _ => False
  | .skipped => True
  | .broken _ => disableFallback = false ∧ env.config.fallbackEnabled = true
  | .ready _ => (disableFallback = false ∧ env.config.fallbackEnabled = true) ∧
      ∃ e, env.outcome p = .error e ∧ e.isProviderError = true

/-- A provider that can be called and answers. -/
def Answers (p : Provider) : Prop :=
  (∃ credential, env.standing userId p = .ready credential) ∧
    ∃ response, env.reply p = .ok response

/-- A provider that answers, with the books failing afterwards. -/
def Unbooked (p : Provider) : Prop :=
  env.Answers userId p ∧ env.booksFault p ≠ none

end LlmEnv

section Ask

variable {env : LlmEnv} {userId : String} {taskType : TaskType} {model : String}
  {credential : Credential} {p : Provider}

/-- Noting the cost of a response raises what escapes from it, and nothing else. -/
theorem result_logCost (response : CompletionResponse) :
    (env.logCost p model taskType response userId).result =
      match LlmEnv.escapes (env.costLogFault p) with
      | none => .ok ()
      | some e => .error e := by
  unfold LlmEnv.logCost
  cases env.costLogFault p with
  | none => rfl
  | some e => cases e <;> rfl

private theorem result_logTrace :
    (env.logTrace p model taskType userId).result =
      match if env.config.traceEnabled then LlmEnv.escapes (env.traceLogFault p) else none with
      | none => .ok ()
      | some e => .error e := by
  unfold LlmEnv.logTrace
  cases env.config.traceEnabled with
  | false => rfl
  | true =>
    cases env.traceLogFault p with
    | none => rfl
    | some e => cases e <;> rfl

theorem result_ask :
    (env.ask taskType userId p model credential).result = env.outcome p := by
  unfold LlmEnv.ask LlmEnv.outcome LlmEnv.booksFault
  rw [Traced.emit_bind]
  cases env.reply p with
  | error e => rfl
  | ok response =>
    simp only [Traced.lift_ok_bind, Traced.result_bind, result_logCost, result_logTrace]
    cases LlmEnv.escapes (env.costLogFault p) with
    | some e => rfl
    | none =>
      cases (if env.config.traceEnabled then LlmEnv.escapes (env.traceLogFault p) else none) with
      | some e => rfl
      | none => rfl

theorem outcome_eq_ok {response : CompletionResponse} :
    env.outcome p = .ok response ↔ env.reply p = .ok response ∧ env.booksFault p = none := by
  unfold LlmEnv.outcome
  cases env.reply p with
  | error e => simp
  | ok response' => cases env.booksFault p <;> simp

end Ask

section Loop

variable {env : LlmEnv} {userId : String} {taskType : TaskType} {disableFallback : Bool}
  {modelOverride : Option String} {p : Provider}

/-- What trying a provider for a completion comes to: no call and no answer, or the call of a
provider that can be called, with what the loop does with its outcome. -/
theorem tryProvider_ask (env : LlmEnv) (userId : String) (taskType : TaskType)
    (disableFallback : Bool) (modelOverride : Option String) (p : Provider) :
    ((env.tryProvider userId (env.ask taskType userId) disableFallback modelOverride p).1 = [] ∧
      (∀ a, (env.tryProvider userId (env.ask taskType userId) disableFallback modelOverride p).2 ≠
        .settle (.ok a)) ∧ ∀ credential, env.standing userId p ≠ .ready credential) ∨
    ∃ credential books, env.standing userId p = .ready credential ∧
      (∀ q m c, .providerCall q m c ∉ books) ∧
      env.tryProvider userId (env.ask taskType userId) disableFallback modelOverride p =
        (.providerCall p (env.config.getModel p modelOverride) credential :: books,
          env.settle disableFallback p (env.outcome p)) := by
  cases hstanding : env.standing userId p with
  | locked e =>
    rw [tryProvider_of_locked _ _ _ hstanding]
    simp
  | skipped =>
    rw [tryProvider_of_skipped _ _ _ hstanding]
    simp
  | broken e =>
    obtain ⟨he, htry⟩ :=
      tryProvider_of_broken (env.ask taskType userId) disableFallback modelOverride hstanding
    rw [htry, settle_error disableFallback he]
    refine .inl ⟨rfl, fun a ↦ ?_, by simp⟩
    dsimp only
    split
    · simp
    · split <;> simp
  | ready credential =>
    obtain ⟨books, hbooks, hnone⟩ := effects_ask env userId taskType p
      (env.config.getModel p modelOverride) credential
    refine .inr ⟨credential, books, rfl, hnone, ?_⟩
    rw [tryProvider_of_ready _ _ _ hstanding, hbooks, result_ask]

theorem passes_settle {r : Except LlmError CompletionResponse} :
    (env.settle disableFallback p r).Passes ↔
      (disableFallback = false ∧ env.config.fallbackEnabled = true) ∧
        ∃ e, r = .error e ∧ e.isProviderError = true := by
  cases r with
  | ok a => simp [LlmEnv.settle, Attempt.Passes]
  | error e =>
    cases he : e.isProviderError with
    | false => simp [LlmEnv.settle, he, Attempt.Passes]
    | true =>
      rw [settle_error disableFallback he]
      cases disableFallback with
      | true => simp [Attempt.Passes]
      | false => cases env.config.fallbackEnabled <;> simp [he, Attempt.Passes]

theorem settle_eq_ok {r : Except LlmError CompletionResponse} {response : CompletionResponse} :
    env.settle disableFallback p r = .settle (.ok response) ↔ r = .ok response := by
  cases r with
  | ok a => simp [LlmEnv.settle]
  | error e =>
    cases he : e.isProviderError with
    | false => simp [LlmEnv.settle, he]
    | true =>
      rw [settle_error disableFallback he]
      cases disableFallback with
      | true => simp
      | false => cases env.config.fallbackEnabled <;> simp

/-- The loop leaves a provider to the next one as its standing and its outcome say. -/
theorem passes_iff (env : LlmEnv) (userId : String) (taskType : TaskType)
    (disableFallback : Bool) (modelOverride : Option String) (p : Provider) :
    (env.tryProvider userId (env.ask taskType userId) disableFallback modelOverride p).2.Passes ↔
      env.GoesOn userId disableFallback p := by
  unfold LlmEnv.GoesOn
  cases hstanding : env.standing userId p with
  | locked e => simp [tryProvider_of_locked _ _ _ hstanding, Attempt.Passes]
  | skipped => simp [tryProvider_of_skipped _ _ _ hstanding, Attempt.Passes]
  | broken e =>
    obtain ⟨he, htry⟩ :=
      tryProvider_of_broken (env.ask taskType userId) disableFallback modelOverride hstanding
    rw [htry, passes_settle]
    simp [he]
  | ready credential =>
    rw [tryProvider_of_ready _ _ _ hstanding, passes_settle, result_ask]

private theorem mem_tryProvider_iff {q : Provider} {model : String} {credential : Credential} :
    .providerCall q model credential ∈
        (env.tryProvider userId (env.ask taskType userId) disableFallback modelOverride p).1 ↔
      env.standing userId p = .ready credential ∧ q = p ∧
        model = env.config.getModel p modelOverride := by
  obtain ⟨hnil, -, hready⟩ | ⟨credential', books, hstanding, hbooks, htry⟩ :=
    tryProvider_ask env userId taskType disableFallback modelOverride p
  · simp [hnil, hready]
  · rw [htry, hstanding, List.mem_cons, or_iff_left (hbooks q model credential)]
    simp only [Effect.providerCall.injEq, Standing.ready.injEq]
    constructor
    · rintro ⟨rfl, rfl, rfl⟩
      exact ⟨rfl, rfl, rfl⟩
    · rintro ⟨rfl, rfl, rfl⟩
      exact ⟨rfl, rfl, rfl⟩

/-- A completion calls a provider with some property, and with some credential, precisely when
the loop gets to one that it can call so. -/
theorem exists_call_iff (env : LlmEnv) (userId : String) (taskType : TaskType)
    (disableFallback : Bool) (modelOverride : Option String) (preferred : Option Provider)
    (Q : Provider → Credential → Prop) :
    (∃ q model credential, .providerCall q model credential ∈
      (env.executeWithFallback userId (env.ask taskType userId) disableFallback modelOverride
        preferred).effects ∧ Q q credential) ↔
      ∃ order, env.config.candidates preferred = .ok order ∧
        Gets (env.GoesOn userId disableFallback)
          (fun p ↦ ∃ credential, env.standing userId p = .ready credential ∧ Q p credential)
          order := by
  unfold LlmEnv.executeWithFallback
  cases env.config.candidates preferred with
  | error e => simp [Traced.raise]
  | ok order =>
    have hpasses : (fun p ↦ (env.tryProvider userId (env.ask taskType userId) disableFallback
        modelOverride p).2.Passes) = env.GoesOn userId disableFallback :=
      funext fun p ↦ propext (passes_iff ..)
    simp only [Except.ok.injEq, exists_eq_left', effects_failover, List.mem_flatMap]
    rw [← hpasses, ← exists_mem_tried_iff]
    constructor
    · rintro ⟨q, model, credential, ⟨p, hp, hmem⟩, hQ⟩
      obtain ⟨hstanding, rfl, -⟩ := mem_tryProvider_iff.mp hmem
      exact ⟨q, hp, credential, hstanding, hQ⟩
    · rintro ⟨p, hp, credential, hstanding, hQ⟩
      exact ⟨p, _, credential, ⟨p, hp, mem_tryProvider_iff.mpr ⟨hstanding, rfl, rfl⟩⟩, hQ⟩

end Loop

/-! ### Requests without fallback -/

/-- Only the preferred provider is called, and the call raises unless that provider answers. -/
structure LlmEnv.PreferredOnly (env : LlmEnv) (request : CompletionRequest) (userId : String) :
    Prop where
  only : ∀ p model credential,
    .providerCall p model credential ∈ (env.complete request userId).effects →
      request.preferredProvider = some p
  raises : (¬ ∃ p ∈ request.preferredProvider, env.Answers userId p) →
    ∃ e, (env.complete request userId).result = .error e

section Restricted

variable {env : LlmEnv} {userId : String}

private theorem gets_of_reaches {disableFallback : Bool} {ps : List Provider}
    (h : env.Reaches userId disableFallback ps) :
    Gets (env.GoesOn userId disableFallback)
      (fun p ↦ ∃ credential, env.standing userId p = .ready credential) ps := by
  induction ps with
  | nil => exact h
  | cons p ps ih =>
    refine h.imp_right fun ⟨hpassed, hreaches⟩ ↦ ⟨?_, ih hreaches⟩
    unfold LlmEnv.GoesOn
    unfold LlmEnv.PassedOver at hpassed
    cases hstanding : env.standing userId p with
    | skipped => trivial
    | broken e => simpa only [hstanding] using hpassed
    | locked e => simp only [hstanding] at hpassed
    | ready credential => simp only [hstanding] at hpassed

/-- Without fallback, a provider that is not skipped ends the loop, and returns only what it
answers. -/
theorem settles_of_not_skipped (taskType : TaskType) (modelOverride : Option String)
    {p : Provider} (h : env.standing userId p ≠ .skipped) :
    ∃ r, (env.tryProvider userId (env.ask taskType userId) true modelOverride p).2 = .settle r ∧
      ∀ a, r = .ok a → env.Answers userId p := by
  have hstays : ¬ env.GoesOn userId true p := by
    unfold LlmEnv.GoesOn
    cases hstanding : env.standing userId p with
    | skipped => exact absurd hstanding h
    | locked e => simp
    | broken e => simp
    | ready credential => simp
  rw [← passes_iff env userId taskType true modelOverride p] at hstays
  obtain ⟨-, hnone, -⟩ | ⟨credential, books, hready, -, htry⟩ :=
    tryProvider_ask env userId taskType true modelOverride p
  · cases htry : (env.tryProvider userId (env.ask taskType userId) true modelOverride p).2 with
    | settle r => exact ⟨r, rfl, fun a ha ↦ absurd (ha ▸ htry) (hnone a)⟩
    | skip => simp [htry, Attempt.Passes] at hstays
    | next e => simp [htry, Attempt.Passes] at hstays
  · obtain ⟨r, hr⟩ := settle_disabled env p (env.outcome p)
    refine ⟨r, by rw [htry, hr], ?_⟩
    rintro response rfl
    exact ⟨⟨credential, hready⟩, response, (outcome_eq_ok.mp (settle_eq_ok.mp hr)).1⟩

/-- **Without fallback.** The loop keeps to the preferred provider precisely when that one is
not skipped, or it gets to no provider at all. -/
theorem preferredOnly_iff (env : LlmEnv) (request : CompletionRequest) (userId : String)
    (h : request.disableFallback = true) :
    env.PreferredOnly request userId ↔
      (∃ p ∈ request.preferredProvider, env.standing userId p ≠ .skipped) ∨
        env.NoneReached userId true request.preferredProvider := by
  have hcomplete : env.complete request userId =
      env.executeWithFallback userId (env.ask request.taskType userId) true
        request.modelOverride request.preferredProvider := by
    unfold LlmEnv.complete
    rw [h]
  constructor
  · rintro ⟨honly, -⟩
    by_contra hnot
    rw [not_or] at hnot
    obtain ⟨hskipped, hreached⟩ := hnot
    unfold LlmEnv.NoneReached at hreached
    push Not at hreached hskipped
    obtain ⟨order, horder, hreaches⟩ := hreached
    have hgets : Gets (env.GoesOn userId true) (fun p ↦ ∃ credential,
        env.standing userId p = .ready credential ∧ env.standing userId p = .ready credential)
        order := (gets_of_reaches hreaches).mono (fun _ hgoes ↦ hgoes)
      fun _ ⟨credential, hready⟩ ↦ ⟨credential, hready, hready⟩
    obtain ⟨q, model, credential, hmem, hready⟩ := (exists_call_iff env userId request.taskType
      true request.modelOverride _ _).mpr ⟨order, horder, hgets⟩
    rw [← hcomplete] at hmem
    have hq := hskipped q (honly q model credential hmem)
    rw [hready] at hq
    cases hq
  · rintro (⟨p, hp, hstanding⟩ | hnone)
    · rw [Option.mem_def.mp hp] at hcomplete
      unfold LlmEnv.executeWithFallback at hcomplete
      cases horder : env.config.candidates (some p) with
      | error e =>
        rw [horder] at hcomplete
        refine ⟨fun q model credential hmem ↦ ?_, fun _ ↦ ⟨e, by rw [hcomplete]; rfl⟩⟩
        rw [hcomplete] at hmem
        cases hmem
      | ok order =>
        obtain ⟨rest, rfl, -⟩ := candidates_some horder
        obtain ⟨r, hsettle, hanswers⟩ :=
          settles_of_not_skipped request.taskType request.modelOverride hstanding
        rw [horder] at hcomplete
        dsimp only at hcomplete
        rw [failover_of_settle LlmEnv.allFailed rest none hsettle] at hcomplete
        refine ⟨fun q model credential hmem ↦ ?_, fun hnot ↦ ?_⟩
        · rw [hcomplete] at hmem
          rw [(mem_tryProvider_iff.mp hmem).2.1]
          exact hp
        · rw [hcomplete]
          cases r with
          | error e => exact ⟨e, rfl⟩
          | ok response => exact absurd ⟨p, hp, hanswers response rfl⟩ hnot
    · obtain ⟨e, he⟩ := executeWithFallback_of_noneReached
        (env.ask request.taskType userId) request.modelOverride hnone
      rw [← hcomplete] at he
      refine ⟨fun p model credential hmem ↦ ?_, fun _ ↦ ⟨e, by rw [he]; rfl⟩⟩
      rw [he] at hmem
      cases hmem

/-- The question of the free plan, with the restrictions of that plan. -/
def restricted : CompletionRequest :=
  { PlanEnv.question with
    preferredProvider := some .openaiCompatible
    modelOverride := some "gpt-4o-mini"
    disableFallback := true }

theorem preferredOnly_seeded :
    (PlanEnv.seeded (some "sk-c") []).PreferredOnly restricted "u" :=
  (preferredOnly_iff (PlanEnv.seeded (some "sk-c") []).toLlmEnv restricted "u" rfl).mpr
    (.inl ⟨.openaiCompatible, rfl, by decide +kernel⟩)

/-- Without a key for the preferred provider, another one is called. -/
theorem other_provider_called : ¬ ∀ (env : LlmEnv) (request : CompletionRequest)
    (userId : String), request.disableFallback = true → env.PreferredOnly request userId := by
  intro h
  have hmem : .providerCall .anthropic "gpt-4o-mini" .system ∈
      ((PlanEnv.seeded none []).complete restricted "u").effects := by
    decide +kernel
  cases (h (PlanEnv.seeded none []).toLlmEnv restricted "u" rfl).only _ _ _ hmem

end Restricted

end WikiMind.Llm
