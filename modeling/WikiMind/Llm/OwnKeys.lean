import WikiMind.Llm.Fallback

/-!
# Own keys and the plan

Whether `plan_aware_complete` (`services/plan_routing.py:22`) keeps to the system's keys for a
user whose plan does not allow own ones. The plan layer asks for the permission; the loop below
it (`engine/llm_router.py:452`) looks a key up for every provider it comes to.
-/

namespace WikiMind.Llm

open WikiMind.Base WikiMind.Billing

/-- A request went out with a key of the user. -/
def UserKeySent (effects : List Effect) : Prop :=
  ∃ p model key, .providerCall p model (.user key) ∈ effects

/-- The loop comes to a provider that it can call with a key the user has stored. -/
def LlmEnv.MeetsUserKey (env : LlmEnv) (userId : String) (disableFallback : Bool)
    (preferred : Option Provider) : Prop :=
  ∃ order, env.config.candidates preferred = .ok order ∧
    Gets (env.GoesOn userId disableFallback)
      (fun p ↦ ∃ key, env.standing userId p = .ready (.user key)) order

/-- No key of the user is met: with the plan in force, not after the spend check and with the
plan's provider in front and no fallback; where the plan is passed by, not by the request. -/
def PlanEnv.KeepsUserKeys (env : PlanEnv) (plan : Plan) (request : CompletionRequest)
    (userId : String) (session : Bool) : Prop :=
  if session ∧ env.planLookupFault = none then
    (∃ e, env.checkDailyLlmSpend userId plan = .error e) ∨
      ∀ p, Provider.ofValue plan.llmProvider = some p → ¬ env.MeetsUserKey userId true (some p)
  else ¬ env.MeetsUserKey userId request.disableFallback request.preferredProvider

section
variable {env : PlanEnv} {userId : String}

private theorem userKeySent_iff_meets (env : LlmEnv) (userId : String) (taskType : TaskType)
    (disableFallback : Bool) (modelOverride : Option String) (preferred : Option Provider) :
    UserKeySent (env.executeWithFallback userId (env.ask taskType userId) disableFallback
      modelOverride preferred).effects ↔ env.MeetsUserKey userId disableFallback preferred := by
  have hcalls := exists_call_iff env userId taskType disableFallback modelOverride preferred
    fun _ credential ↦ ∃ key, credential = .user key
  have hsent : UserKeySent (env.executeWithFallback userId (env.ask taskType userId)
      disableFallback modelOverride preferred).effects ↔
      ∃ q model credential, .providerCall q model credential ∈ (env.executeWithFallback userId
        (env.ask taskType userId) disableFallback modelOverride preferred).effects ∧
        ∃ key, credential = .user key := by
    constructor
    · rintro ⟨q, model, key, hmem⟩
      exact ⟨q, model, _, hmem, key, rfl⟩
    · rintro ⟨q, model, _, hmem, key, rfl⟩
      exact ⟨q, model, key, hmem⟩
  have hstanding : (fun p ↦ ∃ credential, env.standing userId p = .ready credential ∧
      ∃ key, credential = .user key) = fun p ↦ ∃ key, env.standing userId p = .ready (.user key) :=
    funext fun p ↦ propext
      ⟨fun ⟨_, hready, key, hkey⟩ ↦ ⟨key, hkey ▸ hready⟩, fun ⟨key, hready⟩ ↦ ⟨_, hready, key, rfl⟩⟩
  rw [hsent, hcalls, hstanding]
  rfl

variable {plan : Plan}

private theorem userKeySent_restricted (request : CompletionRequest) :
    UserKeySent (env.completeRestricted plan request userId).effects ↔
      ∃ p, Provider.ofValue plan.llmProvider = some p ∧ env.MeetsUserKey userId true (some p) := by
  unfold PlanEnv.completeRestricted
  cases Provider.ofValue plan.llmProvider with
  | none => simp [UserKeySent, Traced.raise]
  | some p =>
    simp only [Option.some.injEq, exists_eq_left']
    exact userKeySent_iff_meets ..

/-- **Own keys.** For a user whose plan does not allow own keys, no request goes out with one
precisely when the loop meets none. -/
theorem keepsUserKeys_iff (env : PlanEnv) (request : CompletionRequest) (userId : String)
    (session : Bool) {plan : Plan} (hhosted : env.config.billingEnabled = true)
    (hplan : getEffectivePlan env.billing userId env.now = .ok plan)
    (hbyok : plan.byokAllowed = false) :
    ¬ UserKeySent (env.planAwareComplete request userId session).effects ↔
      env.KeepsUserKeys plan request userId session := by
  unfold PlanEnv.planAwareComplete PlanEnv.KeepsUserKeys PlanEnv.effectivePlan
  cases session with
  | false =>
    simp only [Bool.false_eq_true, and_false, false_and, if_false]
    exact not_congr (userKeySent_iff_meets ..)
  | true =>
    simp only [hhosted, and_self, if_true, true_and]
    cases hfault : env.planLookupFault with
    | some e =>
      simp only [reduceCtorEq, if_false]
      exact not_congr (userKeySent_iff_meets ..)
    | none =>
      simp only [hplan, if_true]
      cases hspend : env.checkDailyLlmSpend userId plan with
      | error e => simp [UserKeySent, Traced.raise]
      | ok _ =>
        have hsame : UserKeySent ((.emit (.spendChecked userId plan.id) : Call Unit) >>= fun _ ↦
            env.completeOnPlan plan request userId).effects ↔
            UserKeySent (env.completeRestricted plan request userId).effects := by
          simp [UserKeySent, PlanEnv.completeOnPlan, hbyok]
        simp only [reduceCtorEq, exists_false, false_or]
        refine (not_congr (hsame.trans (userKeySent_restricted request))).trans ?_
        simp only [not_exists, not_and]

end

namespace PlanEnv

/-- Without a stored key the free plan's question goes out with the system's key. -/
theorem keepsUserKeys_seeded :
    ¬ UserKeySent ((seeded (some "sk-c") []).planAwareComplete question "u" true).effects := by
  refine (keepsUserKeys_iff (seeded (some "sk-c") []) question "u" true rfl rfl rfl).mpr ?_
  refine .inr fun p hp ⟨order, horder, hgets⟩ ↦ ?_
  cases hp
  obtain ⟨rest, rfl, -⟩ := candidates_some horder
  have hstanding : (seeded (some "sk-c") []).standing "u" .openaiCompatible = .ready .system := rfl
  rcases hgets with ⟨key, hkey⟩ | ⟨hgoes, -⟩
  · rw [hstanding] at hkey
    cases hkey
  · simp [LlmEnv.GoesOn, hstanding] at hgoes

/-- A user of the free plan with a key of the plan's provider. -/
def keyed : PlanEnv :=
  { seeded (some "sk-c") [] with userApiKeys := [⟨"u", .openaiCompatible, some "sk-u"⟩] }

theorem user_key_sent : ¬ ∀ (env : PlanEnv) (request : CompletionRequest) (userId : String)
    (session : Bool) (plan : Plan), env.config.billingEnabled = true →
      getEffectivePlan env.billing userId env.now = .ok plan → plan.byokAllowed = false →
      ¬ UserKeySent (env.planAwareComplete request userId session).effects := by
  intro h
  refine h keyed question "u" true (freePlan "f") rfl rfl rfl
    ⟨.openaiCompatible, "gpt-4o-mini", "sk-u", ?_⟩
  decide +kernel

end PlanEnv

end WikiMind.Llm
