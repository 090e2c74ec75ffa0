import WikiMind.Llm.Fallback

/-!
# One completion for one call

What `LLMRouter.complete` (`engine/llm_router.py:484`) makes of a completion it has obtained.
`_log_cost` and `_log_trace` run inside the operation that the fallback loop guards and swallow
only errors of SQLAlchemy; the loop's own error list (`engine/llm_router.py:103`) has classes
that a database driver raises as well.
-/

namespace WikiMind.Llm

open WikiMind.Base

/-- The providers called, in order. -/
def called (effects : List Effect) : List Provider :=
  effects.filterMap fun effect ↦
    match effect with
    | .providerCall p _ _ => some p
    | _ => none

namespace LlmEnv

variable (env : LlmEnv)

/-- Whether a provider returns a completion. -/
def completes (p : Provider) : Bool :=
  match env.reply p with
  | .ok _ => true
  | .error _ => false

/-- Of the calls of one request: one completion at most is obtained, the one obtained is
returned, and no provider is called after it. -/
structure SingleCompletion (calls : List Provider) (result : Except LlmError CompletionResponse) :
    Prop where
  atMostOne : calls.countP env.completes ≤ 1
  returned : ∀ p ∈ calls, ∀ response, env.reply p = .ok response → result = .ok response
  last : ∀ before p after, calls = before ++ p :: after → env.completes p = true → after = []

/-- The loop of a request comes to no provider that answers and whose books then raise. -/
def Booked (request : CompletionRequest) (userId : String) : Prop :=
  ∀ order, env.config.candidates request.preferredProvider = .ok order →
    ¬ Gets (env.GoesOn userId request.disableFallback) (env.Unbooked userId) order

end LlmEnv

section
variable {env : LlmEnv} {userId : String} {taskType : TaskType} {disableFallback : Bool}
  {modelOverride : Option String} {p : Provider} {calls : List Provider}
  {result : Except LlmError CompletionResponse}

private theorem completes_iff :
    env.completes p = true ↔ ∃ response, env.reply p = .ok response := by
  unfold LlmEnv.completes
  cases env.reply p <;> simp

private theorem completes_of_error {e : LlmError} (h : env.reply p = .error e) :
    env.completes p = false := by
  simp [LlmEnv.completes, h]

private theorem single_nil : env.SingleCompletion [] result where
  atMostOne := by simp
  returned := by simp
  last := by simp

/-- A completion that is returned at once. -/
theorem single_answer {response : CompletionResponse} (h : env.reply p = .ok response) :
    env.SingleCompletion [p] (.ok response) where
  atMostOne := List.countP_le_length
  returned q hq response' hreply := by
    rw [List.mem_singleton.mp hq, h] at hreply
    exact hreply
  last before q after hsplit _ := by
    cases before with
    | nil => exact (List.cons.inj hsplit).2.symm
    | cons q' before => simp at hsplit

/-- A call that failed changes nothing. -/
theorem single_cons_failed {e : LlmError} (h : env.reply p = .error e) :
    env.SingleCompletion (p :: calls) result ↔ env.SingleCompletion calls result := by
  have hfailed : ¬ env.completes p = true := by simp [completes_of_error h]
  constructor
  · rintro ⟨hone, hreturned, hlast⟩
    refine ⟨by rwa [List.countP_cons_of_neg hfailed] at hone,
      fun q hq ↦ hreturned q (List.mem_cons_of_mem _ hq), fun before q after hsplit ↦ ?_⟩
    exact hlast (p :: before) q after (by rw [hsplit, List.cons_append])
  · rintro ⟨hone, hreturned, hlast⟩
    refine ⟨by rwa [List.countP_cons_of_neg hfailed], fun q hq response hreply ↦ ?_,
      fun before q after hsplit hq ↦ ?_⟩
    · rcases List.mem_cons.mp hq with rfl | hrest
      · rw [h] at hreply
        cases hreply
      · exact hreturned q hrest response hreply
    · cases before with
      | nil =>
        rw [(List.cons.inj hsplit).1] at hfailed
        exact absurd hq hfailed
      | cons p' before => exact hlast before q after (List.cons.inj hsplit).2 hq

/-- The calls of trying a provider: none, or its own. -/
theorem called_tryProvider (env : LlmEnv) (userId : String) (taskType : TaskType)
    (disableFallback : Bool) (modelOverride : Option String) (p : Provider) :
    (called (env.tryProvider userId (env.ask taskType userId) disableFallback modelOverride p).1 =
        [] ∧
      (∀ a, (env.tryProvider userId (env.ask taskType userId) disableFallback modelOverride p).2 ≠
        .settle (.ok a)) ∧ ∀ credential, env.standing userId p ≠ .ready credential) ∨
    called (env.tryProvider userId (env.ask taskType userId) disableFallback modelOverride p).1 =
        [p] ∧
      (∃ credential, env.standing userId p = .ready credential) ∧
      (env.tryProvider userId (env.ask taskType userId) disableFallback modelOverride p).2 =
        env.settle disableFallback p (env.outcome p) := by
  obtain ⟨hnil, hrest⟩ | ⟨credential, books, hready, hbooks, htry⟩ :=
    tryProvider_ask env userId taskType disableFallback modelOverride p
  · refine .inl ⟨?_, hrest⟩
    rw [hnil]
    rfl
  · have hnone : called books = [] := by
      unfold called
      rw [List.filterMap_eq_nil_iff]
      intro effect heffect
      cases effect with
      | providerCall q model credential' => exact absurd heffect (hbooks q model credential')
      | _ => rfl
    rw [htry]
    refine .inr ⟨?_, ⟨credential, hready⟩, rfl⟩
    have hcons : called (.providerCall p (env.config.getModel p modelOverride) credential ::
        books) = p :: called books := rfl
    rw [hcons, hnone]

/-- A loop that returns has called a provider. -/
theorem called_of_ok {order : List Provider} {last : Option LlmError}
    {response : CompletionResponse}
    (h : (failover (env.tryProvider userId (env.ask taskType userId) disableFallback modelOverride)
      LlmEnv.allFailed order last).result = .ok response) :
    called (failover (env.tryProvider userId (env.ask taskType userId) disableFallback
      modelOverride) LlmEnv.allFailed order last).effects ≠ [] := by
  obtain ⟨p, hp, hsettle⟩ := exists_settle_of_ok LlmEnv.allFailed order last h
  obtain ⟨-, hnone, -⟩ | ⟨hcalled, -, -⟩ :=
    called_tryProvider env userId taskType disableFallback modelOverride p
  · exact absurd hsettle (hnone response)
  · have hmem : p ∈ called (env.tryProvider userId (env.ask taskType userId) disableFallback
        modelOverride p).1 := by
      rw [hcalled]
      exact List.mem_singleton_self p
    obtain ⟨effect, heffect, hcall⟩ := List.mem_filterMap.mp hmem
    rw [effects_failover]
    refine List.ne_nil_of_mem (a := p) (List.mem_filterMap.mpr ⟨effect, ?_, hcall⟩)
    exact List.mem_flatMap.mpr ⟨p, hp, heffect⟩

private theorem called_append (effects effects' : List Effect) :
    called (effects ++ effects') = called effects ++ called effects' :=
  List.filterMap_append

private theorem unbooked_iff {response : CompletionResponse} (hready : ∃ credential,
    env.standing userId p = .ready credential) (hreply : env.reply p = .ok response) :
    env.Unbooked userId p ↔ env.outcome p ≠ .ok response := by
  unfold LlmEnv.Unbooked LlmEnv.Answers
  rw [and_iff_right ⟨hready, response, hreply⟩]
  simp [outcome_eq_ok, hreply]

/-- The loop ends with a provider: its books decide. -/
theorem single_settled_iff {r : Except LlmError CompletionResponse}
    (hr : (env.tryProvider userId (env.ask taskType userId) disableFallback modelOverride p).2 =
      .settle r) :
    env.SingleCompletion (called (env.tryProvider userId (env.ask taskType userId) disableFallback
      modelOverride p).1) r ↔ ¬ env.Unbooked userId p := by
  obtain ⟨hnil, -, hready⟩ | ⟨hcalled, hready, hsettle⟩ :=
    called_tryProvider env userId taskType disableFallback modelOverride p
  · rw [hnil]
    exact iff_of_true single_nil fun h ↦ h.1.1.elim hready
  · rw [hcalled]
    cases hreply : env.reply p with
    | error e =>
      refine iff_of_true ((single_cons_failed hreply).mpr single_nil) ?_
      rintro ⟨⟨-, response, hanswer⟩, -⟩
      rw [hreply] at hanswer
      cases hanswer
    | ok response =>
      rw [unbooked_iff hready hreply, not_not]
      have houtcome : env.settle disableFallback p (env.outcome p) = .settle (.ok response) ↔
          env.outcome p = .ok response := settle_eq_ok
      rw [← hsettle, hr, Attempt.settle.injEq] at houtcome
      rw [← houtcome]
      constructor
      · intro h
        exact h.returned p (List.mem_singleton_self p) response hreply
      · rintro rfl
        exact single_answer hreply

/-- The loop goes on after a provider: the answer of this one is lost, or there was none. -/
theorem single_passed_iff {order : List Provider} {last : Option LlmError}
    (hpasses : (env.tryProvider userId (env.ask taskType userId) disableFallback modelOverride
      p).2.Passes) :
    env.SingleCompletion
        (called (env.tryProvider userId (env.ask taskType userId) disableFallback modelOverride
            p).1 ++
          called (failover (env.tryProvider userId (env.ask taskType userId) disableFallback
            modelOverride) LlmEnv.allFailed order last).effects)
        (failover (env.tryProvider userId (env.ask taskType userId) disableFallback modelOverride)
          LlmEnv.allFailed order last).result ↔
      ¬ env.Unbooked userId p ∧
        env.SingleCompletion
          (called (failover (env.tryProvider userId (env.ask taskType userId) disableFallback
            modelOverride) LlmEnv.allFailed order last).effects)
          (failover (env.tryProvider userId (env.ask taskType userId) disableFallback
            modelOverride) LlmEnv.allFailed order last).result := by
  obtain ⟨hnil, -, hready⟩ | ⟨hcalled, hready, hsettle⟩ :=
    called_tryProvider env userId taskType disableFallback modelOverride p
  · have hbooked : ¬ env.Unbooked userId p := fun h ↦ h.1.1.elim hready
    rw [hnil, List.nil_append, and_iff_right hbooked]
  · rw [hcalled]
    cases hreply : env.reply p with
    | error e =>
      have hbooked : ¬ env.Unbooked userId p := by
        rintro ⟨⟨-, response, hanswer⟩, -⟩
        rw [hreply] at hanswer
        cases hanswer
      rw [and_iff_right hbooked]
      exact single_cons_failed hreply
    | ok response =>
      rw [hsettle, passes_settle] at hpasses
      obtain ⟨-, e, houtcome, -⟩ := hpasses
      have hunbooked : env.Unbooked userId p :=
        (unbooked_iff hready hreply).mpr (by simp [houtcome])
      refine iff_of_false (fun h ↦ ?_) fun h ↦ h.1 hunbooked
      have hresult := h.returned p (List.mem_cons_self ..) response hreply
      exact called_of_ok hresult (h.last [] p _ rfl (completes_iff.mpr ⟨response, hreply⟩))

private theorem single_failover_iff (order : List Provider) (last : Option LlmError) :
    env.SingleCompletion
        (called (failover (env.tryProvider userId (env.ask taskType userId) disableFallback
          modelOverride) LlmEnv.allFailed order last).effects)
        (failover (env.tryProvider userId (env.ask taskType userId) disableFallback modelOverride)
          LlmEnv.allFailed order last).result ↔
      ¬ Gets (env.GoesOn userId disableFallback) (env.Unbooked userId) order := by
  induction order generalizing last with
  | nil => exact iff_of_true single_nil id
  | cons p order ih =>
    unfold Gets
    rw [← passes_iff env userId taskType disableFallback modelOverride p, not_or, not_and]
    obtain ⟨r, hr, hstays, hloop⟩ | ⟨hpasses, last', hloop⟩ :=
      failover_cons_cases LlmEnv.allFailed order last (env.tryProvider userId
        (env.ask taskType userId) disableFallback modelOverride) p
    · rw [hloop, single_settled_iff hr, and_iff_left fun h ↦ absurd h hstays]
    · rw [hloop, called_append, single_passed_iff hpasses, ih last']
      simp only [hpasses, true_imp_iff]

end

/-- **One completion.** A call obtains one completion at most, returns it and calls no further
provider, precisely when its loop comes to no answer whose books raise. -/
theorem singleCompletion_iff (env : LlmEnv) (request : CompletionRequest) (userId : String) :
    env.SingleCompletion (called (env.complete request userId).effects)
        (env.complete request userId).result ↔ env.Booked request userId := by
  unfold LlmEnv.complete LlmEnv.executeWithFallback LlmEnv.Booked
  cases env.config.candidates request.preferredProvider with
  | error e => exact iff_of_true single_nil (by simp)
  | ok order =>
    simp only [Except.ok.injEq, forall_eq']
    exact single_failover_iff order none

namespace PlanEnv

/-- The compatible provider answers and its cost entry finds the database unreachable;
Anthropic answers after it. -/
def unreachable : PlanEnv :=
  { seeded (some "sk-c") [] with
    costLogFault := fun p ↦
      if p = .openaiCompatible then some (.os "Connection refused") else none }

theorem two_completions : ¬ ∀ (env : LlmEnv) (request : CompletionRequest) (userId : String),
    env.SingleCompletion (called (env.complete request userId).effects)
      (env.complete request userId).result := by
  intro h
  have hcalled : called (unreachable.complete question "u").effects =
      [.openaiCompatible, .anthropic] := by
    decide +kernel
  have hlast := (h unreachable.toLlmEnv question "u").last [] .openaiCompatible [.anthropic] hcalled
    rfl
  cases hlast

end PlanEnv

end WikiMind.Llm
