import WikiMind.Llm.SettingsWrites

/-!
# Connection tests beside other requests

A connection test turns the fallback flag of the whole process off, waits for a completion and
puts the value back that it found (`api/routes/settings.py:502–540`). What other requests do
meanwhile are updates of the flag and completions, which look at it when a provider has failed
(`engine/llm_router.py:478`).
-/

namespace WikiMind.Llm.RuntimeSettings

open WikiMind.Base

/-- `PATCH /settings` of the fallback flag. -/
def fallbackUpdate (fallback : Bool) : SettingsUpdateRequest where
  fallbackEnabled := some fallback

/-- What requests do to the flag. An update does it in one moment: it waits for its write
before it sets the override, and for nothing after. -/
inductive FlagEvent where
  | testStart (userId : String) (r : Nat)
  | testEnd (userId : String) (r : Nat)
  | update (userId : String) (fallback : Bool) (faults : List String)
  | look
  deriving DecidableEq, Repr

/-- The process, with the value the last accepted update chose, and what the completions of
other requests saw, each beside the value chosen then. -/
structure Watched where
  state : State
  chosen : Value
  seen : List (Value × Value)

section
variable (env : Env)

/-- The flag in force. -/
def State.fallback (s : State) : Value := (s.effective env).fallbackEnabled

/-- One event; `none` when it is not enabled. -/
def watch (w : Watched) : FlagEvent → Option Watched
  | .testStart userId r =>
    (step env userId w.state (.testStart r)).map fun state ↦ { w with state }
  | .testEnd userId r => (step env userId w.state (.testEnd r)).map fun state ↦ { w with state }
  | .update userId fallback faults =>
    match Stateful.exec (updateSettings env userId faults (fallbackUpdate fallback)) w.state with
    | (.ok _, state) => some { w with state, chosen := .bool fallback }
    | (.error _, state) => some { w with state }
  | .look => some { w with seen := w.seen ++ [(w.state.fallback env, w.chosen)] }

/-- The system of the tests, updates and completions of all users. -/
def flagEvents : Machine Watched FlagEvent := ⟨watch env⟩

/-- When no test is under way the flag is the one chosen, and no completion saw it turned off
that was not chosen to be off. -/
def Watched.Settled (w : Watched) : Prop :=
  (w.state.tests = [] → w.state.fallback env = w.chosen) ∧
    ∀ x ∈ w.seen, x.1 = .bool false → x.2 = .bool false

instance (w : Watched) : Decidable (w.Settled env) := inferInstanceAs (Decidable (_ ∧ _))

/-- Of the tests under way the one that began first ends last, the flag is updated while none is
under way, and a completion looks at it while none is, or fallback is chosen to be off. -/
def InOrder (w : Watched) : FlagEvent → Prop
  | .testStart .. => True
  | .testEnd _ r => ∀ test ∈ w.state.tests.getLast?, test.1 = r → w.state.tests.length = 1
  | .update .. => w.state.tests = []
  | .look => w.state.tests = [] ∨ w.chosen = .bool false

instance (w : Watched) : ∀ e, Decidable (InOrder w e)
  | .testStart .. => .isTrue trivial
  | .testEnd _ r => inferInstanceAs
      (Decidable (∀ test ∈ w.state.tests.getLast?, test.1 = r → w.state.tests.length = 1))
  | .update .. => inferInstanceAs (Decidable (w.state.tests = []))
  | .look => inferInstanceAs (Decidable (w.state.tests = [] ∨ w.chosen = .bool false))

/-- The process as it starts, with no test under way. -/
def Watched.initial (overrides : String → Option Value) (preferences : List UserPreference) :
    Watched :=
  ⟨⟨overrides, preferences, []⟩, State.fallback env ⟨overrides, preferences, []⟩, []⟩

end

section
variable {env : Env} {w : Watched}

private theorem settled_initial (overrides : String → Option Value)
    (preferences : List UserPreference) :
    (Watched.initial env overrides preferences).Settled env :=
  ⟨fun _ ↦ rfl, fun _ h ↦ nomatch h⟩

private theorem fallback_set (s : State) (value : Value) :
    (s.set fallbackKey value).fallback env = value := by
  unfold State.fallback
  rw [effective_set_fallback]

/-- An accepted update of the flag sets it, and one that fails leaves it. -/
theorem exec_fallbackUpdate (s : State) (userId : String) (fallback : Bool)
    (faults : List String) :
    Stateful.exec (updateSettings env userId faults (fallbackUpdate fallback)) s =
      if fallbackKey ∈ faults then (.error .raised, s)
      else (.ok (), s.stored userId fallbackKey (boolStr fallback) (.bool fallback)) := by
  have hbudget : updateBudget env userId faults (fallbackUpdate fallback) = pure () := rfl
  have hfallback : updateFallback userId faults (fallbackUpdate fallback) =
      store userId faults fallbackKey (boolStr fallback) (.bool fallback) := rfl
  have hcompatible :
      updateOpenaiCompatibleSettings env userId faults (fallbackUpdate fallback) = pure () := by
    unfold updateOpenaiCompatibleSettings
    rw [if_neg fun h ↦ by cases h.2]
    rfl
  have hprovider : updateDefaultProvider userId faults (fallbackUpdate fallback) = pure () := rfl
  unfold updateSettings
  rw [hbudget, hfallback, hcompatible, hprovider, pure_bind, pure_bind, bind_pure_unit]
  exact exec_store fallbackKey (boolStr fallback) (.bool fallback) s

private theorem watch_update (w : Watched) (userId : String) (fallback : Bool)
    (faults : List String) :
    watch env w (.update userId fallback faults) =
      some (if fallbackKey ∈ faults then w else
        { w with
          state := w.state.stored userId fallbackKey (boolStr fallback) (.bool fallback)
          chosen := .bool fallback }) := by
  dsimp only [watch]
  rw [exec_fallbackUpdate]
  by_cases hfault : fallbackKey ∈ faults
  · rw [if_pos hfault, if_pos hfault]
  · rw [if_neg hfault, if_neg hfault]

/-- What is kept: the flag is settled, and the first test under way has found the value chosen. -/
def Watched.Kept (env : Env) (w : Watched) : Prop :=
  w.Settled env ∧ ∀ test ∈ w.state.tests.getLast?, test.2 = w.chosen

private theorem kept_testStart (h : w.Kept env) {userId : String} {r : Nat} {t : Watched}
    (hstep : watch env w (.testStart userId r) = some t) : t.Kept env := by
  obtain ⟨⟨hflag, hseen⟩, hfirst⟩ := h
  obtain ⟨state, hstate, rfl⟩ := Option.map_eq_some_iff.mp hstep
  obtain ⟨_, hnext⟩ := Option.ite_none_left_eq_some.mp hstate
  cases hnext
  refine ⟨⟨fun hnil ↦ (nomatch hnil), hseen⟩, fun test htest ↦ ?_⟩
  cases htests : w.state.tests with
  | nil =>
    -- the flag is settled before the first test turns it off
    dsimp only at htest
    rw [htests] at htest
    cases htest
    exact hflag htests
  | cons other tests =>
    dsimp only at htest
    rw [htests, List.getLast?_cons_cons] at htest
    exact hfirst test (htests ▸ htest)

private theorem kept_testEnd (h : w.Kept env) {userId : String} {r : Nat} {t : Watched}
    (horder : InOrder w (.testEnd userId r))
    (hstep : watch env w (.testEnd userId r) = some t) : t.Kept env := by
  obtain ⟨⟨hflag, hseen⟩, hfirst⟩ := h
  obtain ⟨state, hstate, rfl⟩ := Option.map_eq_some_iff.mp hstep
  obtain ⟨original, horiginal, rfl⟩ := Option.map_eq_some_iff.mp hstate
  obtain ⟨found, hfound, rfl⟩ := Option.map_eq_some_iff.mp horiginal
  obtain ⟨tests, first, htests⟩ := (List.eq_nil_or_concat w.state.tests).resolve_left
    (List.ne_nil_of_mem (List.mem_of_find?_eq_some hfound))
  rw [List.concat_eq_append] at htests
  have hlast : w.state.tests.getLast? = some first := by rw [htests, List.getLast?_concat]
  by_cases hr : first.1 = r
  · -- the first test ends alone, and puts back what it has found
    have hlength := horder first hlast hr
    rw [htests, List.length_append, List.length_singleton, Nat.add_eq_right,
      List.length_eq_zero_iff] at hlength
    rw [hlength, List.nil_append] at htests
    obtain rfl := List.mem_singleton.mp (htests ▸ List.mem_of_find?_eq_some hfound)
    have hnone : w.state.tests.filter (·.1 ≠ r) = [] := by
      rw [htests]
      simp [hr]
    refine ⟨⟨fun _ ↦ ?_, hseen⟩, fun test htest ↦ ?_⟩
    · exact (fallback_set w.state found.2).trans (hfirst found hlast)
    · dsimp only at htest
      rw [hnone] at htest
      cases htest
  · have hrest : w.state.tests.filter (·.1 ≠ r) = tests.filter (·.1 ≠ r) ++ [first] := by
      rw [htests, List.filter_append]
      simp [hr]
    refine ⟨⟨fun hnil ↦ ?_, hseen⟩, fun test htest ↦ ?_⟩
    · dsimp only at hnil
      rw [hrest] at hnil
      simp at hnil
    · dsimp only at htest
      rw [hrest, List.getLast?_concat] at htest
      cases htest
      exact hfirst first hlast

/-- A step in order keeps it. -/
theorem kept_watch (h : w.Kept env) {e : FlagEvent} {t : Watched} (horder : InOrder w e)
    (hstep : watch env w e = some t) : t.Kept env := by
  cases e with
  | testStart userId r => exact kept_testStart h hstep
  | testEnd userId r => exact kept_testEnd h horder hstep
  | update userId fallback faults =>
    rw [watch_update] at hstep
    cases hstep
    split
    · exact h
    · refine ⟨⟨fun _ ↦ fallback_set w.state _, h.1.2⟩, fun test htest ↦ ?_⟩
      have hnone : w.state.tests = [] := horder
      have hmem : test ∈ w.state.tests.getLast? := htest
      rw [hnone] at hmem
      cases hmem
  | look =>
    cases hstep
    refine ⟨⟨h.1.1, ?_⟩, h.2⟩
    rw [List.forall_mem_append, List.forall_mem_singleton]
    refine ⟨h.1.2, fun hoff ↦ ?_⟩
    rcases horder with hnone | hchosen
    · exact (h.1.1 hnone).symm.trans hoff
    · exact hchosen

end

/-- For all tests, updates and completions in every interleaving that is in order: the flag is the
one chosen last whenever no test is under way, and no completion of another request runs with
fallback disabled because of a test. -/
theorem settled_of_inOrder (env : Env) (overrides : String → Option Value)
    (preferences : List UserPreference) {events : List FlagEvent}
    (h : (flagEvents env).Guarded InOrder (Watched.initial env overrides preferences) events) :
    (flagEvents env).Always (Watched.Settled env) (Watched.initial env overrides preferences)
      events :=
  Machine.Always.mono _ (fun _ ↦ And.left) (Machine.always_of_guarded _
    (fun _ _ _ hkept horder hstep ↦ kept_watch hkept horder hstep)
    ⟨settled_initial overrides preferences, fun _ htest ↦ (nomatch htest)⟩ h)

/-- A test within another, an update and a completion after both. -/
theorem settled_nested_tests :
    (flagEvents hosted).Always (Watched.Settled hosted)
      (Watched.initial hosted (fun _ ↦ none) [])
      [.testStart "u" 0, .testStart "v" 1, .testEnd "v" 1, .testEnd "u" 0,
        .update "u" false [], .testStart "v" 2, .look, .testEnd "v" 2, .look] :=
  settled_of_inOrder hosted _ _ (by decide +kernel)

/-- Two tests that overlap leave fallback disabled when both have ended, and while one runs the
completions of others do without. -/
theorem overlapping_tests_not_settled :
    ¬ (flagEvents hosted).Always (Watched.Settled hosted)
        (Watched.initial hosted (fun _ ↦ none) [])
        [.testStart "u" 0, .testStart "v" 1, .testEnd "u" 0, .testEnd "v" 1] ∧
      ¬ (flagEvents hosted).Always (Watched.Settled hosted)
        (Watched.initial hosted (fun _ ↦ none) []) [.testStart "u" 0, .look] := by
  constructor
  all_goals decide +kernel

end WikiMind.Llm.RuntimeSettings
