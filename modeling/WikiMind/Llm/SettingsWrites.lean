import WikiMind.Llm.RuntimeSettings

/-!
# Settings requests as writes

An update looks at its fields one after the other and writes each that it admits before it
looks at the next; what it leaves are the writes of the fields before the first one that is
refused or whose write fails. Each field has a key of its own.
-/

namespace WikiMind.Llm.RuntimeSettings

open WikiMind.Base

/-- A preference and its override that are written: the key, the text and the value. -/
abbrev Entry := String × String × Value

section
variable (env : Env) (request : SettingsUpdateRequest)

/-- The budget: `api/routes/settings.py:468–476`. -/
def budgetWrite : FieldWrite :=
  match request.monthlyBudgetUsd with
  | none => .ok none
  | some budget =>
    if budget.nonPositive then .error (.http 400 "Budget must be positive")
    else .ok (some (budgetKey, env.amountStr budget, .amount budget))

/-- The fallback flag: `api/routes/settings.py:478–484`. -/
def fallbackWrite : FieldWrite := flagWrite fallbackKey request.fallbackEnabled

/-- The check before the fields of the compatible provider: `api/routes/settings.py:336–340`. -/
def compatibleGuard : FieldWrite :=
  if ¬ env.isDev ∧ request.hasCompatibleUpdate then
    .error (.http 403 ("OpenAI-compatible runtime settings are global and cannot be changed " ++
      "by users when auth is enabled"))
  else .ok none

/-- The default provider: `api/routes/settings.py:489–497`. -/
def providerWrite : FieldWrite :=
  match request.defaultProvider with
  | none => .ok none
  | some provider =>
    if Provider.ofValue provider = none then
      .error (.http 400 ("Unknown provider: " ++ provider))
    else .ok (some (providerKey, provider, .str provider))

/-- The fields of an update in the order in which it looks at them. -/
def SettingsUpdateRequest.writes : List FieldWrite :=
  [budgetWrite env request, fallbackWrite request, compatibleGuard env request] ++
    request.compatibleWrites ++ [providerWrite request]

end

/-- What is written for the fields. -/
def entries (writes : List FieldWrite) : List Entry :=
  writes.filterMap fun
    | .ok entry => entry
    | .error _ => none

/-- The fields before the first one that is refused or whose write fails. -/
def admitted (faults : List String) (writes : List FieldWrite) : List FieldWrite :=
  writes.takeWhile (SettingsUpdateRequest.admitsWrite faults)

/-- The preference and the override of an entry have its text and its value. -/
def State.Holds (s : State) (entry : Entry) : Prop :=
  s.overrides entry.1 = some entry.2.2 ∧ (∃ pref ∈ s.preferences, pref.key = entry.1) ∧
    ∀ pref ∈ s.preferences, pref.key = entry.1 → pref.value = entry.2.1

/-- The keys of the fields of an update, in its order; the check has none. -/
def fieldKeys : List (Option String) :=
  [budgetKey, fallbackKey, none, "llm.openai_compatible.base_url", "llm.openai_compatible.model",
    "llm.openai_compatible.supports_json_response_format",
    "llm.openai_compatible.supports_stream_usage",
    "llm.openai_compatible.supports_reasoning_effort",
    "llm.openai_compatible.max_tokens_field", "llm.openai_compatible.reasoning_format",
    providerKey]

/-- The state with entries written. -/
def State.writeAll (s : State) (userId : String) (written : List Entry) : State :=
  written.foldl (fun s entry ↦ s.stored userId entry.1 entry.2.1 entry.2.2) s

section
variable {env : Env} {userId : String} {faults : List String}

private theorem entries_cons (write : FieldWrite) (writes : List FieldWrite) :
    entries (write :: writes) = entries [write] ++ entries writes := by
  unfold entries
  rw [← List.filterMap_append, List.singleton_append]

/-- Behind a field that is not admitted nothing is written. -/
theorem entries_admitted_cons (write : FieldWrite) (writes : List FieldWrite) :
    entries (admitted faults (write :: writes)) =
      if SettingsUpdateRequest.admitsWrite faults write then
        entries [write] ++ entries (admitted faults writes)
      else [] := by
  unfold admitted
  rw [List.takeWhile_cons]
  split
  · rw [entries_cons]
  · rfl

/-- One field: its entry, if it has one and is admitted. -/
theorem exec_storeField (write : FieldWrite) (s : State) :
    ((Stateful.exec (storeField userId faults () write) s).1 = .ok () ↔
        SettingsUpdateRequest.admitsWrite faults write = true) ∧
      (Stateful.exec (storeField userId faults () write) s).2 =
        if SettingsUpdateRequest.admitsWrite faults write then s.writeAll userId (entries [write])
        else s := by
  unfold storeField
  rw [Stateful.exec_bind, Stateful.exec_ofExcept]
  match write with
  | .error e => simp [SettingsUpdateRequest.admitsWrite]
  | .ok none => exact ⟨iff_of_true rfl rfl, rfl⟩
  | .ok (some (key, text, value)) =>
    by_cases hfault : key ∈ faults <;>
      simp [SettingsUpdateRequest.admitsWrite, entries, State.writeAll, exec_store, hfault]

private theorem writeAll_append (s : State) (first rest : List Entry) :
    s.writeAll userId (first ++ rest) = (s.writeAll userId first).writeAll userId rest :=
  List.foldl_append

/-- All fields: the entries of those that are admitted are written. -/
theorem exec_foldlM_storeField (writes : List FieldWrite) (s : State) :
    ((Stateful.exec (writes.foldlM (storeField userId faults) ()) s).1 = .ok () ↔
        writes.all (SettingsUpdateRequest.admitsWrite faults) = true) ∧
      (Stateful.exec (writes.foldlM (storeField userId faults) ()) s).2 =
        s.writeAll userId (entries (admitted faults writes)) := by
  induction writes generalizing s with
  | nil => exact ⟨iff_of_true rfl rfl, rfl⟩
  | cons write writes ih =>
    obtain ⟨hok, hstate⟩ := @exec_storeField userId faults write s
    rw [List.foldlM_cons, Stateful.exec_bind, List.all_cons, Bool.and_eq_true,
      entries_admitted_cons]
    cases hexec : Stateful.exec (storeField userId faults () write) s with
    | mk outcome t =>
      rw [hexec] at hok hstate
      cases outcome with
      | error e =>
        have hrefused : ¬ SettingsUpdateRequest.admitsWrite faults write = true :=
          fun h ↦ by cases hok.mpr h
        simp only [if_neg hrefused] at hstate ⊢
        exact ⟨iff_of_false (by rintro ⟨⟩) fun h ↦ hrefused h.1, hstate⟩
      | ok a =>
        have hadmits := hok.mp rfl
        obtain ⟨hrest, hfinal⟩ := ih t
        simp only [if_pos hadmits] at hstate ⊢
        exact ⟨by rw [hrest, and_iff_right hadmits], by rw [hfinal, writeAll_append, hstate]⟩

/-- An update is the fields it looks at, in their order. -/
theorem updateSettings_eq (request : SettingsUpdateRequest) :
    updateSettings env userId faults request =
      (request.writes env).foldlM (storeField userId faults) () := by
  have hbudget : updateBudget env userId faults request =
      storeField userId faults () (budgetWrite env request) := by
    unfold updateBudget budgetWrite
    cases request.monthlyBudgetUsd with
    | none => rfl
    | some budget =>
      dsimp only
      split <;> rfl
  have hfallback : updateFallback userId faults request =
      storeField userId faults () (fallbackWrite request) := by
    unfold updateFallback fallbackWrite flagWrite
    cases request.fallbackEnabled <;> rfl
  have hcompatible : updateOpenaiCompatibleSettings env userId faults request =
      storeField userId faults () (compatibleGuard env request) >>= fun _ ↦
        request.compatibleWrites.foldlM (storeField userId faults) () := by
    unfold updateOpenaiCompatibleSettings compatibleGuard
    split <;> rfl
  have hprovider : updateDefaultProvider userId faults request =
      storeField userId faults () (providerWrite request) := by
    unfold updateDefaultProvider providerWrite
    cases request.defaultProvider with
    | none => rfl
    | some provider =>
      dsimp only
      split <;> rfl
  unfold updateSettings SettingsUpdateRequest.writes
  rw [hbudget, hfallback, hcompatible, hprovider]
  simp only [List.cons_append, List.nil_append, List.foldlM_append, List.foldlM_cons,
    List.foldlM_nil, bind_assoc, bind_pure]

/-! ### The keys of the fields -/

/-- Fields that write to fixed keys write to each of them once at most. -/
theorem keys_entries {writes : List FieldWrite} {keys : List (Option String)}
    (h : List.Forall₂ (fun write key ↦ ∀ w : Entry, write = .ok (some w) → some w.1 = key)
      writes keys) :
    ((entries writes).map fun entry ↦ some entry.1).Sublist keys := by
  induction h with
  | nil => exact .slnil
  | @cons write key writes keys hkey _ ih =>
    match write with
    | .error _ | .ok none => exact ih.cons key
    | .ok (some w) =>
      rw [← hkey w rfl]
      exact ih.cons_cons _

private theorem budgetWrite_key {request : SettingsUpdateRequest} {w : Entry}
    (h : budgetWrite env request = .ok (some w)) : w.1 = budgetKey := by
  unfold budgetWrite at h
  split at h
  · cases h
  · split at h <;> cases h
    rfl

private theorem providerWrite_key {request : SettingsUpdateRequest} {w : Entry}
    (h : providerWrite request = .ok (some w)) : w.1 = providerKey := by
  unfold providerWrite at h
  split at h
  · cases h
  · split at h <;> cases h
    rfl

theorem compatibleGuard_ne {request : SettingsUpdateRequest} {w : Entry} :
    compatibleGuard env request ≠ .ok (some w) := by
  unfold compatibleGuard
  split <;> rintro ⟨⟩

private theorem writes_fieldKeys (request : SettingsUpdateRequest) :
    List.Forall₂ (fun write key ↦ ∀ w : Entry, write = .ok (some w) → some w.1 = key)
      (request.writes env) fieldKeys :=
  .cons (fun _ h ↦ congrArg some (budgetWrite_key h)) <|
  .cons (fun _ h ↦ congrArg some (flagWrite_key h)) <|
  .cons (fun _ h ↦ absurd h compatibleGuard_ne) <|
  .cons (fun _ h ↦ congrArg some (baseUrlWrite_key h)) <|
  .cons (fun _ h ↦ congrArg some (textWrite_key h)) <|
  .cons (fun _ h ↦ congrArg some (flagWrite_key h)) <|
  .cons (fun _ h ↦ congrArg some (flagWrite_key h)) <|
  .cons (fun _ h ↦ congrArg some (flagWrite_key h)) <|
  .cons (fun _ h ↦ congrArg some (textWrite_key h)) <|
  .cons (fun _ h ↦ congrArg some (textWrite_key h)) <|
  .cons (fun _ h ↦ congrArg some (providerWrite_key h)) .nil

/-- What an update writes before it stops has each key once. -/
theorem keys_admitted_nodup (env : Env) (faults : List String) (request : SettingsUpdateRequest) :
    ((entries (admitted faults (request.writes env))).map (·.1)).Nodup := by
  have hsub : (entries (admitted faults (request.writes env))).Sublist
      (entries (request.writes env)) := (List.takeWhile_sublist _).filterMap _
  have hkeys : ((entries (admitted faults (request.writes env))).map
      fun entry ↦ some entry.1).Nodup :=
    ((hsub.map _).trans (keys_entries (writes_fieldKeys request))).nodup (by decide)
  rw [← Function.comp_def some, ← List.map_map] at hkeys
  exact hkeys.of_map some

/-! ### What is written -/

/-- The rows of other keys are left. -/
theorem mem_setPreference_other {preferences : List UserPreference} {key text : String}
    {pref : UserPreference} (hkey : pref.key ≠ key) :
    pref ∈ setPreference preferences key text userId ↔ pref ∈ preferences := by
  unfold setPreference
  split
  · unfold Rows.modify
    rw [List.mem_map]
    constructor
    · rintro ⟨old, hold, rfl⟩
      by_cases heq : old.key = key
      · exact absurd (by simp [heq]) hkey
      · rwa [if_neg (by simpa using heq)]
    · intro hpref
      exact ⟨pref, hpref, if_neg (by simpa using hkey)⟩
  · rw [List.mem_append, List.mem_singleton, or_iff_left_iff_imp]
    rintro rfl
    exact absurd rfl hkey

/-- There is a row of the key then, and it has the text. -/
theorem setPreference_written (preferences : List UserPreference) (key text : String) :
    (∃ pref ∈ setPreference preferences key text userId, pref.key = key) ∧
      ∀ pref ∈ setPreference preferences key text userId, pref.key = key → pref.value = text := by
  unfold setPreference
  split
  next hany =>
    obtain ⟨old, hold, hkey⟩ := List.any_eq_true.mp hany
    unfold Rows.modify
    refine ⟨⟨_, List.mem_map_of_mem hold, ?_⟩, ?_⟩
    · rw [if_pos hkey]
      exact of_decide_eq_true hkey
    · intro pref hpref heq
      obtain ⟨other, _, rfl⟩ := List.mem_map.mp hpref
      by_cases hother : other.key = key
      · rw [if_pos (decide_eq_true hother)]
      · rw [if_neg (by simpa using hother)] at heq
        exact absurd heq hother
  next hnone =>
    refine ⟨⟨_, List.mem_append_right _ (List.mem_singleton_self _), rfl⟩, ?_⟩
    intro pref hpref heq
    obtain hold | hnew := List.mem_append.mp hpref
    · exact absurd (List.any_eq_true.mpr ⟨pref, hold, decide_eq_true heq⟩) hnone
    · rw [List.mem_singleton.mp hnew]

/-- An entry written holds. -/
theorem holds_stored (s : State) (entry : Entry) :
    (s.stored userId entry.1 entry.2.1 entry.2.2).Holds entry :=
  ⟨Function.update_self .., setPreference_written s.preferences entry.1 entry.2.1⟩

/-- The others hold as before. -/
theorem holds_stored_other {s : State} {key text : String} {value : Value} {entry : Entry}
    (hkey : entry.1 ≠ key) : (s.stored userId key text value).Holds entry ↔ s.Holds entry := by
  have hmem (pref : UserPreference) (heq : pref.key = entry.1) :
      pref ∈ (s.stored userId key text value).preferences ↔ pref ∈ s.preferences :=
    mem_setPreference_other (heq ▸ hkey)
  have hoverride : (s.stored userId key text value).overrides entry.1 = s.overrides entry.1 :=
    Function.update_of_ne hkey ..
  unfold State.Holds
  rw [hoverride]
  refine and_congr_right fun _ ↦ and_congr ?_ ?_
  · exact exists_congr fun pref ↦ and_congr_left fun heq ↦ hmem pref heq
  · exact forall_congr' fun pref ↦
      ⟨fun h hpref heq ↦ h ((hmem pref heq).mpr hpref) heq,
        fun h hpref heq ↦ h ((hmem pref heq).mp hpref) heq⟩

/-- To write what holds changes nothing. -/
theorem stored_of_holds {s : State} {entry : Entry} (h : s.Holds entry) :
    s.stored userId entry.1 entry.2.1 entry.2.2 = s := by
  obtain ⟨hoverride, ⟨pref, hpref, hkey⟩, hvalue⟩ := h
  have hany : s.preferences.any (·.key = entry.1) = true :=
    List.any_eq_true.mpr ⟨pref, hpref, decide_eq_true hkey⟩
  have hpreferences : setPreference s.preferences entry.1 entry.2.1 userId = s.preferences := by
    unfold setPreference Rows.modify
    rw [if_pos hany]
    conv_rhs => rw [← List.map_id s.preferences]
    refine List.map_congr_left fun old hold ↦ ?_
    split
    next heq => rw [← hvalue old hold (of_decide_eq_true heq), id_eq]
    next => rfl
  unfold State.stored State.set
  rw [hpreferences, ← hoverride, Function.update_eq_self]

private theorem holds_writeAll_other {s : State} {entry : Entry} {written : List Entry}
    (hkey : entry.1 ∉ written.map (·.1)) :
    (s.writeAll userId written).Holds entry ↔ s.Holds entry := by
  induction written generalizing s with
  | nil => rfl
  | cons first rest ih =>
    rw [List.map_cons, List.mem_cons, not_or] at hkey
    exact (ih hkey.2).trans (holds_stored_other hkey.1)

/-- Entries of different keys all hold once they are written. -/
theorem holds_writeAll {s : State} {written : List Entry}
    (hnodup : (written.map (·.1)).Nodup) :
    ∀ entry ∈ written, (s.writeAll userId written).Holds entry := by
  induction written generalizing s with
  | nil => exact fun _ h ↦ nomatch h
  | cons first rest ih =>
    rw [List.map_cons, List.nodup_cons] at hnodup
    intro entry hentry
    obtain rfl | hrest := List.mem_cons.mp hentry
    · exact (holds_writeAll_other hnodup.1).mpr (holds_stored s entry)
    · exact ih hnodup.2 entry hrest

/-- Entries of different keys change nothing precisely where they all hold. -/
theorem writeAll_eq_self_iff {s : State} {written : List Entry}
    (hnodup : (written.map (·.1)).Nodup) :
    s.writeAll userId written = s ↔ ∀ entry ∈ written, s.Holds entry := by
  constructor
  · intro hsame
    have hall := @holds_writeAll userId s written hnodup
    rwa [hsame] at hall
  · intro hall
    induction written with
    | nil => rfl
    | cons first rest ih =>
      rw [List.map_cons, List.nodup_cons] at hnodup
      have hfirst : s.stored userId first.1 first.2.1 first.2.2 = s :=
        stored_of_holds (hall first (List.mem_cons_self ..))
      unfold State.writeAll
      rw [List.foldl_cons, hfirst]
      exact ih hnodup.2 fun entry hentry ↦ hall entry (List.mem_cons_of_mem _ hentry)

private theorem tests_writeAll (s : State) (written : List Entry) :
    (s.writeAll userId written).tests = s.tests := by
  induction written generalizing s with
  | nil => rfl
  | cons first rest ih => exact ih (s.stored userId first.1 first.2.1 first.2.2)

/-- What an update leaves: the entries of the fields it admits are written. -/
theorem exec_updateSettings (request : SettingsUpdateRequest) (s : State) :
    ((Stateful.exec (updateSettings env userId faults request) s).1 = .ok () ↔
        (request.writes env).all (SettingsUpdateRequest.admitsWrite faults) = true) ∧
      (Stateful.exec (updateSettings env userId faults request) s).2 =
        s.writeAll userId (entries (admitted faults (request.writes env))) := by
  rw [updateSettings_eq]
  exact exec_foldlM_storeField (request.writes env) s

end

section
variable (env : Env) (userId : String) (faults : List String) (request : SettingsUpdateRequest)
  (s : State)

/-- An update that is rejected has changed no preference and no override. -/
def RejectedUnchanged : Prop :=
  ∀ failure t, Stateful.exec (updateSettings env userId faults request) s = (.error failure, t) →
    t.overrides = s.overrides ∧ t.preferences = s.preferences

/-- A rejected update has changed nothing precisely where every field before the one that
rejects it asks for what is stored and in force already. -/
theorem rejectedUnchanged_iff :
    RejectedUnchanged env userId faults request s ↔
      ((∃ write ∈ request.writes env, ¬ SettingsUpdateRequest.admitsWrite faults write = true) →
        ∀ entry ∈ entries (admitted faults (request.writes env)), s.Holds entry) := by
  obtain ⟨hok, hstate⟩ :=
    @exec_updateSettings env userId faults request s
  have hrejected : (∃ write ∈ request.writes env,
      ¬ SettingsUpdateRequest.admitsWrite faults write = true) ↔
      (Stateful.exec (updateSettings env userId faults request) s).1 ≠ .ok () := by
    rw [Ne, hok, List.all_eq_true]
    push Not
    rfl
  rw [hrejected, ← writeAll_eq_self_iff (keys_admitted_nodup env faults request), ← hstate]
  unfold RejectedUnchanged
  cases hexec : Stateful.exec (updateSettings env userId faults request) s with
  | mk outcome t =>
    rw [hexec] at hstate
    cases outcome with
    | ok a => simp
    | error e =>
      have htests : t.tests = s.tests := by
        rw [show t = _ from hstate, tests_writeAll]
      constructor
      · intro hunchanged _
        obtain ⟨hoverrides, hpreferences⟩ := hunchanged e t rfl
        cases t
        cases s
        simp only at hoverrides hpreferences htests ⊢
        rw [hoverrides, hpreferences, htests]
      · intro hsame failure t' heq
        cases heq
        have heq : t = s := hsame (by rintro ⟨⟩)
        rw [heq]
        exact ⟨rfl, rfl⟩

end

/-- A budget in order beside a provider that does not exist. -/
def halfUpdate : SettingsUpdateRequest where
  monthlyBudgetUsd := some (.finite 1)
  defaultProvider := some "unknown"

/-- The provider is refused, and the budget is in force for everybody. -/
theorem not_rejectedUnchanged_halfUpdate :
    ¬ RejectedUnchanged hosted "u" [] halfUpdate ⟨fun _ ↦ none, [], []⟩ := by
  intro h
  obtain ⟨_, hpreferences⟩ := h (.http 400 "Unknown provider: unknown") _ rfl
  exact absurd hpreferences (by decide)

end WikiMind.Llm.RuntimeSettings
