import WikiMind.Llm.SettingsWrites

/-!
# Restarts

A process reads the preferences into a fresh overlay when it starts
(`api/routes/settings.py:167`). What type a text is read at is that of the setting it
overrides.
-/

namespace WikiMind.Llm.RuntimeSettings

open WikiMind.Base

/-- The fields of `_OPENAI_COMPATIBLE_PREF_MAP`: `api/routes/settings.py:141`. -/
inductive CompatibleField where
  | baseUrl | model | supportsJsonResponseFormat | supportsStreamUsage | supportsReasoningEffort
  | maxTokensField | reasoningFormat
  deriving DecidableEq, Repr

def CompatibleField.key : CompatibleField → String
  | .baseUrl => "llm.openai_compatible.base_url"
  | .model => "llm.openai_compatible.model"
  | .supportsJsonResponseFormat => "llm.openai_compatible.supports_json_response_format"
  | .supportsStreamUsage => "llm.openai_compatible.supports_stream_usage"
  | .supportsReasoningEffort => "llm.openai_compatible.supports_reasoning_effort"
  | .maxTokensField => "llm.openai_compatible.max_tokens_field"
  | .reasoningFormat => "llm.openai_compatible.reasoning_format"

def compatibleFields : List CompatibleField :=
  [.baseUrl, .model, .supportsJsonResponseFormat, .supportsStreamUsage, .supportsReasoningEffort,
    .maxTokensField, .reasoningFormat]

/-- The settings of the compatible provider, less its base URL and its model, which are those
of the process: `config.py:69`. -/
structure CompatibleConfig where
  supportsJsonResponseFormat : Bool := true
  supportsStreamUsage : Bool := true
  supportsReasoningEffort : Bool := true
  maxTokensField : String := "max_tokens"
  reasoningFormat : String := "openai"
  deriving DecidableEq, Repr

/-- `float` of the texts that `str` makes of a budget. -/
structure FloatText (env : Env) where
  parse : String → Option Amount
  parse_amountStr : ∀ amount, parse (env.amountStr amount) = some amount

/-- A settings request of a user. -/
inductive SettingsRequest where
  | setDefaultProvider (provider : String) (faults : List String)
  | updateSettings (request : SettingsUpdateRequest) (faults : List String)
  | completeOnboarding (faults : List String)
  | testConnection
  deriving DecidableEq, Repr

section
variable (env : Env) (config : CompatibleConfig) (parse : String → Option Amount)

/-- `getattr(settings.llm.openai_compatible, field_name)`. -/
def getattr : CompatibleField → Value
  | .baseUrl => .str env.compatibleBaseUrl
  | .model => .str env.compatibleModel
  | .supportsJsonResponseFormat => .bool config.supportsJsonResponseFormat
  | .supportsStreamUsage => .bool config.supportsStreamUsage
  | .supportsReasoningEffort => .bool config.supportsReasoningEffort
  | .maxTokensField => .str config.maxTokensField
  | .reasoningFormat => .str config.reasoningFormat

/-- `get_openai_compatible_field`, and the getters of the base URL and the model:
`config.py:710–741`. -/
def State.compatible (s : State) (field : CompatibleField) : Value :=
  (s.overrides field.key).getD (getattr env config field)

/-- `pref.value.lower() == "true"`. -/
def readsTrue (text : String) : Bool := text.toList.map Char.toLower = "true".toList

/-- The settings a preference may override, each with its value in the settings of the
process. -/
def runtimeDefaults : List (String × Value) :=
  (providerKey, .str env.defaultProvider) :: (budgetKey, .amount env.monthlyBudgetUsd) ::
    (fallbackKey, .bool env.fallbackEnabled) ::
    compatibleFields.map fun field ↦ (field.key, getattr env config field)

/-- The value of the overlay a preference is read to, if it is one of a setting. -/
def readPreference (pref : UserPreference) : Except Failure (Option Value) :=
  if pref.key = providerKey then .ok (some (.str pref.value))
  else if pref.key = budgetKey then
    match parse pref.value with
    | none => .error .raised
    | some amount => .ok (some (.amount amount))
  else if pref.key = fallbackKey then .ok (some (.bool (readsTrue pref.value)))
  else
    match compatibleFields.find? (·.key = pref.key) with
    | none => .ok none
    | some field =>
      match getattr env config field with
      | .bool _ => .ok (some (.bool (readsTrue pref.value)))
      | _ => .ok (some (.str pref.value))

/-- `rc.set` of the value of a preference. -/
def applyPreference (overrides : String → Option Value) (pref : UserPreference) :
    Except Failure (String → Option Value) := do
  match ← readPreference env config parse pref with
  | none => pure overrides
  | some value => pure (Function.update overrides pref.key (some value))

/-- `apply_runtime_llm_preferences`, on the overlay of a fresh process. -/
def applyRuntimeLlmPreferences (rows : List UserPreference) :
    Except Failure (String → Option Value) :=
  rows.foldlM (applyPreference env config parse) fun _ ↦ none

/-- A settings request that is served before the next one comes. -/
def serve (s : State) : String × SettingsRequest → State
  | (userId, .setDefaultProvider provider faults) =>
    (Stateful.exec (setDefaultProvider env userId faults provider) s).2
  | (userId, .updateSettings request faults) =>
    (Stateful.exec (updateSettings env userId faults request) s).2
  | (userId, .completeOnboarding faults) =>
    (Stateful.exec (completeOnboarding userId faults) s).2
  | (_, .testConnection) =>
    (s.set fallbackKey (.bool false)).set fallbackKey (s.effective env).fallbackEnabled

/-- The process has started on the preferences of the database, whose keys are its primary
key. -/
structure Started (s : State) : Prop where
  nodup : (s.preferences.map (·.key)).Nodup
  applied : applyRuntimeLlmPreferences env config parse s.preferences = .ok s.overrides
  tests : s.tests = []

/-- A process that starts on the preferences, in whatever order the database returns them,
has the same effective settings. -/
def RestartsAlike (s : State) : Prop :=
  ∀ rows : List UserPreference, rows.Perm s.preferences →
    ∃ overrides, applyRuntimeLlmPreferences env config parse rows = .ok overrides ∧
      State.effective env { s with overrides } = s.effective env ∧
      ∀ field,
        State.compatible env config { s with overrides } field = s.compatible env config field

end

/-! ### Reading a preference -/

/-- A text read at the type of a value. -/
def decode (parse : String → Option Amount) : Value → String → Option Value
  | .str _, text => some (.str text)
  | .bool _, text => some (.bool (readsTrue text))
  | .amount _, text => (parse text).map .amount

section
variable {env : Env} {config : CompatibleConfig} {parse : String → Option Amount} {s : State}
  {userId : String}

private theorem runtimeDefaults_nodup : ((runtimeDefaults env config).map Prod.fst).Nodup := by
  have hkeys : (runtimeDefaults env config).map Prod.fst =
      providerKey :: budgetKey :: fallbackKey :: compatibleFields.map CompatibleField.key := rfl
  rw [hkeys]
  decide +kernel

private theorem eq_of_mem_runtimeDefaults {key : String} {default default' : Value}
    (h : (key, default) ∈ runtimeDefaults env config)
    (h' : (key, default') ∈ runtimeDefaults env config) : default = default' :=
  congrArg Prod.snd (List.inj_on_of_nodup_map runtimeDefaults_nodup h h' rfl)

private theorem otherKey_key (field : CompatibleField) : OtherKey field.key := by
  cases field <;> decide

private theorem find?_key (field : CompatibleField) :
    compatibleFields.find? (·.key = field.key) = some field := by
  cases field <;> decide

private theorem mem_runtimeDefaults_field (field : CompatibleField) :
    (field.key, getattr env config field) ∈ runtimeDefaults env config := by
  have hfield : field ∈ compatibleFields := by cases field <;> decide
  exact .tail _ (.tail _ (.tail _ (List.mem_map.mpr ⟨field, hfield, rfl⟩)))

/-- The preference of a setting is read at the type of the setting. -/
theorem readPreference_of_mem {pref : UserPreference} {default : Value}
    (h : (pref.key, default) ∈ runtimeDefaults env config) :
    readPreference env config parse pref =
      match decode parse default pref.value with
      | none => .error .raised
      | some value => .ok (some value) := by
  simp only [runtimeDefaults, List.mem_cons, List.mem_map, Prod.mk.injEq] at h
  unfold readPreference
  obtain ⟨hkey, rfl⟩ | ⟨hkey, rfl⟩ | ⟨hkey, rfl⟩ | ⟨field, _, hkey, rfl⟩ := h
  · rw [if_pos hkey]
    rfl
  · rw [hkey, if_neg (by decide), if_pos rfl]
    have hdecode : decode parse (.amount env.monthlyBudgetUsd) pref.value =
        (parse pref.value).map .amount := rfl
    rw [hdecode]
    cases parse pref.value <;> rfl
  · rw [hkey, if_neg (by decide), if_neg (by decide), if_pos rfl]
    rfl
  · obtain ⟨hprovider, hbudget, hfallback⟩ := otherKey_key field
    rw [← hkey, if_neg hprovider, if_neg hbudget, if_neg hfallback, find?_key]
    cases field <;> rfl

/-- The other preferences are passed over. -/
theorem readPreference_of_not_mem {pref : UserPreference}
    (h : pref.key ∉ (runtimeDefaults env config).map Prod.fst) :
    readPreference env config parse pref = .ok none := by
  have hkeys : (runtimeDefaults env config).map Prod.fst =
      providerKey :: budgetKey :: fallbackKey :: compatibleFields.map CompatibleField.key := rfl
  rw [hkeys, List.mem_cons, List.mem_cons, List.mem_cons, not_or, not_or, not_or] at h
  obtain ⟨hprovider, hbudget, hfallback, hfields⟩ := h
  have hnone : compatibleFields.find? (·.key = pref.key) = none :=
    List.find?_eq_none.mpr fun field hfield heq ↦
      hfields (of_decide_eq_true heq ▸ List.mem_map_of_mem hfield)
  unfold readPreference
  rw [if_neg hprovider, if_neg hbudget, if_neg hfallback, hnone]

/-- One preference: the overlay of its key, where it is one of a setting and can be read. -/
theorem applyPreference_of_mem {pref : UserPreference} {default : Value}
    (h : (pref.key, default) ∈ runtimeDefaults env config) (overrides : String → Option Value) :
    applyPreference env config parse overrides pref =
      match decode parse default pref.value with
      | none => .error .raised
      | some value => .ok (Function.update overrides pref.key (some value)) := by
  unfold applyPreference
  rw [readPreference_of_mem h]
  cases decode parse default pref.value <;> rfl

private theorem applyPreference_of_not_mem {pref : UserPreference}
    (h : pref.key ∉ (runtimeDefaults env config).map Prod.fst)
    (overrides : String → Option Value) :
    applyPreference env config parse overrides pref = .ok overrides := by
  unfold applyPreference
  rw [readPreference_of_not_mem h]
  rfl

/-- A preference leaves the overlay of the other keys. -/
theorem applyPreference_other {pref : UserPreference} {overrides overrides' : String → Option Value}
    (h : applyPreference env config parse overrides pref = .ok overrides') {key : String}
    (hkey : pref.key ≠ key) : overrides' key = overrides key := by
  unfold applyPreference at h
  cases hread : readPreference env config parse pref with
  | error e =>
    rw [hread] at h
    cases h
  | ok value =>
    rw [hread] at h
    cases value with
    | none =>
      cases h
      rfl
    | some value =>
      cases h
      exact Function.update_of_ne hkey.symm ..

/-- What a process reads: the values of the preferences of each setting. -/
theorem applied_values {rows : List UserPreference} {overrides overrides' : String → Option Value}
    (hnodup : (rows.map (·.key)).Nodup)
    (h : rows.foldlM (applyPreference env config parse) overrides = .ok overrides')
    {key : String} {default : Value} (hmem : (key, default) ∈ runtimeDefaults env config) :
    (∀ pref ∈ rows, pref.key = key →
        ∃ value, decode parse default pref.value = some value ∧ overrides' key = some value) ∧
      ((∀ pref ∈ rows, pref.key ≠ key) → overrides' key = overrides key) := by
  induction rows generalizing overrides with
  | nil =>
    cases h
    exact ⟨fun _ hpref ↦ (nomatch hpref), fun _ ↦ rfl⟩
  | cons pref rest ih =>
    rw [List.map_cons, List.nodup_cons] at hnodup
    rw [List.foldlM_cons] at h
    cases hfirst : applyPreference env config parse overrides pref with
    | error e =>
      rw [hfirst] at h
      cases h
    | ok between =>
      rw [hfirst] at h
      obtain ⟨hrest, hleft⟩ := ih hnodup.2 h
      by_cases hkey : pref.key = key
      · subst hkey
        -- the key is not read again behind its row
        have hlast : overrides' pref.key = between pref.key :=
          hleft fun other hother heq ↦ hnodup.1 (heq ▸ List.mem_map_of_mem hother)
        rw [applyPreference_of_mem hmem] at hfirst
        split at hfirst
        · cases hfirst
        next value hvalue =>
          cases hfirst
          rw [Function.update_self] at hlast
          constructor
          · intro other hother heq
            obtain rfl | hother := List.mem_cons.mp hother
            · exact ⟨value, hvalue, hlast⟩
            · exact absurd (heq ▸ List.mem_map_of_mem hother) hnodup.1
          · intro hnone
            exact absurd rfl (hnone pref (List.mem_cons_self ..))
      · have hbetween := applyPreference_other hfirst hkey
        constructor
        · intro other hother heq
          obtain rfl | hother := List.mem_cons.mp hother
          · exact absurd heq hkey
          · exact hrest other hother heq
        · intro hnone
          rw [hleft fun other hother ↦ hnone other (List.mem_cons_of_mem _ hother), hbetween]

/-- Nothing is raised where the texts of the settings can be read. -/
theorem exists_applied {rows : List UserPreference}
    (h : ∀ pref ∈ rows, ∀ default, (pref.key, default) ∈ runtimeDefaults env config →
      (decode parse default pref.value).isSome) (overrides : String → Option Value) :
    ∃ overrides', rows.foldlM (applyPreference env config parse) overrides = .ok overrides' := by
  induction rows generalizing overrides with
  | nil => exact ⟨overrides, rfl⟩
  | cons pref rest ih =>
    have hfirst : ∃ between, applyPreference env config parse overrides pref = .ok between := by
      by_cases hmem : pref.key ∈ (runtimeDefaults env config).map Prod.fst
      · obtain ⟨⟨key, default⟩, hdefault, hkey⟩ := List.mem_map.mp hmem
        change key = pref.key at hkey
        subst hkey
        obtain ⟨value, hvalue⟩ := Option.isSome_iff_exists.mp
          (h pref (List.mem_cons_self ..) default hdefault)
        rw [applyPreference_of_mem hdefault, hvalue]
        exact ⟨_, rfl⟩
      · exact ⟨overrides, applyPreference_of_not_mem hmem overrides⟩
    obtain ⟨between, hbetween⟩ := hfirst
    rw [List.foldlM_cons, hbetween]
    exact ih (fun other hother ↦ h other (List.mem_cons_of_mem _ hother)) between

/-! ### What the requests keep -/

/-- What is in force for a setting is what its preference is read to, and without a preference
what the settings of the process say. -/
structure Reads (parse : String → Option Amount) (s : State) (key : String) (default : Value) :
    Prop where
  of_row : ∀ pref ∈ s.preferences, pref.key = key →
    decode parse default pref.value = some ((s.overrides key).getD default)
  of_none : (∀ pref ∈ s.preferences, pref.key ≠ key) → (s.overrides key).getD default = default

/-- This holds of every setting. -/
structure Kept (env : Env) (config : CompatibleConfig) (parse : String → Option Amount)
    (s : State) : Prop where
  nodup : (s.preferences.map (·.key)).Nodup
  reads : ∀ key default, (key, default) ∈ runtimeDefaults env config → Reads parse s key default
  tests : s.tests = []

/-- An entry whose text is read to its value. -/
def Decodes (env : Env) (config : CompatibleConfig) (parse : String → Option Amount)
    (entry : Entry) : Prop :=
  ∃ default, (entry.1, default) ∈ runtimeDefaults env config ∧
    decode parse default entry.2.1 = some entry.2.2

/-- Another state with the same rows of the key and the same value in force. -/
theorem Reads.congr {t : State} {key : String} {default : Value} (h : Reads parse s key default)
    (hvalue : (t.overrides key).getD default = (s.overrides key).getD default)
    (hrows : ∀ pref : UserPreference, pref.key = key →
      (pref ∈ t.preferences ↔ pref ∈ s.preferences)) : Reads parse t key default where
  of_row pref hpref hkey := by
    rw [hvalue]
    exact h.of_row pref ((hrows pref hkey).mp hpref) hkey
  of_none habsent := by
    rw [hvalue]
    exact h.of_none fun pref hpref hkey ↦ habsent pref ((hrows pref hkey).mpr hpref) hkey

private theorem Kept.of_started (h : Started env config parse s) : Kept env config parse s where
  nodup := h.nodup
  reads key default hmem := by
    obtain ⟨hread, hnone⟩ := applied_values h.nodup h.applied hmem
    constructor
    · intro pref hpref hkey
      obtain ⟨value, hvalue, hoverride⟩ := hread pref hpref hkey
      rw [hvalue, hoverride, Option.getD_some]
    · intro habsent
      rw [hnone habsent, Option.getD_none]
  tests := h.tests

private theorem Kept.restartsAlike (h : Kept env config parse s) :
    RestartsAlike env config parse s := by
  intro rows hperm
  have hnodup : (rows.map (·.key)).Nodup := (hperm.map _).nodup_iff.mpr h.nodup
  have hreadable : ∀ pref ∈ rows, ∀ default, (pref.key, default) ∈ runtimeDefaults env config →
      (decode parse default pref.value).isSome := by
    intro pref hpref default hmem
    rw [(h.reads pref.key default hmem).of_row pref (hperm.mem_iff.mp hpref) rfl]
    rfl
  obtain ⟨overrides, happlied⟩ := exists_applied hreadable fun _ ↦ none
  refine ⟨overrides, happlied, ?_⟩
  have hsame {key : String} {default : Value} (hmem : (key, default) ∈ runtimeDefaults env config) :
      (overrides key).getD default = (s.overrides key).getD default := by
    obtain ⟨hread, hnone⟩ := applied_values hnodup happlied hmem
    have hreads := h.reads key default hmem
    by_cases hrow : ∃ pref ∈ rows, pref.key = key
    · obtain ⟨pref, hpref, hkey⟩ := hrow
      obtain ⟨value, hvalue, hoverride⟩ := hread pref hpref hkey
      have heq := (hreads.of_row pref (hperm.mem_iff.mp hpref) hkey).symm.trans hvalue
      rw [hoverride, Option.getD_some, Option.some.inj heq]
    · push Not at hrow
      rw [hnone hrow, Option.getD_none,
        hreads.of_none fun pref hpref ↦ hrow pref (hperm.mem_iff.mpr hpref)]
  constructor
  · have hprovider := hsame (.head _)
    have hbudget := hsame (.tail _ (.head _))
    have hfallback := hsame (.tail _ (.tail _ (.head _)))
    unfold State.effective
    rw [hprovider, hbudget, hfallback]
  · intro field
    exact hsame (mem_runtimeDefaults_field field)

private theorem nodup_setPreference {preferences : List UserPreference} (key text : String)
    (h : (preferences.map (·.key)).Nodup) :
    ((setPreference preferences key text userId).map (·.key)).Nodup := by
  unfold setPreference
  split
  · have hkeys : (Rows.modify (·.key = key) (fun pref ↦ { pref with value := text })
        preferences).map (·.key) = preferences.map (·.key) :=
      Rows.map_modify fun _ _ _ ↦ rfl
    exact hkeys.symm ▸ h
  next hnone =>
    refine Rows.nodup_map_concat.mpr ⟨h, fun pref hpref heq ↦ hnone ?_⟩
    exact List.any_eq_true.mpr ⟨pref, hpref, decide_eq_true heq⟩

/-- A preference that is none of a setting. -/
theorem Kept.setPreference (h : Kept env config parse s) {key : String} (text : String)
    (hkey : key ∉ (runtimeDefaults env config).map Prod.fst) :
    Kept env config parse
      { s with preferences := setPreference s.preferences key text userId } where
  nodup := nodup_setPreference key text h.nodup
  reads key' default hmem := by
    have hne : key' ≠ key := fun heq ↦ hkey (heq ▸ List.mem_map_of_mem hmem)
    exact (h.reads key' default hmem).congr rfl fun pref hpref ↦
      mem_setPreference_other (hpref ▸ hne)
  tests := h.tests

/-- A setting whose text is read to its value. -/
theorem Kept.stored (h : Kept env config parse s) {entry : Entry}
    (hentry : Decodes env config parse entry) :
    Kept env config parse (s.stored userId entry.1 entry.2.1 entry.2.2) where
  nodup := nodup_setPreference entry.1 entry.2.1 h.nodup
  reads key default hmem := by
    obtain ⟨default', hmem', hdecode⟩ := hentry
    by_cases hkey : key = entry.1
    · subst hkey
      obtain rfl := eq_of_mem_runtimeDefaults hmem hmem'
      obtain ⟨⟨pref, hpref, heq⟩, hvalue⟩ :=
        @setPreference_written userId s.preferences entry.1 entry.2.1
      have hoverride : (s.stored userId entry.1 entry.2.1 entry.2.2).overrides entry.1 =
          some entry.2.2 := Function.update_self ..
      constructor
      · intro pref hpref heq
        rw [hoverride, Option.getD_some, hvalue pref hpref heq]
        exact hdecode
      · intro habsent
        exact absurd heq (habsent pref hpref)
    · refine (h.reads key default hmem).congr ?_ fun pref hpref ↦
        mem_setPreference_other (hpref ▸ hkey)
      have hoverride : (s.stored userId entry.1 entry.2.1 entry.2.2).overrides key =
          s.overrides key := Function.update_of_ne hkey ..
      rw [hoverride]
  tests := h.tests

theorem Kept.writeAll (h : Kept env config parse s) {written : List Entry}
    (hentries : ∀ entry ∈ written, Decodes env config parse entry) :
    Kept env config parse (s.writeAll userId written) := by
  induction written generalizing s with
  | nil => exact h
  | cons entry rest ih =>
    exact ih (h.stored (hentries entry (List.mem_cons_self ..)))
      fun other hother ↦ hentries other (List.mem_cons_of_mem _ hother)

/-- A flag is read to the value it was written from. -/
theorem readsTrue_boolStr (value : Bool) : readsTrue (boolStr value) = value := by
  cases value <;> decide

private theorem flagWrite_decodes {key : String} {default : Bool}
    (hmem : (key, .bool default) ∈ runtimeDefaults env config) {field : Option Bool} {entry : Entry}
    (h : flagWrite key field = .ok (some entry)) : Decodes env config parse entry := by
  cases field with
  | none => cases h
  | some value =>
    cases h
    exact ⟨.bool default, hmem, congrArg (fun b ↦ some (Value.bool b)) (readsTrue_boolStr value)⟩

private theorem textWrite_decodes {key detail default : String} {admits : String → Bool}
    (hmem : (key, .str default) ∈ runtimeDefaults env config) {field : Option String}
    {entry : Entry} (h : textWrite key detail admits field = .ok (some entry)) :
    Decodes env config parse entry := by
  cases field with
  | none => cases h
  | some text =>
    unfold textWrite at h
    dsimp only at h
    split at h <;> cases h
    exact ⟨.str default, hmem, rfl⟩

private theorem baseUrlWrite_decodes {field : Option String} {entry : Entry}
    (h : baseUrlWrite field = .ok (some entry)) : Decodes env config parse entry := by
  cases field with
  | none => cases h
  | some text =>
    unfold baseUrlWrite at h
    dsimp only at h
    split at h <;> cases h
    exact ⟨.str env.compatibleBaseUrl, mem_runtimeDefaults_field .baseUrl, rfl⟩

private theorem budgetWrite_decodes (floats : FloatText env) {request : SettingsUpdateRequest}
    {entry : Entry} (h : budgetWrite env request = .ok (some entry)) :
    Decodes env config floats.parse entry := by
  unfold budgetWrite at h
  split at h
  · cases h
  next budget _ =>
    split at h <;> cases h
    refine ⟨.amount env.monthlyBudgetUsd, .tail _ (.head _), ?_⟩
    exact congrArg (Option.map Value.amount) (floats.parse_amountStr budget)

private theorem providerWrite_decodes {request : SettingsUpdateRequest} {entry : Entry}
    (h : providerWrite request = .ok (some entry)) : Decodes env config parse entry := by
  unfold providerWrite at h
  split at h
  · cases h
  · split at h <;> cases h
    exact ⟨.str env.defaultProvider, .head _, rfl⟩

private theorem mem_entries {writes : List FieldWrite} {entry : Entry} :
    entry ∈ entries writes ↔ .ok (some entry) ∈ writes := by
  unfold entries
  rw [List.mem_filterMap]
  constructor
  · rintro ⟨write, hwrite, heq⟩
    match write with
    | .error _ => cases heq
    | .ok _ => exact heq ▸ hwrite
  · exact fun h ↦ ⟨_, h, rfl⟩

/-- Each field of an update writes a text that is read to its value. -/
theorem writes_decode (config : CompatibleConfig) (floats : FloatText env)
    (request : SettingsUpdateRequest) :
    ∀ entry ∈ entries (request.writes env), Decodes env config floats.parse entry := by
  intro entry h
  rw [mem_entries] at h
  simp only [SettingsUpdateRequest.writes, SettingsUpdateRequest.compatibleWrites, List.mem_append,
    List.mem_cons, List.not_mem_nil, or_false] at h
  rcases h with (((h | h | h) | (h | h | h | h | h | h | h)) | h)
  · exact budgetWrite_decodes floats h.symm
  · exact flagWrite_decodes (.tail _ (.tail _ (.head _))) h.symm
  · exact absurd h.symm compatibleGuard_ne
  · exact baseUrlWrite_decodes h.symm
  · exact textWrite_decodes (mem_runtimeDefaults_field .model) h.symm
  · exact flagWrite_decodes (mem_runtimeDefaults_field .supportsJsonResponseFormat) h.symm
  · exact flagWrite_decodes (mem_runtimeDefaults_field .supportsStreamUsage) h.symm
  · exact flagWrite_decodes (mem_runtimeDefaults_field .supportsReasoningEffort) h.symm
  · exact textWrite_decodes (mem_runtimeDefaults_field .maxTokensField) h.symm
  · exact textWrite_decodes (mem_runtimeDefaults_field .reasoningFormat) h.symm
  · exact providerWrite_decodes h.symm

theorem Kept.setDefaultProvider (h : Kept env config parse s) (faults : List String)
    (provider : String) :
    Kept env config parse
      (Stateful.exec (setDefaultProvider env userId faults provider) s).2 := by
  unfold RuntimeSettings.setDefaultProvider
  rw [Stateful.exec_bind, Stateful.exec_get]
  dsimp only
  rw [Stateful.exec_bind, Stateful.exec_ofExcept]
  cases checkDefaultProvider env userId s provider with
  | error e => exact h
  | ok _ =>
    dsimp only
    rw [exec_store]
    split
    · exact h
    · have hentry : Decodes env config parse (providerKey, provider, .str provider) :=
        ⟨.str env.defaultProvider, .head _, rfl⟩
      exact h.stored hentry

/-- The preferences of the onboarding are none of a setting. -/
theorem onboarding_not_mem (base userId : String) (hbase : base.toList.head? = some 'o') :
    base ++ userId ∉ (runtimeDefaults env config).map Prod.fst := by
  have hkeys : (runtimeDefaults env config).map Prod.fst =
      providerKey :: budgetKey :: fallbackKey :: compatibleFields.map CompatibleField.key := rfl
  have hheads : ∀ key ∈ providerKey :: budgetKey :: fallbackKey ::
      compatibleFields.map CompatibleField.key, key.toList.head? = some 'l' := by decide
  intro hmem
  rw [hkeys] at hmem
  have hhead := hheads _ hmem
  rw [String.toList_append, List.head?_append, hbase] at hhead
  cases hhead

theorem Kept.writePreference (h : Kept env config parse s) (faults : List String) {key : String}
    (text : String) (hkey : key ∉ (runtimeDefaults env config).map Prod.fst) :
    Kept env config parse (Stateful.exec (writePreference userId faults key text) s).2 := by
  rw [exec_writePreference]
  split
  · exact h
  · exact h.setPreference text hkey

theorem Kept.completeOnboarding (h : Kept env config parse s) (faults : List String) :
    Kept env config parse (Stateful.exec (completeOnboarding userId faults) s).2 := by
  have hcompleted : Kept env config parse (Stateful.exec (RuntimeSettings.writePreference userId
      faults ("onboarding.completed:" ++ userId) "true") s).2 :=
    h.writePreference faults "true" (onboarding_not_mem "onboarding.completed:" userId (by decide))
  unfold RuntimeSettings.completeOnboarding
  rw [Stateful.exec_bind]
  cases hexec : Stateful.exec (RuntimeSettings.writePreference userId faults
      ("onboarding.completed:" ++ userId) "true") s with
  | mk outcome t =>
    rw [hexec] at hcompleted
    cases outcome with
    | error e => exact hcompleted
    | ok _ =>
      exact Kept.writePreference hcompleted faults "5"
        (onboarding_not_mem "onboarding.step:" userId (by decide))

/-- A connection test leaves in force what was. -/
theorem Kept.testConnection (h : Kept env config parse s) :
    Kept env config parse
      ((s.set fallbackKey (.bool false)).set fallbackKey (s.effective env).fallbackEnabled) where
  nodup := h.nodup
  reads key default hmem := by
    refine (h.reads key default hmem).congr ?_ fun _ _ ↦ Iff.rfl
    by_cases hkey : key = fallbackKey
    · subst hkey
      obtain rfl := eq_of_mem_runtimeDefaults hmem (.tail _ (.tail _ (.head _)))
      simp [State.set, State.effective]
    · simp [State.set, Function.update_of_ne hkey]
  tests := h.tests

/-- A request keeps it. -/
theorem Kept.serve {floats : FloatText env} (h : Kept env config floats.parse s)
    (request : String × SettingsRequest) : Kept env config floats.parse (serve env s request) := by
  match request with
  | (userId, .setDefaultProvider provider faults) => exact h.setDefaultProvider faults provider
  | (userId, .updateSettings request faults) =>
    dsimp only [RuntimeSettings.serve]
    rw [(exec_updateSettings request s).2]
    refine h.writeAll fun entry hentry ↦ writes_decode config floats request entry ?_
    exact ((List.takeWhile_sublist _).filterMap _).subset hentry
  | (userId, .completeOnboarding faults) => exact h.completeOnboarding faults
  | (_, .testConnection) => exact h.testConnection

end

/-- A connection test served on its own is its start and its end. -/
theorem serve_testConnection (env : Env) (userId : String) {s : State} (htests : s.tests = []) :
    (settingsRequests env userId).run s [.testStart 0, .testEnd 0] =
      some (serve env s (userId, .testConnection)) := by
  have hstart : step env userId s (.testStart 0) =
      some { s.set fallbackKey (.bool false) with
        tests := [(0, (s.effective env).fallbackEnabled)] } := by
    unfold step State.original?
    rw [htests]
    rfl
  rw [Machine.run_cons]
  change (step env userId s (.testStart 0)).bind _ = _
  rw [hstart]
  simp [settingsRequests, step, State.original?, serve, State.set, htests]

/-- At every moment of every sequence of settings requests a restart changes nothing: the
overlay rebuilt from the preferences gives the same default provider, budget, fallback flag
and settings of the compatible provider. -/
theorem restart_changes_nothing (env : Env) (config : CompatibleConfig) (floats : FloatText env)
    {s : State} (hstarted : Started env config floats.parse s)
    (requests : List (String × SettingsRequest)) :
    (Machine.ofFun (serve env)).Always (RestartsAlike env config floats.parse) s requests := by
  refine Machine.Always.mono _ (fun t h ↦ Kept.restartsAlike h) ?_
  refine Machine.always_of_invariant _ ?_ requests (Kept.of_started hstarted)
  intro t request u h hstep
  cases hstep
  exact h.serve request

/-- Texts of amounts with the digits of a fraction counted out. -/
def fractionStr : Amount → String
  | .infinity => "inf"
  | .negInfinity => "-inf"
  | .nan => "nan"
  | .finite value => String.ofList ((if value.num < 0 then '<' else '>') ::
      (List.replicate value.num.natAbs '1' ++ List.replicate value.den '/'))

/-- A hosted process with these texts. -/
def hostedFractions : Env := { hosted with amountStr := fractionStr }

def parseFraction (text : String) : Option Amount :=
  match text.toList with
  | [] => none
  | 'i' :: _ => some .infinity
  | '-' :: _ => some .negInfinity
  | 'n' :: _ => some .nan
  | sign :: counted =>
    some (.finite (mkRat (if sign = '<' then -(counted.count '1' : Int) else counted.count '1')
      (counted.count '/')))

private theorem parseFraction_fractionStr (amount : Amount) :
    parseFraction (fractionStr amount) = some amount := by
  cases amount with
  | infinity | negInfinity | nan => decide
  | finite value =>
    have hones : (List.replicate value.num.natAbs '1' ++ List.replicate value.den '/').count '1' =
        value.num.natAbs := by
      simp [List.count_replicate]
    have hslashes : (List.replicate value.num.natAbs '1' ++
        List.replicate value.den '/').count '/' = value.den := by
      simp [List.count_replicate]
    unfold parseFraction fractionStr
    rw [String.toList_ofList]
    by_cases hneg : value.num < 0
    · have hnum : -(value.num.natAbs : Int) = value.num := by omega
      rw [if_pos hneg]
      change some (Amount.finite (mkRat (-(List.count '1' _ : Int)) (List.count '/' _))) = _
      rw [hones, hslashes, hnum, Rat.mkRat_self]
    · have hnum : (value.num.natAbs : Int) = value.num := by omega
      rw [if_neg hneg]
      change some (Amount.finite (mkRat (List.count '1' _ : Int) (List.count '/' _))) = _
      rw [hones, hslashes, hnum, Rat.mkRat_self]

def fractions : FloatText hostedFractions := ⟨parseFraction, parseFraction_fractionStr⟩

/-- A budget and the fallback flag of one user, and a connection test of another. -/
theorem restart_changes_nothing_fractions :
    (Machine.ofFun (serve hostedFractions)).Always
      (RestartsAlike hostedFractions {} parseFraction) ⟨fun _ ↦ none, [], []⟩
      [("u", .updateSettings
        { monthlyBudgetUsd := some .infinity, fallbackEnabled := some false } []),
        ("v", .testConnection)] := by
  have hstarted : Started hostedFractions {} parseFraction ⟨fun _ ↦ none, [], []⟩ :=
    { nodup := List.nodup_nil, applied := rfl, tests := rfl }
  exact restart_changes_nothing hostedFractions {} fractions hstarted _

end WikiMind.Llm.RuntimeSettings
