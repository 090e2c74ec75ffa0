import WikiMind.Compile.RelationTypes
import WikiMind.Lint.Answers
import WikiMind.Llm.Responses
import WikiMind.Wiki.Taxonomy

/-!
# Responses that raise

Each consumer of the language model parses its response and catches some classes of
exceptions around its first accesses to the value: `compile`, `compile_with_guidance` and
`extract_takeaways` (`engine/compiler.py:238–466`), the comparison of article pairs
(`engine/linter/contradictions.py`), and the side effects of a save with the taxonomy rebuild
among them (`engine/compiler.py:830`, `services/taxonomy.py:291`). For each of them stands
here which responses raise through it.
-/

namespace WikiMind.Compile

open WikiMind.Base WikiMind.Llm

/-- What the consumers take from libraries: the decoder, the text of a value, and the check of
the fields of a result other than its suggestions. -/
structure Reading where
  loads : Loads
  str : JsonValue → String
  validate : JsonValue → Option CompilationResult

/-- An item of `backlink_suggestions` as `_normalize_backlink_suggestions` and
`_extract_typed_suggestions` see it: `engine/compiler.py:88–115`. -/
def toRawSuggestion (str : JsonValue → String) : JsonValue → RawSuggestion
  | .obj fields =>
    let target := (JsonValue.lookup fields "target").getD (.str "")
    .typed (if target.truthy then str target else "")
      (match (JsonValue.lookup fields "relation_type").getD (.str "references") with
        | .str rel => some rel
        | _ => none)
  | .str text => .title text
  | _ => .other

/-- The `try` of `compile` and `compile_with_guidance`: `engine/compiler.py:346–370, 444–466`. -/
def readCompilation (reading : Reading) (response : CompletionResponse) : Except Exc Reply :=
  handling isParseFailure (.unreadable response.providerUsed) do
    let data ← parseJsonResponse reading.loads response
    let rawSuggestions ← data.get "backlink_suggestions" (.arr [])
    let items ← rawSuggestions.items
    return .read response.providerUsed (items.map (toRawSuggestion reading.str))
      (reading.validate data)

/-- The reply of a call, which may give no response. -/
def receive (reading : Reading) : Option CompletionResponse → Except Exc Reply
  | none => .ok .silent
  | some response => readCompilation reading response

/-- The loop of `_compile_chunked`: `engine/compiler.py:526–540`. -/
def compileChunks (reading : Reading) (env : TextEnv) :
    Compiler → List (Option CompletionResponse) →
      Except Exc (List CompilationResult × Compiler)
  | c, [] => .ok ([], c)
  | c, response :: rest => do
    let reply ← receive reading response
    let (result, c) := compileReply env c reply
    let (results, c) ← compileChunks reading env c rest
    return (result.toList ++ results, c)

/-- The parts of a document that are sent, by their number. A chunk that is large itself is
not. -/
def sentParts (doc : NormalizedDocument) : List Nat :=
  if isLarge doc then ((chunkDocuments doc).zipIdx.filter (! isLarge ·.1)).map (·.2) else [0]

/-- A compilation of a document, when the call for its `i`-th part gets `response i`. -/
def compileResponses (reading : Reading) (env : TextEnv) (order : SetOrder) (c : Compiler)
    (doc : NormalizedDocument) (response : Nat → Option CompletionResponse) :
    Except Exc (Option CompilationResult × Compiler) :=
  if isLarge doc then do
    let (results, c) ← compileChunks reading env c ((sentParts doc).map response)
    return (mergeChunkResults order doc.title results, c)
  else do
    let reply ← receive reading (response 0)
    return compileReply env c reply

/-- `Compiler.compile`, from its responses on: `engine/compiler.py:373`. -/
def compile (reading : Reading) (env : TextEnv) (order : SetOrder) (c : Compiler)
    (doc : NormalizedDocument) (response : Nat → Option CompletionResponse) :
    Except Exc (Option CompilationResult × Compiler) :=
  compileResponses reading env order c doc response

/-- `Compiler.compile_with_guidance`, which reads its responses like `compile` and leaves a
large document to the same loop: `engine/compiler.py:277`. -/
def compileWithGuidance (reading : Reading) (env : TextEnv) (order : SetOrder) (c : Compiler)
    (doc : NormalizedDocument) (response : Nat → Option CompletionResponse) :
    Except Exc (Option CompilationResult × Compiler) :=
  compileResponses reading env order c doc response

/-- `Compiler.extract_takeaways`, from its response on: `engine/compiler.py:238`. -/
def extractTakeaways (reading : Reading) : Option CompletionResponse → Except Exc (List String)
  | none => .ok []
  | some response => handling isParseFailure [] do
    let data ← parseJsonResponse reading.loads response
    let takeaways ← data.get "takeaways" (.arr [])
    let items ← takeaways.items
    return ((items.filter (·.truthy)).map reading.str).take 10

/-- A lint run whose calls get these responses: `contradictions.py:331–335, 708–712`. -/
def lintRun (loads : Loads) (r : Lint.Contradictions.Run)
    (response : Nat → Lint.Contradictions.Call → Option CompletionResponse) :
    Lint.Contradictions.Run :=
  { r with llm := fun n call ↦
      match response n call with
      | none => .error (.runtimeError "plan_aware_complete returned None")
      | some response => parseJsonResponse loads response }

mutual

/-- A value as the taxonomy sees it. -/
def toJson : JsonValue → Wiki.Json
  | .null => .null
  | .bool b => .bool b
  | .num q => .number (q = 0)
  | .str s => .str s
  | .arr items => .arr (toJsonItems items)
  | .obj fields => .obj (toJsonFields fields)

def toJsonItems : List JsonValue → List Wiki.Json
  | [] => []
  | item :: items => toJson item :: toJsonItems items

def toJsonFields : List (String × JsonValue) → List (String × Wiki.Json)
  | [] => []
  | (key, value) :: fields => (key, toJson value) :: toJsonFields fields

end

/-- `maybe_trigger_taxonomy_rebuild`, from the response of a rebuild on. The commit of the new
links may fail: `services/taxonomy.py:262`. -/
def maybeTriggerTaxonomyRebuild (loads : Loads) (t : Wiki.ConceptTable) (userId : String)
    (threshold maxDepth : Int) (response : Option CompletionResponse) (commitFails : Bool) :
    Wiki.Outcome × Wiki.ConceptTable :=
  let unparented := t.rows.filter fun c ↦ c.parentId = none ∧ c.userId = userId
  if threshold ≤ unparented.length then
    Wiki.rebuildTaxonomy t userId maxDepth
      (match response with
        | none => .ok none
        | some response => (parseJsonResponse loads response).map fun data ↦ some (toJson data))
      (if commitFails then .error .integrityError else .ok ())
  else (.skipped, t)

/-- The classes the side effects of a save catch, `SQLAlchemyError`, `RuntimeError` and
`ValueError`: `engine/compiler.py:848`. -/
def isSideEffectFailure : Exc → Bool
  | .noResultFound | .multipleResultsFound | .integrityError => true
  | .runtimeError _ | .valueError => true
  | _ => false

/-- The rebuild ends with an exception that the side effects let through. -/
def letsThrough : Wiki.Outcome → Bool
  | .raised e => ! isSideEffectFailure e
  | _ => false

/-- The attempt of a save in whose side effects the rebuild ends so: `engine/compiler.py:838`. -/
def Attempt.withRebuild (a : Attempt) (outcome : Wiki.Outcome) : Attempt :=
  { a with fails := fun stage ↦ (stage = .sideEffects && letsThrough outcome) || a.fails stage }

/-- The response is decoded to an object, or its decoding counts as a failed parse. -/
def Readable (loads : Loads) (response : CompletionResponse) : Prop :=
  IsObject (parseJsonResponse loads response) ∨
    Caught isParseFailure (parseJsonResponse loads response)

/-- A list or an object with elements: it passes a truth test and cannot be a key. -/
def isUnhashable : JsonValue → Bool
  | .arr items => ! items.isEmpty
  | .obj fields => ! fields.isEmpty
  | _ => false

/-- An entry of a hierarchy whose name can be looked up among the names, and if it is one of
them its parent as well. -/
def ReadableEntry (names : List String) (entry : JsonValue) : Prop :=
  ∀ fields, entry = .obj fields →
    isUnhashable ((JsonValue.lookup fields "name").getD .null) = false ∧
      ((∃ name ∈ names, name ≠ "" ∧ JsonValue.lookup fields "name" = some (.str name)) →
        isUnhashable ((JsonValue.lookup fields "parent").getD .null) = false)

/-- If a rebuild takes place and gets a response, its decoding raises what the side effects
catch, or gives a value that is no list or a list of such entries. -/
def CalmRebuild (loads : Loads) (t : Wiki.ConceptTable) (userId : String) (threshold : Int)
    (response : Option CompletionResponse) : Prop :=
  let names := (t.rows.filter (·.userId = userId)).map Wiki.Concept.name
  let unparented := t.rows.filter fun c ↦ c.parentId = none ∧ c.userId = userId
  threshold ≤ unparented.length → names ≠ [] → ∀ x, response = some x →
    Caught isSideEffectFailure (parseJsonResponse loads x) ∨
      ∃ data, parseJsonResponse loads x = .ok data ∧
        ∀ entries, data = .arr entries → ∀ entry ∈ entries, ReadableEntry names entry

section Compiling

variable {reading : Reading} {env : TextEnv} {order : SetOrder} {c : Compiler}
  {doc : NormalizedDocument}

/-- What follows the first access raises through the clauses only for a value that is no
object, as long as the rest raises what they name. -/
theorem raises_handling_get_iff {α : Type} {loads : Loads} {response : CompletionResponse}
    {fallback : α} {key : String} {default : JsonValue} {f : JsonValue → JsonValue → Except Exc α}
    (hf : ∀ data v, RaisesOnly (isParseFailure · = true) (f data v)) :
    Raises (handling isParseFailure fallback do
      let data ← parseJsonResponse loads response
      let v ← data.get key default
      f data v) ↔ ¬ Readable loads response := by
  rw [raises_handling, Readable, IsObject, Caught]
  cases parseJsonResponse loads response with
  | error e =>
    simp only [bind, Except.bind, Except.error.injEq, exists_eq_left', reduceCtorEq, false_and,
      exists_false, false_or, Bool.not_eq_true]
  | ok data =>
    simp only [bind, Except.bind, Except.ok.injEq, exists_eq_left', reduceCtorEq, false_and,
      exists_false, or_false, Bool.not_eq_true]
    cases hobj : data.isObj with
    | false =>
      refine iff_of_true ?_ rfl
      obtain ⟨e, he⟩ := JsonValue.raises_get_iff.mpr hobj
      rw [he]
      exact ⟨e, rfl, by rw [data.raisesOnly_get default key e he]; rfl⟩
    | true =>
      refine iff_of_false ?_ (by simp)
      rintro ⟨e, he, hcaught⟩
      obtain ⟨fields, rfl⟩ := JsonValue.isObj_iff.mp hobj
      rw [JsonValue.get_obj] at he
      rw [hf _ _ e he] at hcaught
      cases hcaught

/-- A loop over a value raises what counts as a failed parse. -/
theorem raisesOnly_items_bind {α : Type} (v : JsonValue) (f : List JsonValue → α) :
    RaisesOnly (isParseFailure · = true) (do
      let items ← v.items
      return f items) := by
  refine raisesOnly_bind ?_ fun _ ↦ raisesOnly_ok _
  intro e h
  rw [v.raisesOnly_items e h]
  rfl

private theorem raises_receive_iff {response : Option CompletionResponse} :
    Raises (receive reading response) ↔ ∃ x, response = some x ∧ ¬ Readable reading.loads x := by
  cases response with
  | none => exact iff_of_false (raises_ok _) (by simp)
  | some x =>
    simp only [Option.some.injEq, exists_eq_left']
    exact raises_handling_get_iff fun data v ↦ raisesOnly_items_bind v _

private theorem raises_extractTakeaways_iff {response : Option CompletionResponse} :
    Raises (extractTakeaways reading response) ↔
      ∃ x, response = some x ∧ ¬ Readable reading.loads x := by
  cases response with
  | none => exact iff_of_false (raises_ok _) (by simp)
  | some x =>
    simp only [Option.some.injEq, exists_eq_left']
    exact raises_handling_get_iff fun _ v ↦ raisesOnly_items_bind v _

/-- The loop over the chunks stops at the first response that raises. -/
theorem raises_compileChunks_iff {responses : List (Option CompletionResponse)} :
    Raises (compileChunks reading env c responses) ↔
      ∃ response ∈ responses, Raises (receive reading response) := by
  induction responses generalizing c with
  | nil => exact iff_of_false (raises_ok _) (by simp)
  | cons response responses ih =>
    rw [compileChunks, List.exists_mem_cons_iff]
    refine raises_bind fun reply _ ↦ ?_
    rw [← ih (c := (compileReply env c reply).2)]
    exact (raises_bind (Q := False) fun _ _ ↦ raises_pure _).trans (iff_of_eq (or_false _))

private theorem raises_compileResponses_iff {response : Nat → Option CompletionResponse} :
    Raises (compileResponses reading env order c doc response) ↔
      ∃ i ∈ sentParts doc, ∃ x, response i = some x ∧ ¬ Readable reading.loads x := by
  unfold compileResponses sentParts
  split
  · refine (raises_bind (Q := False) fun _ _ ↦ raises_pure _).trans ?_
    rw [or_false, raises_compileChunks_iff]
    constructor
    · rintro ⟨_, hmem, hraises⟩
      obtain ⟨i, hi, rfl⟩ := List.mem_map.mp hmem
      exact ⟨i, hi, raises_receive_iff.mp hraises⟩
    · rintro ⟨i, hi, hraises⟩
      exact ⟨_, List.mem_map_of_mem hi, raises_receive_iff.mpr hraises⟩
  · refine (raises_bind (Q := False) fun _ _ ↦ raises_pure _).trans ?_
    simp [raises_receive_iff]

/-- A compilation that gets over its responses is the one of the replies it read. -/
theorem compileResponses_eq {response : Nat → Option CompletionResponse} {reply : Nat → Reply}
    (h : ∀ i, receive reading (response i) = .ok (reply i)) :
    compileResponses reading env order c doc response =
      .ok (compileDocument env order c doc reply) := by
  have hchunks (parts : List Nat) (c : Compiler) :
      compileChunks reading env c (parts.map response) =
        .ok (compileReplies env c (parts.map reply)) := by
    induction parts generalizing c with
    | nil => rfl
    | cons i parts ih =>
      simp only [List.map_cons, compileChunks, compileReplies, h, ih, bind, Except.bind]
      rfl
  unfold compileResponses compileDocument received sentParts
  split
  · rw [hchunks, List.map_map]
    rfl
  · simp only [h, bind, Except.bind]
    rfl

end Compiling

section Rebuilding

variable {loads : Loads} {t : Wiki.ConceptTable} {userId : String}

private theorem toJsonItems_eq (items : List JsonValue) : toJsonItems items = items.map toJson := by
  induction items with
  | nil => rfl
  | cons item items ih => rw [toJsonItems, ih, List.map_cons]

/-- The value of a key is seen like every other. -/
theorem get_toJsonFields (fields : List (String × JsonValue)) (key : String) :
    Wiki.Json.get (toJsonFields fields) key =
      toJson ((JsonValue.lookup fields key).getD .null) := by
  have hmap : toJsonFields fields = fields.map fun field ↦ (field.1, toJson field.2) := by
    induction fields with
    | nil => rfl
    | cons field fields ih => rw [toJsonFields, ih, List.map_cons]
  have hlookup (xs : List (String × JsonValue)) :
      (xs.map fun field ↦ (field.1, toJson field.2)).lookup key = (xs.lookup key).map toJson := by
    induction xs with
    | nil => rfl
    | cons x xs ih =>
      obtain ⟨k, v⟩ := x
      rw [List.map_cons, List.lookup_cons, List.lookup_cons, ih]
      cases key == k <;> rfl
  rw [Wiki.Json.get, hmap, ← List.map_reverse, hlookup, JsonValue.lookup]
  cases fields.reverse.lookup key <;> rfl

/-- What the truth test and the look-up of a value make of it. -/
theorem knownName_toJson (names : List String) (value : JsonValue) :
    Wiki.knownName names (toJson value) =
      if isUnhashable value then .error .typeError
      else .ok (match value with
        | .str s => if s ≠ "" ∧ s ∈ names then some s else none
        | _ => none) := by
  cases value with
  | null => rfl
  | bool b => cases b <;> rfl
  | num q =>
    simp only [toJson, Wiki.knownName, Wiki.Json.truthy, Wiki.Json.memOf, isUnhashable,
      Bool.false_eq_true, if_false]
    by_cases hq : q = 0 <;> simp [hq]
  | str s =>
    simp only [toJson, Wiki.knownName, Wiki.Json.truthy, Wiki.Json.memOf, isUnhashable,
      Bool.false_eq_true, if_false, decide_eq_true_eq]
    by_cases hempty : s = "" <;> simp [hempty]
  | arr items =>
    simp only [toJson, Wiki.knownName, Wiki.Json.truthy, Wiki.Json.memOf, isUnhashable]
    cases items <;> rfl
  | obj fields =>
    simp only [toJson, Wiki.knownName, Wiki.Json.truthy, Wiki.Json.memOf, isUnhashable]
    cases fields <;> rfl

private theorem raises_knownName_iff {names : List String} {value : JsonValue} :
    Raises (Wiki.knownName names (toJson value)) ↔ isUnhashable value = true := by
  rw [knownName_toJson]
  split
  next h => exact iff_of_true ⟨_, rfl⟩ h
  next h => exact iff_of_false (raises_ok _) h

/-- A name is known if it is a text among the names. -/
theorem knownName_eq_some {names : List String} {value : JsonValue} {name : String} :
    Wiki.knownName names (toJson value) = .ok (some name) ↔
      value = .str name ∧ name ≠ "" ∧ name ∈ names := by
  rw [knownName_toJson]
  cases value with
  | str s =>
    simp only [isUnhashable, Bool.false_eq_true, if_false, Except.ok.injEq,
      Option.ite_none_right_eq_some, Option.some.injEq, JsonValue.str.injEq]
    constructor
    · rintro ⟨h, rfl⟩
      exact ⟨rfl, h⟩
    · rintro ⟨rfl, h⟩
      exact ⟨h, rfl⟩
  | _ =>
    refine iff_of_false ?_ fun h ↦ by cases h.1
    split
    · intro h
      cases h
    · intro h
      cases h

/-- An entry raises at its name, or at its parent if the name is known. -/
theorem raises_addEntry_iff {names : List String} {mapping : Wiki.ParentMapping}
    {entry : JsonValue} :
    Raises (Wiki.addEntry names mapping (toJson entry)) ↔ ¬ ReadableEntry names entry := by
  cases entry with
  | obj fields =>
    simp only [toJson, Wiki.addEntry, get_toJsonFields, ReadableEntry, JsonValue.obj.injEq,
      forall_eq']
    have hname (name : String) : (JsonValue.lookup fields "name").getD .null = .str name ↔
        JsonValue.lookup fields "name" = some (.str name) := by
      cases JsonValue.lookup fields "name" <;> simp
    have hadd : ∀ known, Wiki.knownName names
          (toJson ((JsonValue.lookup fields "name").getD .null)) = .ok known →
        (Raises (Wiki.addName names mapping (toJsonFields fields) known) ↔
          (∃ name ∈ names, name ≠ "" ∧ JsonValue.lookup fields "name" = some (.str name)) ∧
            isUnhashable ((JsonValue.lookup fields "parent").getD .null) = true) := by
      intro known hknown
      cases known with
      | none =>
        refine iff_of_false (raises_ok _) ?_
        rintro ⟨⟨name, hmem, hne, hlookup⟩, _⟩
        cases hknown.symm.trans (knownName_eq_some.mpr ⟨(hname name).mpr hlookup, hne, hmem⟩)
      | some name =>
        obtain ⟨hvalue, hne, hmem⟩ := knownName_eq_some.mp hknown
        rw [and_iff_right ⟨name, hmem, hne, (hname name).mp hvalue⟩, ← raises_knownName_iff,
          Wiki.addName, get_toJsonFields]
        cases Wiki.knownName names (toJson ((JsonValue.lookup fields "parent").getD .null)) with
        | ok parent => exact iff_of_false (raises_ok _) (raises_ok _)
        | error e => exact iff_of_true ⟨e, rfl⟩ ⟨e, rfl⟩
    rw [raises_bind hadd, raises_knownName_iff]
    simp only [← Bool.not_eq_true]
    rw [not_and_or, not_not, Classical.not_imp, not_not]
  | _ => exact iff_of_false (raises_ok _) (not_not_intro fun fields h ↦ by cases h)

private theorem raises_buildParentMapping_iff (names : List String) (entries : List JsonValue) :
    Raises (Wiki.buildParentMapping (toJsonItems entries) names) ↔
      ∃ entry ∈ entries, ¬ ReadableEntry names entry := by
  rw [Wiki.buildParentMapping, toJsonItems_eq]
  generalize ([] : Wiki.ParentMapping) = mapping
  induction entries generalizing mapping with
  | nil => exact iff_of_false (raises_ok _) (by simp)
  | cons entry entries ih =>
    rw [List.map_cons, List.foldlM_cons, List.exists_mem_cons_iff, raises_bind fun next _ ↦ ih next,
      raises_addEntry_iff]

/-- The look-ups of an entry raise a `TypeError`. -/
theorem eq_typeError_of_buildParentMapping {names : List String} {hierarchy : List Wiki.Json}
    {e : Exc} (h : Wiki.buildParentMapping hierarchy names = .error e) : e = .typeError := by
  have hknown (value : Wiki.Json) :
      RaisesOnly (· = .typeError) (Wiki.knownName names value) := by
    intro e h
    unfold Wiki.knownName at h
    split at h
    · cases value with
      | arr | obj =>
        cases h
        rfl
      | _ => cases h
    · cases h
  refine raisesOnly_foldlM (P := (· = .typeError)) (fun mapping entry ↦ ?_) hierarchy _ e h
  cases entry with
  | obj fields =>
    refine raisesOnly_bind (hknown _) fun known ↦ ?_
    cases known with
    | none => exact raisesOnly_ok _
    | some name =>
      intro e h
      unfold Wiki.addName at h
      cases hparent : Wiki.knownName names (Wiki.Json.get fields "parent") with
      | ok parent => simp [hparent, Except.map] at h
      | error e' =>
        simp only [hparent, Except.map, Except.error.injEq] at h
        rw [← h]
        exact hknown _ e' hparent
  | _ => exact raisesOnly_ok _

/-- The update of the links lets nothing through behind the loop over the entries. -/
theorem letsThrough_rebuildFrom_iff {maxDepth : Int} {entries : List JsonValue}
    {commitFails : Bool} :
    letsThrough (Wiki.rebuildFrom t userId maxDepth (toJsonItems entries)
        (if commitFails then .error .integrityError else .ok ())).1 = false ↔
      ∀ entry ∈ entries,
        ReadableEntry ((t.rows.filter (·.userId = userId)).map Wiki.Concept.name) entry := by
  have hraises := raises_buildParentMapping_iff
    ((t.rows.filter (·.userId = userId)).map Wiki.Concept.name) entries
  unfold Wiki.rebuildFrom
  cases hmapping : Wiki.buildParentMapping (toJsonItems entries)
      ((t.rows.filter (·.userId = userId)).map Wiki.Concept.name) with
  | error e =>
    rw [eq_typeError_of_buildParentMapping hmapping]
    obtain ⟨entry, hentry, hbad⟩ := hraises.mp ⟨e, hmapping⟩
    exact iff_of_false (by simp [letsThrough, isSideEffectFailure]) fun h ↦ hbad (h entry hentry)
  | ok mapping =>
    rw [hmapping] at hraises
    refine iff_of_true ?_ ?_
    · dsimp only
      split
      · rfl
      split
      · rfl
      cases commitFails <;> rfl
    · by_contra hbad
      exact raises_ok _ (hraises.mpr (by simpa using hbad))

/-- A rebuild lets an exception through at the decoding of its response, or at an entry. -/
theorem letsThrough_iff {threshold maxDepth : Int} {response : Option CompletionResponse}
    {commitFails : Bool} :
    letsThrough (maybeTriggerTaxonomyRebuild loads t userId threshold maxDepth response
        commitFails).1 = false ↔ CalmRebuild loads t userId threshold response := by
  unfold maybeTriggerTaxonomyRebuild CalmRebuild
  dsimp only
  split
  next hreached =>
    simp only [hreached, true_implies, Wiki.rebuildTaxonomy, Caught]
    split
    next hempty =>
      have hnames : (t.rows.filter (·.userId = userId)).map Wiki.Concept.name = [] := by
        simpa using hempty
      exact iff_of_true rfl fun h ↦ absurd hnames h
    next hsome =>
      have hnames : (t.rows.filter (·.userId = userId)).map Wiki.Concept.name ≠ [] := by
        simpa using hsome
      simp only [hnames, ne_eq, not_false_eq_true, true_implies]
      cases response with
      | none => exact iff_of_true rfl (by simp)
      | some x =>
        simp only [Option.some.injEq, forall_eq']
        cases parseJsonResponse loads x with
        | error e => simp [letsThrough, Except.map]
        | ok data =>
          simp only [Except.map, Except.ok.injEq, exists_eq_left', reduceCtorEq, false_and,
            exists_false, false_or]
          cases data with
          | arr entries =>
            simp only [JsonValue.arr.injEq, forall_eq']
            exact letsThrough_rebuildFrom_iff
          | _ => exact iff_of_true rfl fun entries h ↦ by cases h
  next hbelow => exact iff_of_true rfl fun h ↦ absurd h hbelow

/-- A step raises if all that may follow it does. -/
theorem raises_commitStep {before : Tables} {work : Except Exc Tables}
    {next : Tables → Except Exc Article × Tables} (h : ∀ db, Raises (next db).1) :
    Raises (commitStep before work next).1 := by
  cases work with
  | error e => exact ⟨e, rfl⟩
  | ok db => exact h db

/-- A save whose side effects raise does so, there or before. -/
theorem raises_saveArticle_of_sideEffects {env : TextEnv} {sourceId : String}
    {provider : Option Provider} {db : Tables} {a : Attempt}
    (h : a.fails .sideEffects = true) :
    Raises (saveArticle env userId sourceId provider db a).1 := by
  unfold saveArticle
  cases a.reach .find with
  | error e => exact ⟨e, rfl⟩
  | ok u =>
    dsimp only
    cases writeArticle env db userId sourceId provider (findArticle db sourceId provider) a with
    | error e => exact ⟨e, rfl⟩
    | ok written =>
      obtain ⟨article, resolved, written⟩ := written
      refine raises_commitStep fun _ ↦ raises_commitStep fun _ ↦ raises_commitStep fun _ ↦
        raises_commitStep fun _ ↦ ?_
      have hreach : a.reach .sideEffects = .error (.runtimeError "save_article") := if_pos h
      rw [hreach]
      cases a.reach .confidence with
      | error e => exact ⟨e, rfl⟩
      | ok u => exact ⟨_, rfl⟩

/-- A save that would return raises because of the rebuild in its side effects when they let
an exception through. -/
theorem raises_withRebuild_iff {env : TextEnv} {sourceId : String} {provider : Option Provider}
    {db : Tables} {a : Attempt}
    (hsave : ¬ Raises (saveArticle env userId sourceId provider db a).1) (outcome : Wiki.Outcome) :
    Raises (saveArticle env userId sourceId provider db (a.withRebuild outcome)).1 ↔
      letsThrough outcome = true := by
  constructor
  · intro hraises
    by_contra hcaught
    rw [Bool.not_eq_true] at hcaught
    have hsame : a.withRebuild outcome = a := by
      simp only [Attempt.withRebuild, hcaught, Bool.and_false, Bool.false_or]
    rw [hsame] at hraises
    exact hsave hraises
  · intro h
    exact raises_saveArticle_of_sideEffects (by simp [Attempt.withRebuild, h])

end Rebuilding

/-- Exactly these responses raise through none of their consumers: those of a compilation and
of the takeaways are objects or fail to parse, a lint run gets over each of its answers, and
those of a rebuild are calm. -/
theorem responses_survived_iff (reading : Reading) (env : TextEnv) (order : SetOrder)
    (c : Compiler) (doc : NormalizedDocument) (response : Nat → Option CompletionResponse)
    (takeawayResponse : Option CompletionResponse) (cfg : Lint.Contradictions.LinterConfig)
    (rs : List Lint.Contradictions.Run) {s : Lint.Contradictions.State}
    (hsize : cfg.contradictionBatchEnabled = true → 0 < cfg.contradictionBatchSize)
    (hrun : (Lint.Contradictions.lints cfg).run .empty rs = some s)
    (r : Lint.Contradictions.Run)
    (lintResponse : Nat → Lint.Contradictions.Call → Option CompletionResponse)
    {userId sourceId : String} {provider : Option Provider} {db : Tables} {a : Attempt}
    (hsave : ¬ Raises (saveArticle env userId sourceId provider db a).1)
    (t : Wiki.ConceptTable) (threshold maxDepth : Int)
    (rebuildResponse : Option CompletionResponse) (commitFails : Bool) :
    (¬ Raises (compile reading env order c doc response) ↔
      ∀ i ∈ sentParts doc, ∀ x, response i = some x → Readable reading.loads x) ∧
    (¬ Raises (compileWithGuidance reading env order c doc response) ↔
      ∀ i ∈ sentParts doc, ∀ x, response i = some x → Readable reading.loads x) ∧
    (¬ Raises (extractTakeaways reading takeawayResponse) ↔
      ∀ x, takeawayResponse = some x → Readable reading.loads x) ∧
    (Lint.Contradictions.Keeps cfg s (lintRun reading.loads r lintResponse) ↔
      ∀ call ∈ (Lint.Contradictions.lint cfg s (lintRun reading.loads r lintResponse)).2.calls,
        Lint.Contradictions.Survivable call) ∧
    (¬ Raises (saveArticle env userId sourceId provider db (a.withRebuild
        (maybeTriggerTaxonomyRebuild reading.loads t userId threshold maxDepth rebuildResponse
          commitFails).1)).1 ↔
      CalmRebuild reading.loads t userId threshold rebuildResponse) := by
  have hcompiled : ¬ Raises (compileResponses reading env order c doc response) ↔
      ∀ i ∈ sentParts doc, ∀ x, response i = some x → Readable reading.loads x := by
    rw [raises_compileResponses_iff]
    simp only [not_exists, not_and, not_not]
  refine ⟨hcompiled, hcompiled, ?_, Lint.Contradictions.run_keeps_iff hsize hrun, ?_⟩
  · rw [raises_extractTakeaways_iff]
    simp only [not_exists, not_and, not_not]
  · rw [raises_withRebuild_iff hsave, Bool.not_eq_true, letsThrough_iff]

section Samples

/-- A response with a text. -/
def sampleResponse (content : String) : CompletionResponse :=
  ⟨content, .anthropic, "model", 0, 0, 0, 0⟩

/-- A hierarchy whose only entry has a list for a name. -/
def listedName : String := "[\x7b\"name\": [\"tides\"]\x7d]"

/-- A decoder that knows two texts. -/
def sampleLoads : Loads := fun text ↦
  if text = "[]".toList then .ok (.arr [])
  else if text = listedName.toList then .ok (.arr [.obj [("name", .arr [.str "tides"])]])
  else .error .decodeError

/-- Libraries that know no result. -/
def sampleReading : Reading := ⟨sampleLoads, fun _ ↦ "", fun _ ↦ none⟩

/-- A lint run over one pair. -/
def sampleLint : Lint.Contradictions.Run where
  llm _ _ := .error .valueError
  reportId := "r"
  userId := "u"
  allWork :=
    let tides : Lint.Contradictions.Article := ⟨"a", "Tides", "1", ["the moon"], []⟩
    let waves : Lint.Contradictions.Article := ⟨"b", "Waves", "1", ["the wind"], []⟩
    [⟨none, [⟨tides, waves⟩], List.nodup_singleton _⟩]
  committed := true

/-- One concept. -/
def oneConcept : Wiki.ConceptTable :=
  ⟨[⟨"c", "u", "tides", none⟩], List.nodup_singleton _, List.nodup_singleton _⟩

private theorem saveArticle_tides :
    ¬ Raises (saveArticle plainText "u" "s" (some .anthropic) emptyTables
    (sampleAttempt ["tides"] [])).1 := by
  have hok : (saveArticle plainText "u" "s" (some .anthropic) emptyTables
      (sampleAttempt ["tides"] [])).1.isOk = true := by decide
  rintro ⟨e, h⟩
  rw [h] at hok
  cases hok

/-- The takeaways of an empty list, and a save whose rebuild gets no response. -/
theorem responses_survived_iff_empty :
    (¬ Raises (extractTakeaways sampleReading (some (sampleResponse "[]"))) ↔
      ∀ x, some (sampleResponse "[]") = some x → Readable sampleLoads x) ∧
    (¬ Raises (saveArticle plainText "u" "s" (some .anthropic) emptyTables
        ((sampleAttempt ["tides"] []).withRebuild (maybeTriggerTaxonomyRebuild sampleLoads
          oneConcept "u" 1 4 none false).1)).1 ↔
      CalmRebuild sampleLoads oneConcept "u" 1 none) := by
  have hall := responses_survived_iff sampleReading plainText listOrder Compiler.new sampleDocument
    (fun _ ↦ none) (some (sampleResponse "[]")) {} [] (fun _ ↦ by decide) rfl sampleLint
    (fun _ _ ↦ none) saveArticle_tides oneConcept 1 4 none false
  exact ⟨hall.2.2.1, hall.2.2.2.2⟩

/-- An empty list raises through the compilations, the takeaways and the comparison of a pair,
and a hierarchy with a list for a name through a save. -/
theorem responses_raise :
    Raises (compile sampleReading plainText listOrder Compiler.new sampleDocument
      fun _ ↦ some (sampleResponse "[]")) ∧
    Raises (compileWithGuidance sampleReading plainText listOrder Compiler.new sampleDocument
      fun _ ↦ some (sampleResponse "[]")) ∧
    Raises (extractTakeaways sampleReading (some (sampleResponse "[]"))) ∧
    ¬ Lint.Contradictions.Keeps {} .empty
      (lintRun sampleLoads sampleLint fun _ _ ↦ some (sampleResponse "[]")) ∧
    ¬ Raises (saveArticle plainText "u" "s" (some .anthropic) emptyTables
      (sampleAttempt ["tides"] [])).1 ∧
    Raises (saveArticle plainText "u" "s" (some .anthropic) emptyTables
      ((sampleAttempt ["tides"] []).withRebuild (maybeTriggerTaxonomyRebuild sampleLoads oneConcept
        "u" 1 4 (some (sampleResponse listedName)) false).1)).1 := by
  have hunreadable : ¬ Readable sampleLoads (sampleResponse "[]") := by
    have hlist : parseJsonResponse sampleLoads (sampleResponse "[]") = .ok (.arr []) := rfl
    rw [Readable, hlist]
    rintro (⟨data, h, hobj⟩ | ⟨e, h, _⟩)
    · cases h
      cases hobj
    · cases h
  have hcompiled : Raises (compileResponses sampleReading plainText listOrder Compiler.new
      sampleDocument fun _ ↦ some (sampleResponse "[]")) :=
    raises_compileResponses_iff.mpr ⟨0, by decide, _, rfl, hunreadable⟩
  have hlint : (Lint.Contradictions.lint {} .empty (lintRun sampleLoads sampleLint fun _ _ ↦
      some (sampleResponse "[]"))).1 = .error .attributeError := rfl
  refine ⟨hcompiled, hcompiled, raises_extractTakeaways_iff.mpr ⟨_, rfl, hunreadable⟩, ?_,
    saveArticle_tides, (raises_withRebuild_iff saveArticle_tides _).mpr rfl⟩
  rintro ⟨found, hfound, _⟩
  cases hlint.symm.trans hfound

end Samples

end WikiMind.Compile
