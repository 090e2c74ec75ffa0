import Mathlib.Data.List.Sort
import WikiMind.Base.Rows
import WikiMind.Base.Text
import WikiMind.Llm.Request

/-!
# Compiler prompts

The requests `Compiler.compile`, `compile_with_guidance` and the chunked path build for a
document (`engine/compiler.py:277–560`), as functions of the database. A request depends
on other users' rows only through the concept registry, which is not selected by user.
-/

namespace WikiMind.Compile

open WikiMind.Base WikiMind.Llm

/-- A source span: `models/tables/wiki.py:13`. -/
structure SourceSpan where
  id : String
  sourceId : String
  userId : String
  text : String
  createdAt : Nat
  deriving DecidableEq, Repr

/-- A concept: `models/tables/wiki.py:146`. -/
structure Concept where
  userId : String
  name : String
  deriving DecidableEq, Repr

/-- User-defined compilation rules: `models/tables/user_settings.py:44`. -/
structure CompilationSchema where
  userId : String
  isActive : Bool
  articleMaxLength : Option Int
  requiredSections : Option String
  style : Option String
  focus : Option String
  conceptMaxDepth : Option Int
  conceptNaming : Option String
  extractionAlwaysNote : Option String
  extractionIgnore : Option String
  customDirectives : Option String
  deriving DecidableEq, Repr

/-- The tables the prompts are built from. -/
structure Db where
  spans : List SourceSpan
  concepts : List Concept
  schemas : List CompilationSchema
  deriving DecidableEq, Repr

/-- A chunk of a document: `models/dto/ingest.py:19`. -/
structure DocumentChunk where
  content : String
  tokenCount : Nat
  deriving DecidableEq, Repr

/-- A normalized document: `models/dto/ingest.py:31`. A date is given by its text. -/
structure NormalizedDocument where
  rawSourceId : String
  cleanText : String
  title : String
  author : Option String
  publishedDate : Option String
  estimatedTokens : Nat
  chunks : List DocumentChunk
  deriving DecidableEq, Repr

/-- A decoded JSON text, as far as the directives look at it. -/
inductive Json where
  | str (s : String)
  | arr (items : List Json)
  | other

/-- What the prompts take from settings, constants and the standard library: the system
prompt, the compiler settings (`config.py:233–238`) and the JSON decoder. -/
structure Env where
  compilerSystemPrompt : String
  maxTokens : Nat
  sourceTextMaxChars : Nat
  guidanceMaxLength : Nat
  jsonLoads : String → Option Json

/-- Remove what a pattern matches, from left to right without overlap. `matchLength` gives
the length of the match at the head of a text, 0 if there is none. -/
def reSub (matchLength : List Char → Nat) : Nat → List Char → List Char
  | _, [] => []
  | skip + 1, _ :: cs => reSub matchLength skip cs
  | 0, c :: cs =>
    match matchLength (c :: cs) with
    | 0 => c :: reSub matchLength 0 cs
    | n + 1 => reSub matchLength n cs

/-- The match of a letter with case ignored; `i` has two more case variants. -/
def ignoreCase (letter c : Char) : Bool :=
  c.toLower = letter || (letter = 'i' && (c = 'ı' || c = 'İ'))

/-- `_GUIDANCE_TAG_RE`, an opening or closing guidance tag: `engine/compiler.py:138`. -/
def guidanceTag (s : List Char) : Nat :=
  let opens (tag : String) : Bool :=
    tag.length ≤ s.length && (tag.toList.zip s).all fun (letter, c) ↦ ignoreCase letter c
  if opens "<guidance>" then 10 else if opens "</guidance>" then 11 else 0

/-- `_GUIDANCE_SENTINEL_RE`, three hyphens or more: `engine/compiler.py:137`. -/
def guidanceSentinel (s : List Char) : Nat :=
  let run := (s.takeWhile (· = '-')).length
  if 3 ≤ run then run else 0

/-- `_sanitize_guidance`: `engine/compiler.py:141`. -/
def sanitizeGuidance (env : Env) (raw : String) : String :=
  let cleaned := reSub guidanceSentinel 0 (reSub guidanceTag 0 raw.toList)
  String.ofList (cleaned.take env.guidanceMaxLength)

/-- `_safe_json_list`: `engine/compiler.py:124`. -/
def safeJsonList (env : Env) (value : Option String) : Option (List Json) :=
  match (truthy value).bind env.jsonLoads with
  | some (.arr (item :: items)) => some (item :: items)
  | _ => none

/-- `", ".join(items)`, which takes texts only. -/
def joinItems (items : List Json) : Except Exc String := do
  let texts ← items.mapM fun
    | .str s => Except.ok s
    | _ => .error .typeError
  return ", ".intercalate texts

/-- `_build_schema_directives`: `engine/compiler.py:163`. -/
def buildSchemaDirectives (env : Env) (schema : CompilationSchema) : Except Exc String := do
  let number (v : Option Int) (before after : String) : List String :=
    ((v.filter (· ≠ 0)).map fun n ↦ before ++ toString n ++ after).toList
  let text (v : Option String) (before : String) : List String :=
    ((truthy v).map (before ++ ·)).toList
  let list (v : Option String) (before after : String) : Except Exc (List String) :=
    match safeJsonList env v with
    | none => .ok []
    | some items => return [before ++ (← joinItems items) ++ after]
  let scalars :=
    number schema.articleMaxLength "- Article body must not exceed " " words." ++
    text schema.style "- Writing style: " ++
    text schema.focus "- Focus: " ++
    number schema.conceptMaxDepth "- Concept taxonomy max depth: " " levels." ++
    text schema.conceptNaming "- Concept naming convention: " ++
    text schema.customDirectives "- Additional directives: "
  let sections ← list schema.requiredSections "- Article MUST include these sections: " "."
  let notes ← list schema.extractionAlwaysNote
    "- Always note these when present in the source: " "."
  let ignored ← list schema.extractionIgnore "- Ignore these during extraction: " "."
  let lines := scalars ++ sections ++ notes ++ ignored
  return if lines = [] then ""
    else "\n\nUser-defined compilation rules (FOLLOW THESE):\n" ++ "\n".intercalate lines

/-- `_load_source_spans`: `engine/compiler.py:214`. -/
def loadSourceSpans (d : Db) (userId sourceId : String) : List SourceSpan :=
  (d.spans.filter fun s ↦ s.sourceId = sourceId ∧ s.userId = userId).insertionSort
    fun s t ↦ s.createdAt ≤ t.createdAt

/-- The lines of the span section, until the next one would exceed the budget. -/
def spanLines (maxSpanChars : Nat) : Nat → List SourceSpan → String
  | _, [] => ""
  | usedChars, span :: rest =>
    let line := "- " ++ span.id ++ ": \"" ++ slice 120 span.text ++ "\"\n"
    if maxSpanChars < usedChars + line.length then ""
    else line ++ spanLines maxSpanChars (usedChars + line.length) rest

/-- `_build_user_prompt`: `engine/compiler.py:470`. -/
def buildUserPrompt (env : Env) (doc : NormalizedDocument) (spans : List SourceSpan) : String :=
  let optional (label : String) (v : Option String) : String :=
    match v with
    | none => ""
    | some s => label ++ s
  let header := "Title: " ++ doc.title ++ optional "\nAuthor: " (truthy doc.author) ++
    optional "\nPublished: " doc.publishedDate ++
    optional "\nSource ID: " (truthy (some doc.rawSourceId))
  let spanSection :=
    if spans = [] then ""
    else "\n\n## Source Spans\n\nCite these span IDs in key_claims.source_span_ids:\n" ++
      spanLines (env.sourceTextMaxChars / 4) 0 spans
  header ++ "\n\n---\n\n" ++ slice env.sourceTextMaxChars doc.cleanText ++ "\n\n---" ++
    spanSection ++ "\n\nCompile this into a wiki article following the JSON schema exactly."

/-- The part of a prompt that lists the known concepts, from `select(Concept)` with no
condition on the user: `engine/compiler.py:323–327, 398–402`. -/
def conceptRegistry (d : Db) : String :=
  let existingConcepts := d.concepts.map Concept.name
  if existingConcepts = [] then ""
  else "\n\nExisting concepts in this wiki (REUSE these before inventing new ones):\n" ++
    ", ".intercalate (existingConcepts.insertionSort (· ≤ ·))

/-- The user prompt up to the registry, with the spans of the source. -/
def documentPrompt (env : Env) (d : Db) (userId : String) (doc : NormalizedDocument) : String :=
  let spans := if doc.rawSourceId = "" then [] else loadSourceSpans d userId doc.rawSourceId
  buildUserPrompt env doc spans

/-- The system prompt of `compile`, with the directives of the user's active schema:
`engine/compiler.py:404–417`. -/
def systemPrompt (env : Env) (d : Db) (userId : String) : Except Exc String := do
  match ← Rows.oneOrNone (fun s ↦ s.userId = userId ∧ s.isActive) d.schemas with
  | none => return env.compilerSystemPrompt
  | some schema => return env.compilerSystemPrompt ++ (← buildSchemaDirectives env schema)

/-- A compile request for a system prompt and a user prompt: `engine/compiler.py:419–426`. -/
def completionRequest (env : Env) (system userPrompt : String) : CompletionRequest :=
  { system, messages := [("user", userPrompt)], maxTokens := env.maxTokens, temperature := 2 }

/-- The request `compile` builds for a document of one chunk: `engine/compiler.py:373`. -/
def compileRequest (env : Env) (d : Db) (userId : String) (doc : NormalizedDocument) :
    Except Exc CompletionRequest := do
  let system ← systemPrompt env d userId
  return completionRequest env system (documentPrompt env d userId doc ++ conceptRegistry d)

/-- The request `compile_with_guidance` builds for a document of one chunk, without
schema: `engine/compiler.py:277`. -/
def guidedRequest (env : Env) (d : Db) (userId guidance : String) (doc : NormalizedDocument) :
    CompletionRequest :=
  completionRequest env env.compilerSystemPrompt
    (documentPrompt env d userId doc ++
      "\n\nUSER GUIDANCE — weight the article toward these priorities:\n<guidance>" ++
      sanitizeGuidance env guidance ++ "</guidance>" ++ conceptRegistry d)

/-- The documents the chunked path compiles one by one: `engine/compiler.py:528–537`. -/
def chunkDocuments (doc : NormalizedDocument) : List NormalizedDocument :=
  (doc.chunks.take 10).zipIdx.map fun (chunk, i) ↦
    { doc with
      cleanText := chunk.content
      title := doc.title ++ " (Part " ++ toString (i + 1) ++ ")"
      estimatedTokens := chunk.tokenCount
      chunks := [] }

/-- The size from which a document is compiled in chunks. -/
def isLarge (doc : NormalizedDocument) : Bool := 80000 < doc.estimatedTokens

/-- Send requests until one cannot be built or its call raises. -/
def sendAll (raises : CompletionRequest → Bool) :
    List (Except Exc CompletionRequest) → List CompletionRequest
  | [] => []
  | .error _ :: _ => []
  | .ok request :: rest => request :: if raises request then [] else sendAll raises rest

/-- The requests of `_compile_chunked`: `compile` for each chunk document. A chunk that is
large itself goes to the chunked path once more, where it has no chunks and sends nothing.
`engine/compiler.py:514`. -/
def chunkedRequests (env : Env) (raises : CompletionRequest → Bool) (d : Db) (userId : String)
    (doc : NormalizedDocument) : List CompletionRequest :=
  sendAll raises (((chunkDocuments doc).filter (! isLarge ·)).map (compileRequest env d userId))

/-- All requests of one compilation of a document, with or without guidance, when the calls
that raise are given. -/
def requests (env : Env) (raises : CompletionRequest → Bool) (d : Db) (userId : String)
    (guidance : Option String) (doc : NormalizedDocument) : List CompletionRequest :=
  if isLarge doc then chunkedRequests env raises d userId doc
  else
    match guidance with
    | none => sendAll raises [compileRequest env d userId doc]
    | some text => [guidedRequest env d userId text doc]

/-- The two states agree on all rows of a user. -/
structure AgreeOn (userId : String) (d d' : Db) : Prop where
  spans : d.spans.filter (·.userId = userId) = d'.spans.filter (·.userId = userId)
  concepts : d.concepts.filter (·.userId = userId) = d'.concepts.filter (·.userId = userId)
  schemas : d.schemas.filter (·.userId = userId) = d'.schemas.filter (·.userId = userId)

/-- A compilation that builds no prompt: the schema look-up or its directives fail, or all
chunks are too large. Guidance on a small document always builds one. -/
def Silent (env : Env) (d : Db) (userId : String) (guidance : Option String)
    (doc : NormalizedDocument) : Prop :=
  if isLarge doc then
    (∃ e, systemPrompt env d userId = .error e) ∨ ∀ chunk ∈ chunkDocuments doc, isLarge chunk
  else guidance = none ∧ ∃ e, systemPrompt env d userId = .error e

section Noninterference

variable {env : Env} {raises : CompletionRequest → Bool} {d d' : Db} {userId : String}
  {doc : NormalizedDocument}

/-- Spans are selected by user. -/
theorem AgreeOn.loadSourceSpans (h : AgreeOn userId d d') (sourceId : String) :
    loadSourceSpans d userId sourceId = loadSourceSpans d' userId sourceId := by
  have hsplit : ∀ spans : List SourceSpan,
      (spans.filter fun s ↦ s.sourceId = sourceId ∧ s.userId = userId) =
        (spans.filter (·.userId = userId)).filter (·.sourceId = sourceId) := by
    intro spans
    rw [List.filter_filter]
    simp
  unfold Compile.loadSourceSpans
  rw [hsplit, hsplit, h.spans]

/-- So is the active schema, and with it the system prompt. -/
theorem AgreeOn.systemPrompt (h : AgreeOn userId d d') :
    systemPrompt env d userId = systemPrompt env d' userId := by
  have hsplit : ∀ schemas : List CompilationSchema,
      (schemas.filter fun s ↦ s.userId = userId ∧ s.isActive) =
        (schemas.filter (·.userId = userId)).filter (·.isActive) := by
    intro schemas
    rw [List.filter_filter]
    apply List.filter_congr
    intro s _
    cases s.isActive <;> simp
  unfold Compile.systemPrompt Rows.oneOrNone
  rw [hsplit, hsplit, h.schemas]

/-- The prompt before the registry is the same in both states. -/
theorem AgreeOn.documentPrompt (h : AgreeOn userId d d') :
    documentPrompt env d userId doc = documentPrompt env d' userId doc := by
  unfold Compile.documentPrompt
  rw [h.loadSourceSpans]

/-- The registry is a suffix of the user prompt, so equal requests have equal registries. -/
theorem registry_of_completionRequest {system base x y : String}
    (h : completionRequest env system (base ++ x) = completionRequest env system (base ++ y)) :
    x = y := by
  simp only [completionRequest, CompletionRequest.mk.injEq, List.cons.injEq, Prod.mk.injEq,
    true_and, and_true] at h
  exact (String.append_right_inj base).mp h

/-- Where the system prompt is built, a compile request is the document's prompt followed
by the registry. -/
theorem compileRequest_of_ok {system : String} (h : systemPrompt env d userId = .ok system)
    (doc : NormalizedDocument) : compileRequest env d userId doc =
      .ok (completionRequest env system
        (documentPrompt env d userId doc ++ conceptRegistry d)) := by
  unfold compileRequest
  rw [h]
  rfl

/-- Where it is not, no compile request is built. -/
theorem sendAll_of_error {e : Exc} (h : systemPrompt env d userId = .error e)
    (docs : List NormalizedDocument) :
    sendAll raises (docs.map (compileRequest env d userId)) = [] := by
  cases docs with
  | nil => rfl
  | cons doc rest =>
    have hdoc : compileRequest env d userId doc = .error e := by
      unfold compileRequest
      rw [h]
      rfl
    simp [hdoc, sendAll]

/-- With equal registries, agreeing states build the same compile requests. -/
theorem AgreeOn.compileRequest (h : AgreeOn userId d d')
    (hregistry : conceptRegistry d = conceptRegistry d') :
    compileRequest env d userId = compileRequest env d' userId := by
  funext doc
  unfold Compile.compileRequest
  rw [h.systemPrompt, h.documentPrompt, hregistry]

/-- Sending the compile requests of some documents shows the registry as soon as one of
them is built. -/
theorem AgreeOn.sendAll_iff (h : AgreeOn userId d d') (docs : List NormalizedDocument) :
    sendAll raises (docs.map (Compile.compileRequest env d userId)) =
        sendAll raises (docs.map (Compile.compileRequest env d' userId)) ↔
      conceptRegistry d = conceptRegistry d' ∨ docs = [] ∨
        ∃ e, Compile.systemPrompt env d userId = .error e := by
  constructor
  · intro hsame
    cases docs with
    | nil => exact .inr (.inl rfl)
    | cons doc rest =>
      cases hsystem : Compile.systemPrompt env d userId with
      | error e => exact .inr (.inr ⟨e, rfl⟩)
      | ok system =>
        left
        have hsystem' : Compile.systemPrompt env d' userId = .ok system :=
          h.systemPrompt.symm.trans hsystem
        simp only [List.map_cons, compileRequest_of_ok hsystem, compileRequest_of_ok hsystem',
          h.documentPrompt, sendAll, List.cons.injEq] at hsame
        exact registry_of_completionRequest hsame.1
  · rintro (hregistry | rfl | ⟨e, hsystem⟩)
    · rw [h.compileRequest hregistry]
    · rfl
    · rw [sendAll_of_error hsystem, sendAll_of_error (h.systemPrompt.symm.trans hsystem)]

end Noninterference

/-- Two states that agree on the rows of a user give the same prompts precisely when their
concept registries, over all users, read the same, or no prompt is built at all. -/
theorem requests_eq_iff {userId : String} {d d' : Db} (env : Env)
    (raises : CompletionRequest → Bool) (guidance : Option String) (doc : NormalizedDocument)
    (h : AgreeOn userId d d') :
    requests env raises d userId guidance doc = requests env raises d' userId guidance doc ↔
      conceptRegistry d = conceptRegistry d' ∨ Silent env d userId guidance doc := by
  unfold requests Silent
  by_cases hlarge : isLarge doc = true
  · rw [if_pos hlarge, if_pos hlarge, if_pos hlarge]
    unfold chunkedRequests
    rw [h.sendAll_iff, List.filter_eq_nil_iff]
    simp only [Bool.not_eq_true', Bool.not_eq_false]
    rw [or_comm (a := ∀ a ∈ chunkDocuments doc, isLarge a = true)]
  · rw [if_neg hlarge, if_neg hlarge, if_neg hlarge]
    cases guidance with
    | none => simpa using h.sendAll_iff [doc]
    | some text =>
      simp only [reduceCtorEq, false_and, or_false, List.cons.injEq, and_true]
      unfold guidedRequest
      rw [h.documentPrompt]
      constructor
      · exact registry_of_completionRequest
      · intro hregistry
        rw [hregistry]

/-- Settings for runs on fixed inputs. -/
def sampleEnv : Env := ⟨"Compile.", 100, 1000, 20, fun _ ↦ none⟩

/-- A short document of a user. -/
def sampleDocument : NormalizedDocument := ⟨"s1", "Text.", "Note", none, none, 1, []⟩

/-- No rows at all, and the same with a concept of user `v`. -/
def registryStates : Db × Db := (⟨[], [], []⟩, ⟨[], [⟨"v", "merger"⟩], []⟩)

/-- A concept of another user changes no prompt of `u` if the registry has it already. -/
theorem requests_eq_sameRegistry :
    requests sampleEnv (fun _ ↦ false) ⟨[], [⟨"v", "merger"⟩], []⟩ "u" none sampleDocument =
      requests sampleEnv (fun _ ↦ false) ⟨[], [⟨"w", "merger"⟩], []⟩ "u" none sampleDocument :=
  (requests_eq_iff sampleEnv _ none sampleDocument ⟨rfl, rfl, rfl⟩).mpr (.inl rfl)

/-- Another user's concept name enters the prompts of `u`, with and without guidance. -/
theorem requests_leak_concept :
    AgreeOn "u" registryStates.1 registryStates.2 ∧
    ∀ guidance ∈ [none, some "short"],
      requests sampleEnv (fun _ ↦ false) registryStates.1 "u" guidance sampleDocument ≠
        requests sampleEnv (fun _ ↦ false) registryStates.2 "u" guidance sampleDocument := by
  have hagree : AgreeOn "u" registryStates.1 registryStates.2 := ⟨rfl, rfl, rfl⟩
  have hregistry : conceptRegistry registryStates.1 ≠ conceptRegistry registryStates.2 := by decide
  refine ⟨hagree, fun guidance hguidance heq ↦ ?_⟩
  simp only [List.mem_cons, List.not_mem_nil, or_false] at hguidance
  rcases hguidance with rfl | rfl
  · have heq : sendAll (fun _ ↦ false)
          ([sampleDocument].map (compileRequest sampleEnv registryStates.1 "u")) =
        sendAll (fun _ ↦ false)
          ([sampleDocument].map (compileRequest sampleEnv registryStates.2 "u")) := heq
    rcases (hagree.sendAll_iff [sampleDocument]).mp heq with h | h | ⟨e, h⟩
    · exact hregistry h
    · cases h
    · cases h
  · have heq := (List.cons.inj heq).1
    unfold guidedRequest at heq
    rw [hagree.documentPrompt] at heq
    exact hregistry (registry_of_completionRequest heq)

end WikiMind.Compile
