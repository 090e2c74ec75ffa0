import WikiMind.Compile.Prompt

/-!
# Guided compilation

`Compiler.compile_with_guidance` next to `Compiler.compile` (`engine/compiler.py:277–433`):
where the guided requests are those of `compile` with the guidance added to each user
message. The guided path does not look up the active schema, and its branch for large
documents passes no guidance on.
-/

namespace WikiMind.Compile

open WikiMind.Base WikiMind.Llm

/-- The part of a prompt that carries the guidance: `engine/compiler.py:318–321`. -/
def guidanceSection (env : Env) (guidance : String) : String :=
  "\n\nUSER GUIDANCE — weight the article toward these priorities:\n<guidance>" ++
    sanitizeGuidance env guidance ++ "</guidance>"

/-- A text with the guidance added, anywhere in it. No guidance may also add nothing. -/
def Guided (env : Env) (guidance text text' : String) : Prop :=
  (∃ before after, text = before ++ after ∧
      text' = before ++ guidanceSection env guidance ++ after) ∨
    (sanitizeGuidance env guidance = "" ∧ text' = text)

/-- The guidance is added to each user message of a request, and nothing else differs. -/
def AddsGuidance (env : Env) (guidance : String) (request request' : CompletionRequest) : Prop :=
  request' = { request with messages := request'.messages } ∧
    List.Forall₂
      (fun m m' ↦ m'.1 = m.1 ∧ if m.1 = "user" then Guided env guidance m.2 m'.2 else m'.2 = m.2)
      request.messages request'.messages

/-- The guided compilation of a document sends the requests of the plain one, one for one,
with the guidance added. -/
def SameWithGuidance (env : Env) (raises : CompletionRequest → Bool) (d : Db)
    (userId guidance : String) (doc : NormalizedDocument) : Prop :=
  List.Forall₂ (AddsGuidance env guidance) (requests env raises d userId none doc)
    (requests env raises d userId (some guidance) doc)

/-- The rows the schema query of `compile` selects: `engine/compiler.py:406–411`. -/
def activeSchemas (d : Db) (userId : String) : List CompilationSchema :=
  d.schemas.filter fun s ↦ s.userId = userId ∧ s.isActive

/-- The fields of a schema with a number, with a text, and with a list encoded in JSON. -/
def CompilationSchema.numbers (s : CompilationSchema) : List (Option Int) :=
  [s.articleMaxLength, s.conceptMaxDepth]

def CompilationSchema.texts (s : CompilationSchema) : List (Option String) :=
  [s.style, s.focus, s.conceptNaming, s.customDirectives]

def CompilationSchema.lists (s : CompilationSchema) : List (Option String) :=
  [s.requiredSections, s.extractionAlwaysNote, s.extractionIgnore]

/-- No field of a schema asks for anything: no number but zero, no text but the empty one, no
list with items. -/
structure CompilationSchema.Plain (env : Env) (s : CompilationSchema) : Prop where
  numbers : ∀ v ∈ s.numbers, v.filter (· ≠ 0) = none
  texts : ∀ v ∈ s.texts, truthy v = none
  lists : ∀ v ∈ s.lists, safeJsonList env v = none

/-- An item that can be joined to a line. -/
def Json.isText : Json → Bool
  | str _ => true
  | _ => false

/-- The directives of a schema cannot be built: a list of it has an item that is no text. -/
def CompilationSchema.Broken (env : Env) (s : CompilationSchema) : Prop :=
  ∃ v ∈ s.lists, ∃ items, safeJsonList env v = some items ∧ ∃ item ∈ items, ¬ item.isText

/-- The condition on document and database: a small document and no directives in force, or a
large one that has no guidance to lose, as it has none or sends no request at all. -/
def LosesNothing (env : Env) (d : Db) (userId guidance : String) (doc : NormalizedDocument) :
    Prop :=
  if isLarge doc then
    sanitizeGuidance env guidance = "" ∨ 1 < (activeSchemas d userId).length ∨
      (∃ s, activeSchemas d userId = [s] ∧ s.Broken env) ∨
      ∀ chunk ∈ doc.chunks.take 10, 80000 < chunk.tokenCount
  else
    activeSchemas d userId = [] ∨ ∃ s, activeSchemas d userId = [s] ∧ s.Plain env

section Directives

variable {env : Env} {schema : CompilationSchema}

/-- Joining fails at an item that is no text. -/
theorem raises_joinItems_iff {items : List Json} :
    Raises (joinItems items) ↔ ∃ item ∈ items, ¬ item.isText := by
  unfold joinItems
  rw [raises_bind (Q := False) fun _ _ ↦ raises_pure _, or_false]
  rw [raises_mapM_iff]
  refine exists_congr fun item ↦ and_congr_right fun _ ↦ ?_
  cases item with
  | str s => simp [Json.isText]
  | arr inner | other =>
    simp only [Json.isText, Bool.false_eq_true, not_false_eq_true, iff_true]
    exact ⟨_, rfl⟩

/-- The line of one list directive, none for a list without items. -/
def listDirective (env : Env) (before after : String) (v : Option String) :
    Except Exc (List String) :=
  match safeJsonList env v with
  | none => .ok []
  | some items => return [before ++ (← joinItems items) ++ after]

private theorem raises_listDirective_iff {before after : String} {v : Option String} :
    Raises (listDirective env before after v) ↔
      ∃ items, safeJsonList env v = some items ∧ ∃ item ∈ items, ¬ item.isText := by
  unfold listDirective
  cases safeJsonList env v with
  | none => simp
  | some items =>
    simp only [Option.some.injEq, exists_eq_left']
    rw [raises_bind fun _ _ ↦ raises_pure _, or_false, raises_joinItems_iff]

private theorem listDirective_eq_nil_iff {before after : String} {v : Option String} :
    listDirective env before after v = .ok [] ↔ safeJsonList env v = none := by
  unfold listDirective
  cases safeJsonList env v with
  | none => simp
  | some items => simp [bind_eq_ok, pure, Except.pure]

/-- The lines of the scalar directives. -/
def scalarDirectives (schema : CompilationSchema) : List String :=
  let number (v : Option Int) (before after : String) : List String :=
    ((v.filter (· ≠ 0)).map fun n ↦ before ++ toString n ++ after).toList
  let text (v : Option String) (before : String) : List String :=
    ((truthy v).map (before ++ ·)).toList
  number schema.articleMaxLength "- Article body must not exceed " " words." ++
    text schema.style "- Writing style: " ++
    text schema.focus "- Focus: " ++
    number schema.conceptMaxDepth "- Concept taxonomy max depth: " " levels." ++
    text schema.conceptNaming "- Concept naming convention: " ++
    text schema.customDirectives "- Additional directives: "

private theorem buildSchemaDirectives_eq : buildSchemaDirectives env schema = (do
    let sections ← listDirective env "- Article MUST include these sections: " "."
      schema.requiredSections
    let notes ← listDirective env "- Always note these when present in the source: " "."
      schema.extractionAlwaysNote
    let ignored ← listDirective env "- Ignore these during extraction: " "."
      schema.extractionIgnore
    let lines := scalarDirectives schema ++ sections ++ notes ++ ignored
    return if lines = [] then ""
      else "\n\nUser-defined compilation rules (FOLLOW THESE):\n" ++ "\n".intercalate lines) :=
  rfl

/-- The directives fail where one of the lists does. -/
theorem raises_buildSchemaDirectives_iff :
    Raises (buildSchemaDirectives env schema) ↔ schema.Broken env := by
  rw [buildSchemaDirectives_eq,
    raises_bind fun _ _ ↦ raises_bind fun _ _ ↦ raises_bind fun _ _ ↦ raises_pure _,
    raises_listDirective_iff, raises_listDirective_iff, raises_listDirective_iff]
  simp [CompilationSchema.Broken, CompilationSchema.lists]

private theorem scalarDirectives_eq_nil_iff : scalarDirectives schema = [] ↔
    (∀ v ∈ schema.numbers, v.filter (· ≠ 0) = none) ∧ ∀ v ∈ schema.texts, truthy v = none := by
  simp only [scalarDirectives, CompilationSchema.numbers, CompilationSchema.texts,
    List.append_eq_nil_iff, Option.toList_eq_nil_iff, Option.map_eq_none_iff, List.forall_mem_cons,
    List.not_mem_nil, false_imp_iff, implies_true, and_true]
  tauto

/-- No directives come from a plain schema, and from no other. -/
theorem buildSchemaDirectives_eq_empty_iff :
    buildSchemaDirectives env schema = .ok "" ↔ schema.Plain env := by
  rw [buildSchemaDirectives_eq]
  simp only [bind_eq_ok]
  constructor
  · rintro ⟨sections, hsections, notes, hnotes, ignored, hignored, hlines⟩
    have hnil : scalarDirectives schema ++ sections ++ notes ++ ignored = [] := by
      by_contra hlong
      rw [if_neg hlong] at hlines
      have hlength := congrArg String.length (Except.ok.inj hlines)
      rw [String.length_append] at hlength
      simp at hlength
    simp only [List.append_eq_nil_iff] at hnil
    obtain ⟨⟨⟨hscalars, rfl⟩, rfl⟩, rfl⟩ := hnil
    obtain ⟨hnumbers, htexts⟩ := scalarDirectives_eq_nil_iff.mp hscalars
    refine ⟨hnumbers, htexts, ?_⟩
    simp only [CompilationSchema.lists, List.forall_mem_cons]
    exact ⟨listDirective_eq_nil_iff.mp hsections, listDirective_eq_nil_iff.mp hnotes,
      listDirective_eq_nil_iff.mp hignored, by simp⟩
  · rintro ⟨hnumbers, htexts, hlists⟩
    simp only [CompilationSchema.lists, List.forall_mem_cons] at hlists
    obtain ⟨hsections, hnotes, hignored, -⟩ := hlists
    refine ⟨[], listDirective_eq_nil_iff.mpr hsections, [], listDirective_eq_nil_iff.mpr hnotes,
      [], listDirective_eq_nil_iff.mpr hignored, ?_⟩
    rw [scalarDirectives_eq_nil_iff.mpr ⟨hnumbers, htexts⟩]
    rfl

end Directives

section Requests

variable {env : Env} {raises : CompletionRequest → Bool} {d : Db} {userId guidance : String}
  {doc : NormalizedDocument} {r : CompletionRequest}

/-- `compile` fails before its call where the schema query finds several rows, or one whose
directives cannot be built. -/
theorem raises_systemPrompt_iff : Raises (systemPrompt env d userId) ↔
    1 < (activeSchemas d userId).length ∨
      ∃ s, activeSchemas d userId = [s] ∧ s.Broken env := by
  unfold systemPrompt activeSchemas
  cases hrow : Rows.oneOrNone (fun s : CompilationSchema ↦ s.userId = userId ∧ s.isActive)
      d.schemas with
  | error e =>
    have hmany := Rows.raises_oneOrNone_iff.mp ⟨e, hrow⟩
    exact iff_of_true ⟨e, rfl⟩ (.inl hmany)
  | ok found =>
    cases found with
    | none =>
      rw [Rows.oneOrNone_eq_none.mp hrow]
      refine iff_of_false (raises_ok _) ?_
      rintro (hlen | ⟨s, hs, -⟩)
      · cases hlen
      · cases hs
    | some schema =>
      rw [Rows.oneOrNone_eq_some.mp hrow]
      have hraises : Raises (buildSchemaDirectives env schema >>= fun directives ↦
          pure (env.compilerSystemPrompt ++ directives)) ↔ schema.Broken env := by
        rw [raises_bind fun _ _ ↦ raises_pure _, or_false, raises_buildSchemaDirectives_iff]
      refine hraises.trans ?_
      simp

/-- The system prompt of `compile` is the constant one where no directives are in force. -/
theorem systemPrompt_eq_constant_iff :
    systemPrompt env d userId = .ok env.compilerSystemPrompt ↔
      activeSchemas d userId = [] ∨ ∃ s, activeSchemas d userId = [s] ∧ s.Plain env := by
  unfold systemPrompt activeSchemas
  cases hrow : Rows.oneOrNone (fun s : CompilationSchema ↦ s.userId = userId ∧ s.isActive)
      d.schemas with
  | error e =>
    have hmany := Rows.raises_oneOrNone_iff.mp ⟨e, hrow⟩
    refine iff_of_false (fun h ↦ by cases h) ?_
    rintro (hnil | ⟨s, hs, -⟩)
    · rw [hnil] at hmany
      cases hmany
    · rw [hs] at hmany
      exact absurd hmany (by simp)
  | ok found =>
    cases found with
    | none => exact iff_of_true rfl (.inl (Rows.oneOrNone_eq_none.mp hrow))
    | some schema =>
      rw [Rows.oneOrNone_eq_some.mp hrow]
      have hprompt : (buildSchemaDirectives env schema >>= fun directives ↦
          pure (env.compilerSystemPrompt ++ directives)) = .ok env.compilerSystemPrompt ↔
            schema.Plain env := by
        rw [bind_eq_ok, ← buildSchemaDirectives_eq_empty_iff]
        simp [pure, Except.pure, String.append_eq_left_iff]
      refine hprompt.trans ?_
      simp

/-- What is sent was built. -/
theorem mem_of_mem_sendAll {built : List (Except Exc CompletionRequest)}
    (h : r ∈ sendAll raises built) : .ok r ∈ built := by
  induction built with
  | nil => cases h
  | cons first rest ih =>
    cases first with
    | error e => cases h
    | ok request =>
      rcases List.mem_cons.mp h with rfl | h
      · exact List.mem_cons_self
      · split at h
        · cases h
        · exact List.mem_cons_of_mem _ (ih h)

/-- A compile request has one message, of the user. -/
theorem messages_of_compileRequest (h : compileRequest env d userId doc = .ok r) :
    r.messages = [("user", documentPrompt env d userId doc ++ conceptRegistry d)] := by
  obtain ⟨system, -, hr⟩ := bind_eq_ok.mp h
  cases hr
  rfl

/-- Nothing is sent for documents where there are none, or none of them gets a request. -/
theorem sendAll_eq_nil_iff {docs : List NormalizedDocument} :
    sendAll raises (docs.map (compileRequest env d userId)) = [] ↔
      docs = [] ∨ Raises (systemPrompt env d userId) := by
  cases hsystem : systemPrompt env d userId with
  | error e => exact iff_of_true (sendAll_of_error hsystem docs) (.inr ⟨e, rfl⟩)
  | ok system =>
    rw [or_iff_left (raises_ok system)]
    cases docs with
    | nil => simp [sendAll]
    | cons doc rest => simp [compileRequest_of_ok hsystem, sendAll]

/-- The chunks that get a request are those below the size of a large document. -/
theorem smallChunks_eq_nil_iff : (chunkDocuments doc).filter (! isLarge ·) = [] ↔
    ∀ chunk ∈ doc.chunks.take 10, 80000 < chunk.tokenCount := by
  have hmap : doc.chunks.take 10 = (doc.chunks.take 10).zipIdx.map Prod.fst := by simp
  rw [List.filter_eq_nil_iff, hmap]
  unfold chunkDocuments isLarge
  simp only [List.forall_mem_map, Bool.not_eq_true', decide_eq_false_iff_not, not_not]

private theorem guidanceSection_length_pos (env : Env) (guidance : String) :
    0 < (guidanceSection env guidance).length := by
  have hend : 0 < "</guidance>".length := by decide
  unfold guidanceSection
  rw [String.length_append]
  omega

/-- A text passes for its own guided form where there is no guidance to add. -/
theorem guided_self_iff {text : String} :
    Guided env guidance text text ↔ sanitizeGuidance env guidance = "" := by
  unfold Guided
  constructor
  · rintro (⟨before, after, hplain, hguided⟩ | ⟨hempty, -⟩)
    · have hlength := congrArg String.length (hplain.symm.trans hguided)
      simp only [String.length_append] at hlength
      have hpos := guidanceSection_length_pos env guidance
      omega
    · exact hempty
  · intro hempty
    exact .inr ⟨hempty, rfl⟩

/-- So does a request where there is no guidance to add. -/
theorem addsGuidance_self_iff {text : String} (h : r.messages = [("user", text)]) :
    AddsGuidance env guidance r r ↔ sanitizeGuidance env guidance = "" := by
  have hsame : r = { r with messages := r.messages } := rfl
  unfold AddsGuidance
  rw [and_iff_right hsame, List.forall₂_same, h]
  simp [guided_self_iff]

private theorem guidedRequest_eq : guidedRequest env d userId guidance doc =
    completionRequest env env.compilerSystemPrompt
      (documentPrompt env d userId doc ++ guidanceSection env guidance ++ conceptRegistry d) := by
  have hassoc : ∀ base opening text closing registry : String,
      base ++ opening ++ text ++ closing ++ registry =
        base ++ (opening ++ text ++ closing) ++ registry := by
    intro base opening text closing registry
    simp only [String.append_assoc]
  exact congrArg (completionRequest env env.compilerSystemPrompt) (hassoc _ _ _ _ _)

/-- The guided form of a small document's request adds the guidance, and differs otherwise
in the system prompt only. -/
theorem addsGuidance_guidedRequest_iff {system : String} :
    AddsGuidance env guidance
        (completionRequest env system (documentPrompt env d userId doc ++ conceptRegistry d))
        (guidedRequest env d userId guidance doc) ↔ system = env.compilerSystemPrompt := by
  rw [guidedRequest_eq]
  constructor
  · rintro ⟨hrest, -⟩
    exact (congrArg CompletionRequest.system hrest).symm
  · rintro rfl
    refine ⟨rfl, .cons ⟨rfl, ?_⟩ .nil⟩
    rw [if_pos rfl]
    exact .inl ⟨_, _, rfl, rfl⟩

end Requests

/-- The guided compilation sends the requests of the plain one with the guidance added
precisely where it has neither directives nor guidance to lose. -/
theorem sameWithGuidance_iff (env : Env) (raises : CompletionRequest → Bool) (d : Db)
    (userId guidance : String) (doc : NormalizedDocument) :
    SameWithGuidance env raises d userId guidance doc ↔
      LosesNothing env d userId guidance doc := by
  unfold SameWithGuidance LosesNothing requests
  by_cases hlarge : isLarge doc = true
  · rw [if_pos hlarge, if_pos hlarge, if_pos hlarge]
    -- both copies run the same chunked path, so each request would have to be its own guided form
    have hself : ∀ r ∈ chunkedRequests env raises d userId doc,
        (AddsGuidance env guidance r r ↔ sanitizeGuidance env guidance = "") := by
      intro r hr
      obtain ⟨chunk, -, hchunk⟩ := List.mem_map.mp (mem_of_mem_sendAll hr)
      exact addsGuidance_self_iff (messages_of_compileRequest hchunk)
    have hsilent : chunkedRequests env raises d userId doc = [] ↔
        1 < (activeSchemas d userId).length ∨
          (∃ s, activeSchemas d userId = [s] ∧ s.Broken env) ∨
          ∀ chunk ∈ doc.chunks.take 10, 80000 < chunk.tokenCount := by
      unfold chunkedRequests
      rw [sendAll_eq_nil_iff, smallChunks_eq_nil_iff, raises_systemPrompt_iff, or_comm, or_assoc]
    rw [List.forall₂_same, forall₂_congr hself, ← hsilent]
    cases chunkedRequests env raises d userId doc with
    | nil => simp
    | cons r rest =>
      rw [or_iff_left (List.cons_ne_nil r rest)]
      constructor
      · intro h
        exact h r List.mem_cons_self
      · intro hempty _ _
        exact hempty
  · rw [if_neg hlarge, if_neg hlarge, if_neg hlarge, ← systemPrompt_eq_constant_iff]
    cases hsystem : systemPrompt env d userId with
    | error e =>
      have hnone : sendAll raises [compileRequest env d userId doc] = [] :=
        sendAll_of_error hsystem [doc]
      simp [hnone]
    | ok system =>
      simp only [compileRequest_of_ok hsystem, sendAll, ite_self, List.forall₂_cons,
        List.forall₂_nil_left_iff, and_true, Except.ok.injEq]
      exact addsGuidance_guidedRequest_iff

/-- A state in which the active schema of the user asks for a style. -/
def styledState : Db :=
  ⟨[], [], [⟨"u", true, none, none, some "terse", none, none, none, none, none, none⟩]⟩

/-- A document of two chunks. -/
def largeDocument : NormalizedDocument :=
  ⟨"s1", "First. Second.", "Note", none, none, 90000, [⟨"First.", 45000⟩, ⟨"Second.", 45000⟩]⟩

/-- A guided compilation of a short document loses the style, and one of a large document the
guidance. -/
theorem guided_requests_differ :
    ¬ SameWithGuidance sampleEnv (fun _ ↦ false) styledState "u" "short" sampleDocument ∧
    ¬ SameWithGuidance sampleEnv (fun _ ↦ false) ⟨[], [], []⟩ "u" "short" largeDocument := by
  constructor
  · have hplain : requests sampleEnv (fun _ ↦ false) styledState "u" none sampleDocument =
        [completionRequest sampleEnv
          ("Compile." ++ "\n\nUser-defined compilation rules (FOLLOW THESE):\n" ++
            "- Writing style: terse")
          (documentPrompt sampleEnv styledState "u" sampleDocument ++
            conceptRegistry styledState)] := by decide +kernel
    intro hsame
    unfold SameWithGuidance at hsame
    rw [hplain] at hsame
    cases hsame with
    | cons hfirst _ =>
      have hsystem := congrArg CompletionRequest.system hfirst.1
      revert hsystem
      decide +kernel
  · intro hsame
    have hchunks : chunkedRequests sampleEnv (fun _ ↦ false) ⟨[], [], []⟩ "u" largeDocument ≠
        [] := by decide +kernel
    have hlarge : isLarge largeDocument = true := by decide
    unfold SameWithGuidance requests at hsame
    rw [if_pos hlarge, if_pos hlarge] at hsame
    obtain ⟨r, hr⟩ := List.exists_mem_of_ne_nil _ hchunks
    have hself := List.forall₂_same.mp hsame r hr
    obtain ⟨chunk, -, hchunk⟩ := List.mem_map.mp (mem_of_mem_sendAll hr)
    have hempty := (addsGuidance_self_iff (messages_of_compileRequest hchunk)).mp hself
    revert hempty
    decide +kernel

end WikiMind.Compile
