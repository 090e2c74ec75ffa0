import WikiMind.Compile.Guidance
import WikiMind.Ingest.Documents
import WikiMind.Jobs.CompileSource

/-!
# Recompiling with the points of a discussion

`DiscussionService.compile_with_guidance` (`services/discussion.py:233`) distils a thread to
guidance, stores it in a job row and queues a recompile, which a worker runs later
(`jobs/worker.py:403, 504`). The queue holds the arguments of the worker's function, and the
tables may have changed in between. What a recompile saves is left out, as are the texts of
its errors.
-/

namespace WikiMind.Compile.Discussion

open WikiMind.Base WikiMind.Llm
open WikiMind.Ingest.Documents (Source buildNormalizedDoc)
open WikiMind.Jobs (JobStatus)

/-- A message of a discussion: `models/tables/wiki.py:175`. -/
structure DiscussionMessage where
  articleId : String
  userId : String
  role : String
  content : String
  createdAt : Nat
  deriving DecidableEq, Repr

/-- An article with its legacy column of source ids, decoded: `models/tables/wiki.py:35`. -/
structure Article where
  id : String
  userId : String
  sourceIds : List String
  deriving DecidableEq, Repr

/-- A join row of an article and a source. -/
structure ArticleSource where
  articleId : String
  sourceId : String
  deriving DecidableEq, Repr

/-- A job row: `models/tables/jobs.py:13`. -/
structure Job where
  id : String
  userId : String
  jobType : String
  status : JobStatus
  sourceId : Option String
  articleId : Option String
  resultSummary : Option String
  deriving DecidableEq, Repr

/-- The tables of the discussion and of the worker, and those the prompts are built from. -/
structure Tables where
  articles : List Article
  articleSources : List ArticleSource
  sources : List Source
  messages : List DiscussionMessage
  jobs : List Job
  prompts : Db

/-- The settings of the compiler and the raw storage. -/
structure Env where
  prompts : Compile.Env
  files : Ingest.Documents.Env

/-- The thread of a user about an article, in the order of time:
`services/discussion.py:258–266`. -/
def thread (t : Tables) (articleId userId : String) : List DiscussionMessage :=
  (t.messages.filter fun m ↦ m.articleId = articleId ∧ m.userId = userId).insertionSort
    fun m n ↦ m.createdAt ≤ n.createdAt

/-- The guidance of a thread: `services/discussion.py:269–273`. -/
def distil (messages : List DiscussionMessage) : String :=
  if messages = [] then ""
  else
    let userPoints := (messages.filter (·.role = "user")).map (·.content)
    "User discussion points:\n" ++ "\n".intercalate (userPoints.map ("- " ++ ·))

/-- The sources the join rows of an article name. -/
def joinedSourceIds (t : Tables) (articleId : String) : List String :=
  (t.articleSources.filter (·.articleId = articleId)).map (·.sourceId)

/-- What `schedule_recompile` queues, in mode `source`: `jobs/background.py:169`. -/
structure Task where
  articleId : String
  jobId : String
  userId : String
  deriving DecidableEq, Repr

/-- `DiscussionService.compile_with_guidance`, whose job gets the id `jobId`:
`services/discussion.py:233`. -/
def compileWithGuidance (t : Tables) (jobId articleId userId : String) :
    Except Exc (Task × Tables) :=
  match t.articles.find? (·.id = articleId) with
  | none => .error (.notFound "Article not found")
  | some article =>
    if article.userId ≠ userId then .error (.notFound "Article not found")
    else
      let guidance := distil (thread t articleId userId)
      let sourceIds :=
        if article.sourceIds = [] then joinedSourceIds t articleId else article.sourceIds
      let job : Job := {
        id := jobId
        userId := userId
        jobType := "recompile_article"
        status := .queued
        sourceId := sourceIds.head?
        articleId := some articleId
        resultSummary := (truthy (some guidance)).map (slice 2000) }
      .ok (⟨articleId, jobId, userId⟩, { t with jobs := t.jobs ++ [job] })

/-- `fetch_source_ids_for_article`: `queries/articles.py:56`. -/
def fetchSourceIds (t : Tables) (articleId : String) : List String :=
  match joinedSourceIds t articleId with
  | [] => ((t.articles.find? (·.id = articleId)).map (·.sourceIds)).getD []
  | ids => ids

/-- A document in the form the prompts read. -/
def promptDocument (doc : Ingest.Documents.NormalizedDocument) : NormalizedDocument where
  rawSourceId := doc.rawSourceId
  cleanText := String.ofList doc.cleanText
  title := String.ofList doc.title
  author := doc.author.map String.ofList
  publishedDate := doc.publishedDate
  estimatedTokens := doc.estimatedTokens
  chunks := doc.chunks.map fun chunk ↦ ⟨String.ofList chunk.content, chunk.tokenCount⟩

/-- The source an article is recompiled from, the first of its sources, if it has a file:
`jobs/worker.py:421–435`. -/
def firstSource (t : Tables) (articleId : String) : Except Exc Source :=
  if t.articles.any (·.id = articleId) then
    match fetchSourceIds t articleId with
    | [] => .error .valueError
    | sourceId :: _ =>
      match t.sources.find? (·.id = sourceId) with
      | none => .error .valueError
      | some source => if source.hasFile then .ok source else .error .valueError
  else .error .valueError

/-- What comes from outside of a run of the worker: the calls that raise, and whether what the
compiler returns is saved. -/
structure Attempt where
  raises : CompletionRequest → Bool
  saves : Bool

/-- Change a job row. -/
def Tables.setJob (t : Tables) (jobId : String) (change : Job → Job) : Tables :=
  { t with jobs := Rows.modify (·.id = jobId) change t.jobs }

/-- `_recompile_from_source` up to the compilation, and the requests `compile` sends there:
`jobs/worker.py:403–442`. -/
def recompileFromSource (env : Env) (a : Attempt) (t : Tables) (articleId userId : String) :
    Except Exc (List CompletionRequest) := do
  let source ← firstSource t articleId
  let doc ← buildNormalizedDoc env.files source
  return requests env.prompts a.raises t.prompts userId none (promptDocument doc)

/-- `recompile_article` in mode `source`, with the requests it sends: `jobs/worker.py:504`. -/
def recompileArticle (env : Env) (a : Attempt) (t : Tables) (task : Task) :
    List CompletionRequest × Tables :=
  if t.jobs.any (·.id = task.jobId) then
    let t := t.setJob task.jobId fun j ↦ { j with status := .running }
    let failed := t.setJob task.jobId fun j ↦ { j with status := .failed }
    if t.articles.any (·.id = task.articleId) then
      match recompileFromSource env a t task.articleId task.userId with
      | .error _ => ([], failed)
      | .ok sent =>
        if a.saves then
          (sent, t.setJob task.jobId fun j ↦
            { j with
              status := .complete
              resultSummary := some ("Recompiled article " ++ task.articleId ++ " via source") })
        else (sent, failed)
    else ([], failed)
  else ([], t)

/-- A request has a text in one of its prompts. -/
def mentions (text : String) (r : CompletionRequest) : Bool :=
  occursIn text.toList r.system.toList || r.messages.any fun m ↦ occursIn text.toList m.2.toList

/-- The user's points as guidance: distilled, cut to the length of the job's field, sanitised
and cut to the length of guidance. -/
def pointsText (env : Env) (t : Tables) (articleId userId : String) : String :=
  sanitizeGuidance env.prompts (slice 2000 (distil (thread t articleId userId)))

/-- A recompile queued over the tables `t` and run over the tables `t'` sends a prompt with
the points of the thread, if the user has made one. -/
def CarriesPoints (env : Env) (a : Attempt) (t t' : Tables) (jobId articleId userId : String) :
    Prop :=
  ∀ task queued, compileWithGuidance t jobId articleId userId = .ok (task, queued) →
    (∃ m ∈ thread t articleId userId, m.role = "user") →
      ∃ r ∈ (recompileArticle env a t' task).1, mentions (pointsText env t articleId userId) r

/-- The elements of a list up to the first that meets a condition, with that one. -/
def upTo {α : Type} (p : α → Bool) : List α → List α
  | [] => []
  | x :: xs => x :: if p x then [] else upTo p xs

/-- What `compile` sends one request for: the document, or its chunks that are not large. -/
def parts (doc : NormalizedDocument) : List NormalizedDocument :=
  if isLarge doc then (chunkDocuments doc).filter (! isLarge ·) else [doc]

/-- The user message of `compile` for a part: its fields, text and spans, and the names of the
known concepts. -/
def material (env : Env) (t : Tables) (userId : String) (part : NormalizedDocument) : String :=
  documentPrompt env.prompts t.prompts userId part ++ conceptRegistry t.prompts

/-- A text stands in the system prompt or in the material of a part before a call raises. -/
def Quoted (env : Env) (a : Attempt) (t : Tables) (userId : String) (doc : NormalizedDocument)
    (text : String) : Prop :=
  ∃ system, systemPrompt env.prompts t.prompts userId = .ok system ∧
    ∃ part ∈ upTo (fun part ↦ a.raises (completionRequest env.prompts system
        (material env t userId part))) (parts doc),
      occursIn text.toList system.toList ∨
        occursIn text.toList (material env t userId part).toList

/-- The condition on both states: if the article is the user's and has a message of them, the
job row and the source to compile are still there, and the material of that source has the
words of the points by itself. -/
def PointsInSource (env : Env) (a : Attempt) (t t' : Tables) (jobId articleId userId : String) :
    Prop :=
  (t.articles.find? (·.id = articleId)).any (·.userId = userId) →
    (∃ m ∈ thread t articleId userId, m.role = "user") →
      t'.jobs.any (·.id = jobId) ∧
        ∃ source doc, firstSource t' articleId = .ok source ∧
          buildNormalizedDoc env.files source = .ok doc ∧
          Quoted env a t' userId (promptDocument doc) (pointsText env t articleId userId)

section Pipeline

variable {env : Env} {a : Attempt} {t : Tables} {jobId articleId userId : String}

/-- The call queues the same task for every thread. -/
theorem compileWithGuidance_task {task : Task} {queued : Tables}
    (h : compileWithGuidance t jobId articleId userId = .ok (task, queued)) :
    (t.articles.find? (·.id = articleId)).any (·.userId = userId) ∧
      task = ⟨articleId, jobId, userId⟩ := by
  unfold compileWithGuidance at h
  split at h
  · cases h
  · next article hfound =>
    split at h
    · cases h
    · next howned =>
      cases h
      refine ⟨?_, rfl⟩
      simpa [hfound] using howned

private theorem compileWithGuidance_ok (jobId : String)
    (h : (t.articles.find? (·.id = articleId)).any (·.userId = userId)) :
    ∃ queued, compileWithGuidance t jobId articleId userId =
      .ok (⟨articleId, jobId, userId⟩, queued) := by
  unfold compileWithGuidance
  cases hfound : t.articles.find? (·.id = articleId) with
  | none => simp [hfound] at h
  | some article =>
    have howned : ¬ article.userId ≠ userId := by simpa [hfound] using h
    simp only [if_neg howned]
    exact ⟨_, rfl⟩

/-- A recompile starts from an existing article. -/
theorem any_of_firstSource {source : Source} (h : firstSource t articleId = .ok source) :
    t.articles.any (·.id = articleId) = true := by
  unfold firstSource at h
  split at h
  · assumption
  · cases h

private theorem recompileFromSource_eq_ok {sent : List CompletionRequest} :
    recompileFromSource env a t articleId userId = .ok sent ↔
      ∃ source, firstSource t articleId = .ok source ∧
        ∃ doc, buildNormalizedDoc env.files source = .ok doc ∧
          requests env.prompts a.raises t.prompts userId none (promptDocument doc) = sent := by
  unfold recompileFromSource
  simp only [bind_eq_ok, pure, Except.pure, Except.ok.injEq]

/-- The requests of a run of the worker are those of its compilation; the status of the job
row does not matter to them. -/
theorem recompileArticle_requests {task : Task} :
    (recompileArticle env a t task).1 =
      if t.jobs.any (·.id = task.jobId) ∧ t.articles.any (·.id = task.articleId) then
        (recompileFromSource env a t task.articleId task.userId).toOption.getD []
      else [] := by
  have hrows : recompileFromSource env a
      (t.setJob task.jobId fun j ↦ { j with status := .running }) task.articleId task.userId =
        recompileFromSource env a t task.articleId task.userId := rfl
  have harticles : (t.setJob task.jobId fun j ↦ { j with status := .running }).articles =
      t.articles := rfl
  unfold recompileArticle
  by_cases hjob : t.jobs.any (·.id = task.jobId) = true
  · by_cases harticle : t.articles.any (·.id = task.articleId) = true
    · simp only [if_pos hjob, harticles, if_pos harticle, hrows, if_pos (And.intro hjob harticle)]
      cases recompileFromSource env a t task.articleId task.userId with
      | error e => rfl
      | ok sent => cases a.saves <;> rfl
    · simp [hjob, harticles, harticle]
  · simp [hjob]

/-- The requests are the same whatever was discussed, and whatever else the job rows hold. -/
theorem recompileArticle_of_discussion {task : Task} (messages : List DiscussionMessage)
    {change : Job → Job} (hid : ∀ j, (change j).id = j.id) :
    (recompileArticle env a { t with messages, jobs := t.jobs.map change } task).1 =
      (recompileArticle env a t task).1 := by
  have hrows : recompileFromSource env a { t with messages, jobs := t.jobs.map change }
      task.articleId task.userId =
        recompileFromSource env a t task.articleId task.userId := rfl
  have hjobs : (t.jobs.map change).any (·.id = task.jobId) = t.jobs.any (·.id = task.jobId) := by
    simp [List.any_map, Function.comp_def, hid]
  rw [recompileArticle_requests, recompileArticle_requests, hrows, hjobs]

/-- The requests of a queued recompile are those of a plain compilation of the source, over
the tables the worker finds. -/
theorem mem_recompileArticle {task : Task} {r : CompletionRequest} :
    r ∈ (recompileArticle env a t task).1 ↔
      t.jobs.any (·.id = task.jobId) ∧
        ∃ source doc, firstSource t task.articleId = .ok source ∧
          buildNormalizedDoc env.files source = .ok doc ∧
          r ∈ requests env.prompts a.raises t.prompts task.userId none (promptDocument doc) := by
  rw [recompileArticle_requests]
  constructor
  · intro hr
    split at hr
    · next hrows =>
      cases hrun : recompileFromSource env a t task.articleId task.userId with
      | error e => simp [hrun, Except.toOption] at hr
      | ok sent =>
        obtain ⟨source, hsource, doc, hdoc, rfl⟩ := recompileFromSource_eq_ok.mp hrun
        rw [hrun] at hr
        exact ⟨hrows.1, source, doc, hsource, hdoc, hr⟩
    · cases hr
  · rintro ⟨hjob, source, doc, hsource, hdoc, hr⟩
    have hrun : recompileFromSource env a t task.articleId task.userId =
        .ok (requests env.prompts a.raises t.prompts task.userId none (promptDocument doc)) :=
      recompileFromSource_eq_ok.mpr ⟨source, hsource, doc, hdoc, rfl⟩
    rw [if_pos ⟨hjob, any_of_firstSource hsource⟩, hrun]
    exact hr

private theorem upTo_sendAll {raises : CompletionRequest → Bool} {α : Type}
    (f : α → CompletionRequest)
    (xs : List α) : sendAll raises (xs.map fun x ↦ .ok (f x)) =
      (upTo (fun x ↦ raises (f x)) xs).map f := by
  induction xs with
  | nil => rfl
  | cons x xs ih =>
    simp only [List.map_cons, sendAll, upTo]
    split
    · rfl
    · rw [ih]

/-- What a plain compilation sends, part by part. -/
theorem requests_of_ok {d : Db} {system : String} {doc : NormalizedDocument}
    {env : Compile.Env} {raises : CompletionRequest → Bool}
    (h : systemPrompt env d userId = .ok system) :
    requests env raises d userId none doc =
      (upTo (fun part ↦ raises (completionRequest env system
          (documentPrompt env d userId part ++ conceptRegistry d))) (parts doc)).map
        fun part ↦ completionRequest env system
          (documentPrompt env d userId part ++ conceptRegistry d) := by
  have hbuilt : compileRequest env d userId = fun part ↦ .ok (completionRequest env system
      (documentPrompt env d userId part ++ conceptRegistry d)) :=
    funext fun part ↦ compileRequest_of_ok h part
  rw [← upTo_sendAll, ← hbuilt]
  unfold requests parts chunkedRequests
  split
  · rfl
  · rfl

/-- A plain compilation sends nothing where the system prompt cannot be built. -/
theorem requests_of_error {d : Db} {e : Exc} {doc : NormalizedDocument} {env : Compile.Env}
    {raises : CompletionRequest → Bool} (h : systemPrompt env d userId = .error e) :
    requests env raises d userId none doc = [] := by
  unfold requests chunkedRequests
  split
  · exact sendAll_of_error h _
  · exact sendAll_of_error h [doc]

private theorem mentions_completionRequest {env : Compile.Env} {text system prompt : String} :
    mentions text (completionRequest env system prompt) ↔
      occursIn text.toList system.toList ∨ occursIn text.toList prompt.toList := by
  simp [mentions, completionRequest]

/-- A plain compilation mentions a text precisely where its material does. -/
theorem exists_mentions_iff {doc : NormalizedDocument} {text : String} :
    (∃ r ∈ requests env.prompts a.raises t.prompts userId none doc, mentions text r) ↔
      Quoted env a t userId doc text := by
  unfold Quoted material
  cases hsystem : systemPrompt env.prompts t.prompts userId with
  | error e => simp [requests_of_error hsystem]
  | ok system =>
    rw [requests_of_ok hsystem]
    simp only [List.mem_map, exists_exists_and_eq_and, Except.ok.injEq, exists_eq_left',
      mentions_completionRequest]

end Pipeline

/-- A queued recompile carries the points of the discussion precisely where the source it
compiles happens to say the same already. -/
theorem carriesPoints_iff (env : Env) (a : Attempt) (t t' : Tables)
    (jobId articleId userId : String) :
    CarriesPoints env a t t' jobId articleId userId ↔
      PointsInSource env a t t' jobId articleId userId := by
  unfold CarriesPoints PointsInSource
  constructor
  · intro h howned hpoint
    obtain ⟨queued, hcall⟩ := compileWithGuidance_ok jobId howned
    obtain ⟨r, hr, hmentions⟩ := h _ _ hcall hpoint
    obtain ⟨hjob, source, doc, hsource, hdoc, hr⟩ := mem_recompileArticle.mp hr
    exact ⟨hjob, source, doc, hsource, hdoc, exists_mentions_iff.mp ⟨r, hr, hmentions⟩⟩
  · intro h task queued hcall hpoint
    obtain ⟨howned, rfl⟩ := compileWithGuidance_task hcall
    obtain ⟨hjob, source, doc, hsource, hdoc, hquoted⟩ := h howned hpoint
    obtain ⟨r, hr, hmentions⟩ := exists_mentions_iff.mpr hquoted
    exact ⟨r, mem_recompileArticle.mpr ⟨hjob, source, doc, hsource, hdoc, hr⟩, hmentions⟩

/-- Settings for runs on fixed inputs, without files. -/
def sampleEnv : Env :=
  ⟨⟨"Compile.", 100, 1000, 2000, fun _ ↦ none⟩,
    ⟨fun _ ↦ "", fun _ _ ↦ .error .valueError, fun _ _ ↦ .ok ()⟩⟩

/-- A user's article, its source and one point of the user, with some job rows. -/
def sampleTables (jobs : List Job) : Tables where
  articles := [⟨"a", "u", ["s"]⟩]
  articleSources := [⟨"a", "s"⟩]
  sources := [⟨"s", "u", "h", some "Note".toList, none, none, some 1, some "s.txt".toList,
    some "Text.".toList⟩]
  messages := [⟨"a", "u", "user", "Focus on costs.", 1⟩]
  jobs
  prompts := ⟨[], [], []⟩

/-- The job row of the user's point. -/
def sampleJob : Job :=
  ⟨"j", "u", "recompile_article", .queued, some "s", some "a",
    some "User discussion points:\n- Focus on costs."⟩

/-- The worker has the job row with the user's point, and sends a prompt without it. -/
theorem points_dropped :
    compileWithGuidance (sampleTables []) "j" "a" "u" =
        .ok (⟨"a", "j", "u"⟩, sampleTables [sampleJob]) ∧
      ¬ CarriesPoints sampleEnv ⟨fun _ ↦ false, true⟩ (sampleTables []) (sampleTables [sampleJob])
        "j" "a" "u" := by
  have hcall : compileWithGuidance (sampleTables []) "j" "a" "u" =
      .ok (⟨"a", "j", "u"⟩, sampleTables [sampleJob]) := by rfl
  have hsilent : (recompileArticle sampleEnv ⟨fun _ ↦ false, true⟩ (sampleTables [sampleJob])
      ⟨"a", "j", "u"⟩).1.all
        (! mentions (pointsText sampleEnv (sampleTables []) "a" "u") ·) = true := by
    decide +kernel
  refine ⟨hcall, fun hcarries ↦ ?_⟩
  obtain ⟨r, hr, hmentions⟩ := hcarries _ _ hcall (by decide)
  have hno := List.all_eq_true.mp hsilent r hr
  rw [hmentions] at hno
  cases hno

end WikiMind.Compile.Discussion
