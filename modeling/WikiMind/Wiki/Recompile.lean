import WikiMind.Jobs.CompileSource
import WikiMind.Wiki.Pages

/-!
# Recompiling a concept page

`recompile_article` in mode `concept` (`jobs/worker.py:504`) looks a concept up by the name
the article carries and saves its page (`engine/concept_compiler.py:172`) in several
transactions, over the tables of all users. A run is given what comes from outside: the
completion, the rendered file, the time and the stages that fail. The search index, which
follows the article, and the log rows of the model call are left out.
-/

namespace WikiMind.Wiki.Recompile

open WikiMind.Base WikiMind.Llm WikiMind.Wiki
open WikiMind.Compile (TextEnv ArticleConcept Backlink)
open WikiMind.Jobs (JobStatus)

/-- An article: `models/tables/wiki.py:35`. -/
structure Article where
  id : Nat
  userId : String
  slug : String
  title : String
  summary : String
  filePath : String
  conceptIds : List String
  sourceIds : List Nat
  provider : Option Provider
  pageType : PageType
  updatedAt : Nat
  deriving DecidableEq, Repr

/-- A join row; a concept page stores the ids of its source articles:
`engine/concept_compiler.py:233`. -/
structure ArticleSource where
  articleId : Nat
  sourceId : Nat
  deriving DecidableEq, Repr

/-- A concept: `models/tables/wiki.py:146`. -/
structure Concept where
  id : String
  userId : String
  name : String
  conceptKind : String
  deriving DecidableEq, Repr

/-- A kind of concepts: `models/tables/wiki.py:136`. -/
structure ConceptKindDef where
  name : String
  promptTemplateKey : String
  deriving DecidableEq, Repr

/-- A job row: `models/tables/jobs.py:13`. -/
structure Job where
  id : Nat
  userId : String
  status : JobStatus
  deriving DecidableEq, Repr

/-- The tables and the files of all users. A file is named by user and path, the latest
write first. -/
structure Db where
  articles : List Article
  nextId : Nat
  articleConcepts : List ArticleConcept
  articleSources : List ArticleSource
  backlinks : List Backlink
  concepts : List Concept
  kinds : List ConceptKindDef
  jobs : List Job
  files : List ((String × String) × String)

/-- What a completion for a concept page is used for: `models/dto/compilation.py:73`. -/
structure ConceptCompilationResult where
  title : String
  overview : String
  relatedConcepts : List String

/-- The transactions of a save in their order. -/
inductive Stage where
  | row | file | joins | index | synthesizes | related
  deriving DecidableEq, Repr

/-- One run: the time, the provider and its parsed completion, if any, the rendered file, and
the stages that fail when they are reached. -/
structure Attempt where
  now : Nat
  provider : Option Provider
  completion : Option ConceptCompilationResult
  text : String
  fails : Stage → Bool

/-- The libraries and settings: the slugs, the keys of the prompt templates and the least
number of sources of a concept page. -/
structure Env extends TextEnv where
  templates : List String
  minSources : Nat

/-- `slugify(name)`. -/
def Env.key (env : Env) (name : String) : String := env.slugify none name

/-- `fetch_concept_names_for_article`: `queries/articles.py:87`. -/
def fetchConceptNames (db : Db) (articleId : Nat) : List String :=
  match (db.articleConcepts.filter (·.articleId = articleId)).map (·.conceptName) with
  | [] => ((db.articles.find? (·.id = articleId)).map (·.conceptIds)).getD []
  | names => names

/-- The look-ups of `_recompile_from_concept`; the first row with the name is taken,
whoever owns it. `jobs/worker.py:470–488`. -/
def selectConcept (db : Db) (articleId : Nat) : Except Exc Concept :=
  if db.articles.any (·.id = articleId) then
    match fetchConceptNames db articleId with
    | [] => .error .valueError
    | name :: _ =>
      match db.concepts.find? (·.name = name) with
      | none => .error .valueError
      | some concept => .ok concept
  else .error .valueError

/-- `_load_kind_def`: `engine/concept_compiler.py:168`. -/
def loadKindDef (db : Db) (kind : String) : Except Exc (Option ConceptKindDef) :=
  Rows.oneOrNone (·.name = kind) db.kinds

/-- Whether there is a prompt template for a kind: `engine/concept_compiler.py:112–117`. -/
def hasTemplate (env : Env) (db : Db) (kind : String) : Except Exc Bool := do
  let found ← loadKindDef db kind
  let kindDef ← if found.isSome then pure found else loadKindDef db "topic"
  return kindDef.any (·.promptTemplateKey ∈ env.templates)

/-- `_collect_source_articles`: `engine/concept_compiler.py:42`. -/
def collectSourceArticles (env : Env) (userId : String) (db : Db) (name : String) :
    List Article :=
  db.articles.filter fun x ↦
    x.pageType = .source ∧ (userId = "" ∨ x.userId = userId) ∧
      db.articleConcepts.any fun ac ↦ ac.articleId = x.id ∧ ac.conceptName = env.key name

/-- `compile_concept_page` up to the save: the completion and the source articles.
`engine/concept_compiler.py:109–152`. -/
def prepare (env : Env) (userId : String) (db : Db) (a : Attempt) (concept : Concept) :
    Except Exc (Option (ConceptCompilationResult × List Article)) := do
  if ← hasTemplate env db concept.conceptKind then
    let sources := collectSourceArticles env userId db concept.name
    if sources.length < env.minSources then return none
    else return a.completion.map (·, sources)
  else return none

/-- `_find_existing_concept_article`: `engine/concept_compiler.py:251`. -/
def findExisting (env : Env) (userId : String) (db : Db) (name : String) :
    Except Exc (Option Article) :=
  Rows.oneOrNone
    (fun x ↦ x.slug = "concept-" ++ env.key name ∧ x.pageType = .concept ∧ x.userId = userId)
    db.articles

/-- The unique constraint on user and slug, for another row than `old`. -/
def Db.taken (db : Db) (userId slug : String) (old : Option Nat) : Bool :=
  db.articles.any fun x ↦ x.userId = userId ∧ x.slug = slug ∧ some x.id ≠ old

/-- The new values of a page: `engine/concept_compiler.py:186–196`. -/
def applyFields (env : Env) (a : Attempt) (concept : Concept)
    (compilation : ConceptCompilationResult) (sources : List Article) (x : Article) : Article :=
  { x with
    title := compilation.title
    summary := compilation.overview
    filePath := env.key concept.name ++ "/" ++ env.key concept.name ++ ".md"
    conceptIds := [concept.name]
    sourceIds := sources.map (·.id)
    provider := a.provider
    updatedAt := a.now
    pageType := .concept
    userId := concept.userId }

/-- A row without values yet, with the key and slug of a new page. -/
def blank (env : Env) (db : Db) (concept : Concept) : Article :=
  { id := db.nextId, userId := concept.userId, slug := "concept-" ++ env.key concept.name
    title := "", summary := "", filePath := "", conceptIds := [], sourceIds := []
    provider := none, pageType := .concept, updatedAt := 0 }

/-- Without the synthesis links and join rows of a page: `engine/concept_compiler.py:198–213`. -/
def Db.clear (db : Db) (articleId : Nat) : Db :=
  { db with
    backlinks := db.backlinks.filter fun b ↦
      ¬ (b.sourceArticleId = articleId ∧ b.relationType = "synthesizes")
    articleConcepts := db.articleConcepts.filter (·.articleId ≠ articleId)
    articleSources := db.articleSources.filter (·.articleId ≠ articleId) }

/-- The first transaction of `_save_concept_page`, which replaces the page or inserts it:
`engine/concept_compiler.py:180–230`. -/
def saveRow (env : Env) (userId : String) (db : Db) (a : Attempt) (concept : Concept)
    (compilation : ConceptCompilationResult) (sources : List Article) :
    Except Exc (Article × Db) := do
  let existing ← findExisting env userId db concept.name
  let slug := "concept-" ++ env.key concept.name
  if a.fails .row ∨ db.taken concept.userId slug (existing.map (·.id)) then .error .integrityError
  else
    let apply := applyFields env a concept compilation sources
    match existing with
    | some old =>
      let articles := Rows.modify (·.id = old.id) apply db.articles
      return (apply old, { db with articles }.clear old.id)
    | none =>
      let article := apply (blank env db concept)
      return (article, { db with articles := db.articles ++ [article], nextId := db.nextId + 1 })

/-- `storage.write`. -/
def Db.write (db : Db) (userId path text : String) : Db :=
  { db with files := ((userId, path), text) :: db.files }

/-- The file of a user at a path. -/
def Db.fileAt (db : Db) (userId path : String) : Option String := db.files.lookup (userId, path)

/-- Insert a link; nothing is done when its key exists. -/
def Db.link (db : Db) (source target : Nat) (userId context relationType : String) : Db :=
  if db.backlinks.any fun b ↦ b.sourceArticleId = source ∧ b.targetArticleId = target then db
  else { db with backlinks := db.backlinks ++ [⟨source, target, userId, context, relationType⟩] }

/-- The join rows: `engine/concept_compiler.py:235–238`. -/
def addJoins (concept : Concept) (sources : List Article) (article : Article) (db : Db) : Db :=
  { db with
    articleConcepts := db.articleConcepts ++ [⟨article.id, concept.name⟩]
    articleSources := db.articleSources ++ sources.map fun x ↦ ⟨article.id, x.id⟩ }

/-- `_create_synthesizes_links`: `engine/base_compiler.py:138`. -/
def addSynthesizes (userId : String) (sources : List Article) (article : Article) (db : Db) :
    Db :=
  sources.foldl (fun db x ↦ db.link article.id x.id userId
    "Concept page synthesizes from source article" "synthesizes") db

/-- One round of `_create_related_to_links`: `engine/concept_compiler.py:340–366`. -/
def addRelated (env : Env) (userId : String) (article : Article) (db : Db) (name : String) :
    Except Exc Db := do
  if env.key name = "" then return db
  match ← findExisting env userId db name with
  | none => return db
  | some target =>
    let context := "Related: " ++ article.title ++ " <-> " ++ target.title
    return (db.link article.id target.id userId context "related_to").link target.id article.id
      userId context "related_to"

/-- The transactions of `_save_concept_page` after the first:
`engine/concept_compiler.py:231–249`. -/
def laterSteps (env : Env) (userId : String) (a : Attempt) (concept : Concept)
    (compilation : ConceptCompilationResult) (sources : List Article) (article : Article) :
    List (Stage × (Db → Except Exc Db)) :=
  [(.file, fun db ↦ .ok (db.write concept.userId article.filePath a.text)),
   (.joins, fun db ↦ .ok (addJoins concept sources article db)),
   (.index, fun db ↦ .ok db),
   (.synthesizes, fun db ↦ .ok (addSynthesizes userId sources article db)),
   (.related, fun db ↦
      compilation.relatedConcepts.foldlM (addRelated env userId article) db)]

/-- Perform transactions up to the first that fails. -/
def perform (fails : Stage → Bool) :
    Db → List (Stage × (Db → Except Exc Db)) → Except Exc Unit × Db
  | db, [] => (.ok (), db)
  | db, (stage, work) :: rest =>
    match if fails stage then .error (.runtimeError "save") else work db with
    | .error e => (.error e, db)
    | .ok db' => perform fails db' rest

/-- `compile_concept_page`, with the page it saves: `engine/concept_compiler.py:109`. -/
def compileConceptPage (env : Env) (userId : String) (db : Db) (a : Attempt)
    (concept : Concept) : Except Exc (Option Article) × Db :=
  match prepare env userId db a concept with
  | .error e => (.error e, db)
  | .ok none => (.ok none, db)
  | .ok (some (compilation, sources)) =>
    match saveRow env userId db a concept compilation sources with
    | .error e => (.error e, db)
    | .ok (article, saved) =>
      let (result, db') := perform a.fails saved
        (laterSteps env userId a concept compilation sources article)
      (result.map fun _ ↦ some article, db')

/-- `_recompile_from_concept`: `jobs/worker.py:455`. -/
def recompileFromConcept (env : Env) (userId : String) (db : Db) (a : Attempt)
    (articleId : Nat) : Except Exc Unit × Db :=
  match selectConcept db articleId with
  | .error e => (.error e, db)
  | .ok concept =>
    match compileConceptPage env userId db a concept with
    | (.ok (some _), db') => (.ok (), db')
    | (.ok none, db') => (.error .valueError, db')
    | (.error e, db') => (.error e, db')

/-- The status of a job. -/
def Db.setJob (db : Db) (jobId : Nat) (status : JobStatus) : Db :=
  { db with jobs := Rows.modify (·.id = jobId) (fun j ↦ { j with status }) db.jobs }

/-- `recompile_article` in mode `concept`: `jobs/worker.py:504`. -/
def recompileArticle (env : Env) (userId : String) (db : Db) (a : Attempt)
    (articleId jobId : Nat) : Db :=
  if db.jobs.any (·.id = jobId) then
    let db := db.setJob jobId .running
    if db.articles.any (·.id = articleId) then
      match recompileFromConcept env userId db a articleId with
      | (.ok (), db') => db'.setJob jobId .complete
      | (.error _, db') => db'.setJob jobId .failed
    else db.setJob jobId .failed
  else db

/-- The article belongs to the user. -/
def Db.owns (db : Db) (userId : String) (articleId : Nat) : Bool :=
  db.articles.any fun x ↦ x.id = articleId ∧ x.userId = userId

/-- The rows and files of all other users are the same. Join rows belong to the user of
their article. -/
structure SameForOthers (userId : String) (db db' : Db) : Prop where
  articles : db'.articles.filter (·.userId ≠ userId) = db.articles.filter (·.userId ≠ userId)
  articleConcepts : db'.articleConcepts.filter (! db'.owns userId ·.articleId) =
    db.articleConcepts.filter (! db.owns userId ·.articleId)
  articleSources : db'.articleSources.filter (! db'.owns userId ·.articleId) =
    db.articleSources.filter (! db.owns userId ·.articleId)
  backlinks : db'.backlinks.filter (·.userId ≠ userId) = db.backlinks.filter (·.userId ≠ userId)
  concepts : db'.concepts.filter (·.userId ≠ userId) = db.concepts.filter (·.userId ≠ userId)
  jobs : db'.jobs.filter (·.userId ≠ userId) = db.jobs.filter (·.userId ≠ userId)
  files : ∀ v path, v ≠ userId → db'.fileAt v path = db.fileAt v path

/-- The keys of articles are unique, and join rows have an article of the past. -/
structure Db.Keyed (db : Db) : Prop where
  nodup : (db.articles.map (·.id)).Nodup
  articles : ∀ x ∈ db.articles, x.id < db.nextId
  articleConcepts : ∀ ac ∈ db.articleConcepts, ac.articleId < db.nextId
  articleSources : ∀ as ∈ db.articleSources, as.articleId < db.nextId

/-- The first transaction of the save is committed: it does not fail, the user has one page
at most to replace, and the owner of the concept no other article with that slug. -/
def CommitsRow (env : Env) (userId : String) (db : Db) (a : Attempt) (concept : Concept) : Prop :=
  a.fails .row = false ∧ ∃ existing, findExisting env userId db concept.name = .ok existing ∧
    db.taken concept.userId ("concept-" ++ env.key concept.name) (existing.map (·.id)) = false

/-- If the run gets to commit a page, the concept it found is one of the user, and no other
user has a synthesis link from the page it replaces. -/
def FindsOwn (env : Env) (userId : String) (db : Db) (a : Attempt) (articleId jobId : Nat) :
    Prop :=
  ∀ concept compilation sources, db.jobs.any (·.id = jobId) = true →
    selectConcept db articleId = .ok concept →
    prepare env userId db a concept = .ok (some (compilation, sources)) →
    CommitsRow env userId db a concept →
    concept.userId = userId ∧ ∀ old, findExisting env userId db concept.name = .ok (some old) →
      ∀ b ∈ db.backlinks, b.sourceArticleId = old.id → b.relationType = "synthesizes" →
        b.userId = userId

section
variable {env : Env} {userId : String} {db db' db'' : Db} {a : Attempt} {concept : Concept}
  {compilation : ConceptCompilationResult} {sources : List Article} {article : Article}

theorem SameForOthers.refl (userId : String) (db : Db) : SameForOthers userId db db :=
  ⟨rfl, rfl, rfl, rfl, rfl, rfl, fun _ _ _ ↦ rfl⟩

theorem SameForOthers.trans (h : SameForOthers userId db db')
    (h' : SameForOthers userId db' db'') : SameForOthers userId db db'' where
  articles := h'.articles.trans h.articles
  articleConcepts := h'.articleConcepts.trans h.articleConcepts
  articleSources := h'.articleSources.trans h.articleSources
  backlinks := h'.backlinks.trans h.backlinks
  concepts := h'.concepts.trans h.concepts
  jobs := h'.jobs.trans h.jobs
  files v path hv := (h'.files v path hv).trans (h.files v path hv)

theorem SameForOthers.symm (h : SameForOthers userId db db') : SameForOthers userId db' db :=
  ⟨h.articles.symm, h.articleConcepts.symm, h.articleSources.symm, h.backlinks.symm,
    h.concepts.symm, h.jobs.symm, fun v path hv ↦ (h.files v path hv).symm⟩

/-- A step that leaves the articles, the jobs, and the rows and files of others. -/
structure Later (userId : String) (db db' : Db) : Prop where
  articles : db'.articles = db.articles
  jobs : db'.jobs = db.jobs
  same : SameForOthers userId db db'

theorem Later.refl (userId : String) (db : Db) : Later userId db db :=
  ⟨rfl, rfl, .refl userId db⟩

theorem Later.trans (h : Later userId db db') (h' : Later userId db' db'') :
    Later userId db db'' :=
  ⟨h'.articles.trans h.articles, h'.jobs.trans h.jobs, h.same.trans h'.same⟩

private theorem later_write {path text : String} : Later userId db (db.write userId path text) := by
  refine ⟨rfl, rfl, { SameForOthers.refl userId db with files := ?_ }⟩
  intro v path' hv
  unfold Db.fileAt Db.write
  rw [List.lookup_cons]
  have hne : ((v, path') == (userId, path)) = false := by simp [hv]
  rw [hne]

private theorem later_link {source target : Nat} {context relationType : String} :
    Later userId db (db.link source target userId context relationType) := by
  unfold Db.link
  split
  · exact .refl userId db
  · refine ⟨rfl, rfl, { SameForOthers.refl userId db with backlinks := ?_ }⟩
    simp

/-- What a link keeps, the links from a page to its sources keep. -/
theorem addSynthesizes_induct {P : Db → Prop}
    (hlink : ∀ d source target context relationType, P d →
      P (d.link source target userId context relationType)) (h : P db) :
    P (addSynthesizes userId sources article db) := by
  unfold addSynthesizes
  induction sources generalizing db with
  | nil => exact h
  | cons x rest ih => exact ih (hlink _ _ _ _ _ h)

/-- What a link keeps, a round over the related concepts keeps. -/
theorem addRelated_induct {P : Db → Prop} {name : String}
    (hlink : ∀ d source target context relationType, P d →
      P (d.link source target userId context relationType)) (h : P db)
    (hrelated : addRelated env userId article db name = .ok db') : P db' := by
  unfold addRelated at hrelated
  split at hrelated
  · cases hrelated
    exact h
  · obtain ⟨found, -, hrelated⟩ := bind_eq_ok.mp hrelated
    cases found with
    | none =>
      cases hrelated
      exact h
    | some target =>
      cases hrelated
      exact hlink _ _ _ _ _ (hlink _ _ _ _ _ h)

/-- What a link keeps, the links to the related concepts keep. -/
theorem related_induct {P : Db → Prop} {names : List String}
    (hlink : ∀ d source target context relationType, P d →
      P (d.link source target userId context relationType)) (h : P db)
    (hrelated : names.foldlM (addRelated env userId article) db = .ok db') : P db' := by
  induction names generalizing db with
  | nil =>
    cases hrelated
    exact h
  | cons name rest ih =>
    rw [List.foldlM_cons] at hrelated
    obtain ⟨next, hnext, hrest⟩ := bind_eq_ok.mp hrelated
    exact ih (addRelated_induct hlink h hnext) hrest

private theorem later_addSynthesizes : Later userId db (addSynthesizes userId sources article db) :=
  addSynthesizes_induct (fun _ _ _ _ _ h ↦ h.trans later_link) (.refl userId db)

private theorem later_related {names : List String}
    (h : names.foldlM (addRelated env userId article) db = .ok db') : Later userId db db' :=
  related_induct (fun _ _ _ _ _ h ↦ h.trans later_link) (.refl userId db) h

private theorem later_addJoins (howns : db.owns userId article.id = true) :
    Later userId db (addJoins concept sources article db) := by
  have howns' : ∀ id, (addJoins concept sources article db).owns userId id = db.owns userId id :=
    fun _ ↦ rfl
  refine ⟨rfl, rfl, { SameForOthers.refl userId db with
    articleConcepts := ?_
    articleSources := ?_ }⟩
  · simp only [howns']
    simp [addJoins, howns]
  · simp only [howns']
    simp [addJoins, howns, List.filter_map, Function.comp_def]

/-- A property that every transaction keeps holds after a part of them too. -/
theorem perform_induct {P : Db → Prop} {fails : Stage → Bool}
    {steps : List (Stage × (Db → Except Exc Db))}
    (hstep : ∀ step ∈ steps, ∀ d d', P d → step.2 d = .ok d' → P d') (h : P db) :
    P (perform fails db steps).2 := by
  induction steps generalizing db with
  | nil => exact h
  | cons step rest ih =>
    unfold perform
    split
    · exact h
    next d' hwork =>
      have hd' : P d' := by
        split at hwork
        · cases hwork
        · exact hstep step (List.mem_cons_self ..) db d' h hwork
      exact ih (fun s hs ↦ hstep s (List.mem_cons_of_mem step hs)) hd'

private theorem owns_congr (harticles : db'.articles = db.articles) (id : Nat) :
    db'.owns userId id = db.owns userId id := by
  unfold Db.owns
  rw [harticles]

/-- After the first transaction, nothing of another user is touched in a page of one's own. -/
theorem later_perform (hconcept : concept.userId = userId)
    (howns : db.owns userId article.id = true) :
    Later userId db (perform a.fails db
      (laterSteps env userId a concept compilation sources article)).2 := by
  apply perform_induct (P := Later userId db)
  · intro step hstep d d' hd hwork
    simp only [laterSteps, List.mem_cons, List.not_mem_nil, or_false] at hstep
    rcases hstep with rfl | rfl | rfl | rfl | rfl
    · cases hwork
      rw [hconcept]
      exact hd.trans later_write
    · cases hwork
      exact hd.trans (later_addJoins (by rw [owns_congr hd.articles]; exact howns))
    · cases hwork
      exact hd
    · cases hwork
      exact hd.trans later_addSynthesizes
    · exact hd.trans (later_related hwork)
  · exact .refl userId db

/-- After the first transaction the articles are settled, and the jobs are no part of it. -/
theorem settled_perform (env : Env) (userId : String) (db : Db) (a : Attempt)
    (concept : Concept) (compilation : ConceptCompilationResult) (sources : List Article)
    (article : Article) (d : Db)
    (hd : d = (perform a.fails db
      (laterSteps env userId a concept compilation sources article)).2) :
    d.articles = db.articles ∧ d.jobs = db.jobs := by
  subst hd
  apply perform_induct (P := fun d ↦ d.articles = db.articles ∧ d.jobs = db.jobs)
  · intro step hstep d d' hd hwork
    have hlater : ∀ {v}, Later v d d' → d'.articles = db.articles ∧ d'.jobs = db.jobs :=
      fun h ↦ ⟨h.articles.trans hd.1, h.jobs.trans hd.2⟩
    simp only [laterSteps, List.mem_cons, List.not_mem_nil, or_false] at hstep
    rcases hstep with rfl | rfl | rfl | rfl | rfl
    · cases hwork
      exact hd
    · cases hwork
      exact hd
    · cases hwork
      exact hd
    · cases hwork
      exact hlater later_addSynthesizes
    · exact hlater (later_related hwork)
  · exact ⟨rfl, rfl⟩

/-- The page found is a page of the user. -/
theorem mem_of_findExisting {name : String} {old : Article}
    (h : findExisting env userId db name = .ok (some old)) :
    old ∈ db.articles ∧ old.userId = userId := by
  have hprop := Rows.prop_of_oneOrNone h
  simp only [decide_eq_true_eq] at hprop
  exact ⟨Rows.mem_of_oneOrNone h, hprop.2.2⟩

/-- What the first transaction leaves. -/
theorem saveRow_eq_ok (compilation : ConceptCompilationResult) (sources : List Article)
    (hcommits : CommitsRow env userId db a concept) :
    (∃ old, findExisting env userId db concept.name = .ok (some old) ∧
      saveRow env userId db a concept compilation sources =
        .ok (applyFields env a concept compilation sources old,
          { db with
            articles := Rows.modify (·.id = old.id)
              (applyFields env a concept compilation sources) db.articles }.clear old.id)) ∨
    (findExisting env userId db concept.name = .ok none ∧
      saveRow env userId db a concept compilation sources =
        .ok (applyFields env a concept compilation sources (blank env db concept),
          { db with
            articles := db.articles ++
              [applyFields env a concept compilation sources (blank env db concept)]
            nextId := db.nextId + 1 })) := by
  obtain ⟨hfails, existing, hexisting, htaken⟩ := hcommits
  have hnot : ¬ (a.fails .row = true ∨ db.taken concept.userId
      ("concept-" ++ env.key concept.name) (existing.map (·.id)) = true) := by
    simp [hfails, htaken]
  unfold saveRow
  rw [hexisting]
  cases existing with
  | some old =>
    left
    exact ⟨old, rfl, if_neg hnot⟩
  | none =>
    right
    exact ⟨rfl, if_neg hnot⟩

/-- No row is committed where the first transaction fails. -/
theorem saveRow_error (compilation : ConceptCompilationResult) (sources : List Article)
    (hcommits : ¬ CommitsRow env userId db a concept) :
    ∃ e, saveRow env userId db a concept compilation sources = .error e := by
  unfold saveRow
  cases hexisting : findExisting env userId db concept.name with
  | error e => exact ⟨e, rfl⟩
  | ok existing =>
    have hstops : a.fails .row = true ∨ db.taken concept.userId
        ("concept-" ++ env.key concept.name) (existing.map (·.id)) = true := by
      by_contra hnot
      simp only [not_or, Bool.not_eq_true] at hnot
      exact hcommits ⟨hnot.1, existing, hexisting, hnot.2⟩
    exact ⟨.integrityError, if_pos hstops⟩

/-- Rewriting a page of the user for the user leaves what others own. -/
theorem owns_modify {f : Article → Article} {old : Article} (hkeyed : db.Keyed)
    (hold : old ∈ db.articles) (huser : old.userId = userId) (hid : ∀ x, (f x).id = x.id)
    (hf : ∀ x, (f x).userId = userId) (id : Nat) :
    (Rows.modify (·.id = old.id) f db.articles).any (fun x ↦ x.id = id ∧ x.userId = userId) =
      db.owns userId id := by
  unfold Db.owns Rows.modify
  rw [List.any_map, Bool.eq_iff_iff, List.any_eq_true, List.any_eq_true]
  apply exists_congr
  intro x
  apply and_congr_right
  intro hx
  by_cases hxid : x.id = old.id
  · rw [Rows.eq_of_nodup hkeyed.nodup hold hx hxid]
    simp [hid, hf, huser]
  · simp [hxid]

/-- Replacing a page of the user for a concept of the user. -/
theorem sameForOthers_replace {f : Article → Article} {old : Article} (hkeyed : db.Keyed)
    (hold : old ∈ db.articles) (huser : old.userId = userId) (hid : ∀ x, (f x).id = x.id)
    (hf : ∀ x, (f x).userId = userId)
    (hlinks : ∀ b ∈ db.backlinks, b.sourceArticleId = old.id → b.relationType = "synthesizes" →
      b.userId = userId) :
    SameForOthers userId db
      ({ db with articles := Rows.modify (·.id = old.id) f db.articles }.clear old.id) := by
  have howns : ∀ id, (Db.clear { db with
      articles := Rows.modify (·.id = old.id) f db.articles } old.id).owns userId id =
        db.owns userId id := owns_modify hkeyed hold huser hid hf
  have hown : db.owns userId old.id = true :=
    List.any_eq_true.mpr ⟨old, hold, by simp [huser]⟩
  have hother : ∀ id, (! db.owns userId id) = true → decide (id ≠ old.id) = true := by
    intro id hid
    by_contra hsame
    simp only [ne_eq, decide_not, Bool.not_eq_true', decide_eq_false_iff_not, not_not] at hsame
    simp [hsame, hown] at hid
  constructor
  · apply Rows.filter_modify_other
    intro x hx hxid
    rw [Rows.eq_of_nodup hkeyed.nodup hold hx (by simpa using hxid)]
    simp [huser, hf]
  · simp only [howns]
    apply Rows.filter_delete_other
    exact fun ac _ hac ↦ hother ac.articleId hac
  · simp only [howns]
    apply Rows.filter_delete_other
    exact fun as _ has ↦ hother as.articleId has
  · apply Rows.filter_delete_other
    intro b hb huserId
    by_contra hdeleted
    simp only [decide_eq_true_eq, not_not] at huserId hdeleted
    exact huserId (hlinks b hb hdeleted.1 hdeleted.2)
  · rfl
  · rfl
  · intro v path _
    rfl

/-- A new page of the user. -/
theorem sameForOthers_insert (hkeyed : db.Keyed) (hid : article.id = db.nextId)
    (huser : article.userId = userId) :
    SameForOthers userId db
      { db with articles := db.articles ++ [article], nextId := db.nextId + 1 } := by
  have howns : ∀ id, id < db.nextId →
      (db.articles ++ [article]).any (fun x ↦ x.id = id ∧ x.userId = userId) =
        db.owns userId id := by
    intro id hlt
    have hne : article.id ≠ id := by omega
    unfold Db.owns
    simp [hne]
  refine { SameForOthers.refl userId db with
    articles := ?_
    articleConcepts := ?_
    articleSources := ?_ }
  · simp [huser]
  · apply List.filter_congr
    intro ac hac
    show (! List.any _ _) = _
    rw [howns _ (hkeyed.articleConcepts ac hac)]
  · apply List.filter_congr
    intro as has
    show (! List.any _ _) = _
    rw [howns _ (hkeyed.articleSources as has)]

/-- A page of another user is a row of that user that was not there. -/
theorem not_sameForOthers {x : Article} (hx : x ∈ db'.articles) (hother : x.userId ≠ userId)
    (hnew : ∀ y ∈ db.articles, y.userId ≠ userId → y.id ≠ x.id) :
    ¬ SameForOthers userId db db' := by
  intro h
  have hmem : x ∈ db'.articles.filter (·.userId ≠ userId) :=
    List.mem_filter.mpr ⟨hx, by simpa using hother⟩
  rw [h.articles, List.mem_filter] at hmem
  exact hnew x hmem.1 hother rfl

/-- A replaced page leaves the others alone exactly when the concept is one of the user and
no other user has a synthesis link from it. -/
theorem replace_sameForOthers_iff {old : Article} (hkeyed : db.Keyed) (hold : old ∈ db.articles)
    (huser : old.userId = userId) {saved : Db}
    (hsaved : saved = Db.clear { db with
      articles := Rows.modify (·.id = old.id)
        (applyFields env a concept compilation sources) db.articles } old.id)
    (harticle : article = applyFields env a concept compilation sources old) :
    SameForOthers userId db (perform a.fails saved
        (laterSteps env userId a concept compilation sources article)).2 ↔
      concept.userId = userId ∧ ∀ b ∈ db.backlinks, b.sourceArticleId = old.id →
        b.relationType = "synthesizes" → b.userId = userId := by
  have hmem : article ∈ saved.articles := by
    rw [hsaved, harticle]
    exact Rows.mem_modify.mpr (.inl ⟨old, hold, by simp, rfl⟩)
  have hid : article.id = old.id := by
    rw [harticle]
    rfl
  have howner : article.userId = concept.userId := by
    rw [harticle]
    rfl
  constructor
  · intro h
    have hconcept : concept.userId = userId := by
      by_contra hother
      rw [← howner] at hother
      refine not_sameForOthers ?_ hother (fun y hy hyuser hyid ↦ ?_) h
      · rw [(settled_perform env userId saved a concept compilation sources article _ rfl).1]
        exact hmem
      · rw [Rows.eq_of_nodup hkeyed.nodup hold hy (hyid.trans hid)] at hyuser
        exact hyuser huser
    have howns : saved.owns userId article.id = true :=
      List.any_eq_true.mpr ⟨article, hmem, by simp [howner, hconcept]⟩
    refine ⟨hconcept, fun b hb hsource hrelation ↦ ?_⟩
    by_contra hother
    have hlater : Later userId saved (perform a.fails saved
        (laterSteps env userId a concept compilation sources article)).2 :=
      later_perform hconcept howns
    have hkept := hlater.same.backlinks
    rw [h.backlinks] at hkept
    have hin : b ∈ db.backlinks.filter (·.userId ≠ userId) :=
      List.mem_filter.mpr ⟨hb, by simpa using hother⟩
    rw [hkept, hsaved] at hin
    have hstays := List.of_mem_filter (List.mem_of_mem_filter hin)
    simp [hsource, hrelation] at hstays
  · rintro ⟨hconcept, hlinks⟩
    have howns : saved.owns userId article.id = true :=
      List.any_eq_true.mpr ⟨article, hmem, by simp [howner, hconcept]⟩
    have hsame : SameForOthers userId db saved := by
      rw [hsaved]
      exact sameForOthers_replace hkeyed hold huser (fun _ ↦ rfl) (fun _ ↦ hconcept) hlinks
    exact hsame.trans (later_perform hconcept howns).same

/-- The same for a new page. -/
theorem insert_sameForOthers_iff (hkeyed : db.Keyed) {saved : Db}
    (hsaved : saved = { db with articles := db.articles ++ [article], nextId := db.nextId + 1 })
    (hid : article.id = db.nextId) (howner : article.userId = concept.userId) :
    SameForOthers userId db (perform a.fails saved
        (laterSteps env userId a concept compilation sources article)).2 ↔
      concept.userId = userId := by
  have hmem : article ∈ saved.articles := by
    rw [hsaved]
    exact List.mem_append_right _ (List.mem_singleton_self _)
  constructor
  · intro h
    by_contra hother
    rw [← howner] at hother
    refine not_sameForOthers ?_ hother (fun y hy _ hyid ↦ ?_) h
    · rw [(settled_perform env userId saved a concept compilation sources article _ rfl).1]
      exact hmem
    · have := hkeyed.articles y hy
      omega
  · intro hconcept
    have howns : saved.owns userId article.id = true :=
      List.any_eq_true.mpr ⟨article, hmem, by simp [howner, hconcept]⟩
    have hsame : SameForOthers userId db saved := by
      rw [hsaved]
      exact sameForOthers_insert hkeyed hid (howner.trans hconcept)
    exact hsame.trans (later_perform hconcept howns).same

/-- A concept page is compiled without touching others exactly when the concept is one of the
user and the page it replaces has no synthesis link of another user, or when no row is
committed. -/
theorem compileConceptPage_sameForOthers_iff (hkeyed : db.Keyed) :
    SameForOthers userId db (compileConceptPage env userId db a concept).2 ↔
      ∀ compilation sources, prepare env userId db a concept = .ok (some (compilation, sources)) →
        CommitsRow env userId db a concept →
        concept.userId = userId ∧ ∀ old,
          findExisting env userId db concept.name = .ok (some old) →
          ∀ b ∈ db.backlinks, b.sourceArticleId = old.id → b.relationType = "synthesizes" →
            b.userId = userId := by
  unfold compileConceptPage
  cases hprepare : prepare env userId db a concept with
  | error e => exact iff_of_true (.refl userId db) (by simp)
  | ok prepared =>
    cases prepared with
    | none => exact iff_of_true (.refl userId db) (by simp)
    | some pair =>
      obtain ⟨compilation, sources⟩ := pair
      simp only [Except.ok.injEq, Option.some.injEq, Prod.mk.injEq, and_imp, forall_eq',
        forall_apply_eq_imp_iff]
      by_cases hcommits : CommitsRow env userId db a concept
      · simp only [hcommits, forall_const]
        rcases saveRow_eq_ok compilation sources hcommits with ⟨old, hold, hrow⟩ | ⟨hnone, hrow⟩
        · obtain ⟨hmem, huser⟩ := mem_of_findExisting hold
          rw [hrow]
          show SameForOthers userId db (perform a.fails _ _).2 ↔ _
          rw [replace_sameForOthers_iff hkeyed hmem huser rfl rfl]
          simp only [hold, Except.ok.injEq, Option.some.injEq, forall_eq']
        · rw [hrow]
          show SameForOthers userId db (perform a.fails _ _).2 ↔ _
          rw [insert_sameForOthers_iff hkeyed rfl rfl rfl]
          simp [hnone]
      · obtain ⟨e, herror⟩ := saveRow_error compilation sources hcommits
        rw [herror]
        exact iff_of_true (.refl userId db) fun h ↦ absurd h hcommits

/-- What the two look-ups and the save leave. -/
theorem recompileFromConcept_snd {articleId : Nat} :
    (recompileFromConcept env userId db a articleId).2 =
      match selectConcept db articleId with
      | .error _ => db
      | .ok concept => (compileConceptPage env userId db a concept).2 := by
  unfold recompileFromConcept
  cases selectConcept db articleId with
  | error e => rfl
  | ok concept =>
    dsimp only
    split
    next h => rw [h]
    next h => rw [h]
    next h => rw [h]

/-- A job of the user. -/
theorem sameForOthers_setJob {jobId : Nat} {status : JobStatus}
    (hjob : ∀ j ∈ db.jobs, j.id = jobId → j.userId = userId) :
    SameForOthers userId db (db.setJob jobId status) := by
  refine { SameForOthers.refl userId db with jobs := ?_ }
  apply Rows.filter_modify_other
  intro j hj hid
  simp [hjob j hj (by simpa using hid)]

/-- The job stays one of the user. -/
theorem owner_setJob {jobId : Nat} {status : JobStatus}
    (hjob : ∀ j ∈ db.jobs, j.id = jobId → j.userId = userId) :
    ∀ j ∈ (db.setJob jobId status).jobs, j.id = jobId → j.userId = userId := by
  intro j hj hid
  rcases Rows.mem_modify.mp hj with ⟨k, hk, hkid, rfl⟩ | ⟨hk, -⟩
  · exact hjob k hk (by simpa using hkid)
  · exact hjob j hk hid

/-- Compiling a page sets no job. -/
theorem jobs_compileConceptPage :
    (compileConceptPage env userId db a concept).2.jobs = db.jobs := by
  unfold compileConceptPage
  split
  · rfl
  · rfl
  next compilation sources _ =>
    by_cases hcommits : CommitsRow env userId db a concept
    · rcases saveRow_eq_ok compilation sources hcommits with ⟨old, -, hrow⟩ | ⟨-, hrow⟩
      · rw [hrow]
        exact (settled_perform env userId _ a concept compilation sources _ _ rfl).2
      · rw [hrow]
        exact (settled_perform env userId _ a concept compilation sources _ _ rfl).2
    · obtain ⟨e, herror⟩ := saveRow_error compilation sources hcommits
      rw [herror]

private theorem jobs_recompileFromConcept {articleId : Nat} :
    (recompileFromConcept env userId db a articleId).2.jobs = db.jobs := by
  rw [recompileFromConcept_snd]
  split
  · rfl
  · exact jobs_compileConceptPage

/-- A run sets its job, compiles the page and sets the job again; where the article is missing,
so is the concept. -/
theorem recompileArticle_eq (env : Env) (userId : String) (a : Attempt) (articleId : Nat)
    {jobId : Nat} (hfound : db.jobs.any (·.id = jobId) = true) :
    ∃ status, recompileArticle env userId db a articleId jobId =
      (recompileFromConcept env userId (db.setJob jobId .running) a articleId).2.setJob
        jobId status := by
  unfold recompileArticle
  rw [if_pos hfound]
  dsimp only
  split
  next harticle =>
    split
    next h => exact ⟨.complete, by rw [h]⟩
    next h => exact ⟨.failed, by rw [h]⟩
  next harticle =>
    have hmissing : selectConcept (db.setJob jobId .running) articleId = .error .valueError :=
      if_neg harticle
    refine ⟨.failed, ?_⟩
    rw [recompileFromConcept_snd, hmissing]

/-- The tables that say which articles there are and what they carry. -/
def Db.tables (db : Db) :
    List Article × Nat × List Concept × List ArticleConcept × List ArticleSource :=
  (db.articles, db.nextId, db.concepts, db.articleConcepts, db.articleSources)

private theorem tables_link {source target : Nat} {owner context relationType : String} :
    (db.link source target owner context relationType).tables = db.tables := by
  unfold Db.link
  split <;> rfl

private theorem tables_addSynthesizes :
    (addSynthesizes userId sources article db).tables = db.tables :=
  addSynthesizes_induct (P := fun d ↦ d.tables = db.tables)
    (fun _ _ _ _ _ h ↦ tables_link.trans h) rfl

private theorem tables_addRelated {name : String}
    (h : addRelated env userId article db name = .ok db') :
    db'.tables = db.tables :=
  addRelated_induct (P := fun d ↦ d.tables = db.tables)
    (fun _ _ _ _ _ h ↦ tables_link.trans h) rfl h

private theorem tables_related {names : List String}
    (h : names.foldlM (addRelated env userId article) db = .ok db') : db'.tables = db.tables :=
  related_induct (P := fun d ↦ d.tables = db.tables)
    (fun _ _ _ _ _ h ↦ tables_link.trans h) rfl h

/-- A transaction that fails ends the run. -/
theorem perform_cons_of_fails {fails : Stage → Bool} {stage : Stage}
    {work : Db → Except Exc Db} {rest : List (Stage × (Db → Except Exc Db))}
    (h : fails stage = true) :
    perform fails db ((stage, work) :: rest) = (.error (.runtimeError "save"), db) := by
  simp [perform, h]

/-- A transaction that cannot raise by itself is followed by the others. -/
theorem perform_cons_of_ok {fails : Stage → Bool} {stage : Stage} {f : Db → Db}
    {rest : List (Stage × (Db → Except Exc Db))} (h : fails stage = false) :
    perform fails db ((stage, fun d ↦ .ok (f d)) :: rest) = perform fails (f db) rest := by
  simp [perform, h]

/-- The join rows are reached. -/
def Attempt.joins (a : Attempt) : Bool := ! a.fails .file && ! a.fails .joins

/-- Of the transactions after the first, the tables only see the join rows. -/
theorem tables_perform (env : Env) (userId : String) (db : Db) (a : Attempt) (concept : Concept)
    (compilation : ConceptCompilationResult) (sources : List Article) (article : Article) :
    (perform a.fails db (laterSteps env userId a concept compilation sources article)).2.tables =
      if a.joins then (addJoins concept sources article db).tables else db.tables := by
  unfold laterSteps Attempt.joins
  cases hfile : a.fails .file with
  | true =>
    rw [perform_cons_of_fails hfile]
    rfl
  | false =>
    rw [perform_cons_of_ok hfile]
    cases hjoins : a.fails .joins with
    | true =>
      rw [perform_cons_of_fails hjoins]
      rfl
    | false =>
      rw [perform_cons_of_ok hjoins]
      apply perform_induct
        (P := fun d ↦ d.tables = (addJoins concept sources article db).tables)
      · intro step hstep d d' hd hwork
        simp only [List.mem_cons, List.not_mem_nil, or_false] at hstep
        rcases hstep with rfl | rfl | rfl
        · cases hwork
          exact hd
        · cases hwork
          exact tables_addSynthesizes.trans hd
        · exact (tables_related hwork).trans hd
      · rfl

/-- Where the work of the transactions does not raise, the first stage that fails decides. -/
theorem perform_eq {P : Db → Prop} {fails : Stage → Bool}
    {steps : List (Stage × (Db → Except Exc Db))}
    (hwork : ∀ step ∈ steps, ∀ d, P d → ∃ d', step.2 d = .ok d' ∧ P d') (h : P db) :
    (perform fails db steps).1 =
      if (steps.map Prod.fst).find? fails = none then .ok ()
      else .error (.runtimeError "save") := by
  induction steps generalizing db with
  | nil => rfl
  | cons step rest ih =>
    unfold perform
    obtain ⟨d', hd', hP⟩ := hwork step (List.mem_cons_self ..) db h
    cases hfails : fails step.1 with
    | true => simp [hfails]
    | false =>
      simp only [hfails, Bool.false_eq_true, if_false, hd', List.map_cons, List.find?_cons]
      exact ih (fun x hx ↦ hwork x (List.mem_cons_of_mem step hx)) hP

/-- A look-up of concept pages reads the articles only. -/
theorem findExisting_congr (h : db'.articles = db.articles) (name : String) :
    findExisting env userId db' name = findExisting env userId db name := by
  unfold findExisting
  rw [h]

private theorem articles_addSynthesizes :
    (addSynthesizes userId sources article db).articles = db.articles :=
  congrArg Prod.fst tables_addSynthesizes

private theorem articles_addRelated {name : String}
    (h : addRelated env userId article db name = .ok db') : db'.articles = db.articles :=
  congrArg Prod.fst (tables_addRelated h)

/-- The links to related pages are made, if the pages can be looked up. -/
theorem related_ok {names : List String}
    (h : ∀ name, ∃ found, findExisting env userId db name = .ok found) :
    ∃ db', names.foldlM (addRelated env userId article) db = .ok db' ∧
      db'.articles = db.articles := by
  induction names generalizing db with
  | nil => exact ⟨db, rfl, rfl⟩
  | cons name rest ih =>
    have hnext : ∃ next, addRelated env userId article db name = .ok next := by
      obtain ⟨found, hfound⟩ := h name
      unfold addRelated
      split
      · exact ⟨db, rfl⟩
      · rw [hfound]
        cases found with
        | none => exact ⟨db, rfl⟩
        | some target => exact ⟨_, rfl⟩
    obtain ⟨next, hnext⟩ := hnext
    have hsame := articles_addRelated hnext
    have hrest : ∀ name, ∃ found, findExisting env userId next name = .ok found := by
      intro name
      rw [findExisting_congr hsame]
      exact h name
    obtain ⟨db', hdb', harticles⟩ := ih hrest
    exact ⟨db', by rw [List.foldlM_cons, hnext]; exact hdb', harticles.trans hsame⟩

/-- The stages of a save after its first transaction. -/
def laterStages : List Stage := [.file, .joins, .index, .synthesizes, .related]

/-- The transactions behind the first raise only where a stage fails, if pages can be looked
up. -/
theorem perform_laterSteps (env : Env) (userId : String) (db : Db) (a : Attempt)
    (concept : Concept) (compilation : ConceptCompilationResult) (sources : List Article)
    (article : Article)
    (h : ∀ name, ∃ found, findExisting env userId db name = .ok found) :
    (perform a.fails db (laterSteps env userId a concept compilation sources article)).1 =
      if laterStages.find? a.fails = none then .ok () else .error (.runtimeError "save") := by
  refine perform_eq (P := fun d ↦ d.articles = db.articles) (fun step hstep d hd ↦ ?_) rfl
  simp only [laterSteps, List.mem_cons, List.not_mem_nil, or_false] at hstep
  rcases hstep with rfl | rfl | rfl | rfl | rfl
  · exact ⟨_, rfl, hd⟩
  · exact ⟨_, rfl, hd⟩
  · exact ⟨_, rfl, hd⟩
  · exact ⟨_, rfl, articles_addSynthesizes.trans hd⟩
  · have hfound : ∀ name, ∃ found, findExisting env userId d name = .ok found := by
      intro name
      rw [findExisting_congr hd]
      exact h name
    obtain ⟨d', hd', harticles⟩ := @related_ok env userId d article compilation.relatedConcepts
      hfound
    exact ⟨d', hd', harticles.trans hd⟩

/-- The transactions after the first succeed exactly when none fails, if pages can be looked
up. -/
theorem perform_laterSteps_ok_iff (env : Env) (userId : String) (db : Db) (a : Attempt)
    (concept : Concept) (compilation : ConceptCompilationResult) (sources : List Article)
    (article : Article)
    (h : ∀ name, ∃ found, findExisting env userId db name = .ok found) :
    (perform a.fails db (laterSteps env userId a concept compilation sources article)).1 = .ok () ↔
      ∀ stage, stage ≠ .row → a.fails stage = false := by
  have hlater : ∀ stage, stage ∈ laterStages ↔ stage ≠ .row := by
    intro stage
    cases stage <;> decide
  have hnone : laterStages.find? a.fails = none ↔
      ∀ stage, stage ≠ .row → a.fails stage = false := by
    simp only [List.find?_eq_none, hlater, Bool.not_eq_true]
  rw [perform_laterSteps env userId db a concept compilation sources article h, ← hnone]
  split
  next hall => exact iff_of_true rfl hall
  next hfails => exact iff_of_false (by simp) hfails

/-- A compile whose first transaction is committed performs the others. -/
theorem compileConceptPage_of_saveRow {saved : Db}
    (hprepare : prepare env userId db a concept = .ok (some (compilation, sources)))
    (hrow : saveRow env userId db a concept compilation sources = .ok (article, saved)) :
    compileConceptPage env userId db a concept =
      ((perform a.fails saved
          (laterSteps env userId a concept compilation sources article)).1.map fun _ ↦ some article,
        (perform a.fails saved
          (laterSteps env userId a concept compilation sources article)).2) := by
  unfold compileConceptPage
  rw [hprepare]
  dsimp only
  rw [hrow]

/-- A compile that does not commit its first transaction leaves the tables. -/
theorem compileConceptPage_of_not_commits
    (h : ∀ compilation sources,
      prepare env userId db a concept = .ok (some (compilation, sources)) →
        ¬ CommitsRow env userId db a concept) :
    (compileConceptPage env userId db a concept).2 = db := by
  unfold compileConceptPage
  split
  · rfl
  · rfl
  next compilation sources hprepare =>
    obtain ⟨e, herror⟩ := saveRow_error compilation sources (h compilation sources hprepare)
    rw [herror]

/-- A compile leaves everything, or it commits its page and adds the join rows it reaches. -/
theorem compileConceptPage_cases (env : Env) (userId : String) (db : Db) (a : Attempt)
    (concept : Concept) :
    (compileConceptPage env userId db a concept).2 = db ∨
      ∃ compilation sources page saved,
        prepare env userId db a concept = .ok (some (compilation, sources)) ∧
        CommitsRow env userId db a concept ∧
        saveRow env userId db a concept compilation sources = .ok (page, saved) ∧
        (compileConceptPage env userId db a concept).2.tables =
          if a.joins then (addJoins concept sources page saved).tables else saved.tables := by
  by_cases hcommits : ∃ compilation sources,
      prepare env userId db a concept = .ok (some (compilation, sources)) ∧
        CommitsRow env userId db a concept
  · right
    obtain ⟨compilation, sources, hprepare, hcommits⟩ := hcommits
    have hrow : ∃ page saved,
        saveRow env userId db a concept compilation sources = .ok (page, saved) := by
      rcases saveRow_eq_ok compilation sources hcommits with ⟨old, -, hrow⟩ | ⟨-, hrow⟩
      · exact ⟨_, _, hrow⟩
      · exact ⟨_, _, hrow⟩
    obtain ⟨page, saved, hrow⟩ := hrow
    refine ⟨compilation, sources, page, saved, hprepare, hcommits, hrow, ?_⟩
    rw [compileConceptPage_of_saveRow hprepare hrow]
    exact tables_perform env userId saved a concept compilation sources page
  · left
    exact compileConceptPage_of_not_commits fun compilation sources hprepare hrow ↦
      hcommits ⟨compilation, sources, hprepare, hrow⟩

/-- The page is compiled on the tables as the user left them. -/
theorem recompileFromConcept_sameForOthers_iff {articleId : Nat} (hkeyed : db.Keyed) :
    SameForOthers userId db (recompileFromConcept env userId db a articleId).2 ↔
      ∀ concept compilation sources, selectConcept db articleId = .ok concept →
        prepare env userId db a concept = .ok (some (compilation, sources)) →
        CommitsRow env userId db a concept →
        concept.userId = userId ∧ ∀ old,
          findExisting env userId db concept.name = .ok (some old) →
          ∀ b ∈ db.backlinks, b.sourceArticleId = old.id → b.relationType = "synthesizes" →
            b.userId = userId := by
  rw [recompileFromConcept_snd]
  cases selectConcept db articleId with
  | error e => exact iff_of_true (.refl userId db) (by simp)
  | ok concept =>
    dsimp only
    rw [compileConceptPage_sameForOthers_iff hkeyed]
    simp only [Except.ok.injEq]
    constructor
    · rintro h _ compilation sources rfl
      exact h compilation sources
    · intro h compilation sources
      exact h concept compilation sources rfl

end

/-- A run for a user leaves the rows and files of all others exactly when the concept it finds
by its name, and the synthesis links it deletes, are those of the user. -/
theorem recompileArticle_sameForOthers_iff (env : Env) (userId : String) (db : Db) (a : Attempt)
    (articleId jobId : Nat) (hkeyed : db.Keyed)
    (hjob : ∀ j ∈ db.jobs, j.id = jobId → j.userId = userId) :
    SameForOthers userId db (recompileArticle env userId db a articleId jobId) ↔
      FindsOwn env userId db a articleId jobId := by
  by_cases hfound : db.jobs.any (·.id = jobId) = true
  · obtain ⟨status, hrun⟩ := recompileArticle_eq env userId a articleId hfound
    let running := db.setJob jobId .running
    have hfirst : SameForOthers userId db running := sameForOthers_setJob hjob
    have hrunning : running.Keyed := ⟨hkeyed.nodup, hkeyed.articles, hkeyed.articleConcepts,
      hkeyed.articleSources⟩
    let compiled := (recompileFromConcept env userId running a articleId).2
    have hlast : SameForOthers userId compiled (compiled.setJob jobId status) := by
      apply sameForOthers_setJob
      have hjobs : compiled.jobs = running.jobs := jobs_recompileFromConcept
      rw [hjobs]
      exact owner_setJob hjob
    have hcompiled : SameForOthers userId running compiled ↔
        FindsOwn env userId db a articleId jobId := by
      rw [recompileFromConcept_sameForOthers_iff hrunning]
      constructor
      · intro h concept compilation sources _
        exact h concept compilation sources
      · intro h concept compilation sources
        exact h concept compilation sources hfound
    rw [← hcompiled, hrun]
    constructor
    · intro h
      exact (hfirst.symm.trans h).trans hlast.symm
    · intro h
      exact (hfirst.trans h).trans hlast
  · unfold recompileArticle
    rw [if_neg hfound]
    exact iff_of_true (.refl userId db) fun _ _ _ h ↦ absurd h hfound

/-- Slugs are names; one source is enough for a page. -/
def sampleEnv : Env where
  slugify _ name := name
  strip := id
  lower := id
  normalizeTitle := id
  slugMaxAttempts := 1
  templates := ["topic"]
  minSources := 1

/-- A user with a source article, its concept page and a concept of its own, which an owner's
concept of the same name precedes. -/
def sampleDb (owner : String) : Db where
  articles :=
    [⟨0, "u", "notes", "Notes", "", "notes.md", ["logic"], [], none, .source, 0⟩,
     ⟨1, "u", "concept-logic", "Logic", "", "logic/logic.md", ["logic"], [0], none, .concept, 0⟩]
  nextId := 2
  articleConcepts := [⟨0, "logic"⟩, ⟨1, "logic"⟩]
  articleSources := [⟨1, 0⟩]
  backlinks := [⟨1, 0, "u", "", "synthesizes"⟩]
  concepts := [⟨"c", owner, "logic", "topic"⟩, ⟨"d", "u", "logic", "topic"⟩]
  kinds := [⟨"topic", "topic"⟩]
  jobs := [⟨0, "u", .queued⟩]
  files := []

/-- A run with a completion in which nothing fails. -/
def sampleAttempt : Attempt := ⟨1, none, some ⟨"Logic", "", []⟩, "text", fun _ ↦ false⟩

private theorem keyed_sampleDb (owner : String) : (sampleDb owner).Keyed := by
  constructor <;> simp [sampleDb]

theorem recompileArticle_own :
    SameForOthers "u" (sampleDb "u")
      (recompileArticle sampleEnv "u" (sampleDb "u") sampleAttempt 1 0) := by
  apply (recompileArticle_sameForOthers_iff sampleEnv "u" (sampleDb "u") sampleAttempt 1 0
    (keyed_sampleDb "u") (by simp [sampleDb])).mpr
  intro concept compilation sources _ hselect _ _
  have hfirst : selectConcept (sampleDb "u") 1 = .ok ⟨"c", "u", "logic", "topic"⟩ := rfl
  rw [hfirst] at hselect
  cases hselect
  exact ⟨rfl, fun _ _ b hb _ _ ↦ by simp_all [sampleDb]⟩

/-- With another user's concept first, the page of the user becomes one of that user. -/
theorem recompileArticle_foreign :
    ¬ SameForOthers "u" (sampleDb "v")
      (recompileArticle sampleEnv "u" (sampleDb "v") sampleAttempt 1 0) := by
  intro h
  have hrows := congrArg List.length h.articles
  revert hrows
  decide +kernel

end WikiMind.Wiki.Recompile
