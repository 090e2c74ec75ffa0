import Mathlib.Data.List.Infix
import Mathlib.Logic.Function.Basic
import WikiMind.Wiki.Pages

/-!
# The full-text index

The SQLite index `article_fts` (`services/search.py:96–198`) holds a title and a text for
each article. A rebuild reads the articles and their files again; in between, every writer of
an article has to keep its entry up to date itself. The articles and files of all users are
kept with what the writers decide from them. A writer commits its row and its index entry in
steps of its own and may fail before each of them. A row of the index is named by its article:
its number is a hash of the article's id, and ids are taken to have different ones.
-/

namespace WikiMind.Search

open WikiMind.Base
open WikiMind.Llm (Provider)
open WikiMind.Wiki (PageType)
open WikiMind.Compile (TextEnv relativePath freeSlug)

/-- An article: `models/tables/wiki.py:35`. -/
structure Article where
  id : Nat
  userId : String
  slug : String
  title : String
  filePath : String
  pageType : PageType
  sourceId : Option String
  provider : Option Provider
  deriving DecidableEq, Repr

/-- A conversation with the articles it was filed and crystallized to: `models/tables/qa.py:11`. -/
structure Conversation where
  id : String
  userId : String
  title : String
  filedArticleId : Option Nat
  crystallizedArticleId : Option Nat
  deriving DecidableEq, Repr

/-- The articles, the files by user and path, the conversations and the index. -/
structure Db where
  articles : List Article
  nextId : Nat
  files : String × String → Option String
  conversations : List Conversation
  index : Nat → Option (String × String)

/-- `_read_content`, where a missing file reads as the empty text: `services/search.py:448`. -/
def Db.content (db : Db) (a : Article) : String := (db.files (a.userId, a.filePath)).getD ""

/-- `index_article`: `services/search.py:143`. -/
def indexArticle (index : Nat → Option (String × String)) (articleId : Nat)
    (title content : String) : Nat → Option (String × String) :=
  Function.update index articleId (some (title, content))

/-- `remove_article`: `services/search.py:181`. -/
def removeArticle (index : Nat → Option (String × String)) (articleId : Nat) :
    Nat → Option (String × String) :=
  Function.update index articleId none

/-- The index after `rebuild_fts_index`, which returns early where there are no articles and
else empties the index and inserts its entries: `services/search.py:96–135`. -/
def rebuilt (db : Db) : Nat → Option (String × String) :=
  if db.articles.isEmpty then db.index
  else db.articles.foldl
    (fun index a ↦ indexArticle index a.id a.title (db.content a)) fun _ ↦ none

/-- The index holds what a rebuild would build. -/
def Agrees (db : Db) : Prop := db.index = rebuilt db

/-- The steps of a writer: it writes the file of its row, deletes the file of the row it
replaces if the path changed, commits its row (with an index entry that is staged before the
commit), commits the join rows, and commits an index entry. -/
inductive WriteStep where
  | write | deleteOld | row (indexed : Bool) | joins | index
  deriving DecidableEq, Repr

/-- A step that commits the row. -/
def WriteStep.isRow : WriteStep → Bool
  | .row _ => true
  | _ => false

/-- What a writer has decided: the row it replaces, the row it leaves, the text of the file at
the path of that row, the concepts it joins, what it notes in the conversations and its steps. -/
structure Plan where
  existing : Option Article
  row : Article
  text : String
  concepts : List String
  mark : Conversation → Conversation
  steps : List WriteStep

/-- `generate_unique_slug`: `slug.py:24`. -/
def uniqueSlug (env : TextEnv) (db : Db) (userId title : String) : Option String :=
  freeSlug (fun slug ↦ db.articles.any fun a ↦ a.userId = userId ∧ a.slug = slug)
    (env.slugify (some 80) title) env.slugMaxAttempts

/-- The texts of a compiled source page. -/
structure Build where
  title : String
  concepts : List String
  text : String

/-- The steps of `_upsert_article`, which indexes the text it has written:
`engine/compiler.py:636–715`. -/
def upsertSteps : List WriteStep := [.write, .deleteOld, .row false, .joins, .index]

/-- `_upsert_article`: `engine/compiler.py:636–715`. -/
def compilePlan (env : TextEnv) (db : Db) (existing : Option Article) (userId sourceId : String)
    (provider : Option Provider) (build : Build) : Option Plan :=
  match existing with
  | some old =>
    let row := { old with
      userId
      title := build.title
      filePath := relativePath env build.concepts old.slug
      pageType := .source }
    some ⟨some old, row, build.text, build.concepts, id, upsertSteps⟩
  | none =>
    (uniqueSlug env db userId build.title).map fun slug ↦
      let row : Article :=
        { id := db.nextId, userId, slug, title := build.title
          filePath := relativePath env build.concepts slug, pageType := .source
          sourceId := some sourceId, provider }
      ⟨none, row, build.text, build.concepts, id, upsertSteps⟩

/-- `_find_article_for_source_and_provider`: `engine/compiler.py:596`. -/
def findArticle (db : Db) (sourceId : String) (provider : Option Provider) : Option Article :=
  match provider with
  | none => none
  | some p => db.articles.find? fun a ↦ a.sourceId = some sourceId ∧ a.provider = some p

/-- `_save_concept_page`, which writes its file after the commit and keeps an old one:
`engine/concept_compiler.py:172–240`. -/
def conceptPlan (env : TextEnv) (db : Db) (userId name : String) (provider : Option Provider)
    (title text : String) : Plan :=
  let key := env.slugify none name
  let filePath := key ++ "/" ++ key ++ ".md"
  let existing := db.articles.find? fun a ↦
    a.slug = "concept-" ++ key ∧ a.pageType = .concept ∧ a.userId = userId
  let row : Article :=
    match existing with
    | some old => { old with title, filePath, provider }
    | none =>
      { id := db.nextId, userId, slug := "concept-" ++ key, title, filePath
        pageType := .concept, sourceId := none, provider }
  ⟨existing, row, text, [name], id, [.row false, .write, .joins, .index]⟩

/-- A new article in the directory of its kind. -/
def newArticle (db : Db) (userId dir slug title : String) (pageType : PageType) : Article :=
  { id := db.nextId, userId, slug, title, filePath := dir ++ "/" ++ slug ++ ".md", pageType
    sourceId := none, provider := none }

/-- The file of a stub: `services/wiki.py:975`. -/
def stubText (title slug body : String) : String :=
  "---\ntitle: \"" ++ title ++ "\"\nslug: " ++ slug ++
    "\npage_type: source\nis_stub: true\n---\n\n" ++ body

/-- `create_stub_article`, without an index entry: `services/wiki.py:949`. -/
def stubPlan (env : TextEnv) (db : Db) (userId title body : String) : Option Plan :=
  (uniqueSlug env db userId title).map fun slug ↦
    ⟨none, newArticle db userId "stubs" slug title .source, stubText title slug body, [], id,
      [.write, .row false]⟩

/-- `_file_back_thread`, which keeps the title of an article it overwrites and stages the index
entry with the row: `engine/qa_agent.py:748–853`. -/
def fileBackPlan (db : Db) (conversationId text : String) : Option Plan := do
  let conversation ← db.conversations.find? (·.id = conversationId)
  match conversation.filedArticleId.bind fun i ↦ db.articles.find? (·.id = i) with
  | some old => some ⟨some old, old, text, [], id, [.write, .row true]⟩
  | none =>
    let row := newArticle db conversation.userId "qa-answers" conversation.id conversation.title
      .answer
    some ⟨none, row, text, [], fun c ↦
      if c.id = conversationId then { c with filedArticleId := some db.nextId } else c,
      [.write, .row true]⟩

/-- The file-back of selected turns, under a new identifier: `services/query.py:596–632`. -/
def fileBackTurnsPlan (db : Db) (userId slug title text : String) : Plan :=
  ⟨none, newArticle db userId "qa-answers" slug title .answer, text, [], id,
    [.write, .row false, .index]⟩

/-- `crystallize_conversation`, unless that was done before, without an index entry:
`services/crystallization.py:238–284`. -/
def crystallizePlan (env : TextEnv) (db : Db) (conversationId title text : String) :
    Option Plan := do
  let conversation ← db.conversations.find? (·.id = conversationId)
  match conversation.crystallizedArticleId.bind fun i ↦ db.articles.find? (·.id = i) with
  | some _ => none
  | none =>
    let slug ← uniqueSlug env db conversation.userId title
    some ⟨none, newArticle db conversation.userId "synthesis" slug title .synthesis, text, [],
      fun c ↦ if c.id = conversationId then { c with crystallizedArticleId := some db.nextId }
        else c, [.write, .row false]⟩

/-- The operations that save an article. -/
inductive Save where
  | compile (userId sourceId : String) (provider : Option Provider) (build : Build)
  | recompile (articleId : Nat) (build : Build)
  | conceptPage (userId name : String) (provider : Option Provider) (title text : String)
  | stub (userId title body : String)
  | fileBack (conversationId text : String)
  | fileBackTurns (userId slug title text : String)
  | crystallize (conversationId title text : String)

/-- What an operation saves, if anything. -/
def Db.plan (env : TextEnv) (db : Db) : Save → Option Plan
  | .compile userId sourceId provider build =>
    compilePlan env db (findArticle db sourceId provider) userId sourceId provider build
  | .recompile articleId build => do
    let old ← db.articles.find? (·.id = articleId)
    let sourceId ← old.sourceId
    compilePlan env db (some old) old.userId sourceId old.provider build
  | .conceptPage userId name provider title text =>
    some (conceptPlan env db userId name provider title text)
  | .stub userId title body => stubPlan env db userId title body
  | .fileBack conversationId text => fileBackPlan db conversationId text
  | .fileBackTurns userId slug title text => some (fileBackTurnsPlan db userId slug title text)
  | .crystallize conversationId title text => crystallizePlan env db conversationId title text

/-- A step fails: a fault, a new row with a slug that an article of its user has, or a concept
that is joined twice. -/
def Plan.stopsAt (plan : Plan) (db : Db) (fails : WriteStep → Bool) (step : WriteStep) : Bool :=
  fails step ||
    match step with
    | .row _ => plan.existing.isNone && db.articles.any fun a ↦
        a.userId = plan.row.userId ∧ a.slug = plan.row.slug
    | .joins => !decide plan.concepts.Nodup
    | _ => false

/-- The steps that are carried out, before the first that fails. -/
def Plan.done (plan : Plan) (db : Db) (fails : WriteStep → Bool) : List WriteStep :=
  plan.steps.takeWhile fun step ↦ !plan.stopsAt db fails step

/-- The files after a step. -/
def Plan.file (plan : Plan) (files : String × String → Option String) :
    WriteStep → String × String → Option String
  | .write => Function.update files (plan.row.userId, plan.row.filePath) (some plan.text)
  | .deleteOld =>
    match plan.existing with
    | some old =>
      if old.filePath ≠ plan.row.filePath then
        Function.update files (plan.row.userId, old.filePath) none
      else files
    | none => files
  | _ => files

/-- The files after steps. -/
def Plan.files (plan : Plan) (done : List WriteStep) (files : String × String → Option String) :
    String × String → Option String :=
  done.foldl plan.file files

/-- The articles after the commit of the row. -/
def Plan.articles (plan : Plan) (articles : List Article) : List Article :=
  match plan.existing with
  | some old => Rows.modify (·.id = old.id) (fun _ ↦ plan.row) articles
  | none => articles ++ [plan.row]

/-- The effect of a step. -/
def Db.take (plan : Plan) (db : Db) : WriteStep → Db
  | .row indexed =>
    { db with
      articles := plan.articles db.articles
      nextId := if plan.existing.isSome then db.nextId else db.nextId + 1
      conversations := db.conversations.map plan.mark
      index :=
        if indexed then indexArticle db.index plan.row.id plan.row.title plan.text
        else db.index }
  | .index => { db with index := indexArticle db.index plan.row.id plan.row.title plan.text }
  | step => { db with files := plan.file db.files step }

/-- The effect of steps. -/
def Db.perform (db : Db) (plan : Plan) (done : List WriteStep) : Db := done.foldl (Db.take plan) db

/-- `edit_article`, which writes the file, may fail before its commit, and does not touch the
index: `services/wiki.py:377`. -/
def Db.edit (db : Db) (userId : String) (articleId : Nat) (content title : Option String)
    (fails : Bool) : Db :=
  match db.articles.find? fun a ↦ a.id = articleId ∧ a.userId = userId with
  | none => db
  | some a =>
    { db with
      files := match content with
        | some text => Function.update db.files (userId, a.filePath) (some text)
        | none => db.files
      articles :=
        if fails then db.articles
        else Rows.modify (·.id = articleId) (fun a ↦ { a with title := title.getD a.title })
          db.articles }

/-- `_sweep_single_article`, with the text whose brackets are resolved: `jobs/sweep.py:44`. -/
def Db.sweep (db : Db) (articleId : Nat) (text : String) : Db :=
  match db.articles.find? (·.id = articleId) with
  | none => db
  | some a =>
    match db.files (a.userId, a.filePath) with
    | none => db
    | some content =>
      if text = content then db
      else { db with files := Function.update db.files (a.userId, a.filePath) (some text) }

/-- `_cleanup_orphaned_concept_pages`: `jobs/sweep.py:148`. -/
def Db.cleanup (db : Db) (userId : String) : Db :=
  (db.articles.filter fun a ↦ a.pageType = .concept ∧ a.userId = userId).foldl (fun db a ↦
    if (db.files (a.userId, a.filePath)).isSome then db
    else { db with
      articles := db.articles.filter (·.id ≠ a.id)
      index := removeArticle db.index a.id }) db

/-- `delete_account`, as far as articles and conversations go: `services/user.py:363`. -/
def Db.deleteAccount (db : Db) (userId : String) : Db :=
  { db with
    articles := db.articles.filter (·.userId ≠ userId)
    conversations := db.conversations.filter (·.userId ≠ userId) }

/-- All operations. `delete_source` (`services/ingest.py:279`) deletes raw files and the row of
the source, none of which is kept here. -/
inductive Operation where
  | save (s : Save) (fails : WriteStep → Bool)
  | edit (userId : String) (articleId : Nat) (content title : Option String) (fails : Bool)
  | sweep (articleId : Nat) (text : String)
  | cleanup (userId : String)
  | deleteSource (sourceId : String)
  | deleteAccount (userId : String)

/-- The effect of an operation. -/
def Db.apply (env : TextEnv) (db : Db) : Operation → Db
  | .save s fails =>
    match db.plan env s with
    | none => db
    | some plan => db.perform plan (plan.done db fails)
  | .edit userId articleId content title fails => db.edit userId articleId content title fails
  | .sweep articleId text => db.sweep articleId text
  | .cleanup userId => db.cleanup userId
  | .deleteSource _ => db
  | .deleteAccount userId => db.deleteAccount userId

/-- The system of the operations of all users. -/
def store (env : TextEnv) : Machine Db Operation := .ofFun (Db.apply env)

/-- The keys of articles are unique and, as those of entries, were handed out. -/
structure Db.Keyed (db : Db) : Prop where
  nodup : (db.articles.map (·.id)).Nodup
  lt : ∀ a ∈ db.articles, a.id < db.nextId
  entries : ∀ i, db.nextId ≤ i → db.index i = none

/-- The steps commit a row. -/
def Commits (done : List WriteStep) : Prop := .row false ∈ done ∨ .row true ∈ done

instance (done : List WriteStep) : Decidable (Commits done) :=
  inferInstanceAs (Decidable (_ ∨ _))

/-- The steps commit an index entry. -/
def Indexes (done : List WriteStep) : Prop := .index ∈ done ∨ .row true ∈ done

instance (done : List WriteStep) : Decidable (Indexes done) :=
  inferInstanceAs (Decidable (_ ∨ _))

/-- The steps commit one row at most, and wherever they end, a row that is indexed is committed
and its file is written. -/
def Ordered (steps : List WriteStep) : Prop :=
  steps.countP WriteStep.isRow ≤ 1 ∧
    ∀ done ∈ steps.inits, Indexes done → Commits done ∧ .write ∈ done

instance (steps : List WriteStep) : Decidable (Ordered steps) :=
  inferInstanceAs (Decidable (_ ∧ _))

/-- A plan leaves the row it replaces under its identifier and a new row under the next one, and
its steps are in order. -/
structure Plan.Fits (db : Db) (plan : Plan) : Prop where
  existing : ∀ old, plan.existing = some old → old ∈ db.articles ∧ plan.row.id = old.id
  new : plan.existing = none → plan.row.id = db.nextId
  ordered : Ordered plan.steps

/-- An article after steps: the row of the plan, if it is the one that was replaced. -/
def Plan.after (plan : Plan) (done : List WriteStep) (a : Article) : Article :=
  if Commits done ∧ a.id = plan.row.id then plan.row else a

/-- What an article reads after steps. -/
def Plan.reads (plan : Plan) (done : List WriteStep) (db : Db) (a : Article) : String :=
  (plan.files done db.files (a.userId, a.filePath)).getD ""

/-- The steps keep the index right: a row is committed only where no entry is left of an article
that is gone, a new one is indexed, and an article that is not indexed again keeps its title
and its text. -/
structure Keeps (db : Db) (plan : Plan) (done : List WriteStep) : Prop where
  clean : Commits done → ∀ i < db.nextId, (∀ a ∈ db.articles, a.id ≠ i) → db.index i = none
  new : Commits done → plan.existing = none → Indexes done
  others : ∀ a ∈ db.articles, (Indexes done ∧ a.id = plan.row.id) ∨
    ((plan.after done a).title = a.title ∧ plan.reads done db (plan.after done a) = db.content a)

/-- The operation keeps the index right: the steps it carries out do, what it edits or sweeps
stays as it is, and of the articles left all or none are of an account it deletes. -/
def Maintains (env : TextEnv) (db : Db) : Operation → Prop
  | .save s fails => ∀ plan ∈ db.plan env s, Keeps db plan (plan.done db fails)
  | .edit userId articleId content title fails => ∀ a ∈ db.articles, a.id = articleId →
      a.userId = userId →
        (∀ text ∈ content, text = db.content a) ∧ (fails = false → ∀ t ∈ title, t = a.title)
  | .sweep articleId text => ∀ a ∈ db.articles, a.id = articleId →
      ∀ content ∈ db.files (a.userId, a.filePath), text = content
  | .cleanup _ => True
  | .deleteSource _ => True
  | .deleteAccount userId =>
    (∀ a ∈ db.articles, a.userId ≠ userId) ∨ ∀ a ∈ db.articles, a.userId = userId

section Agreement

variable {db : Db}

private theorem rebuilt_spec {articles : List Article} (hnodup : (articles.map (·.id)).Nodup)
    (content : Article → String) (start : Nat → Option (String × String)) :
    (∀ a ∈ articles, articles.foldl (fun index a ↦ indexArticle index a.id a.title (content a))
        start a.id = some (a.title, content a)) ∧
      ∀ i, (∀ a ∈ articles, a.id ≠ i) →
        articles.foldl (fun index a ↦ indexArticle index a.id a.title (content a)) start i =
          start i := by
  induction articles generalizing start with
  | nil => exact ⟨(fun _ h ↦ nomatch h), fun _ _ ↦ rfl⟩
  | cons x articles ih =>
    rw [List.map_cons, List.nodup_cons] at hnodup
    obtain ⟨hentries, hothers⟩ := ih hnodup.2 (indexArticle start x.id x.title (content x))
    have hfresh : ∀ a ∈ articles, a.id ≠ x.id :=
      fun a ha heq ↦ hnodup.1 (heq ▸ List.mem_map_of_mem ha)
    constructor
    · intro a ha
      rcases List.mem_cons.mp ha with rfl | ha
      · exact (hothers _ hfresh).trans (Function.update_self ..)
      · exact hentries a ha
    · intro i hi
      obtain ⟨hx, hrest⟩ := List.forall_mem_cons.mp hi
      exact (hothers i hrest).trans (Function.update_of_ne (Ne.symm hx) ..)

/-- The index has an entry for every article and for nothing else. -/
structure Exact (db : Db) : Prop where
  entries : ∀ a ∈ db.articles, db.index a.id = some (a.title, db.content a)
  clean : ∀ i, (∀ a ∈ db.articles, a.id ≠ i) → db.index i = none

/-- The index agrees when there are no articles, or when it has an entry for every article and
for nothing else. -/
theorem agrees_iff (hnodup : (db.articles.map (·.id)).Nodup) :
    Agrees db ↔ (db.articles ≠ [] → Exact db) := by
  unfold Agrees rebuilt
  by_cases hempty : db.articles = []
  · simp [hempty]
  rw [if_neg (by simpa using hempty), forall_prop_of_true hempty]
  obtain ⟨hentries, hothers⟩ := rebuilt_spec hnodup db.content fun _ ↦ none
  constructor
  · intro h
    rw [← h] at hentries hothers
    exact ⟨hentries, hothers⟩
  · intro ⟨hindex, hclean⟩
    funext i
    by_cases hi : ∃ a ∈ db.articles, a.id = i
    · obtain ⟨a, ha, rfl⟩ := hi
      rw [hindex a ha, hentries a ha]
    · have hother : ∀ a ∈ db.articles, a.id ≠ i := fun a ha heq ↦ hi ⟨a, ha, heq⟩
      rw [hclean i hother, hothers i hother]

/-- An index that agrees has an entry for every article. -/
theorem entry_of_agrees (hkeyed : db.Keyed) (h : Agrees db) {a : Article} (ha : a ∈ db.articles) :
    db.index a.id = some (a.title, db.content a) :=
  ((agrees_iff hkeyed.nodup).mp h (List.ne_nil_of_mem ha)).entries a ha

/-- Agreement is a matter of the articles, what they read and the index. -/
theorem agrees_congr (db : Db) {db' : Db} (harticles : db'.articles = db.articles)
    (hcontent : ∀ a ∈ db.articles, db'.content a = db.content a) (hindex : db'.index = db.index) :
    Agrees db' ↔ Agrees db := by
  have hrebuilt : rebuilt db' = rebuilt db := by
    unfold rebuilt
    rw [harticles, hindex]
    congr 1
    apply List.foldl_ext
    intro index a ha
    rw [hcontent a ha]
  unfold Agrees
  rw [hindex, hrebuilt]

end Agreement

section Steps

variable {env : TextEnv} {db : Db} {plan : Plan} {done : List WriteStep}

/-- The steps write and delete files. -/
theorem files_perform (db : Db) (plan : Plan) (done : List WriteStep) :
    (db.perform plan done).files = plan.files done db.files := by
  unfold Db.perform Plan.files
  induction done generalizing db with
  | nil => rfl
  | cons step done ih =>
    rw [List.foldl_cons, List.foldl_cons, ih]
    cases step <;> rfl

private theorem content_perform (db : Db) (plan : Plan) (done : List WriteStep) (a : Article) :
    (db.perform plan done).content a = plan.reads done db a := by
  unfold Db.content Plan.reads
  rw [files_perform]

/-- The steps set the entry of the row, if they index it. -/
theorem index_perform (db : Db) (plan : Plan) (done : List WriteStep) :
    (db.perform plan done).index =
      if Indexes done then indexArticle db.index plan.row.id plan.row.title plan.text
      else db.index := by
  unfold Db.perform
  induction done generalizing db with
  | nil => rfl
  | cons step done ih =>
    rw [List.foldl_cons, ih]
    have htwice : ∀ index, indexArticle (indexArticle index plan.row.id plan.row.title plan.text)
        plan.row.id plan.row.title plan.text =
          indexArticle index plan.row.id plan.row.title plan.text :=
      fun index ↦ Function.update_idem ..
    cases step with
    | write | deleteOld | joins =>
      rw [if_congr (show Indexes (_ :: done) ↔ Indexes done by simp [Indexes]) rfl rfl]
      rfl
    | index => simp [Indexes, Db.take, htwice]
    | row indexed => cases indexed <;> simp [Indexes, Db.take, htwice]

/-- Steps that commit no row leave the articles. -/
theorem rows_of_not_commits (db : Db) (plan : Plan) (h : ¬ Commits done) :
    (db.perform plan done).articles = db.articles ∧ (db.perform plan done).nextId = db.nextId := by
  unfold Db.perform
  induction done generalizing db with
  | nil => exact ⟨rfl, rfl⟩
  | cons step done ih =>
    have hrest : ¬ Commits done := fun hrest ↦ h (hrest.imp
      (List.mem_cons_of_mem _) (List.mem_cons_of_mem _))
    rw [List.foldl_cons]
    obtain ⟨harticles, hnext⟩ := ih (db.take plan step) hrest
    rw [harticles, hnext]
    cases step with
    | write | deleteOld | joins | index => exact ⟨rfl, rfl⟩
    | row indexed => cases indexed <;> simp [Commits] at h

/-- Steps that commit a row, and one only, leave it and the other articles. -/
theorem rows_of_commits (db : Db) (plan : Plan) (hone : done.countP WriteStep.isRow ≤ 1)
    (h : Commits done) :
    (db.perform plan done).articles = plan.articles db.articles ∧
      (db.perform plan done).nextId =
        if plan.existing.isSome then db.nextId else db.nextId + 1 := by
  induction done generalizing db with
  | nil => simp [Commits] at h
  | cons step done ih =>
    cases step with
    | row indexed =>
      rw [List.countP_cons_of_pos (by rfl)] at hone
      have hrest : ¬ Commits done := by
        intro hrest
        have hpos : 0 < done.countP WriteStep.isRow := by
          rcases hrest with hmem | hmem
          · exact List.countP_pos_iff.mpr ⟨_, hmem, rfl⟩
          · exact List.countP_pos_iff.mpr ⟨_, hmem, rfl⟩
        omega
      exact rows_of_not_commits (db.take plan (.row indexed)) plan hrest
    | write | deleteOld | joins | index =>
      rw [List.countP_cons_of_neg (by simp [WriteStep.isRow])] at hone
      exact ih (db.take plan _) hone (by simpa [Commits] using h)

/-- A written file reads as the text of the plan. -/
theorem files_row (h : .write ∈ done) (files : String × String → Option String) :
    plan.files done files (plan.row.userId, plan.row.filePath) = some plan.text := by
  have hkept : ∀ (done : List WriteStep) files,
      files (plan.row.userId, plan.row.filePath) = some plan.text →
        plan.files done files (plan.row.userId, plan.row.filePath) = some plan.text := by
    intro done
    induction done with
    | nil => exact fun _ h ↦ h
    | cons step done ih =>
      intro files hfile
      apply ih
      cases step with
      | write => exact Function.update_self ..
      | deleteOld =>
        unfold Plan.file
        cases plan.existing with
        | none => exact hfile
        | some old =>
          by_cases hpath : old.filePath = plan.row.filePath
          · simpa [hpath] using hfile
          · have hne : (plan.row.userId, plan.row.filePath) ≠ (plan.row.userId, old.filePath) :=
              fun heq ↦ hpath (Prod.ext_iff.mp heq).2.symm
            dsimp only
            rw [if_pos hpath, Function.update_of_ne hne, hfile]
      | row _ | joins | index => exact hfile
  obtain ⟨before, after, rfl⟩ := List.append_of_mem h
  unfold Plan.files
  rw [List.foldl_append, List.foldl_cons]
  exact hkept after _ (Function.update_self ..)

/-- The steps carried out are in order as well. -/
theorem ordered_done (hfits : plan.Fits db) (fails : WriteStep → Bool) :
    (plan.done db fails).countP WriteStep.isRow ≤ 1 ∧
      (Indexes (plan.done db fails) →
        Commits (plan.done db fails) ∧ .write ∈ plan.done db fails) := by
  have hpre : plan.done db fails <+: plan.steps := List.takeWhile_prefix _
  exact ⟨Nat.le_trans (hpre.sublist.countP_le) hfits.ordered.1,
    hfits.ordered.2 _ ((List.mem_inits _ _).mpr hpre)⟩

end Steps

section Saves

variable {env : TextEnv} {db : Db} {plan : Plan} {done : List WriteStep}

/-- The articles after a commit: the row and those with another identifier. -/
theorem mem_articles (hkeyed : db.Keyed) (hfits : plan.Fits db) {a : Article} :
    a ∈ plan.articles db.articles ↔ a = plan.row ∨ a ∈ db.articles ∧ a.id ≠ plan.row.id := by
  unfold Plan.articles
  cases hex : plan.existing with
  | some old =>
    obtain ⟨hold, hid⟩ := hfits.existing old hex
    dsimp only
    rw [Rows.mem_modify]
    constructor
    · rintro (⟨_, _, _, rfl⟩ | ⟨ha, hne⟩)
      · exact .inl rfl
      · right
        rw [hid]
        exact ⟨ha, by simpa using hne⟩
    · rintro (rfl | ⟨ha, hne⟩)
      · exact .inl ⟨old, hold, by simp, rfl⟩
      · right
        rw [hid] at hne
        exact ⟨ha, by simpa using hne⟩
  | none =>
    have hid := hfits.new hex
    dsimp only
    rw [List.mem_append, List.mem_singleton, or_comm]
    refine or_congr_right (iff_self_and.mpr fun ha ↦ ?_)
    have hlt := hkeyed.lt a ha
    omega

/-- The identifier of the row is handed out by its commit. -/
theorem row_lt (hkeyed : db.Keyed) (hfits : plan.Fits db) :
    plan.row.id < if plan.existing.isSome then db.nextId else db.nextId + 1 := by
  cases hex : plan.existing with
  | some old =>
    obtain ⟨hold, hid⟩ := hfits.existing old hex
    rw [hid]
    exact hkeyed.lt old hold
  | none =>
    rw [hfits.new hex]
    exact Nat.lt_succ_self _

/-- Commits keep the keys of articles. -/
theorem nodup_articles (hkeyed : db.Keyed) (hfits : plan.Fits db) :
    ((plan.articles db.articles).map (·.id)).Nodup := by
  unfold Plan.articles
  cases hex : plan.existing with
  | some old =>
    obtain ⟨hold, hid⟩ := hfits.existing old hex
    dsimp only
    rw [Rows.map_modify]
    · exact hkeyed.nodup
    · intro r _ hr
      rw [hid]
      simpa using (of_decide_eq_true hr).symm
  | none =>
    dsimp only
    rw [Rows.nodup_map_concat, hfits.new hex]
    exact ⟨hkeyed.nodup, fun a ha ↦ Nat.ne_of_lt (hkeyed.lt a ha)⟩

/-- Steps in order keep the keys. -/
theorem keyed_perform (hkeyed : db.Keyed) (hfits : plan.Fits db)
    (hone : done.countP WriteStep.isRow ≤ 1) (hindexes : Indexes done → Commits done) :
    (db.perform plan done).Keyed := by
  by_cases hcommits : Commits done
  · obtain ⟨harticles, hnext⟩ := rows_of_commits db plan hone hcommits
    have hle : db.nextId ≤ if plan.existing.isSome then db.nextId else db.nextId + 1 := by
      split <;> omega
    constructor
    · rw [harticles]
      exact nodup_articles hkeyed hfits
    · rw [harticles, hnext]
      intro a ha
      rcases (mem_articles hkeyed hfits).mp ha with rfl | ⟨ha, _⟩
      · exact row_lt hkeyed hfits
      · exact Nat.lt_of_lt_of_le (hkeyed.lt a ha) hle
    · rw [hnext, index_perform]
      intro i hi
      have hne : i ≠ plan.row.id := by
        have hlt := row_lt hkeyed hfits
        omega
      split
      · rw [indexArticle, Function.update_of_ne hne]
        exact hkeyed.entries i (Nat.le_trans hle hi)
      · exact hkeyed.entries i (Nat.le_trans hle hi)
  · obtain ⟨harticles, hnext⟩ := rows_of_not_commits db plan hcommits
    refine ⟨by rw [harticles]; exact hkeyed.nodup, by rw [harticles, hnext]; exact hkeyed.lt, ?_⟩
    rw [hnext, index_perform, if_neg fun hin ↦ hcommits (hindexes hin)]
    exact hkeyed.entries

/-- Steps that index no row keep the entries of all articles, and others those of the articles
with another identifier. -/
theorem index_perform_of_ne {i : Nat} (h : ¬ Indexes done ∨ i ≠ plan.row.id) :
    (db.perform plan done).index i = db.index i := by
  rw [index_perform]
  split
  · next hindexes => exact Function.update_of_ne (h.resolve_left fun hnot ↦ hnot hindexes) ..
  · rfl

/-- Steps without the commit of a row keep the index right exactly when no article reads
otherwise. -/
theorem agrees_uncommitted_iff (hkeyed : db.Keyed) (h : Agrees db) (hcommits : ¬ Commits done)
    (hindexes : Indexes done → Commits done) :
    Agrees (db.perform plan done) ↔ Keeps db plan done := by
  obtain ⟨harticles, _⟩ := rows_of_not_commits db plan hcommits
  have hindex : ∀ i, (db.perform plan done).index i = db.index i :=
    fun _ ↦ index_perform_of_ne (.inl fun hin ↦ hcommits (hindexes hin))
  have hafter : ∀ a, plan.after done a = a := fun a ↦ if_neg fun hand ↦ hcommits hand.1
  have hnodup : ((db.perform plan done).articles.map (·.id)).Nodup := by
    rw [harticles]
    exact hkeyed.nodup
  rw [agrees_iff hnodup, harticles]
  constructor
  · intro hexact
    refine ⟨fun hc ↦ absurd hc hcommits, fun hc ↦ absurd hc hcommits, fun a ha ↦ .inr ?_⟩
    have hentry := (hexact (List.ne_nil_of_mem ha)).entries a (by rw [harticles]; exact ha)
    rw [hindex, entry_of_agrees hkeyed h ha, content_perform] at hentry
    rw [hafter]
    exact ⟨rfl, (Prod.ext_iff.mp (Option.some.inj hentry)).2.symm⟩
  · intro hkeeps hne
    have hclean := ((agrees_iff hkeyed.nodup).mp h hne).clean
    constructor
    · rw [harticles]
      intro a ha
      rcases hkeeps.others a ha with ⟨hin, _⟩ | ⟨_, hsame⟩
      · exact absurd (hindexes hin) hcommits
      · rw [hafter] at hsame
        rw [hindex, entry_of_agrees hkeyed h ha, content_perform, hsame]
    · rw [harticles]
      intro i hi
      rw [hindex]
      exact hclean i hi

/-- Steps keep the index right exactly as their condition says. -/
theorem agrees_perform_iff (hkeyed : db.Keyed) (hfits : plan.Fits db) (h : Agrees db)
    (hone : done.countP WriteStep.isRow ≤ 1)
    (hindexes : Indexes done → Commits done ∧ .write ∈ done) :
    Agrees (db.perform plan done) ↔ Keeps db plan done := by
  by_cases hcommits : Commits done
  · obtain ⟨harticles, _⟩ := rows_of_commits db plan hone hcommits
    have hmem : ∀ {a}, a ∈ (db.perform plan done).articles ↔
        a = plan.row ∨ a ∈ db.articles ∧ a.id ≠ plan.row.id := by
      intro a
      rw [harticles]
      exact mem_articles hkeyed hfits
    have hsame : ∀ a : Article, a.id ≠ plan.row.id → plan.after done a = a :=
      fun a hne ↦ if_neg fun hand ↦ hne hand.2
    have hrow : ∀ a : Article, a.id = plan.row.id → plan.after done a = plan.row :=
      fun a heq ↦ if_pos ⟨hcommits, heq⟩
    have hnodup := (keyed_perform hkeyed hfits hone fun hin ↦ (hindexes hin).1).nodup
    rw [agrees_iff hnodup, forall_prop_of_true (List.ne_nil_of_mem (hmem.mpr (.inl rfl)))]
    constructor
    · intro hexact
      constructor
      · intro _ i hi hnone
        have hne : i ≠ plan.row.id := by
          cases hex : plan.existing with
          | some old =>
            obtain ⟨hold, hid⟩ := hfits.existing old hex
            rw [hid]
            exact (hnone old hold).symm
          | none =>
            rw [hfits.new hex]
            exact Nat.ne_of_lt hi
        rw [← index_perform_of_ne (.inr hne)]
        refine hexact.clean i fun a ha ↦ ?_
        rcases hmem.mp ha with rfl | ⟨ha, _⟩
        · exact hne.symm
        · exact hnone a ha
      · intro _ hex
        by_contra hnot
        have hentry := hexact.entries plan.row (hmem.mpr (.inl rfl))
        rw [index_perform_of_ne (.inl hnot), hfits.new hex,
          hkeyed.entries db.nextId (Nat.le_refl _)] at hentry
        cases hentry
      · intro a ha
        have hold := entry_of_agrees hkeyed h ha
        by_cases hid : a.id = plan.row.id
        · by_cases hin : Indexes done
          · exact .inl ⟨hin, hid⟩
          · have hentry := hexact.entries plan.row (hmem.mpr (.inl rfl))
            rw [index_perform_of_ne (.inl hin), ← hid, hold, content_perform] at hentry
            obtain ⟨htitle, htext⟩ := Prod.ext_iff.mp (Option.some.inj hentry)
            rw [hrow a hid]
            exact .inr ⟨htitle.symm, htext.symm⟩
        · have hentry := hexact.entries a (hmem.mpr (.inr ⟨ha, hid⟩))
          rw [index_perform_of_ne (.inr hid), hold, content_perform] at hentry
          rw [hsame a hid]
          exact .inr ⟨rfl, (Prod.ext_iff.mp (Option.some.inj hentry)).2.symm⟩
    · intro hkeeps
      constructor
      · intro a ha
        rw [content_perform]
        rcases hmem.mp ha with rfl | ⟨ha, hne⟩
        · by_cases hin : Indexes done
          · rw [index_perform, if_pos hin, indexArticle, Function.update_self]
            unfold Plan.reads
            rw [files_row (hindexes hin).2]
            rfl
          · cases hex : plan.existing with
            | none => exact absurd (hkeeps.new hcommits hex) hin
            | some old =>
              obtain ⟨hold, hid⟩ := hfits.existing old hex
              obtain ⟨htitle, htext⟩ := (hkeeps.others old hold).resolve_left fun hl ↦ hin hl.1
              rw [hrow old hid.symm] at htitle htext
              rw [index_perform_of_ne (.inl hin), hid, entry_of_agrees hkeyed h hold, htitle,
                htext]
        · obtain ⟨_, htext⟩ := (hkeeps.others a ha).resolve_left fun hl ↦ hne hl.2
          rw [hsame a hne] at htext
          rw [index_perform_of_ne (.inr hne), entry_of_agrees hkeyed h ha, htext]
      · intro i hi
        have hne : i ≠ plan.row.id := (hi plan.row (hmem.mpr (.inl rfl))).symm
        have hnone : ∀ a ∈ db.articles, a.id ≠ i := by
          rintro a ha rfl
          exact hi a (hmem.mpr (.inr ⟨ha, hne⟩)) rfl
        rw [index_perform_of_ne (.inr hne)]
        by_cases hlt : i < db.nextId
        · exact hkeeps.clean hcommits i hlt hnone
        · exact hkeyed.entries i (Nat.le_of_not_lt hlt)
  · exact agrees_uncommitted_iff hkeyed h hcommits fun hin ↦ (hindexes hin).1

end Saves

section Plans

variable {env : TextEnv} {db : Db} {plan : Plan}

private theorem fits_new {row : Article} (hid : row.id = db.nextId) (text : String)
    (concepts : List String) (mark : Conversation → Conversation) {steps : List WriteStep}
    (hsteps : Ordered steps) : Plan.Fits db ⟨none, row, text, concepts, mark, steps⟩ :=
  ⟨(fun _ h ↦ nomatch h), fun _ ↦ hid, hsteps⟩

private theorem fits_old {old row : Article} (hold : old ∈ db.articles) (hid : row.id = old.id)
    (text : String) (concepts : List String) (mark : Conversation → Conversation)
    {steps : List WriteStep} (hsteps : Ordered steps) :
    Plan.Fits db ⟨some old, row, text, concepts, mark, steps⟩ := by
  refine ⟨fun e he ↦ ?_, (fun h ↦ nomatch h), hsteps⟩
  cases he
  exact ⟨hold, hid⟩

private theorem ordered_upsert : Ordered upsertSteps := by decide

private theorem fits_compile {existing : Option Article}
    (hex : ∀ old, existing = some old → old ∈ db.articles) {userId sourceId : String}
    {provider : Option Provider} {build : Build}
    (h : compilePlan env db existing userId sourceId provider build = some plan) :
    plan.Fits db := by
  unfold compilePlan at h
  cases existing with
  | some old =>
    cases h
    exact fits_old (hex old rfl) (by rfl) _ _ _ ordered_upsert
  | none =>
    obtain ⟨slug, _, rfl⟩ := Option.map_eq_some_iff.mp h
    exact fits_new rfl _ _ _ ordered_upsert

/-- Every writer leaves a row that fits. -/
theorem fits_plan {s : Save} (h : db.plan env s = some plan) : plan.Fits db := by
  cases s with
  | compile userId sourceId provider build =>
    refine fits_compile (fun old hold ↦ ?_) h
    unfold findArticle at hold
    cases provider with
    | none => cases hold
    | some p => exact List.mem_of_find?_eq_some hold
  | recompile articleId build =>
    obtain ⟨old, hold, h⟩ := Option.bind_eq_some_iff.mp h
    obtain ⟨sourceId, _, h⟩ := Option.bind_eq_some_iff.mp h
    refine fits_compile (fun e he ↦ ?_) h
    cases he
    exact List.mem_of_find?_eq_some hold
  | conceptPage userId name provider title text =>
    cases h
    unfold conceptPlan
    dsimp only
    cases hfind : db.articles.find? fun a ↦
      a.slug = "concept-" ++ env.slugify none name ∧ a.pageType = .concept ∧ a.userId = userId with
    | some old => exact fits_old (List.mem_of_find?_eq_some hfind) (by rfl) _ _ _ (by decide)
    | none => exact fits_new rfl _ _ _ (by decide)
  | stub userId title body =>
    obtain ⟨slug, _, rfl⟩ := Option.map_eq_some_iff.mp h
    exact fits_new rfl _ _ _ (by decide)
  | fileBack conversationId text =>
    obtain ⟨conversation, _, h⟩ := Option.bind_eq_some_iff.mp h
    split at h
    · next old hold =>
      cases h
      obtain ⟨i, _, hfind⟩ := Option.bind_eq_some_iff.mp hold
      exact fits_old (List.mem_of_find?_eq_some hfind) (by rfl) _ _ _ (by decide)
    · cases h
      exact fits_new rfl _ _ _ (by decide)
  | fileBackTurns userId slug title text =>
    cases h
    exact fits_new rfl _ _ _ (by decide)
  | crystallize conversationId title text =>
    obtain ⟨conversation, _, h⟩ := Option.bind_eq_some_iff.mp h
    split at h
    · cases h
    · obtain ⟨slug, _, h⟩ := Option.bind_eq_some_iff.mp h
      cases h
      exact fits_new rfl _ _ _ (by decide)

end Plans

section Others

variable {db : Db}

/-- Writing what a file reads changes no article. -/
theorem content_update {files : String × String → Option String} {key : String × String}
    {text : String} (h : text = (files key).getD "") (key' : String × String) :
    (Function.update files key (some text) key').getD "" = (files key').getD "" := by
  by_cases hkey : key' = key
  · rw [hkey, Function.update_self, h]
    rfl
  · rw [Function.update_of_ne hkey]

/-- An edit keeps the keys. -/
theorem keyed_edit (h : db.Keyed) (userId : String) (articleId : Nat)
    (content title : Option String) (fails : Bool) :
    (db.edit userId articleId content title fails).Keyed := by
  unfold Db.edit
  split
  · exact h
  · cases fails with
    | true => exact ⟨h.nodup, h.lt, h.entries⟩
    | false =>
      refine ⟨?_, ?_, h.entries⟩
      · show ((Rows.modify _ _ db.articles).map (·.id)).Nodup
        rw [Rows.map_modify]
        · exact h.nodup
        · exact fun _ _ _ ↦ rfl
      · show ∀ a ∈ Rows.modify _ _ db.articles, a.id < db.nextId
        rw [Rows.forall_modify]
        exact ⟨fun r hr _ ↦ h.lt r hr, fun r hr _ ↦ h.lt r hr⟩

/-- An edit keeps the index right exactly when it changes neither text nor title. -/
theorem agrees_edit_iff (hkeyed : db.Keyed) (h : Agrees db) (userId : String) (articleId : Nat)
    (content title : Option String) (fails : Bool) :
    Agrees (db.edit userId articleId content title fails) ↔
      ∀ a ∈ db.articles, a.id = articleId → a.userId = userId →
        (∀ text ∈ content, text = db.content a) ∧
          (fails = false → ∀ t ∈ title, t = a.title) := by
  have hkeyed' := keyed_edit hkeyed userId articleId content title fails
  cases hfind : db.articles.find? fun a ↦ a.id = articleId ∧ a.userId = userId with
  | none =>
    have hself : db.edit userId articleId content title fails = db := by
      unfold Db.edit
      rw [hfind]
    rw [hself]
    refine iff_of_true h fun a ha hid huser ↦ ?_
    have hnot := List.find?_eq_none.mp hfind a ha
    simp [hid, huser] at hnot
  | some a =>
    have ha := List.mem_of_find?_eq_some hfind
    obtain ⟨rfl, rfl⟩ : a.id = articleId ∧ a.userId = userId := by
      simpa using List.find?_some hfind
    have hunique : ∀ x ∈ db.articles, x.id = a.id → x = a :=
      fun x hx heq ↦ Rows.eq_of_nodup hkeyed.nodup ha hx heq
    have hindex : (db.edit a.userId a.id content title fails).index = db.index := by
      unfold Db.edit
      rw [hfind]
    constructor
    · intro h' x hx hid _
      obtain rfl := hunique x hx hid
      have hmem : { x with title := if fails then x.title else title.getD x.title } ∈
          (db.edit x.userId x.id content title fails).articles := by
        unfold Db.edit
        rw [hfind]
        cases fails with
        | true => exact hx
        | false => exact Rows.mem_modify.mpr (.inl ⟨x, hx, by simp, rfl⟩)
      have hnew := entry_of_agrees hkeyed' h' hmem
      rw [hindex, entry_of_agrees hkeyed h hx] at hnew
      obtain ⟨htitle, htext⟩ := Prod.ext_iff.mp (Option.some.inj hnew)
      constructor
      · intro text htextmem
        have hwritten : (db.edit x.userId x.id content title fails).files
            (x.userId, x.filePath) = some text := by
          unfold Db.edit
          rw [hfind, Option.mem_def.mp htextmem]
          exact Function.update_self ..
        change db.content x =
          ((db.edit x.userId x.id content title fails).files _).getD "" at htext
        rw [hwritten] at htext
        exact htext.symm
      · rintro rfl t ht
        rw [Option.mem_def.mp ht] at htitle
        exact htitle.symm
    · intro hsame
      obtain ⟨htext, htitle⟩ := hsame a ha rfl rfl
      rw [agrees_congr db]
      · exact h
      · unfold Db.edit
        rw [hfind]
        cases fails with
        | true => rfl
        | false =>
          show Rows.modify _ _ db.articles = db.articles
          unfold Rows.modify
          conv_rhs => rw [← List.map_id db.articles]
          apply List.map_congr_left
          intro x hx
          split
          · next heq =>
            obtain rfl := hunique x hx (of_decide_eq_true heq)
            cases title with
            | none => rfl
            | some t =>
              have ht := htitle rfl t rfl
              subst ht
              rfl
          · rfl
      · intro x _
        unfold Db.edit
        rw [hfind]
        cases content with
        | none => rfl
        | some text => exact content_update (htext text rfl) _
      · exact hindex

/-- A sweep keeps the index right exactly when it rewrites no file. -/
theorem agrees_sweep_iff (hkeyed : db.Keyed) (h : Agrees db) (articleId : Nat) (text : String) :
    Agrees (db.sweep articleId text) ↔ ∀ a ∈ db.articles, a.id = articleId →
      ∀ content ∈ db.files (a.userId, a.filePath), text = content := by
  cases hfind : db.articles.find? (·.id = articleId) with
  | none =>
    have hself : db.sweep articleId text = db := by
      unfold Db.sweep
      rw [hfind]
    rw [hself]
    refine iff_of_true h fun a ha hid ↦ ?_
    have hnot := List.find?_eq_none.mp hfind a ha
    simp [hid] at hnot
  | some a =>
    have ha := List.mem_of_find?_eq_some hfind
    obtain rfl : a.id = articleId := by simpa using List.find?_some hfind
    have hunique : ∀ x ∈ db.articles, x.id = a.id → x = a :=
      fun x hx heq ↦ Rows.eq_of_nodup hkeyed.nodup ha hx heq
    cases hfile : db.files (a.userId, a.filePath) with
    | none =>
      have hself : db.sweep a.id text = db := by
        unfold Db.sweep
        rw [hfind]
        simp only [hfile]
      rw [hself]
      refine iff_of_true h fun x hx hid content hcontent ↦ ?_
      obtain rfl := hunique x hx hid
      rw [hfile] at hcontent
      cases hcontent
    | some content =>
      by_cases hsame : text = content
      · have hself : db.sweep a.id text = db := by
          unfold Db.sweep
          rw [hfind]
          simp only [hfile, if_pos hsame]
        rw [hself]
        refine iff_of_true h fun x hx hid content' hcontent ↦ ?_
        obtain rfl := hunique x hx hid
        rw [hfile] at hcontent
        cases hcontent
        exact hsame
      · have hsweep : db.sweep a.id text = { db with
            files := Function.update db.files (a.userId, a.filePath) (some text) } := by
          unfold Db.sweep
          rw [hfind]
          simp only [hfile, if_neg hsame]
        rw [hsweep]
        refine iff_of_false (fun h' ↦ ?_) fun hall ↦ hsame (hall a ha rfl content hfile)
        have hold := entry_of_agrees hkeyed h ha
        have hnew := entry_of_agrees (by exact ⟨hkeyed.nodup, hkeyed.lt, hkeyed.entries⟩) h' ha
        rw [show ({ db with files := Function.update db.files (a.userId, a.filePath) (some text) } :
          Db).index = db.index from rfl, hold] at hnew
        have heq := (Prod.ext_iff.mp (Option.some.inj hnew)).2
        simp only [Db.content, Function.update_self, hfile, Option.getD_some] at heq
        exact hsame heq.symm

private abbrev removeEntry (db : Db) (articleId : Nat) : Db :=
  { db with
    articles := db.articles.filter (·.id ≠ articleId)
    index := removeArticle db.index articleId }

private theorem keyed_removeEntry (hkeyed : db.Keyed) (i : Nat) : (removeEntry db i).Keyed := by
  refine ⟨hkeyed.nodup.sublist (List.filter_sublist.map _),
    fun a ha ↦ hkeyed.lt a (List.mem_filter.mp ha).1, fun j hj ↦ ?_⟩
  show removeArticle db.index i j = none
  by_cases hji : j = i
  · rw [hji, removeArticle, Function.update_self]
  · rw [removeArticle, Function.update_of_ne hji]
    exact hkeyed.entries j hj

/-- Removing an article with its entry keeps the index right. -/
private theorem agrees_removeEntry (hkeyed : db.Keyed) (h : Agrees db) (i : Nat) :
    Agrees (removeEntry db i) := by
  rw [agrees_iff (keyed_removeEntry hkeyed i).nodup]
  intro hleft
  have hne : db.articles ≠ [] := by
    intro hempty
    apply hleft
    show db.articles.filter _ = []
    rw [hempty]
    rfl
  obtain ⟨hentries, hclean⟩ := (agrees_iff hkeyed.nodup).mp h hne
  constructor
  · intro a ha
    obtain ⟨ha, hne⟩ := List.mem_filter.mp ha
    show removeArticle db.index i a.id = _
    rw [removeArticle, Function.update_of_ne (by simpa using hne)]
    exact hentries a ha
  · intro j hj
    show removeArticle db.index i j = none
    by_cases hji : j = i
    · rw [hji, removeArticle, Function.update_self]
    · rw [removeArticle, Function.update_of_ne hji]
      apply hclean
      rintro a ha rfl
      exact hj a (List.mem_filter.mpr ⟨ha, by simpa using hji⟩) rfl

/-- The cleanup keeps the keys and a right index. -/
theorem cleanup_spec (hkeyed : db.Keyed) (userId : String) :
    (db.cleanup userId).Keyed ∧ (Agrees db → Agrees (db.cleanup userId)) := by
  unfold Db.cleanup
  generalize db.articles.filter (fun a ↦ a.pageType = .concept ∧ a.userId = userId) = orphans
  induction orphans generalizing db with
  | nil => exact ⟨hkeyed, id⟩
  | cons a orphans ih =>
    rw [List.foldl_cons]
    split
    · exact ih hkeyed
    · obtain ⟨hkeyed', hagrees'⟩ := ih (keyed_removeEntry hkeyed a.id)
      exact ⟨hkeyed', fun h ↦ hagrees' (agrees_removeEntry hkeyed h a.id)⟩

/-- The deletion of an account keeps the keys. -/
theorem keyed_deleteAccount (hkeyed : db.Keyed) (userId : String) :
    (db.deleteAccount userId).Keyed :=
  ⟨hkeyed.nodup.sublist (List.filter_sublist.map _),
    fun a ha ↦ hkeyed.lt a (List.mem_filter.mp ha).1, hkeyed.entries⟩

/-- The deletion of an account keeps the index right exactly when none of the articles are of
the account, or all. -/
theorem agrees_deleteAccount_iff (hkeyed : db.Keyed) (h : Agrees db) (userId : String) :
    Agrees (db.deleteAccount userId) ↔
      (∀ a ∈ db.articles, a.userId ≠ userId) ∨ ∀ a ∈ db.articles, a.userId = userId := by
  have hleft : (db.deleteAccount userId).articles = [] ↔ ∀ a ∈ db.articles, a.userId = userId := by
    show db.articles.filter _ = [] ↔ _
    simp [List.filter_eq_nil_iff]
  constructor
  · intro h'
    rw [or_iff_not_imp_right]
    intro hsome a ha huser
    have hexact := (agrees_iff (keyed_deleteAccount hkeyed userId).nodup).mp h'
      fun hempty ↦ hsome (hleft.mp hempty)
    have hgone : db.index a.id = none := by
      apply hexact.clean
      intro x hx hid
      obtain ⟨hx, hne⟩ := List.mem_filter.mp hx
      rw [Rows.eq_of_nodup hkeyed.nodup ha hx hid] at hne
      simp [huser] at hne
    rw [entry_of_agrees hkeyed h ha] at hgone
    cases hgone
  · rintro (hnone | hall)
    · rw [agrees_congr db]
      · exact h
      · show db.articles.filter _ = db.articles
        rw [List.filter_eq_self]
        intro a ha
        simpa using hnone a ha
      · exact fun _ _ ↦ rfl
      · rfl
    · rw [agrees_iff (keyed_deleteAccount hkeyed userId).nodup]
      exact fun hne ↦ absurd (hleft.mpr hall) hne

end Others

section Runs

variable {env : TextEnv} {db : Db}

/-- Every operation keeps the keys. -/
theorem Db.Keyed.apply (h : db.Keyed) (op : Operation) : (db.apply env op).Keyed := by
  cases op with
  | save s fails =>
    unfold Db.apply
    dsimp only
    split
    · exact h
    · next plan hplan =>
      obtain ⟨hone, hindexes⟩ := ordered_done (fits_plan hplan) fails
      exact keyed_perform h (fits_plan hplan) hone fun hin ↦ (hindexes hin).1
  | edit userId articleId content title fails =>
    exact keyed_edit h userId articleId content title fails
  | sweep articleId text =>
    unfold Db.apply Db.sweep
    dsimp only
    split
    · exact h
    split
    · exact h
    split
    · exact h
    · exact ⟨h.nodup, h.lt, h.entries⟩
  | cleanup userId => exact (cleanup_spec h userId).1
  | deleteSource sourceId => exact h
  | deleteAccount userId => exact keyed_deleteAccount h userId

/-- An operation keeps the index right exactly when it maintains it. -/
theorem agrees_apply_iff (hkeyed : db.Keyed) (h : Agrees db) (op : Operation) :
    Agrees (db.apply env op) ↔ Maintains env db op := by
  cases op with
  | save s fails =>
    show Agrees (match db.plan env s with
      | none => db
      | some plan => db.perform plan (plan.done db fails)) ↔
        ∀ plan ∈ db.plan env s, Keeps db plan (plan.done db fails)
    cases hplan : db.plan env s with
    | none => exact iff_of_true h fun plan hmem ↦ nomatch hmem
    | some plan =>
      simp only [Option.mem_def, Option.some.injEq, forall_eq']
      obtain ⟨hone, hindexes⟩ := ordered_done (fits_plan hplan) fails
      exact agrees_perform_iff hkeyed (fits_plan hplan) h hone hindexes
  | edit userId articleId content title fails =>
    exact agrees_edit_iff hkeyed h userId articleId content title fails
  | sweep articleId text => exact agrees_sweep_iff hkeyed h articleId text
  | cleanup userId => exact iff_of_true ((cleanup_spec hkeyed userId).2 h) trivial
  | deleteSource sourceId => exact iff_of_true h trivial
  | deleteAccount userId => exact agrees_deleteAccount_iff hkeyed h userId

end Runs

section Examples

instance (db : Db) (plan : Plan) (done : List WriteStep) : Decidable (Keeps db plan done) :=
  decidable_of_iff
    ((Commits done → ∀ i < db.nextId, (∀ a ∈ db.articles, a.id ≠ i) → db.index i = none) ∧
      (Commits done → plan.existing = none → Indexes done) ∧
      ∀ a ∈ db.articles, (Indexes done ∧ a.id = plan.row.id) ∨
        ((plan.after done a).title = a.title ∧
          plan.reads done db (plan.after done a) = db.content a))
    ⟨fun ⟨h₁, h₂, h₃⟩ ↦ ⟨h₁, h₂, h₃⟩, fun ⟨h₁, h₂, h₃⟩ ↦ ⟨h₁, h₂, h₃⟩⟩

instance (env : TextEnv) (db : Db) : (op : Operation) → Decidable (Maintains env db op)
  | .save s fails => inferInstanceAs (Decidable (∀ plan ∈ db.plan env s,
      Keeps db plan (plan.done db fails)))
  | .edit userId articleId content title fails =>
    inferInstanceAs (Decidable (∀ a ∈ db.articles, a.id = articleId → a.userId = userId →
      (∀ text ∈ content, text = db.content a) ∧ (fails = false → ∀ t ∈ title, t = a.title)))
  | .sweep articleId text => inferInstanceAs (Decidable (∀ a ∈ db.articles, a.id = articleId →
      ∀ content ∈ db.files (a.userId, a.filePath), text = content))
  | .cleanup _ => .isTrue trivial
  | .deleteSource _ => .isTrue trivial
  | .deleteAccount userId => inferInstanceAs (Decidable
      ((∀ a ∈ db.articles, a.userId ≠ userId) ∨ ∀ a ∈ db.articles, a.userId = userId))

/-- No articles yet and one conversation. -/
def start : Db where
  articles := []
  nextId := 0
  files := fun _ ↦ none
  conversations := [⟨"c", "u", "Talk", none, none⟩]
  index := fun _ ↦ none

/-- Slugs are the titles. -/
def plainText : TextEnv := ⟨fun _ s ↦ s, id, id, id, 3⟩

private theorem keyed_start : start.Keyed := ⟨List.nodup_nil, (fun _ h ↦ nomatch h), fun _ _ ↦ rfl⟩

/-- Nothing fails. -/
def noFault : WriteStep → Bool := fun _ ↦ false

private theorem not_always {db : Db} {env : TextEnv} {ops : List Operation} (i : Nat)
    (h : (ops.foldl (Db.apply env) db).index i ≠ rebuilt (ops.foldl (Db.apply env) db) i) :
    ¬ (store env).Always Agrees db ops := by
  intro halways
  have hend := ((store env).always_iff_forall Agrees db ops).mp halways ops
    (List.prefix_refl ops) _ (Machine.run_ofFun (Db.apply env) db ops)
  exact h (congrFun hend i)

end Examples

end WikiMind.Search
