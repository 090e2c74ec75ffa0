import Mathlib.Data.List.Nodup
import Mathlib.Logic.Function.Basic
import WikiMind.Base.Run
import WikiMind.Wiki.Recompile

/-!
# Which source pages carry a concept

A compile stores the concept names of its result as they are (`engine/compiler.py:702`) and
makes a concept row for the slug of each. The count of a concept, the compiler of concept
pages and the linter read the names back, each in its own way. The tables are those of the
recompiled concept pages; the files of source pages, their claims and the search index are
left out. Keys of articles and sources are drawn from one counter, as they never collide.
-/

namespace WikiMind.Concepts

open WikiMind.Base
open WikiMind.Llm (Provider)
open WikiMind.Wiki.Recompile
open WikiMind.Compile (ArticleConcept freeSlug relativePath)

/-- A source: `models/tables/sources.py`. -/
structure Source where
  id : Nat
  userId : String
  deriving DecidableEq, Repr

/-- The tables of all users, with the column `article_count` by the key of the concept row. -/
structure Wiki where
  db : Db
  sources : List Source
  counts : List ((String × String) × Nat)

/-- `Concept.article_count`. -/
def Wiki.articleCount (w : Wiki) (c : Concept) : Nat :=
  (w.counts.lookup (c.userId, c.name)).getD 0

/-- The parts of a compile that may fail, in their order; `rest` stands for what lies between
the join rows and the concepts. -/
inductive Step where
  | row | joins | rest | concepts | counts
  deriving DecidableEq, Repr

/-- The result of a compile, the time, the keys of new concept rows and the parts that fail. -/
structure Result where
  now : Nat
  provider : Option Provider
  title : String
  summary : String
  concepts : List String
  conceptId : String → String
  fails : Step → Bool

/-- `generate_unique_slug`: `slug.py:24`. -/
def uniqueSlug (env : Env) (db : Db) (userId title : String) : Option String :=
  freeSlug (db.taken userId · none) (env.slugify (some 80) title) env.slugMaxAttempts

/-- `_apply_article_fields`: `engine/compiler.py:614`. -/
def applyArticleFields (env : Env) (source : Source) (r : Result) (x : Article) : Article :=
  { x with
    title := r.title
    summary := r.summary
    filePath := relativePath env.toTextEnv r.concepts x.slug
    conceptIds := r.concepts
    pageType := .source
    updatedAt := r.now
    userId := source.userId }

/-- A new article: `engine/compiler.py:679–693`. -/
def newArticle (env : Env) (userId : String) (source : Source) (r : Result) (id : Nat)
    (slug : String) : Article :=
  { id, userId, slug, title := r.title, summary := r.summary
    filePath := relativePath env.toTextEnv r.concepts slug
    conceptIds := r.concepts, sourceIds := [source.id], provider := r.provider
    pageType := .source, updatedAt := r.now }

/-- `_clear_article_relations`: `engine/compiler.py:806`. -/
def clearArticleRelations (db : Db) (articleId : Nat) : Db :=
  { db with
    backlinks := db.backlinks.filter (·.sourceArticleId ≠ articleId)
    articleConcepts := db.articleConcepts.filter (·.articleId ≠ articleId)
    articleSources := db.articleSources.filter (·.articleId ≠ articleId) }

/-- The first transaction of a compile, which replaces an article or inserts one:
`engine/compiler.py:645–699`. -/
def saveSourceRow (env : Env) (userId : String) (db : Db) (source : Source)
    (existing : Option Article) (r : Result) : Option (Article × Db) :=
  match existing with
  | some old =>
    if r.fails .row ∨ db.taken source.userId old.slug (some old.id) then none
    else
      let articles := Rows.modify (·.id = old.id) (applyArticleFields env source r) db.articles
      some (applyArticleFields env source r old,
        clearArticleRelations { db with articles } old.id)
  | none =>
    match uniqueSlug env db userId r.title with
    | none => none
    | some slug =>
      if r.fails .row then none
      else
        let article := newArticle env userId source r db.nextId slug
        some (article,
          { db with articles := db.articles ++ [article], nextId := db.nextId + 1 })

/-- The join rows, with the names as they are: `engine/compiler.py:702–706`. -/
def addSourceJoins (source : Source) (r : Result) (article : Article) (db : Db) : Db :=
  { db with
    articleSources := db.articleSources ++ [⟨article.id, source.id⟩]
    articleConcepts := db.articleConcepts ++ r.concepts.map fun name ↦ ⟨article.id, name⟩ }

/-- The row of one name, unless it has no slug or the user has the concept:
`services/taxonomy.py:99–113`. -/
def addConcept (env : Env) (userId : String) (conceptId : String → String) (db : Db)
    (name : String) : Db :=
  if env.key name = "" ∨ db.concepts.any fun c ↦ c.userId = userId ∧ c.name = env.key name then db
  else
    { db with
      concepts := db.concepts ++ [⟨conceptId (env.key name), userId, env.key name, "topic"⟩] }

/-- `upsert_concepts`: `services/taxonomy.py:68`. -/
def upsertConcepts (env : Env) (userId : String) (conceptId : String → String) (db : Db)
    (names : List String) : Db :=
  names.foldl (addConcept env userId conceptId) db

/-- The join rows of source pages of the user: `services/taxonomy.py:162–166`. -/
def sourceRows (db : Db) (userId : String) : List ArticleConcept :=
  db.articleConcepts.filter fun ac ↦ db.articles.any fun x ↦
    x.id = ac.articleId ∧ x.pageType = .source ∧ x.userId = userId

/-- One row is counted for the slug of its name, if there is one:
`services/taxonomy.py:169–171`. -/
def countRow (env : Env) (counts : String → Nat) (ac : ArticleConcept) : String → Nat :=
  let normalized := env.key ac.conceptName
  if normalized = "" then counts
  else Function.update counts normalized (counts normalized + 1)

/-- The counts of the slugs, zero by default. -/
def countsOf (env : Env) (db : Db) (userId : String) : String → Nat :=
  (sourceRows db userId).foldl (countRow env) fun _ ↦ 0

/-- `update_article_counts`: `services/taxonomy.py:145`. -/
def updateArticleCounts (env : Env) (userId : String) (w : Wiki) : Wiki :=
  let own := w.db.concepts.filter (·.userId = userId)
  { w with
    counts := (own.map fun c ↦ ((c.userId, c.name), countsOf env w.db userId c.name)) ++
      w.counts }

/-- `_get_articles_for_concept`: `engine/linter/contradictions.py:135`. -/
def getArticlesForConcept (db : Db) (name userId : String) : List Article :=
  db.articles.filter fun x ↦
    (db.articleConcepts.any fun ac ↦ ac.articleId = x.id ∧ ac.conceptName = name) ∧
      x.userId = userId

/-- `_post_save_side_effects` up to the counts: `engine/compiler.py:838–840`. -/
def postSaveSideEffects (env : Env) (userId : String) (w : Wiki) (r : Result) : Wiki :=
  if r.fails .concepts then w
  else
    let w := { w with db := upsertConcepts env userId r.conceptId w.db r.concepts }
    if r.fails .counts then w else updateArticleCounts env userId w

/-- `_upsert_article`; a name that is listed twice violates the key of the join rows:
`engine/compiler.py:636`. -/
def upsertArticle (env : Env) (userId : String) (w : Wiki) (source : Source)
    (existing : Option Article) (r : Result) : Wiki :=
  match saveSourceRow env userId w.db source existing r with
  | none => w
  | some (article, saved) =>
    if r.fails .joins ∨ ¬ r.concepts.Nodup then { w with db := saved }
    else
      let w := { w with db := addSourceJoins source r article saved }
      if r.fails .rest then w else postSaveSideEffects env userId w r

/-- `_find_article_for_source_and_provider`: `engine/compiler.py:596`. -/
def findArticle (db : Db) (sourceId : Nat) (provider : Option Provider) : Option Article :=
  match provider with
  | none => none
  | some p =>
    db.articles.find? fun x ↦
      (db.articleSources.any fun as ↦ as.articleId = x.id ∧ as.sourceId = sourceId) ∧
        x.provider = some p

/-- `fetch_source_ids_for_article`: `queries/articles.py:56`. -/
def fetchSourceIds (db : Db) (x : Article) : List Nat :=
  match (db.articleSources.filter (·.articleId = x.id)).map (·.sourceId) with
  | [] => x.sourceIds
  | ids => ids

/-- What happens to the tables: a source arrives, is compiled by `save_article`, an article is
recompiled in place from its first source, a concept page is compiled. -/
inductive Event where
  | ingest (userId : String)
  | compile (userId : String) (sourceId : Nat) (r : Result)
  | recompile (userId : String) (articleId : Nat) (r : Result)
  | page (userId : String) (concept : Concept) (a : Attempt)

/-- One event. The id of a user is a UUID, never empty. -/
def step (env : Env) (w : Wiki) : Event → Option Wiki
  | .ingest userId =>
    if userId = "" then none
    else
      some { w with
        sources := w.sources ++ [⟨w.db.nextId, userId⟩]
        db := { w.db with nextId := w.db.nextId + 1 } }
  | .compile userId sourceId r =>
    if userId = "" then none
    else (w.sources.find? (·.id = sourceId)).map fun source ↦
      upsertArticle env userId w source (findArticle w.db sourceId r.provider) r
  | .recompile userId articleId r =>
    if userId = "" then none
    else
      (w.db.articles.find? (·.id = articleId)).bind fun x ↦
        (fetchSourceIds w.db x).head?.bind fun sourceId ↦
          (w.sources.find? (·.id = sourceId)).map fun source ↦
            upsertArticle env userId w source (some x) r
  | .page userId concept a =>
    if concept ∈ w.db.concepts then
      some { w with db := (compileConceptPage env userId w.db a concept).2 }
    else none

/-- The transition system of all users. -/
def machine (env : Env) : Machine Wiki Event := ⟨step env⟩

/-- An empty wiki with its concept kinds. -/
def start (kinds : List ConceptKindDef) : Wiki where
  db :=
    { articles := [], nextId := 0, articleConcepts := [], articleSources := [], backlinks := []
      concepts := [], kinds, jobs := [], files := [] }
  sources := []
  counts := []

/-- The readers agree on a concept: its count is the number of source pages that its page is
compiled from, and the linter finds at least these. -/
def Agrees (env : Env) (w : Wiki) (c : Concept) : Prop :=
  (updateArticleCounts env c.userId w).articleCount c =
      (collectSourceArticles env c.userId w.db c.name).length ∧
    ∀ x ∈ collectSourceArticles env c.userId w.db c.name,
      x ∈ getArticlesForConcept w.db c.name c.userId

/-- Every name of a source page that has the slug of the concept is that slug. -/
def Spelled (env : Env) (w : Wiki) (c : Concept) : Prop :=
  ∀ ac ∈ sourceRows w.db c.userId, env.key ac.conceptName = c.name → ac.conceptName = c.name

instance (env : Env) (w : Wiki) (c : Concept) : Decidable (Agrees env w c) :=
  inferInstanceAs (Decidable (_ ∧ _))

/-- The names of a result are slugs already or have none. -/
def Event.Plain (env : Env) : Event → Prop
  | .compile _ _ r | .recompile _ _ r =>
    ∀ name ∈ r.concepts, env.key name = name ∨ env.key name = ""
  | _ => True

/-- Keys are unique, and a concept is named by the slug of a name and has an owner. -/
structure Sound (env : Env) (db : Db) : Prop where
  keyed : db.Keyed
  nodup : db.articleConcepts.Nodup
  concepts : ∀ c ∈ db.concepts, env.key c.name = c.name ∧ c.name ≠ "" ∧ c.userId ≠ ""

/-- An article of the past without concept names. -/
structure Fresh (db : Db) (articleId : Nat) : Prop where
  lt : articleId < db.nextId
  rows : ∀ ac ∈ db.articleConcepts, ac.articleId ≠ articleId

section Counting

variable {env : Env} {w : Wiki} {db : Db} {userId : String}

/-- The loop adds one for each row with the slug. -/
theorem foldl_countRow {name : String} (hname : name ≠ "") (rows : List ArticleConcept)
    (counts : String → Nat) :
    rows.foldl (countRow env) counts name =
      counts name + (rows.filter fun ac ↦ env.key ac.conceptName = name).length := by
  induction rows generalizing counts with
  | nil => simp
  | cons ac rest ih =>
    rw [List.foldl_cons, ih, List.filter_cons]
    unfold countRow
    by_cases hkey : env.key ac.conceptName = name
    · simp only [hkey, hname, if_false, Function.update_self, decide_true, if_true,
        List.length_cons]
      omega
    · have hne : name ≠ env.key ac.conceptName := fun h ↦ hkey h.symm
      by_cases hempty : env.key ac.conceptName = ""
      · have hslug : "" ≠ name := fun h ↦ hname h.symm
        simp [hempty, hslug]
      · simp [hkey, hempty, Function.update_of_ne hne]

private theorem lookup_map {rows : List Concept} {c : Concept} (hc : c ∈ rows) (f : String → Nat) :
    (rows.map fun x ↦ ((x.userId, x.name), f x.name)).lookup (c.userId, c.name) =
      some (f c.name) := by
  induction rows with
  | nil => cases hc
  | cons x rest ih =>
    rw [List.map_cons, List.lookup_cons]
    by_cases hkey : (c.userId, c.name) = (x.userId, x.name)
    · have hname : c.name = x.name := congrArg Prod.snd hkey
      rw [hkey, hname]
      simp
    · have hrest : c ∈ rest := by
        rcases List.mem_cons.mp hc with rfl | hrest
        · exact absurd rfl hkey
        · exact hrest
      have hfalse : ((c.userId, c.name) == (x.userId, x.name)) = false := by
        simpa using hkey
      rw [hfalse]
      exact ih hrest

/-- The count of a concept is the number of join rows with its slug on source pages. -/
theorem articleCount_update {c : Concept} (hc : c ∈ w.db.concepts) (hname : c.name ≠ "") :
    (updateArticleCounts env c.userId w).articleCount c =
      ((sourceRows w.db c.userId).filter fun ac ↦ env.key ac.conceptName = c.name).length := by
  have hmem : c ∈ w.db.concepts.filter (·.userId = c.userId) := by simp [hc]
  unfold Wiki.articleCount updateArticleCounts
  dsimp only
  rw [List.lookup_append, lookup_map hmem, Option.some_or, Option.getD_some]
  unfold countsOf
  rw [foldl_countRow hname]
  omega

/-- Each page that is collected has one join row, and each such row one page. -/
theorem length_collect (hkeyed : db.Keyed) (hnodup : db.articleConcepts.Nodup)
    (huser : userId ≠ "") (name : String) :
    (collectSourceArticles env userId db name).length =
      ((sourceRows db userId).filter (·.conceptName = env.key name)).length := by
  let rows := (sourceRows db userId).filter (·.conceptName = env.key name)
  let sources := collectSourceArticles env userId db name
  have hsources : (sources.map (·.id)).Nodup :=
    hkeyed.nodup.sublist (List.filter_sublist.map _)
  have hrows : (rows.map (·.articleId)).Nodup := by
    apply List.Nodup.map_on
    · intro x hx y hy heq
      have hxname : x.conceptName = env.key name := by simpa using List.of_mem_filter hx
      have hyname : y.conceptName = env.key name := by simpa using List.of_mem_filter hy
      cases x
      cases y
      simp_all
    · exact (hnodup.filter _).filter _
  have hperm : (sources.map (·.id)).Perm (rows.map (·.articleId)) := by
    rw [List.perm_ext_iff_of_nodup hsources hrows]
    intro id
    simp only [sources, rows, collectSourceArticles, sourceRows, List.mem_map, List.mem_filter,
      List.any_eq_true, decide_eq_true_eq, huser, false_or]
    constructor
    · rintro ⟨x, ⟨hx, htype, hown, ac, hac, hacid, hacname⟩, rfl⟩
      exact ⟨ac, ⟨⟨hac, x, hx, hacid.symm, htype, hown⟩, hacname⟩, hacid⟩
    · rintro ⟨ac, ⟨⟨hac, x, hx, hid, htype, hown⟩, hacname⟩, rfl⟩
      exact ⟨x, ⟨hx, htype, hown, ac, hac, hid.symm, hacname⟩, hid⟩
  have hlength := hperm.length_eq
  simpa [sources, rows] using hlength

/-- A stronger filter selects as many elements exactly when it selects the same. -/
theorem length_filter_eq_iff {α : Type} {p q : α → Bool} {l : List α}
    (hpq : ∀ x ∈ l, q x = true → p x = true) :
    (l.filter p).length = (l.filter q).length ↔ ∀ x ∈ l, p x = true → q x = true := by
  rw [← Rows.filter_delete_other hpq, eq_comm, List.length_filter_eq_length_iff]
  simp only [List.mem_filter, and_imp]

/-- The readers agree on a concept exactly when every source page that is counted for it
carries its slug. -/
theorem agrees_iff (hsound : Sound env w.db) {c : Concept} (hc : c ∈ w.db.concepts) :
    Agrees env w c ↔ Spelled env w c := by
  obtain ⟨hslug, hname, huser⟩ := hsound.concepts c hc
  unfold Agrees Spelled
  have hlinter : ∀ x ∈ collectSourceArticles env c.userId w.db c.name,
      x ∈ getArticlesForConcept w.db c.name c.userId := by
    intro x hx
    unfold collectSourceArticles at hx
    rw [hslug] at hx
    simp only [huser, false_or, List.mem_filter, decide_eq_true_eq] at hx
    obtain ⟨hmem, -, hown, hcarries⟩ := hx
    exact List.mem_filter.mpr ⟨hmem, by simpa [hown] using hcarries⟩
  rw [and_iff_left hlinter, articleCount_update hc hname,
    length_collect hsound.keyed hsound.nodup huser, hslug, length_filter_eq_iff]
  · simp only [decide_eq_true_eq]
  · intro ac _ hac
    have heq : ac.conceptName = c.name := by simpa using hac
    simpa [heq] using hslug

end Counting

section Steps

variable {env : Env} {w t : Wiki} {db db' : Db} {userId : String} {article old : Article}
  {source : Source} {existing : Option Article} {r : Result} {concept : Concept} {a : Attempt}

/-- What the invariant reads. -/
theorem Sound.congr (h : Sound env db) (htables : db'.tables = db.tables) : Sound env db' := by
  simp only [Db.tables, Prod.mk.injEq] at htables
  obtain ⟨harticles, hnext, hconcepts, hnames, hsources⟩ := htables
  constructor
  · constructor
    · rw [harticles]
      exact h.keyed.nodup
    · rw [harticles, hnext]
      exact h.keyed.articles
    · rw [hnames, hnext]
      exact h.keyed.articleConcepts
    · rw [hsources, hnext]
      exact h.keyed.articleSources
  · rw [hnames]
    exact h.nodup
  · rw [hconcepts]
    exact h.concepts

/-- An article is rewritten and its join rows are deleted. -/
theorem sound_replace (old : Article) (f : Article → Article) (h : Sound env db)
    (hold : old ∈ db.articles) (hid : ∀ x, (f x).id = x.id)
    (htables : db'.tables = (Rows.modify (·.id = old.id) f db.articles, db.nextId, db.concepts,
      db.articleConcepts.filter (·.articleId ≠ old.id),
      db.articleSources.filter (·.articleId ≠ old.id))) :
    Sound env db' ∧ Fresh db' old.id := by
  simp only [Db.tables, Prod.mk.injEq] at htables
  obtain ⟨harticles, hnext, hconcepts, hnames, hsources⟩ := htables
  refine ⟨⟨⟨?_, ?_, ?_, ?_⟩, ?_, ?_⟩, ?_, ?_⟩
  · rw [harticles, Rows.map_modify fun x _ _ ↦ hid x]
    exact h.keyed.nodup
  · rw [harticles, hnext, Rows.forall_modify]
    exact ⟨fun x hx _ ↦ (hid x).symm ▸ h.keyed.articles x hx, fun x hx _ ↦ h.keyed.articles x hx⟩
  · rw [hnames, hnext]
    exact fun ac hac ↦ h.keyed.articleConcepts ac (List.mem_of_mem_filter hac)
  · rw [hsources, hnext]
    exact fun as has ↦ h.keyed.articleSources as (List.mem_of_mem_filter has)
  · rw [hnames]
    exact h.nodup.filter _
  · rw [hconcepts]
    exact h.concepts
  · rw [hnext]
    exact h.keyed.articles old hold
  · rw [hnames]
    intro ac hac
    simpa using List.of_mem_filter hac

/-- An article is inserted. -/
theorem sound_insert (h : Sound env db) (hid : article.id = db.nextId)
    (htables : db'.tables = (db.articles ++ [article], db.nextId + 1, db.concepts,
      db.articleConcepts, db.articleSources)) :
    Sound env db' ∧ Fresh db' article.id := by
  simp only [Db.tables, Prod.mk.injEq] at htables
  obtain ⟨harticles, hnext, hconcepts, hnames, hsources⟩ := htables
  refine ⟨⟨⟨?_, ?_, ?_, ?_⟩, ?_, ?_⟩, ?_, ?_⟩
  · rw [harticles, Rows.nodup_map_concat, hid]
    exact ⟨h.keyed.nodup, fun x hx ↦ Nat.ne_of_lt (h.keyed.articles x hx)⟩
  · rw [harticles, hnext]
    intro x hx
    rcases List.mem_append.mp hx with hx | hx
    · have hlt := h.keyed.articles x hx
      omega
    · rw [List.mem_singleton.mp hx]
      omega
  · rw [hnames, hnext]
    exact fun ac hac ↦ Nat.lt_succ_of_lt (h.keyed.articleConcepts ac hac)
  · rw [hsources, hnext]
    exact fun as has ↦ Nat.lt_succ_of_lt (h.keyed.articleSources as has)
  · rw [hnames]
    exact h.nodup
  · rw [hconcepts]
    exact h.concepts
  · omega
  · rw [hnames]
    intro ac hac
    have hlt := h.keyed.articleConcepts ac hac
    omega

/-- Join rows are added to an article that has none. -/
theorem sound_addRows {id : Nat} (names : List String) (sourceIds : List Nat)
    (h : Sound env db) (hfresh : Fresh db id) (hnames : names.Nodup)
    (htables : db'.tables = (db.articles, db.nextId, db.concepts,
      db.articleConcepts ++ names.map (⟨id, ·⟩), db.articleSources ++ sourceIds.map (⟨id, ·⟩))) :
    Sound env db' := by
  simp only [Db.tables, Prod.mk.injEq] at htables
  obtain ⟨harticles, hnext, hconcepts, hrows, hsources⟩ := htables
  refine ⟨⟨?_, ?_, ?_, ?_⟩, ?_, ?_⟩
  · rw [harticles]
    exact h.keyed.nodup
  · rw [harticles, hnext]
    exact h.keyed.articles
  · rw [hrows, hnext]
    intro ac hac
    rcases List.mem_append.mp hac with hac | hac
    · exact h.keyed.articleConcepts ac hac
    · obtain ⟨name, -, rfl⟩ := List.mem_map.mp hac
      exact hfresh.lt
  · rw [hsources, hnext]
    intro as has
    rcases List.mem_append.mp has with has | has
    · exact h.keyed.articleSources as has
    · obtain ⟨sourceId, -, rfl⟩ := List.mem_map.mp has
      exact hfresh.lt
  · rw [hrows, List.nodup_append]
    refine ⟨h.nodup, hnames.map fun x y hxy ↦ congrArg ArticleConcept.conceptName hxy, ?_⟩
    rintro ac hac _ hmem rfl
    obtain ⟨name, -, rfl⟩ := List.mem_map.mp hmem
    exact hfresh.rows _ hac rfl
  · rw [hconcepts]
    exact h.concepts

/-- The first transaction of a compile leaves an article without concept names. -/
theorem sound_saveSourceRow {saved : Db} (h : Sound env db)
    (hexisting : ∀ x, existing = some x → x ∈ db.articles)
    (hrow : saveSourceRow env userId db source existing r = some (article, saved)) :
    Sound env saved ∧ Fresh saved article.id := by
  unfold saveSourceRow at hrow
  cases existing with
  | some old =>
    dsimp only at hrow
    split at hrow
    · cases hrow
    · cases hrow
      exact sound_replace old (applyArticleFields env source r) h (hexisting old rfl)
        (fun _ ↦ rfl) rfl
  | none =>
    dsimp only at hrow
    split at hrow
    · cases hrow
    · split at hrow
      · cases hrow
      · cases hrow
        exact sound_insert h rfl rfl

/-- The concept rows stay slugs. -/
theorem sound_addConcept (hslug : ∀ s, env.key (env.key s) = env.key s) (huser : userId ≠ "")
    {conceptId : String → String} {name : String} (h : Sound env db) :
    Sound env (addConcept env userId conceptId db name) := by
  unfold addConcept
  split
  · exact h
  next hnew =>
    refine ⟨⟨h.keyed.nodup, h.keyed.articles, h.keyed.articleConcepts, h.keyed.articleSources⟩,
      h.nodup, ?_⟩
    intro c hc
    rcases List.mem_append.mp hc with hc | hc
    · exact h.concepts c hc
    · rw [List.mem_singleton.mp hc]
      simp only [not_or] at hnew
      exact ⟨hslug name, hnew.1, huser⟩

private theorem sound_upsertConcepts (hslug : ∀ s, env.key (env.key s) = env.key s)
    (huser : userId ≠ "") (conceptId : String → String) (names : List String)
    (h : Sound env db) : Sound env (upsertConcepts env userId conceptId db names) := by
  unfold upsertConcepts
  induction names generalizing db with
  | nil => exact h
  | cons name rest ih => exact ih (sound_addConcept hslug huser h)

private theorem sound_postSaveSideEffects (hslug : ∀ s, env.key (env.key s) = env.key s)
    (huser : userId ≠ "") (h : Sound env w.db) :
    Sound env (postSaveSideEffects env userId w r).db := by
  have hupserted := sound_upsertConcepts hslug huser r.conceptId r.concepts h
  unfold postSaveSideEffects
  split
  · exact h
  · dsimp only
    split
    · exact hupserted
    · exact hupserted

private theorem sound_upsertArticle (hslug : ∀ s, env.key (env.key s) = env.key s)
    (huser : userId ≠ "") (hexisting : ∀ x, existing = some x → x ∈ w.db.articles)
    (h : Sound env w.db) : Sound env (upsertArticle env userId w source existing r).db := by
  unfold upsertArticle
  split
  · exact h
  next article saved hrow =>
    obtain ⟨hsaved, hfresh⟩ := sound_saveSourceRow h hexisting hrow
    split
    · exact hsaved
    next hjoins =>
      simp only [not_or, not_not] at hjoins
      have hadded : Sound env (addSourceJoins source r article saved) :=
        sound_addRows r.concepts [source.id] hsaved hfresh hjoins.2 rfl
      dsimp only
      split
      · exact hadded
      · exact sound_postSaveSideEffects hslug huser hadded

/-- Compiling a concept page keeps the keys. -/
theorem sound_compileConceptPage (h : Sound env db) :
    Sound env (compileConceptPage env userId db a concept).2 := by
  rcases compileConceptPage_cases env userId db a concept with hsame |
    ⟨compilation, sources, page, saved, -, hcommits, hrow, htables⟩
  · rw [hsame]
    exact h
  · have hsaved : Sound env saved ∧ Fresh saved page.id := by
      rcases saveRow_eq_ok compilation sources hcommits with ⟨old, hold, hreplace⟩ | ⟨-, hinsert⟩
      · rw [hreplace] at hrow
        cases hrow
        exact sound_replace old (applyFields env a concept compilation sources) h
          (mem_of_findExisting hold).1 (fun _ ↦ rfl) rfl
      · rw [hinsert] at hrow
        cases hrow
        exact sound_insert h rfl rfl
    split at htables
    · have hadded : Sound env (addJoins concept sources page saved) := by
        apply sound_addRows [concept.name] (sources.map (·.id)) hsaved.1 hsaved.2
          (List.nodup_singleton concept.name)
        simp [Db.tables, addJoins, Function.comp_def]
      exact hadded.congr htables
    · exact hsaved.1.congr htables

/-- The invariant of every step. -/
theorem sound_step (hslug : ∀ s, env.key (env.key s) = env.key s) {e : Event}
    (h : Sound env w.db) (hstep : step env w e = some t) : Sound env t.db := by
  cases e with
  | ingest userId =>
    simp only [step, Option.ite_none_left_eq_some, Option.some.injEq] at hstep
    obtain ⟨-, rfl⟩ := hstep
    exact ⟨⟨h.keyed.nodup, fun x hx ↦ Nat.lt_succ_of_lt (h.keyed.articles x hx),
      fun ac hac ↦ Nat.lt_succ_of_lt (h.keyed.articleConcepts ac hac),
      fun as has ↦ Nat.lt_succ_of_lt (h.keyed.articleSources as has)⟩, h.nodup, h.concepts⟩
  | compile userId sourceId r =>
    simp only [step, Option.ite_none_left_eq_some, Option.map_eq_some_iff] at hstep
    obtain ⟨huser, source, -, rfl⟩ := hstep
    apply sound_upsertArticle hslug huser _ h
    intro x hx
    unfold findArticle at hx
    split at hx
    · cases hx
    · exact List.mem_of_find?_eq_some hx
  | recompile userId articleId r =>
    simp only [step, Option.ite_none_left_eq_some, Option.bind_eq_some_iff,
      Option.map_eq_some_iff] at hstep
    obtain ⟨huser, x, hx, sourceId, -, source, -, rfl⟩ := hstep
    apply sound_upsertArticle hslug huser _ h
    rintro _ ⟨⟩
    exact List.mem_of_find?_eq_some hx
  | page userId concept a =>
    simp only [step, Option.ite_none_right_eq_some, Option.some.injEq] at hstep
    obtain ⟨-, rfl⟩ := hstep
    exact sound_compileConceptPage h

/-- The names of join rows are slugs or have none. -/
def Slugs (env : Env) (db : Db) : Prop :=
  ∀ ac ∈ db.articleConcepts, env.key ac.conceptName = ac.conceptName ∨ env.key ac.conceptName = ""

private theorem mem_of_saveSourceRow {saved : Db} {ac : ArticleConcept}
    (hrow : saveSourceRow env userId db source existing r = some (article, saved))
    (hac : ac ∈ saved.articleConcepts) : ac ∈ db.articleConcepts := by
  unfold saveSourceRow at hrow
  cases existing with
  | some old =>
    dsimp only at hrow
    split at hrow
    · cases hrow
    · cases hrow
      exact List.mem_of_mem_filter hac
  | none =>
    dsimp only at hrow
    split at hrow
    · cases hrow
    · split at hrow
      · cases hrow
      · cases hrow
        exact hac

private theorem articleConcepts_upsertConcepts (conceptId : String → String) (names : List String) :
    (upsertConcepts env userId conceptId db names).articleConcepts = db.articleConcepts := by
  unfold upsertConcepts
  induction names generalizing db with
  | nil => rfl
  | cons name rest ih =>
    refine ih.trans ?_
    unfold addConcept
    split <;> rfl

private theorem articleConcepts_postSaveSideEffects :
    (postSaveSideEffects env userId w r).db.articleConcepts = w.db.articleConcepts := by
  unfold postSaveSideEffects
  split
  · rfl
  · dsimp only
    split <;> exact articleConcepts_upsertConcepts r.conceptId r.concepts

/-- A compile adds join rows with the names of its result only. -/
theorem mem_of_upsertArticle {ac : ArticleConcept}
    (hac : ac ∈ (upsertArticle env userId w source existing r).db.articleConcepts) :
    ac ∈ w.db.articleConcepts ∨ ac.conceptName ∈ r.concepts := by
  unfold upsertArticle at hac
  split at hac
  · left
    exact hac
  next article saved hrow =>
    have hadded : ac ∈ (addSourceJoins source r article saved).articleConcepts →
        ac ∈ w.db.articleConcepts ∨ ac.conceptName ∈ r.concepts := by
      intro h
      rcases List.mem_append.mp h with h | h
      · left
        exact mem_of_saveSourceRow hrow h
      · right
        obtain ⟨name, hname, rfl⟩ := List.mem_map.mp h
        exact hname
    split at hac
    · left
      exact mem_of_saveSourceRow hrow hac
    · dsimp only at hac
      split at hac
      · exact hadded hac
      · rw [articleConcepts_postSaveSideEffects] at hac
        exact hadded hac

/-- The compile of a concept page adds a join row with the name of the concept only. -/
theorem mem_of_compileConceptPage {ac : ArticleConcept}
    (hac : ac ∈ (compileConceptPage env userId db a concept).2.articleConcepts) :
    ac ∈ db.articleConcepts ∨ ac.conceptName = concept.name := by
  rcases compileConceptPage_cases env userId db a concept with hsame |
    ⟨compilation, sources, page, saved, -, hcommits, hrow, htables⟩
  · left
    rw [hsame] at hac
    exact hac
  · have hkept : ∀ ac ∈ saved.articleConcepts, ac ∈ db.articleConcepts := by
      rcases saveRow_eq_ok compilation sources hcommits with ⟨old, -, hreplace⟩ | ⟨-, hinsert⟩
      · rw [hreplace] at hrow
        cases hrow
        exact fun ac hac ↦ List.mem_of_mem_filter hac
      · rw [hinsert] at hrow
        cases hrow
        exact fun ac hac ↦ hac
    have hnames := congrArg (·.2.2.2.1) htables
    simp only [Db.tables] at hnames
    rw [hnames] at hac
    split at hac
    · rcases List.mem_append.mp hac with hac | hac
      · left
        exact hkept ac hac
      · right
        rw [List.mem_singleton.mp hac]
    · left
      exact hkept ac hac

/-- Results with plain names keep all names plain. -/
theorem slugs_step {e : Event} (hsound : Sound env w.db) (h : Slugs env w.db) (he : e.Plain env)
    (hstep : step env w e = some t) : Slugs env t.db := by
  have hupsert : ∀ {userId source existing r},
      (∀ name ∈ r.concepts, env.key name = name ∨ env.key name = "") →
        Slugs env (upsertArticle env userId w source existing r).db := by
    intro userId source existing r hplain ac hac
    rcases mem_of_upsertArticle hac with hold | hnew
    · exact h ac hold
    · exact hplain ac.conceptName hnew
  cases e with
  | ingest userId =>
    simp only [step, Option.ite_none_left_eq_some, Option.some.injEq] at hstep
    obtain ⟨-, rfl⟩ := hstep
    exact h
  | compile userId sourceId r =>
    simp only [step, Option.ite_none_left_eq_some, Option.map_eq_some_iff] at hstep
    obtain ⟨-, source, -, rfl⟩ := hstep
    exact hupsert he
  | recompile userId articleId r =>
    simp only [step, Option.ite_none_left_eq_some, Option.bind_eq_some_iff,
      Option.map_eq_some_iff] at hstep
    obtain ⟨-, x, -, sourceId, -, source, -, rfl⟩ := hstep
    exact hupsert he
  | page userId concept a =>
    simp only [step, Option.ite_none_right_eq_some, Option.some.injEq] at hstep
    obtain ⟨hconcept, rfl⟩ := hstep
    intro ac hac
    rcases mem_of_compileConceptPage hac with hold | hnew
    · exact h ac hold
    · left
      rw [hnew]
      exact (hsound.concepts concept hconcept).1

/-- Where all names are plain, a name with the slug of a concept is that slug. -/
theorem spelled_of_slugs {c : Concept} (hname : c.name ≠ "") (h : Slugs env w.db) :
    Spelled env w c := by
  intro ac hac hkey
  rcases h ac (List.mem_of_mem_filter hac) with hslug | hempty
  · rw [← hslug]
    exact hkey
  · rw [hempty] at hkey
    exact absurd hkey.symm hname

theorem sound_start (env : Env) (kinds : List ConceptKindDef) : Sound env (start kinds).db := by
  constructor
  · constructor <;> simp [start]
  · exact List.nodup_nil
  · simp [start]

end Steps

/-- In every state that compiles reach, the count of a concept, its page and the linter agree
exactly when every source page counted for it carries its slug; they always do where all
compiles emit slugs. -/
theorem readers_agree_iff (env : Env) (hslug : ∀ s, env.key (env.key s) = env.key s)
    (kinds : List ConceptKindDef) (es : List Event) (w : Wiki)
    (hrun : (machine env).run (start kinds) es = some w) (c : Concept) (hc : c ∈ w.db.concepts) :
    (Agrees env w c ↔ Spelled env w c) ∧ ((∀ e ∈ es, e.Plain env) → Agrees env w c) := by
  have hsound : Sound env w.db :=
    (machine env).invariant_of_reachable (I := fun w ↦ Sound env w.db)
      (fun _ _ _ h hstep ↦ sound_step hslug h hstep) (sound_start env kinds) ⟨es, hrun⟩
  refine ⟨agrees_iff hsound hc, fun hplain ↦ (agrees_iff hsound hc).mpr ?_⟩
  have hslugs : Sound env w.db ∧ Slugs env w.db := by
    refine (machine env).invariant_of_guarded (I := fun w ↦ Sound env w.db ∧ Slugs env w.db)
      ?_ ⟨sound_start env kinds, fun ac hac ↦ nomatch hac⟩
      ((machine env).guarded_of_forall hplain) hrun
    intro s e t h he hstep
    exact ⟨sound_step hslug h.1 hstep, slugs_step h.1 h.2 he hstep⟩
  exact spelled_of_slugs (hsound.concepts c hc).2.1 hslugs.2

/-- The slug of one name; other names are taken to be slugs. -/
def sampleEnv : Env :=
  { Wiki.Recompile.sampleEnv with
    slugify := fun _ name ↦ if name = "Machine Learning" then "machine-learning" else name }

private theorem key_sampleEnv (s : String) : sampleEnv.key (sampleEnv.key s) = sampleEnv.key s := by
  unfold Env.key sampleEnv
  by_cases h : s = "Machine Learning" <;> simp [h]

/-- A source is compiled to a page with the names. -/
def sampleRun (names : List String) : List Event :=
  [.ingest "u", .compile "u" 0 ⟨1, none, "Notes", "", names, id, fun _ ↦ false⟩]

theorem readers_agree_plain : ∃ w,
    (machine sampleEnv).run (start []) (sampleRun ["machine-learning"]) = some w ∧
      ∃ c ∈ w.db.concepts, Agrees sampleEnv w c := by
  have hrun : ∃ w, (machine sampleEnv).run (start []) (sampleRun ["machine-learning"]) = some w ∧
      ⟨"machine-learning", "u", "machine-learning", "topic"⟩ ∈ w.db.concepts :=
    ⟨_, rfl, by decide +kernel⟩
  obtain ⟨w, hw, hc⟩ := hrun
  refine ⟨w, hw, _, hc, (readers_agree_iff sampleEnv key_sampleEnv [] _ w hw _ hc).2 ?_⟩
  simp [sampleRun, Event.Plain, Env.key, sampleEnv]

/-- A name that is no slug is counted but not collected. -/
theorem readers_not_agree : ¬ ∀ env : Env, (∀ s, env.key (env.key s) = env.key s) →
    ∀ kinds es w, (machine env).run (start kinds) es = some w →
      ∀ c ∈ w.db.concepts, Agrees env w c := by
  intro h
  have hrun : ∃ w, (machine sampleEnv).run (start []) (sampleRun ["Machine Learning"]) = some w ∧
      ∃ c ∈ w.db.concepts, ¬ Agrees sampleEnv w c :=
    ⟨_, rfl, ⟨"machine-learning", "u", "machine-learning", "topic"⟩, by decide +kernel,
      by decide +kernel⟩
  obtain ⟨w, hw, c, hc, hnot⟩ := hrun
  exact hnot (h sampleEnv key_sampleEnv [] _ w hw c hc)

end WikiMind.Concepts
