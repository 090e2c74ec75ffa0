import WikiMind.Base.Run
import WikiMind.Compile.Articles

/-!
# Saving a compiled article

`Compiler.save_article` (`engine/compiler.py:571`) writes its rows in several transactions:
the article first, then its links, backlinks and claims. An exception takes back what was
not committed yet. An attempt says where it fails, if anywhere; retries are attempts in a
row. The compiler runs for the owner of the source.
-/

namespace WikiMind.Compile

open WikiMind.Base WikiMind.Llm

/-- The points at which a save may fail, in their order. -/
inductive Stage where
  | find | slug | resolve | writeFile | deleteOld | clear | commitArticle
  | refresh | commitLinks | index | commitBacklinks | commitClaims | confidence | sideEffects
  deriving DecidableEq, Repr

/-- One call of `save_article`: the result to save, the relation types and source spans of
its compilation, and the stages that fail when they are reached. -/
structure Attempt where
  result : CompilationResult
  relationTypes : List (String × String)
  sourceSpans : List String
  fails : Stage → Bool

/-- A stage is reached. -/
def Attempt.reach (a : Attempt) (stage : Stage) : Except Exc Unit :=
  if a.fails stage then .error (.runtimeError "save_article") else .ok ()

/-- `_find_article_for_source_and_provider`: `engine/compiler.py:596`. -/
def findArticle (db : Tables) (sourceId : String) (provider : Option Provider) : Option Article :=
  match provider with
  | none => none
  | some p =>
    (db.articles.filter fun x ↦ db.articleSources.any fun l ↦
      l.articleId = x.id ∧ l.sourceId = sourceId).find? (·.provider = some p)

/-- `_apply_article_fields`: `engine/compiler.py:615`. -/
def applyArticleFields (article : Article) (result : CompilationResult) (path userId : String)
    (now : Nat) : Article :=
  { article with
    title := result.title
    summary := result.summary
    confidence := overallConfidence result.keyClaims
    filePath := path
    conceptIds := result.concepts
    userId
    compiledAt := now }

/-- `_clear_article_relations`: `engine/compiler.py:811`. -/
def Tables.clearRelations (db : Tables) (articleId : Nat) : Tables :=
  { db with
    backlinks := db.backlinks.filter (·.sourceArticleId ≠ articleId)
    claims := db.claims.filter (·.articleId ≠ articleId)
    articleConcepts := db.articleConcepts.filter (·.articleId ≠ articleId)
    articleSources := db.articleSources.filter (·.articleId ≠ articleId) }

/-- The source is marked as compiled: `engine/compiler.py:695–697`. -/
def Tables.markCompiled (db : Tables) (sourceId : String) : Tables :=
  { db with sources :=
      Rows.modify (·.id = sourceId) (fun s ↦ { s with compiledAt := some db.clock }) db.sources }

/-- The old file goes when the path changes: `engine/compiler.py:668`. -/
def deleteOldFile (a : Attempt) (existing : Article) (path : String) : Except Exc Unit :=
  if existing.filePath ≠ path then a.reach .deleteOld else .ok ()

/-- The first transaction on the replace path: `engine/compiler.py:665–676, 699`. -/
def replaceArticle (env : TextEnv) (db : Tables) (userId sourceId : String) (a : Attempt)
    (existing : Article) : Except Exc (Article × Tables) := do
  let path := relativePath env a.result.concepts existing.slug
  deleteOldFile a existing path
  let apply (article : Article) := applyArticleFields article a.result path userId db.clock
  a.reach .clear
  a.reach .commitArticle
  let articles := Rows.modify (·.id = existing.id) apply db.articles
  return (apply existing, ({ db with articles }.clearRelations existing.id).markCompiled sourceId)

/-- The first transaction on the create path: `engine/compiler.py:678–693, 699`. -/
def createArticle (env : TextEnv) (db : Tables) (userId sourceId slug : String)
    (provider : Option Provider) (a : Attempt) : Except Exc (Article × Tables) := do
  let article : Article :=
    { id := db.nextId, userId, slug, title := a.result.title
      filePath := relativePath env a.result.concepts slug
      conceptIds := a.result.concepts
      confidence := overallConfidence a.result.keyClaims
      summary := a.result.summary, sourceIds := [sourceId], provider, compiledAt := db.clock }
  a.reach .commitArticle
  return (article, { db with
    articles := db.articles ++ [article], nextId := db.nextId + 1 }.markCompiled sourceId)

/-- The slug of the article: `engine/compiler.py:646–652`. -/
def chooseSlug (env : TextEnv) (db : Tables) (userId : String) (existing : Option Article)
    (a : Attempt) : Except Exc String :=
  match existing with
  | some article => .ok article.slug
  | none => do
    a.reach .slug
    generateUniqueSlug env db.articles userId a.result.title

/-- The first transaction, on the path of the existing article or of a new one. -/
def upsertRow (env : TextEnv) (db : Tables) (userId sourceId slug : String)
    (provider : Option Provider) (existing : Option Article) (a : Attempt) :
    Except Exc (Article × Tables) :=
  match existing with
  | some article => replaceArticle env db userId sourceId a article
  | none => createArticle env db userId sourceId slug provider a

/-- `_upsert_article` up to its first commit: `engine/compiler.py:636–699`. -/
def writeArticle (env : TextEnv) (db : Tables) (userId sourceId : String)
    (provider : Option Provider) (existing : Option Article) (a : Attempt) :
    Except Exc (Article × List ResolvedBacklink × Tables) := do
  let slug ← chooseSlug env db userId existing a
  a.reach .resolve
  let resolved := resolveBacklinkCandidates env db.articles userId (existing.map Article.id)
    a.relationTypes a.result.backlinkSuggestions
  a.reach .writeFile
  let (article, db) ← upsertRow env db userId sourceId slug provider existing a
  return (article, resolved, db)

/-- The join rows of a saved article; a key that occurs twice violates the primary key.
`engine/compiler.py:703–706`. -/
def addLinks (db : Tables) (articleId : Nat) (sourceId : String) (concepts : List String) :
    Except Exc Tables :=
  let articleSources : List ArticleSource := db.articleSources ++ [⟨articleId, sourceId⟩]
  let articleConcepts : List ArticleConcept :=
    db.articleConcepts ++ concepts.map fun name ↦ ⟨articleId, name⟩
  if articleSources.Nodup ∧ articleConcepts.Nodup then
    .ok { db with articleSources, articleConcepts }
  else .error .integrityError

/-- `_persist_resolved_backlinks`, which skips keys that exist: `engine/compiler.py:866`. -/
def addBacklinks (db : Tables) (articleId : Nat) (userId : String)
    (resolved : List ResolvedBacklink) : Tables :=
  let insert (rows : List Backlink) (rb : ResolvedBacklink) : List Backlink :=
    if rows.any fun r ↦ r.sourceArticleId = articleId ∧ r.targetArticleId = rb.targetId then rows
    else rows ++ [⟨articleId, rb.targetId, userId, rb.candidateText,
      if rb.relationType ∈ relationTypeValues then rb.relationType else "references"⟩]
  { db with backlinks := resolved.foldl insert db.backlinks }

/-- `_persist_claims`: `engine/compiler.py:895`. -/
def addClaims (db : Tables) (articleId : Nat) (userId sourceId : String) (a : Attempt) : Tables :=
  { db with claims := db.claims ++ a.result.keyClaims.map fun dto ↦
      { articleId, userId, text := dto.claim, subjects := dto.subjects, predicate := dto.predicate
        confidenceLevel := dto.confidence, quote := dto.quote
        sourceIds := if dto.sourceIds.isEmpty then [sourceId] else dto.sourceIds
        sourceSpanIds := dto.sourceSpanIds.filter (· ∈ a.sourceSpans) } }

/-- Do some work and commit it; when it raises, what was committed before remains. -/
def commitStep (before : Tables) (work : Except Exc Tables)
    (next : Tables → Except Exc Article × Tables) : Except Exc Article × Tables :=
  match work with
  | .error e => (.error e, before)
  | .ok db => next db

/-- `_upsert_article` from its first commit on: `engine/compiler.py:700–728`. -/
def finishArticle (db : Tables) (userId sourceId : String) (a : Attempt) (article : Article)
    (resolved : List ResolvedBacklink) : Except Exc Article × Tables :=
  commitStep db (do
      a.reach .refresh
      let db ← addLinks db article.id sourceId a.result.concepts
      a.reach .commitLinks
      return db) fun db ↦
  commitStep db (do
      a.reach .index
      return db) fun db ↦
  commitStep db (do
      a.reach .commitBacklinks
      return addBacklinks db article.id userId resolved) fun db ↦
  commitStep db (do
      a.reach .commitClaims
      return addClaims db article.id userId sourceId a) fun db ↦
  commitStep db (do
      a.reach .confidence
      a.reach .sideEffects
      return db) fun db ↦
  (.ok article, db)

/-- `save_article`: the response and the committed tables. `engine/compiler.py:571`. -/
def saveArticle (env : TextEnv) (userId sourceId : String) (provider : Option Provider)
    (db : Tables) (a : Attempt) : Except Exc Article × Tables :=
  let started := { db with clock := db.clock + 1 }
  match a.reach .find with
  | .error e => (.error e, started)
  | .ok () =>
    match writeArticle env db userId sourceId provider (findArticle db sourceId provider) a with
    | .error e => (.error e, started)
    | .ok (article, resolved, written) =>
      finishArticle { written with clock := db.clock + 1 } userId sourceId a article resolved

/-- The tables of the save are the same. -/
structure SameRows (db db' : Tables) : Prop where
  articles : db'.articles = db.articles
  articleSources : db'.articleSources = db.articleSources
  articleConcepts : db'.articleConcepts = db.articleConcepts
  claims : db'.claims = db.claims
  backlinks : db'.backlinks = db.backlinks

theorem SameRows.trans {db db' db'' : Tables} (h : SameRows db db') (h' : SameRows db' db'') :
    SameRows db db'' :=
  ⟨h'.articles.trans h.articles, h'.articleSources.trans h.articleSources,
    h'.articleConcepts.trans h.articleConcepts, h'.claims.trans h.claims,
    h'.backlinks.trans h.backlinks⟩

theorem SameRows.symm {db db' : Tables} (h : SameRows db db') : SameRows db' db :=
  ⟨h.articles.symm, h.articleSources.symm, h.articleConcepts.symm, h.claims.symm,
    h.backlinks.symm⟩

/-- The number of articles compiled from a source by a provider. -/
def compiledFrom (db : Tables) (sourceId : String) (provider : Option Provider) : Nat :=
  db.articles.countP fun x ↦ x.provider = provider ∧ sourceId ∈ x.sourceIds

/-- Every article is of a time that has passed. -/
def Tables.Stamped (db : Tables) : Prop := ∀ x ∈ db.articles, x.compiledAt < db.clock

/-- At most one article is compiled from the source by the provider, and the link table
knows of it and of no other. -/
def Tables.Linked (db : Tables) (sourceId : String) (provider : Option Provider) : Prop :=
  compiledFrom db sourceId provider ≤ 1 ∧ ∀ x ∈ db.articles, x.provider = provider →
    ((∃ l ∈ db.articleSources, l.articleId = x.id ∧ l.sourceId = sourceId) ↔
      sourceId ∈ x.sourceIds)

/-- The attempt fails at its first commit or before it. -/
def StopsEarly (env : TextEnv) (userId sourceId : String) (provider : Option Provider)
    (db : Tables) (a : Attempt) : Prop :=
  a.fails .find = true ∨ a.fails .resolve = true ∨ a.fails .writeFile = true ∨
    a.fails .commitArticle = true ∨
    match findArticle db sourceId provider with
    | none => a.fails .slug = true ∨
        Raises (generateUniqueSlug env db.articles userId a.result.title)
    | some existing =>
        (existing.filePath ≠ relativePath env a.result.concepts existing.slug ∧
          a.fails .deleteOld = true) ∨ a.fails .clear = true

/-- The system of failed attempts: the steps are the saves that raise. -/
def failedSaves (env : TextEnv) (userId sourceId : String) (provider : Option Provider) :
    Machine Tables Attempt :=
  ⟨fun db a ↦
    match saveArticle env userId sourceId provider db a with
    | (.error _, db') => some db'
    | (.ok _, _) => none⟩

/-- What the first commit decides: the articles, at the time of the save. -/
def Tables.view (db : Tables) : List Article × Nat := (db.articles, db.clock)

/-- What a first transaction writes: a new article, or new values of the one it found, without
its old relations. -/
def Writes (sourceId : String) (provider : Option Provider) (existing : Option Article)
    (db : Tables) (article : Article) (written : Tables) : Prop :=
  match existing with
  | none =>
    (article.id = db.nextId ∧ article.compiledAt = db.clock ∧ article.provider = provider ∧
      article.sourceIds = [sourceId]) ∧
    written = Tables.markCompiled
      { db with articles := db.articles ++ [article], nextId := db.nextId + 1 } sourceId
  | some e => ∃ f : Article → Article, article = f e ∧
    (∀ x, (f x).id = x.id ∧ (f x).compiledAt = db.clock ∧ (f x).provider = x.provider ∧
      (f x).sourceIds = x.sourceIds) ∧
    written = (Tables.clearRelations
      { db with articles := Rows.modify (·.id = e.id) f db.articles } e.id).markCompiled sourceId

/-- The first commit of a save from `db` leaves these articles: the create path adds one,
the replace path rewrites the one it found; either is of this time. -/
def FirstCommit (sourceId : String) (provider : Option Provider) (db : Tables)
    (articles : List Article) : Prop :=
  match findArticle db sourceId provider with
  | none => ∃ article, articles = db.articles ++ [article] ∧ article.compiledAt = db.clock ∧
      article.provider = provider ∧ article.sourceIds = [sourceId]
  | some existing => ∃ f : Article → Article,
      articles = Rows.modify (·.id = existing.id) f db.articles ∧
      ∀ x, (f x).compiledAt = db.clock ∧ (f x).provider = x.provider ∧
        (f x).sourceIds = x.sourceIds

section Save

variable {env : TextEnv} {userId sourceId : String} {provider : Option Provider}
  {db db' : Tables} {a : Attempt}

@[simp] theorem Attempt.reach_eq_ok {stage : Stage} {u : Unit} :
    a.reach stage = .ok u ↔ a.fails stage = false := by
  unfold Attempt.reach
  cases a.fails stage <;> simp

/-- What the find loop returns is an article of the provider that is linked to the source. -/
theorem findArticle_eq_some {existing : Article}
    (h : findArticle db sourceId provider = some existing) :
    existing ∈ db.articles ∧ provider ≠ none ∧ existing.provider = provider ∧
      ∃ l ∈ db.articleSources, l.articleId = existing.id ∧ l.sourceId = sourceId := by
  unfold findArticle at h
  cases provider with
  | none => cases h
  | some p =>
    have hmem := List.mem_filter.mp (List.mem_of_find?_eq_some h)
    have hp := List.find?_some h
    simp only [List.any_eq_true, decide_eq_true_eq] at hmem hp
    exact ⟨hmem.1, by simp, hp, hmem.2⟩

/-- It returns nothing only if no article of the provider is linked to the source. -/
theorem findArticle_eq_none {x : Article} (h : findArticle db sourceId provider = none)
    (hprovider : provider ≠ none) (hx : x ∈ db.articles) (hp : x.provider = provider) :
    ¬ ∃ l ∈ db.articleSources, l.articleId = x.id ∧ l.sourceId = sourceId := by
  intro hlink
  unfold findArticle at h
  cases provider with
  | none => exact hprovider rfl
  | some p =>
    have hlinked : x ∈ db.articles.filter fun x ↦ db.articleSources.any fun l ↦
        l.articleId = x.id ∧ l.sourceId = sourceId := by
      rw [List.mem_filter]
      simp only [List.any_eq_true, decide_eq_true_eq]
      exact ⟨hx, hlink⟩
    have hnot := List.find?_eq_none.mp h x hlinked
    simp [hp] at hnot

/-- A step of the later transactions keeps articles and clock, if its work does. -/
theorem view_commitStep {work : Except Exc Tables} {next : Tables → Except Exc Article × Tables}
    (hwork : ∀ t, work = .ok t → t.view = db.view) (hnext : ∀ t, (next t).2.view = t.view) :
    (commitStep db work next).2.view = db.view := by
  unfold commitStep
  cases hw : work with
  | error e => rfl
  | ok t => exact (hnext t).trans (hwork t hw)

private theorem eq_of_reach {stage : Stage} {t t' : Tables}
    (h : (do a.reach stage; return t) = Except.ok t') : t' = t := by
  obtain ⟨_, _, h⟩ := bind_eq_ok.mp h
  cases h
  rfl

/-- The join rows leave articles and clock. -/
theorem view_addLinks {articleId : Nat} {concepts : List String}
    (h : addLinks db articleId sourceId concepts = .ok db') : db'.view = db.view := by
  unfold addLinks at h
  dsimp only at h
  split at h
  · cases h
    rfl
  · cases h

/-- After the first commit the articles are written: what follows leaves them. -/
theorem view_finishArticle (db : Tables) (userId sourceId : String) (a : Attempt)
    (article : Article) (resolved : List ResolvedBacklink) :
    (finishArticle db userId sourceId a article resolved).2.view = db.view := by
  unfold finishArticle
  apply view_commitStep
  · intro t ht
    obtain ⟨_, _, ht⟩ := bind_eq_ok.mp ht
    obtain ⟨linked, hlinked, ht⟩ := bind_eq_ok.mp ht
    rw [eq_of_reach ht, view_addLinks hlinked]
  intro t
  apply view_commitStep
  · intro t' ht
    rw [eq_of_reach ht]
  intro t
  apply view_commitStep
  · intro t' ht
    rw [eq_of_reach ht]
    rfl
  intro t
  apply view_commitStep
  · intro t' ht
    rw [eq_of_reach ht]
    rfl
  intro t
  apply view_commitStep
  · intro t' ht
    obtain ⟨_, _, ht⟩ := bind_eq_ok.mp ht
    rw [eq_of_reach ht]
  · exact fun _ ↦ rfl

theorem writeArticle_eq_ok {existing : Option Article} {article : Article}
    {resolved : List ResolvedBacklink} {written : Tables}
    (h : writeArticle env db userId sourceId provider existing a =
      .ok (article, resolved, written)) :
    resolved = resolveBacklinkCandidates env db.articles userId (existing.map Article.id)
        a.relationTypes a.result.backlinkSuggestions ∧
      Writes sourceId provider existing db article written := by
  unfold writeArticle at h
  obtain ⟨slug, _, h⟩ := bind_eq_ok.mp h
  obtain ⟨_, _, h⟩ := bind_eq_ok.mp h
  obtain ⟨_, _, h⟩ := bind_eq_ok.mp h
  obtain ⟨⟨new, t⟩, hrow, h⟩ := bind_eq_ok.mp h
  cases h
  refine ⟨rfl, ?_⟩
  cases existing with
  | none =>
    obtain ⟨_, _, hrow⟩ := bind_eq_ok.mp hrow
    cases hrow
    exact ⟨⟨rfl, rfl, rfl, rfl⟩, rfl⟩
  | some e =>
    obtain ⟨_, _, hrow⟩ := bind_eq_ok.mp hrow
    obtain ⟨_, _, hrow⟩ := bind_eq_ok.mp hrow
    obtain ⟨_, _, hrow⟩ := bind_eq_ok.mp hrow
    cases hrow
    exact ⟨fun x ↦ applyArticleFields x a.result
      (relativePath env a.result.concepts e.slug) userId db.clock, rfl,
      fun x ↦ ⟨rfl, rfl, rfl, rfl⟩, rfl⟩

/-- A first transaction that succeeds is the first commit of its save. -/
theorem firstCommit_of_writeArticle {article : Article} {resolved : List ResolvedBacklink}
    (h : writeArticle env db userId sourceId provider (findArticle db sourceId provider) a =
      .ok (article, resolved, db')) : FirstCommit sourceId provider db db'.articles := by
  obtain ⟨-, hwritten⟩ := writeArticle_eq_ok h
  unfold FirstCommit
  unfold Writes at hwritten
  cases hfind : findArticle db sourceId provider with
  | none =>
    rw [hfind] at hwritten
    obtain ⟨⟨-, hstamp, hprovider, hsources⟩, rfl⟩ := hwritten
    exact ⟨article, rfl, hstamp, hprovider, hsources⟩
  | some existing =>
    rw [hfind] at hwritten
    obtain ⟨f, -, hf, rfl⟩ := hwritten
    exact ⟨f, rfl, fun x ↦ (hf x).2⟩

/-- The articles after a first commit are those before it and articles of this time. -/
theorem mem_of_firstCommit {articles : List Article}
    (h : FirstCommit sourceId provider db articles) :
    ∀ x ∈ articles, x ∈ db.articles ∨ x.compiledAt = db.clock := by
  intro x hx
  unfold FirstCommit at h
  cases hfind : findArticle db sourceId provider with
  | none =>
    rw [hfind] at h
    obtain ⟨article, rfl, hstamp, _⟩ := h
    rcases List.mem_append.mp hx with hold | hnew
    · exact .inl hold
    · rw [List.mem_singleton.mp hnew]
      exact .inr hstamp
  | some existing =>
    rw [hfind] at h
    obtain ⟨f, rfl, hf⟩ := h
    rcases Rows.mem_modify.mp hx with ⟨y, _, _, rfl⟩ | ⟨hold, _⟩
    · exact .inr (hf y).1
    · exact .inl hold

/-- A first commit leaves an article of this time, by the provider it looked for. -/
theorem exists_of_firstCommit {articles : List Article}
    (h : FirstCommit sourceId provider db articles) :
    ∃ x ∈ articles, x.compiledAt = db.clock ∧ x.provider = provider := by
  unfold FirstCommit at h
  cases hfind : findArticle db sourceId provider with
  | none =>
    rw [hfind] at h
    obtain ⟨article, rfl, hstamp, hprovider, _⟩ := h
    exact ⟨article, by simp, hstamp, hprovider⟩
  | some existing =>
    rw [hfind] at h
    obtain ⟨f, rfl, hf⟩ := h
    obtain ⟨hmem, _, hp, _⟩ := findArticle_eq_some hfind
    refine ⟨f existing, ?_, (hf existing).1, (hf existing).2.1.trans hp⟩
    exact Rows.mem_modify.mpr (.inl ⟨existing, hmem, by simp, rfl⟩)

/-- A first commit adds one article of the source and provider, or keeps their number. -/
theorem compiledFrom_of_firstCommit (h : FirstCommit sourceId provider db db'.articles) :
    compiledFrom db' sourceId provider = match findArticle db sourceId provider with
      | none => compiledFrom db sourceId provider + 1
      | some _ => compiledFrom db sourceId provider := by
  unfold FirstCommit at h
  unfold compiledFrom
  cases hfind : findArticle db sourceId provider with
  | none =>
    rw [hfind] at h
    obtain ⟨article, harticles, _, hprovider, hsources⟩ := h
    rw [harticles, List.countP_append, List.countP_singleton]
    simp [hprovider, hsources]
  | some existing =>
    rw [hfind] at h
    obtain ⟨f, harticles, hf⟩ := h
    rw [harticles]
    unfold Rows.modify
    rw [List.countP_map]
    apply List.countP_congr
    intro x _
    by_cases hx : x.id = existing.id
    · simp [hx, (hf x).2.1, (hf x).2.2]
    · simp [hx]

@[simp] theorem Attempt.raises_reach {stage : Stage} :
    Raises (a.reach stage) ↔ a.fails stage = true := by
  unfold Attempt.reach Raises
  cases a.fails stage <;> simp

/-- The create path raises at its commit only. -/
theorem raises_createArticle {slug : String} :
    Raises (createArticle env db userId sourceId slug provider a) ↔
      a.fails .commitArticle = true := by
  unfold createArticle
  refine (raises_bind (Q := False) fun _ _ ↦ ?_).trans ?_
  · exact iff_false_intro (raises_ok _)
  · rw [Attempt.raises_reach, or_false]

/-- The replace path raises where the old file or the old rows cannot be deleted, or at
its commit. -/
theorem raises_replaceArticle {existing : Article} :
    Raises (replaceArticle env db userId sourceId a existing) ↔
      (existing.filePath ≠ relativePath env a.result.concepts existing.slug ∧
        a.fails .deleteOld = true) ∨ a.fails .clear = true ∨ a.fails .commitArticle = true := by
  have hold : ∀ path, Raises (deleteOldFile a existing path) ↔
      existing.filePath ≠ path ∧ a.fails .deleteOld = true := by
    intro path
    unfold deleteOldFile
    by_cases h : existing.filePath ≠ path
    · rw [if_pos h, Attempt.raises_reach, and_iff_right h]
    · simp [h]
  unfold replaceArticle
  refine (raises_bind fun _ _ ↦ raises_bind fun _ _ ↦
    raises_bind (Q := False) fun _ _ ↦ ?_).trans ?_
  · exact iff_false_intro (raises_ok _)
  · rw [hold, Attempt.raises_reach, Attempt.raises_reach, or_false]

/-- The first transaction raises at its slug, its resolution, its file or its rows. -/
theorem raises_writeArticle {existing : Option Article} {Q : Prop}
    (hrow : ∀ slug, Raises (upsertRow env db userId sourceId slug provider existing a) ↔ Q) :
    Raises (writeArticle env db userId sourceId provider existing a) ↔
      Raises (chooseSlug env db userId existing a) ∨ a.fails .resolve = true ∨
        a.fails .writeFile = true ∨ Q := by
  unfold writeArticle
  refine (raises_bind fun slug _ ↦ raises_bind fun _ _ ↦
    raises_bind (Q := Q) fun _ _ ↦ ?_).trans ?_
  · refine (raises_bind (Q := False) fun _ _ ↦ ?_).trans ?_
    · exact iff_false_intro (raises_ok _)
    · rw [hrow slug, or_false]
  · rw [Attempt.raises_reach, Attempt.raises_reach]

/-- The first commit is missed precisely when the attempt stops early. -/
theorem stopsEarly_iff : StopsEarly env userId sourceId provider db a ↔
    a.fails .find = true ∨ Raises (writeArticle env db userId sourceId provider
      (findArticle db sourceId provider) a) := by
  unfold StopsEarly
  cases findArticle db sourceId provider with
  | none =>
    have hslug : Raises (chooseSlug env db userId none a) ↔ a.fails .slug = true ∨
        Raises (generateUniqueSlug env db.articles userId a.result.title) := by
      refine (raises_bind fun _ _ ↦ Iff.rfl).trans ?_
      rw [Attempt.raises_reach]
    have hrow (slug : String) :
        Raises (upsertRow env db userId sourceId slug provider none a) ↔ _ :=
      raises_createArticle
    rw [raises_writeArticle hrow, hslug]
    grind
  | some existing =>
    have hslug : ¬ Raises (chooseSlug env db userId (some existing) a) := raises_ok _
    have hrow (slug : String) :
        Raises (upsertRow env db userId sourceId slug provider (some existing) a) ↔ _ :=
      raises_replaceArticle
    rw [raises_writeArticle hrow]
    grind

/-- All a save can do: stop early and leave every row, or commit its article and go on. -/
theorem saveArticle_cases (env : TextEnv) (userId sourceId : String) (provider : Option Provider)
    (db : Tables) (a : Attempt) :
    (StopsEarly env userId sourceId provider db a ∧
      ∃ e, saveArticle env userId sourceId provider db a =
        (.error e, { db with clock := db.clock + 1 })) ∨
    (¬ StopsEarly env userId sourceId provider db a ∧
      FirstCommit sourceId provider db (saveArticle env userId sourceId provider db a).2.articles ∧
      (saveArticle env userId sourceId provider db a).2.clock = db.clock + 1) := by
  rw [stopsEarly_iff]
  unfold saveArticle
  cases hfind : a.reach .find with
  | error e =>
    left
    exact ⟨.inl (Attempt.raises_reach.mp ⟨e, hfind⟩), e, rfl⟩
  | ok u =>
    have hfails : ¬ a.fails .find = true := by simp [Attempt.reach_eq_ok.mp hfind]
    cases hwrite : writeArticle env db userId sourceId provider
        (findArticle db sourceId provider) a with
    | error e =>
      left
      exact ⟨.inr ⟨e, rfl⟩, e, rfl⟩
    | ok saved =>
      right
      obtain ⟨article, resolved, written⟩ := saved
      have hview := view_finishArticle { written with clock := db.clock + 1 } userId sourceId a
        article resolved
      obtain ⟨harticles, hclock⟩ := Prod.mk.inj hview
      refine ⟨?_, ?_, hclock⟩
      · rintro (h | h)
        · exact hfails h
        · exact raises_ok _ h
      · have hcommit := firstCommit_of_writeArticle hwrite
        show FirstCommit sourceId provider db _
        rw [harticles]
        exact hcommit

/-- A save keeps the articles of past times. -/
theorem Tables.Stamped.save (h : db.Stamped) :
    (saveArticle env userId sourceId provider db a).2.Stamped := by
  rcases saveArticle_cases env userId sourceId provider db a with
    ⟨_, e, heq⟩ | ⟨_, hcommit, hclock⟩
  · rw [heq]
    intro x hx
    have hpast := h x hx
    show x.compiledAt < db.clock + 1
    omega
  · intro x hx
    rw [hclock]
    rcases mem_of_firstCommit hcommit x hx with hold | hnew
    · have hpast := h x hold
      omega
    · omega

/-- A save leaves all rows precisely when it stops early: past the first commit there is
an article of its own time. -/
theorem sameRows_iff (h : db.Stamped) :
    SameRows db (saveArticle env userId sourceId provider db a).2 ↔
      StopsEarly env userId sourceId provider db a := by
  rcases saveArticle_cases env userId sourceId provider db a with
    ⟨hearly, e, heq⟩ | ⟨hlate, hcommit, hclock⟩
  · rw [heq]
    exact iff_of_true ⟨rfl, rfl, rfl, rfl, rfl⟩ hearly
  · refine iff_of_false (fun hsame ↦ ?_) hlate
    obtain ⟨article, hmem, hstamp, _⟩ := exists_of_firstCommit hcommit
    rw [hsame.articles] at hmem
    have hpast := h article hmem
    omega

/-- Where the link table knows the articles of the source, a successful save leaves one,
unless it has no provider to look for. -/
theorem compiledFrom_save {article : Article} (hlinked : db.Linked sourceId provider)
    (hok : saveArticle env userId sourceId provider db a = (.ok article, db')) :
    compiledFrom db' sourceId provider = 1 ↔
      provider ≠ none ∨ compiledFrom db sourceId provider = 0 := by
  rcases saveArticle_cases env userId sourceId provider db a with ⟨_, e, heq⟩ | ⟨_, hcommit, _⟩
  · rw [hok] at heq
    cases heq
  rw [hok] at hcommit
  rw [compiledFrom_of_firstCommit hcommit]
  cases hfind : findArticle db sourceId provider with
  | none =>
    by_cases hprovider : provider = none
    · simp [hprovider]
    · -- an article of the source would be linked, and found
      have hzero : compiledFrom db sourceId provider = 0 := by
        unfold compiledFrom
        rw [List.countP_eq_zero]
        intro x hx hcounted
        simp only [decide_eq_true_eq] at hcounted
        exact findArticle_eq_none hfind hprovider hx hcounted.1
          ((hlinked.2 x hx hcounted.1).mpr hcounted.2)
      simp [hzero]
  | some existing =>
    obtain ⟨hmem, hprovider, hp, hlink⟩ := findArticle_eq_some hfind
    have hpos : 0 < compiledFrom db sourceId provider := by
      unfold compiledFrom
      rw [List.countP_pos_iff]
      exact ⟨existing, hmem, by simp [hp, (hlinked.2 existing hmem hp).mp hlink]⟩
    have hle := hlinked.1
    simp only [hprovider, ne_eq, not_false_eq_true, true_or, iff_true]
    omega

end Save

/-- Failed attempts on a source, then a successful one: every failed attempt leaves all rows
as they were and exactly one article of the source and provider results, precisely when
every failed attempt stops at its first commit or before, and there is a provider to look
for or no such article at the start. -/
theorem saveArticle_retry_iff {env : TextEnv} {userId sourceId : String}
    {provider : Option Provider} {db db' db'' : Tables} {failed : List Attempt} {last : Attempt}
    {article : Article} (hstamped : db.Stamped) (hlinked : db.Linked sourceId provider)
    (hrun : (failedSaves env userId sourceId provider).run db failed = some db')
    (hlast : saveArticle env userId sourceId provider db' last = (.ok article, db'')) :
    ((failedSaves env userId sourceId provider).Steps (fun s _ t ↦ SameRows s t) db failed ∧
        compiledFrom db'' sourceId provider = 1) ↔
      (failedSaves env userId sourceId provider).Guarded
          (StopsEarly env userId sourceId provider) db failed ∧
        (provider ≠ none ∨ compiledFrom db sourceId provider = 0) := by
  have hsave : ∀ s a t, (failedSaves env userId sourceId provider).step s a = some t →
      t = (saveArticle env userId sourceId provider s a).2 := by
    intro s a t hstep
    simp only [failedSaves] at hstep
    split at hstep
    · next heq =>
      cases hstep
      rw [heq]
    · cases hstep
  have hkept : ∀ s a t, s.Stamped →
      (failedSaves env userId sourceId provider).step s a = some t → t.Stamped := by
    intro s a t hs hstep
    rw [hsave s a t hstep]
    exact hs.save
  rw [(failedSaves env userId sourceId provider).steps_iff_guarded
    (G := StopsEarly env userId sourceId provider) hkept ?_ hstamped]
  · refine and_congr_right fun hguard ↦ ?_
    have hend : SameRows db db' ∧ db'.Stamped := by
      refine (failedSaves env userId sourceId provider).invariant_of_guarded
        (I := fun t ↦ SameRows db t ∧ t.Stamped) ?_
        ⟨⟨rfl, rfl, rfl, rfl, rfl⟩, hstamped⟩ hguard hrun
      intro s a t hs hearly hstep
      refine ⟨hs.1.trans ?_, hkept s a t hs.2 hstep⟩
      rw [hsave s a t hstep]
      exact (sameRows_iff hs.2).mpr hearly
    have hcount : compiledFrom db' sourceId provider = compiledFrom db sourceId provider := by
      unfold compiledFrom
      rw [hend.1.articles]
    have hlinked' : db'.Linked sourceId provider := by
      unfold Tables.Linked
      rw [hcount, hend.1.articles, hend.1.articleSources]
      exact hlinked
    rw [compiledFrom_save hlinked' hlast, hcount]
  · intro s a t hs hstep
    rw [hsave s a t hstep]
    exact sameRows_iff hs

/-- No rows, at time zero. -/
def emptyTables : Tables := ⟨[], 0, [], [], [], [], [⟨"s", none⟩], 0⟩

/-- Text functions that change nothing. -/
def plainText : TextEnv := ⟨fun _ s ↦ s, id, id, id, 3⟩

/-- A save of a result with these concepts that fails at the given stages. -/
def sampleAttempt (concepts : List String) (fails : List Stage) : Attempt :=
  ⟨⟨"Title", "Summary", [], concepts, []⟩, [], [], (· ∈ fails)⟩

/-- The tables after a save of source `s` by one provider. -/
def sampleSave (db : Tables) (a : Attempt) : Tables :=
  (saveArticle plainText "u" "s" (some .anthropic) db a).2

/-- A save whose file cannot be written leaves nothing, and the retry leaves one article. -/
theorem saveArticle_retry_writeFile :
    (failedSaves plainText "u" "s" (some .anthropic)).Steps (fun s _ t ↦ SameRows s t) emptyTables
        [sampleAttempt ["ai"] [.writeFile]] ∧
      compiledFrom (sampleSave (sampleSave emptyTables (sampleAttempt ["ai"] [.writeFile]))
        (sampleAttempt ["ai"] [])) "s" (some .anthropic) = 1 := by
  have hstamped : emptyTables.Stamped := fun x hx ↦ by cases hx
  have hlinked : emptyTables.Linked "s" (some .anthropic) :=
    ⟨by decide, fun x hx ↦ by cases hx⟩
  have hlast : ∃ article, saveArticle plainText "u" "s" (some .anthropic)
        (sampleSave emptyTables (sampleAttempt ["ai"] [.writeFile])) (sampleAttempt ["ai"] []) =
      (.ok article, sampleSave (sampleSave emptyTables (sampleAttempt ["ai"] [.writeFile]))
        (sampleAttempt ["ai"] [])) := ⟨_, rfl⟩
  obtain ⟨article, hlast⟩ := hlast
  refine (saveArticle_retry_iff hstamped hlinked rfl hlast).mpr ⟨?_, .inl (by decide)⟩
  intro t ht
  exact ⟨.inr (.inr (.inl rfl)), trivial⟩

/-- A concept named twice violates the key of the link table after the article is
committed; the save raises, its article stays, and a retry makes a second one. -/
theorem saveArticle_duplicate_concept :
    (saveArticle plainText "u" "s" (some .anthropic) emptyTables
        (sampleAttempt ["ai", "ai"] [])).1 = .error .integrityError ∧
      compiledFrom (sampleSave emptyTables (sampleAttempt ["ai", "ai"] []))
        "s" (some .anthropic) = 1 ∧
      compiledFrom (sampleSave (sampleSave emptyTables (sampleAttempt ["ai", "ai"] []))
        (sampleAttempt ["ai"] [])) "s" (some .anthropic) = 2 :=
  ⟨rfl, by decide, by decide⟩

end WikiMind.Compile
