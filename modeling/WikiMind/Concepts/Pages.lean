import Mathlib.Data.List.Sort
import WikiMind.Concepts.Counts

/-!
# When concept pages are compiled again

`maybe_trigger_concept_pages` (`services/taxonomy.py:223`) compiles the pages of concepts with
enough source pages, except those whose set of source pages it finds unchanged. It reads the
set of the last compile from the join rows of the page and else from its JSON column, which
`_save_concept_page` writes in two transactions. The join rows refer to sources
(`models/tables/wiki.py:107`); a database that checks foreign keys rejects the transaction that
adds them. What became of each compile is kept beside the tables, for the statements only.
-/

namespace WikiMind.Concepts

open WikiMind.Base
open WikiMind.Wiki.Recompile

/-- The ids in their order. -/
def sorted (ids : List Nat) : List Nat := ids.insertionSort (· ≤ ·)

/-- The source pages of a concept: `services/taxonomy.py:194`. -/
def currentIds (env : Env) (userId : String) (db : Db) (c : Concept) : List Nat :=
  sorted ((collectSourceArticles env userId db c.name).map (·.id))

/-- The ids stored for a page: `services/taxonomy.py:210–218`. -/
def previousIds (db : Db) (page : Article) : List Nat :=
  match sorted ((db.articleSources.filter (·.articleId = page.id)).map (·.sourceId)) with
  | [] => sorted page.sourceIds
  | ids => ids

/-- `_concept_source_set_changed`: `services/taxonomy.py:183`. -/
def sourceSetChanged (env : Env) (userId : String) (db : Db) (c : Concept) :
    Except Exc Bool := do
  match ← findExisting env userId db c.name with
  | none => return true
  | some existing => return currentIds env userId db c ≠ previousIds db existing

/-- The loop body of the trigger: `services/taxonomy.py:247–256`. -/
def considerConcept (env : Env) (userId : String) (db : Db) (a : Attempt) (c : Concept) :
    Except Exc (Option Article) × Db :=
  match sourceSetChanged env userId db c with
  | .error e => (.error e, db)
  | .ok false => (.ok none, db)
  | .ok true => compileConceptPage env userId db a c

/-- The loop of the trigger. A write to the storage that fails is no exception that it
catches: `services/taxonomy.py:257`. -/
def considerAll (env : Env) (userId : String) (attempt : Concept → Attempt) :
    Db → List Concept → Db
  | db, [] => db
  | db, c :: rest =>
    match considerConcept env userId db (attempt c) c with
    | (.error (.runtimeError _), db') =>
      if (attempt c).fails .file then db' else considerAll env userId attempt db' rest
    | (_, db') => considerAll env userId attempt db' rest

/-- `maybe_trigger_concept_pages`: `services/taxonomy.py:223`. -/
def maybeTriggerConceptPages (env : Env) (userId : String) (w : Wiki)
    (attempt : Concept → Attempt) : Wiki :=
  let eligible := w.db.concepts.filter fun c ↦
    env.minSources ≤ w.articleCount c ∧ c.userId = userId
  { w with db := considerAll env userId attempt w.db eligible }

/-- A compile that has committed a page: the owner and slug of the page, the ids of the source
pages it was compiled from and whether all its transactions succeeded. -/
structure Record where
  page : String × String
  ids : List Nat
  done : Bool

/-- The tables and the compiles so far, the latest first. -/
structure State where
  wiki : Wiki
  history : List Record

/-- The owner and slug of the page of a concept. -/
def pageOf (env : Env) (c : Concept) : String × String :=
  (c.userId, "concept-" ++ env.key c.name)

/-- What a compile leaves in the history. -/
def record (env : Env) (db : Db) (a : Attempt) (c : Concept) : Option Record :=
  match prepare env c.userId db a c with
  | .ok (some (compilation, sources)) =>
    match saveRow env c.userId db a c compilation sources with
    | .ok _ =>
      let result := (compileConceptPage env c.userId db a c).1
      some ⟨pageOf env c, sources.map (·.id), result.toOption.isSome⟩
    | .error _ => none
  | _ => none

/-- A page is compiled for its owner. -/
def State.compiled (env : Env) (s : State) (a : Attempt) (c : Concept) : State where
  wiki := { s.wiki with db := (compileConceptPage env c.userId s.wiki.db a c).2 }
  history := (record env s.wiki.db a c).toList ++ s.history

/-- An event of the tables or the loop body of a trigger. -/
inductive PageEvent where
  | tables (e : Event)
  | consider (c : Concept) (a : Attempt)

/-- One event; a page that is compiled without a trigger is one of the owner of the concept. -/
def pageStep (env : Env) (s : State) : PageEvent → Option State
  | .tables (.page userId c a) =>
    if c ∈ s.wiki.db.concepts ∧ c.userId = userId then some (s.compiled env a c) else none
  | .tables e => (step env s.wiki e).map fun wiki ↦ { s with wiki }
  | .consider c a =>
    if c ∈ s.wiki.db.concepts then
      match sourceSetChanged env c.userId s.wiki.db c with
      | .ok true => some (s.compiled env a c)
      | _ => some s
    else none

/-- The transition system of all users. -/
def pageMachine (env : Env) : Machine State PageEvent := ⟨pageStep env⟩

/-- The source pages of the last compile that succeeded. -/
def State.lastDone (env : Env) (s : State) (c : Concept) : Option (List Nat) :=
  (s.history.find? fun r ↦ r.page = pageOf env c ∧ r.done).map fun r ↦ sorted r.ids

/-- The last compile of a page failed half-way. -/
def State.failed (env : Env) (s : State) (c : Concept) : Bool :=
  (s.history.find? (·.page = pageOf env c)).any (! ·.done)

/-- The page of a concept has to be compiled: its source pages are not those of the last
compile that succeeded, or the last compile failed half-way. -/
def Due (env : Env) (s : State) (c : Concept) : Prop :=
  s.lastDone env c ≠ some (currentIds env c.userId s.wiki.db c) ∨ s.failed env c = true

/-- Join rows refer to sources, and the trigger compiles every page that has to be. -/
structure Tracked (env : Env) (s : State) : Prop where
  sources : ∀ as ∈ s.wiki.db.articleSources, ∃ x ∈ s.wiki.sources, x.id = as.sourceId
  pages : ∀ c ∈ s.wiki.db.concepts, Due env s c →
    sourceSetChanged env c.userId s.wiki.db c = .ok true

instance (env : Env) (s : State) (c : Concept) : Decidable (Due env s c) :=
  inferInstanceAs (Decidable (_ ∨ _))

instance (env : Env) (s : State) : Decidable (Tracked env s) :=
  decidable_of_iff
    ((∀ as ∈ s.wiki.db.articleSources, ∃ x ∈ s.wiki.sources, x.id = as.sourceId) ∧
      ∀ c ∈ s.wiki.db.concepts, Due env s c →
        sourceSetChanged env c.userId s.wiki.db c = .ok true)
    ⟨fun h ↦ ⟨h.1, h.2⟩, fun h ↦ ⟨h.sources, h.pages⟩⟩

/-- The compile commits no page, or one without source pages and then does not fail. -/
def Harmless (env : Env) (db : Db) (a : Attempt) (c : Concept) : Prop :=
  ∀ compilation sources, prepare env c.userId db a c = .ok (some (compilation, sources)) →
    CommitsRow env c.userId db a c → sources = [] ∧ ∀ stage, a.fails stage = false

/-- The compiles of an event are harmless. -/
def PageEvent.Harmless (env : Env) (s : State) : PageEvent → Prop
  | .tables (.page _ c a) => Concepts.Harmless env s.wiki.db a c
  | .tables _ => True
  | .consider c a =>
    sourceSetChanged env c.userId s.wiki.db c = .ok true →
      Concepts.Harmless env s.wiki.db a c

/-- The tables that the invariant of the pages reads. -/
def pageTables (db : Db) : List Article × Nat × List ArticleSource :=
  (db.articles, db.nextId, db.articleSources)

/-- Articles have unique keys and slugs, their keys are those of no source, a concept page
refers to no source, and the history knows what it was compiled from. -/
structure Valid (db : Db) (sources : List Source) (history : List Record) : Prop where
  ids : (db.articles.map (·.id)).Nodup
  slugs : (db.articles.map fun x ↦ (x.userId, x.slug)).Nodup
  articles : ∀ x ∈ db.articles, x.id < db.nextId ∧ ∀ y ∈ sources, y.id ≠ x.id
  drawn : ∀ y ∈ sources, y.id < db.nextId
  rows : ∀ as ∈ db.articleSources, as.articleId < db.nextId
  refers : ∀ x ∈ db.articles, x.pageType = .concept → ∀ i ∈ fetchSourceIds db x,
    i < db.nextId ∧ ∀ y ∈ sources, y.id ≠ i
  noted : ∀ x ∈ db.articles, x.pageType = .concept →
    ∃ r, history.find? (·.page = (x.userId, x.slug)) = some r ∧ r.ids = fetchSourceIds db x

section Rows

variable {db db' : Db} {x : Article} {id : Nat}

private theorem previousIds_eq (db : Db) (page : Article) :
    previousIds db page = sorted (fetchSourceIds db page) := by
  unfold previousIds fetchSourceIds
  cases (db.articleSources.filter (·.articleId = page.id)).map (·.sourceId) with
  | nil => rfl
  | cons i rest =>
    dsimp only
    split
    next h =>
      have hlength : (sorted (i :: rest)).length = (i :: rest).length :=
        List.length_insertionSort _ _
      rw [h] at hlength
      cases hlength
    · rfl

/-- Only the rows of the article are read. -/
theorem fetchSourceIds_congr (h : db'.articleSources.filter (·.articleId = x.id) =
    db.articleSources.filter (·.articleId = x.id)) :
    fetchSourceIds db' x = fetchSourceIds db x := by
  unfold fetchSourceIds
  rw [h]

private theorem filter_rows_clear {rows : List ArticleSource} {i : Nat} (hne : i ≠ id) :
    (rows.filter (·.articleId ≠ id)).filter (·.articleId = i) = rows.filter (·.articleId = i) := by
  apply Rows.filter_delete_other
  intro as _ has
  simp only [decide_eq_true_eq] at has ⊢
  rw [has]
  exact hne

private theorem filter_rows_append {rows : List ArticleSource} {i : Nat} (hne : i ≠ id)
    (ids : List Nat) :
    (rows ++ ids.map (ArticleSource.mk id)).filter (·.articleId = i) =
      rows.filter (·.articleId = i) := by
  have hnone : (ids.map (ArticleSource.mk id)).filter (·.articleId = i) = [] := by
    rw [List.filter_eq_nil_iff]
    intro as has
    obtain ⟨j, -, rfl⟩ := List.mem_map.mp has
    simpa using hne.symm
  rw [List.filter_append, hnone, List.append_nil]

end Rows

section Sources

variable {env : Env} {db db' : Db} {sources : List Source} {history : List Record}
  {userId : String} {article : Article} {source : Source} {existing : Option Article}
  {r : Result} {w : Wiki}

/-- An article of the past that is no concept page. -/
structure Ordinary (db : Db) (id : Nat) : Prop where
  lt : id < db.nextId
  other : ∀ x ∈ db.articles, x.id = id → x.pageType ≠ .concept

theorem Valid.congr (h : Valid db sources history) (hpages : pageTables db' = pageTables db) :
    Valid db' sources history := by
  simp only [pageTables, Prod.mk.injEq] at hpages
  obtain ⟨harticles, hnext, hrows⟩ := hpages
  have hfetch : ∀ x, fetchSourceIds db' x = fetchSourceIds db x :=
    fun x ↦ fetchSourceIds_congr (by rw [hrows])
  constructor
  · rw [harticles]
    exact h.ids
  · rw [harticles]
    exact h.slugs
  · rw [harticles, hnext]
    exact h.articles
  · rw [hnext]
    exact h.drawn
  · rw [hrows, hnext]
    exact h.rows
  · rw [harticles, hnext]
    intro x hx hconcept
    rw [hfetch]
    exact h.refers x hx hconcept
  · rw [harticles]
    intro x hx hconcept
    rw [hfetch]
    exact h.noted x hx hconcept

/-- A page that is no concept page is rewritten and its rows are deleted. -/
theorem valid_replace (old : Article) (f : Article → Article) (h : Valid db sources history)
    (hold : old ∈ db.articles) (hid : ∀ x, (f x).id = x.id)
    (htype : ∀ x, (f x).pageType ≠ .concept)
    (hfree : ∀ x ∈ db.articles, x.id ≠ old.id →
      (x.userId, x.slug) ≠ ((f old).userId, (f old).slug))
    (hpages : pageTables db' = (Rows.modify (·.id = old.id) f db.articles, db.nextId,
      db.articleSources.filter (·.articleId ≠ old.id))) :
    Valid db' sources history ∧ Ordinary db' old.id := by
  simp only [pageTables, Prod.mk.injEq] at hpages
  obtain ⟨harticles, hnext, hrows⟩ := hpages
  -- A concept page of the new table is one of the old table, with the same rows.
  have hkept : ∀ x ∈ db'.articles, x.pageType = .concept →
      x ∈ db.articles ∧ fetchSourceIds db' x = fetchSourceIds db x := by
    intro x hx hconcept
    rw [harticles] at hx
    rcases Rows.mem_modify.mp hx with ⟨y, -, -, rfl⟩ | ⟨hx, hne⟩
    · exact absurd hconcept (htype y)
    · refine ⟨hx, fetchSourceIds_congr ?_⟩
      rw [hrows]
      exact filter_rows_clear (by simpa using hne)
  refine ⟨⟨?_, ?_, ?_, ?_, ?_, ?_, ?_⟩, ?_, ?_⟩
  · rw [harticles, Rows.map_modify fun x _ _ ↦ hid x]
    exact h.ids
  · rw [harticles]
    exact Rows.nodup_modify h.ids h.slugs hold hfree
  · rw [harticles, hnext, Rows.forall_modify]
    constructor
    · intro x hx _
      rw [hid]
      exact h.articles x hx
    · exact fun x hx _ ↦ h.articles x hx
  · rw [hnext]
    exact h.drawn
  · rw [hrows, hnext]
    exact fun as has ↦ h.rows as (List.mem_of_mem_filter has)
  · intro x hx hconcept
    obtain ⟨hmem, hfetch⟩ := hkept x hx hconcept
    rw [hfetch, hnext]
    exact h.refers x hmem hconcept
  · intro x hx hconcept
    obtain ⟨hmem, hfetch⟩ := hkept x hx hconcept
    rw [hfetch]
    exact h.noted x hmem hconcept
  · rw [hnext]
    exact (h.articles old hold).1
  · rw [harticles]
    intro x hx hxid
    rcases Rows.mem_modify.mp hx with ⟨y, -, -, rfl⟩ | ⟨-, hne⟩
    · exact htype y
    · simp [hxid] at hne

/-- A page that is no concept page is inserted. -/
theorem valid_insert (h : Valid db sources history) (hid : article.id = db.nextId)
    (htype : article.pageType ≠ .concept)
    (hfree : ∀ x ∈ db.articles, (x.userId, x.slug) ≠ (article.userId, article.slug))
    (hpages : pageTables db' = (db.articles ++ [article], db.nextId + 1, db.articleSources)) :
    Valid db' sources history ∧ Ordinary db' article.id := by
  simp only [pageTables, Prod.mk.injEq] at hpages
  obtain ⟨harticles, hnext, hrows⟩ := hpages
  have hfetch : ∀ x, fetchSourceIds db' x = fetchSourceIds db x :=
    fun x ↦ fetchSourceIds_congr (by rw [hrows])
  have hkept : ∀ x ∈ db'.articles, x.pageType = .concept → x ∈ db.articles := by
    intro x hx hconcept
    rw [harticles] at hx
    rcases List.mem_append.mp hx with hx | hx
    · exact hx
    · rw [List.mem_singleton.mp hx] at hconcept
      exact absurd hconcept htype
  refine ⟨⟨?_, ?_, ?_, ?_, ?_, ?_, ?_⟩, ?_, ?_⟩
  · rw [harticles, Rows.nodup_map_concat, hid]
    exact ⟨h.ids, fun x hx ↦ (h.articles x hx).1.ne⟩
  · rw [harticles, Rows.nodup_map_concat]
    exact ⟨h.slugs, hfree⟩
  · rw [harticles, hnext]
    intro x hx
    rcases List.mem_append.mp hx with hx | hx
    · obtain ⟨hlt, hother⟩ := h.articles x hx
      exact ⟨by omega, hother⟩
    · rw [List.mem_singleton.mp hx]
      refine ⟨by omega, fun y hy ↦ ?_⟩
      have hlt := h.drawn y hy
      omega
  · rw [hnext]
    exact fun y hy ↦ Nat.lt_succ_of_lt (h.drawn y hy)
  · rw [hrows, hnext]
    exact fun as has ↦ Nat.lt_succ_of_lt (h.rows as has)
  · intro x hx hconcept i hi
    rw [hfetch] at hi
    obtain ⟨hlt, hother⟩ := h.refers x (hkept x hx hconcept) hconcept i hi
    exact ⟨by omega, hother⟩
  · intro x hx hconcept
    rw [hfetch]
    exact h.noted x (hkept x hx hconcept) hconcept
  · omega
  · rw [harticles]
    intro x hx hxid
    rcases List.mem_append.mp hx with hx | hx
    · have hlt := (h.articles x hx).1
      omega
    · rw [List.mem_singleton.mp hx]
      exact htype

/-- A join row is added to a page that is no concept page. -/
theorem valid_addRow {id sourceId : Nat} (h : Valid db sources history) (hordinary : Ordinary db id)
    (hpages : pageTables db' = (db.articles, db.nextId, db.articleSources ++ [⟨id, sourceId⟩])) :
    Valid db' sources history := by
  simp only [pageTables, Prod.mk.injEq] at hpages
  obtain ⟨harticles, hnext, hrows⟩ := hpages
  have hfetch : ∀ x ∈ db.articles, x.pageType = .concept →
      fetchSourceIds db' x = fetchSourceIds db x := by
    intro x hx hconcept
    apply fetchSourceIds_congr
    rw [hrows]
    exact filter_rows_append (fun hid ↦ hordinary.other x hx hid hconcept) [sourceId]
  constructor
  · rw [harticles]
    exact h.ids
  · rw [harticles]
    exact h.slugs
  · rw [harticles, hnext]
    exact h.articles
  · rw [hnext]
    exact h.drawn
  · rw [hrows, hnext]
    intro as has
    rcases List.mem_append.mp has with has | has
    · exact h.rows as has
    · rw [List.mem_singleton.mp has]
      exact hordinary.lt
  · rw [harticles, hnext]
    intro x hx hconcept
    rw [hfetch x hx hconcept]
    exact h.refers x hx hconcept
  · rw [harticles]
    intro x hx hconcept
    rw [hfetch x hx hconcept]
    exact h.noted x hx hconcept

/-- The unique constraint on owner and slug. -/
theorem taken_eq_false {slug : String} {old : Option Nat} :
    db.taken userId slug old = false ↔
      ∀ x ∈ db.articles, (x.userId, x.slug) = (userId, slug) → some x.id = old := by
  unfold Db.taken
  rw [List.any_eq_false]
  simp only [ne_eq, decide_eq_true_eq, not_and, Decidable.not_not, Prod.mk.injEq, and_imp]

private theorem valid_saveSourceRow {saved : Db} (h : Valid db sources history)
    (hexisting : ∀ x, existing = some x → x ∈ db.articles ∧ x.pageType ≠ .concept)
    (hrow : saveSourceRow env userId db source existing r = some (article, saved)) :
    Valid saved sources history ∧ Ordinary saved article.id := by
  unfold saveSourceRow at hrow
  cases existing with
  | some old =>
    dsimp only at hrow
    split at hrow
    · cases hrow
    next hcommits =>
      simp only [not_or, Bool.not_eq_true] at hcommits
      cases hrow
      refine valid_replace old (applyArticleFields env source r) h (hexisting old rfl).1
        (fun _ ↦ rfl) (fun _ hconcept ↦ by cases hconcept) ?_ rfl
      intro x hx hne heq
      have hsame := taken_eq_false.mp hcommits.2 x hx heq
      exact hne (Option.some.inj hsame)
  | none =>
    dsimp only at hrow
    split at hrow
    · cases hrow
    next slug hslug =>
      split at hrow
      · cases hrow
      · cases hrow
        refine valid_insert h rfl (fun hconcept ↦ by cases hconcept) ?_ rfl
        intro x hx heq
        have hfree : db.taken userId slug none = false := by
          simpa using List.find?_some hslug
        cases taken_eq_false.mp hfree x hx heq

private theorem pageTables_upsertConcepts (conceptId : String → String) (names : List String) :
    pageTables (upsertConcepts env userId conceptId db names) = pageTables db := by
  unfold upsertConcepts
  induction names generalizing db with
  | nil => rfl
  | cons name rest ih =>
    refine ih.trans ?_
    unfold addConcept
    split <;> rfl

private theorem pageTables_postSaveSideEffects (env : Env) (userId : String) (w : Wiki)
    (r : Result) :
    pageTables (postSaveSideEffects env userId w r).db = pageTables w.db := by
  unfold postSaveSideEffects
  split
  · rfl
  · dsimp only
    split <;> exact pageTables_upsertConcepts r.conceptId r.concepts

private theorem valid_upsertArticle (h : Valid w.db sources history)
    (hexisting : ∀ x, existing = some x → x ∈ w.db.articles ∧ x.pageType ≠ .concept) :
    Valid (upsertArticle env userId w source existing r).db sources history := by
  unfold upsertArticle
  split
  · exact h
  next article saved hrow =>
    obtain ⟨hsaved, hordinary⟩ := valid_saveSourceRow h hexisting hrow
    have hadded : Valid (addSourceJoins source r article saved) sources history :=
      valid_addRow hsaved hordinary rfl
    split
    · exact hsaved
    · dsimp only
      split
      · exact hadded
      · exact hadded.congr (pageTables_postSaveSideEffects env userId _ r)

private theorem sources_upsertArticle :
    (upsertArticle env userId w source existing r).sources = w.sources := by
  unfold upsertArticle postSaveSideEffects updateArticleCounts
  split
  · rfl
  · split
    · rfl
    · dsimp only
      split
      · rfl
      · split
        · rfl
        · split <;> rfl

/-- The ids in the join rows of an article are among its sources. -/
theorem mem_fetchSourceIds {x : Article} {as : ArticleSource} (has : as ∈ db.articleSources)
    (hid : as.articleId = x.id) : as.sourceId ∈ fetchSourceIds db x := by
  have hmem : as.sourceId ∈ (db.articleSources.filter (·.articleId = x.id)).map (·.sourceId) :=
    List.mem_map_of_mem (List.mem_filter.mpr ⟨has, by simpa using hid⟩)
  unfold fetchSourceIds
  split
  next hnil =>
    rw [hnil] at hmem
    cases hmem
  · exact hmem

/-- An article with the id of a source is no concept page. -/
theorem Valid.ordinary {x : Article} {sourceId : Nat} (h : Valid db sources history)
    (hx : x ∈ db.articles) (hfetch : sourceId ∈ fetchSourceIds db x)
    (hsource : sources.find? (·.id = sourceId) = some source) : x.pageType ≠ .concept := by
  intro hconcept
  have hid : source.id = sourceId := by simpa using List.find?_some hsource
  exact (h.refers x hx hconcept sourceId hfetch).2 source (List.mem_of_find?_eq_some hsource) hid

/-- The invariant is kept by the compiles of sources. -/
theorem valid_step {e : Event} {t : Wiki} (h : Valid w.db w.sources history)
    (hpage : ∀ userId c a, e ≠ .page userId c a) (hstep : step env w e = some t) :
    Valid t.db t.sources history := by
  cases e with
  | ingest userId =>
    simp only [step, Option.ite_none_left_eq_some, Option.some.injEq] at hstep
    obtain ⟨-, rfl⟩ := hstep
    refine ⟨h.ids, h.slugs, ?_, ?_, fun as has ↦ Nat.lt_succ_of_lt (h.rows as has), ?_, h.noted⟩
    · intro x hx
      obtain ⟨hlt, hother⟩ := h.articles x hx
      refine ⟨Nat.lt_succ_of_lt hlt, fun y hy ↦ ?_⟩
      rcases List.mem_append.mp hy with hy | hy
      · exact hother y hy
      · rw [List.mem_singleton.mp hy]
        exact hlt.ne'
    · intro y hy
      rcases List.mem_append.mp hy with hy | hy
      · exact Nat.lt_succ_of_lt (h.drawn y hy)
      · rw [List.mem_singleton.mp hy]
        exact Nat.lt_succ_self _
    · intro x hx hconcept i hi
      obtain ⟨hlt, hother⟩ := h.refers x hx hconcept i hi
      refine ⟨Nat.lt_succ_of_lt hlt, fun y hy ↦ ?_⟩
      rcases List.mem_append.mp hy with hy | hy
      · exact hother y hy
      · rw [List.mem_singleton.mp hy]
        exact hlt.ne'
  | compile userId sourceId r =>
    simp only [step, Option.ite_none_left_eq_some, Option.map_eq_some_iff] at hstep
    obtain ⟨-, source, hsource, rfl⟩ := hstep
    rw [sources_upsertArticle]
    apply valid_upsertArticle h
    intro x hx
    unfold findArticle at hx
    split at hx
    · cases hx
    · have hmem := List.mem_of_find?_eq_some hx
      have hfound := List.find?_some hx
      simp only [List.any_eq_true, decide_eq_true_eq] at hfound
      obtain ⟨⟨as, has, hid, hsourceId⟩, -⟩ := hfound
      have hfetch := mem_fetchSourceIds has hid
      rw [hsourceId] at hfetch
      exact ⟨hmem, h.ordinary hmem hfetch hsource⟩
  | recompile userId articleId r =>
    simp only [step, Option.ite_none_left_eq_some, Option.bind_eq_some_iff,
      Option.map_eq_some_iff] at hstep
    obtain ⟨-, x, hx, sourceId, hhead, source, hsource, rfl⟩ := hstep
    rw [sources_upsertArticle]
    apply valid_upsertArticle h
    rintro _ ⟨⟩
    have hmem := List.mem_of_find?_eq_some hx
    exact ⟨hmem, h.ordinary hmem (List.mem_of_head? hhead) hsource⟩
  | page userId c a => exact absurd rfl (hpage userId c a)

end Sources

section Pages

variable {env : Env} {userId : String} {db db' saved : Db} {sources : List Source}
  {history : List Record} {a : Attempt} {c : Concept} {compilation : ConceptCompilationResult}
  {found : List Article} {page : Article}

/-- What the first transaction of a compile leaves: the page without join rows, and all else
that the trigger reads as it was. -/
structure SavedPage (env : Env) (db saved : Db) (c : Concept) (found : List Article)
    (page : Article) : Prop where
  ids : (saved.articles.map (·.id)).Nodup
  slugs : (saved.articles.map fun x ↦ (x.userId, x.slug)).Nodup
  mem : page ∈ saved.articles
  other : ∀ x ∈ saved.articles, x.id ≠ page.id → x ∈ db.articles
  origin : page.id = db.nextId ∨ ∃ old ∈ db.articles, old.id = page.id ∧ old.pageType = .concept
  next : db.nextId ≤ saved.nextId
  lt : page.id < saved.nextId
  kept : ∀ as ∈ saved.articleSources, as ∈ db.articleSources ∧ as.articleId ≠ page.id
  rows : ∀ i, i ≠ page.id → saved.articleSources.filter (·.articleId = i) =
    db.articleSources.filter (·.articleId = i)
  sourcePages : saved.articles.filter (·.pageType = .source) =
    db.articles.filter (·.pageType = .source)
  carries : ∀ i name, i ≠ page.id →
    saved.articleConcepts.any (fun ac ↦ ac.articleId = i ∧ ac.conceptName = name) =
      db.articleConcepts.any (fun ac ↦ ac.articleId = i ∧ ac.conceptName = name)
  concepts : saved.concepts = db.concepts
  key : (page.userId, page.slug) = pageOf env c
  type : page.pageType = .concept
  sourceIds : page.sourceIds = found.map (·.id)

/-- The page found is the page of the concept. -/
theorem key_of_findExisting {old : Article}
    (h : findExisting env c.userId db c.name = .ok (some old)) :
    (old.userId, old.slug) = pageOf env c ∧ old.pageType = .concept := by
  have hprop := Rows.prop_of_oneOrNone h
  simp only [decide_eq_true_eq] at hprop
  obtain ⟨hslug, htype, howner⟩ := hprop
  exact ⟨by rw [hslug, howner]; rfl, htype⟩

private theorem savedPage_replace {old : Article} (h : Valid db sources history)
    (hold : findExisting env c.userId db c.name = .ok (some old)) :
    SavedPage env db
      ({ db with
        articles := Rows.modify (·.id = old.id) (applyFields env a c compilation found)
          db.articles }.clear old.id)
      c found (applyFields env a c compilation found old) := by
  have hmem : old ∈ db.articles := (mem_of_findExisting hold).1
  obtain ⟨hkey, htype⟩ := key_of_findExisting hold
  have howner : old.userId = c.userId := congrArg Prod.fst hkey
  have hself : ∀ x ∈ db.articles, x.id = old.id → x = old :=
    fun x hx ↦ Rows.eq_of_nodup h.ids hmem hx
  have hid : ∀ x, (applyFields env a c compilation found x).id = x.id := fun _ ↦ rfl
  constructor
  · show ((Rows.modify _ _ _).map _).Nodup
    rw [Rows.map_modify fun x _ _ ↦ hid x]
    exact h.ids
  · show ((Rows.modify _ _ _).map _).Nodup
    rw [Rows.map_modify]
    · exact h.slugs
    · intro x hx hxid
      rw [hself x hx (by simpa using hxid)]
      show (c.userId, old.slug) = _
      rw [howner]
  · exact Rows.mem_modify.mpr (.inl ⟨old, hmem, by simp, rfl⟩)
  · intro x hx hne
    rcases Rows.mem_modify.mp hx with ⟨y, -, hyid, rfl⟩ | ⟨hx, -⟩
    · rw [hid, hid] at hne
      exact absurd (by simpa using hyid) hne
    · exact hx
  · right
    exact ⟨old, hmem, rfl, htype⟩
  · exact Nat.le_refl _
  · exact (h.articles old hmem).1
  · intro as has
    obtain ⟨hin, hne⟩ := List.mem_filter.mp has
    rw [hid]
    exact ⟨hin, by simpa using hne⟩
  · intro i hi
    exact filter_rows_clear hi
  · apply Rows.filter_modify_other
    intro x hx hxid
    rw [hself x hx (by simpa using hxid)]
    simp [htype, applyFields]
  · intro i name hi
    unfold Db.clear
    rw [List.any_filter]
    congr 1
    funext ac
    by_cases hac : ac.articleId = i
    · have hne : i ≠ old.id := hi
      simp [hac, hne]
    · simp [hac]
  · rfl
  · show (c.userId, old.slug) = _
    rw [← howner]
    exact hkey
  · rfl
  · rfl

private theorem savedPage_insert (h : Valid db sources history)
    (hfree : db.taken c.userId ("concept-" ++ env.key c.name) none = false) :
    SavedPage env db
      { db with
        articles := db.articles ++ [applyFields env a c compilation found (blank env db c)]
        nextId := db.nextId + 1 }
      c found (applyFields env a c compilation found (blank env db c)) := by
  have hid : (applyFields env a c compilation found (blank env db c)).id = db.nextId := rfl
  have hlt : ∀ x ∈ db.articles, x.id < db.nextId := fun x hx ↦ (h.articles x hx).1
  constructor
  · show ((db.articles ++ [_]).map _).Nodup
    rw [Rows.nodup_map_concat]
    exact ⟨h.ids, fun x hx ↦ (hlt x hx).ne⟩
  · show ((db.articles ++ [_]).map _).Nodup
    rw [Rows.nodup_map_concat]
    exact ⟨h.slugs, fun x hx heq ↦ nomatch taken_eq_false.mp hfree x hx heq⟩
  · exact List.mem_append_right _ (List.mem_singleton_self _)
  · intro x hx hne
    rcases List.mem_append.mp hx with hx | hx
    · exact hx
    · rw [List.mem_singleton.mp hx] at hne
      exact absurd rfl hne
  · left
    rfl
  · exact Nat.le_succ _
  · exact Nat.lt_succ_self _
  · intro as has
    exact ⟨has, (h.rows as has).ne⟩
  · intro i _
    rfl
  · show (db.articles ++ [_]).filter _ = _
    rw [List.filter_append]
    simp [applyFields]
  · intro i name _
    rfl
  · rfl
  · rfl
  · rfl
  · rfl

/-- Where the first transaction is committed, its page is saved. -/
theorem savedPage_of_saveRow (h : Valid db sources history)
    (hcommits : CommitsRow env c.userId db a c)
    (hrow : saveRow env c.userId db a c compilation found = .ok (page, saved)) :
    SavedPage env db saved c found page := by
  rcases saveRow_eq_ok compilation found hcommits with ⟨old, hold, hreplace⟩ | ⟨hnone, hinsert⟩
  · rw [hreplace] at hrow
    cases hrow
    exact savedPage_replace h hold
  · obtain ⟨-, existing, hexisting, htaken⟩ := hcommits
    rw [hnone] at hexisting
    cases hexisting
    rw [hinsert] at hrow
    cases hrow
    exact savedPage_insert h htaken

/-- The join rows that a compile reaches. -/
def reached (a : Attempt) (page : Article) (found : List Article) : List ArticleSource :=
  if a.joins then found.map fun x ↦ ⟨page.id, x.id⟩ else []

/-- The rows of the page are the ids it was compiled from, whether they are join rows or only
its column. -/
theorem fetchSourceIds_self (hs : SavedPage env db saved c found page)
    (hrows : db'.articleSources = saved.articleSources ++ reached a page found) :
    fetchSourceIds db' page = found.map (·.id) := by
  have hbare : saved.articleSources.filter (·.articleId = page.id) = [] := by
    rw [List.filter_eq_nil_iff]
    intro as has
    simpa using (hs.kept as has).2
  unfold fetchSourceIds
  rw [hrows, List.filter_append, hbare, List.nil_append]
  unfold reached
  cases a.joins with
  | false => exact hs.sourceIds
  | true =>
    have hall : (found.map fun x ↦ (⟨page.id, x.id⟩ : ArticleSource)).filter
        (·.articleId = page.id) = found.map fun x ↦ ⟨page.id, x.id⟩ := by
      rw [List.filter_eq_self]
      intro as has
      obtain ⟨x, -, rfl⟩ := List.mem_map.mp has
      simp
    rw [if_pos rfl, hall, List.map_map]
    cases found with
    | nil => exact hs.sourceIds
    | cons x rest => rfl

/-- Other articles keep their sources. -/
theorem fetchSourceIds_other {x : Article} (hs : SavedPage env db saved c found page)
    (hrows : db'.articleSources = saved.articleSources ++ reached a page found)
    (hne : x.id ≠ page.id) : fetchSourceIds db' x = fetchSourceIds db x := by
  apply fetchSourceIds_congr
  have hnone : (reached a page found).filter (·.articleId = x.id) = [] := by
    rw [List.filter_eq_nil_iff]
    intro as has
    unfold reached at has
    split at has
    · obtain ⟨y, -, rfl⟩ := List.mem_map.mp has
      simpa using hne.symm
    · cases has
  rw [hrows, List.filter_append, hnone, List.append_nil]
  exact hs.rows x.id hne

/-- The key of the page is the key of no source. -/
theorem SavedPage.notSource (hs : SavedPage env db saved c found page)
    (h : Valid db sources history) : ∀ y ∈ sources, y.id ≠ page.id := by
  rcases hs.origin with hnew | ⟨old, hold, hid, -⟩
  · intro y hy
    have hlt := h.drawn y hy
    omega
  · rw [← hid]
    exact (h.articles old hold).2

/-- The invariant after a compile that has saved its page, with its record. -/
theorem valid_page (h : Valid db sources history) (hs : SavedPage env db saved c found page)
    (hfound : ∀ x ∈ found, x ∈ db.articles)
    (hpages : pageTables db' =
      (saved.articles, saved.nextId, saved.articleSources ++ reached a page found))
    (done : Bool) :
    Valid db' sources (⟨pageOf env c, found.map (·.id), done⟩ :: history) := by
  simp only [pageTables, Prod.mk.injEq] at hpages
  obtain ⟨harticles, hnext, hrows⟩ := hpages
  have hself : ∀ x ∈ db'.articles, x.id = page.id → x = page := by
    rw [harticles]
    exact fun x hx ↦ Rows.eq_of_nodup hs.ids hs.mem hx
  have hother : ∀ x ∈ db'.articles, x.id ≠ page.id → x ∈ db.articles := by
    rw [harticles]
    exact hs.other
  have hnext' : db.nextId ≤ db'.nextId := by
    rw [hnext]
    exact hs.next
  have hfetch : fetchSourceIds db' page = found.map (·.id) := fetchSourceIds_self hs hrows
  constructor
  · rw [harticles]
    exact hs.ids
  · rw [harticles]
    exact hs.slugs
  · intro x hx
    by_cases hid : x.id = page.id
    · rw [hid, hnext]
      exact ⟨hs.lt, hs.notSource h⟩
    · obtain ⟨hlt, hdistinct⟩ := h.articles x (hother x hx hid)
      exact ⟨by omega, hdistinct⟩
  · intro y hy
    have hlt := h.drawn y hy
    omega
  · rw [hrows]
    intro as has
    rcases List.mem_append.mp has with has | has
    · have hlt := h.rows as (hs.kept as has).1
      omega
    · unfold reached at has
      split at has
      · obtain ⟨x, -, rfl⟩ := List.mem_map.mp has
        rw [hnext]
        exact hs.lt
      · cases has
  · intro x hx hconcept i hi
    by_cases hid : x.id = page.id
    · rw [hself x hx hid, hfetch] at hi
      obtain ⟨y, hy, rfl⟩ := List.mem_map.mp hi
      obtain ⟨hlt, hdistinct⟩ := h.articles y (hfound y hy)
      exact ⟨by omega, hdistinct⟩
    · rw [fetchSourceIds_other hs hrows hid] at hi
      obtain ⟨hlt, hdistinct⟩ := h.refers x (hother x hx hid) hconcept i hi
      exact ⟨by omega, hdistinct⟩
  · intro x hx hconcept
    by_cases hid : x.id = page.id
    · rw [hself x hx hid, hfetch, hs.key]
      exact ⟨_, List.find?_cons_of_pos (by simp), rfl⟩
    · obtain ⟨r, hr, hids⟩ := h.noted x (hother x hx hid) hconcept
      have hkey : pageOf env c ≠ (x.userId, x.slug) := by
        rw [← hs.key]
        intro heq
        rw [harticles] at hx
        exact hid (congrArg Article.id (List.inj_on_of_nodup_map hs.slugs hx hs.mem heq.symm))
      rw [fetchSourceIds_other hs hrows hid, List.find?_cons_of_neg (by simpa using hkey)]
      exact ⟨r, hr, hids⟩

/-- A compile collects the source pages it finds again afterwards. -/
theorem collect_page (h : Valid db sources history) (hs : SavedPage env db saved c found page)
    (harticles : db'.articles = saved.articles)
    (hconcepts : db'.articleConcepts =
      saved.articleConcepts ++ if a.joins then [⟨page.id, c.name⟩] else [])
    (name : String) :
    collectSourceArticles env userId db' name = collectSourceArticles env userId db name := by
  have hsplit : ∀ d : Db, collectSourceArticles env userId d name =
      (d.articles.filter (·.pageType = .source)).filter fun x ↦
        (userId = "" ∨ x.userId = userId) ∧
          d.articleConcepts.any fun ac ↦ ac.articleId = x.id ∧ ac.conceptName = env.key name := by
    intro d
    unfold collectSourceArticles
    rw [List.filter_filter]
    apply List.filter_congr
    intro x _
    rw [Bool.and_comm]
    simp
  rw [hsplit, hsplit, harticles, hs.sourcePages]
  apply List.filter_congr
  intro x hx
  obtain ⟨hmem, htype⟩ := List.mem_filter.mp hx
  have hne : x.id ≠ page.id := by
    rcases hs.origin with hnew | ⟨old, hold, hid, holdType⟩
    · have hlt := (h.articles x hmem).1
      omega
    · intro heq
      rw [Rows.eq_of_nodup h.ids hold hmem (heq.trans hid.symm), holdType] at htype
      simp at htype
  have hcarries := hs.carries x.id (env.key name) hne
  have hnone : (if a.joins then [(⟨page.id, c.name⟩ : Compile.ArticleConcept)] else []).any
      (fun ac ↦ ac.articleId = x.id ∧ ac.conceptName = env.key name) = false := by
    cases a.joins <;> simp [hne.symm]
  rw [hconcepts, List.any_append, hcarries, hnone, Bool.or_false]

/-- Where owner and slug name one article, pages can be looked up. -/
theorem findExisting_ok (hids : (db.articles.map (·.id)).Nodup)
    (hslugs : (db.articles.map fun x ↦ (x.userId, x.slug)).Nodup) (env : Env)
    (userId name : String) : ∃ result, findExisting env userId db name = .ok result := by
  apply Rows.oneOrNone_ok_of_unique hids.of_map
  intro x hx y hy hpx hpy
  simp only [decide_eq_true_eq] at hpx hpy
  exact List.inj_on_of_nodup_map hslugs hx hy (by rw [hpx.1, hpx.2.2, hpy.1, hpy.2.2])

/-- A compile that has saved its page succeeds exactly when nothing fails. -/
theorem compileConceptPage_ok_iff (hs : SavedPage env db saved c found page)
    (hprepare : prepare env c.userId db a c = .ok (some (compilation, found)))
    (hcommits : CommitsRow env c.userId db a c)
    (hrow : saveRow env c.userId db a c compilation found = .ok (page, saved)) :
    (compileConceptPage env c.userId db a c).1.toOption.isSome = true ↔
      ∀ stage, a.fails stage = false := by
  have hall : (∀ stage, a.fails stage = false) ↔
      ∀ stage, stage ≠ .row → a.fails stage = false := by
    constructor
    · exact fun hfails stage _ ↦ hfails stage
    · intro hfails stage
      by_cases hstage : stage = .row
      · rw [hstage]
        exact hcommits.1
      · exact hfails stage hstage
  rw [hall, ← perform_laterSteps_ok_iff env c.userId saved a c compilation found page
    (findExisting_ok hs.ids hs.slugs env c.userId), compileConceptPage_of_saveRow hprepare hrow]
  cases (perform a.fails saved (laterSteps env c.userId a c compilation found page)).1 with
  | error e => simp [Except.map, Except.toOption]
  | ok _ => simp [Except.map, Except.toOption]

/-- The page of a concept is found. -/
theorem Valid.findExisting_page (h : Valid db sources history) (hpage : page ∈ db.articles)
    (htype : page.pageType = .concept) (hkey : (page.userId, page.slug) = pageOf env c) :
    findExisting env c.userId db c.name = .ok (some page) := by
  simp only [pageOf, Prod.mk.injEq] at hkey
  apply Rows.oneOrNone_of_unique h.ids.of_map hpage
  · simp [hkey.1, hkey.2, htype]
  · intro x hx hpx
    simp only [decide_eq_true_eq] at hpx
    exact List.inj_on_of_nodup_map h.slugs hx hpage (by rw [hpx.1, hpx.2.2, hkey.1, hkey.2])

/-- The trigger finds a page unchanged exactly when it exists and its last compile, whether it
succeeded or not, was from the same source pages. -/
theorem sourceSetChanged_iff (h : Valid db sources history) (c : Concept) :
    sourceSetChanged env c.userId db c = .ok true ↔
      ∀ page ∈ db.articles, page.pageType = .concept →
        (page.userId, page.slug) = pageOf env c →
          currentIds env c.userId db c ≠ sorted (fetchSourceIds db page) := by
  obtain ⟨result, hresult⟩ := findExisting_ok h.ids h.slugs env c.userId c.name
  unfold sourceSetChanged
  rw [hresult]
  cases result with
  | none =>
    refine iff_of_true rfl fun page hpage htype hkey ↦ ?_
    rw [h.findExisting_page hpage htype hkey] at hresult
    cases hresult
  | some old =>
    obtain ⟨hkey, htype⟩ := key_of_findExisting hresult
    have hold : old ∈ db.articles := (mem_of_findExisting hresult).1
    show Except.ok (decide _) = _ ↔ _
    rw [previousIds_eq, Except.ok.injEq, decide_eq_true_eq]
    constructor
    · intro hne page hpage htype hpageKey
      rw [List.inj_on_of_nodup_map h.slugs hpage hold (hpageKey.trans hkey.symm)]
      exact hne
    · intro hall
      exact hall old hold htype hkey

end Pages

/-- Join rows refer to sources, and no page was last compiled half-way. -/
structure Settled (s : State) : Prop where
  sources : ∀ as ∈ s.wiki.db.articleSources, ∃ x ∈ s.wiki.sources, x.id = as.sourceId
  done : ∀ page r, s.history.find? (·.page = page) = some r → r.done = true

/-- The invariant of every run. -/
def State.Valid (s : State) : Prop := Concepts.Valid s.wiki.db s.wiki.sources s.history

section Runs

variable {env : Env} {s t : State} {a : Attempt} {c : Concept}

/-- What a compile does: nothing, or it saves its page, adds the join rows it reaches and is
noted. -/
theorem compiled_cases (h : s.Valid) (env : Env) (a : Attempt) (c : Concept) :
    s.compiled env a c = s ∧ (∀ compilation found,
        prepare env c.userId s.wiki.db a c = .ok (some (compilation, found)) →
          ¬ CommitsRow env c.userId s.wiki.db a c) ∨
      ∃ compilation found page saved,
        prepare env c.userId s.wiki.db a c = .ok (some (compilation, found)) ∧
        CommitsRow env c.userId s.wiki.db a c ∧
        SavedPage env s.wiki.db saved c found page ∧
        (s.compiled env a c).wiki.db.tables = (saved.articles, saved.nextId, saved.concepts,
          saved.articleConcepts ++ (if a.joins then [⟨page.id, c.name⟩] else []),
          saved.articleSources ++ reached a page found) ∧
        ∃ done, (s.compiled env a c).history =
            ⟨pageOf env c, found.map (·.id), done⟩ :: s.history ∧
          (done = true ↔ ∀ stage, a.fails stage = false) := by
  by_cases hcommits : ∃ compilation found,
      prepare env c.userId s.wiki.db a c = .ok (some (compilation, found)) ∧
        CommitsRow env c.userId s.wiki.db a c
  · right
    obtain ⟨compilation, found, hprepare, hcommits⟩ := hcommits
    have hrow : ∃ page saved,
        saveRow env c.userId s.wiki.db a c compilation found = .ok (page, saved) := by
      rcases saveRow_eq_ok compilation found hcommits with ⟨old, -, hrow⟩ | ⟨-, hrow⟩
      · exact ⟨_, _, hrow⟩
      · exact ⟨_, _, hrow⟩
    obtain ⟨page, saved, hrow⟩ := hrow
    have hs : SavedPage env s.wiki.db saved c found page := savedPage_of_saveRow h hcommits hrow
    have hrun := compileConceptPage_of_saveRow hprepare hrow
    refine ⟨compilation, found, page, saved, hprepare, hcommits, hs, ?_,
      (compileConceptPage env c.userId s.wiki.db a c).1.toOption.isSome, ?_, ?_⟩
    · show (compileConceptPage env c.userId s.wiki.db a c).2.tables = _
      rw [hrun, tables_perform env c.userId saved a c compilation found page]
      unfold reached
      cases a.joins <;> simp [Db.tables, addJoins]
    · show (record env s.wiki.db a c).toList ++ s.history = _
      unfold record
      rw [hprepare]
      dsimp only
      rw [hrow]
      rfl
    · exact compileConceptPage_ok_iff hs hprepare hcommits hrow
  · left
    have hnot : ∀ compilation found,
        prepare env c.userId s.wiki.db a c = .ok (some (compilation, found)) →
          ¬ CommitsRow env c.userId s.wiki.db a c :=
      fun compilation found hprepare hrow ↦ hcommits ⟨compilation, found, hprepare, hrow⟩
    refine ⟨?_, hnot⟩
    have hrecord : record env s.wiki.db a c = none := by
      unfold record
      split
      next compilation found hprepare =>
        obtain ⟨e, herror⟩ := saveRow_error compilation found (hnot compilation found hprepare)
        rw [herror]
      · rfl
    unfold State.compiled
    rw [compileConceptPage_of_not_commits hnot, hrecord]
    rfl

/-- The source pages of a compile are articles. -/
theorem mem_of_prepare {userId : String} {db : Db} {compilation : ConceptCompilationResult}
    {found : List Article}
    (h : prepare env userId db a c = .ok (some (compilation, found))) :
    found = collectSourceArticles env userId db c.name := by
  unfold prepare at h
  obtain ⟨template, -, h⟩ := bind_eq_ok.mp h
  split at h
  · dsimp only at h
    split at h
    · cases h
    · cases hcompletion : a.completion with
      | none => simp [hcompletion, pure, Except.pure] at h
      | some completion =>
        simp only [hcompletion, Option.map_some, pure, Except.pure, Except.ok.injEq,
          Option.some.injEq, Prod.mk.injEq] at h
        exact h.2.symm
  · cases h

/-- A compile keeps the invariant. -/
theorem valid_compiled (h : s.Valid) : (s.compiled env a c).Valid := by
  rcases compiled_cases h env a c with ⟨hsame, -⟩ |
    ⟨compilation, found, page, saved, hprepare, -, hs, htables, done, hhistory, -⟩
  · rw [hsame]
    exact h
  · have hfound : ∀ x ∈ found, x ∈ s.wiki.db.articles := by
      rw [mem_of_prepare hprepare]
      exact fun x hx ↦ List.mem_of_mem_filter hx
    unfold State.Valid
    rw [hhistory]
    refine valid_page (a := a) h hs hfound ?_ done
    simp only [Db.tables, Prod.mk.injEq] at htables
    simp only [pageTables, htables.1, htables.2.1, htables.2.2.2.2]

/-- Where nothing was compiled half-way, the trigger compiles what has to be compiled. -/
theorem tracked_of_settled (h : s.Valid) (hs : Settled s) : Tracked env s := by
  refine ⟨hs.sources, fun c _ hdue ↦ ?_⟩
  rw [sourceSetChanged_iff h]
  intro page hpage htype hkey hsame
  obtain ⟨r, hr, hids⟩ := h.noted page hpage htype
  rw [hkey] at hr
  have hdone := hs.done (pageOf env c) r hr
  have hlast : s.history.find? (fun r ↦ r.page = pageOf env c ∧ r.done) = some r := by
    obtain ⟨hpageOf, before, after, hsplit, hbefore⟩ := List.find?_eq_some_iff_append.mp hr
    rw [List.find?_eq_some_iff_append]
    refine ⟨by simpa [hdone] using hpageOf, before, after, hsplit, fun x hx ↦ ?_⟩
    have hne := hbefore x hx
    simp only [Bool.not_eq_true', decide_eq_false_iff_not] at hne
    simp [hne]
  rcases hdue with hstale | hfailed
  · apply hstale
    unfold State.lastDone
    rw [hlast, Option.map_some, hids, hsame]
  · unfold State.failed at hfailed
    rw [hr] at hfailed
    simp [hdone] at hfailed

/-- A harmless compile leaves nothing dangling or half-way. -/
theorem settled_compiled (h : s.Valid) (hs : Settled s) (hharmless : Harmless env s.wiki.db a c) :
    Settled (s.compiled env a c) := by
  rcases compiled_cases h env a c with ⟨hsame, -⟩ |
    ⟨compilation, found, page, saved, hprepare, hcommits, hsaved, htables, done, hhistory, hdone⟩
  · rw [hsame]
    exact hs
  · obtain ⟨hfound, hfails⟩ := hharmless compilation found hprepare hcommits
    simp only [Db.tables, Prod.mk.injEq] at htables
    obtain ⟨-, -, -, -, hrows⟩ := htables
    constructor
    · intro as has
      have hnone : reached a page found = [] := by
        unfold reached
        rw [hfound]
        simp
      rw [hrows, hnone, List.append_nil] at has
      exact hs.sources as (hsaved.kept as has).1
    · intro key r hr
      rw [hhistory, List.find?_cons] at hr
      split at hr
      · cases hr
        exact hdone.mpr hfails
      · exact hs.done key r hr

/-- A compile after which all is tracked was harmless: with source pages, its join rows refer to
no source, and where it failed, the trigger takes its page for unchanged. -/
theorem harmless_of_tracked (h : s.Valid) (hc : c ∈ s.wiki.db.concepts)
    (htracked : Tracked env (s.compiled env a c)) : Harmless env s.wiki.db a c := by
  intro compilation found hprepare hcommits
  have ht : (s.compiled env a c).Valid := valid_compiled h
  rcases compiled_cases h env a c with ⟨-, hnot⟩ |
    ⟨_, _, page, saved, hprepare', -, hsaved, htables, done, hhistory, hdone⟩
  · exact absurd hcommits (hnot compilation found hprepare)
  · rw [hprepare] at hprepare'
    cases hprepare'
    have hcollect := mem_of_prepare hprepare
    simp only [Db.tables, Prod.mk.injEq] at htables
    obtain ⟨harticles, -, hconcepts, hnames, hrows⟩ := htables
    -- The trigger reads the ids of this compile, whatever became of it.
    have hunchanged : sourceSetChanged env c.userId (s.compiled env a c).wiki.db c ≠ .ok true := by
      rw [ne_eq, sourceSetChanged_iff ht]
      intro hchanged
      refine hchanged page (by rw [harticles]; exact hsaved.mem) hsaved.type hsaved.key ?_
      unfold currentIds
      rw [collect_page h hsaved harticles hnames, ← hcollect, fetchSourceIds_self hsaved hrows]
    have hc' : c ∈ (s.compiled env a c).wiki.db.concepts := by
      rw [hconcepts, hsaved.concepts]
      exact hc
    have hfails : ∀ stage, a.fails stage = false := by
      rw [← hdone]
      by_contra hfailed
      apply hunchanged
      apply htracked.pages c hc'
      right
      unfold State.failed
      rw [hhistory, List.find?_cons_of_pos (by simp)]
      simpa using hfailed
    refine ⟨List.eq_nil_iff_forall_not_mem.mpr fun x hx ↦ ?_, hfails⟩
    have hrow : (⟨page.id, x.id⟩ : ArticleSource) ∈ reached a page found := by
      unfold reached Attempt.joins
      simp only [hfails, Bool.not_false, Bool.and_self, if_true]
      exact List.mem_map_of_mem hx
    obtain ⟨y, hy, hid⟩ := htracked.sources ⟨page.id, x.id⟩
      (by rw [hrows]; exact List.mem_append_right _ hrow)
    rw [hcollect] at hx
    exact (h.articles x (List.mem_of_mem_filter hx)).2 y hy hid

/-- Compiles of sources add join rows of their source only. -/
theorem mem_rows_upsertArticle {userId : String} {w : Wiki} {source : Source}
    {existing : Option Article} {r : Result} {as : ArticleSource}
    (has : as ∈ (upsertArticle env userId w source existing r).db.articleSources) :
    as ∈ w.db.articleSources ∨ as.sourceId = source.id := by
  have hsaved : ∀ {article saved},
      saveSourceRow env userId w.db source existing r = some (article, saved) →
        ∀ as ∈ saved.articleSources, as ∈ w.db.articleSources := by
    intro article saved hrow as has
    unfold saveSourceRow at hrow
    cases existing with
    | some old =>
      dsimp only at hrow
      split at hrow
      · cases hrow
      · cases hrow
        exact List.mem_of_mem_filter has
    | none =>
      dsimp only at hrow
      split at hrow
      · cases hrow
      · split at hrow
        · cases hrow
        · cases hrow
          exact has
  unfold upsertArticle at has
  split at has
  · left
    exact has
  next article saved hrow =>
    have hadded : as ∈ (addSourceJoins source r article saved).articleSources →
        as ∈ w.db.articleSources ∨ as.sourceId = source.id := by
      intro has
      rcases List.mem_append.mp has with has | has
      · left
        exact hsaved hrow as has
      · right
        rw [List.mem_singleton.mp has]
    split at has
    · left
      exact hsaved hrow as has
    · dsimp only at has
      split at has
      · exact hadded has
      · have hrows := congrArg (·.2.2) (pageTables_postSaveSideEffects env userId
          { w with db := addSourceJoins source r article saved } r)
        simp only [pageTables] at hrows
        rw [hrows] at has
        exact hadded has

private theorem settled_step {e : Event} {w : Wiki} (hs : Settled s)
    (hpage : ∀ userId c a, e ≠ .page userId c a) (hstep : step env s.wiki e = some w) :
    Settled { s with wiki := w } := by
  refine ⟨?_, hs.done⟩
  have hupsert : ∀ {userId source existing r}, source ∈ s.wiki.sources →
      ∀ as ∈ (upsertArticle env userId s.wiki source existing r).db.articleSources,
        ∃ x ∈ (upsertArticle env userId s.wiki source existing r).sources, x.id = as.sourceId := by
    intro userId source existing r hsource as has
    rw [sources_upsertArticle]
    rcases mem_rows_upsertArticle has with hold | hnew
    · exact hs.sources as hold
    · exact ⟨source, hsource, hnew.symm⟩
  cases e with
  | ingest userId =>
    simp only [step, Option.ite_none_left_eq_some, Option.some.injEq] at hstep
    obtain ⟨-, rfl⟩ := hstep
    intro as has
    obtain ⟨x, hx, hid⟩ := hs.sources as has
    exact ⟨x, List.mem_append_left _ hx, hid⟩
  | compile userId sourceId r =>
    simp only [step, Option.ite_none_left_eq_some, Option.map_eq_some_iff] at hstep
    obtain ⟨-, source, hsource, rfl⟩ := hstep
    exact hupsert (List.mem_of_find?_eq_some hsource)
  | recompile userId articleId r =>
    simp only [step, Option.ite_none_left_eq_some, Option.bind_eq_some_iff,
      Option.map_eq_some_iff] at hstep
    obtain ⟨-, x, -, sourceId, -, source, hsource, rfl⟩ := hstep
    exact hupsert (List.mem_of_find?_eq_some hsource)
  | page userId c a => exact absurd rfl (hpage userId c a)

/-- What an event does: something to the tables, the compile of a page, or nothing. -/
theorem pageStep_cases {e : PageEvent} (hstep : pageStep env s e = some t) :
    (∃ e' w, (∀ userId c a, e' ≠ .page userId c a) ∧ step env s.wiki e' = some w ∧
        t = { s with wiki := w } ∧ e.Harmless env s) ∨
      (∃ c a, c ∈ s.wiki.db.concepts ∧ t = s.compiled env a c ∧
        (e.Harmless env s ↔ Harmless env s.wiki.db a c)) ∨
      (t = s ∧ e.Harmless env s) := by
  cases e with
  | tables e =>
    cases e with
    | page userId c a =>
      right
      left
      simp only [pageStep, Option.ite_none_right_eq_some, Option.some.injEq] at hstep
      obtain ⟨⟨hc, -⟩, rfl⟩ := hstep
      exact ⟨c, a, hc, rfl, Iff.rfl⟩
    | _ =>
      left
      obtain ⟨w, hw, rfl⟩ := Option.map_eq_some_iff.mp hstep
      exact ⟨_, w, by simp, hw, rfl, trivial⟩
  | consider c a =>
    right
    simp only [pageStep, Option.ite_none_right_eq_some] at hstep
    obtain ⟨hc, hstep⟩ := hstep
    split at hstep
    next hchanged =>
      left
      cases hstep
      exact ⟨c, a, hc, rfl, ⟨fun h ↦ h hchanged, fun h _ ↦ h⟩⟩
    next hunchanged =>
      right
      cases hstep
      exact ⟨rfl, fun hchanged ↦ absurd hchanged hunchanged⟩

theorem valid_pageStep {e : PageEvent} (h : s.Valid) (hstep : pageStep env s e = some t) :
    t.Valid := by
  rcases pageStep_cases hstep with ⟨e', w, hpage, hw, rfl, -⟩ | ⟨c, a, -, rfl, -⟩ | ⟨rfl, -⟩
  · exact valid_step h hpage hw
  · exact valid_compiled h
  · exact h

private theorem settled_pageStep {e : PageEvent} (h : s.Valid) (hs : Settled s)
    (hharmless : e.Harmless env s) (hstep : pageStep env s e = some t) : Settled t := by
  rcases pageStep_cases hstep with ⟨e', w, hpage, hw, rfl, -⟩ | ⟨c, a, -, rfl, hiff⟩ | ⟨rfl, -⟩
  · exact settled_step hs hpage hw
  · exact settled_compiled h hs (hiff.mp hharmless)
  · exact hs

private theorem harmless_pageStep {e : PageEvent} (h : s.Valid) (hstep : pageStep env s e = some t)
    (htracked : Tracked env t) : e.Harmless env s := by
  rcases pageStep_cases hstep with ⟨_, _, -, -, -, hharmless⟩ | ⟨c, a, hc, rfl, hiff⟩ |
    ⟨-, hharmless⟩
  · exact hharmless
  · exact hiff.mpr (harmless_of_tracked h hc htracked)
  · exact hharmless

/-- A compile of a page makes no concepts. -/
theorem concepts_compileConceptPage (env : Env) (userId : String) (db : Db) (a : Attempt)
    (c : Concept) : (compileConceptPage env userId db a c).2.concepts = db.concepts := by
  rcases compileConceptPage_cases env userId db a c with hsame |
    ⟨compilation, found, page, saved, -, hcommits, hrow, htables⟩
  · rw [hsame]
  · have hsaved : saved.concepts = db.concepts := by
      rcases saveRow_eq_ok compilation found hcommits with ⟨old, -, hreplace⟩ | ⟨-, hinsert⟩
      · rw [hreplace] at hrow
        cases hrow
        rfl
      · rw [hinsert] at hrow
        cases hrow
        rfl
    have hconcepts := congrArg (·.2.2.1) htables
    simp only [Db.tables] at hconcepts
    rw [hconcepts]
    split
    · exact hsaved
    · exact hsaved

/-- The loop body of the trigger is an event. -/
theorem consider_step (env : Env) (a : Attempt) (hc : c ∈ s.wiki.db.concepts) :
    ∃ t, pageStep env s (.consider c a) = some t ∧
      t.wiki = { s.wiki with db := (considerConcept env c.userId s.wiki.db a c).2 } ∧
      t.wiki.db.concepts = s.wiki.db.concepts := by
  simp only [pageStep, considerConcept, if_pos hc]
  cases sourceSetChanged env c.userId s.wiki.db c with
  | error e => exact ⟨s, rfl, rfl, rfl⟩
  | ok changed =>
    cases changed with
    | false => exact ⟨s, rfl, rfl, rfl⟩
    | true => exact ⟨_, rfl, rfl, concepts_compileConceptPage env c.userId s.wiki.db a c⟩

/-- The loop stops after a round or goes on. -/
theorem considerAll_cons (env : Env) (userId : String) (attempt : Concept → Attempt) (db : Db)
    (c : Concept) (rest : List Concept) :
    considerAll env userId attempt db (c :: rest) =
        (considerConcept env userId db (attempt c) c).2 ∨
      considerAll env userId attempt db (c :: rest) =
        considerAll env userId attempt (considerConcept env userId db (attempt c) c).2 rest := by
  rw [considerAll]
  split
  next hresult =>
    rw [hresult]
    split
    · left
      rfl
    · right
      rfl
  next hresult =>
    right
    rw [hresult]

/-- A trigger is a run of its loop body. -/
theorem maybeTriggerConceptPages_run (env : Env) (userId : String) (s : State)
    (attempt : Concept → Attempt) :
    ∃ es t, (∀ e ∈ es, ∃ c, c.userId = userId ∧ e = PageEvent.consider c (attempt c)) ∧
      (pageMachine env).run s es = some t ∧
      t.wiki = maybeTriggerConceptPages env userId s.wiki attempt := by
  have hloop : ∀ (eligible : List Concept) (s : State),
      (∀ c ∈ eligible, c ∈ s.wiki.db.concepts ∧ c.userId = userId) →
      ∃ es t, (∀ e ∈ es, ∃ c, c.userId = userId ∧ e = PageEvent.consider c (attempt c)) ∧
        (pageMachine env).run s es = some t ∧
        t.wiki = { s.wiki with db := considerAll env userId attempt s.wiki.db eligible } := by
    intro eligible
    induction eligible with
    | nil => exact fun s _ ↦ ⟨[], s, by simp, rfl, rfl⟩
    | cons c rest ih =>
      intro s heligible
      obtain ⟨hc, howner⟩ := heligible c (List.mem_cons_self ..)
      obtain ⟨next, hstep, hwiki, hconcepts⟩ := consider_step env (attempt c) hc
      rw [howner] at hwiki
      rcases considerAll_cons env userId attempt s.wiki.db c rest with hstops | hgoes
      · refine ⟨[.consider c (attempt c)], next, ?_, ?_, ?_⟩
        · intro e he
          exact ⟨c, howner, List.mem_singleton.mp he⟩
        · simp [pageMachine, hstep]
        · rw [hwiki, hstops]
      · have hrest : ∀ x ∈ rest, x ∈ next.wiki.db.concepts ∧ x.userId = userId := by
          rw [hconcepts]
          exact fun x hx ↦ heligible x (List.mem_cons_of_mem c hx)
        obtain ⟨es, t, hes, hrun, ht⟩ := ih next hrest
        refine ⟨.consider c (attempt c) :: es, t, ?_, ?_, ?_⟩
        · intro e he
          rcases List.mem_cons.mp he with rfl | he
          · exact ⟨c, howner, rfl⟩
          · exact hes e he
        · rw [Machine.run_cons]
          simpa [pageMachine, hstep] using hrun
        · rw [ht, hwiki, hgoes]
  apply hloop
  intro c hc
  obtain ⟨hmem, hprop⟩ := List.mem_filter.mp hc
  simp only [decide_eq_true_eq] at hprop
  exact ⟨hmem, hprop.2⟩

end Runs

/-- An empty wiki without compiles. -/
def startState (kinds : List ConceptKindDef) : State := ⟨start kinds, []⟩

theorem valid_startState (kinds : List ConceptKindDef) : (startState kinds).Valid := by
  constructor <;> simp [startState, start]

private theorem settled_startState (kinds : List ConceptKindDef) : Settled (startState kinds) := by
  constructor <;> simp [startState, start]

/-- In a run, join rows always refer to sources and the trigger always compiles what has to be
compiled exactly when no compile commits a page with source pages, or fails after it has
committed one. -/
theorem pages_tracked_iff (env : Env) (kinds : List ConceptKindDef) (es : List PageEvent) :
    (pageMachine env).Always (Tracked env) (startState kinds) es ↔
      (pageMachine env).Guarded (fun s e ↦ e.Harmless env s) (startState kinds) es :=
  (pageMachine env).always_iff_guarded_of
    (fun _ _ _ h hstep ↦ valid_pageStep h hstep)
    (fun _ h hs ↦ tracked_of_settled h hs)
    (fun _ _ _ h hs hG hstep ↦ settled_pageStep h hs hG hstep)
    (fun _ _ _ h _ hstep htracked ↦ harmless_pageStep h hstep htracked)
    (valid_startState kinds) (settled_startState kinds) es

/-- A source is compiled to a page, then its concept page is considered. -/
def pageRun (fails : Stage → Bool) : List PageEvent :=
  [.tables (.ingest "u"),
   .tables (.compile "u" 0 ⟨1, none, "Notes", "", ["logic"], id, fun _ ↦ false⟩),
   .consider ⟨"logic", "u", "logic", "topic"⟩ ⟨2, none, some ⟨"Logic", "", []⟩, "text", fails⟩]

/-- Where the compile succeeds, its join row refers to an article; where it fails at the join
rows, its page is taken for unchanged. -/
theorem pages_not_tracked :
    ¬ (pageMachine Wiki.Recompile.sampleEnv).Always (Tracked Wiki.Recompile.sampleEnv)
        (startState [⟨"topic", "topic"⟩]) (pageRun fun _ ↦ false) ∧
      ¬ (pageMachine Wiki.Recompile.sampleEnv).Always (Tracked Wiki.Recompile.sampleEnv)
        (startState [⟨"topic", "topic"⟩]) (pageRun (· = .joins)) := by
  decide +kernel

end WikiMind.Concepts
