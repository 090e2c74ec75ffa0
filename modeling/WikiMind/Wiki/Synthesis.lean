import WikiMind.Base.JsonStrings
import WikiMind.Base.Run
import WikiMind.Base.Text
import WikiMind.Wiki.Recompile

/-!
# Saving synthesis pages

A synthesis page is saved from a completion (`engine/synthesis_compiler.py:410`) or from a draft
that its author has confirmed (`engine/synthesis_compiler.py:247`). Its row is committed before
its file is written, and the path of the file, the concept rows, the search index and the links
to the sources follow in transactions of their own. A call is given what comes from outside: the
rendered file of a completion and the stages that fail when they are reached.
-/

namespace WikiMind.Wiki.Synthesis

open WikiMind.Base WikiMind.Llm WikiMind.Wiki
open WikiMind.Compile (TextEnv ArticleConcept Backlink freeSlug)
open WikiMind.Wiki.Recompile (Article Db)

/-- The points at which a call may fail, in their order: the look-ups, the commit of the row, its
refresh, the file, the commit of its path, and those of the concept rows, of the index and of the
links. -/
inductive Stage where
  | find | decode | slug | row | refresh | file | path | joins | index | synthesizes
  deriving DecidableEq, Repr

/-- What a completion for a synthesis page is used for, besides its file:
`models/dto/compilation.py`. -/
structure SynthesisCompilationResult where
  title : String
  summary : String
  concepts : List String
  deriving DecidableEq

/-- The libraries and settings. -/
structure Env extends TextEnv where
  synthesisMaxSources : Nat

/-- A call of `_save_synthesis_page` with the articles it analyzes and the rendered file, or of
`confirm`. -/
inductive Call where
  | save (userId : String) (provider : Option Provider) (now : Nat)
    (compilation : SynthesisCompilationResult) (sources : List Article) (text : String)
    (fails : Stage → Bool)
  | confirm (userId : String) (provider : Option Provider) (now : Nat) (title : String)
    (draftContent : String) (articleIds : List Nat) (fails : Stage → Bool)

def Call.fails : Call → Stage → Bool
  | .save _ _ _ _ _ _ fails | .confirm _ _ _ _ _ _ fails => fails

section Lookups

variable (env : Env) (db : Db)

/-- The score of an article for the terms of a query, in halves:
`engine/synthesis_compiler.py:68–82`. -/
def Env.score (terms : List String) (article : Article) : Nat :=
  let contains (text term : String) : Bool := occursIn term.toList text.toList
  let conceptsLower := env.lower (String.ofList
    (Json.dumpsStrings (article.conceptIds.map String.toList)))
  (terms.map fun term ↦
    (if contains (env.lower article.title) term then 6 else 0) +
    (if contains (env.lower article.summary) term then 4 else 0) +
    (if contains conceptsLower term then 3 else 0)).sum

/-- `_find_relevant_articles`: `engine/synthesis_compiler.py:36`. -/
def findRelevantArticles (terms : List String) (userId : String) (articleIds : List Nat) :
    List Article :=
  if articleIds ≠ [] then db.articles.filter fun a ↦ a.id ∈ articleIds ∧ a.userId = userId
  else
    let all := db.articles.filter fun a ↦
      a.userId = userId ∧ (a.pageType = .source ∨ a.pageType = .concept)
    let scored := all.filter fun a ↦ 0 < env.score terms a
    (scored.mergeSort fun a b ↦ decide (env.score terms b ≤ env.score terms a)).take
      env.synthesisMaxSources

/-- `_generate_unique_slug` with the prefix of synthesis pages. -/
def uniqueSlug (userId title : String) : Option String :=
  freeSlug (fun slug ↦ db.articles.any fun a ↦ a.slug = slug ∧ a.userId = userId)
    ("synthesis-" ++ env.slugify (some 70) title) env.slugMaxAttempts

end Lookups

/-- What a call is about to save: the row, without a path yet, its concepts and sources, the path
and the text of the file, and the context of the links. -/
structure Draft where
  article : Article
  concepts : List String
  sources : List Nat
  relativePath : String
  text : String
  deriving DecidableEq

section Saving

variable (env : Env) (db : Db)

/-- A stage is reached. -/
def reach (fails : Stage → Bool) (stage : Stage) : Except Exc Unit :=
  if fails stage then .error (.runtimeError "synthesis") else .ok ()

/-- The slug of a page, or the `ValueError` of too many attempts. -/
def chooseSlug (userId title : String) (fails : Stage → Bool) : Except Exc String := do
  reach fails .slug
  match uniqueSlug env db userId title with
  | some slug => return slug
  | none => throw .valueError

/-- The row of a synthesis page, which has the next id. -/
def newRow (userId slug title summary : String) (concepts : List String) (sources : List Nat)
    (provider : Option Provider) (now : Nat) : Article :=
  { id := db.nextId, userId, slug, title, summary, filePath := "", conceptIds := concepts
    sourceIds := sources, provider, pageType := .synthesis, updatedAt := now }

/-- The summary of a confirmed draft: `engine/synthesis_compiler.py:277–279`. -/
def summaryOf (draftContent : String) : String :=
  let start := env.strip (slice 200 draftContent)
  if 200 < draftContent.length then start ++ "..." else start

/-- The concepts of all sources, each once: `engine/synthesis_compiler.py:282–288`. -/
def unionConcepts (articles : List Article) : List String :=
  (articles.flatMap Article.conceptIds).eraseDups

/-- The calls up to their first commit: `engine/synthesis_compiler.py:258–302, 417–432`. A draft
is not saved if fewer than two of its articles are found. -/
def Call.prepare : Call → Except Exc (Option Draft)
  | .save userId provider now compilation sources text fails => do
    let slug ← chooseSlug env db userId compilation.title fails
    let sourceIds := sources.map Article.id
    return some
      { article := newRow db userId slug compilation.title compilation.summary
          compilation.concepts sourceIds provider now
        concepts := compilation.concepts, sources := sourceIds
        relativePath := "synthesis/" ++ slug ++ ".md", text }
  | .confirm userId provider now title draftContent articleIds fails => do
    reach fails .find
    let articles := findRelevantArticles env db ["confirm"] userId articleIds
    if articles.length < 2 then return none
    let slug ← chooseSlug env db userId title fails
    reach fails .decode
    let sourceIds := articles.map Article.id
    let concepts := unionConcepts articles
    return some
      { article := newRow db userId slug title (summaryOf env draftContent) concepts sourceIds
          provider now
        concepts, sources := sourceIds
        relativePath := "synthesis/" ++ slug ++ ".md", text := draftContent }

/-- The concept rows of a page. -/
def conceptRows (articleId : Nat) (concepts : List String) : List ArticleConcept :=
  concepts.map fun name ↦ ⟨articleId, name⟩

/-- Their insertion; a name that occurs twice violates the primary key:
`models/tables/wiki.py:95`. -/
def addConcepts (articleId : Nat) (concepts : List String) (db : Db) : Except Exc Db :=
  let rows := conceptRows articleId concepts
  if rows.Nodup ∧ ∀ row ∈ rows, row ∉ db.articleConcepts then
    .ok { db with articleConcepts := db.articleConcepts ++ rows }
  else .error .integrityError

/-- `_create_synthesizes_links`: `engine/base_compiler.py:157`. -/
def addLinks (draft : Draft) (db : Db) : Db :=
  draft.sources.foldl (fun db target ↦ db.link draft.article.id target draft.article.userId
    "Synthesis page analyzes this source article" "synthesizes") db

/-- The insertion of the row. -/
def addRow (draft : Draft) (db : Db) : Db :=
  { db with articles := db.articles ++ [draft.article], nextId := db.nextId + 1 }

/-- The update of its path. -/
def setPath (draft : Draft) (db : Db) : Db :=
  let articles := Rows.modify (fun a ↦ a.id = draft.article.id)
    (fun a ↦ { a with filePath := draft.relativePath }) db.articles
  { db with articles }

/-- What a call does in its transactions, and with the file between them:
`engine/synthesis_compiler.py:303–336, 433–466`. -/
def transactions (draft : Draft) : List (Stage × (Db → Except Exc Db)) :=
  [(.row, fun db ↦ .ok (addRow draft db)),
    (.refresh, .ok),
    (.file, fun db ↦ .ok (db.write draft.article.userId draft.relativePath draft.text)),
    (.path, fun db ↦ .ok (setPath draft db)),
    (.joins, addConcepts draft.article.id draft.concepts),
    (.index, .ok),
    (.synthesizes, fun db ↦ .ok (addLinks draft db))]

/-- Perform transactions up to the first that fails: whether one has, and what is committed after
each of the others. -/
def perform (fails : Stage → Bool) : Db → List (Stage × (Db → Except Exc Db)) → Bool × List Db
  | _, [] => (false, [])
  | db, (stage, work) :: rest =>
    match if fails stage then .error (.runtimeError "synthesis") else work db with
    | .error _ => (true, [])
    | .ok db' => ((perform fails db' rest).1, db' :: (perform fails db' rest).2)

/-- A call that is over: the store before it, whether it has raised, and the stores it has
committed. -/
structure Outcome where
  before : Db
  raised : Bool
  committed : List Db

/-- The store a call leaves. -/
def Outcome.final (o : Outcome) : Db := o.committed.getLast?.getD o.before

/-- One call. -/
def Call.serve (call : Call) : Outcome :=
  match call.prepare env db with
  | .error _ => ⟨db, true, []⟩
  | .ok none => ⟨db, false, []⟩
  | .ok (some draft) =>
    let (raised, committed) := perform call.fails db (transactions draft)
    ⟨db, raised, committed⟩

end Saving

/-- The store and the calls so far. -/
structure State where
  db : Db
  calls : List Outcome

/-- The calls of a run, one after the other. -/
def saves (env : Env) : Machine State Call :=
  Machine.ofFun fun s call ↦
    let o := call.serve env s.db
    ⟨o.final, s.calls ++ [o]⟩

/-- Every article has a path, and the file there has been written. -/
def Clean (db : Db) : Prop :=
  ∀ a ∈ db.articles, a.filePath ≠ "" ∧ (db.fileAt a.userId a.filePath).isSome = true

/-- The rows that a page consists of are the same. -/
structure SameRows (db db' : Db) : Prop where
  articles : db'.articles = db.articles
  articleConcepts : db'.articleConcepts = db.articleConcepts
  backlinks : db'.backlinks = db.backlinks

/-- What is required of a call: it commits no store with an article without its file, and leaves
no row of its page if it raises. -/
structure Outcome.AllOrNothing (o : Outcome) : Prop where
  clean : ∀ db ∈ o.committed, Clean db
  nothing : o.raised = true → SameRows o.before o.final

/-- What is required of a call if the stores between its commits do not count. -/
structure Outcome.LeavesAllOrNothing (o : Outcome) : Prop where
  clean : Clean o.final
  nothing : o.raised = true → SameRows o.before o.final

/-- All calls so far are as required. -/
def AllSaved (s : State) : Prop := ∀ o ∈ s.calls, o.AllOrNothing

/-- All calls so far have left a store as required. -/
def AllLeft (s : State) : Prop := ∀ o ∈ s.calls, o.LeavesAllOrNothing

/-- A call that does not get past its first commit. -/
def StopsEarly (env : Env) (db : Db) : Call → Prop
  | .save userId _ _ compilation _ _ fails =>
    fails .slug = true ∨ uniqueSlug env db userId compilation.title = none ∨ fails .row = true
  | .confirm userId _ _ title _ articleIds fails =>
    fails .find = true ∨ (findRelevantArticles env db ["confirm"] userId articleIds).length < 2 ∨
      fails .slug = true ∨ uniqueSlug env db userId title = none ∨ fails .decode = true ∨
      fails .row = true

/-- The stages behind the first commit. -/
def lateStages : List Stage := [.refresh, .file, .path, .joins, .index, .synthesizes]

/-- A call that, past its first commit, does not fail: no later stage does, and a completion names
no concept twice. -/
def Call.Completes : Call → Prop
  | .save _ _ _ compilation _ _ fails =>
    (∀ stage ∈ lateStages, fails stage = false) ∧ compilation.concepts.Nodup
  | .confirm _ _ _ _ _ _ fails => ∀ stage ∈ lateStages, fails stage = false

/-! ### Up to the first commit -/

section Prepare

variable {env : Env} {db : Db} {call : Call} {draft : Draft}

private theorem nodup_eraseDups (names : List String) : names.eraseDups.Nodup := by
  induction names using (measure List.length).wf.induction with
  | _ names ih =>
    cases names with
    | nil => exact List.nodup_nil
    | cons name rest =>
      rw [List.eraseDups_cons, List.nodup_cons, List.mem_eraseDups]
      refine ⟨by simp, ih _ ?_⟩
      exact Nat.lt_succ_of_le (List.length_filter_le _ rest)

theorem reach_eq_ok {fails : Stage → Bool} {stage : Stage} {u : Unit} :
    reach fails stage = .ok u ↔ fails stage = false := by
  unfold reach
  cases fails stage <;> simp

private theorem chooseSlug_eq_ok {userId title slug : String} {fails : Stage → Bool} :
    chooseSlug env db userId title fails = .ok slug ↔
      fails .slug = false ∧ uniqueSlug env db userId title = some slug := by
  unfold chooseSlug
  rw [bind_eq_ok]
  constructor
  · rintro ⟨u, hreach, hslug⟩
    refine ⟨reach_eq_ok.mp hreach, ?_⟩
    cases hfound : uniqueSlug env db userId title with
    | none =>
      rw [hfound] at hslug
      cases hslug
    | some found =>
      rw [hfound] at hslug
      cases hslug
      rfl
  · rintro ⟨hreach, hslug⟩
    refine ⟨(), reach_eq_ok.mpr hreach, ?_⟩
    rw [hslug]
    rfl

/-- What a call that gets to its first commit is about to save. -/
structure Prepared (db : Db) (call : Call) (draft : Draft) : Prop where
  id : draft.article.id = db.nextId
  filePath : draft.article.filePath = ""
  relativePath : draft.relativePath ≠ ""
  concepts : call.Completes ↔
    (∀ stage ∈ lateStages, call.fails stage = false) ∧ draft.concepts.Nodup

private theorem relativePath_ne (slug : String) : "synthesis/" ++ slug ++ ".md" ≠ "" := by
  intro h
  have hlength := congrArg String.length h
  simp only [String.length_append] at hlength
  have : "synthesis/".length = 10 := rfl
  have : "".length = 0 := rfl
  omega

/-- A draft is prepared if the call stops neither before its first commit nor at it. -/
theorem exists_prepared_iff :
    (∃ draft, call.prepare env db = .ok (some draft)) ∧ call.fails .row = false ↔
      ¬ StopsEarly env db call := by
  cases call with
  | save userId provider now compilation sources text fails =>
    simp only [Call.prepare, StopsEarly, Call.fails, bind_eq_ok, chooseSlug_eq_ok, not_or,
      Bool.not_eq_true]
    constructor
    · rintro ⟨⟨draft, slug, ⟨hreach, hslug⟩, -⟩, hrow⟩
      exact ⟨hreach, by rw [hslug]; exact Option.some_ne_none slug, hrow⟩
    · rintro ⟨hreach, hslug, hrow⟩
      obtain ⟨slug, hslug⟩ := Option.ne_none_iff_exists'.mp hslug
      exact ⟨⟨_, slug, ⟨hreach, hslug⟩, rfl⟩, hrow⟩
  | confirm userId provider now title draftContent articleIds fails =>
    simp only [Call.prepare, StopsEarly, Call.fails, bind_eq_ok, not_or, Bool.not_eq_true,
      reach_eq_ok]
    constructor
    · rintro ⟨⟨draft, -, hfind, h⟩, hrow⟩
      split at h
      · cases h
      · next hmany =>
        obtain ⟨slug, hslug, h⟩ := bind_eq_ok.mp h
        obtain ⟨_, hdecode, -⟩ := bind_eq_ok.mp h
        obtain ⟨hreach, hslug⟩ := chooseSlug_eq_ok.mp hslug
        exact ⟨hfind, hmany, hreach, by rw [hslug]; exact Option.some_ne_none slug,
          reach_eq_ok.mp hdecode, hrow⟩
    · rintro ⟨hfind, hmany, hreach, hslug, hdecode, hrow⟩
      obtain ⟨slug, hslug⟩ := Option.ne_none_iff_exists'.mp hslug
      exact ⟨⟨_, (), hfind, (if_neg hmany).trans (bind_eq_ok.mpr
        ⟨slug, chooseSlug_eq_ok.mpr ⟨hreach, hslug⟩,
          bind_eq_ok.mpr ⟨(), reach_eq_ok.mpr hdecode, rfl⟩⟩)⟩, hrow⟩

private theorem prepared_of_prepare (h : call.prepare env db = .ok (some draft)) :
    Prepared db call draft := by
  cases call with
  | save userId provider now compilation sources text fails =>
    obtain ⟨slug, -, h⟩ := bind_eq_ok.mp h
    cases h
    exact ⟨rfl, rfl, relativePath_ne slug, Iff.rfl⟩
  | confirm userId provider now title draftContent articleIds fails =>
    obtain ⟨_, -, h⟩ := bind_eq_ok.mp h
    dsimp only at h
    split at h
    · cases h
    · obtain ⟨slug, -, h⟩ := bind_eq_ok.mp h
      obtain ⟨_, -, h⟩ := bind_eq_ok.mp h
      cases h
      exact ⟨rfl, rfl, relativePath_ne slug, (and_iff_left (nodup_eraseDups _)).symm⟩

end Prepare

/-! ### The transactions -/

section Perform

variable {fails : Stage → Bool} {steps : List (Stage × (Db → Except Exc Db))} {db : Db}
  {draft : Draft}

private theorem perform_of_ok {stage : Stage} {work : Db → Except Exc Db} {db' : Db}
    (hfails : fails stage = false) (hwork : work db = .ok db') :
    perform fails db ((stage, work) :: steps) =
      ((perform fails db' steps).1, db' :: (perform fails db' steps).2) := by
  rw [perform, hfails, if_neg Bool.false_ne_true, hwork]

/-- What every transaction keeps holds of every store that is committed. -/
theorem forall_perform {P : Db → Prop}
    (hstep : ∀ step ∈ steps, ∀ d d', P d → step.2 d = .ok d' → P d') (h : P db) :
    ∀ d ∈ (perform fails db steps).2, P d := by
  induction steps generalizing db with
  | nil => exact List.forall_mem_nil _
  | cons step rest ih =>
    rw [perform]
    split
    · exact List.forall_mem_nil _
    · next d' hwork =>
      split at hwork
      · cases hwork
      · have hd' : P d' := hstep step List.mem_cons_self db d' h hwork
        exact List.forall_mem_cons.mpr
          ⟨hd', ih (fun s hs ↦ hstep s (List.mem_cons_of_mem step hs)) hd'⟩

/-- If no transaction raises, no stage fails, and each transaction succeeds. -/
theorem succeeds_of_perform (h : (perform fails db steps).1 = false) :
    ∀ step ∈ steps, fails step.1 = false ∧ ∃ d d', step.2 d = .ok d' := by
  induction steps generalizing db with
  | nil => exact List.forall_mem_nil _
  | cons step rest ih =>
    rw [perform] at h
    split at h
    · cases h
    · next d' hwork =>
      split at hwork
      · cases hwork
      · next hfails =>
        exact List.forall_mem_cons.mpr ⟨⟨Bool.not_eq_true _ ▸ hfails, db, d', hwork⟩, ih h⟩

private theorem addConcepts_eq_ok {articleId : Nat} {concepts : List String} {db' : Db}
    (h : addConcepts articleId concepts db = .ok db') : concepts.Nodup ∧
      db' = { db with articleConcepts :=
        db.articleConcepts ++ conceptRows articleId concepts } := by
  unfold addConcepts at h
  dsimp only at h
  split at h
  · next hrows =>
    cases h
    exact ⟨List.Nodup.of_map _ hrows.1, rfl⟩
  · cases h

/-- The links to the sources change no other table. -/
theorem exists_addLinks (draft : Draft) (db : Db) :
    ∃ backlinks, addLinks draft db = { db with backlinks } := by
  unfold addLinks
  induction draft.sources generalizing db with
  | nil => exact ⟨db.backlinks, rfl⟩
  | cons target rest ih =>
    obtain ⟨backlinks, hrest⟩ := ih (db.link draft.article.id target draft.article.userId
      "Synthesis page analyzes this source article" "synthesizes")
    refine ⟨backlinks, hrest.trans ?_⟩
    unfold Db.link
    split <;> rfl

/-- What the later transactions keep: the number of the articles, and that the store is keyed. -/
theorem keeps_of_later {step : Stage × (Db → Except Exc Db)}
    (hstep : step ∈ (transactions draft).tail) {d d' : Db} (hwork : step.2 d = .ok d')
    (hkeyed : d.Keyed) (hid : draft.article.id < d.nextId) :
    d'.articles.length = d.articles.length ∧ d'.nextId = d.nextId ∧ d'.Keyed := by
  simp only [transactions, List.tail_cons, List.mem_cons, List.not_mem_nil, or_false] at hstep
  rcases hstep with rfl | rfl | rfl | rfl | rfl | rfl
  · cases hwork
    exact ⟨rfl, rfl, hkeyed⟩
  · cases hwork
    exact ⟨rfl, rfl, hkeyed.1, hkeyed.2, hkeyed.3, hkeyed.4⟩
  · cases hwork
    refine ⟨List.length_map _, rfl, ?_, ?_, hkeyed.3, hkeyed.4⟩
    · have hids : (setPath draft d).articles.map (·.id) = d.articles.map (·.id) :=
        Rows.map_modify fun _ _ _ ↦ rfl
      exact hids ▸ hkeyed.nodup
    · exact Rows.forall_modify.mpr
        ⟨fun a ha _ ↦ hkeyed.articles a ha, fun a ha _ ↦ hkeyed.articles a ha⟩
  · obtain ⟨-, rfl⟩ := addConcepts_eq_ok hwork
    refine ⟨rfl, rfl, hkeyed.1, hkeyed.2, ?_, hkeyed.4⟩
    refine List.forall_mem_append.mpr ⟨hkeyed.3, fun row hrow ↦ ?_⟩
    obtain ⟨name, -, rfl⟩ := List.mem_map.mp hrow
    exact hid
  · cases hwork
    exact ⟨rfl, rfl, hkeyed⟩
  · cases hwork
    obtain ⟨backlinks, hlinks⟩ := exists_addLinks draft d
    rw [hlinks]
    exact ⟨rfl, rfl, hkeyed.1, hkeyed.2, hkeyed.3, hkeyed.4⟩

end Perform

/-! ### One call -/

section Serve

variable {env : Env} {db : Db} {call : Call} {draft : Draft}

private theorem Outcome.final_mem {o : Outcome} (h : o.committed ≠ []) : o.final ∈ o.committed := by
  unfold Outcome.final
  rw [List.getLast?_eq_some_getLast h]
  exact List.getLast_mem h

theorem SameRows.refl (db : Db) : SameRows db db := ⟨rfl, rfl, rfl⟩

/-- A call that stops early commits nothing. -/
theorem exists_serve_of_stopsEarly (h : StopsEarly env db call) :
    ∃ raised, call.serve env db = ⟨db, raised, []⟩ := by
  unfold Call.serve
  cases hprepare : call.prepare env db with
  | error e => exact ⟨true, rfl⟩
  | ok found =>
    cases found with
    | none => exact ⟨false, rfl⟩
    | some draft =>
      have hrow : call.fails .row = true := by
        by_contra hrow
        exact exists_prepared_iff.mp ⟨⟨draft, hprepare⟩, Bool.not_eq_true _ ▸ hrow⟩ h
      refine ⟨true, ?_⟩
      dsimp only
      rw [transactions, perform, hrow, if_pos rfl]

/-- Any other call commits its row, without a path, and goes on. -/
theorem exists_serve_of_not_stopsEarly (h : ¬ StopsEarly env db call) :
    ∃ draft, Prepared db call draft ∧ call.serve env db =
      ⟨db, (perform call.fails (addRow draft db) (transactions draft).tail).1,
        addRow draft db :: (perform call.fails (addRow draft db) (transactions draft).tail).2⟩ := by
  obtain ⟨⟨draft, hprepare⟩, hrow⟩ := exists_prepared_iff.mpr h
  have hfirst : perform call.fails db (transactions draft) =
      ((perform call.fails (addRow draft db) (transactions draft).tail).1,
        addRow draft db :: (perform call.fails (addRow draft db) (transactions draft).tail).2) :=
    perform_of_ok hrow rfl
  refine ⟨draft, prepared_of_prepare hprepare, ?_⟩
  unfold Call.serve
  rw [hprepare]
  dsimp only
  rw [hfirst]

theorem Prepared.keyed (h : Prepared db call draft) (hkeyed : db.Keyed) :
    (addRow draft db).Keyed := by
  have hlt : ∀ {id}, id < db.nextId → id < db.nextId + 1 := Nat.lt_succ_of_lt
  refine ⟨?_, ?_, fun row hrow ↦ hlt (hkeyed.articleConcepts row hrow),
    fun row hrow ↦ hlt (hkeyed.articleSources row hrow)⟩
  · refine Rows.nodup_map_concat.mpr ⟨hkeyed.nodup, fun a ha hid ↦ ?_⟩
    exact Nat.ne_of_lt (hkeyed.articles a ha) (hid.trans h.id)
  · refine List.forall_mem_append.mpr ⟨fun a ha ↦ hlt (hkeyed.articles a ha), ?_⟩
    exact List.forall_mem_singleton.mpr (h.id ▸ Nat.lt_succ_self _)

/-- From its first commit on, the article of a call stays. -/
theorem Prepared.forall_committed (h : Prepared db call draft) (hkeyed : db.Keyed) :
    ∀ d ∈ addRow draft db ::
        (perform call.fails (addRow draft db) (transactions draft).tail).2,
      d.articles.length = db.articles.length + 1 ∧ d.Keyed := by
  have hfirst : (addRow draft db).articles.length = db.articles.length + 1 := List.length_append
  have hlater : ∀ d ∈ (perform call.fails (addRow draft db) (transactions draft).tail).2,
      d.articles.length = db.articles.length + 1 ∧ d.nextId = db.nextId + 1 ∧ d.Keyed := by
    refine forall_perform (fun step hstep d d' hd hwork ↦ ?_) ⟨hfirst, rfl, h.keyed hkeyed⟩
    have hid : draft.article.id < d.nextId := by
      rw [h.id, hd.2.1]
      exact Nat.lt_succ_self _
    obtain ⟨hlength, hnext, hkeyed'⟩ := keeps_of_later hstep hwork hd.2.2 hid
    exact ⟨hlength.trans hd.1, hnext.trans hd.2.1, hkeyed'⟩
  exact List.forall_mem_cons.mpr
    ⟨⟨hfirst, h.keyed hkeyed⟩, fun d hd ↦ ⟨(hlater d hd).1, (hlater d hd).2.2⟩⟩

/-- A call that gets past its first commit leaves an article more. -/
theorem final_of_not_stopsEarly (hkeyed : db.Keyed) (hearly : ¬ StopsEarly env db call) :
    (call.serve env db).final.articles.length = db.articles.length + 1 ∧
      (call.serve env db).final.Keyed := by
  obtain ⟨draft, hprepared, hserve⟩ := exists_serve_of_not_stopsEarly hearly
  rw [hserve]
  exact hprepared.forall_committed hkeyed _ (Outcome.final_mem (List.cons_ne_nil _ _))

/-- The store that a call leaves is keyed again. -/
theorem keyed_serve (hkeyed : db.Keyed) : (call.serve env db).final.Keyed := by
  by_cases hearly : StopsEarly env db call
  · obtain ⟨raised, hserve⟩ := exists_serve_of_stopsEarly hearly
    rw [hserve]
    exact hkeyed
  · exact (final_of_not_stopsEarly hkeyed hearly).2

/-- A call saves as required precisely if it stops early. -/
theorem allOrNothing_iff :
    (call.serve env db).AllOrNothing ↔ StopsEarly env db call := by
  constructor
  · intro h
    by_contra hearly
    obtain ⟨draft, hprepared, hserve⟩ := exists_serve_of_not_stopsEarly hearly
    have hclean := h.clean
    rw [hserve] at hclean
    -- the first store it has committed
    have hfirst := hclean (addRow draft db) List.mem_cons_self
    exact (hfirst draft.article (List.mem_append_right _ List.mem_cons_self)).1 hprepared.filePath
  · intro h
    obtain ⟨raised, hserve⟩ := exists_serve_of_stopsEarly h
    rw [hserve]
    exact ⟨List.forall_mem_nil _, fun _ ↦ .refl db⟩

/-- A call that gets past its first commit and leaves nothing if it raises has completed. -/
theorem completes_of_nothing (hkeyed : db.Keyed) (hearly : ¬ StopsEarly env db call)
    (h : (call.serve env db).raised = true → SameRows db (call.serve env db).final) :
    call.Completes := by
  have hraised : (call.serve env db).raised = false := by
    by_contra hraised
    have hlength := (final_of_not_stopsEarly hkeyed hearly).1
    rw [(h (Bool.not_eq_false _ ▸ hraised)).articles] at hlength
    exact absurd hlength (Nat.ne_of_lt (Nat.lt_succ_self _))
  obtain ⟨draft, hprepared, hserve⟩ := exists_serve_of_not_stopsEarly hearly
  rw [hserve] at hraised
  have hsteps := succeeds_of_perform hraised
  refine hprepared.concepts.mpr ⟨fun stage hstage ↦ ?_, ?_⟩
  · have hstages : lateStages = (transactions draft).tail.map Prod.fst := rfl
    rw [hstages] at hstage
    obtain ⟨step, hstep, rfl⟩ := List.mem_map.mp hstage
    exact (hsteps step hstep).1
  · obtain ⟨-, d, d', hjoins⟩ := hsteps (.joins, addConcepts draft.article.id draft.concepts)
      (by simp [transactions])
    exact (addConcepts_eq_ok hjoins).1

private theorem isSome_fileAt_write {userId path text userId' path' : String}
    (h : (userId', path') = (userId, path) ∨ (db.fileAt userId' path').isSome = true) :
    ((db.write userId path text).fileAt userId' path').isSome = true := by
  unfold Db.fileAt Db.write
  rw [List.lookup_cons]
  by_cases heq : (userId', path') = (userId, path)
  · rw [beq_iff_eq.mpr heq]
    rfl
  · rw [beq_eq_false_iff_ne.mpr heq]
    exact h.resolve_left heq

theorem Clean.of_same {db' : Db} (h : Clean db) (harticles : db'.articles = db.articles)
    (hfiles : db'.files = db.files) : Clean db' := by
  intro a ha
  rw [harticles] at ha
  unfold Db.fileAt
  rw [hfiles]
  exact h a ha

private theorem addLinks_same (draft : Draft) (db : Db) :
    (addLinks draft db).articles = db.articles ∧ (addLinks draft db).files = db.files := by
  obtain ⟨backlinks, hlinks⟩ := exists_addLinks draft db
  rw [hlinks]
  exact ⟨rfl, rfl⟩

/-- The article of a completed call has its file, and the others keep theirs. -/
theorem Prepared.clean (h : Prepared db call draft) (hkeyed : db.Keyed) (hclean : Clean db) :
    Clean (setPath draft ((addRow draft db).write draft.article.userId draft.relativePath
      draft.text)) := by
  refine Rows.forall_modify.mpr ⟨fun a ha hid ↦ ?_, fun a ha hid ↦ ?_⟩
  · refine ⟨h.relativePath, isSome_fileAt_write (.inl ?_)⟩
    have heq : a = draft.article := by
      rcases List.mem_append.mp ha with ha | ha
      · have hlt := hkeyed.articles a ha
        rw [decide_eq_true_eq.mp hid, h.id] at hlt
        exact absurd hlt (Nat.lt_irrefl _)
      · exact List.mem_singleton.mp ha
    rw [heq]
  · rcases List.mem_append.mp ha with ha | ha
    · exact ⟨(hclean a ha).1, isSome_fileAt_write (.inr (hclean a ha).2)⟩
    · rw [List.mem_singleton.mp ha, decide_eq_false_iff_not] at hid
      exact absurd rfl hid

/-- The concept rows of a new article are new. -/
theorem Prepared.addConcepts (h : Prepared db call draft) (hkeyed : db.Keyed)
    (hnodup : draft.concepts.Nodup) {d : Db} (hd : d.articleConcepts = db.articleConcepts) :
    addConcepts draft.article.id draft.concepts d = .ok { d with
      articleConcepts := d.articleConcepts ++ conceptRows draft.article.id draft.concepts } := by
  refine if_pos ⟨hnodup.map fun name name' heq ↦ (ArticleConcept.mk.inj heq).2, ?_⟩
  intro row hrow hmem
  obtain ⟨name, -, rfl⟩ := List.mem_map.mp hrow
  exact Nat.ne_of_lt (hkeyed.articleConcepts _ (hd ▸ hmem)) h.id

/-- A call that completes does not raise, and leaves a clean store. -/
theorem serve_of_completes (hkeyed : db.Keyed) (hclean : Clean db)
    (hearly : ¬ StopsEarly env db call) (h : call.Completes) :
    (call.serve env db).raised = false ∧ Clean (call.serve env db).final := by
  obtain ⟨draft, hprepared, hserve⟩ := exists_serve_of_not_stopsEarly hearly
  obtain ⟨hfails, hnodup⟩ := hprepared.concepts.mp h
  have hjoins := hprepared.addConcepts hkeyed hnodup (d := setPath draft
    ((addRow draft db).write draft.article.userId draft.relativePath draft.text)) rfl
  simp only [lateStages, List.forall_mem_cons] at hfails
  obtain ⟨hrefresh, hfile, hpath, hjoinsStage, hindex, hsynthesizes, -⟩ := hfails
  rw [hserve]
  simp only [transactions, List.tail_cons, perform, hrefresh, hfile, hpath, hjoinsStage, hindex,
    hsynthesizes, Bool.false_eq_true, if_false, hjoins, true_and]
  change Clean (addLinks draft _)
  exact (hprepared.clean hkeyed hclean).of_same (addLinks_same draft _).1 (addLinks_same draft _).2

end Serve

/-! ### Runs -/

section Runs

variable {env : Env} {s t : State} {call : Call}

private theorem step_saves (h : (saves env).step s call = some t) :
    t = ⟨(call.serve env s.db).final, s.calls ++ [call.serve env s.db]⟩ := (Option.some.inj h).symm

private theorem before_serve (env : Env) (db : Db) (call : Call) :
    (call.serve env db).before = db := by
  unfold Call.serve
  split <;> rfl

/-- In a run all calls save as required precisely if all stop early. -/
theorem always_allSaved_iff (env : Env) (db : Db) (calls : List Call) :
    (saves env).Always AllSaved ⟨db, []⟩ calls ↔
      (saves env).Guarded (fun s call ↦ StopsEarly env s.db call) ⟨db, []⟩ calls := by
  have hstart : AllSaved ⟨db, []⟩ := List.forall_mem_nil _
  refine (saves env).always_iff_guarded_of (W := fun _ ↦ True) (fun _ _ _ _ _ ↦ trivial)
    (fun _ _ h ↦ h) (fun s call t _ hs hearly hstep ↦ ?_) (fun s call t _ _ hstep ht ↦ ?_)
    trivial hstart calls
  · rw [step_saves hstep]
    exact List.forall_mem_append.mpr
      ⟨hs, List.forall_mem_singleton.mpr (allOrNothing_iff.mpr hearly)⟩
  · rw [step_saves hstep] at ht
    exact allOrNothing_iff.mp (ht _ (List.mem_append_right _ List.mem_cons_self))

private theorem leavesAllOrNothing_serve {db : Db} (hkeyed : db.Keyed) (hclean : Clean db)
    (h : StopsEarly env db call ∨ call.Completes) :
    (call.serve env db).LeavesAllOrNothing := by
  by_cases hearly : StopsEarly env db call
  · obtain ⟨raised, hserve⟩ := exists_serve_of_stopsEarly hearly
    rw [hserve]
    exact ⟨hclean, fun _ ↦ .refl db⟩
  · obtain ⟨hraised, hfinal⟩ := serve_of_completes hkeyed hclean hearly (h.resolve_left hearly)
    refine ⟨hfinal, fun hraised' ↦ ?_⟩
    rw [hraised] at hraised'
    cases hraised'

/-- In a run from a clean store, all calls leave a store as required precisely if none fails past
its first commit. -/
theorem always_allLeft_iff (env : Env) {db : Db} (hkeyed : db.Keyed) (hclean : Clean db)
    (calls : List Call) :
    (saves env).Always AllLeft ⟨db, []⟩ calls ↔
      (saves env).Guarded (fun s call ↦ StopsEarly env s.db call ∨ call.Completes)
        ⟨db, []⟩ calls := by
  have hstart : Clean db ∧ AllLeft ⟨db, []⟩ := ⟨hclean, List.forall_mem_nil _⟩
  refine (saves env).always_iff_guarded_of (W := fun s ↦ s.db.Keyed)
    (I := fun s ↦ Clean s.db ∧ AllLeft s) (fun s call t hs hstep ↦ ?_) (fun _ _ h ↦ h.2)
    (fun s call t hs hleft hcall hstep ↦ ?_) (fun s call t hs _ hstep ht ↦ ?_) hkeyed hstart calls
  · rw [step_saves hstep]
    exact keyed_serve hs
  · have hserve := leavesAllOrNothing_serve hs hleft.1 hcall
    rw [step_saves hstep]
    exact ⟨hserve.clean, List.forall_mem_append.mpr
      ⟨hleft.2, List.forall_mem_singleton.mpr hserve⟩⟩
  · rw [step_saves hstep] at ht
    have hnothing := (ht _ (List.mem_append_right _ List.mem_cons_self)).nothing
    rw [before_serve] at hnothing
    exact or_iff_not_imp_left.mpr fun hearly ↦ completes_of_nothing hs hearly hnothing

/-- Synthesis pages are saved all or nothing precisely in the runs whose calls all stop before
their first commit; the stores that calls leave are as required precisely if no call fails past
that commit. -/
theorem saved_iff_stopsEarly (env : Env) {db : Db} (hkeyed : db.Keyed) (hclean : Clean db)
    (calls : List Call) :
    ((saves env).Always AllSaved ⟨db, []⟩ calls ↔
      (saves env).Guarded (fun s call ↦ StopsEarly env s.db call) ⟨db, []⟩ calls) ∧
    ((saves env).Always AllLeft ⟨db, []⟩ calls ↔
      (saves env).Guarded (fun s call ↦ StopsEarly env s.db call ∨ call.Completes)
        ⟨db, []⟩ calls) :=
  ⟨always_allSaved_iff env db calls, always_allLeft_iff env hkeyed hclean calls⟩

end Runs

/-- Texts that are slugs already, and settings for them. -/
def plainEnv : Env where
  slugify _ title := title
  strip := id
  lower := id
  normalizeTitle := id
  slugMaxAttempts := 1
  synthesisMaxSources := 10

/-- An article compiled from a source. -/
def sourceArticle (id : Nat) (slug : String) : Article :=
  { id, userId := "u1", slug, title := slug, summary := "", filePath := slug ++ ".md"
    conceptIds := [], sourceIds := [], provider := none, pageType := .source, updatedAt := 0 }

def twoSources : List Article := [sourceArticle 0 "a", sourceArticle 1 "b"]

/-- A store with two articles and their files. -/
def storeOfTwo : Db :=
  ⟨twoSources, 2, [], [], [], [], [], [], [(("u1", "a.md"), "a"), (("u1", "b.md"), "b")]⟩

/-- A completion for both, saved while nothing fails. -/
def saveNotes (concepts : List String) : Call :=
  .save "u1" none 0 ⟨"notes", "", concepts⟩ twoSources "text" fun _ ↦ false

private theorem keyed_storeOfTwo : storeOfTwo.Keyed :=
  ⟨by decide, by decide, List.forall_mem_nil _, List.forall_mem_nil _⟩

private theorem clean_storeOfTwo : Clean storeOfTwo := by
  unfold Clean
  decide

/-- A completion with two concepts leaves its article and its file. -/
theorem allLeft_saveNotes :
    (saves plainEnv).Always AllLeft ⟨storeOfTwo, []⟩ [saveNotes ["ai", "ml"]] :=
  (saved_iff_stopsEarly plainEnv keyed_storeOfTwo clean_storeOfTwo _).2.mpr
    fun _ _ ↦ ⟨.inr ⟨fun _ _ ↦ rfl, by decide⟩, trivial⟩

/-- A completion that names a concept twice raises, and its article stays. -/
theorem not_allLeft_repeatedConcept :
    ¬ (saves plainEnv).Always AllSaved ⟨storeOfTwo, []⟩ [saveNotes ["ai", "ai"]] ∧
      ¬ (saves plainEnv).Always AllLeft ⟨storeOfTwo, []⟩ [saveNotes ["ai", "ai"]] := by
  have hraised : ((saveNotes ["ai", "ai"]).serve plainEnv storeOfTwo).raised = true := by decide
  have hstays : ((saveNotes ["ai", "ai"]).serve plainEnv storeOfTwo).final.articles ≠ twoSources :=
    by decide
  constructor
  · intro h
    have hall : AllSaved _ := h.2 _ rfl
    exact hstays ((hall _ List.mem_cons_self).nothing hraised).articles
  · intro h
    have hall : AllLeft _ := h.2 _ rfl
    exact hstays ((hall _ List.mem_cons_self).nothing hraised).articles

end WikiMind.Wiki.Synthesis
