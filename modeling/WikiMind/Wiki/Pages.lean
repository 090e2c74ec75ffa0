import WikiMind.Base.Run
import WikiMind.Compile.Articles

/-!
# Wiki pages and their files

The wiki of one user: the page rows, the markdown files, the conversations and the
scheduled recompiles. Every writer of a page derives slug and path by its own scheme, then
writes a file and a row (`engine/compiler.py:636`, `engine/concept_compiler.py:172`,
`services/wiki.py:948`, `engine/qa_agent.py:748`, `services/query.py:604`,
`services/crystallization.py:238`). A writer that fails before it writes anything is no
step; one whose commit fails has written its file all the same, unless it commits first.
-/

namespace WikiMind.Wiki

open WikiMind.Base WikiMind.Llm
open WikiMind.Compile (TextEnv relativePath freeSlug not_taken_of_freeSlug)

/-- Page types: `models/enums.py:46`. -/
inductive PageType where
  | source | concept | answer | synthesis
  deriving DecidableEq, Repr

/-- Who wrote a file last. -/
inductive Author where
  | compiler | user | conversation | sweep
  deriving DecidableEq, Repr

/-- The content of a file. -/
structure Content where
  author : Author
  text : String
  deriving DecidableEq, Repr

/-- A page row with its linked source and concept names: `models/tables/wiki.py:35`. -/
structure Page where
  id : Nat
  slug : String
  filePath : String
  pageType : PageType
  provider : Option Provider
  sourceId : Option String
  concepts : List String
  manuallyEdited : Bool
  deriving DecidableEq, Repr

/-- What a recompile regenerates. -/
inductive Mode where
  | source | concept
  deriving DecidableEq, Repr

/-- A scheduled recompile: `jobs/background.py`. -/
structure RecompileJob where
  articleId : Nat
  mode : Mode
  deriving DecidableEq, Repr

/-- A conversation and the pages it was filed and crystallized to: `models/tables/qa.py:11`. -/
structure Conversation where
  id : String
  filedArticleId : Option Nat
  crystallizedArticleId : Option Nat
  deriving DecidableEq, Repr

/-- The wiki of a user; the latest write of a file is the first. -/
structure WikiState where
  pages : List Page
  nextId : Nat
  files : List (String × Content)
  sources : List String
  concepts : List String
  conversations : List Conversation
  jobs : List RecompileJob

/-- The file at a path. -/
def WikiState.fileAt (w : WikiState) (path : String) : Option Content := w.files.lookup path

/-- `storage.write`. -/
def WikiState.write (w : WikiState) (path : String) (content : Content) : WikiState :=
  { w with files := (path, content) :: w.files }

/-- `storage.delete`. -/
def WikiState.delete (w : WikiState) (path : String) : WikiState :=
  { w with files := w.files.filter (·.1 ≠ path) }

/-- What a writer has decided: the row it replaces, the row it leaves, the content of the
file at the path of that row, whether it commits the row first, and what it notes in the
conversations. -/
structure Plan where
  existing : Option Page
  page : Page
  content : Content
  rowFirst : Bool
  mark : Conversation → Conversation

/-- The texts of a compiled source page. -/
structure Build where
  title : String
  concepts : List String
  text : String

/-- `generate_unique_slug`: `slug.py:24`. -/
def uniqueSlug (env : TextEnv) (w : WikiState) (title : String) : Option String :=
  freeSlug (fun slug ↦ w.pages.any (·.slug = slug)) (env.slugify (some 80) title)
    env.slugMaxAttempts

/-- No page has a generated slug. -/
theorem ne_of_uniqueSlug {env : TextEnv} {w : WikiState} {title slug : String}
    (h : uniqueSlug env w title = some slug) : ∀ p ∈ w.pages, p.slug ≠ slug := by
  simpa using not_taken_of_freeSlug h

/-- `_upsert_article`, which keeps slug and flag of a page it replaces:
`engine/compiler.py:636–693`. -/
def sourcePlan (env : TextEnv) (w : WikiState) (existing : Option Page) (sourceId : String)
    (provider : Option Provider) (build : Build) : Option Plan :=
  let content : Content := ⟨.compiler, build.text⟩
  match existing with
  | some page =>
    let page' := { page with
      filePath := relativePath env build.concepts page.slug
      pageType := .source, sourceId := some sourceId, concepts := build.concepts }
    some ⟨existing, page', content, false, id⟩
  | none =>
    (uniqueSlug env w build.title).map fun slug ↦
      let page : Page :=
        { id := w.nextId, slug, filePath := relativePath env build.concepts slug
          pageType := .source, provider, sourceId := some sourceId, concepts := build.concepts
          manuallyEdited := false }
      ⟨none, page, content, false, id⟩

/-- `_save_concept_page`, which commits the row before it writes the file:
`engine/concept_compiler.py:172–232`. -/
def conceptPlan (env : TextEnv) (w : WikiState) (name : String) (provider : Option Provider)
    (text : String) : Plan :=
  let key := env.slugify none name
  let filePath := key ++ "/" ++ key ++ ".md"
  let existing := w.pages.find? fun p ↦ p.slug = "concept-" ++ key ∧ p.pageType = .concept
  let page : Page :=
    match existing with
    | some page => { page with filePath, provider, concepts := [name] }
    | none =>
      { id := w.nextId, slug := "concept-" ++ key, filePath, pageType := .concept, provider
        sourceId := none, concepts := [name], manuallyEdited := false }
  ⟨existing, page, ⟨.compiler, text⟩, true, id⟩

/-- A new page that is neither compiled from a source nor a concept page, in the directory
of its kind. -/
def newPage (w : WikiState) (dir slug : String) (pageType : PageType) : Page :=
  { id := w.nextId, slug, filePath := dir ++ "/" ++ slug ++ ".md", pageType, provider := none
    sourceId := none, concepts := [], manuallyEdited := false }

/-- `create_stub_article`: `services/wiki.py:970–990`. -/
def stubPlan (env : TextEnv) (w : WikiState) (title text : String) : Option Plan :=
  (uniqueSlug env w title).map fun slug ↦
    ⟨none, newPage w "stubs" slug .source, ⟨.user, text⟩, false, id⟩

/-- `_file_back_thread`, whose slug is the identifier of the conversation:
`engine/qa_agent.py:790–843`. -/
def fileBackPlan (w : WikiState) (conversationId text : String) : Option Plan := do
  let conversation ← w.conversations.find? (·.id = conversationId)
  let content : Content := ⟨.conversation, text⟩
  match conversation.filedArticleId.bind fun i ↦ w.pages.find? (·.id = i) with
  | some page => some ⟨some page, page, content, false, id⟩
  | none =>
    some ⟨none, newPage w "qa-answers" conversationId .answer, content, false, fun c ↦
      if c.id = conversationId then { c with filedArticleId := some w.nextId } else c⟩

/-- The file-back of selected turns, under a new identifier: `services/query.py:604–619`. -/
def fileBackTurnsPlan (w : WikiState) (slug text : String) : Plan :=
  ⟨none, newPage w "qa-answers" slug .answer, ⟨.conversation, text⟩, false, id⟩

/-- `crystallize_conversation`, unless that was done before: `services/crystallization.py:238`. -/
def crystallizePlan (env : TextEnv) (w : WikiState) (conversationId title text : String) :
    Option Plan := do
  let conversation ← w.conversations.find? (·.id = conversationId)
  match conversation.crystallizedArticleId.bind fun i ↦ w.pages.find? (·.id = i) with
  | some _ => none
  | none =>
    let slug ← uniqueSlug env w title
    some ⟨none, newPage w "synthesis" slug .synthesis, ⟨.conversation, text⟩, false, fun c ↦
      if c.id = conversationId then { c with crystallizedArticleId := some w.nextId } else c⟩

/-- The operations that write a page. A run takes a scheduled recompile. -/
inductive Save where
  | compile (sourceId : String) (provider : Option Provider) (build : Build)
  | conceptPage (name : String) (provider : Option Provider) (text : String)
  | stub (title text : String)
  | fileBack (conversationId text : String)
  | fileBackTurns (slug text : String)
  | crystallize (conversationId title text : String)
  | runSource (job : Nat) (build : Build)
  | runConcept (job : Nat) (provider : Option Provider) (text : String)

/-- A file-back names a new page by an identifier; the other saves generate a slug, or commit
the row of a concept page first. -/
def Save.isFileBack : Save → Bool
  | .fileBack .. | .fileBackTurns .. => true
  | _ => false

/-- `_find_article_for_source_and_provider`: `engine/compiler.py:596`. -/
def findPage (w : WikiState) (sourceId : String) (provider : Option Provider) : Option Page :=
  match provider with
  | none => none
  | some p => w.pages.find? fun x ↦ x.sourceId = some sourceId ∧ x.provider = some p

/-- `_recompile_from_source`: `jobs/worker.py:403`. -/
def runSourcePlan (env : TextEnv) (w : WikiState) (job : Nat) (build : Build) : Option Plan := do
  let job ← w.jobs[job]?
  let page ← w.pages.find? (·.id = job.articleId)
  let sourceId ← page.sourceId
  if job.mode = .source ∧ sourceId ∈ w.sources then
    sourcePlan env w (some page) sourceId page.provider build
  else none

/-- `_recompile_from_concept`: `jobs/worker.py:455`. -/
def runConceptPlan (env : TextEnv) (w : WikiState) (job : Nat) (provider : Option Provider)
    (text : String) : Option Plan := do
  let job ← w.jobs[job]?
  let page ← w.pages.find? (·.id = job.articleId)
  let name ← page.concepts.head?
  if job.mode = .concept ∧ name ∈ w.concepts then some (conceptPlan env w name provider text)
  else none

/-- What an operation writes, if anything. -/
def WikiState.plan (env : TextEnv) (w : WikiState) : Save → Option Plan
  | .compile sourceId provider build =>
    if sourceId ∈ w.sources then
      sourcePlan env w (findPage w sourceId provider) sourceId provider build
    else none
  | .conceptPage name provider text =>
    if name ∈ w.concepts then some (conceptPlan env w name provider text) else none
  | .stub title text => stubPlan env w title text
  | .fileBack conversationId text => fileBackPlan w conversationId text
  | .fileBackTurns slug text => some (fileBackTurnsPlan w slug text)
  | .crystallize conversationId title text => crystallizePlan env w conversationId title text
  | .runSource job build => runSourcePlan env w job build
  | .runConcept job provider text => runConceptPlan env w job provider text

/-- The row of a plan, unless the commit fails or a new slug is taken. -/
def WikiState.saveRow (w : WikiState) (plan : Plan) (commits : Bool) : Option WikiState :=
  let conversations := w.conversations.map plan.mark
  if commits then
    match plan.existing with
    | some page =>
      let pages := Rows.modify (·.id = page.id) (fun _ ↦ plan.page) w.pages
      some { w with pages, conversations }
    | none =>
      if w.pages.any (·.slug = plan.page.slug) then none
      else some { w with pages := w.pages ++ [plan.page], nextId := w.nextId + 1, conversations }
  else none

/-- The file of a plan; the file of a replaced row is deleted when the path changes. -/
def WikiState.saveFile (w : WikiState) (plan : Plan) : WikiState :=
  let w' := w.write plan.page.filePath plan.content
  match plan.existing with
  | some page =>
    if page.filePath ≠ plan.page.filePath ∧ ! plan.rowFirst then w'.delete page.filePath else w'
  | none => w'

/-- Carry out a plan, the file first or the row first. -/
def WikiState.perform (w : WikiState) (plan : Plan) (commits : Bool) : WikiState :=
  if plan.rowFirst then
    match w.saveRow plan commits with
    | none => w
    | some w' => w'.saveFile plan
  else ((w.saveFile plan).saveRow plan commits).getD (w.saveFile plan)

/-- All operations. A forced recompile is none of them. -/
inductive Operation where
  | save (s : Save) (commits : Bool)
  | edit (articleId : Nat) (text : Option String)
  | recompile (articleId : Nat) (mode : Mode)
  | lintRecompile (articleId : Nat)
  | guidanceRecompile (articleId : Nat)
  | sweep (articleId : Nat) (text : String)

/-- `edit_article`, of the content or of the title only: `services/wiki.py:377`. -/
def WikiState.edit (w : WikiState) (articleId : Nat) (text : Option String) : WikiState :=
  match w.pages.find? (·.id = articleId) with
  | none => w
  | some page =>
    let w' := match text with
      | some text => w.write page.filePath ⟨.user, text⟩
      | none => w
    let pages := Rows.modify (·.id = articleId) (fun p ↦ { p with manuallyEdited := true }) w.pages
    { w' with pages }

/-- `recompile_article` of the service, without force: `services/wiki.py:1259–1290`. -/
def WikiState.requestRecompile (w : WikiState) (articleId : Nat) (mode : Mode) : WikiState :=
  match w.pages.find? (·.id = articleId) with
  | none => w
  | some page =>
    if page.manuallyEdited then w else { w with jobs := w.jobs ++ [⟨articleId, mode⟩] }

/-- `schedule_recompile` in mode `source`, as the linter and the discussion service call it:
`engine/linter/runner.py:214`, `services/discussion.py:302`. -/
def WikiState.scheduleSource (w : WikiState) (articleId : Nat) : WikiState :=
  { w with jobs := w.jobs ++ [⟨articleId, .source⟩] }

/-- `_sweep_single_article`, with the text whose brackets are resolved: `jobs/sweep.py:40`. -/
def WikiState.sweep (w : WikiState) (articleId : Nat) (text : String) : WikiState :=
  match w.pages.find? (·.id = articleId) with
  | none => w
  | some page =>
    if (w.fileAt page.filePath).isSome then w.write page.filePath ⟨.sweep, text⟩ else w

/-- A run takes its job off the schedule. -/
def WikiState.taken (w : WikiState) : Save → WikiState
  | .runSource job _ => { w with jobs := w.jobs.eraseIdx job }
  | .runConcept job _ _ => { w with jobs := w.jobs.eraseIdx job }
  | _ => w

/-- The effect of an operation. -/
def WikiState.apply (env : TextEnv) (w : WikiState) : Operation → WikiState
  | .save s commits =>
    match w.plan env s with
    | none => w.taken s
    | some plan => (w.taken s).perform plan commits
  | .edit articleId text => w.edit articleId text
  | .recompile articleId mode => w.requestRecompile articleId mode
  | .lintRecompile articleId => w.scheduleSource articleId
  | .guidanceRecompile articleId => w.scheduleSource articleId
  | .sweep articleId text => w.sweep articleId text

/-- The system of the operations of a user. -/
def wiki (env : TextEnv) : Machine WikiState Operation := .ofFun (WikiState.apply env)

/-- Identifiers and slugs are keys of the pages. -/
structure WikiState.Keyed (w : WikiState) : Prop where
  nodup_id : (w.pages.map Page.id).Nodup
  ids : ∀ p ∈ w.pages, p.id < w.nextId
  nodup_slug : (w.pages.map Page.slug).Nodup

/-- A plan leaves the row it replaces under its identifier and slug, and a new row under the
next identifier. -/
structure Plan.Fits (w : WikiState) (plan : Plan) : Prop where
  existing : ∀ e, plan.existing = some e →
    e ∈ w.pages ∧ plan.page.id = e.id ∧ plan.page.slug = e.slug
  new : plan.existing = none → plan.page.id = w.nextId

section Files

variable {w : WikiState} {plan : Plan} {commits : Bool}

@[simp] theorem fileAt_write (w : WikiState) (path : String) (content : Content) (q : String) :
    (w.write path content).fileAt q = if q = path then some content else w.fileAt q := by
  unfold WikiState.fileAt WikiState.write
  rw [List.lookup_cons]
  by_cases h : q = path
  · simp [h]
  · have hne : (q == path) = false := by simpa using h
    simp [h, hne]

private theorem fileAt_delete (w : WikiState) (path q : String) :
    (w.delete path).fileAt q = if q = path then none else w.fileAt q := by
  unfold WikiState.fileAt WikiState.delete
  induction w.files with
  | nil => simp
  | cons file rest ih =>
    by_cases hfile : file.1 = path
    · rw [List.filter_cons_of_neg (by simpa using hfile), ih, List.lookup_cons]
      by_cases hq : q = path
      · simp [hq]
      · have hne : (q == file.1) = false := by simpa [hfile] using hq
        simp [hq, hne]
    · rw [List.filter_cons_of_pos (by simpa using hfile), List.lookup_cons, List.lookup_cons]
      by_cases hq : q = path
      · have hne : (q == file.1) = false := by simpa [hq] using Ne.symm hfile
        rw [hne]
        simpa [hq] using ih
      · rw [ih, if_neg hq, if_neg hq]

/-- Saving a row leaves the files. -/
theorem fileAt_saveRow {w' : WikiState} (h : w.saveRow plan commits = some w') (q : String) :
    w'.fileAt q = w.fileAt q := by
  unfold WikiState.saveRow at h
  grind [WikiState.fileAt]

/-- The file of a plan is the only one it writes; at another path it may delete. -/
theorem fileAt_saveFile (w : WikiState) (plan : Plan) (q : String) :
    (q = plan.page.filePath ∧ (w.saveFile plan).fileAt q = some plan.content) ∨
      (q ≠ plan.page.filePath ∧ (w.saveFile plan).fileAt q = w.fileAt q) ∨
      (q ≠ plan.page.filePath ∧ (w.saveFile plan).fileAt q = none ∧
        ∃ e, plan.existing = some e ∧ e.filePath = q) := by
  unfold WikiState.saveFile
  cases hexisting : plan.existing with
  | none =>
    by_cases hq : q = plan.page.filePath
    · exact .inl ⟨hq, by simp [hq]⟩
    · exact .inr (.inl ⟨hq, by simp [hq]⟩)
  | some e =>
    dsimp only
    split
    · next hdelete =>
      rw [fileAt_delete]
      by_cases hq : q = plan.page.filePath
      · have hne : q ≠ e.filePath := fun heq ↦ hdelete.1 (heq.symm.trans hq)
        exact .inl ⟨hq, by rw [if_neg hne]; simp [hq]⟩
      · by_cases he : q = e.filePath
        · exact .inr (.inr ⟨hq, by rw [if_pos he], e, rfl, he.symm⟩)
        · exact .inr (.inl ⟨hq, by rw [if_neg he]; simp [hq]⟩)
    · by_cases hq : q = plan.page.filePath
      · exact .inl ⟨hq, by simp [hq]⟩
      · exact .inr (.inl ⟨hq, by simp [hq]⟩)

/-- A concept page whose slug is taken is not written at all. -/
theorem perform_of_taken (hnew : plan.existing = none) (hfirst : plan.rowFirst = true)
    (htaken : ∃ p ∈ w.pages, p.slug = plan.page.slug) : w.perform plan commits = w := by
  have hany : (w.pages.any (·.slug = plan.page.slug)) = true := by simpa using htaken
  have hrow : w.saveRow plan commits = none := by
    unfold WikiState.saveRow
    cases commits with
    | false => rfl
    | true => simp only [hnew, hany, if_true]
  unfold WikiState.perform
  rw [if_pos hfirst, hrow]

/-- What a plan does to the file at a path: write it, leave it, or delete the file of the row
it replaces. -/
theorem fileAt_perform (w : WikiState) (plan : Plan) (commits : Bool) (q : String) :
    (w.perform plan commits).fileAt q = w.fileAt q ∨
      (q = plan.page.filePath ∧ (w.perform plan commits).fileAt q = some plan.content) ∨
      (q ≠ plan.page.filePath ∧ (w.perform plan commits).fileAt q = none ∧
        ∃ e, plan.existing = some e ∧ e.filePath = q) := by
  have hfile : ∀ w' : WikiState, w'.fileAt q = w.fileAt q →
      (w'.saveFile plan).fileAt q = w.fileAt q ∨
        (q = plan.page.filePath ∧ (w'.saveFile plan).fileAt q = some plan.content) ∨
        (q ≠ plan.page.filePath ∧ (w'.saveFile plan).fileAt q = none ∧
          ∃ e, plan.existing = some e ∧ e.filePath = q) := by
    intro w' hw'
    rcases fileAt_saveFile w' plan q with hwrite | ⟨_, hsame⟩ | hdelete
    · exact .inr (.inl hwrite)
    · exact .inl (hsame.trans hw')
    · exact .inr (.inr hdelete)
  unfold WikiState.perform
  split
  · split
    · exact .inl rfl
    · next w' hrow => exact hfile w' (fileAt_saveRow hrow q)
  · cases hrow : (w.saveFile plan).saveRow plan commits with
    | none => exact hfile w rfl
    | some w' =>
      show w'.fileAt q = _ ∨ (_ ∧ w'.fileAt q = _) ∨ (_ ∧ w'.fileAt q = _ ∧ _)
      rw [fileAt_saveRow hrow]
      exact hfile w rfl

end Files

section Rows

variable {w : WikiState} {plan : Plan} {commits : Bool}

@[simp] theorem saveFile_pages (w : WikiState) (plan : Plan) :
    (w.saveFile plan).pages = w.pages ∧ (w.saveFile plan).nextId = w.nextId := by
  unfold WikiState.saveFile
  cases plan.existing with
  | none => exact ⟨rfl, rfl⟩
  | some e =>
    dsimp only
    split <;> exact ⟨rfl, rfl⟩

/-- The rows after a plan: those of before, or with the row of the plan in the place of the
one it replaces, or with a new row whose slug was free. -/
inductive RowsSaved (w w' : WikiState) (plan : Plan) : Prop
  | same (hpages : w'.pages = w.pages) (hnext : w'.nextId = w.nextId)
  | replaced (e : Page) (hexisting : plan.existing = some e)
      (hpages : w'.pages = Rows.modify (·.id = e.id) (fun _ ↦ plan.page) w.pages)
      (hnext : w'.nextId = w.nextId)
  | added (hnew : plan.existing = none) (hfree : ∀ p ∈ w.pages, p.slug ≠ plan.page.slug)
      (hpages : w'.pages = w.pages ++ [plan.page]) (hnext : w'.nextId = w.nextId + 1)

private theorem rowsSaved_saveRow {w' : WikiState} (h : w.saveRow plan commits = some w') :
    RowsSaved w w' plan := by
  unfold WikiState.saveRow at h
  dsimp only at h
  split at h
  · split at h
    · next e hexisting =>
      cases h
      exact .replaced e hexisting rfl rfl
    · next hnew =>
      split at h
      · cases h
      · next hfree =>
        cases h
        exact .added hnew (by simpa using hfree) rfl rfl
  · cases h

theorem rowsSaved_perform (w : WikiState) (plan : Plan) (commits : Bool) :
    RowsSaved w (w.perform plan commits) plan := by
  unfold WikiState.perform
  split
  · split
    · exact .same rfl rfl
    · next w' hrow =>
      obtain ⟨hpages, hnext⟩ := saveFile_pages w' plan
      cases rowsSaved_saveRow hrow with
      | same h₁ h₂ => exact .same (hpages.trans h₁) (hnext.trans h₂)
      | replaced e he h₁ h₂ => exact .replaced e he (hpages.trans h₁) (hnext.trans h₂)
      | added hnew hfree h₁ h₂ => exact .added hnew hfree (hpages.trans h₁) (hnext.trans h₂)
  · obtain ⟨hpages, hnext⟩ := saveFile_pages w plan
    cases hrow : (w.saveFile plan).saveRow plan commits with
    | none => exact .same hpages hnext
    | some w' =>
      show RowsSaved w w' plan
      cases rowsSaved_saveRow hrow with
      | same h₁ h₂ => exact .same (h₁.trans hpages) (h₂.trans hnext)
      | replaced e he h₁ h₂ => exact .replaced e he (hpages ▸ h₁) (h₂.trans hnext)
      | added hnew hfree h₁ h₂ => exact .added hnew (hpages ▸ hfree) (hpages ▸ h₁) (hnext ▸ h₂)

/-- The rows after a plan are rows of before that it does not replace, and its own. -/
theorem RowsSaved.mem {w' : WikiState} (h : RowsSaved w w' plan) {p : Page} (hp : p ∈ w'.pages) :
    p ∈ w.pages ∨ p = plan.page := by
  cases h with
  | same hpages => exact .inl (hpages ▸ hp)
  | replaced e _ hpages =>
    rw [hpages] at hp
    rcases Rows.mem_modify.mp hp with ⟨_, _, _, rfl⟩ | ⟨hold, _⟩
    · exact .inr rfl
    · exact .inl hold
  | added _ _ hpages =>
    rw [hpages] at hp
    rcases List.mem_append.mp hp with hold | hnew
    · exact .inl hold
    · exact .inr (List.mem_singleton.mp hnew)

/-- A plan that fits keeps the keys. -/
theorem WikiState.Keyed.perform (h : w.Keyed) (hfits : plan.Fits w) (commits : Bool) :
    (w.perform plan commits).Keyed := by
  cases rowsSaved_perform w plan commits with
  | same hpages hnext =>
    refine ⟨hpages ▸ h.nodup_id, ?_, hpages ▸ h.nodup_slug⟩
    rw [hpages, hnext]
    exact h.ids
  | replaced e hexisting hpages hnext =>
    obtain ⟨he, hid, hslug⟩ := hfits.existing e hexisting
    have hkey : ∀ {κ : Type} (key : Page → κ), key plan.page = key e →
        (w.perform plan commits).pages.map key = w.pages.map key := by
      intro κ key hkey
      rw [hpages]
      apply Rows.map_modify
      intro p hp hpe
      rw [Rows.eq_of_nodup h.nodup_id he hp (of_decide_eq_true hpe)]
      exact hkey
    refine ⟨?_, ?_, ?_⟩
    · rw [hkey Page.id hid]
      exact h.nodup_id
    · rw [hpages, hnext]
      intro p hp
      rcases Rows.mem_modify.mp hp with ⟨_, _, _, rfl⟩ | ⟨hold, _⟩
      · rw [hid]
        exact h.ids e he
      · exact h.ids p hold
    · rw [hkey Page.slug hslug]
      exact h.nodup_slug
  | added hnew hfree hpages hnext =>
    have hid := hfits.new hnew
    refine ⟨?_, ?_, ?_⟩
    · rw [hpages, Rows.nodup_map_concat, hid]
      exact ⟨h.nodup_id, fun p hp ↦ Nat.ne_of_lt (h.ids p hp)⟩
    · rw [hpages, hnext]
      intro p hp
      rcases List.mem_append.mp hp with hold | hlast
      · exact Nat.lt_succ_of_lt (h.ids p hold)
      · rw [List.mem_singleton.mp hlast, hid]
        exact Nat.lt_succ_self _
    · rw [hpages, Rows.nodup_map_concat]
      exact ⟨h.nodup_slug, hfree⟩

end Rows

section Plans

variable {env : TextEnv} {w : WikiState} {plan : Plan}

theorem Plan.Fits.of_new (hnew : plan.existing = none) (hid : plan.page.id = w.nextId) :
    plan.Fits w := by
  refine ⟨fun e he ↦ ?_, fun _ ↦ hid⟩
  rw [hnew] at he
  cases he

private theorem Plan.Fits.of_existing {e : Page} (hexisting : plan.existing = some e)
    (he : e ∈ w.pages) (hid : plan.page.id = e.id) (hslug : plan.page.slug = e.slug) :
    plan.Fits w := by
  refine ⟨fun x hx ↦ ?_, fun hnew ↦ ?_⟩
  · rw [hexisting] at hx
    cases hx
    exact ⟨he, hid, hslug⟩
  · rw [hexisting] at hnew
    cases hnew

/-- A compile of a source plans for the page it was given, whose identifier, slug and flag it
keeps, or for a new one under a generated slug. -/
theorem sourcePlan_eq_some {existing : Option Page} {sourceId : String}
    {provider : Option Provider} {build : Build}
    (h : sourcePlan env w existing sourceId provider build = some plan) :
    plan.existing = existing ∧ plan.content.author = .compiler ∧ plan.page.pageType = .source ∧
      plan.page.filePath = relativePath env build.concepts plan.page.slug ∧
      ((∃ e, existing = some e ∧ plan.page.id = e.id ∧ plan.page.slug = e.slug ∧
          plan.page.manuallyEdited = e.manuallyEdited) ∨
        (existing = none ∧ plan.page.id = w.nextId ∧ plan.page.manuallyEdited = false ∧
          ∀ p ∈ w.pages, p.slug ≠ plan.page.slug)) := by
  unfold sourcePlan at h
  cases existing with
  | some e =>
    cases h
    exact ⟨rfl, rfl, rfl, rfl, .inl ⟨e, rfl, rfl, rfl, rfl⟩⟩
  | none =>
    obtain ⟨slug, hslug, rfl⟩ := Option.map_eq_some_iff.mp h
    exact ⟨rfl, rfl, rfl, rfl, .inr ⟨rfl, rfl, rfl, ne_of_uniqueSlug hslug⟩⟩

private theorem fits_conceptPlan (name : String) (provider : Option Provider) (text : String) :
    (conceptPlan env w name provider text).Fits w := by
  unfold conceptPlan
  dsimp only
  cases hfind : w.pages.find? fun p ↦
      p.slug = "concept-" ++ env.slugify none name ∧ p.pageType = .concept with
  | none => exact .of_new rfl rfl
  | some e => exact .of_existing rfl (List.mem_of_find?_eq_some hfind) rfl rfl

/-- The page a save looks up is one of the pages. -/
theorem mem_of_findPage {sourceId : String} {provider : Option Provider} {e : Page}
    (h : findPage w sourceId provider = some e) : e ∈ w.pages := by
  unfold findPage at h
  cases provider with
  | none => cases h
  | some p => exact List.mem_of_find?_eq_some h

/-- What a save plans: a compile of a source, a concept page, a new page of another kind, or
the content of an answer that was filed before. Only a file-back names a new page without
generating a slug. -/
inductive Planned (env : TextEnv) (w : WikiState) (s : Save) (plan : Plan) : Prop
  | source (existing : Option Page) (sourceId : String) (provider : Option Provider)
      (build : Build) (hmem : ∀ e ∈ existing, e ∈ w.pages)
      (hplan : sourcePlan env w existing sourceId provider build = some plan)
  | concept (name : String) (provider : Option Provider) (text : String)
      (hplan : plan = conceptPlan env w name provider text)
  | new (dir slug : String) (pageType : PageType) (hpage : plan.page = newPage w dir slug pageType)
      (hnew : plan.existing = none) (hauthor : plan.content.author ≠ .compiler)
      (hdir : '/' ∉ dir.toList) (htype : pageType ≠ .concept)
      (hslug : s.isFileBack = false → ∀ p ∈ w.pages, p.slug ≠ slug)
  | refiled (hexisting : plan.existing = some plan.page) (hmem : plan.page ∈ w.pages)
      (hauthor : plan.content.author ≠ .compiler)

/-- Every plan is of one of these kinds. -/
theorem planned_of_plan {s : Save} (h : w.plan env s = some plan) : Planned env w s plan := by
  cases s with
  | compile sourceId provider build =>
    simp only [WikiState.plan] at h
    split at h
    · exact .source _ _ _ _ (fun e he ↦ mem_of_findPage he) h
    · cases h
  | conceptPage name provider text =>
    simp only [WikiState.plan] at h
    split at h
    · cases h
      exact .concept _ _ _ rfl
    · cases h
  | stub title text =>
    obtain ⟨slug, hslug, rfl⟩ := Option.map_eq_some_iff.mp h
    exact .new "stubs" slug .source rfl rfl (by simp) (by decide) (by simp)
      fun _ ↦ ne_of_uniqueSlug hslug
  | fileBack conversationId text =>
    obtain ⟨conversation, _, h⟩ := Option.bind_eq_some_iff.mp h
    split at h
    · next page hpage =>
      cases h
      obtain ⟨i, _, hfind⟩ := Option.bind_eq_some_iff.mp hpage
      exact .refiled rfl (List.mem_of_find?_eq_some hfind) (by simp)
    · cases h
      exact .new "qa-answers" conversationId .answer rfl rfl (by simp) (by decide) (by simp)
        fun hback ↦ by cases hback
  | fileBackTurns slug text =>
    cases h
    exact .new "qa-answers" slug .answer rfl rfl (by simp [fileBackTurnsPlan]) (by decide)
      (by simp) fun hback ↦ by cases hback
  | crystallize conversationId title text =>
    obtain ⟨conversation, _, h⟩ := Option.bind_eq_some_iff.mp h
    split at h
    · cases h
    · obtain ⟨slug, hslug, h⟩ := Option.bind_eq_some_iff.mp h
      cases h
      exact .new "synthesis" slug .synthesis rfl rfl (by simp) (by decide) (by simp)
        fun _ ↦ ne_of_uniqueSlug hslug
  | runSource job build =>
    obtain ⟨_, _, h⟩ := Option.bind_eq_some_iff.mp h
    obtain ⟨page, hpage, h⟩ := Option.bind_eq_some_iff.mp h
    obtain ⟨_, _, h⟩ := Option.bind_eq_some_iff.mp h
    split at h
    · exact .source _ _ _ _ (fun e he ↦ by cases he; exact List.mem_of_find?_eq_some hpage) h
    · cases h
  | runConcept job provider text =>
    obtain ⟨_, _, h⟩ := Option.bind_eq_some_iff.mp h
    obtain ⟨_, _, h⟩ := Option.bind_eq_some_iff.mp h
    obtain ⟨_, _, h⟩ := Option.bind_eq_some_iff.mp h
    split at h
    · cases h
      exact .concept _ _ _ rfl
    · cases h

/-- Every plan fits the state it is made in. -/
theorem fits_plan {s : Save} (h : w.plan env s = some plan) : plan.Fits w := by
  cases planned_of_plan h with
  | source existing sourceId provider build hmem hplan =>
    obtain ⟨hexisting, -, -, -, ⟨e, he, hid, hslug, -⟩ | ⟨hnone, hid, -⟩⟩ :=
      sourcePlan_eq_some hplan
    · exact .of_existing (hexisting.trans he) (hmem e he) hid hslug
    · exact .of_new (hexisting.trans hnone) hid
  | concept name provider text hplan =>
    rw [hplan]
    exact fits_conceptPlan name provider text
  | new dir slug pageType hpage hnew =>
    exact .of_new hnew (by rw [hpage]; rfl)
  | refiled hexisting hmem => exact .of_existing hexisting hmem rfl rfl

@[simp] theorem taken_pages (w : WikiState) (s : Save) :
    (w.taken s).pages = w.pages ∧ (w.taken s).nextId = w.nextId ∧ (w.taken s).files = w.files := by
  cases s <;> exact ⟨rfl, rfl, rfl⟩

theorem Plan.Fits.taken (h : plan.Fits w) (s : Save) : plan.Fits (w.taken s) := by
  obtain ⟨hpages, hnext, _⟩ := taken_pages w s
  refine ⟨?_, ?_⟩
  · rw [hpages]
    exact h.existing
  · rw [hnext]
    exact h.new

/-- The keys are those of the rows. -/
theorem WikiState.Keyed.of_pages {w' : WikiState} (h : w.Keyed) (hpages : w'.pages = w.pages)
    (hnext : w'.nextId = w.nextId) : w'.Keyed := by
  refine ⟨hpages ▸ h.nodup_id, ?_, hpages ▸ h.nodup_slug⟩
  rw [hpages, hnext]
  exact h.ids

theorem WikiState.Keyed.taken (h : w.Keyed) (s : Save) : (w.taken s).Keyed := by
  obtain ⟨hpages, hnext, _⟩ := taken_pages w s
  exact h.of_pages hpages hnext

/-- An edit sets the flag of its page and changes no other row. -/
theorem edit_pages (w : WikiState) (articleId : Nat) (text : Option String) :
    (w.edit articleId text).pages = w.pages ∨ (w.edit articleId text).pages =
      Rows.modify (·.id = articleId) (fun p ↦ { p with manuallyEdited := true }) w.pages := by
  unfold WikiState.edit
  split
  · exact .inl rfl
  · exact .inr rfl

/-- An edit writes the file of its page, by the user, and no other. -/
theorem edit_files (w : WikiState) (articleId : Nat) (text : Option String) (q : String) :
    (w.edit articleId text).fileAt q = w.fileAt q ∨
      ((w.edit articleId text).fileAt q = some ⟨.user, text.getD ""⟩ ∧
        ∃ page ∈ w.pages, page.id = articleId ∧ page.filePath = q) := by
  unfold WikiState.edit
  split
  · exact .inl rfl
  · next page hpage =>
    cases text with
    | none => exact .inl rfl
    | some text =>
      show (w.write page.filePath ⟨.user, text⟩).fileAt q = _ ∨
        ((w.write page.filePath ⟨.user, text⟩).fileAt q = _ ∧ _)
      rw [fileAt_write]
      split
      · next hq =>
        have hid := List.find?_some hpage
        exact .inr ⟨rfl, page, List.mem_of_find?_eq_some hpage, of_decide_eq_true hid, hq.symm⟩
      · exact .inl rfl

/-- A sweep writes the file of its page and no other. -/
theorem sweep_files (w : WikiState) (articleId : Nat) (text : String) (q : String) :
    (w.sweep articleId text).fileAt q = w.fileAt q ∨
      ((w.sweep articleId text).fileAt q = some ⟨.sweep, text⟩ ∧
        ∃ page ∈ w.pages, page.id = articleId ∧ page.filePath = q) := by
  unfold WikiState.sweep
  split
  · exact .inl rfl
  · next page hpage =>
    split
    · rw [fileAt_write]
      split
      · next hq =>
        have hid := List.find?_some hpage
        exact .inr ⟨rfl, page, List.mem_of_find?_eq_some hpage, of_decide_eq_true hid, hq.symm⟩
      · exact .inl rfl
    · exact .inl rfl

private theorem edit_nextId (w : WikiState) (articleId : Nat) (text : Option String) :
    (w.edit articleId text).nextId = w.nextId := by
  unfold WikiState.edit
  split
  · rfl
  · cases text <;> rfl

theorem requestRecompile_pages (w : WikiState) (articleId : Nat) (mode : Mode) :
    (w.requestRecompile articleId mode).pages = w.pages ∧
      (w.requestRecompile articleId mode).nextId = w.nextId ∧
      (w.requestRecompile articleId mode).files = w.files := by
  unfold WikiState.requestRecompile
  split
  · exact ⟨rfl, rfl, rfl⟩
  · split <;> exact ⟨rfl, rfl, rfl⟩

theorem sweep_pages (w : WikiState) (articleId : Nat) (text : String) :
    (w.sweep articleId text).pages = w.pages ∧ (w.sweep articleId text).nextId = w.nextId := by
  unfold WikiState.sweep
  split
  · exact ⟨rfl, rfl⟩
  · split <;> exact ⟨rfl, rfl⟩

/-- All operations keep the keys. -/
theorem WikiState.Keyed.apply (h : w.Keyed) (op : Operation) : (w.apply env op).Keyed := by
  cases op with
  | save s commits =>
    unfold WikiState.apply
    dsimp only
    split
    · exact h.taken s
    · next plan hplan => exact (h.taken s).perform ((fits_plan hplan).taken s) commits
  | edit articleId text =>
    show (w.edit articleId text).Keyed
    have hnext := edit_nextId w articleId text
    rcases edit_pages w articleId text with hpages | hpages
    · exact h.of_pages hpages hnext
    · refine ⟨?_, ?_, ?_⟩
      · rw [hpages, Rows.map_modify]
        · exact h.nodup_id
        · exact fun _ _ _ ↦ rfl
      · rw [hpages, hnext]
        intro p hp
        rcases Rows.mem_modify.mp hp with ⟨p, hold, _, rfl⟩ | ⟨hold, _⟩
        · exact h.ids p hold
        · exact h.ids p hold
      · rw [hpages, Rows.map_modify]
        · exact h.nodup_slug
        · exact fun _ _ _ ↦ rfl
  | recompile articleId mode =>
    obtain ⟨hpages, hnext, _⟩ := requestRecompile_pages w articleId mode
    exact h.of_pages hpages hnext
  | lintRecompile articleId => exact h.of_pages rfl rfl
  | guidanceRecompile articleId => exact h.of_pages rfl rfl
  | sweep articleId text =>
    obtain ⟨hpages, hnext⟩ := sweep_pages w articleId text
    exact h.of_pages hpages hnext

end Plans

end WikiMind.Wiki
