import WikiMind.Wiki.Paths

/-!
# Manual edits

An edit sets the flag of its page, and `recompile_article` of the service refuses a flagged
page unless it is forced (`services/wiki.py:1264`). No writer of compiled content looks at
the flag. A recompile that was requested unforced writes a page that was not flagged then;
what else is spared depends on the pages that the other writers look up, on the order of
requests and edits, and on the names of pages.
-/

namespace WikiMind.Wiki

open WikiMind.Base WikiMind.Llm
open WikiMind.Compile (TextEnv)

/-- Compiler output that is the content of a flagged article after the step was so before. -/
def SparesEdits (w : WikiState) (_ : Operation) (w' : WikiState) : Prop :=
  ∀ p ∈ w.pages, p.manuallyEdited = true → ∀ q ∈ w'.pages, q.id = p.id →
    ∀ content ∈ w'.fileAt q.filePath, content.author = .compiler →
      w.fileAt p.filePath = some content

instance (w w' : WikiState) (op : Operation) : Decidable (SparesEdits w op w') :=
  inferInstanceAs (Decidable (∀ p ∈ w.pages, _))

/-- The page of a concept, looked up by its key: `engine/concept_compiler.py:186–192`. -/
def findConceptPage (env : TextEnv) (w : WikiState) (name : String) : Option Page :=
  w.pages.find? fun p ↦ p.slug = "concept-" ++ env.slugify none name ∧ p.pageType = .concept

/-- The page that a compile looks up by source and provider, or by concept. A recompile of a
concept looks up the page of the first concept of its article, which can be another page. -/
def lookedUp (env : TextEnv) (w : WikiState) : Save → Option Page
  | .compile sourceId provider _ => findPage w sourceId provider
  | .conceptPage name _ _ => findConceptPage env w name
  | .runConcept job _ _ => do
    let job ← w.jobs[job]?
    let page ← w.pages.find? (·.id = job.articleId)
    let name ← page.concepts.head?
    (findConceptPage env w name).filter (·.id ≠ job.articleId)
  | _ => none

/-- No look-up of a compile finds a flagged page; the page a compile leaves clashes with no
flagged page; the linter and the discussion schedule no flagged page; and no page is edited
while a recompile of it is scheduled. -/
def AvoidsEdits (env : TextEnv) (w : WikiState) : Operation → Prop
  | .save s _ => (∀ page ∈ lookedUp env w s, page.manuallyEdited = false) ∧
      ∀ plan ∈ w.plan env s, plan.content.author = .compiler →
        ∀ p ∈ w.pages, p.manuallyEdited = true → ¬ Clash plan.page p ∧ ¬ Clash p plan.page
  | .edit articleId _ => ∀ job ∈ w.jobs, job.articleId ≠ articleId
  | .lintRecompile articleId | .guidanceRecompile articleId =>
    ∀ p ∈ w.pages, p.id = articleId → p.manuallyEdited = false
  | .recompile .. | .sweep .. => True

instance (env : TextEnv) (w : WikiState) : (op : Operation) → Decidable (AvoidsEdits env w op)
  | .save .. | .edit .. | .lintRecompile _ | .guidanceRecompile _ => by
    unfold AvoidsEdits; infer_instance
  | .recompile .. | .sweep .. => .isTrue trivial

/-- The pages follow their schemes, and no recompile is scheduled of a flagged page. -/
structure WikiState.Guards (w : WikiState) : Prop where
  keyed : w.Keyed
  shaped : ∀ p ∈ w.pages, p.Shaped
  jobs : ∀ job ∈ w.jobs, ∀ p ∈ w.pages, p.id = job.articleId → p.manuallyEdited = false

section Step

variable {env : TextEnv} {w w' : WikiState} {plan : Plan}

/-- A plan of the other writers leaves the row it finds. -/
theorem page_of_author {s : Save} (h : w.plan env s = some plan)
    (hauthor : plan.content.author ≠ .compiler) {e : Page} (he : plan.existing = some e) :
    plan.page = e := by
  cases planned_of_plan h with
  | source existing sourceId provider build _ hplan =>
    exact absurd (sourcePlan_eq_some hplan).2.1 hauthor
  | concept name provider text hplan =>
    rw [hplan] at hauthor
    exact absurd rfl hauthor
  | new _ _ _ _ hnew =>
    rw [hnew] at he
    cases he
  | refiled hexisting =>
    rw [hexisting] at he
    cases he
    rfl

/-- The row a plan leaves has a flag only from the row it replaces. -/
theorem flag_plan {s : Save} (h : w.plan env s = some plan)
    (hflag : plan.page.manuallyEdited = true) :
    ∃ e ∈ w.pages, e.id = plan.page.id ∧ e.manuallyEdited = true := by
  cases planned_of_plan h with
  | source existing sourceId provider build hmem hplan =>
    obtain ⟨-, -, -, -, ⟨e, he, hid, -, hsame⟩ | ⟨-, -, hnone, -⟩⟩ := sourcePlan_eq_some hplan
    · exact ⟨e, hmem e he, hid.symm, hsame ▸ hflag⟩
    · rw [hnone] at hflag
      cases hflag
  | concept name provider text hplan =>
    subst hplan
    unfold conceptPlan at hflag ⊢
    dsimp only at hflag ⊢
    split at hflag
    · next e hfind => exact ⟨e, List.mem_of_find?_eq_some hfind, rfl, hflag⟩
    · cases hflag
  | new _ _ _ hpage =>
    rw [hpage] at hflag
    cases hflag
  | refiled _ hmem => exact ⟨plan.page, hmem, rfl, hflag⟩

/-- A compile replaces no flagged page: its look-up finds none, or its article was not flagged
when the recompile was scheduled. -/
theorem unflagged_of_avoids (h : w.Guards) {s : Save} {commits : Bool}
    (havoid : AvoidsEdits env w (.save s commits)) (hplan : w.plan env s = some plan)
    (hauthor : plan.content.author = .compiler) :
    ∀ e ∈ plan.existing, e.manuallyEdited = false := by
  intro e he
  cases s with
  | compile sourceId provider build =>
    simp only [WikiState.plan] at hplan
    split at hplan
    · rw [(sourcePlan_eq_some hplan).1] at he
      exact havoid.1 e he
    · cases hplan
  | conceptPage name provider text =>
    simp only [WikiState.plan] at hplan
    split at hplan
    · cases hplan
      exact havoid.1 e he
    · cases hplan
  | stub title text =>
    obtain ⟨slug, _, rfl⟩ := Option.map_eq_some_iff.mp hplan
    cases he
  | fileBack conversationId text =>
    obtain ⟨conversation, _, hplan⟩ := Option.bind_eq_some_iff.mp hplan
    split at hplan <;> cases hplan <;> cases hauthor
  | fileBackTurns slug text =>
    cases hplan
    cases he
  | crystallize conversationId title text =>
    obtain ⟨conversation, _, hplan⟩ := Option.bind_eq_some_iff.mp hplan
    split at hplan
    · cases hplan
    · obtain ⟨slug, _, hplan⟩ := Option.bind_eq_some_iff.mp hplan
      cases hplan
      cases he
  | runSource i build =>
    obtain ⟨job, hjob, hplan⟩ := Option.bind_eq_some_iff.mp hplan
    obtain ⟨page, hpage, hplan⟩ := Option.bind_eq_some_iff.mp hplan
    obtain ⟨_, _, hplan⟩ := Option.bind_eq_some_iff.mp hplan
    split at hplan
    · rw [(sourcePlan_eq_some hplan).1] at he
      cases he
      exact h.jobs job (List.mem_of_getElem? hjob) e (List.mem_of_find?_eq_some hpage)
        (by simpa using List.find?_some hpage)
    · cases hplan
  | runConcept i provider text =>
    obtain ⟨job, hjob, hplan⟩ := Option.bind_eq_some_iff.mp hplan
    obtain ⟨page, hpage, hplan⟩ := Option.bind_eq_some_iff.mp hplan
    obtain ⟨name, hname, hplan⟩ := Option.bind_eq_some_iff.mp hplan
    split at hplan
    · cases hplan
      have hfound : findConceptPage env w name = some e := he
      by_cases hown : e.id = job.articleId
      · exact h.jobs job (List.mem_of_getElem? hjob) e (List.mem_of_find?_eq_some hfound) hown
      · refine havoid.1 e ?_
        simp [lookedUp, hjob, hpage, hname, hfound, hown]
    · cases hplan

/-- Where pages and files stay, nothing is overwritten. -/
theorem sparesEdits_of_same (hkeyed : w.Keyed) (op : Operation) (hpages : w'.pages = w.pages)
    (hfiles : w'.files = w.files) : SparesEdits w op w' := by
  intro p hp _ q hq hid content hcontent _
  rw [hpages] at hq
  rw [Rows.eq_of_nodup hkeyed.nodup_id hp hq hid] at hcontent
  unfold WikiState.fileAt at hcontent ⊢
  rw [← hfiles]
  exact hcontent

/-- A row with the identifier of a page is that page, unless the plan replaced it. -/
theorem RowsSaved.same_page (h : RowsSaved w w' plan) (hkeyed : w.Keyed) (hfits : plan.Fits w)
    {p q : Page} (hp : p ∈ w.pages) (hq : q ∈ w'.pages) (hid : q.id = p.id) :
    q = p ∨ (q = plan.page ∧ plan.existing = some p) := by
  cases h with
  | same hpages => exact .inl (Rows.eq_of_nodup hkeyed.nodup_id hp (hpages ▸ hq) hid)
  | replaced e hexisting hpages =>
    obtain ⟨he, hpage, _⟩ := hfits.existing e hexisting
    rw [hpages] at hq
    rcases Rows.mem_modify.mp hq with ⟨_, _, _, rfl⟩ | ⟨hold, _⟩
    · right
      have hsame : e = p := Rows.eq_of_nodup hkeyed.nodup_id hp he (hpage.symm.trans hid)
      exact ⟨rfl, hsame ▸ hexisting⟩
    · exact .inl (Rows.eq_of_nodup hkeyed.nodup_id hp hold hid)
  | added hnew _ hpages =>
    rw [hpages] at hq
    rcases List.mem_append.mp hq with hold | hlast
    · exact .inl (Rows.eq_of_nodup hkeyed.nodup_id hp hold hid)
    · rw [List.mem_singleton.mp hlast, hfits.new hnew] at hid
      have hlt := hkeyed.ids p hp
      omega

/-- A plan that avoids edits spares them. -/
theorem sparesEdits_perform (hkeyed : w.Keyed) (hfits : plan.Fits w) (op : Operation)
    (commits : Bool)
    (hother : plan.content.author ≠ .compiler → ∀ e, plan.existing = some e → plan.page = e)
    (havoid : plan.content.author = .compiler →
      (∀ e ∈ plan.existing, e.manuallyEdited = false) ∧
        ∀ p ∈ w.pages, p.manuallyEdited = true → p.filePath ≠ plan.page.filePath) :
    SparesEdits w op (w.perform plan commits) := by
  intro p hp hflag q hq hid content hcontent hcompiled
  have hpath : q.filePath = p.filePath := by
    rcases (rowsSaved_perform w plan commits).same_page hkeyed hfits hp hq hid with
      rfl | ⟨rfl, hexisting⟩
    · rfl
    · by_cases hauthor : plan.content.author = .compiler
      · -- the compiler does not replace a flagged page
        rw [(havoid hauthor).1 p hexisting] at hflag
        cases hflag
      · rw [hother hauthor p hexisting]
  rw [hpath] at hcontent
  rcases fileAt_perform w plan commits p.filePath with hsame | ⟨heq, hwrite⟩ | ⟨_, hgone, _⟩
  · rw [← hsame]
    exact hcontent
  · rw [hwrite] at hcontent
    cases hcontent
    exact absurd heq ((havoid hcompiled).2 p hp hflag)
  · rw [hgone] at hcontent
    cases hcontent

/-- A write by another author to the file of a page spares all edits, if paths stay. -/
theorem sparesEdits_write (op : Operation) (content : Content)
    (hauthor : content.author ≠ .compiler)
    (hfiles : ∀ q, w'.fileAt q = w.fileAt q ∨ w'.fileAt q = some content)
    (hpaths : ∀ p ∈ w.pages, ∀ q ∈ w'.pages, q.id = p.id → q.filePath = p.filePath) :
    SparesEdits w op w' := by
  intro p hp _ q hq hid c hc hcompiled
  rw [hpaths p hp q hq hid] at hc
  rcases hfiles p.filePath with hsame | hwrite
  · rw [← hsame]
    exact hc
  · rw [hwrite] at hc
    cases hc
    exact absurd hcompiled hauthor

/-- No flagged page has the path of a page that a compile leaves: slugs are unique and
generated ones free, and the names do not clash. A concept page whose slug is taken is not
written. -/
theorem path_ne_of_avoids (hslug : ∀ n s, '/' ∉ (env.slugify n s).toList) (h : w.Guards)
    {s : Save} {commits : Bool} (havoid : AvoidsEdits env w (.save s commits))
    (hplan : w.plan env s = some plan) (hauthor : plan.content.author = .compiler)
    (hwritten : ¬ (plan.existing = none ∧ plan.rowFirst = true ∧
      ∃ p ∈ w.pages, p.slug = plan.page.slug)) :
    ∀ p ∈ w.pages, p.manuallyEdited = true → p.filePath ≠ plan.page.filePath := by
  intro p hp hflag hpath
  obtain ⟨hbad, hbad'⟩ := havoid.2 plan hplan hauthor p hp hflag
  obtain hslugs | hclash | hclash :=
    slug_or_clash (h.shaped p hp) (shaped_plan hslug h.shaped hplan) hpath
  · cases hexisting : plan.existing with
    | some e =>
      obtain ⟨he, -, heslug⟩ := (fits_plan hplan).existing e hexisting
      obtain rfl := Rows.eq_of_nodup h.keyed.nodup_slug he hp (hslugs.trans heslug)
      rw [unflagged_of_avoids h havoid hplan hauthor _ hexisting] at hflag
      cases hflag
    | none =>
      cases hfirst : plan.rowFirst with
      | true => exact hwritten ⟨hexisting, hfirst, p, hp, hslugs⟩
      | false =>
        have hback : s.isFileBack = false := by
          cases s with
          | fileBack conversationId text =>
            obtain ⟨conversation, _, hplan⟩ := Option.bind_eq_some_iff.mp hplan
            split at hplan <;> cases hplan <;> cases hauthor
          | fileBackTurns slug text =>
            cases hplan
            cases hauthor
          | _ => rfl
        exact slug_ne_plan hplan hback hexisting hfirst p hp hslugs
  · exact hbad' hclash
  · exact hbad hclash

/-- A step that avoids edits spares them. -/
theorem sparesEdits_apply (hslug : ∀ n s, '/' ∉ (env.slugify n s).toList) (h : w.Guards)
    {op : Operation} (havoid : AvoidsEdits env w op) : SparesEdits w op (w.apply env op) := by
  have hkeyed := h.keyed
  have hsame : ∀ p ∈ w.pages, ∀ q ∈ w.pages, q.id = p.id → q = p :=
    fun p hp q hq hid ↦ Rows.eq_of_nodup hkeyed.nodup_id hp hq hid
  cases op with
  | save s commits =>
    obtain ⟨hpages, _, hfiles⟩ := taken_pages w s
    unfold WikiState.apply
    dsimp only
    split
    · exact sparesEdits_of_same hkeyed _ hpages hfiles
    · next plan hplan =>
      by_cases htaken : plan.existing = none ∧ plan.rowFirst = true ∧
          ∃ p ∈ w.pages, p.slug = plan.page.slug
      · obtain ⟨hnew, hfirst, hslugs⟩ := htaken
        rw [perform_of_taken hnew hfirst (hpages.symm ▸ hslugs)]
        exact sparesEdits_of_same hkeyed _ hpages hfiles
      · have hperform := sparesEdits_perform (hkeyed.taken s) ((fits_plan hplan).taken s)
          (.save s commits) commits (fun hauthor e he ↦ page_of_author hplan hauthor he)
          (fun hauthor ↦ ⟨unflagged_of_avoids h havoid hplan hauthor,
            hpages.symm ▸ path_ne_of_avoids hslug h havoid hplan hauthor htaken⟩)
        unfold SparesEdits WikiState.fileAt at hperform ⊢
        rw [hpages, hfiles] at hperform
        exact hperform
  | edit articleId text =>
    apply sparesEdits_write _ ⟨.user, text.getD ""⟩ (by simp)
    · intro q
      rcases edit_files w articleId text q with hsame | ⟨hwrite, _⟩
      · exact .inl hsame
      · exact .inr hwrite
    · intro p hp q hq hid
      have hq : q ∈ (w.edit articleId text).pages := hq
      rcases edit_pages w articleId text with hpages | hpages
      · rw [hpages] at hq
        rw [hsame p hp q hq hid]
      · rw [hpages] at hq
        rcases Rows.mem_modify.mp hq with ⟨q, hold, _, rfl⟩ | ⟨hold, _⟩
        · show q.filePath = p.filePath
          rw [hsame p hp q hold hid]
        · rw [hsame p hp q hold hid]
  | recompile articleId mode =>
    obtain ⟨hpages, _, hfiles⟩ := requestRecompile_pages w articleId mode
    exact sparesEdits_of_same hkeyed _ hpages hfiles
  | lintRecompile articleId => exact sparesEdits_of_same hkeyed _ rfl rfl
  | guidanceRecompile articleId => exact sparesEdits_of_same hkeyed _ rfl rfl
  | sweep articleId text =>
    apply sparesEdits_write _ ⟨.sweep, text⟩ (by simp)
    · intro q
      rcases sweep_files w articleId text q with hsame | ⟨hwrite, _⟩
      · exact .inl hsame
      · exact .inr hwrite
    · intro p hp q hq hid
      have hq : q ∈ (w.sweep articleId text).pages := hq
      rw [(sweep_pages w articleId text).1] at hq
      rw [hsame p hp q hq hid]

/-! ### Flags and jobs -/

/-- A flag is there already, or is set by an edit. -/
theorem flag_apply {op : Operation} {q : Page} (hq : q ∈ (w.apply env op).pages)
    (hflag : q.manuallyEdited = true) :
    (∃ p ∈ w.pages, p.id = q.id ∧ p.manuallyEdited = true) ∨ ∃ text, op = .edit q.id text := by
  cases op with
  | save s commits =>
    obtain ⟨hpages, _, _⟩ := taken_pages w s
    left
    unfold WikiState.apply at hq
    dsimp only at hq
    split at hq
    · exact ⟨q, hpages ▸ hq, rfl, hflag⟩
    · next plan hplan =>
      obtain hold | rfl := (rowsSaved_perform _ plan commits).mem hq
      · exact ⟨q, hpages ▸ hold, rfl, hflag⟩
      · exact flag_plan hplan hflag
  | edit articleId text =>
    have hq : q ∈ (w.edit articleId text).pages := hq
    obtain hpages | hpages := edit_pages w articleId text
    · exact .inl ⟨q, hpages ▸ hq, rfl, hflag⟩
    · rw [hpages] at hq
      obtain ⟨p, _, hid, rfl⟩ | ⟨hold, _⟩ := Rows.mem_modify.mp hq
      · exact .inr ⟨text, by rw [← of_decide_eq_true hid]⟩
      · exact .inl ⟨q, hold, rfl, hflag⟩
  | recompile articleId mode =>
    exact .inl ⟨q, (requestRecompile_pages w articleId mode).1 ▸ hq, rfl, hflag⟩
  | lintRecompile articleId => exact .inl ⟨q, hq, rfl, hflag⟩
  | guidanceRecompile articleId => exact .inl ⟨q, hq, rfl, hflag⟩
  | sweep articleId text =>
    exact .inl ⟨q, (sweep_pages w articleId text).1 ▸ hq, rfl, hflag⟩

private theorem perform_jobs (w : WikiState) (plan : Plan) (commits : Bool) :
    (w.perform plan commits).jobs = w.jobs := by
  have hfile : ∀ w : WikiState, (w.saveFile plan).jobs = w.jobs := by
    intro w
    unfold WikiState.saveFile
    dsimp only
    split
    · split <;> rfl
    · rfl
  have hrow : ∀ {w w' : WikiState}, w.saveRow plan commits = some w' → w'.jobs = w.jobs := by
    intro w w' h
    unfold WikiState.saveRow at h
    dsimp only at h
    split at h
    · split at h
      · cases h
        rfl
      · split at h <;> cases h
        rfl
    · cases h
  unfold WikiState.perform
  split
  · split
    · rfl
    · next w' hsaved => exact (hfile w').trans (hrow hsaved)
  · cases hsaved : (w.saveFile plan).saveRow plan commits with
    | none => exact hfile w
    | some w' => exact (hrow hsaved).trans (hfile w)

/-- A recompile is scheduled already, or asked for by a request that the guard let pass, by the
linter, or by the discussion. -/
theorem job_apply {op : Operation} {job : RecompileJob} (hjob : job ∈ (w.apply env op).jobs) :
    job ∈ w.jobs ∨
      (∃ mode page, op = .recompile job.articleId mode ∧
        w.pages.find? (·.id = job.articleId) = some page ∧ page.manuallyEdited = false) ∨
      op = .lintRecompile job.articleId ∨ op = .guidanceRecompile job.articleId := by
  cases op with
  | save s commits =>
    left
    have htaken : (w.taken s).jobs.Sublist w.jobs := by
      cases s <;> first | exact List.Sublist.refl _ | exact List.eraseIdx_sublist _ _
    unfold WikiState.apply at hjob
    dsimp only at hjob
    split at hjob
    · exact htaken.subset hjob
    · rw [perform_jobs] at hjob
      exact htaken.subset hjob
  | edit articleId text =>
    left
    change job ∈ (w.edit articleId text).jobs at hjob
    unfold WikiState.edit at hjob
    split at hjob
    · exact hjob
    · cases text <;> exact hjob
  | recompile articleId mode =>
    change job ∈ (w.requestRecompile articleId mode).jobs at hjob
    unfold WikiState.requestRecompile at hjob
    split at hjob
    · exact .inl hjob
    · next page hpage =>
      split at hjob
      · exact .inl hjob
      · next hflag =>
        obtain hold | hnew := List.mem_append.mp hjob
        · exact .inl hold
        · obtain rfl := List.mem_singleton.mp hnew
          exact .inr (.inl ⟨mode, page, rfl, hpage, by simpa using hflag⟩)
  | lintRecompile articleId =>
    obtain hold | hnew := List.mem_append.mp hjob
    · exact .inl hold
    · obtain rfl := List.mem_singleton.mp hnew
      exact .inr (.inr (.inl rfl))
  | guidanceRecompile articleId =>
    obtain hold | hnew := List.mem_append.mp hjob
    · exact .inl hold
    · obtain rfl := List.mem_singleton.mp hnew
      exact .inr (.inr (.inr rfl))
  | sweep articleId text =>
    left
    change job ∈ (w.sweep articleId text).jobs at hjob
    unfold WikiState.sweep at hjob
    split at hjob
    · exact hjob
    · split at hjob <;> exact hjob

/-- A step that avoids edits schedules no flagged page and flags no scheduled one. -/
theorem WikiState.Guards.apply (hslug : ∀ n s, '/' ∉ (env.slugify n s).toList) (h : w.Guards)
    {op : Operation} (havoid : AvoidsEdits env w op) : (w.apply env op).Guards := by
  refine ⟨h.keyed.apply op, shaped_apply hslug h.shaped op, fun job hjob q hq hid ↦ ?_⟩
  by_contra hflag
  rw [Bool.not_eq_false] at hflag
  obtain ⟨p, hp, hpid, hpflag⟩ | ⟨text, rfl⟩ := flag_apply hq hflag
  · -- the page was flagged before: it was not scheduled, and cannot be now
    have hunflagged : p.manuallyEdited = false := by
      obtain hold | ⟨mode, page, rfl, hpage, hguard⟩ | rfl | rfl := job_apply hjob
      · exact h.jobs job hold p hp (hpid.trans hid)
      · have hfound : page.id = job.articleId := by simpa using List.find?_some hpage
        obtain rfl := Rows.eq_of_nodup h.keyed.nodup_id hp (List.mem_of_find?_eq_some hpage)
          (hfound.trans (hpid.trans hid).symm)
        exact hguard
      · exact havoid p hp (hpid.trans hid)
      · exact havoid p hp (hpid.trans hid)
    rw [hunflagged] at hpflag
    cases hpflag
  · -- the edit sets the flag: no recompile of its page is scheduled
    obtain hold | ⟨mode, page, hop, -⟩ | hop | hop := job_apply hjob
    · exact havoid job hold hid.symm
    · cases hop
    · cases hop
    · cases hop

end Step

/-- In a run in which no look-up of a compile finds a flagged page, names do not clash with those
of flagged pages, the linter and the discussion schedule no flagged page, and no page is edited
while a recompile of it is scheduled, no step puts compiler output into the file of a flagged
article. -/
theorem wiki_sparesEdits {env : TextEnv} {w : WikiState} {ops : List Operation}
    (hslug : ∀ n s, '/' ∉ (env.slugify n s).toList) (hguards : w.Guards)
    (hops : (wiki env).Guarded (AvoidsEdits env) w ops) : (wiki env).Steps SparesEdits w ops := by
  refine (wiki env).steps_of_guarded (I := WikiState.Guards) ?_ hguards hops
  intro w op w' h havoid hstep
  cases hstep
  exact ⟨h.apply hslug havoid, sparesEdits_apply hslug h havoid⟩

/-- A wiki with one page, compiled from a source by a provider. -/
def compiledWiki : WikiState :=
  { pages := [⟨0, "title", "ai/title.md", .source, some .anthropic, some "s", ["ai"], false⟩]
    nextId := 1, files := [("ai/title.md", ⟨.compiler, "first"⟩)], sources := ["s"]
    concepts := ["ai"], conversations := [], jobs := [] }

/-- A new compilation of the source. -/
def secondBuild : Build := ⟨"title", ["ai"], "second"⟩

private theorem compiledWiki_guards : compiledWiki.Guards := by
  refine ⟨⟨by decide, fun p hp ↦ ?_, by decide⟩, fun p hp ↦ ?_, fun job hjob ↦ by cases hjob⟩
  · rw [List.mem_singleton.mp hp]
    exact Nat.zero_lt_one
  · rw [List.mem_singleton.mp hp]
    exact ⟨"ai", by decide, by decide⟩

/-- An edit, a refused recompile, a compile that another provider answers, and a recompile of
the page it makes. -/
theorem wiki_sparesEdits_other_provider :
    (wiki slugEnv).Steps SparesEdits compiledWiki
      [.edit 0 (some "mine"), .recompile 0 .source, .save (.runSource 0 secondBuild) true,
        .save (.compile "s" (some .openai) secondBuild) true, .recompile 1 .source,
        .save (.runSource 0 secondBuild) true] := by
  apply wiki_sparesEdits
  · intro n s
    simp [slugEnv]
  · exact compiledWiki_guards
  · decide +kernel

/-- Each of these runs overwrites an edit: a compile that the same provider answers, a
recompile by the linter, one with guidance, and one that was requested before the edit. -/
theorem wiki_overwrites_edits :
    (¬ (wiki slugEnv).Steps SparesEdits compiledWiki
      [.edit 0 (some "mine"), .save (.compile "s" (some .anthropic) secondBuild) true]) ∧
    (¬ (wiki slugEnv).Steps SparesEdits compiledWiki
      [.edit 0 (some "mine"), .lintRecompile 0, .save (.runSource 0 secondBuild) true]) ∧
    (¬ (wiki slugEnv).Steps SparesEdits compiledWiki
      [.edit 0 (some "mine"), .guidanceRecompile 0, .save (.runSource 0 secondBuild) true]) ∧
    (¬ (wiki slugEnv).Steps SparesEdits compiledWiki
      [.recompile 0 .source, .edit 0 (some "mine"), .save (.runSource 0 secondBuild) true]) := by
  decide +kernel

end WikiMind.Wiki
