import WikiMind.Wiki.Paths

/-!
# Slugs of concept pages

`_save_concept_page` (`engine/concept_compiler.py:172`) looks for a concept page under the slug
`concept-` and the key of the concept, and inserts a new page if there is none. The other kinds of
pages take their slugs from any titles, so that one of them may have that slug already.
-/

namespace WikiMind.Wiki

open WikiMind.Base WikiMind.Llm
open WikiMind.Compile (TextEnv slugCandidates mem_of_freeSlug)

/-- The slug of the page of a concept. -/
def conceptSlug (env : TextEnv) (name : String) : String := "concept-" ++ env.slugify none name

/-- The concept whose page an operation compiles. -/
def compiledConcept (w : WikiState) : Operation → Option String
  | .save (.conceptPage name _ _) _ => if name ∈ w.concepts then some name else none
  | .save (.runConcept job _ _) _ => do
    let job ← w.jobs[job]?
    let page ← w.pages.find? (·.id = job.articleId)
    let name ← page.concepts.head?
    if job.mode = .concept ∧ name ∈ w.concepts then some name else none
  | _ => none

/-- A new concept page is inserted under a slug that no page has. -/
def InsertsFreeSlug (env : TextEnv) (w : WikiState) (op : Operation) (_ : WikiState) : Prop :=
  match op with
  | .save s _ => ∀ plan ∈ w.plan env s, plan.existing = none → plan.page.pageType = .concept →
      ∀ p ∈ w.pages, p.slug ≠ plan.page.slug
  | _ => True

/-- No page of another kind has the slug of the concept that is compiled. -/
def NoOtherKind (env : TextEnv) (w : WikiState) (op : Operation) : Prop :=
  ∀ name ∈ compiledConcept w op, ∀ p ∈ w.pages,
    p.slug = conceptSlug env name → p.pageType = .concept

instance (env : TextEnv) (w : WikiState) (op : Operation) (w' : WikiState) :
    Decidable (InsertsFreeSlug env w op w') :=
  match op with
  | .save s _ => inferInstanceAs (Decidable (∀ plan ∈ w.plan env s, _))
  | .edit .. | .recompile .. | .lintRecompile .. | .guidanceRecompile .. | .sweep .. =>
    .isTrue trivial

instance (env : TextEnv) (w : WikiState) (op : Operation) : Decidable (NoOtherKind env w op) :=
  inferInstanceAs (Decidable (∀ name ∈ compiledConcept w op, _))

/-- A slug that no page of a concept has, whatever the concept. -/
def Apart (slug : String) : Prop := ¬ "concept-".toList <+: slug.toList

/-- The title leads to such slugs only, also with a number behind it. -/
def TitleApart (env : TextEnv) (title : String) : Prop :=
  env.slugify (some 80) title ≠ "concept" ∧ Apart (env.slugify (some 80) title)

/-- An operation that adds no page of another kind under the slug of a concept. -/
def StaysApart (env : TextEnv) : Operation → Prop
  | .save (.compile _ _ build) _ => TitleApart env build.title
  | .save (.stub title _) _ => TitleApart env title
  | .save (.crystallize _ title _) _ => TitleApart env title
  | .save (.fileBack conversationId _) _ => Apart conversationId
  | .save (.fileBackTurns slug _) _ => Apart slug
  | _ => True

/-- Only a concept page, which has no source, has the slug of a concept. -/
def PageApart (p : Page) : Prop := ¬ Apart p.slug → p.pageType = .concept ∧ p.sourceId = none

section ConceptSlugs

variable {env : TextEnv} {w : WikiState} {plan : Plan} {s : Save} {commits : Bool} {name : String}

variable (env) in
/-- The page of a compiled concept is planned. -/
theorem plan_of_compiledConcept (h : name ∈ compiledConcept w (.save s commits)) :
    ∃ provider text, w.plan env s = some (conceptPlan env w name provider text) := by
  cases s with
  | conceptPage name' provider text =>
    obtain ⟨hmem, rfl⟩ : name' ∈ w.concepts ∧ name' = name := by
      simpa [compiledConcept] using h
    exact ⟨provider, text, if_pos hmem⟩
  | runConcept job provider text =>
    obtain ⟨job', hjob, h⟩ := Option.bind_eq_some_iff.mp h
    obtain ⟨page, hpage, h⟩ := Option.bind_eq_some_iff.mp h
    obtain ⟨name', hname, h⟩ := Option.bind_eq_some_iff.mp h
    obtain ⟨hrun, rfl⟩ : (job'.mode = .concept ∧ name' ∈ w.concepts) ∧ name' = name := by
      simpa using h
    refine ⟨provider, text, ?_⟩
    show runConceptPlan env w job provider text = _
    simp [runConceptPlan, hjob, hpage, hname, hrun]
  | compile sourceId provider build => cases h
  | stub title text => cases h
  | fileBack conversationId text => cases h
  | fileBackTurns slug text => cases h
  | crystallize conversationId title text => cases h
  | runSource job build => cases h

private theorem pageType_sourcePlan {existing : Option Page} {sourceId : String}
    {provider : Option Provider} {build : Build}
    (h : sourcePlan env w existing sourceId provider build = some plan) :
    plan.page.pageType = .source := by
  unfold sourcePlan at h
  cases existing with
  | some page =>
    cases h
    rfl
  | none =>
    obtain ⟨slug, -, rfl⟩ := Option.map_eq_some_iff.mp h
    rfl

variable (commits) in
/-- A new page of this kind is the page of a compiled concept. -/
theorem compiledConcept_of_plan (h : w.plan env s = some plan) (hnew : plan.existing = none)
    (hkind : plan.page.pageType = .concept) :
    ∃ name provider text, name ∈ compiledConcept w (.save s commits) ∧
      plan = conceptPlan env w name provider text := by
  cases s with
  | conceptPage name provider text =>
    simp only [WikiState.plan] at h
    split at h
    · next hmem =>
      cases h
      exact ⟨name, provider, text, by simp [compiledConcept, hmem], rfl⟩
    · cases h
  | runConcept job provider text =>
    obtain ⟨job', hjob, h⟩ := Option.bind_eq_some_iff.mp h
    obtain ⟨page, hpage, h⟩ := Option.bind_eq_some_iff.mp h
    obtain ⟨name, hname, h⟩ := Option.bind_eq_some_iff.mp h
    split at h
    · next hrun =>
      cases h
      exact ⟨name, provider, text, by simp [compiledConcept, hjob, hpage, hname, hrun], rfl⟩
    · cases h
  | compile sourceId provider build =>
    simp only [WikiState.plan] at h
    split at h
    · rw [pageType_sourcePlan h] at hkind
      cases hkind
    · cases h
  | stub title text =>
    obtain ⟨slug, _, rfl⟩ := Option.map_eq_some_iff.mp h
    cases hkind
  | fileBack conversationId text =>
    obtain ⟨conversation, _, h⟩ := Option.bind_eq_some_iff.mp h
    split at h
    · cases h
      cases hnew
    · cases h
      cases hkind
  | fileBackTurns slug text =>
    cases h
    cases hkind
  | crystallize conversationId title text =>
    obtain ⟨conversation, _, h⟩ := Option.bind_eq_some_iff.mp h
    split at h
    · cases h
    · obtain ⟨slug, _, h⟩ := Option.bind_eq_some_iff.mp h
      cases h
      cases hkind
  | runSource job build =>
    obtain ⟨_, _, h⟩ := Option.bind_eq_some_iff.mp h
    obtain ⟨page, hpage, h⟩ := Option.bind_eq_some_iff.mp h
    obtain ⟨_, _, h⟩ := Option.bind_eq_some_iff.mp h
    split at h
    · rw [pageType_sourcePlan h] at hkind
      cases hkind
    · cases h

/-- A page is looked up among the concept pages of the slug. -/
theorem existing_conceptPlan_eq_none_iff {provider : Option Provider} {text : String} :
    (conceptPlan env w name provider text).existing = none ↔
      ∀ p ∈ w.pages, p.slug = conceptSlug env name → p.pageType ≠ .concept := by
  unfold conceptPlan conceptSlug
  rw [List.find?_eq_none]
  simp

private theorem page_conceptPlan_of_new {provider : Option Provider} {text : String}
    (hnew : (conceptPlan env w name provider text).existing = none) :
    (conceptPlan env w name provider text).page.slug = conceptSlug env name ∧
      (conceptPlan env w name provider text).page.pageType = .concept := by
  unfold conceptPlan at hnew ⊢
  dsimp only at hnew ⊢
  rw [hnew]
  exact ⟨rfl, rfl⟩

/-- If no page of another kind has the slug, none has it where a new page is inserted. -/
theorem insertsFreeSlug_of_noOtherKind {op : Operation} {w' : WikiState}
    (h : NoOtherKind env w op) : InsertsFreeSlug env w op w' := by
  cases op with
  | save s commits =>
    intro plan hplan hnew hkind p hp hslug
    obtain ⟨name, provider, text, hname, rfl⟩ :=
      compiledConcept_of_plan commits hplan hnew hkind
    rw [(page_conceptPlan_of_new hnew).1] at hslug
    exact existing_conceptPlan_eq_none_iff.mp hnew p hp hslug (h name hname p hp hslug)
  | edit | recompile | lintRecompile | guidanceRecompile | sweep => trivial

/-- A page of another kind under the slug keeps out the concept page, which looks for one of its
kind only. -/
theorem noOtherKind_of_insertsFreeSlug {op : Operation} {w' : WikiState} (hkeyed : w.Keyed)
    (h : InsertsFreeSlug env w op w') : NoOtherKind env w op := by
  intro name hname p hp hslug
  by_contra hkind
  cases op with
  | save s commits =>
    obtain ⟨provider, text, hplan⟩ := plan_of_compiledConcept env hname
    have hnew : (conceptPlan env w name provider text).existing = none := by
      refine existing_conceptPlan_eq_none_iff.mpr fun q hq hqslug hqkind ↦ hkind ?_
      -- slugs are unique, so this page would be the one of the other kind
      rw [List.inj_on_of_nodup_map hkeyed.nodup_slug hp hq (hslug.trans hqslug.symm)]
      exact hqkind
    obtain ⟨hpage, hpageKind⟩ := page_conceptPlan_of_new hnew
    exact h _ hplan hnew hpageKind p hp (hslug.trans hpage.symm)
  | edit | recompile | lintRecompile | guidanceRecompile | sweep => cases hname

/-- All concept pages of a run are inserted under free slugs exactly if, at each step, no page of
another kind has the slug of the concept that is compiled. -/
theorem wiki_insertsFreeSlug_iff (env : TextEnv) (w : WikiState) (ops : List Operation)
    (hkeyed : w.Keyed) :
    (wiki env).Steps (InsertsFreeSlug env) w ops ↔
      (wiki env).Guarded (NoOtherKind env) w ops := by
  refine (wiki env).steps_iff_guarded (W := WikiState.Keyed) ?_ ?_ hkeyed ops
  · intro w op w' h hstep
    cases hstep
    exact h.apply op
  · intro w op w' h _
    exact ⟨noOtherKind_of_insertsFreeSlug h, insertsFreeSlug_of_noOtherKind⟩

/-- A source page titled as no concept, and the page of a concept, twice. -/
theorem wiki_insertsFreeSlug_maps :
    (wiki slugEnv).Steps (InsertsFreeSlug slugEnv) emptyWiki
      [.save (.compile "s" (some .anthropic) ⟨"maps", ["ai"], "text"⟩) true,
        .save (.conceptPage "ai" (some .anthropic) "text") true,
        .save (.conceptPage "ai" (some .anthropic) "text") true] := by
  refine (wiki_insertsFreeSlug_iff slugEnv emptyWiki _ ?_).mpr ?_
  · refine ⟨List.nodup_nil, fun p hp ↦ ?_, List.nodup_nil⟩
    cases hp
  · decide +kernel

/-- A source page titled as the slug of a concept keeps the concept from having a page; so does the
second page titled `concept`, whose number is a concept. -/
theorem concept_slug_taken :
    (¬ (wiki slugEnv).Steps (InsertsFreeSlug slugEnv) emptyWiki
      [.save (.compile "s" (some .anthropic) ⟨"concept-ai", ["ai"], "text"⟩) true,
        .save (.conceptPage "ai" (some .anthropic) "text") true]) ∧
    (¬ (wiki slugEnv).Steps (InsertsFreeSlug slugEnv) { emptyWiki with concepts := ["2"] }
      [.save (.stub "concept" "") true, .save (.stub "concept" "") true,
        .save (.conceptPage "2" (some .anthropic) "text") true]) := by
  decide +kernel

/-- Before a hyphen stands all of `concept-` or only `concept`. -/
theorem eq_concept_of_startsWith {base : String} {rest : List Char} (hbase : Apart base)
    (h : "concept-".toList <+: base.toList ++ '-' :: rest) : base = "concept" := by
  obtain hlong | hshort := List.prefix_or_prefix_of_prefix h (List.prefix_append _ _)
  · exact absurd hlong hbase
  · have hsplit : "concept-".toList = "concept".toList ++ ['-'] := by decide
    rw [hsplit, List.prefix_concat_iff] at hshort
    obtain hall | ⟨t, ht⟩ := hshort
    · exact absurd ⟨[], by rw [hall, List.append_nil, hsplit]⟩ hbase
    · cases t with
      | nil => exact String.toList_inj.mp (by simpa using ht)
      | cons c t =>
        -- the next character would be a letter of `concept`
        rw [hsplit, ← ht, List.append_assoc, List.prefix_append_right_inj, List.cons_append,
          List.cons_prefix_cons] at h
        have hc : c ∈ "concept".toList := by simp [← ht]
        rw [h.1] at hc
        exact absurd hc (by decide)

/-- A number behind a slug makes it that of a concept only where it is `concept`. -/
theorem apart_of_mem_slugCandidates {base slug : String} {attempts : Nat} (hne : base ≠ "concept")
    (hbase : Apart base) (h : slug ∈ slugCandidates base attempts) : Apart slug := by
  obtain ⟨i, -, rfl⟩ := List.mem_map.mp h
  split
  · exact hbase
  · intro hstarts
    simp only [String.toList_append, List.append_assoc] at hstarts
    exact hne (eq_concept_of_startsWith hbase hstarts)

private theorem apart_of_uniqueSlug {title slug : String} (htitle : TitleApart env title)
    (h : uniqueSlug env w title = some slug) : Apart slug :=
  apart_of_mem_slugCandidates htitle.1 htitle.2 (mem_of_freeSlug h)

private theorem pageApart_sourcePlan {existing : Option Page} {sourceId : String}
    {provider : Option Provider} {build : Build}
    (htitle : existing = none → TitleApart env build.title)
    (hexisting : ∀ e ∈ existing, PageApart e ∧ e.sourceId ≠ none)
    (h : sourcePlan env w existing sourceId provider build = some plan) : PageApart plan.page := by
  unfold sourcePlan at h
  cases existing with
  | some e =>
    cases h
    obtain ⟨hapart, hsource⟩ := hexisting e rfl
    exact fun hslug ↦ absurd (hapart hslug).2 hsource
  | none =>
    obtain ⟨slug, hslug, rfl⟩ := Option.map_eq_some_iff.mp h
    exact fun hconcept ↦ absurd (apart_of_uniqueSlug (htitle rfl) hslug) hconcept

private theorem pageApart_newPage {dir slug : String} {pageType : PageType} (h : Apart slug) :
    PageApart (newPage w dir slug pageType) := fun hslug ↦ absurd h hslug

private theorem sourceId_of_findPage {sourceId : String} {provider : Option Provider} {e : Page}
    (h : findPage w sourceId provider = some e) : e.sourceId = some sourceId := by
  unfold findPage at h
  cases provider with
  | none => cases h
  | some p =>
    have hfound := List.find?_some h
    simp only [decide_eq_true_eq] at hfound
    exact hfound.1

/-- A page of its own kind has its slug already, or is new. -/
theorem pageApart_conceptPlan {provider : Option Provider} {text : String}
    (hpages : ∀ p ∈ w.pages, PageApart p) :
    PageApart (conceptPlan env w name provider text).page := by
  unfold conceptPlan
  dsimp only
  split
  · next page hfound => exact hpages page (List.mem_of_find?_eq_some hfound)
  · exact fun _ ↦ ⟨rfl, rfl⟩

/-- What an operation that stays apart plans keeps to the rule. -/
theorem pageApart_plan (hpages : ∀ p ∈ w.pages, PageApart p)
    (hapart : StaysApart env (.save s commits)) (h : w.plan env s = some plan) :
    PageApart plan.page := by
  cases s with
  | compile sourceId provider build =>
    simp only [WikiState.plan] at h
    split at h
    · refine pageApart_sourcePlan (fun _ ↦ hapart)
        (fun e he ↦ ⟨hpages e (mem_of_findPage he), ?_⟩) h
      rw [sourceId_of_findPage he]
      exact Option.some_ne_none _
    · cases h
  | conceptPage name provider text =>
    simp only [WikiState.plan] at h
    split at h
    · cases h
      exact pageApart_conceptPlan hpages
    · cases h
  | runConcept job provider text =>
    obtain ⟨_, _, h⟩ := Option.bind_eq_some_iff.mp h
    obtain ⟨_, _, h⟩ := Option.bind_eq_some_iff.mp h
    obtain ⟨_, _, h⟩ := Option.bind_eq_some_iff.mp h
    split at h
    · cases h
      exact pageApart_conceptPlan hpages
    · cases h
  | stub title text =>
    obtain ⟨slug, hslug, rfl⟩ := Option.map_eq_some_iff.mp h
    exact pageApart_newPage (apart_of_uniqueSlug hapart hslug)
  | fileBack conversationId text =>
    obtain ⟨conversation, _, h⟩ := Option.bind_eq_some_iff.mp h
    split at h
    · next page hpage =>
      cases h
      obtain ⟨i, _, hfind⟩ := Option.bind_eq_some_iff.mp hpage
      exact hpages _ (List.mem_of_find?_eq_some hfind)
    · cases h
      exact pageApart_newPage hapart
  | fileBackTurns slug text =>
    cases h
    exact pageApart_newPage hapart
  | crystallize conversationId title text =>
    obtain ⟨conversation, _, h⟩ := Option.bind_eq_some_iff.mp h
    split at h
    · cases h
    · obtain ⟨slug, hslug, h⟩ := Option.bind_eq_some_iff.mp h
      cases h
      exact pageApart_newPage (apart_of_uniqueSlug hapart hslug)
  | runSource job build =>
    obtain ⟨_, _, h⟩ := Option.bind_eq_some_iff.mp h
    obtain ⟨page, hpage, h⟩ := Option.bind_eq_some_iff.mp h
    obtain ⟨sourceId, hsource, h⟩ := Option.bind_eq_some_iff.mp h
    split at h
    · refine pageApart_sourcePlan (fun hnone ↦ by cases hnone) (fun e he ↦ ?_) h
      cases he
      exact ⟨hpages _ (List.mem_of_find?_eq_some hpage), by simp [hsource]⟩
    · cases h

/-- Such an operation keeps the rule. -/
theorem pagesApart_apply (hpages : ∀ p ∈ w.pages, PageApart p) {op : Operation}
    (hapart : StaysApart env op) : ∀ p ∈ (w.apply env op).pages, PageApart p := by
  cases op with
  | save s commits =>
    have htaken : (w.taken s).pages = w.pages := (taken_pages w s).1
    unfold WikiState.apply
    dsimp only
    split
    · rw [htaken]
      exact hpages
    · next plan hplan =>
      intro p hp
      obtain hold | rfl := (rowsSaved_perform (w.taken s) plan commits).mem hp
      · exact hpages p (htaken ▸ hold)
      · exact pageApart_plan hpages hapart hplan
  | edit articleId text =>
    intro p hp
    have hp : p ∈ (w.edit articleId text).pages := hp
    obtain hsame | hflagged := edit_pages w articleId text
    · exact hpages p (hsame ▸ hp)
    · rw [hflagged] at hp
      obtain ⟨q, hold, -, rfl⟩ | ⟨hold, -⟩ := Rows.mem_modify.mp hp
      · exact hpages q hold
      · exact hpages p hold
  | recompile articleId mode =>
    intro p hp
    exact hpages p ((requestRecompile_pages w articleId mode).1 ▸ hp)
  | lintRecompile articleId => exact hpages
  | guidanceRecompile articleId => exact hpages
  | sweep articleId text =>
    intro p hp
    exact hpages p ((sweep_pages w articleId text).1 ▸ hp)

/-- A run whose titles and identifiers have no slugs of concepts inserts all concept pages under
free slugs. -/
theorem wiki_insertsFreeSlug_of_apart {env : TextEnv} {w : WikiState} {ops : List Operation}
    (hpages : ∀ p ∈ w.pages, PageApart p) (hops : ∀ op ∈ ops, StaysApart env op) :
    (wiki env).Steps (InsertsFreeSlug env) w ops := by
  refine (wiki env).steps_of_guarded (I := fun w ↦ ∀ p ∈ w.pages, PageApart p)
    (G := fun _ ↦ StaysApart env) ?_ hpages ((wiki env).guarded_of_forall hops)
  intro w op w' h hapart hstep
  cases hstep
  refine ⟨pagesApart_apply h hapart, insertsFreeSlug_of_noOtherKind fun name _ p hp hslug ↦ ?_⟩
  refine (h p hp fun hpage ↦ hpage ?_).1
  rw [hslug, conceptSlug, String.toList_append]
  exact List.prefix_append _ _

end ConceptSlugs

end WikiMind.Wiki
