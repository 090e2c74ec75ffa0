import WikiMind.Wiki.Pages

/-!
# Paths of pages

A source page is filed under its first concept, a concept page under its own key, the other
kinds under a directory of the kind; the file is named by the slug, except for a concept
page, whose slug is `concept-` and the key. Slugs are unique, so that the schemes can only
meet where a page lies in a directory named as its slug and a concept page has that key.
The slugifier is a library function; of it only is used that a slug has no slash.
-/

namespace WikiMind.Wiki

open WikiMind.Base WikiMind.Llm
open WikiMind.Compile (TextEnv)

/-- The path of a markdown file in a directory. -/
def mdPath (dir stem : String) : String := dir ++ "/" ++ stem ++ ".md"

/-- The path of a page, by its scheme: in some directory, or for a concept page under its
key. -/
def Page.Shaped (p : Page) : Prop :=
  ∃ dir : String, '/' ∉ dir.toList ∧
    if p.pageType = .concept then p.slug = "concept-" ++ dir ∧ p.filePath = mdPath dir dir
    else p.filePath = mdPath dir p.slug

/-- A concept page, and another page that lies in the directory of its own slug, which is
the key of the concept page. -/
def Clash (concept p : Page) : Prop :=
  concept.pageType = .concept ∧ p.pageType ≠ .concept ∧ concept.slug = "concept-" ++ p.slug ∧
    p.filePath = mdPath p.slug p.slug

instance (concept p : Page) : Decidable (Clash concept p) :=
  inferInstanceAs (Decidable (_ ∧ _))

/-- Distinct pages have distinct paths. -/
def DistinctPaths (w : WikiState) : Prop :=
  ∀ p ∈ w.pages, ∀ q ∈ w.pages, p.filePath = q.filePath → p.id = q.id

instance (w : WikiState) : Decidable (DistinctPaths w) :=
  inferInstanceAs (Decidable (∀ p ∈ w.pages, _))

/-- The page an operation rewrites, edits or sweeps, if it is not a new one. -/
def ownPage (env : TextEnv) (w : WikiState) : Operation → Option Nat
  | .save s _ => (w.plan env s).bind fun plan ↦ plan.existing.map Page.id
  | .edit articleId _ => some articleId
  | .sweep articleId _ => some articleId
  | _ => none

/-- The files of the other pages are as they were. -/
def KeepsFiles (env : TextEnv) (w : WikiState) (op : Operation) (w' : WikiState) : Prop :=
  ∀ p ∈ w.pages, ownPage env w op ≠ some p.id → w'.fileAt p.filePath = w.fileAt p.filePath

instance (env : TextEnv) (w : WikiState) (op : Operation) (w' : WikiState) :
    Decidable (KeepsFiles env w op w') :=
  inferInstanceAs (Decidable (∀ p ∈ w.pages, _))

/-- The page a save leaves clashes with no other page, and no page has the identifier of a new
answer for its slug. -/
def AvoidsClash (env : TextEnv) (w : WikiState) : Operation → Prop
  | .save s _ => ∀ plan ∈ w.plan env s,
      (∀ p ∈ w.pages, (∀ e ∈ plan.existing, p.id ≠ e.id) →
        ¬ Clash plan.page p ∧ ¬ Clash p plan.page) ∧
      (s.isFileBack = true → plan.existing = none → ∀ p ∈ w.pages, p.slug ≠ plan.page.slug)
  | _ => True

instance (env : TextEnv) (w : WikiState) : (op : Operation) → Decidable (AvoidsClash env w op)
  | .save s _ => inferInstanceAs (Decidable (∀ plan ∈ w.plan env s, _))
  | .edit .. | .recompile .. | .lintRecompile .. | .guidanceRecompile .. | .sweep .. =>
    .isTrue trivial

/-- The schemes of all pages, and no clash. -/
structure WikiState.Filed (w : WikiState) : Prop where
  keyed : w.Keyed
  shaped : ∀ p ∈ w.pages, p.Shaped
  clash : ∀ p ∈ w.pages, ∀ q ∈ w.pages, ¬ Clash p q

/-- A list splits at its first separator in one way. -/
private theorem split_at_first {α : Type} {c : α} {a b x y : List α} (ha : c ∉ a) (hb : c ∉ b)
    (h : a ++ c :: x = b ++ c :: y) : a = b ∧ x = y := by
  induction a generalizing b with
  | nil =>
    cases b with
    | nil => exact ⟨rfl, (List.cons.inj h).2⟩
    | cons d b => exact absurd (by rw [(List.cons.inj h).1]; simp) hb
  | cons d a ih =>
    cases b with
    | nil => exact absurd (by rw [← (List.cons.inj h).1]; simp) ha
    | cons d' b =>
      obtain ⟨rfl, htail⟩ := List.cons.inj h
      obtain ⟨rfl, hxy⟩ := ih (fun hc ↦ ha (List.mem_cons_of_mem d hc))
        (fun hc ↦ hb (List.mem_cons_of_mem d hc)) htail
      exact ⟨rfl, hxy⟩

/-- A path determines its directory and its stem, if directories have no slash. -/
theorem mdPath_inj {dir dir' stem stem' : String} (hdir : '/' ∉ dir.toList)
    (hdir' : '/' ∉ dir'.toList) (h : mdPath dir stem = mdPath dir' stem') :
    dir = dir' ∧ stem = stem' := by
  have hlist := congrArg String.toList h
  unfold mdPath at hlist
  simp only [String.toList_append, List.append_assoc] at hlist
  have hslash : "/".toList = ['/'] := rfl
  rw [hslash, List.singleton_append, List.singleton_append] at hlist
  obtain ⟨hdirs, hrest⟩ := split_at_first hdir hdir' hlist
  exact ⟨String.toList_inj.mp hdirs, String.toList_inj.mp (List.append_cancel_right hrest)⟩

/-- Two pages with one path have one slug, or clash. -/
theorem slug_or_clash {p q : Page} (hp : p.Shaped) (hq : q.Shaped)
    (h : p.filePath = q.filePath) : p.slug = q.slug ∨ Clash p q ∨ Clash q p := by
  obtain ⟨dir, hdir, hpath⟩ := hp
  obtain ⟨dir', hdir', hpath'⟩ := hq
  split at hpath
  · next hconcept =>
    obtain ⟨hslug, hpath⟩ := hpath
    split at hpath'
    · obtain ⟨hslug', hpath'⟩ := hpath'
      rw [hpath, hpath'] at h
      rw [hslug, hslug', (mdPath_inj hdir hdir' h).1]
      exact .inl rfl
    · next hother =>
      rw [hpath, hpath'] at h
      obtain ⟨rfl, hstem⟩ := mdPath_inj hdir hdir' h
      exact .inr (.inl ⟨hconcept, hother, by rw [hslug, hstem], by rw [hpath', ← hstem]⟩)
  · next hother =>
    split at hpath'
    · next hconcept =>
      obtain ⟨hslug', hpath'⟩ := hpath'
      rw [hpath, hpath'] at h
      obtain ⟨rfl, hstem⟩ := mdPath_inj hdir hdir' h
      exact .inr (.inr ⟨hconcept, hother, by rw [hslug', hstem], by rw [hpath, hstem]⟩)
    · rw [hpath, hpath'] at h
      exact .inl (mdPath_inj hdir hdir' h).2

/-- Pages filed by the schemes without a clash have distinct paths. -/
theorem WikiState.Filed.distinctPaths {w : WikiState} (h : w.Filed) : DistinctPaths w := by
  intro p hp q hq hpath
  rcases slug_or_clash (h.shaped p hp) (h.shaped q hq) hpath with hslug | hclash | hclash
  · rw [Rows.eq_of_nodup h.keyed.nodup_slug hq hp hslug]
  · exact absurd hclash (h.clash p hp q hq)
  · exact absurd hclash (h.clash q hq p hp)

section Step

variable {env : TextEnv} {w : WikiState} {plan : Plan}

private theorem shaped_conceptPlan {name : String} {provider : Option Provider} {text : String}
    (hslug : ∀ n s, '/' ∉ (env.slugify n s).toList) :
    (conceptPlan env w name provider text).page.Shaped := by
  unfold conceptPlan
  dsimp only
  refine ⟨_, hslug none name, ?_⟩
  cases hfind : w.pages.find? fun p ↦
      p.slug = "concept-" ++ env.slugify none name ∧ p.pageType = .concept with
  | none => exact ⟨rfl, rfl⟩
  | some e =>
    have hfound := List.find?_some hfind
    simp only [decide_eq_true_eq] at hfound
    dsimp only
    rw [if_pos hfound.2]
    exact ⟨hfound.1, rfl⟩

private theorem shaped_newPage {dir slug : String} {pageType : PageType} (hdir : '/' ∉ dir.toList)
    (htype : pageType ≠ .concept) : (newPage w dir slug pageType).Shaped := by
  refine ⟨dir, hdir, ?_⟩
  show if pageType = .concept then _ else _
  rw [if_neg htype]
  rfl

/-- Every plan follows the scheme of its kind. -/
theorem shaped_plan {s : Save} (hslug : ∀ n s, '/' ∉ (env.slugify n s).toList)
    (hshaped : ∀ p ∈ w.pages, p.Shaped) (h : w.plan env s = some plan) : plan.page.Shaped := by
  cases planned_of_plan h with
  | source existing sourceId provider build hmem hplan =>
    obtain ⟨-, -, htype, hpath, -⟩ := sourcePlan_eq_some hplan
    refine ⟨_, hslug none (build.concepts.headD "general"), ?_⟩
    rw [if_neg (by simp [htype])]
    exact hpath
  | concept name provider text hplan =>
    rw [hplan]
    exact shaped_conceptPlan hslug
  | new dir slug pageType hpage _ _ hdir htype =>
    rw [hpage]
    exact shaped_newPage hdir htype
  | refiled _ hmem => exact hshaped _ hmem

/-- A new page whose file is written before its row has a free slug, unless a file-back names
it: the slug was generated. -/
theorem slug_ne_plan {s : Save} (h : w.plan env s = some plan) (hback : s.isFileBack = false)
    (hnew : plan.existing = none) (hfirst : plan.rowFirst = false) :
    ∀ p ∈ w.pages, p.slug ≠ plan.page.slug := by
  cases planned_of_plan h with
  | source existing sourceId provider build hmem hplan =>
    obtain ⟨hexisting, -, -, -, ⟨e, he, -⟩ | ⟨-, -, -, hfree⟩⟩ := sourcePlan_eq_some hplan
    · rw [hexisting, he] at hnew
      cases hnew
    · exact hfree
  | concept name provider text hplan =>
    rw [hplan] at hfirst
    cases hfirst
  | new dir slug pageType hpage _ _ _ _ hslug =>
    rw [hpage]
    exact hslug hback
  | refiled hexisting =>
    rw [hexisting] at hnew
    cases hnew

/-- A page clashes with no page of its own type. -/
theorem not_clash_self (p : Page) : ¬ Clash p p := fun h ↦ h.2.1 h.1

/-- A plan without clash keeps the filing. -/
theorem WikiState.Filed.perform (h : w.Filed) (hfits : plan.Fits w) (hshaped : plan.page.Shaped)
    (hclash : ∀ p ∈ w.pages, (∀ e ∈ plan.existing, p.id ≠ e.id) →
      ¬ Clash plan.page p ∧ ¬ Clash p plan.page) (commits : Bool) :
    (w.perform plan commits).Filed := by
  have hrows := rowsSaved_perform w plan commits
  refine ⟨h.keyed.perform hfits commits, ?_, ?_⟩
  · intro p hp
    rcases hrows.mem hp with hold | rfl
    · exact h.shaped p hold
    · exact hshaped
  · -- a plan that saves its row leaves that row and those it does not replace
    have hsaved : (∀ p ∈ (w.perform plan commits).pages,
        p = plan.page ∨ (p ∈ w.pages ∧ ∀ e ∈ plan.existing, p.id ≠ e.id)) →
        ∀ p ∈ (w.perform plan commits).pages, ∀ q ∈ (w.perform plan commits).pages,
          ¬ Clash p q := by
      intro hmem p hp q hq
      rcases hmem p hp with rfl | ⟨hpold, hpne⟩
      · rcases hmem q hq with rfl | ⟨hqold, hqne⟩
        · exact not_clash_self _
        · exact (hclash q hqold hqne).1
      · rcases hmem q hq with rfl | ⟨hqold, _⟩
        · exact (hclash p hpold hpne).2
        · exact h.clash p hpold q hqold
    cases hrows with
    | same hpages =>
      rw [hpages]
      exact h.clash
    | replaced e hexisting hpages =>
      apply hsaved
      intro p hp
      rw [hpages] at hp
      rcases Rows.mem_modify.mp hp with ⟨_, _, _, rfl⟩ | ⟨hold, hne⟩
      · exact .inl rfl
      · refine .inr ⟨hold, fun x hx ↦ ?_⟩
        rw [hexisting] at hx
        cases hx
        exact of_decide_eq_false hne
    | added hnew _ hpages =>
      apply hsaved
      intro p hp
      rw [hpages] at hp
      rcases List.mem_append.mp hp with hold | hlast
      · refine .inr ⟨hold, fun x hx ↦ ?_⟩
        rw [hnew] at hx
        cases hx
      · exact .inl (List.mem_singleton.mp hlast)

/-- The filing depends on the rows only, and not on the flag of a row. -/
theorem WikiState.Filed.of_pages {w' : WikiState} (h : w.Filed) (hkeyed : w'.Keyed)
    (hpages : ∀ p ∈ w'.pages, ∃ q ∈ w.pages,
      p.slug = q.slug ∧ p.filePath = q.filePath ∧ p.pageType = q.pageType) : w'.Filed := by
  refine ⟨hkeyed, ?_, ?_⟩
  · intro p hp
    obtain ⟨q, hq, hslug, hpath, htype⟩ := hpages p hp
    obtain ⟨dir, hdir, hshape⟩ := h.shaped q hq
    refine ⟨dir, hdir, ?_⟩
    rw [hslug, hpath, htype]
    exact hshape
  · intro p hp x hx hclash
    obtain ⟨q, hq, hslug, _, htype⟩ := hpages p hp
    obtain ⟨y, hy, hslug', hpath', htype'⟩ := hpages x hx
    refine h.clash q hq y hy ?_
    unfold Clash at hclash ⊢
    rw [← hslug, ← htype, ← hslug', ← hpath', ← htype']
    exact hclash

/-- A page after an operation is the one of a plan, or was there, up to its flag. -/
theorem page_apply {op : Operation} {p : Page} (hp : p ∈ (w.apply env op).pages) :
    (∃ q ∈ w.pages, p.slug = q.slug ∧ p.filePath = q.filePath ∧ p.pageType = q.pageType) ∨
      ∃ s commits plan, op = .save s commits ∧ w.plan env s = some plan ∧ p = plan.page := by
  cases op with
  | save s commits =>
    obtain ⟨hpages, _, _⟩ := taken_pages w s
    unfold WikiState.apply at hp
    dsimp only at hp
    split at hp
    · exact .inl ⟨p, hpages ▸ hp, rfl, rfl, rfl⟩
    · next plan hplan =>
      obtain hold | rfl := (rowsSaved_perform _ plan commits).mem hp
      · exact .inl ⟨p, hpages ▸ hold, rfl, rfl, rfl⟩
      · exact .inr ⟨s, commits, plan, rfl, hplan, rfl⟩
  | edit articleId text =>
    left
    have hp : p ∈ (w.edit articleId text).pages := hp
    rcases edit_pages w articleId text with hpages | hpages
    · exact ⟨p, hpages ▸ hp, rfl, rfl, rfl⟩
    · rw [hpages] at hp
      rcases Rows.mem_modify.mp hp with ⟨q, hold, _, rfl⟩ | ⟨hold, _⟩
      · exact ⟨q, hold, rfl, rfl, rfl⟩
      · exact ⟨p, hold, rfl, rfl, rfl⟩
  | recompile articleId mode =>
    exact .inl ⟨p, (requestRecompile_pages w articleId mode).1 ▸ hp, rfl, rfl, rfl⟩
  | lintRecompile articleId => exact .inl ⟨p, hp, rfl, rfl, rfl⟩
  | guidanceRecompile articleId => exact .inl ⟨p, hp, rfl, rfl, rfl⟩
  | sweep articleId text =>
    exact .inl ⟨p, (sweep_pages w articleId text).1 ▸ hp, rfl, rfl, rfl⟩

/-- The schemes are kept, with or without clashes. -/
theorem shaped_apply (hslug : ∀ n s, '/' ∉ (env.slugify n s).toList)
    (h : ∀ p ∈ w.pages, p.Shaped) (op : Operation) : ∀ p ∈ (w.apply env op).pages, p.Shaped := by
  intro p hp
  obtain ⟨q, hq, hsame, hpath, htype⟩ | ⟨s, commits, plan, -, hplan, rfl⟩ := page_apply hp
  · obtain ⟨dir, hdir, hshape⟩ := h q hq
    refine ⟨dir, hdir, ?_⟩
    rw [hsame, hpath, htype]
    exact hshape
  · exact shaped_plan hslug h hplan

/-- A step without clash keeps the filing. -/
theorem WikiState.Filed.apply (hslug : ∀ n s, '/' ∉ (env.slugify n s).toList) (h : w.Filed)
    {op : Operation} (havoid : AvoidsClash env w op) : (w.apply env op).Filed := by
  have hkeyed : (w.apply env op).Keyed := h.keyed.apply op
  have hold : (∀ s commits, op ≠ .save s commits) → ∀ p ∈ (w.apply env op).pages,
      ∃ q ∈ w.pages, p.slug = q.slug ∧ p.filePath = q.filePath ∧ p.pageType = q.pageType := by
    intro hop p hp
    obtain hold | ⟨s, commits, _, hsave, -⟩ := page_apply hp
    · exact hold
    · exact absurd hsave (hop s commits)
  cases op with
  | save s commits =>
    obtain ⟨hpages, _, _⟩ := taken_pages w s
    have htaken : (w.taken s).Filed := by
      refine h.of_pages (h.keyed.taken s) fun p hp ↦ ⟨p, ?_, rfl, rfl, rfl⟩
      exact hpages ▸ hp
    unfold WikiState.apply
    dsimp only
    split
    · exact htaken
    · next plan hplan =>
      refine htaken.perform ((fits_plan hplan).taken s) (shaped_plan hslug h.shaped hplan) ?_ _
      rw [hpages]
      exact (havoid plan hplan).1
  | _ => exact h.of_pages hkeyed (hold (by simp))

/-- A step without clash writes no file of another page. -/
theorem keepsFiles_apply (hslug : ∀ n s, '/' ∉ (env.slugify n s).toList) (h : w.Filed)
    {op : Operation} (havoid : AvoidsClash env w op) : KeepsFiles env w op (w.apply env op) := by
  intro p hp hother
  have hpath : ∀ page ∈ w.pages, page.filePath = p.filePath → page.id = p.id :=
    fun page hpage heq ↦ h.distinctPaths page hpage p hp heq
  cases op with
  | save s commits =>
    obtain ⟨hpages, _, hfiles⟩ := taken_pages w s
    have hsame : (w.taken s).fileAt p.filePath = w.fileAt p.filePath := by
      unfold WikiState.fileAt
      rw [hfiles]
    unfold WikiState.apply
    dsimp only
    split
    · exact hsame
    · next plan hplan =>
      have hfits := fits_plan hplan
      have hne : ∀ e ∈ plan.existing, p.id ≠ e.id := by
        intro e he heq
        apply hother
        show (w.plan env s).bind _ = some p.id
        rw [hplan, heq]
        exact congrArg (Option.map Page.id) he
      obtain ⟨hclash, hfree⟩ := havoid plan hplan
      rcases fileAt_perform (w.taken s) plan commits p.filePath with
        hkept | ⟨heq, _⟩ | ⟨_, _, e, he, heq⟩
      · exact hkept.trans hsame
      · rcases slug_or_clash (h.shaped p hp) (shaped_plan hslug h.shaped hplan) heq with
          hslugs | hbad | hbad
        · cases hexisting : plan.existing with
          | some e =>
            obtain ⟨he, _, heslug⟩ := hfits.existing e hexisting
            have hsame := Rows.eq_of_nodup h.keyed.nodup_slug he hp (hslugs.trans heslug)
            exact absurd (congrArg Page.id hsame) (hne e hexisting)
          | none =>
            cases hfirst : plan.rowFirst with
            | false =>
              cases hback : s.isFileBack with
              | true => exact absurd hslugs (hfree hback hexisting p hp)
              | false => exact absurd hslugs (slug_ne_plan hplan hback hexisting hfirst p hp)
            | true =>
              rw [perform_of_taken hexisting hfirst ⟨p, hpages.symm ▸ hp, hslugs⟩]
              exact hsame
        · exact absurd hbad (hclash p hp hne).2
        · exact absurd hbad (hclash p hp hne).1
      · exact absurd (hpath e (hfits.existing e he).1 heq).symm (hne e he)
  | edit articleId text =>
    rcases edit_files w articleId text p.filePath with hsame | ⟨_, page, hpage, rfl, heq⟩
    · exact hsame
    · exact absurd (congrArg some (hpath page hpage heq)) hother
  | recompile articleId mode =>
    show (w.requestRecompile articleId mode).fileAt p.filePath = _
    unfold WikiState.fileAt
    rw [(requestRecompile_pages w articleId mode).2.2]
  | lintRecompile articleId => rfl
  | guidanceRecompile articleId => rfl
  | sweep articleId text =>
    rcases sweep_files w articleId text p.filePath with hsame | ⟨_, page, hpage, rfl, heq⟩
    · exact hsame
    · exact absurd (congrArg some (hpath page hpage heq)) hother

end Step

/-- In a run whose saves avoid clashes, distinct articles have distinct paths in every state,
and no step writes the file of another article. -/
theorem wiki_distinctPaths {env : TextEnv} {w : WikiState} {ops : List Operation}
    (hslug : ∀ n s, '/' ∉ (env.slugify n s).toList) (hfiled : w.Filed)
    (hops : (wiki env).Guarded (AvoidsClash env) w ops) :
    (wiki env).Always DistinctPaths w ops ∧ (wiki env).Steps (KeepsFiles env) w ops := by
  constructor
  · refine Machine.Always.mono _ (fun w h ↦ WikiState.Filed.distinctPaths h)
      ((wiki env).always_of_guarded ?_ hfiled hops)
    intro w op w' h havoid hstep
    cases hstep
    exact h.apply hslug havoid
  · refine (wiki env).steps_of_guarded (I := WikiState.Filed) ?_ hfiled hops
    intro w op w' h havoid hstep
    cases hstep
    exact ⟨h.apply hslug havoid, keepsFiles_apply hslug h havoid⟩

/-- A slugifier for lower-case words: it drops slashes. -/
def slugEnv : TextEnv :=
  ⟨fun _ s ↦ String.ofList (s.toList.filter (· ≠ '/')), id, id, id, 3⟩

/-- One source, one concept and one conversation, and no page. -/
def emptyWiki : WikiState :=
  { pages := [], nextId := 0, files := [], sources := ["s"], concepts := ["ai"]
    conversations := [⟨"c", none, none⟩], jobs := [] }

/-- A source page with another title than its concept, the concept page, a stub, a file-back
and a crystallization. -/
theorem wiki_distinctPaths_all_kinds :
    (wiki slugEnv).Always DistinctPaths emptyWiki
      [.save (.compile "s" (some .anthropic) ⟨"title", ["ai"], "text"⟩) true,
        .save (.conceptPage "ai" (some .anthropic) "text") true, .save (.stub "title" "") true,
        .save (.fileBack "c" "text") true, .save (.crystallize "c" "title" "text") true] ∧
    (wiki slugEnv).Steps (KeepsFiles slugEnv) emptyWiki
      [.save (.compile "s" (some .anthropic) ⟨"title", ["ai"], "text"⟩) true,
        .save (.conceptPage "ai" (some .anthropic) "text") true, .save (.stub "title" "") true,
        .save (.fileBack "c" "text") true, .save (.crystallize "c" "title" "text") true] := by
  apply wiki_distinctPaths
  · intro n s
    simp [slugEnv]
  · refine ⟨⟨List.nodup_nil, ?_, List.nodup_nil⟩, ?_, ?_⟩ <;> intro p hp <;> cases hp
  · decide +kernel

/-- A source page named as its concept and the page of the concept get one path, and the
second overwrites the first; a stub named `stubs` and a concept page do too. A file-back
overwrites a page that has its identifier for a slug, and then fails. -/
theorem wiki_shared_paths :
    (¬ (wiki slugEnv).Always DistinctPaths emptyWiki
      [.save (.compile "s" (some .anthropic) ⟨"ai", ["ai"], "text"⟩) true,
        .save (.conceptPage "ai" (some .anthropic) "page") true]) ∧
    (¬ (wiki slugEnv).Steps (KeepsFiles slugEnv) emptyWiki
      [.save (.compile "s" (some .anthropic) ⟨"ai", ["ai"], "text"⟩) true,
        .save (.conceptPage "ai" (some .anthropic) "page") true]) ∧
    (¬ (wiki slugEnv).Always DistinctPaths { emptyWiki with concepts := ["stubs"] }
      [.save (.conceptPage "stubs" (some .anthropic) "page") true,
        .save (.stub "stubs" "") true]) ∧
    (¬ (wiki slugEnv).Steps (KeepsFiles slugEnv) emptyWiki
      [.save (.compile "s" (some .anthropic) ⟨"c", ["qa-answers"], "text"⟩) true,
        .save (.fileBack "c" "text") true]) := by
  decide +kernel

end WikiMind.Wiki
