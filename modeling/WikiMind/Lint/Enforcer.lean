import WikiMind.Wiki.Recompile

/-!
# The backlink enforcer

`run_enforcer_checks` (`engine/linter/runner.py:59`) takes the articles of a user one after
another. `enforce_backlinks` (`engine/backlink_enforcer.py:94`) reports source pages without
concepts and concept pages with too few synthesis links, and creates the missing inverses of
the symmetric links from and to the article. Links are keyed by their two articles, whatever
their type. Scores, log lines and the other fields of a link are left out.
-/

namespace WikiMind.Lint

open WikiMind.Base
open WikiMind.Compile (ArticleConcept Backlink)
open WikiMind.Wiki.Recompile (Article)

/-- The key of a link: `models/tables/wiki.py:164`. -/
abbrev linkKey (b : Backlink) : Nat × Nat := (b.sourceArticleId, b.targetArticleId)

/-- The tables the enforcer reads and writes. -/
structure Tables where
  articles : List Article
  articleConcepts : List ArticleConcept
  backlinks : List Backlink
  nodup_id : (articles.map (·.id)).Nodup
  nodup_key : (backlinks.map linkKey).Nodup

/-- The kinds of violations. -/
inductive ViolationType where
  | sourceNoConcepts | conceptInsufficientSynthesizes | missingInverseLink
  deriving DecidableEq, Repr

/-- The text of a kind. -/
def ViolationType.value : ViolationType → String
  | .sourceNoConcepts => "source_no_concepts"
  | .conceptInsufficientSynthesizes => "concept_insufficient_synthesizes"
  | .missingInverseLink => "missing_inverse_link"

/-- A violation: `engine/backlink_enforcer.py:36`. -/
structure EnforcerViolation where
  articleId : Nat
  articleTitle : String
  violationType : ViolationType
  detail : String
  autoRepaired : Bool
  deriving DecidableEq, Repr

/-- The result for an article: `engine/backlink_enforcer.py:47`. -/
structure EnforcerResult where
  violations : List EnforcerViolation
  warnings : List String

/-- A result with one more violation and its warning. -/
def EnforcerResult.add (r : EnforcerResult) (v : EnforcerViolation) : EnforcerResult :=
  ⟨r.violations ++ [v], r.warnings ++ [v.detail]⟩

/-- `_SYMMETRIC_TYPES`: `engine/backlink_enforcer.py:33`. -/
def symmetricTypes : List String := ["contradicts", "related_to"]

/-- The link in the other direction: `engine/backlink_enforcer.py:74–80`. -/
def inverse (b : Backlink) : Backlink :=
  { sourceArticleId := b.targetArticleId
    targetArticleId := b.sourceArticleId
    relationType := b.relationType
    context := b.context
    userId := b.userId }

/-- The first link goes from the target of the second to its source. -/
def Reverses (m l : Backlink) : Prop :=
  m.sourceArticleId = l.targetArticleId ∧ m.targetArticleId = l.sourceArticleId

instance (m l : Backlink) : Decidable (Reverses m l) := inferInstanceAs (Decidable (_ ∧ _))

private theorem nodup_key_append {t : Tables} {bl : Backlink}
    (h : ¬ ∃ m ∈ t.backlinks, Reverses m bl) :
    ((t.backlinks ++ [inverse bl]).map linkKey).Nodup := by
  rw [Rows.nodup_map_concat]
  exact ⟨t.nodup_key, fun m hm heq ↦ h ⟨m, hm, Prod.ext_iff.mp heq⟩⟩

/-- `ensure_bidirectional`: `engine/backlink_enforcer.py:54`. -/
def ensureBidirectional (t : Tables) (bl : Backlink) : Bool × Tables :=
  if bl.relationType ∉ symmetricTypes then (false, t)
  else if h : ∃ m ∈ t.backlinks, Reverses m bl then (false, t)
  else
    (true, { t with
      backlinks := t.backlinks ++ [inverse bl]
      nodup_key := nodup_key_append h })

/-- The concepts of an article, from the join table or else from its own column:
`engine/backlink_enforcer.py:120–125`. -/
def conceptNames (t : Tables) (article : Article) : List String :=
  match (t.articleConcepts.filter (·.articleId = article.id)).map (·.conceptName) with
  | [] => article.conceptIds
  | names => names

/-- The first check: `engine/backlink_enforcer.py:118`. -/
def checkConcepts (t : Tables) (article : Article) (r : EnforcerResult) : EnforcerResult :=
  if article.pageType = .source ∧ conceptNames t article = [] then
    r.add ⟨article.id, article.title, .sourceNoConcepts,
      "Source page '" ++ article.title ++ "' has no concepts in concept_ids", false⟩
  else r

/-- The number of synthesis links of an article. -/
def synthCount (t : Tables) (articleId : Nat) : Nat :=
  t.backlinks.countP fun b ↦ b.sourceArticleId = articleId ∧ b.relationType = "synthesizes"

/-- The second check: `engine/backlink_enforcer.py:140`. -/
def checkSynthesizes (t : Tables) (article : Article) (r : EnforcerResult) : EnforcerResult :=
  let count := synthCount t article.id
  if article.pageType = .concept ∧ count < 2 then
    r.add ⟨article.id, article.title, .conceptInsufficientSynthesizes,
      "Concept page '" ++ article.title ++ "' has " ++ toString count ++
        " synthesizes links (need >= 2)", false⟩
  else r

/-- The violation reported for an inverse that was created. -/
def inverseViolation (article : Article) (bl : Backlink) : EnforcerViolation :=
  ⟨article.id, article.title, .missingInverseLink,
    "Missing inverse link created: " ++ toString bl.sourceArticleId ++ " <-> " ++
      toString bl.targetArticleId ++ " (" ++ bl.relationType ++ ")", true⟩

/-- One round of the third check: `engine/backlink_enforcer.py:168–186`. -/
def checkLink (article : Article) (s : EnforcerResult × Tables) (bl : Backlink) :
    EnforcerResult × Tables :=
  match ensureBidirectional s.2 bl with
  | (true, t) => (s.1.add (inverseViolation article bl), t)
  | (false, t) => (s.1, t)

/-- The links from and then those to an article. -/
def linksOf (t : Tables) (articleId : Nat) : List Backlink :=
  t.backlinks.filter (·.sourceArticleId = articleId) ++
    t.backlinks.filter (·.targetArticleId = articleId)

/-- `enforce_backlinks`: `engine/backlink_enforcer.py:94`. -/
def enforceBacklinks (t : Tables) (articleId : Nat) : EnforcerResult × Tables :=
  match t.articles.find? (·.id = articleId) with
  | none => (⟨[], ["Article " ++ toString articleId ++ " not found"]⟩, t)
  | some article =>
    (linksOf t articleId).foldl (checkLink article)
      (checkSynthesizes t article (checkConcepts t article ⟨[], []⟩), t)

/-- A finding of the linter: `models/tables/lint.py:74`. -/
structure StructuralFinding where
  reportId : String
  severity : String
  description : String
  contentHash : String
  articleId : Nat
  violationType : ViolationType
  autoRepaired : Bool
  detail : String
  userId : String
  deriving DecidableEq, Repr

/-- `_structural_content_hash`: `engine/linter/runner.py:53`. -/
def structuralContentHash (sha256 : String → String) (articleId : Nat) (v : ViolationType) :
    String :=
  sha256 ("structural|" ++ toString articleId ++ "|" ++ v.value)

/-- The finding for a violation: `engine/linter/runner.py:85–95`. -/
def finding (sha256 : String → String) (reportId userId : String) (v : EnforcerViolation) :
    StructuralFinding :=
  { reportId, userId
    severity := "warn"
    description := v.detail
    contentHash := structuralContentHash sha256 v.articleId v.violationType
    articleId := v.articleId
    violationType := v.violationType
    autoRepaired := v.autoRepaired
    detail := v.detail }

/-- What a run leaves: the tables, the findings and the number of checked articles. -/
structure Run where
  tables : Tables
  findings : List StructuralFinding
  checkedArticles : Nat

/-- One round of `run_enforcer_checks`. -/
def enforceOne (sha256 : String → String) (reportId userId : String) (r : Run)
    (article : Article) : Run :=
  let (result, tables) := enforceBacklinks r.tables article.id
  ⟨tables, r.findings ++ result.violations.map (finding sha256 reportId userId),
    r.checkedArticles + 1⟩

/-- `run_enforcer_checks`: `engine/linter/runner.py:59`. -/
def runEnforcerChecks (sha256 : String → String) (t : Tables) (reportId userId : String) : Run :=
  (t.articles.filter (·.userId = userId)).foldl (enforceOne sha256 reportId userId) ⟨t, [], 0⟩

section Extends

variable {t t' t'' : Tables} {bl : Backlink}

/-- The second tables have, besides the links of the first, only missing inverses of symmetric
ones. -/
structure Extends (t t' : Tables) : Prop where
  articles : t'.articles = t.articles
  articleConcepts : t'.articleConcepts = t.articleConcepts
  backlinks : ∃ new, t'.backlinks = t.backlinks ++ new ∧
    ∀ m ∈ new, ∃ bl ∈ t.backlinks, bl.relationType ∈ symmetricTypes ∧ m = inverse bl ∧
      ∀ b ∈ t.backlinks, ¬ Reverses b bl

private theorem reverses_inverse (bl : Backlink) : Reverses (inverse bl) bl := ⟨rfl, rfl⟩

private theorem reverses_of_inverse (bl : Backlink) : Reverses bl (inverse bl) := ⟨rfl, rfl⟩

theorem Extends.refl (t : Tables) : Extends t t :=
  ⟨rfl, rfl, [], (List.append_nil _).symm, fun _ h ↦ nomatch h⟩

/-- No link is removed. -/
theorem Extends.mem (h : Extends t t') {l : Backlink} (hl : l ∈ t.backlinks) :
    l ∈ t'.backlinks := by
  obtain ⟨new, hnew, _⟩ := h.backlinks
  rw [hnew]
  exact List.mem_append_left new hl

theorem Extends.trans (h : Extends t t') (h' : Extends t' t'') : Extends t t'' := by
  obtain ⟨new, hnew, horigin⟩ := h.backlinks
  obtain ⟨new', hnew', horigin'⟩ := h'.backlinks
  refine ⟨h'.articles.trans h.articles, h'.articleConcepts.trans h.articleConcepts, new ++ new',
    by rw [hnew', hnew, List.append_assoc], ?_⟩
  intro m hm
  rcases List.mem_append.mp hm with hm | hm
  · exact horigin m hm
  · obtain ⟨bl, hbl, hsym, rfl, hfree⟩ := horigin' m hm
    rw [hnew] at hbl
    rcases List.mem_append.mp hbl with hbl | hbl
    · exact ⟨bl, hbl, hsym, rfl, fun b hb ↦ hfree b (h.mem hb)⟩
    · -- A created link has its inverse already.
      obtain ⟨old, hold, _, rfl, _⟩ := horigin bl hbl
      exact absurd (reverses_of_inverse old) (hfree old (h.mem hold))

/-- The two outcomes for a link. -/
theorem ensureBidirectional_cases (t : Tables) (bl : Backlink) :
    ((bl.relationType ∈ symmetricTypes → ∃ m ∈ t.backlinks, Reverses m bl) ∧
        ensureBidirectional t bl = (false, t)) ∨
      (bl.relationType ∈ symmetricTypes ∧ (∀ m ∈ t.backlinks, ¬ Reverses m bl) ∧
        (ensureBidirectional t bl).1 = true ∧
        (ensureBidirectional t bl).2.articles = t.articles ∧
        (ensureBidirectional t bl).2.articleConcepts = t.articleConcepts ∧
        (ensureBidirectional t bl).2.backlinks = t.backlinks ++ [inverse bl]) := by
  unfold ensureBidirectional
  split
  · next hsym => exact .inl ⟨fun h ↦ absurd h hsym, rfl⟩
  · next hsym =>
    split
    · next hrev => exact .inl ⟨fun _ ↦ hrev, rfl⟩
    · next hrev =>
      refine .inr ⟨not_not.mp hsym, fun m hm h ↦ hrev ⟨m, hm, h⟩, rfl, rfl, rfl, rfl⟩

/-- A link of the tables is given at most its inverse. -/
theorem ensureBidirectional_extends (hbl : bl ∈ t.backlinks) :
    Extends t (ensureBidirectional t bl).2 := by
  rcases ensureBidirectional_cases t bl with ⟨_, heq⟩ |
    ⟨hsym, hfree, _, harticles, hconcepts, hlinks⟩
  · rw [heq]
    exact Extends.refl t
  · refine ⟨harticles, hconcepts, [inverse bl], hlinks, fun m hm ↦ ?_⟩
    exact ⟨bl, hbl, hsym, List.mem_singleton.mp hm, hfree⟩

/-- A symmetric link has a link back afterwards. -/
theorem ensureBidirectional_reverses (hsym : bl.relationType ∈ symmetricTypes) :
    ∃ m ∈ (ensureBidirectional t bl).2.backlinks, Reverses m bl := by
  rcases ensureBidirectional_cases t bl with ⟨hrev, heq⟩ | ⟨_, _, _, _, _, hlinks⟩
  · rw [heq]
    exact hrev hsym
  · rw [hlinks]
    exact ⟨inverse bl, List.mem_append_right _ (List.mem_singleton_self _), reverses_inverse bl⟩

end Extends

section Checks

variable {t t' : Tables} {article : Article}

/-- The result of the checks that repair nothing. -/
def statics (t : Tables) (article : Article) : EnforcerResult :=
  checkSynthesizes t article (checkConcepts t article ⟨[], []⟩)

/-- Violations that were not repaired. -/
def unrepaired (r : EnforcerResult) : List EnforcerViolation :=
  r.violations.filter (! ·.autoRepaired)

@[simp] theorem unrepaired_add (r : EnforcerResult) (v : EnforcerViolation) :
    unrepaired (r.add v) = unrepaired r ++ if v.autoRepaired then [] else [v] := by
  unfold unrepaired EnforcerResult.add
  rw [List.filter_append]
  cases h : v.autoRepaired <;> simp [h]

/-- Inverses of symmetric links are no synthesis links. -/
theorem synthCount_extends (h : Extends t t') (articleId : Nat) :
    synthCount t' articleId = synthCount t articleId := by
  obtain ⟨new, hnew, horigin⟩ := h.backlinks
  unfold synthCount
  rw [hnew, List.countP_append, Nat.add_eq_left, List.countP_eq_zero]
  intro m hm
  obtain ⟨bl, _, hsym, rfl, _⟩ := horigin m hm
  have hne : bl.relationType ≠ "synthesizes" := by
    intro heq
    rw [heq] at hsym
    exact absurd hsym (by decide)
  simp [inverse, hne]

/-- The first two checks do not see created inverses. -/
theorem statics_extends (h : Extends t t') (article : Article) :
    statics t' article = statics t article := by
  have hnames : conceptNames t' article = conceptNames t article := by
    unfold conceptNames
    rw [h.articleConcepts]
  unfold statics checkSynthesizes checkConcepts
  rw [hnames, synthCount_extends h]

/-- The first two checks repair nothing. -/
theorem unrepaired_statics (t : Tables) (article : Article) :
    unrepaired (statics t article) = (statics t article).violations := by
  unfold statics checkSynthesizes checkConcepts
  dsimp only
  split <;> split <;> rfl

/-- A round of the third check extends the tables and adds repaired violations alone. -/
theorem checkLink_spec (article : Article) {s : EnforcerResult × Tables} {bl : Backlink}
    (hbl : bl ∈ s.2.backlinks) :
    Extends s.2 (checkLink article s bl).2 ∧
      unrepaired (checkLink article s bl).1 = unrepaired s.1 ∧
      (bl.relationType ∈ symmetricTypes →
        ∃ m ∈ (checkLink article s bl).2.backlinks, Reverses m bl) := by
  have hextends := ensureBidirectional_extends hbl
  have hreverses := @ensureBidirectional_reverses s.2 bl
  unfold checkLink
  cases h : ensureBidirectional s.2 bl with
  | mk created t =>
    rw [h] at hextends hreverses
    cases created with
    | false => exact ⟨hextends, rfl, hreverses⟩
    | true => exact ⟨hextends, by simp [inverseViolation], hreverses⟩

/-- The third check extends the tables and gives every link of the list a link back. -/
theorem checkLinks_spec (article : Article) {links : List Backlink} {s : EnforcerResult × Tables}
    (hlinks : ∀ l ∈ links, l ∈ s.2.backlinks) :
    Extends s.2 (links.foldl (checkLink article) s).2 ∧
      unrepaired (links.foldl (checkLink article) s).1 = unrepaired s.1 ∧
      ∀ l ∈ links, l.relationType ∈ symmetricTypes →
        ∃ m ∈ (links.foldl (checkLink article) s).2.backlinks, Reverses m l := by
  induction links generalizing s with
  | nil => exact ⟨Extends.refl _, rfl, fun _ h ↦ nomatch h⟩
  | cons l links ih =>
    obtain ⟨hl, hrest⟩ := List.forall_mem_cons.mp hlinks
    obtain ⟨hextends, hkept, hrev⟩ := checkLink_spec article hl
    obtain ⟨hextends', hkept', hrev'⟩ := ih fun x hx ↦ hextends.mem (hrest x hx)
    refine ⟨hextends.trans hextends', hkept'.trans hkept, ?_⟩
    intro x hx hsym
    rcases List.mem_cons.mp hx with rfl | hx
    · obtain ⟨m, hm, hmx⟩ := hrev hsym
      exact ⟨m, hextends'.mem hm, hmx⟩
    · exact hrev' x hx hsym

/-- Where all symmetric links of the list have a link back, the third check does nothing. -/
theorem checkLinks_eq_self {links : List Backlink} {s : EnforcerResult × Tables}
    (h : ∀ l ∈ links, l.relationType ∈ symmetricTypes → ∃ m ∈ s.2.backlinks, Reverses m l) :
    links.foldl (checkLink article) s = s := by
  induction links with
  | nil => rfl
  | cons l links ih =>
    obtain ⟨hl, hrest⟩ := List.forall_mem_cons.mp h
    have hself : checkLink article s l = s := by
      rcases ensureBidirectional_cases s.2 l with ⟨_, heq⟩ | ⟨hsym, hfree, _⟩
      · unfold checkLink
        rw [heq]
      · obtain ⟨m, hm, hml⟩ := hl hsym
        exact absurd hml (hfree m hm)
    rw [List.foldl_cons, hself]
    exact ih hrest

end Checks

section Runs

variable {sha256 : String → String} {t t' : Tables} {reportId userId : String}

/-- The symmetric links from and to an article have a link back. -/
def Healed (t : Tables) (articleId : Nat) : Prop :=
  ∀ l ∈ t.backlinks, l.sourceArticleId = articleId ∨ l.targetArticleId = articleId →
    l.relationType ∈ symmetricTypes → ∃ m ∈ t.backlinks, Reverses m l

private theorem mem_linksOf {articleId : Nat} {l : Backlink} :
    l ∈ linksOf t articleId ↔
      l ∈ t.backlinks ∧ (l.sourceArticleId = articleId ∨ l.targetArticleId = articleId) := by
  simp [linksOf, and_or_left]

/-- A created link has its inverse, so an article stays healed. -/
theorem healed_extends (h : Extends t t') {articleId : Nat}
    (hold : ∀ l ∈ t.backlinks, l.sourceArticleId = articleId ∨ l.targetArticleId = articleId →
      l.relationType ∈ symmetricTypes → ∃ m ∈ t'.backlinks, Reverses m l) :
    Healed t' articleId := by
  intro l hl hend hsym
  obtain ⟨new, hnew, horigin⟩ := h.backlinks
  rw [hnew] at hl
  rcases List.mem_append.mp hl with hl | hl
  · exact hold l hl hend hsym
  · obtain ⟨bl, hbl, _, rfl, _⟩ := horigin l hl
    exact ⟨bl, h.mem hbl, reverses_of_inverse bl⟩

theorem Healed.extends {articleId : Nat} (hheal : Healed t articleId) (h : Extends t t') :
    Healed t' articleId := by
  apply healed_extends h
  intro l hl hend hsym
  obtain ⟨m, hm, hml⟩ := hheal l hl hend hsym
  exact ⟨m, h.mem hm, hml⟩

/-- The pass of an article heals it and reports what the first two checks find. -/
theorem enforceBacklinks_spec {article : Article} (hmem : article ∈ t.articles) :
    Extends t (enforceBacklinks t article.id).2 ∧
      Healed (enforceBacklinks t article.id).2 article.id ∧
      unrepaired (enforceBacklinks t article.id).1 = (statics t article).violations := by
  have hfind : t.articles.find? (·.id = article.id) = some article :=
    Rows.find?_of_nodup t.nodup_id hmem
  have heq : enforceBacklinks t article.id =
      (linksOf t article.id).foldl (checkLink article) (statics t article, t) := by
    unfold enforceBacklinks
    rw [hfind]
    rfl
  obtain ⟨hextends, hkept, hrev⟩ := checkLinks_spec article
    (s := (statics t article, t)) fun l hl ↦ (mem_linksOf.mp hl).1
  rw [heq]
  refine ⟨hextends, healed_extends hextends fun l hl hend hsym ↦ ?_,
    hkept.trans (unrepaired_statics t article)⟩
  exact hrev l (mem_linksOf.mpr ⟨hl, hend⟩) hsym

/-- The pass of a healed article changes nothing and reports no repair. -/
theorem enforceBacklinks_healed {article : Article} (hmem : article ∈ t.articles)
    (h : Healed t article.id) : enforceBacklinks t article.id = (statics t article, t) := by
  have hfind : t.articles.find? (·.id = article.id) = some article :=
    Rows.find?_of_nodup t.nodup_id hmem
  unfold enforceBacklinks
  rw [hfind]
  apply checkLinks_eq_self
  intro l hl hsym
  obtain ⟨hl, hend⟩ := mem_linksOf.mp hl
  exact h l hl hend hsym

/-- The findings of the first two checks for a list of articles. -/
def staticFindings (sha256 : String → String) (t : Tables) (reportId userId : String)
    (articles : List Article) : List StructuralFinding :=
  articles.flatMap fun a ↦ (statics t a).violations.map (finding sha256 reportId userId)

private theorem staticFindings_extends (h : Extends t t') (articles : List Article) :
    staticFindings sha256 t' reportId userId articles =
      staticFindings sha256 t reportId userId articles := by
  unfold staticFindings
  simp only [statics_extends h]

private theorem filter_findings (r : EnforcerResult) :
    (r.violations.map (finding sha256 reportId userId)).filter (! ·.autoRepaired) =
      (unrepaired r).map (finding sha256 reportId userId) := by
  rw [List.filter_map]
  rfl

private theorem enforceOne_eq (r : Run) (a : Article) :
    enforceOne sha256 reportId userId r a =
      ⟨(enforceBacklinks r.tables a.id).2, r.findings ++
        (enforceBacklinks r.tables a.id).1.violations.map (finding sha256 reportId userId),
        r.checkedArticles + 1⟩ := rfl

/-- A run over a list of articles extends the tables, heals the articles and reports, besides
repairs, what the first two checks find. -/
theorem run_spec (sha256 : String → String) (reportId userId : String) {articles : List Article}
    {r : Run} (hmem : ∀ a ∈ articles, a ∈ r.tables.articles) :
    Extends r.tables (articles.foldl (enforceOne sha256 reportId userId) r).tables ∧
      (∀ a ∈ articles,
        Healed (articles.foldl (enforceOne sha256 reportId userId) r).tables a.id) ∧
      (articles.foldl (enforceOne sha256 reportId userId) r).findings.filter (! ·.autoRepaired) =
        r.findings.filter (! ·.autoRepaired) ++
          staticFindings sha256 r.tables reportId userId articles := by
  induction articles generalizing r with
  | nil => exact ⟨Extends.refl _, (fun _ h ↦ nomatch h), by simp [staticFindings]⟩
  | cons a articles ih =>
    obtain ⟨ha, hrest⟩ := List.forall_mem_cons.mp hmem
    obtain ⟨hextends, hheal, hunrepaired⟩ := enforceBacklinks_spec ha
    have hrest' : ∀ x ∈ articles,
        x ∈ (enforceOne sha256 reportId userId r a).tables.articles := by
      intro x hx
      show x ∈ (enforceBacklinks r.tables a.id).2.articles
      rw [hextends.articles]
      exact hrest x hx
    obtain ⟨hextends', hheal', hfindings'⟩ := ih hrest'
    refine ⟨hextends.trans hextends', ?_, ?_⟩
    · intro x hx
      rcases List.mem_cons.mp hx with rfl | hx
      · exact hheal.extends hextends'
      · exact hheal' x hx
    · rw [List.foldl_cons, hfindings', enforceOne_eq, List.filter_append, filter_findings,
        hunrepaired, staticFindings_extends hextends, List.append_assoc]
      rfl

/-- A run over healed articles changes no table and reports what the first two checks find. -/
theorem run_healed {articles : List Article} {r : Run}
    (hmem : ∀ a ∈ articles, a ∈ r.tables.articles)
    (hheal : ∀ a ∈ articles, Healed r.tables a.id) :
    articles.foldl (enforceOne sha256 reportId userId) r =
      ⟨r.tables, r.findings ++ staticFindings sha256 r.tables reportId userId articles,
        r.checkedArticles + articles.length⟩ := by
  induction articles generalizing r with
  | nil => simp [staticFindings]
  | cons a articles ih =>
    obtain ⟨ha, hrest⟩ := List.forall_mem_cons.mp hmem
    obtain ⟨hhead, htail⟩ := List.forall_mem_cons.mp hheal
    have hone : enforceOne sha256 reportId userId r a =
        ⟨r.tables, r.findings ++ (statics r.tables a).violations.map
          (finding sha256 reportId userId), r.checkedArticles + 1⟩ := by
      rw [enforceOne_eq, enforceBacklinks_healed ha hhead]
    rw [List.foldl_cons, hone, ih]
    · simp [staticFindings, Nat.add_assoc, Nat.add_comm 1]
    · exact hrest
    · exact htail

/-- The article belongs to the user. -/
def Tables.owns (t : Tables) (userId : String) (articleId : Nat) : Prop :=
  ∃ a ∈ t.articles, a.userId = userId ∧ a.id = articleId

/-- The articles of a user are articles. -/
private theorem mem_ofUser (t : Tables) (userId : String) :
    ∀ a ∈ t.articles.filter (·.userId = userId), a ∈ t.articles :=
  fun _ ha ↦ (List.mem_filter.mp ha).1

/-- After a run the tables are extended and the articles of the user are healed. -/
theorem runEnforcerChecks_spec (sha256 : String → String) (t : Tables) (reportId userId : String) :
    Extends t (runEnforcerChecks sha256 t reportId userId).tables ∧
      (∀ articleId, t.owns userId articleId →
        Healed (runEnforcerChecks sha256 t reportId userId).tables articleId) ∧
      (runEnforcerChecks sha256 t reportId userId).findings.filter (! ·.autoRepaired) =
        staticFindings sha256 t reportId userId (t.articles.filter (·.userId = userId)) := by
  obtain ⟨hextends, hheal, hfindings⟩ :=
    run_spec sha256 reportId userId (r := ⟨t, [], 0⟩) (mem_ofUser t userId)
  refine ⟨hextends, ?_, hfindings⟩
  rintro articleId ⟨a, ha, huser, rfl⟩
  exact hheal a (List.mem_filter.mpr ⟨ha, by simpa using huser⟩)

/-- After a run every symmetric link from or to an article of the user has one of its type
back, unless the pair back held a link of another type before. A second run creates nothing
and reports exactly what the first has reported and not repaired. -/
theorem enforcer_heals (sha256 : String → String) (t : Tables)
    (reportId reportId' userId : String) :
    (∀ l ∈ (runEnforcerChecks sha256 t reportId userId).tables.backlinks,
      l.relationType ∈ symmetricTypes →
      t.owns userId l.sourceArticleId ∨ t.owns userId l.targetArticleId →
      (∀ b ∈ t.backlinks, Reverses b l → b.relationType = l.relationType) →
        ∃ m ∈ (runEnforcerChecks sha256 t reportId userId).tables.backlinks,
          Reverses m l ∧ m.relationType = l.relationType) ∧
      (runEnforcerChecks sha256 (runEnforcerChecks sha256 t reportId userId).tables reportId'
        userId).tables = (runEnforcerChecks sha256 t reportId userId).tables ∧
      (runEnforcerChecks sha256 (runEnforcerChecks sha256 t reportId userId).tables reportId'
        userId).findings =
        ((runEnforcerChecks sha256 t reportId userId).findings.filter (! ·.autoRepaired)).map
          fun f ↦ { f with reportId := reportId' } := by
  obtain ⟨hextends, hheal, hfindings⟩ := runEnforcerChecks_spec sha256 t reportId userId
  generalize runEnforcerChecks sha256 t reportId userId = first at hextends hheal hfindings
  refine ⟨?_, ?_⟩
  · intro l hl hsym howner hfree
    obtain ⟨m, hm, hml⟩ : ∃ m ∈ first.tables.backlinks, Reverses m l := by
      rcases howner with howner | howner
      · exact hheal _ howner l hl (.inl rfl) hsym
      · exact hheal _ howner l hl (.inr rfl) hsym
    refine ⟨m, hm, hml, ?_⟩
    obtain ⟨new, hnew, horigin⟩ := hextends.backlinks
    rw [hnew] at hm
    rcases List.mem_append.mp hm with hm | hm
    · exact hfree m hm hml
    · -- The link back was created for the link itself, since keys are unique.
      obtain ⟨bl, hbl, _, rfl, _⟩ := horigin m hm
      have hkey : linkKey l = linkKey bl := Prod.ext hml.2.symm hml.1.symm
      rw [Rows.eq_of_nodup first.tables.nodup_key (hextends.mem hbl) hl hkey]
      rfl
  · have hsecond : runEnforcerChecks sha256 first.tables reportId' userId =
        ⟨first.tables, staticFindings sha256 first.tables reportId' userId
          (t.articles.filter (·.userId = userId)),
          0 + (t.articles.filter (·.userId = userId)).length⟩ := by
      unfold runEnforcerChecks
      rw [hextends.articles, run_healed]
      · rfl
      · intro a ha
        rw [hextends.articles]
        exact mem_ofUser t userId a ha
      · intro a ha
        obtain ⟨ha, huser⟩ := List.mem_filter.mp ha
        exact hheal a.id ⟨a, ha, of_decide_eq_true huser, rfl⟩
    rw [hsecond, hfindings]
    refine ⟨rfl, ?_⟩
    rw [staticFindings_extends hextends]
    unfold staticFindings
    rw [List.map_flatMap]
    simp only [List.map_map]
    rfl

end Runs

section Examples

private def plainPage (id : Nat) (concepts : List String) : Article :=
  { id, userId := "u", slug := "", title := "Page", summary := "", filePath := ""
    conceptIds := concepts, sourceIds := [], provider := none, pageType := .source, updatedAt := 0 }

/-- Two pages that contradict each other in one direction and refer in the other. -/
def mixedPair : Tables where
  articles := [plainPage 1 ["ai"], plainPage 2 ["ai"]]
  articleConcepts := []
  backlinks := [⟨1, 2, "u", "", "contradicts"⟩, ⟨2, 1, "u", "", "references"⟩]
  nodup_id := by decide
  nodup_key := by decide

/-- A page without concepts. -/
def barePage : Tables where
  articles := [plainPage 1 []]
  articleConcepts := []
  backlinks := []
  nodup_id := by decide
  nodup_key := by decide

/-- A link of another type stands in the way of an inverse, and a page without concepts is
reported by every run. -/
theorem enforcer_not_closed :
    (¬ ∀ l ∈ (runEnforcerChecks id mixedPair "r" "u").tables.backlinks,
      l.relationType ∈ symmetricTypes →
        ∃ m ∈ (runEnforcerChecks id mixedPair "r" "u").tables.backlinks,
          Reverses m l ∧ m.relationType = l.relationType) ∧
      (runEnforcerChecks id (runEnforcerChecks id barePage "r" "u").tables "s" "u").findings ≠
        [] := by
  decide +kernel

end Examples

end WikiMind.Lint
