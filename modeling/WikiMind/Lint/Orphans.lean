import WikiMind.Lint.StaleSpans
import WikiMind.Wiki.Graph

/-!
# Articles without links

The linter (`engine/linter/orphans.py`), the health page (`services/wiki_index.py`) and the graph
each count the links of an article, with queries of their own that have no order. The linter and
the graph agree on the articles that have none; the health page, whose numbers do not depend on
the order of rows, agrees with them when links belong to the owner of both of their articles.
-/

namespace WikiMind.Lint.Orphans

open WikiMind.Base WikiMind.Ingest WikiMind.Wiki.Graph
open WikiMind.Export (PageType)
open WikiMind.Lint.StaleSpans (LintSeverity)

/-- `models/tables/lint.py:66`. -/
structure OrphanFinding where
  reportId : String
  severity : LintSeverity
  description : String
  contentHash : String
  articleId : String
  articleTitle : String
  userId : String

section Counting
variable {Score : Type}

/-- `_content_hash`: `engine/linter/orphans.py:30`. -/
def orphanHash (sha256 : List UInt8 → String) (articleId : String) : String :=
  sha256 (utf8 ("orphan|" ++ articleId).toList)

/-- `detect_orphans`: `engine/linter/orphans.py:39`. -/
def detectOrphans (sha256 : List UInt8 → String) (enableOrphanDetection : Bool)
    (order : Rows.Order (Article Score)) (db : Db Score) (reportId userId : String) :
    List OrphanFinding :=
  if !enableOrphanDetection then []
  else
    let rows := order.select (db.articles.filter fun a ↦
      !(db.backlinks.any fun bl ↦ bl.targetArticleId = a.id ∧ bl.userId = userId) &&
      !(db.backlinks.any fun bl ↦ bl.sourceArticleId = a.id ∧ bl.userId = userId) &&
      a.userId = userId)
    rows.map fun a ↦
      { reportId, severity := .info
        description := "Article '" ++ a.title ++ "' has no inbound or outbound links"
        contentHash := orphanHash sha256 a.id
        articleId := a.id
        articleTitle := a.title
        userId }

/-- `_fetch_health_data`: the links between articles of the user, whoever they belong to. -/
def healthLinks (db : Db Score) (userId : String) : List Backlink :=
  let ids := (db.articlesOf userId).map (·.id)
  db.backlinks.filter fun bl ↦ bl.sourceArticleId ∈ ids ∧ bl.targetArticleId ∈ ids

/-- The page types in the table of the health page. -/
def listedTypes : List PageType := [.source, .concept, .answer, .index, .metaPage]

/-- The numbers on the health page. -/
structure HealthNumbers where
  typeCounts : List (PageType × Nat)
  total : Nat
  relationCounts : List (String × Nat)
  linkTotal : Nat
  orphanCount : Nat

/-- What `generate_meta_health_page` counts: `services/wiki_index.py:229`. -/
def healthNumbers (db : Db Score) (userId : String) : HealthNumbers :=
  let articles := db.articlesOf userId
  let links := healthLinks db userId
  let typeCounts := listedTypes.map fun pt ↦ (pt, (articles.filter (·.pageType = pt)).length)
  let relationTally := Tally.tally Backlink.relationType (fun _ ↦ 1) (fun _ ↦ true) links
  let relationCounts := ((relationTally.map Prod.fst).mergeSort fun r t ↦ decide (r ≤ t)).map
    fun r ↦ (r, Tally.get relationTally r)
  let linkedIds := ends links
  ⟨typeCounts, (typeCounts.map Prod.snd).sum, relationCounts, (relationCounts.map Prod.snd).sum,
    (articles.filter fun a ↦ a.id ∉ linkedIds).length⟩

/-- `_page_type_label`. -/
def pageTypeLabel : PageType → String
  | .source => "Source"
  | .concept => "Concept"
  | .answer => "Answer"
  | .index => "Index"
  | .metaPage => "Meta"
  | .synthesis => "synthesis"

/-- The text of the page; `generated` and `generatedAt` are the time in its two formats. -/
def metaHealthPage (generated generatedAt : String) (n : HealthNumbers) : String :=
  "---\npage_type: meta\ntitle: Wiki Health\nslug: wiki-health\ngenerated: " ++ generated ++
    "\n---\n\n" ++ "# Wiki Health\n\n" ++ "Generated: " ++ generatedAt ++ "\n\n" ++
    "## Articles by Type\n\n" ++ "| Type | Count |\n" ++ "|------|-------|\n" ++
    String.join (n.typeCounts.map fun (pt, count) ↦
      "| " ++ pageTypeLabel pt ++ " | " ++ toString count ++ " |\n") ++
    "| **Total** | **" ++ toString n.total ++ "** |\n" ++ "\n" ++
    "## Links by Relation Type\n\n" ++ "| Relation | Count |\n" ++ "|----------|-------|\n" ++
    String.join (n.relationCounts.map fun (rt, count) ↦
      "| " ++ rt ++ " | " ++ toString count ++ " |\n") ++
    (if 0 < n.linkTotal then "| **Total** | **" ++ toString n.linkTotal ++ "** |\n"
      else "| (none) | 0 |\n") ++ "\n" ++
    "## Orphan Articles\n\n" ++ "**" ++ toString n.orphanCount ++
    "** articles with no inbound or outbound links.\n"

/-- The two selections of links agree. -/
theorem healthLinks_eq {db : Db Score} (h : Owned db) (userId : String) :
    healthLinks db userId = db.backlinks.filter (·.userId = userId) := by
  unfold healthLinks
  apply List.filter_congr
  intro bl hbl
  simp only [mem_idsOf_iff h.nodup (h.source bl hbl), mem_idsOf_iff h.nodup (h.target bl hbl),
    and_self]

/-- The links of a user, with no filter. -/
theorem selectLinks_none (db : Db Score) (userId : String) :
    db.selectLinks userId none none none = db.backlinks.filter (·.userId = userId) := by
  simp [Db.selectLinks]

private theorem get_connectionCounts (links : List Backlink) (id : String) :
    Tally.get (connectionCounts links) id = ((ends links).filter (· = id)).length := by
  unfold connectionCounts
  rw [Tally.get_tally]
  simp

/-- The connections of an article do not depend on the order of the links. -/
theorem get_connectionCounts_perm {links links' : List Backlink} (h : links'.Perm links)
    (id : String) :
    Tally.get (connectionCounts links') id = Tally.get (connectionCounts links) id := by
  rw [get_connectionCounts, get_connectionCounts]
  exact ((h.flatMap_right _).filter _).length_eq

/-- An article has no connections exactly when it is at no end of a link. -/
theorem connections_eq_zero_iff {links : List Backlink} {id : String} :
    Tally.get (connectionCounts links) id = 0 ↔ id ∉ ends links := by
  rw [get_connectionCounts, List.length_eq_zero_iff, List.filter_eq_nil_iff]
  constructor
  · exact fun h hmem ↦ h id hmem (decide_eq_true rfl)
  · exact fun h x hx heq ↦ h (of_decide_eq_true heq ▸ hx)

private theorem mem_ends {links : List Backlink} {id : String} :
    id ∈ ends links ↔ ∃ bl ∈ links, bl.sourceArticleId = id ∨ bl.targetArticleId = id := by
  unfold ends
  rw [List.mem_flatMap]
  simp only [List.mem_cons, List.not_mem_nil, or_false, eq_comm]

variable (effectiveConfidence : Article Score → Score) (orders : Orders Score)

/-- What the graph of a user holds. -/
theorem getGraph_all {db : Db Score} {userId : String} {g : GraphResponse Score}
    (hgraph : getGraph effectiveConfidence orders db userId none none none = .ok g) :
    g.nodes.map (fun n ↦ (n.id, n.connectionCount)) =
        (orders.articles.select (db.articlesOf userId)).map (fun a ↦
          (a.id, Tally.get (connectionCounts (db.backlinks.filter (·.userId = userId))) a.id)) ∧
      (orders.links.select (db.backlinks.filter (·.userId = userId))).mapM Backlink.toEdge =
        .ok g.edges := by
  unfold getGraph at hgraph
  simp only [Db.resolveFilter, Option.filter_none] at hgraph
  rw [selectLinks_none] at hgraph
  obtain ⟨edges, hedges, heq⟩ := bind_eq_ok.mp hgraph
  cases heq
  refine ⟨?_, hedges⟩
  rw [List.map_map]
  apply List.map_congr_left
  intro a _
  exact congrArg _ (get_connectionCounts_perm (orders.links.perm _) a.id)

private theorem linkTotal_eq (db : Db Score) (userId : String) :
    (healthNumbers db userId).linkTotal = (healthLinks db userId).length := by
  have hnodup := @Tally.nodup_tally _ _ _ Backlink.relationType (fun _ ↦ 1) (fun _ ↦ true)
    (healthLinks db userId)
  have hsum := @Tally.sum_tally _ _ _ Backlink.relationType (fun _ ↦ 1) (fun _ ↦ true)
    (healthLinks db userId)
  unfold healthNumbers
  dsimp only
  rw [List.map_map]
  refine ((List.mergeSort_perm _ _).map _).sum_eq.trans ?_
  refine (congrArg List.sum (Tally.map_get_keys hnodup)).trans ?_
  rw [hsum]
  simp

private theorem total_eq (db : Db Score) (userId : String) : (healthNumbers db userId).total =
    ((db.articlesOf userId).filter (·.pageType ≠ .synthesis)).length := by
  unfold healthNumbers listedTypes
  simp only [List.map_cons, List.map_nil, List.sum_cons, List.sum_nil]
  induction db.articlesOf userId with
  | nil => rfl
  | cons a articles ih =>
    simp only [List.filter_cons]
    cases a.pageType <;> simp at ih ⊢ <;> omega

private theorem length_ends (links : List Backlink) : (ends links).length = 2 * links.length := by
  unfold ends
  rw [List.length_flatMap]
  simp [Nat.mul_comm]

/-- The edges of a graph are those of its links. -/
theorem ends_of_mapM {links : List Backlink} {edges : List GraphEdge}
    (h : links.mapM Backlink.toEdge = .ok edges) :
    edges.map (fun e ↦ (e.source, e.target)) =
      links.map fun bl ↦ (bl.sourceArticleId, bl.targetArticleId) := by
  induction links generalizing edges with
  | nil =>
    cases h
    rfl
  | cons bl links ih =>
    rw [List.mapM_cons] at h
    obtain ⟨e, he, h⟩ := bind_eq_ok.mp h
    obtain ⟨rest, hrest, h⟩ := bind_eq_ok.mp h
    cases h
    obtain ⟨hsource, htarget⟩ := ends_of_toEdge he
    rw [List.map_cons, List.map_cons, ih hrest, hsource, htarget]

/-- The linter's orphans are the nodes of the graph without connections, up to their order,
whoever owns the articles at the other ends of the links. -/
theorem orphans_agree (sha256 : List UInt8 → String) (order : Rows.Order (Article Score))
    (db : Db Score) (reportId userId : String) (g : GraphResponse Score)
    (hgraph : getGraph effectiveConfidence orders db userId none none none = .ok g) :
    ((detectOrphans sha256 true order db reportId userId).map (·.articleId)).Perm
      ((g.nodes.filter (·.connectionCount = 0)).map (·.id)) := by
  obtain ⟨hnodes, -⟩ := getGraph_all effectiveConfidence orders hgraph
  have hright : (g.nodes.filter (·.connectionCount = 0)).map (·.id) =
      ((g.nodes.map fun n ↦ (n.id, n.connectionCount)).filter (·.2 = 0)).map Prod.fst := by
    rw [List.filter_map, List.map_map]
    rfl
  rw [hright, hnodes, List.filter_map, List.map_map]
  unfold detectOrphans
  simp only [Bool.not_true, Bool.false_eq_true, if_false, List.map_map]
  have hcongr : ∀ a ∈ db.articles,
      (!(db.backlinks.any fun bl ↦ bl.targetArticleId = a.id ∧ bl.userId = userId) &&
        !(db.backlinks.any fun bl ↦ bl.sourceArticleId = a.id ∧ bl.userId = userId) &&
        a.userId = userId) =
      (decide (Tally.get (connectionCounts (db.backlinks.filter (·.userId = userId))) a.id = 0) &&
        a.userId = userId) := by
    intro a _
    congr 1
    rw [Bool.eq_iff_iff, decide_eq_true_eq, connections_eq_zero_iff, mem_ends]
    simp only [Bool.and_eq_true, Bool.not_eq_true', List.any_eq_false, decide_eq_true_eq,
      List.mem_filter, not_exists, not_and]
    constructor
    · rintro ⟨htarget, hsource⟩ bl ⟨hbl, huser⟩ (heq | heq)
      · exact hsource bl hbl heq huser
      · exact htarget bl hbl heq huser
    · intro h
      exact ⟨fun bl hbl heq huser ↦ h bl ⟨hbl, huser⟩ (.inr heq),
        fun bl hbl heq huser ↦ h bl ⟨hbl, huser⟩ (.inl heq)⟩
  rw [List.filter_congr hcongr, ← List.filter_filter]
  exact ((order.perm _).trans ((orders.articles.perm _).filter _).symm).map _

section Consistent
variable {db : Db Score} {userId : String} {g : GraphResponse Score}

/-- The links of a user. -/
def linksOf (db : Db Score) (userId : String) : List Backlink :=
  db.backlinks.filter (·.userId = userId)

/-- The ends of a user's links are articles of the user. -/
theorem mem_of_mem_ends (h : Owned db) {id : String} (hid : id ∈ ends (linksOf db userId)) :
    id ∈ (db.articlesOf userId).map (·.id) := by
  obtain ⟨bl, hbl, hend⟩ := mem_ends.mp hid
  obtain ⟨hmem, huser⟩ := List.mem_filter.mp hbl
  have howner : bl.userId = userId := of_decide_eq_true huser
  rcases hend with rfl | rfl
  · exact (mem_idsOf_iff h.nodup (h.source bl hmem)).mpr howner
  · exact (mem_idsOf_iff h.nodup (h.target bl hmem)).mpr howner

/-- The connections of the user's articles are the ends of the user's links. -/
theorem sum_connections (h : Owned db) :
    ((db.articlesOf userId).map fun a ↦
      Tally.get (connectionCounts (linksOf db userId)) a.id).sum =
        2 * (linksOf db userId).length := by
  have hkeys : ((connectionCounts (linksOf db userId)).map Prod.fst).Nodup := Tally.nodup_tally _
  have hnodup : ((db.articlesOf userId).map (·.id)).Nodup :=
    h.nodup.sublist (List.filter_sublist.map _)
  have hsub : (connectionCounts (linksOf db userId)).map Prod.fst ⊆
      (db.articlesOf userId).map (·.id) := by
    intro id hid
    obtain ⟨x, hx, -, rfl⟩ := Tally.mem_keys_tally.mp hid
    exact mem_of_mem_ends h hx
  have hsum := Tally.sum_get hkeys hnodup hsub
  rw [List.map_map] at hsum
  refine hsum.trans ?_
  unfold connectionCounts
  rw [Tally.sum_tally, ← length_ends]
  simp

/-- The nodes of the graph are the articles of the user with their connections. -/
theorem ids_getGraph
    (hgraph : getGraph effectiveConfidence orders db userId none none none = .ok g) :
    (g.nodes.map (·.id)).Perm ((db.articlesOf userId).map (·.id)) ∧
      (g.nodes.map (·.connectionCount)).Perm ((db.articlesOf userId).map fun a ↦
        Tally.get (connectionCounts (linksOf db userId)) a.id) := by
  obtain ⟨hnodes, -⟩ := getGraph_all effectiveConfidence orders hgraph
  have hids := congrArg (List.map Prod.fst) hnodes
  have hcounts := congrArg (List.map Prod.snd) hnodes
  rw [List.map_map, List.map_map] at hids hcounts
  exact ⟨(List.Perm.of_eq hids).trans ((orders.articles.perm _).map _),
    (List.Perm.of_eq hcounts).trans ((orders.articles.perm _).map _)⟩

/-- The health page counts the articles that are at no end of a link of the user. -/
theorem orphanCount_eq (h : Owned db) : (healthNumbers db userId).orphanCount =
    (((db.articlesOf userId).map fun a ↦
      Tally.get (connectionCounts (linksOf db userId)) a.id).filter (· = 0)).length := by
  have hlinks : healthLinks db userId = linksOf db userId := healthLinks_eq h userId
  unfold healthNumbers
  dsimp only
  rw [hlinks, List.filter_map, List.length_map]
  congr 1
  apply List.filter_congr
  intro a _
  rw [Bool.eq_iff_iff, decide_eq_true_eq, Function.comp_apply, decide_eq_true_eq,
    connections_eq_zero_iff]

end Consistent

/-- Where links belong to the owner of both of their articles, the graph of a user is closed under
its edges, the connections of its nodes are the ends of its edges, and the health page counts its
edges and its nodes without connections; it counts as articles all that are no synthesis pages. -/
theorem health_agrees (db : Db Score) (userId : String) (howned : Owned db)
    (g : GraphResponse Score)
    (hgraph : getGraph effectiveConfidence orders db userId none none none = .ok g) :
    (∀ e ∈ g.edges, e.source ∈ g.nodes.map (·.id) ∧ e.target ∈ g.nodes.map (·.id)) ∧
      (g.nodes.map (·.connectionCount)).sum = 2 * g.edges.length ∧
      (healthNumbers db userId).orphanCount =
        (g.nodes.filter (·.connectionCount = 0)).length ∧
      (healthNumbers db userId).linkTotal = g.edges.length ∧
      (healthNumbers db userId).total =
        ((db.articlesOf userId).filter (·.pageType ≠ .synthesis)).length := by
  obtain ⟨hids, hcounts⟩ := ids_getGraph effectiveConfidence orders hgraph
  have hedges : (g.edges.map fun e ↦ (e.source, e.target)).Perm
      ((linksOf db userId).map fun bl ↦ (bl.sourceArticleId, bl.targetArticleId)) :=
    (List.Perm.of_eq (ends_of_mapM (getGraph_all effectiveConfidence orders hgraph).2)).trans
      ((orders.links.perm _).map _)
  have hlength : g.edges.length = (linksOf db userId).length := by
    simpa using hedges.length_eq
  refine ⟨fun e he ↦ ?_, ?_, ?_, ?_, total_eq db userId⟩
  · have hpair := List.mem_map_of_mem (f := fun e : GraphEdge ↦ (e.source, e.target)) he
    rw [hedges.mem_iff] at hpair
    obtain ⟨bl, hbl, heq⟩ := List.mem_map.mp hpair
    rw [Prod.mk.injEq] at heq
    rw [hids.mem_iff, hids.mem_iff, ← heq.1, ← heq.2]
    exact ⟨mem_of_mem_ends howned (mem_ends.mpr ⟨bl, hbl, .inl rfl⟩),
      mem_of_mem_ends howned (mem_ends.mpr ⟨bl, hbl, .inr rfl⟩)⟩
  · rw [hcounts.sum_eq, sum_connections howned, hlength]
  · have hfilter : (g.nodes.filter (·.connectionCount = 0)).length =
        ((g.nodes.map (·.connectionCount)).filter (· = 0)).length := by
      rw [List.filter_map, List.length_map]
      rfl
    rw [orphanCount_eq howned, hfilter, (hcounts.filter _).length_eq]
  · rw [linkTotal_eq, healthLinks_eq howned, hlength]
    rfl

end Counting

/-- The graph of the four articles. -/
def fourGraph : GraphResponse Nat where
  nodes :=
    [⟨"a", "Cats", some "Animals", ["Animals"], 1, some .sourced, 3, 3⟩,
      ⟨"b", "Dogs", none, [], 1, none, 2, 2⟩,
      ⟨"c", "Rain", none, [], 0, none, 1, 1⟩]
  edges := [⟨"a", "b", none, .contradicts, some "cats win"⟩]

private theorem getGraph_fourArticles :
    getGraph (·.confidenceScore) asInserted fourArticles "u" none none none = .ok fourGraph := by
  rfl

theorem orphans_agree_fourArticles :
    ((detectOrphans (fun _ ↦ "") true .asInserted fourArticles "r" "u").map (·.articleId)).Perm
      ((fourGraph.nodes.filter (·.connectionCount = 0)).map (·.id)) :=
  orphans_agree (·.confidenceScore) asInserted (fun _ ↦ "") .asInserted fourArticles "r" "u"
    fourGraph getGraph_fourArticles

theorem health_agrees_fourArticles :
    (∀ e ∈ fourGraph.edges, e.source ∈ fourGraph.nodes.map (·.id) ∧
      e.target ∈ fourGraph.nodes.map (·.id)) ∧
      (fourGraph.nodes.map (·.connectionCount)).sum = 2 * fourGraph.edges.length ∧
      (healthNumbers fourArticles "u").orphanCount =
        (fourGraph.nodes.filter (·.connectionCount = 0)).length ∧
      (healthNumbers fourArticles "u").linkTotal = fourGraph.edges.length ∧
      (healthNumbers fourArticles "u").total =
        ((fourArticles.articlesOf "u").filter (·.pageType ≠ .synthesis)).length :=
  health_agrees (·.confidenceScore) asInserted fourArticles "u" owned_fourArticles fourGraph
    getGraph_fourArticles

end WikiMind.Lint.Orphans
