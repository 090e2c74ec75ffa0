import WikiMind.Base.Multimap
import WikiMind.Base.Tally
import WikiMind.Export.Zip
import WikiMind.Wiki.Citations

/-!
# The knowledge graph

Four places read the links between the articles of a user: the graph and the relationships of one
article (`services/wiki.py`), the linter's orphans (`engine/linter/orphans.py`) and the health page
(`services/wiki_index.py`). Two of them select links by their own user, one by the user of both
ends, one by the user of the other end. None of the queries has an order.
-/

namespace WikiMind.Wiki.Graph

open WikiMind.Base WikiMind.Ingest
open WikiMind.Compile (ConfidenceLevel)
open WikiMind.Export (PageType)
open WikiMind.Wiki.Citations (resolveArticleId)

/-- `RelationType`: `models/enums.py:26`. -/
inductive RelationType where
  | references | contradicts | extends | supersedes | synthesizes | relatedTo
  deriving DecidableEq, Repr

def RelationType.value : RelationType → String
  | .references => "references"
  | .contradicts => "contradicts"
  | .extends => "extends"
  | .supersedes => "supersedes"
  | .synthesizes => "synthesizes"
  | .relatedTo => "related_to"

def RelationType.all : List RelationType :=
  [.references, .contradicts, .extends, .supersedes, .synthesizes, .relatedTo]

/-- `RelationType(value)`. -/
def RelationType.ofValue (value : String) : Except Exc RelationType :=
  match RelationType.all.find? (·.value = value) with
  | some r => .ok r
  | none => .error .valueError

/-- An article; `conceptIds` is the decoded JSON column: `models/tables/wiki.py:35`. -/
structure Article (Score : Type) extends Citations.Article Score where
  pageType : PageType
  conceptIds : List String
  confidence : Option ConfidenceLevel

/-- `models/tables/wiki.py:161`. -/
structure Backlink where
  sourceArticleId : String
  targetArticleId : String
  userId : String
  context : Option String
  relationType : String
  resolution : Option String

structure Db (Score : Type) where
  articles : List (Article Score)
  backlinks : List Backlink
  /-- The article and the name of each row. -/
  articleConcepts : List (String × String)

/-- `models/dto/wiki.py:312`. -/
structure GraphNode (Score : Type) where
  id : String
  label : String
  conceptCluster : Option String
  concepts : List String
  connectionCount : Nat
  confidence : Option ConfidenceLevel
  confidenceScore : Score
  effectiveConfidence : Score

/-- `models/dto/wiki.py:325`. -/
structure GraphEdge where
  source : String
  target : String
  context : Option String
  relationType : RelationType
  resolution : Option String

structure GraphResponse (Score : Type) where
  nodes : List (GraphNode Score)
  edges : List GraphEdge

/-- `models/dto/wiki.py:342`. -/
structure RelationshipEdge where
  articleId : String
  slug : String
  title : String
  relationType : RelationType
  context : Option String
  resolution : Option String

structure ArticleRelationshipsResponse where
  incoming : List (String × List RelationshipEdge)
  outgoing : List (String × List RelationshipEdge)

section Reading
variable {Score : Type}

/-- The articles of a user. -/
def Db.articlesOf (db : Db Score) (userId : String) : List (Article Score) :=
  db.articles.filter (·.userId = userId)

/-- `_resolve_article_id`: `services/wiki.py:440`. -/
def Db.resolve (db : Db Score) (userId idOrSlug : String) : Option String :=
  resolveArticleId (db.articles.map (·.toArticle)) userId idOrSlug

/-- The orders in which the database answers the queries of a request. -/
structure Orders (Score : Type) where
  links : Rows.Order Backlink
  articles : Rows.Order (Article Score)
  concepts : Rows.Order (String × String)
  outgoing : Rows.Order (Backlink × Article Score)
  incoming : Rows.Order (Backlink × Article Score)

/-- `fetch_concepts_for_articles`: `queries/articles.py:124`. -/
def fetchConceptsForArticles (order : Rows.Order (String × String)) (db : Db Score)
    (articleIds : List String) : List (String × List String) :=
  (order.select (db.articleConcepts.filter fun row ↦ row.1 ∈ articleIds)).foldl
    (fun d row ↦ Multimap.push d row.1 row.2) (articleIds.dedup.map (·, []))

/-- The article an optional filter stands for; `none` if it names no article. -/
def Db.resolveFilter (db : Db Score) (userId : String) (reference : Option String) :
    Option (Option String) :=
  match reference.filter (· ≠ "") with
  | none => some none
  | some idOrSlug => (db.resolve userId idOrSlug).map some

/-- The links of a user that meet every filter. -/
def Db.selectLinks (db : Db Score) (userId : String) (relationType : Option RelationType)
    (fromId toId : Option String) : List Backlink :=
  db.backlinks.filter fun bl ↦ bl.userId = userId ∧
    relationType.all (·.value = bl.relationType) ∧ fromId.all (· = bl.sourceArticleId) ∧
    toId.all (· = bl.targetArticleId)

/-- The ends of links, the source of each first. -/
def ends (links : List Backlink) : List String :=
  links.flatMap fun bl ↦ [bl.sourceArticleId, bl.targetArticleId]

/-- `connection_counts`. -/
def connectionCounts (links : List Backlink) : List (String × Nat) :=
  Tally.tally id (fun _ ↦ 1) (fun _ ↦ true) (ends links)

/-- The edge of a link of a known type. -/
def Backlink.edgeOf (bl : Backlink) (relationType : RelationType) : GraphEdge :=
  ⟨bl.sourceArticleId, bl.targetArticleId, bl.context, relationType,
    if bl.relationType = "contradicts" then bl.resolution else none⟩

def Backlink.toEdge (bl : Backlink) : Except Exc GraphEdge := do
  let relationType ← RelationType.ofValue bl.relationType
  .ok (bl.edgeOf relationType)

/-- `WikiService.get_graph`: `services/wiki.py:486`. -/
def getGraph (effectiveConfidence : Article Score → Score) (orders : Orders Score) (db : Db Score)
    (userId : String) (relationType : Option RelationType)
    (fromArticle toArticle : Option String) : Except Exc (GraphResponse Score) :=
  match db.resolveFilter userId fromArticle, db.resolveFilter userId toArticle with
  | some fromId, some toId => do
    let links := orders.links.select (db.selectLinks userId relationType fromId toId)
    let articles := orders.articles.select (db.articlesOf userId)
    let concepts := fetchConceptsForArticles orders.concepts db (articles.map (·.id))
    let edges ← links.mapM Backlink.toEdge
    .ok ⟨articles.map fun a ↦ ⟨a.id, a.title, a.conceptIds.head?, Multimap.get concepts a.id,
      Tally.get (connectionCounts links) a.id, a.confidence, a.confidenceScore,
      effectiveConfidence a⟩, edges⟩
  | _, _ => .ok ⟨[], []⟩

/-- The rows of links joined with the articles of a user at one of their ends, in an order of
their own. -/
def Db.join (db : Db Score) (userId : String) (far : Backlink → String) (links : List Backlink) :
    List (Backlink × Article Score) :=
  links.flatMap fun bl ↦
    (db.articles.filter fun a ↦ a.id = far bl ∧ a.userId = userId).map (bl, ·)

/-- One direction of the relationships: the edges by the values of their types. -/
def relationships (rows : List (Backlink × Article Score)) :
    Except Exc (List (String × List RelationshipEdge)) := do
  let edges ← rows.mapM fun (bl, a) ↦ do
    let relationType ← RelationType.ofValue bl.relationType
    .ok (bl.relationType,
      (⟨a.id, a.slug, a.title, relationType, bl.context, bl.resolution⟩ : RelationshipEdge))
  .ok (Multimap.group edges)

/-- `WikiService.get_relationships`: `services/wiki.py:578`. -/
def getRelationships (orders : Orders Score) (db : Db Score) (idOrSlug userId : String) :
    Except Exc ArticleRelationshipsResponse :=
  match db.resolve userId idOrSlug with
  | none => .error (.notFound "Article not found")
  | some articleId => do
    let outRows := orders.outgoing.select (db.join userId (·.targetArticleId)
      (db.backlinks.filter (·.sourceArticleId = articleId)))
    let inRows := orders.incoming.select (db.join userId (·.sourceArticleId)
      (db.backlinks.filter (·.targetArticleId = articleId)))
    let outgoing ← relationships outRows
    let incoming ← relationships inRows
    .ok ⟨incoming, outgoing⟩

/-- Each link belongs to the owner of both of its articles, and the ids of articles differ. -/
structure Owned (db : Db Score) : Prop where
  nodup : (db.articles.map (·.id)).Nodup
  source : ∀ bl ∈ db.backlinks, ∃ a ∈ db.articles, a.id = bl.sourceArticleId ∧
    a.userId = bl.userId
  target : ∀ bl ∈ db.backlinks, ∃ a ∈ db.articles, a.id = bl.targetArticleId ∧
    a.userId = bl.userId

/-- The ids of a user's articles. -/
theorem mem_idsOf {db : Db Score} {userId id : String} :
    id ∈ (db.articlesOf userId).map (·.id) ↔ ∃ a ∈ db.articles, a.userId = userId ∧ a.id = id := by
  unfold Db.articlesOf
  simp [and_assoc]

/-- Where ids differ, the id of an article is one of a user's exactly when the user owns it. -/
theorem mem_idsOf_iff {db : Db Score} {userId id owner : String}
    (hnodup : (db.articles.map (·.id)).Nodup)
    (h : ∃ a ∈ db.articles, a.id = id ∧ a.userId = owner) :
    id ∈ (db.articlesOf userId).map (·.id) ↔ owner = userId := by
  obtain ⟨a, ha, rfl, rfl⟩ := h
  rw [mem_idsOf]
  constructor
  · rintro ⟨b, hb, rfl, hid⟩
    rw [Rows.eq_of_nodup hnodup hb ha hid.symm]
  · rintro rfl
    exact ⟨a, ha, rfl, rfl⟩

/-! ### The relationships of an article -/

/-- What follows a computation and cannot raise does not matter. -/
theorem raises_bind_ok {α β : Type} (x : Except Exc α) (f : α → β) :
    Raises (do
      let a ← x
      (.ok (f a) : Except Exc β)) ↔ Raises x :=
  (raises_bind (Q := False) fun _ _ ↦ iff_of_false (raises_ok _) id).trans (or_iff_left id)

private theorem RelationType.value_of_ofValue {value : String} {r : RelationType}
    (h : RelationType.ofValue value = .ok r) : r.value = value := by
  unfold RelationType.ofValue at h
  split at h
  · next t ht =>
    cases h
    simpa using List.find?_some ht
  · cases h

private theorem RelationType.value_inj {r t : RelationType} : r.value = t.value ↔ r = t := by
  constructor
  · cases r <;> cases t <;> decide
  · rintro rfl
    rfl

section Direction
variable {db : Db Score} {userId : String} {far : Backlink → String} {links : List Backlink}

/-- An edge of the relationships and one of the graph for the same link; the graph shows the
resolution of contradictions only. -/
structure SameEdge (other : GraphEdge → String) (r : RelationshipEdge) (e : GraphEdge) : Prop where
  articleId : r.articleId = other e
  relationType : r.relationType = e.relationType
  context : r.context = e.context
  resolution : e.relationType = .contradicts → r.resolution = e.resolution

/-- The join gives each link the article at its other end, if it is the user's. -/
theorem join_eq (hnodup : (db.articles.map (·.id)).Nodup)
    (hlinks : ∀ bl ∈ links, ∃ a ∈ db.articles, a.id = far bl ∧ a.userId = userId) :
    List.Forall₂ (fun bl row ↦ row.1 = bl ∧ row.2.id = far bl) links
      (db.join userId far links) := by
  induction links with
  | nil => exact .nil
  | cons bl links ih =>
    obtain ⟨a, ha, hid, huser⟩ := hlinks bl List.mem_cons_self
    have hone : db.articles.filter (fun x ↦ x.id = far bl ∧ x.userId = userId) = [a] := by
      have hids : db.articles.filter (fun x ↦ x.id = a.id) = [a] :=
        Rows.oneOrNone_eq_some.mp (Rows.oneOrNone_of_nodup hnodup ha)
      have hsame : db.articles.filter (fun x ↦ x.id = far bl ∧ x.userId = userId) =
          (db.articles.filter fun x ↦ x.id = a.id).filter fun x ↦ x.userId = userId := by
        rw [List.filter_filter, hid]
        exact List.filter_congr fun x _ ↦ by rw [Bool.decide_and, Bool.and_comm]
      rw [hsame, hids, List.filter_singleton, huser]
      simp
    unfold Db.join
    rw [List.flatMap_cons, hone]
    exact .cons ⟨rfl, hid⟩ (ih fun x hx ↦ hlinks x (List.mem_cons_of_mem _ hx))

/-- The entry of a row in the relationships. -/
def relationshipEntry (row : Backlink × Article Score) :
    Except Exc (String × RelationshipEdge) := do
  let relationType ← RelationType.ofValue row.1.relationType
  .ok (row.1.relationType, ⟨row.2.id, row.2.slug, row.2.title, relationType, row.1.context,
    row.1.resolution⟩)

private theorem relationships_eq (rows : List (Backlink × Article Score)) :
    relationships rows = (do
      let edges ← rows.mapM relationshipEntry
      .ok (Multimap.group edges)) := rfl

variable {other : GraphEdge → String} {rows : List (Backlink × Article Score)}

/-- The entries of rows and the edges of their links. -/
theorem edges_of_entries (hother : ∀ bl e, Backlink.toEdge bl = .ok e → other e = far bl)
    (hrows : List.Forall₂ (fun bl row ↦ row.1 = bl ∧ row.2.id = far bl) links rows)
    {entries : List (String × RelationshipEdge)} (h : rows.mapM relationshipEntry = .ok entries) :
    ∃ edges, links.mapM Backlink.toEdge = .ok edges ∧ List.Forall₂
      (fun entry e ↦ entry.1 = e.relationType.value ∧ SameEdge other entry.2 e) entries edges := by
  induction hrows generalizing entries with
  | nil =>
    cases h
    exact ⟨[], rfl, .nil⟩
  | @cons bl row links rows hrow _ ih =>
    obtain ⟨rfl, hid⟩ := hrow
    rw [List.mapM_cons] at h
    obtain ⟨entry, hentry, h⟩ := bind_eq_ok.mp h
    obtain ⟨rest, hrest, h⟩ := bind_eq_ok.mp h
    cases h
    obtain ⟨edges, hedges, hsame⟩ := ih hrest
    obtain ⟨r, hr, hentry⟩ := bind_eq_ok.mp hentry
    cases hentry
    have hedge : row.1.toEdge = .ok (row.1.edgeOf r) := by
      unfold Backlink.toEdge
      rw [hr]
      rfl
    have hall : (row.1 :: links).mapM Backlink.toEdge = .ok (row.1.edgeOf r :: edges) := by
      rw [List.mapM_cons, hedge, hedges]
      rfl
    have hvalue := RelationType.value_of_ofValue hr
    have hresolution : r = .contradicts → row.1.resolution = (row.1.edgeOf r).resolution := by
      rintro rfl
      exact (if_pos hvalue.symm).symm
    exact ⟨_, hall,
      .cons ⟨hvalue.symm, hid.trans (hother _ _ hedge).symm, rfl, rfl, hresolution⟩ hsame⟩

/-- Both raise at a link with an unknown type. -/
theorem raises_relationships_iff
    (hrows : List.Forall₂ (fun bl row ↦ row.1 = bl ∧ row.2.id = far bl) links rows) :
    Raises (relationships rows) ↔ Raises (links.mapM Backlink.toEdge) := by
  have hentry : ∀ row : Backlink × Article Score, Raises (relationshipEntry row) ↔
      Raises (RelationType.ofValue row.1.relationType) := fun _ ↦ raises_bind_ok _ _
  have hedge : ∀ bl : Backlink, Raises bl.toEdge ↔ Raises (RelationType.ofValue bl.relationType) :=
    fun _ ↦ raises_bind_ok _ _
  have hgroup : Raises (relationships rows) ↔ Raises (rows.mapM relationshipEntry) :=
    raises_bind_ok _ _
  rw [hgroup, raises_mapM_iff, raises_mapM_iff]
  simp only [hentry, hedge]
  clear hgroup
  induction hrows with
  | nil => simp
  | cons hrow _ ih =>
    rw [List.exists_mem_cons_iff, List.exists_mem_cons_iff, hrow.1]
    exact or_congr_right ih

/-- Filtering by the type keeps entries and edges together. -/
theorem filter_entries {entries : List (String × RelationshipEdge)} {edges : List GraphEdge}
    (h : List.Forall₂
      (fun entry e ↦ entry.1 = e.relationType.value ∧ SameEdge other entry.2 e) entries edges)
    (t : RelationType) :
    List.Forall₂ (SameEdge other) (Multimap.get (Multimap.group entries) t.value)
      (edges.filter (·.relationType = t)) := by
  rw [Multimap.get_group]
  induction h with
  | nil => exact .nil
  | @cons entry e entries edges hentry _ ih =>
    obtain ⟨hkey, hsame⟩ := hentry
    by_cases ht : e.relationType = t
    · have hvalue : entry.1 = t.value := by rw [hkey, ht]
      rw [List.filter_cons_of_pos (by simpa using hvalue),
        List.filter_cons_of_pos (by simpa using ht), List.map_cons]
      exact .cons hsame ih
    · have hvalue : entry.1 ≠ t.value := by
        rw [hkey]
        exact fun heq ↦ ht (RelationType.value_inj.mp heq)
      rw [List.filter_cons_of_neg (by simpa using hvalue),
        List.filter_cons_of_neg (by simpa using ht)]
      exact ih

end Direction

section Agreement
variable {db : Db Score} {userId idOrSlug articleId : String}

/-- A reference names an article of the user. -/
theorem exists_of_resolve (h : db.resolve userId idOrSlug = some articleId) :
    idOrSlug ≠ "" ∧ ∃ a ∈ db.articles, a.id = articleId ∧ a.userId = userId := by
  unfold Db.resolve resolveArticleId at h
  split at h
  · cases h
  · next hne =>
    refine ⟨hne, ?_⟩
    have hfound : ∃ a ∈ db.articles.map (·.toArticle), a.id = articleId ∧ a.userId = userId := by
      split at h
      · next a ha =>
        cases h
        have hprop := List.find?_some ha
        simp only [decide_eq_true_eq] at hprop
        exact ⟨a, List.mem_of_find?_eq_some ha, rfl, hprop.2⟩
      · obtain ⟨a, ha, rfl⟩ := Option.map_eq_some_iff.mp h
        have hprop := List.find?_some ha
        simp only [decide_eq_true_eq] at hprop
        exact ⟨a, List.mem_of_find?_eq_some ha, rfl, hprop.2⟩
    obtain ⟨a, ha, hid, huser⟩ := hfound
    obtain ⟨b, hb, rfl⟩ := List.mem_map.mp ha
    exact ⟨b, hb, hid, huser⟩

/-- Under one owner, the links from an article of the user are the user's. -/
theorem Owned.links_from (h : Owned db) (ha : ∃ a ∈ db.articles, a.id = articleId ∧
    a.userId = userId) : db.selectLinks userId none (some articleId) none =
      db.backlinks.filter (·.sourceArticleId = articleId) := by
  unfold Db.selectLinks
  apply List.filter_congr
  intro bl hbl
  obtain ⟨a, ha, rfl, rfl⟩ := ha
  obtain ⟨b, hb, hid, huser⟩ := h.source bl hbl
  rw [decide_eq_decide]
  simp only [Option.all_none, Option.all_some, decide_eq_true_eq, true_and, and_true]
  constructor
  · rintro ⟨-, heq⟩
    exact heq.symm
  · intro heq
    rw [← huser, Rows.eq_of_nodup h.nodup ha hb (hid.trans heq)]
    exact ⟨rfl, heq.symm⟩

private theorem Owned.links_to (h : Owned db) (ha : ∃ a ∈ db.articles, a.id = articleId ∧
    a.userId = userId) : db.selectLinks userId none none (some articleId) =
      db.backlinks.filter (·.targetArticleId = articleId) := by
  unfold Db.selectLinks
  apply List.filter_congr
  intro bl hbl
  obtain ⟨a, ha, rfl, rfl⟩ := ha
  obtain ⟨b, hb, hid, huser⟩ := h.target bl hbl
  rw [decide_eq_decide]
  simp only [Option.all_none, Option.all_some, decide_eq_true_eq, true_and]
  constructor
  · rintro ⟨-, heq⟩
    exact heq.symm
  · intro heq
    rw [← huser, Rows.eq_of_nodup h.nodup ha hb (hid.trans heq)]
    exact ⟨rfl, heq.symm⟩

theorem ends_of_toEdge {bl : Backlink} {e : GraphEdge} (h : bl.toEdge = .ok e) :
    e.source = bl.sourceArticleId ∧ e.target = bl.targetArticleId := by
  obtain ⟨t, -, h⟩ := bind_eq_ok.mp h
  cases h
  exact ⟨rfl, rfl⟩

/-- The edges of one direction, of some type, are those of the graph in some order. -/
def SameEdges (other : GraphEdge → String) (rs : List RelationshipEdge) (es : List GraphEdge) :
    Prop :=
  ∃ es', List.Forall₂ (SameEdge other) rs es' ∧ es'.Perm es

/-- What links one direction of the relationships with the graph filtered by the article, whose
rows and links come in orders of their own. -/
theorem direction_agrees (far : Backlink → String) (other : GraphEdge → String)
    {links selected : List Backlink} {rows : List (Backlink × Article Score)}
    (howned : Owned db) (hother : ∀ bl e, Backlink.toEdge bl = .ok e → other e = far bl)
    (hlinks : ∀ bl ∈ links, ∃ a ∈ db.articles, a.id = far bl ∧ a.userId = userId)
    (hrows : rows.Perm (db.join userId far links)) (hselected : selected.Perm links) :
    (Raises (relationships rows) ↔ Raises (selected.mapM Backlink.toEdge)) ∧
      ∀ d, relationships rows = .ok d →
        ∃ edges, selected.mapM Backlink.toEdge = .ok edges ∧ ∀ t : RelationType,
          SameEdges other (Multimap.get d t.value) (edges.filter (·.relationType = t)) := by
  -- the links in the order of the rows
  obtain ⟨ordered, hsame, hordered⟩ :=
    List.perm_comp_forall₂ hrows (join_eq howned.nodup hlinks).flip
  have hpairs : List.Forall₂ (fun bl row ↦ row.1 = bl ∧ row.2.id = far bl) ordered rows :=
    hsame.flip
  have hperm : selected.Perm ordered := hselected.trans hordered.symm
  constructor
  · rw [raises_relationships_iff hpairs, raises_mapM_iff, raises_mapM_iff]
    simp only [hperm.mem_iff]
  · intro d hd
    rw [relationships_eq] at hd
    obtain ⟨entries, hentries, hd⟩ := bind_eq_ok.mp hd
    cases hd
    obtain ⟨edges, hedges, hentry⟩ := edges_of_entries hother hpairs hentries
    obtain ⟨edges', hedges', hreordered⟩ := Rows.mapM_perm hperm hedges
    exact ⟨edges', hedges', fun t ↦ ⟨_, filter_entries hentry t, (hreordered.filter _).symm⟩⟩

/-- The graph with one end fixed. -/
theorem getGraph_filtered (effectiveConfidence : Article Score → Score) (orders : Orders Score)
    (fromArticle toArticle fromId toId : Option String)
    (hfrom : db.resolveFilter userId fromArticle = some fromId)
    (hto : db.resolveFilter userId toArticle = some toId) : ∃ nodes,
      getGraph effectiveConfidence orders db userId none fromArticle toArticle = (do
        let edges ← (orders.links.select (db.selectLinks userId none fromId toId)).mapM
          Backlink.toEdge
        .ok ⟨nodes, edges⟩) := by
  unfold getGraph
  rw [hfrom, hto]
  exact ⟨_, rfl⟩

private theorem resolveFilter_some (h : db.resolve userId idOrSlug = some articleId) :
    db.resolveFilter userId (some idOrSlug) = some (some articleId) := by
  unfold Db.resolveFilter
  rw [Option.filter_some, if_pos (decide_eq_true (exists_of_resolve h).1)]
  dsimp only
  rw [h]
  rfl

end Agreement

/-- Where links belong to the owner of both of their articles, the outgoing relationships of an
article are, type by type and up to their order, the edges of the graph from it, and the incoming
ones those of the graph to it; both raise at a link of an unknown type. -/
theorem relationships_agree (effectiveConfidence : Article Score → Score)
    (orders ordersFrom ordersTo : Orders Score) (db : Db Score)
    (userId idOrSlug articleId : String) (howned : Owned db)
    (hresolve : db.resolve userId idOrSlug = some articleId) :
    (Raises (getRelationships orders db idOrSlug userId) ↔
      Raises (getGraph effectiveConfidence ordersFrom db userId none (some idOrSlug) none) ∨
        Raises (getGraph effectiveConfidence ordersTo db userId none none (some idOrSlug))) ∧
    ∀ r, getRelationships orders db idOrSlug userId = .ok r → ∃ outgoing incoming,
      getGraph effectiveConfidence ordersFrom db userId none (some idOrSlug) none = .ok outgoing ∧
      getGraph effectiveConfidence ordersTo db userId none none (some idOrSlug) = .ok incoming ∧
      ∀ t : RelationType,
        SameEdges GraphEdge.target (Multimap.get r.outgoing t.value)
          (outgoing.edges.filter (·.relationType = t)) ∧
        SameEdges GraphEdge.source (Multimap.get r.incoming t.value)
          (incoming.edges.filter (·.relationType = t)) := by
  obtain ⟨-, harticle⟩ := exists_of_resolve hresolve
  have hfrom := howned.links_from harticle
  have hto := howned.links_to harticle
  have hfilter := resolveFilter_some hresolve
  obtain ⟨outNodes, hout⟩ := getGraph_filtered effectiveConfidence ordersFrom (some idOrSlug) none
    (some articleId) none hfilter rfl
  obtain ⟨inNodes, hin⟩ := getGraph_filtered effectiveConfidence ordersTo none (some idOrSlug) none
    (some articleId) rfl hfilter
  have htarget : ∀ fromId toId, ∀ bl ∈ db.selectLinks userId none fromId toId,
      ∃ a ∈ db.articles, a.id = bl.targetArticleId ∧ a.userId = userId := by
    intro fromId toId bl hbl
    obtain ⟨hmem, hprop⟩ := List.mem_filter.mp hbl
    rw [← (of_decide_eq_true hprop).1]
    exact howned.target bl hmem
  have hsource : ∀ fromId toId, ∀ bl ∈ db.selectLinks userId none fromId toId,
      ∃ a ∈ db.articles, a.id = bl.sourceArticleId ∧ a.userId = userId := by
    intro fromId toId bl hbl
    obtain ⟨hmem, hprop⟩ := List.mem_filter.mp hbl
    rw [← (of_decide_eq_true hprop).1]
    exact howned.source bl hmem
  obtain ⟨houtRaises, houtEdges⟩ := direction_agrees Backlink.targetArticleId GraphEdge.target
    howned (fun _ _ h ↦ (ends_of_toEdge h).2) (htarget _ _) (orders.outgoing.perm _)
    (ordersFrom.links.perm (db.selectLinks userId none (some articleId) none))
  obtain ⟨hinRaises, hinEdges⟩ := direction_agrees Backlink.sourceArticleId GraphEdge.source
    howned (fun _ _ h ↦ (ends_of_toEdge h).1) (hsource _ _) (orders.incoming.perm _)
    (ordersTo.links.perm (db.selectLinks userId none none (some articleId)))
  have hread : getRelationships orders db idOrSlug userId = (do
      let outgoing ← relationships (orders.outgoing.select
        (db.join userId Backlink.targetArticleId
          (db.selectLinks userId none (some articleId) none)))
      let incoming ← relationships (orders.incoming.select
        (db.join userId Backlink.sourceArticleId
          (db.selectLinks userId none none (some articleId))))
      .ok ⟨incoming, outgoing⟩) := by
    unfold getRelationships
    rw [hresolve, hfrom, hto]
  refine ⟨?_, fun r hr ↦ ?_⟩
  · rw [hread, hout, hin, raises_bind_ok, raises_bind_ok, ← houtRaises, ← hinRaises]
    exact raises_bind fun _ _ ↦ raises_bind_ok _ _
  · rw [hread] at hr
    obtain ⟨d, hd, hr⟩ := bind_eq_ok.mp hr
    obtain ⟨d', hd', hr⟩ := bind_eq_ok.mp hr
    cases hr
    obtain ⟨edges, hedges, hsame⟩ := houtEdges d hd
    obtain ⟨edges', hedges', hsame'⟩ := hinEdges d' hd'
    refine ⟨⟨outNodes, edges⟩, ⟨inNodes, edges'⟩, ?_, ?_, fun t ↦ ⟨hsame t, hsame' t⟩⟩
    · rw [hout, hedges]
      rfl
    · rw [hin, hedges']
      rfl

end Reading

/-- Three articles of a user, one of them without links, and an article of another user. -/
def fourArticles : Db Nat where
  articles :=
    [⟨⟨"a", "u", "cats", "Cats", 3⟩, .source, ["Animals"], some .sourced⟩,
      ⟨⟨"b", "u", "dogs", "Dogs", 2⟩, .source, [], none⟩,
      ⟨⟨"c", "u", "rain", "Rain", 1⟩, .concept, [], none⟩,
      ⟨⟨"d", "v", "cats", "Cats", 1⟩, .source, [], none⟩]
  backlinks := [⟨"a", "b", "u", none, "contradicts", some "cats win"⟩]
  articleConcepts := [("a", "Animals")]

theorem owned_fourArticles : Owned fourArticles where
  nodup := by decide
  source := by simp [fourArticles]
  target := by simp [fourArticles]

/-- All queries in the order of the tables. -/
def asInserted : Orders Nat := ⟨.asInserted, .asInserted, .asInserted, .asInserted, .asInserted⟩

theorem relationships_agree_cats :
    (Raises (getRelationships asInserted fourArticles "cats" "u") ↔
      Raises (getGraph (·.confidenceScore) asInserted fourArticles "u" none (some "cats") none) ∨
        Raises (getGraph (·.confidenceScore) asInserted fourArticles "u" none none
          (some "cats"))) ∧
    ∀ r, getRelationships asInserted fourArticles "cats" "u" = .ok r → ∃ outgoing incoming,
      getGraph (·.confidenceScore) asInserted fourArticles "u" none (some "cats") none =
        .ok outgoing ∧
      getGraph (·.confidenceScore) asInserted fourArticles "u" none none (some "cats") =
        .ok incoming ∧
      ∀ t : RelationType,
        SameEdges GraphEdge.target (Multimap.get r.outgoing t.value)
          (outgoing.edges.filter (·.relationType = t)) ∧
        SameEdges GraphEdge.source (Multimap.get r.incoming t.value)
          (incoming.edges.filter (·.relationType = t)) :=
  relationships_agree (·.confidenceScore) asInserted asInserted asInserted fourArticles "u" "cats"
    "a" owned_fourArticles (by decide)

end WikiMind.Wiki.Graph
