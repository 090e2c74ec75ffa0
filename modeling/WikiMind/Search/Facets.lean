import Mathlib.Algebra.Order.Ring.Rat
import Mathlib.Data.List.Nodup
import Mathlib.Data.List.Sort
import Mathlib.Tactic.Linarith
import WikiMind.Base.Text
import WikiMind.Compile.Articles

/-!
# Search facets

`SearchService.search` narrows the matches of a query by facet filters, and `get_facets` counts
the matches of a query by facet values (`services/search.py:465–853`). The two read the same
tables with different queries. What the full-text engine finds and ranks is given; times are in
seconds, staleness scores are exact fractions, and both calls are made at one time.
-/

namespace WikiMind.Search.Facets

open WikiMind.Base
open WikiMind.Compile (ArticleSource ArticleConcept)

/-- An article: `models/tables/wiki.py:35`. -/
structure Article where
  id : Nat
  userId : String
  slug : String
  title : String
  pageType : String
  updatedAt : Int
  lastReinforcedAt : Option Int

/-- A source: `models/tables/source.py`. -/
structure Source where
  id : String
  userId : String
  sourceType : String

/-- A tag: `models/tables/tags.py:12`. -/
structure Tag where
  id : String
  userId : String
  name : String

/-- A tag of an article: `models/tables/tags.py:28`. -/
structure ArticleTag where
  articleId : Nat
  tagId : String

/-- The tables of a search; articles and the concepts of an article are keyed. -/
structure Db where
  articles : List Article
  articleSources : List ArticleSource
  sources : List Source
  articleConcepts : List ArticleConcept
  tags : List Tag
  articleTags : List ArticleTag
  nodup_id : (articles.map (·.id)).Nodup
  nodup_concept : articleConcepts.Nodup

/-- A row the engine finds, with its article. -/
structure FtsRow where
  articleId : Nat
  snippet : String
  rank : Int

/-- The engine, the words of a query, the settings and the time. -/
structure Env where
  fts : String → List FtsRow
  words : String → List String
  ftsMaxCandidates : Nat
  decayRate : ℚ
  now : Int

/-- One search result: `models/dto/wiki.py:297`. -/
structure FTSResultItem where
  articleId : Nat
  slug : String
  title : String
  snippet : String
  rank : Int

/-- Results and their total: `models/dto/wiki.py`. -/
structure FTSResponse where
  results : List FTSResultItem
  total : Nat

/-- `_sanitize_fts5_query`: `services/search.py:411`. -/
def sanitizeFts5Query (env : Env) (query : String) : String :=
  let parts := (env.words query).filterMap fun w ↦
    let cleaned := String.ofList (w.toList.filter (· ≠ '"'))
    if cleaned = "" then none else some ("\"" ++ cleaned ++ "\"*")
  " ".intercalate parts

/-- The result for an article the engine found: `services/search.py:306–318`. -/
def resultItem (rows : List FtsRow) (a : Article) : FTSResultItem :=
  let (snippet, rank) :=
    ((rows.find? (·.articleId = a.id)).map fun r ↦ (r.snippet, r.rank)).getD ("", 0)
  ⟨a.id, a.slug, a.title, snippet, rank⟩

/-- `_search_sqlite`: `services/search.py:242`. -/
def searchArticles (env : Env) (db : Db) (query userId : String) (limit offset : Nat) :
    FTSResponse :=
  let ftsQuery := sanitizeFts5Query env query
  if ftsQuery = "" then ⟨[], 0⟩
  else
    let rows := env.fts ftsQuery
    let matched := db.articles.filter fun a ↦ a.userId = userId ∧ rows.any (·.articleId = a.id)
    let results := (matched.map (resultItem rows)).insertionSort fun r s ↦ r.rank ≤ s.rank
    ⟨(results.drop offset).take limit, results.length⟩

/-- The facet filters of a search: `services/search.py:472–477`. -/
structure Filters where
  sourceKind : Option String
  pageType : Option String
  concept : Option String
  tag : Option String
  dateRange : Option String
  staleness : Option String

/-- No filter. -/
def Filters.none : Filters := ⟨.none, .none, .none, .none, .none, .none⟩

/-- `_compute_article_staleness` with `compute_staleness`: `services/search.py:679`,
`engine/confidence.py:127`. -/
def computeArticleStaleness (env : Env) (a : Article) : ℚ :=
  match a.lastReinforcedAt with
  | none => 1
  | some t =>
    let days : ℚ := max 0 ((env.now - t : Int) / 86400)
    max 0 (min 1 (days * env.decayRate))

/-- `_matches_staleness_bucket`: `services/search.py:687`. -/
def matchesStalenessBucket (bucket : String) (score : ℚ) : Bool :=
  if bucket = "low" then score < 3 / 10
  else if bucket = "medium" then 3 / 10 ≤ score ∧ score ≤ 7 / 10
  else if bucket = "high" then 7 / 10 < score
  else false

/-- The days of a date range. -/
def rangeDays : String → Option Int
  | "7d" => some 7
  | "30d" => some 30
  | "365d" => some 365
  | _ => none

/-- The article was updated within the days. -/
def updatedWithin (env : Env) (days : Int) (a : Article) : Bool :=
  env.now - days * 86400 ≤ a.updatedAt

/-- The ids of the user's articles, of the given ones, that meet a condition. -/
def idsWhere (db : Db) (ids : List Nat) (userId : String) (p : Article → Bool) : List Nat :=
  (db.articles.filter fun a ↦ a.id ∈ ids ∧ a.userId = userId ∧ p a).map (·.id)

/-- Keep what a filter selects, if it is given. -/
def narrow {α : Type} (value : Option α) (select : α → List Nat) (remaining : List Nat) :
    List Nat :=
  match value with
  | none => remaining
  | some v => remaining.filter (· ∈ select v)

/-- The articles with a source of the kind: `services/search.py:597–611`. -/
def sourceKindIds (db : Db) (ids : List Nat) (userId kind : String) : List Nat :=
  (db.articleSources.filter fun x ↦ x.articleId ∈ ids ∧
    db.sources.any fun s ↦ s.id = x.sourceId ∧ s.userId = userId ∧ s.sourceType = kind).map
    (·.articleId)

/-- The articles with the concept: `services/search.py:613–622`. -/
def conceptIds (db : Db) (ids : List Nat) (concept : String) : List Nat :=
  (db.articleConcepts.filter fun x ↦ x.articleId ∈ ids ∧ x.conceptName = concept).map (·.articleId)

/-- The articles with the tag of that id: `services/search.py:624–631`. -/
def tagIds (db : Db) (ids : List Nat) (tag : String) : List Nat :=
  (db.articleTags.filter fun x ↦ x.articleId ∈ ids ∧ x.tagId = tag).map (·.articleId)

/-- `_apply_facet_filters`, where an empty filter is none: `services/search.py:572`. -/
def applyFacetFilters (env : Env) (db : Db) (ids : List Nat) (userId : String) (f : Filters) :
    List Nat :=
  let remaining := narrow (truthy f.pageType)
    (fun v ↦ idsWhere db ids userId (·.pageType = v)) ids
  let remaining := narrow (truthy f.sourceKind) (sourceKindIds db ids userId) remaining
  let remaining := narrow (truthy f.concept) (conceptIds db ids) remaining
  let remaining := narrow (truthy f.tag) (tagIds db ids) remaining
  let remaining := narrow ((truthy f.dateRange).bind rangeDays)
    (fun days ↦ idsWhere db ids userId (updatedWithin env days)) remaining
  narrow (truthy f.staleness) (fun v ↦ idsWhere db remaining userId fun a ↦
    matchesStalenessBucket v (computeArticleStaleness env a)) remaining

/-- Order results by the time of their articles, latest first: `services/search.py:528–533`. -/
def sortResults (env : Env) (db : Db) (sort : Option String) (results : List FTSResultItem) :
    List FTSResultItem :=
  let date (r : FTSResultItem) : Int :=
    ((db.articles.find? (·.id = r.articleId)).map (·.updatedAt)).getD env.now
  if sort = some "recency" then results.insertionSort fun r s ↦ date s ≤ date r else results

/-- `SearchService.search`: `services/search.py:465`. -/
def search (env : Env) (db : Db) (query userId : String) (limit offset : Nat) (f : Filters)
    (sort : Option String) : FTSResponse :=
  let response := searchArticles env db query userId env.ftsMaxCandidates 0
  let ids := response.results.map (·.articleId)
  let filteredIds := applyFacetFilters env db ids userId f
  let filtered := response.results.filter (·.articleId ∈ filteredIds)
  ⟨((sortResults env db sort filtered).drop offset).take limit, filtered.length⟩

/-- A value of a facet with its count: `models/dto/wiki.py:269`. -/
structure FacetBucket where
  value : String
  count : Nat
  deriving DecidableEq, Repr

/-- A facet with its buckets: `models/dto/wiki.py:276`. -/
structure FacetGroup where
  name : String
  buckets : List FacetBucket
  deriving DecidableEq, Repr

/-- `Counter` of the values in their order. -/
def counter (values : List String) : List FacetBucket :=
  values.eraseDups.map fun v ↦ ⟨v, values.count v⟩

/-- `_counter_to_group`: `services/search.py:716`. -/
def counterToGroup (name : String) (counts : List FacetBucket) : List FacetGroup :=
  if counts.isEmpty then [] else [⟨name, counts.insertionSort fun b c ↦ c.count ≤ b.count⟩]

/-- `_facet_page_type`: `services/search.py:728`. -/
def facetPageType (db : Db) (ids : List Nat) (userId : String) : List FacetGroup :=
  counterToGroup "page_type" (counter
    ((db.articles.filter fun a ↦ a.id ∈ ids ∧ a.userId = userId).map (·.pageType)))

/-- `_facet_source_kind`, which counts sources: `services/search.py:743`. -/
def facetSourceKind (db : Db) (ids : List Nat) (userId : String) : List FacetGroup :=
  counterToGroup "source_kind" (counter
    ((db.sources.filter fun s ↦ s.userId = userId ∧
      db.articleSources.any fun x ↦ x.sourceId = s.id ∧ x.articleId ∈ ids).map (·.sourceType)))

/-- `_facet_concept`: `services/search.py:764`. -/
def facetConcept (db : Db) (ids : List Nat) : List FacetGroup :=
  counterToGroup "concept" (counter
    ((db.articleConcepts.filter (·.articleId ∈ ids)).map (·.conceptName)))

/-- `_facet_tag`, whose values are names: `services/search.py:777`. -/
def facetTag (db : Db) (ids : List Nat) (userId : String) : List FacetGroup :=
  counterToGroup "tag" (counter
    ((db.articleTags.filter (·.articleId ∈ ids)).flatMap fun x ↦
      (db.tags.filter fun t ↦ t.id = x.tagId ∧ t.userId = userId).map (·.name)))

/-- Buckets with counts, of which the empty ones are dropped. -/
def nonzeroBuckets (values : List String) (count : String → Nat) : List FacetBucket :=
  (values.map fun v ↦ ⟨v, count v⟩).filter (0 < ·.count)

/-- `_facet_date`: `services/search.py:798`. -/
def facetDate (env : Env) (db : Db) (ids : List Nat) (userId : String) : List FacetGroup :=
  let articles := db.articles.filter fun a ↦ a.id ∈ ids ∧ a.userId = userId
  [⟨"date", nonzeroBuckets ["7d", "30d", "365d"] fun v ↦
    match rangeDays v with
    | none => 0
    | some days => articles.countP (updatedWithin env days)⟩]

/-- The bucket a score is counted in: `services/search.py:844–849`. -/
def stalenessBucket (score : ℚ) : String :=
  if score < 3 / 10 then "low" else if score ≤ 7 / 10 then "medium" else "high"

/-- `_facet_staleness`: `services/search.py:827`. -/
def facetStaleness (env : Env) (db : Db) (ids : List Nat) (userId : String) : List FacetGroup :=
  let articles := db.articles.filter fun a ↦ a.id ∈ ids ∧ a.userId = userId
  [⟨"staleness", nonzeroBuckets ["low", "medium", "high"] fun v ↦
    articles.countP fun a ↦ stalenessBucket (computeArticleStaleness env a) = v⟩]

/-- `_compute_facets`: `services/search.py:698`. -/
def computeFacets (env : Env) (db : Db) (ids : List Nat) (userId : String) : List FacetGroup :=
  facetPageType db ids userId ++ facetSourceKind db ids userId ++ facetConcept db ids ++
    facetTag db ids userId ++ facetDate env db ids userId ++ facetStaleness env db ids userId

/-- The facets of a query: `models/dto/wiki.py:283`. -/
structure FacetResponse where
  facets : List FacetGroup
  total : Nat
  query : String

/-- `SearchService.get_facets`: `services/search.py:539`. -/
def getFacets (env : Env) (db : Db) (query userId : String) : FacetResponse :=
  let response := searchArticles env db query userId env.ftsMaxCandidates 0
  if response.results.isEmpty then ⟨[], 0, query⟩
  else
    let ids := response.results.map (·.articleId)
    ⟨computeFacets env db ids userId, ids.length, query⟩

/-- The additional filter that a facet value stands for, as the search page sets it:
`apps/web/src/components/wiki/FacetedSearchView.tsx`. -/
def Filters.with (f : Filters) (facet value : String) : Filters :=
  if facet = "page_type" then { f with pageType := some value }
  else if facet = "source_kind" then { f with sourceKind := some value }
  else if facet = "concept" then { f with concept := some value }
  else if facet = "tag" then { f with tag := some value }
  else if facet = "date" then { f with dateRange := some value }
  else if facet = "staleness" then { f with staleness := some value }
  else f

section Filtering

variable {env : Env} {db : Db} {ids : List Nat} {userId : String}

private theorem mem_idsWhere {p : Article → Bool} {i : Nat} :
    i ∈ idsWhere db ids userId p ↔
      i ∈ ids ∧ ∃ a ∈ db.articles, a.id = i ∧ a.userId = userId ∧ p a = true := by
  unfold idsWhere
  rw [List.mem_map]
  constructor
  · rintro ⟨a, ha, rfl⟩
    obtain ⟨ha, hcond⟩ := List.mem_filter.mp ha
    obtain ⟨hid, huser, hp⟩ := of_decide_eq_true hcond
    exact ⟨hid, a, ha, rfl, huser, hp⟩
  · rintro ⟨hid, a, ha, rfl, huser, hp⟩
    exact ⟨a, List.mem_filter.mpr ⟨ha, by simp [hid, huser, hp]⟩, rfl⟩

private theorem nodup_idsWhere (p : Article → Bool) : (idsWhere db ids userId p).Nodup :=
  db.nodup_id.sublist (List.filter_sublist.map _)

theorem mem_narrow {α : Type} {value : Option α} {select : α → List Nat} {remaining : List Nat}
    {i : Nat} : i ∈ narrow value select remaining ↔
      i ∈ remaining ∧ ∀ v ∈ value, i ∈ select v := by
  unfold narrow
  cases value with
  | none => simp
  | some v => simp [List.mem_filter]

/-- What passes the filters passes each of them on its own. -/
theorem mem_applyFacetFilters {f : Filters} {i : Nat} :
    i ∈ applyFacetFilters env db ids userId f ↔ i ∈ ids ∧
      (∀ v ∈ truthy f.pageType, i ∈ idsWhere db ids userId (·.pageType = v)) ∧
      (∀ v ∈ truthy f.sourceKind, i ∈ sourceKindIds db ids userId v) ∧
      (∀ v ∈ truthy f.concept, i ∈ conceptIds db ids v) ∧
      (∀ v ∈ truthy f.tag, i ∈ tagIds db ids v) ∧
      (∀ days ∈ (truthy f.dateRange).bind rangeDays,
        i ∈ idsWhere db ids userId (updatedWithin env days)) ∧
      ∀ v ∈ truthy f.staleness, i ∈ idsWhere db ids userId fun a ↦
        matchesStalenessBucket v (computeArticleStaleness env a) := by
  unfold applyFacetFilters
  rw [mem_narrow]
  -- The last filter looks at the remaining articles alone, which are among the given ones.
  have hlast : ∀ {remaining : List Nat} {p : String → Article → Bool},
      (i ∈ remaining → i ∈ ids) → ((i ∈ remaining ∧ ∀ v ∈ truthy f.staleness,
        i ∈ idsWhere db remaining userId (p v)) ↔ i ∈ remaining ∧ ∀ v ∈ truthy f.staleness,
          i ∈ idsWhere db ids userId (p v)) := by
    intro remaining p hsub
    simp only [mem_idsWhere]
    refine and_congr_right fun hi ↦ forall_congr' fun v ↦ forall_congr' fun _ ↦ ?_
    rw [and_iff_right hi, and_iff_right (hsub hi)]
  rw [hlast]
  · simp only [mem_narrow, and_assoc]
  · simp only [mem_narrow]
    exact fun h ↦ h.1.1.1.1.1

end Filtering

section Counting

variable {env : Env} {db : Db} {ids : List Nat} {userId : String}

/-- The matches of a query are different articles of the user. -/
theorem nodup_results (env : Env) (db : Db) (query userId : String) (limit offset : Nat) :
    ((searchArticles env db query userId limit offset).results.map (·.articleId)).Nodup := by
  unfold searchArticles
  dsimp only
  split
  · exact List.nodup_nil
  · rw [List.map_take, List.map_drop]
    refine List.Nodup.sublist ((List.take_sublist _ _).trans (List.drop_sublist _ _)) ?_
    rw [((List.perm_insertionSort _ _).map _).nodup_iff, List.map_map]
    exact db.nodup_id.sublist (List.filter_sublist.map _)

/-- As many of the given articles are in a list of them as the list is long. -/
private theorem length_filter_mem {selected : List Nat} (hids : ids.Nodup) (hnodup : selected.Nodup)
    (hsub : ∀ i ∈ selected, i ∈ ids) : (ids.filter (· ∈ selected)).length = selected.length := by
  apply List.Perm.length_eq
  rw [List.perm_ext_iff_of_nodup (hids.filter _) hnodup]
  intro i
  rw [List.mem_filter, decide_eq_true_iff]
  exact and_iff_right_of_imp (hsub i)

/-- A bucket of a group counts its value. -/
theorem count_of_mem_counter {name : String} {values : List String} {g : FacetGroup}
    {b : FacetBucket} (hg : g ∈ counterToGroup name (counter values)) (hb : b ∈ g.buckets) :
    g.name = name ∧ b.count = values.count b.value := by
  unfold counterToGroup at hg
  split at hg
  · cases hg
  · cases List.mem_singleton.mp hg
    rw [List.mem_insertionSort, counter, List.mem_map] at hb
    obtain ⟨v, _, rfl⟩ := hb
    exact ⟨rfl, rfl⟩

/-- A bucket of a fixed list of values counts its value, which is one of them. -/
theorem count_of_mem_nonzero {values : List String} {count : String → Nat} {b : FacetBucket}
    (hb : b ∈ nonzeroBuckets values count) : b.value ∈ values ∧ b.count = count b.value := by
  obtain ⟨hb, _⟩ := List.mem_filter.mp hb
  obtain ⟨v, hv, rfl⟩ := List.mem_map.mp hb
  exact ⟨hv, rfl⟩

/-- The articles of the user that meet a condition, counted. -/
theorem length_idsWhere (p : Article → Bool) : (idsWhere db ids userId p).length =
    (db.articles.filter fun a ↦ a.id ∈ ids ∧ a.userId = userId).countP p := by
  unfold idsWhere
  rw [List.length_map, List.countP_filter, List.countP_eq_length_filter]
  congr 2
  funext a
  by_cases hp : p a = true <;> by_cases hcond : a.id ∈ ids ∧ a.userId = userId <;> simp_all

/-- Scores are counted in the bucket they match. -/
theorem matches_iff_bucket {v : String} (hv : v ∈ ["low", "medium", "high"]) (score : ℚ) :
    matchesStalenessBucket v score = decide (stalenessBucket score = v) := by
  unfold stalenessBucket
  simp only [List.mem_cons, List.not_mem_nil, or_false] at hv
  rcases hv with rfl | rfl | rfl
  · by_cases hlow : score < 3 / 10
    · simp [matchesStalenessBucket, hlow]
    · by_cases hhigh : score ≤ 7 / 10 <;> simp [matchesStalenessBucket, hlow, hhigh]
  · by_cases hlow : score < 3 / 10
    · simp [matchesStalenessBucket, hlow]
    · by_cases hhigh : score ≤ 7 / 10 <;>
        simp [matchesStalenessBucket, hlow, hhigh, not_lt.mp hlow]
  · by_cases hlow : score < 3 / 10
    · have hnot : ¬ 7 / 10 < score := by linarith
      simp [matchesStalenessBucket, hlow, hnot]
    · by_cases hhigh : score ≤ 7 / 10
      · simp [matchesStalenessBucket, hlow, hhigh]
      · simp [matchesStalenessBucket, hlow, hhigh, not_le.mp hhigh]

/-- The total of a search counts the matches that pass the filters. -/
theorem total_search (env : Env) (db : Db) (query userId : String) (limit offset : Nat)
    (f : Filters) (sort : Option String) :
    (search env db query userId limit offset f sort).total =
      (((searchArticles env db query userId env.ftsMaxCandidates 0).results.map
        (·.articleId)).filter (· ∈ applyFacetFilters env db
          ((searchArticles env db query userId env.ftsMaxCandidates 0).results.map (·.articleId))
          userId f)).length := by
  rw [List.filter_map, List.length_map]
  rfl

/-- The list of articles that a value of a facet selects: it is what the filter on its own
leaves, and no more is left with other filters. -/
structure Selects (env : Env) (db : Db) (ids : List Nat) (userId facet value : String)
    (selected : List Nat) : Prop where
  nodup : selected.Nodup
  sub : ∀ i ∈ selected, i ∈ ids
  passes : ∀ f i, i ∈ applyFacetFilters env db ids userId (Filters.with f facet value) →
    i ∈ selected
  alone : ∀ i ∈ selected, i ∈ applyFacetFilters env db ids userId (Filters.none.with facet value)

private theorem Selects.length_filter {facet value : String} {selected : List Nat}
    (h : Selects env db ids userId facet value selected) (hids : ids.Nodup) :
    (ids.filter (· ∈ applyFacetFilters env db ids userId (Filters.none.with facet value))).length =
      selected.length ∧
    ∀ f, (ids.filter (· ∈ applyFacetFilters env db ids userId
      (Filters.with f facet value))).length ≤ selected.length := by
  have hall := length_filter_mem hids h.nodup h.sub
  constructor
  · rw [← hall]
    congr 1
    apply List.filter_congr
    intro i _
    rw [decide_eq_decide]
    exact ⟨h.passes _ i, h.alone i⟩
  · intro f
    rw [← hall]
    apply List.Sublist.length_le
    apply List.monotone_filter_right
    intro i hi
    rw [decide_eq_true_iff] at hi ⊢
    exact h.passes f i hi

variable {value : String}

private theorem truthy_some (hvalue : value ≠ "") : truthy (some value) = some value := by
  simp [truthy, hvalue]

private theorem truthy_none : truthy none = none := rfl

private theorem selects_pageType (hvalue : value ≠ "") :
    Selects env db ids userId "page_type" value (idsWhere db ids userId (·.pageType = value)) where
  nodup := nodup_idsWhere _
  sub i hi := (mem_idsWhere.mp hi).1
  passes f i hi := (mem_applyFacetFilters.mp hi).2.1 value (truthy_some hvalue)
  alone i hi := by
    rw [mem_applyFacetFilters]
    refine ⟨(mem_idsWhere.mp hi).1, fun v hv ↦ ?_, ?_⟩
    · rw [show truthy (Filters.none.with "page_type" value).pageType = some value from
        truthy_some hvalue] at hv
      cases hv
      exact hi
    · simp [Filters.with, Filters.none, truthy_none]

private theorem selects_concept (hvalue : value ≠ "") :
    Selects env db ids userId "concept" value (conceptIds db ids value) where
  nodup := by
    unfold conceptIds
    apply List.Nodup.map_on _ (db.nodup_concept.filter _)
    intro x hx y hy heq
    obtain ⟨_, hx⟩ := of_decide_eq_true (List.mem_filter.mp hx).2
    obtain ⟨_, hy⟩ := of_decide_eq_true (List.mem_filter.mp hy).2
    cases x
    cases y
    simp_all
  sub i hi := by
    obtain ⟨x, hx, rfl⟩ := List.mem_map.mp hi
    exact (of_decide_eq_true (List.mem_filter.mp hx).2).1
  passes f i hi := (mem_applyFacetFilters.mp hi).2.2.2.1 value (truthy_some hvalue)
  alone i hi := by
    obtain ⟨x, hx, hxi⟩ := List.mem_map.mp hi
    have hid := (of_decide_eq_true (List.mem_filter.mp hx).2).1
    rw [mem_applyFacetFilters]
    refine ⟨hxi ▸ hid, by simp [Filters.with, Filters.none, truthy_none],
      by simp [Filters.with, Filters.none, truthy_none], fun v hv ↦ ?_, ?_⟩
    · rw [show truthy (Filters.none.with "concept" value).concept = some value from
        truthy_some hvalue] at hv
      cases hv
      exact hi
    · simp [Filters.with, Filters.none, truthy_none]

private theorem selects_date {days : Int} (hdays : rangeDays value = some days) :
    Selects env db ids userId "date" value (idsWhere db ids userId (updatedWithin env days)) := by
  have hvalue : value ≠ "" := by
    rintro rfl
    cases hdays
  have hrange : ∀ f, (truthy (Filters.with f "date" value).dateRange).bind rangeDays =
      some days := by
    intro f
    rw [show truthy (Filters.with f "date" value).dateRange = some value from truthy_some hvalue]
    exact hdays
  constructor
  · exact nodup_idsWhere _
  · exact fun i hi ↦ (mem_idsWhere.mp hi).1
  · exact fun f i hi ↦ (mem_applyFacetFilters.mp hi).2.2.2.2.2.1 days (hrange f)
  · intro i hi
    rw [mem_applyFacetFilters]
    refine ⟨(mem_idsWhere.mp hi).1, by simp [Filters.with, Filters.none, truthy_none],
      by simp [Filters.with, Filters.none, truthy_none],
      by simp [Filters.with, Filters.none, truthy_none],
      by simp [Filters.with, Filters.none, truthy_none], fun d hd ↦ ?_,
      by simp [Filters.with, Filters.none, truthy_none]⟩
    rw [hrange] at hd
    cases hd
    exact hi

private theorem selects_staleness (hvalue : value ∈ ["low", "medium", "high"]) :
    Selects env db ids userId "staleness" value (idsWhere db ids userId fun a ↦
      stalenessBucket (computeArticleStaleness env a) = value) := by
  have hne : value ≠ "" := by
    rintro rfl
    simp at hvalue
  have hsame : (fun a ↦ matchesStalenessBucket value (computeArticleStaleness env a)) =
      fun a ↦ decide (stalenessBucket (computeArticleStaleness env a) = value) := by
    funext a
    exact matches_iff_bucket hvalue _
  have htruthy : ∀ f, truthy (Filters.with f "staleness" value).staleness = some value :=
    fun _ ↦ truthy_some hne
  constructor
  · exact nodup_idsWhere _
  · exact fun i hi ↦ (mem_idsWhere.mp hi).1
  · intro f i hi
    have hlast := (mem_applyFacetFilters.mp hi).2.2.2.2.2.2 value (htruthy f)
    rw [hsame] at hlast
    exact hlast
  · intro i hi
    rw [mem_applyFacetFilters]
    refine ⟨(mem_idsWhere.mp hi).1, by simp [Filters.with, Filters.none, truthy_none],
      by simp [Filters.with, Filters.none, truthy_none],
      by simp [Filters.with, Filters.none, truthy_none],
      by simp [Filters.with, Filters.none, truthy_none],
      by simp [Filters.with, Filters.none, truthy_none], fun v hv ↦ ?_⟩
    rw [htruthy] at hv
    cases hv
    rw [hsame]
    exact hi

/-- Every bucket of these four facets counts a list that its value selects. -/
theorem selects_of_mem_facets {g : FacetGroup} {b : FacetBucket}
    (hg : g ∈ computeFacets env db ids userId) (hb : b ∈ g.buckets) (hvalue : b.value ≠ "")
    (hkind : g.name ≠ "source_kind") (htag : g.name ≠ "tag") :
    ∃ selected, Selects env db ids userId g.name b.value selected ∧ selected.length = b.count := by
  unfold computeFacets at hg
  simp only [List.mem_append] at hg
  rcases hg with ((((hg | hg) | hg) | hg) | hg) | hg
  · obtain ⟨hname, hcount⟩ := count_of_mem_counter hg hb
    refine ⟨_, hname ▸ selects_pageType hvalue, ?_⟩
    rw [hcount, length_idsWhere, List.count_eq_countP, List.countP_map]
    apply List.countP_congr
    simp
  · exact absurd (count_of_mem_counter hg hb).1 hkind
  · obtain ⟨hname, hcount⟩ := count_of_mem_counter hg hb
    refine ⟨_, hname ▸ selects_concept hvalue, ?_⟩
    rw [hcount, conceptIds, List.length_map, List.count_eq_countP, List.countP_map,
      List.countP_filter, List.countP_eq_length_filter]
    congr 2
    funext x
    by_cases hc : x.conceptName = b.value <;> by_cases hid : x.articleId ∈ ids <;>
      simp [hc, hid]
  · exact absurd (count_of_mem_counter hg hb).1 htag
  · cases List.mem_singleton.mp hg
    obtain ⟨hmem, hcount⟩ := count_of_mem_nonzero hb
    obtain ⟨days, hdays⟩ : ∃ days, rangeDays b.value = some days := by
      simp only [List.mem_cons, List.not_mem_nil, or_false] at hmem
      rcases hmem with heq | heq | heq <;> exact ⟨_, by rw [heq]; rfl⟩
    refine ⟨_, selects_date hdays, ?_⟩
    rw [hcount, length_idsWhere, hdays]
  · cases List.mem_singleton.mp hg
    obtain ⟨hmem, hcount⟩ := count_of_mem_nonzero hb
    refine ⟨_, selects_staleness hmem, ?_⟩
    rw [hcount, length_idsWhere]

end Counting

/-- Every bucket of the facets of a query, of source kinds and tags apart, counts what the
search finds with the filter of its value; with other filters besides, the search finds at
most as many. -/
theorem facet_counts_results (env : Env) (db : Db) (query userId : String) {g : FacetGroup}
    {b : FacetBucket} (hg : g ∈ (getFacets env db query userId).facets) (hb : b ∈ g.buckets)
    (hvalue : b.value ≠ "") (hkind : g.name ≠ "source_kind") (htag : g.name ≠ "tag")
    (limit offset : Nat) (sort : Option String) :
    (search env db query userId limit offset (Filters.none.with g.name b.value) sort).total =
        b.count ∧
      ∀ f, (search env db query userId limit offset (Filters.with f g.name b.value) sort).total ≤
        b.count := by
  unfold getFacets at hg
  dsimp only at hg
  split at hg
  · cases hg
  · obtain ⟨selected, hselects, hlength⟩ := selects_of_mem_facets hg hb hvalue hkind htag
    obtain ⟨halone, hothers⟩ := hselects.length_filter (nodup_results env db query userId _ _)
    rw [← hlength]
    simp only [total_search]
    exact ⟨halone, hothers⟩

section Examples

/-- An engine that finds articles 1 and 2 for every query. -/
def twoHits : Env where
  fts := fun _ ↦ [⟨1, "", 0⟩, ⟨2, "", 1⟩]
  words := fun s ↦ [s]
  ftsMaxCandidates := 1000
  decayRate := 1 / 500
  now := 0

/-- A source page from two web pages, with a tag, and a concept page, both on one concept. -/
def twoPages : Db where
  articles := [⟨1, "u", "a", "A", "source", 0, none⟩, ⟨2, "u", "b", "B", "concept", 0, none⟩]
  articleSources := [⟨1, "s"⟩, ⟨1, "t"⟩]
  sources := [⟨"s", "u", "url"⟩, ⟨"t", "u", "url"⟩]
  articleConcepts := [⟨1, "ai"⟩, ⟨2, "ai"⟩]
  tags := [⟨"7", "u", "later"⟩]
  articleTags := [⟨1, "7"⟩]
  nodup_id := by decide
  nodup_concept := by decide

/-- Both pages are found by the filter of their concept. -/
theorem facet_counts_two :
    (search twoHits twoPages "ai" "u" 20 0 (Filters.none.with "concept" "ai") none).total = 2 ∧
      ∀ f, (search twoHits twoPages "ai" "u" 20 0 (Filters.with f "concept" "ai") none).total ≤ 2 :=
  facet_counts_results twoHits twoPages "ai" "u" (g := ⟨"concept", [⟨"ai", 2⟩]⟩) (b := ⟨"ai", 2⟩)
    (by decide +kernel) (by decide) (by decide) (by decide) (by decide) 20 0 none

/-- The buckets of a facet count what the search finds with the filters and their value. -/
def Exact (f : Filters) (facet : String) : Prop :=
  ∀ g ∈ (getFacets twoHits twoPages "ai" "u").facets, g.name = facet → ∀ b ∈ g.buckets,
    (search twoHits twoPages "ai" "u" 20 0 (Filters.with f facet b.value) none).total = b.count

instance (f : Filters) (facet : String) : Decidable (Exact f facet) :=
  inferInstanceAs (Decidable (∀ g ∈ (getFacets twoHits twoPages "ai" "u").facets,
    g.name = facet → ∀ b ∈ g.buckets,
      (search twoHits twoPages "ai" "u" 20 0 (Filters.with f facet b.value) none).total = b.count))

/-- A bucket does not count under the filters that are set, the source kind counts sources, and a
tag's bucket has its name where the filter has its id. -/
theorem facets_not_exact :
    ¬ Exact { Filters.none with pageType := some "source" } "concept" ∧
      ¬ Exact Filters.none "source_kind" ∧ ¬ Exact Filters.none "tag" := by
  decide +kernel

end Examples

end WikiMind.Search.Facets
