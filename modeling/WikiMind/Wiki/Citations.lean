import WikiMind.Compile.Articles
import WikiMind.Ingest.SpanHistory

/-!
# Citations of an article

`services/citation.py`: the claims of an article with the spans they cite, and with their scores.
A claim keeps the ids of its spans in a JSON column. Since no ingest loses a span or changes what
it stems from, an article cites the same spans whatever is ingested after it was compiled.
-/

namespace WikiMind.Wiki.Citations

open WikiMind.Base WikiMind.Ingest.Spans
open WikiMind.Compile (ConfidenceLevel)

/-- The articles, as far as they are looked up: `models/tables/wiki.py:35`. -/
structure Article (Score : Type) where
  id : String
  userId : String
  slug : String
  title : String
  confidenceScore : Score

/-- A column that holds a JSON list; an empty one is read as the empty list. -/
inductive JsonList (α : Type) where
  | malformed
  | items (ids : List α)

/-- `json.loads(column) if column else []`. -/
def JsonList.load {α : Type} : JsonList α → Except Exc (List α)
  | malformed => .error .valueError
  | items ids => .ok ids

/-- `models/tables/compilation.py:33`. -/
structure CompiledClaim (Score : Type) where
  id : String
  articleId : String
  userId : String
  text : String
  confidenceLevel : ConfidenceLevel
  confidenceScore : Score
  sourceIds : JsonList String
  sourceSpanIds : JsonList Nat
  lastReinforcedAt : Nat
  createdAt : Nat

structure Db (Score : Type) where
  articles : List (Article Score)
  claims : List (CompiledClaim Score)
  spans : List SourceSpan

/-- `SourceSpanResponse`. -/
structure SourceSpanResponse where
  id : Nat
  sourceId : String
  locatorKind : LocatorKind
  locator : Locator
  text : List Char
  fingerprint : String

structure ClaimCitationResponse (Score : Type) where
  id : String
  text : String
  confidenceLevel : ConfidenceLevel
  confidenceScore : Score
  sourceIds : List String
  sourceSpans : List SourceSpanResponse

structure ArticleCitationsResponse (Score : Type) where
  articleId : String
  articleTitle : String
  claims : List (ClaimCitationResponse Score)

structure ClaimConfidenceResponse (Score : Type) where
  id : String
  text : String
  confidenceLevel : ConfidenceLevel
  confidenceScore : Score
  sourceIds : List String
  lastReinforcedAt : Nat
  createdAt : Nat

structure ArticleClaimsResponse (Score : Type) where
  articleId : String
  articleTitle : String
  articleConfidenceScore : Score
  claims : List (ClaimConfidenceResponse Score)

variable {Score : Type}

/-- `WikiService._resolve_article_id`: `services/wiki.py:440`. -/
def resolveArticleId (articles : List (Article Score)) (userId idOrSlug : String) :
    Option String :=
  if idOrSlug = "" then none
  else match articles.find? fun a ↦ a.id = idOrSlug ∧ a.userId = userId with
    | some a => some a.id
    | none => (articles.find? fun a ↦ a.slug = idOrSlug ∧ a.userId = userId).map (·.id)

/-- How the database answers `ORDER BY created_at`. -/
abbrev ClaimOrder (Score : Type) := Rows.OrderBy (@CompiledClaim.createdAt Score)

/-- The claims of an article, oldest first. -/
def Db.claimsOf (order : ClaimOrder Score) (db : Db Score) (articleId userId : String) :
    List (CompiledClaim Score) :=
  order.select (db.claims.filter fun c ↦ c.articleId = articleId ∧ c.userId = userId)

/-- The ids of sources, none if the column is malformed. -/
def CompiledClaim.readSourceIds (c : CompiledClaim Score) : List String :=
  match c.sourceIds.load with
  | .ok ids => ids
  | .error _ => []

def SourceSpanResponse.ofSpan (span : SourceSpan) : SourceSpanResponse :=
  ⟨span.id, span.sourceId, span.locatorKind, span.locator, span.text, span.fingerprint⟩

/-- `spans_by_id.get(sid)`: the dictionary keeps the last span of an id. -/
def spanById (spans : List SourceSpan) (sid : Nat) : Option SourceSpan :=
  spans.reverse.find? (·.id = sid)

/-- `CitationService.get_article_citations`: `services/citation.py:41`. -/
def getArticleCitations (order : ClaimOrder Score) (db : Db Score) (idOrSlug userId : String) :
    Except Exc (ArticleCitationsResponse Score) := do
  let some articleId := resolveArticleId db.articles userId idOrSlug
    | .error (.notFound ("Article not found: " ++ idOrSlug))
  let title := ((db.articles.find? fun a ↦ a.id = articleId ∧ a.userId = userId).map
    (·.title)).getD ""
  let claims := db.claimsOf order articleId userId
  let allSpanIds := (← claims.mapM (·.sourceSpanIds.load)).flatten
  let spans := db.spans.filter fun r ↦ r.id ∈ allSpanIds ∧ r.userId = userId
  let responses ← claims.mapM fun c ↦ do
    let spanIds ← c.sourceSpanIds.load
    .ok ⟨c.id, c.text, c.confidenceLevel, c.confidenceScore, c.readSourceIds,
      (spanIds.filterMap (spanById spans)).map SourceSpanResponse.ofSpan⟩
  .ok ⟨articleId, title, responses⟩

/-- `CitationService.get_article_claims`: `services/citation.py:141`. -/
def getArticleClaims (half : Score) (order : ClaimOrder Score) (db : Db Score)
    (idOrSlug userId : String) : Except Exc (ArticleClaimsResponse Score) :=
  match resolveArticleId db.articles userId idOrSlug with
  | none => .error (.notFound ("Article not found: " ++ idOrSlug))
  | some articleId =>
    let row := db.articles.find? fun a ↦ a.id = articleId ∧ a.userId = userId
    .ok ⟨articleId, (row.map (·.title)).getD "", (row.map (·.confidenceScore)).getD half,
      (db.claimsOf order articleId userId).map fun c ↦ ⟨c.id, c.text, c.confidenceLevel,
        c.confidenceScore, c.readSourceIds, c.lastReinforcedAt, c.createdAt⟩⟩

private theorem mapM_eq_ok {α β : Type} {f : α → Except Exc β} {g : α → β} {xs : List α}
    (h : ∀ x ∈ xs, f x = .ok (g x)) : xs.mapM f = .ok (xs.map g) := by
  induction xs with
  | nil => rfl
  | cons x xs ih =>
    rw [List.mapM_cons, h x List.mem_cons_self, ih fun y hy ↦ h y (List.mem_cons_of_mem _ hy)]
    rfl

/-- The ids in the column of a claim. -/
def CompiledClaim.spanIds (c : CompiledClaim Score) : List Nat :=
  match c.sourceSpanIds with
  | .malformed => []
  | .items ids => ids

/-- A claim cites spans of a table that belong to its owner. -/
structure Anchored (spans : List SourceSpan) (c : CompiledClaim Score) : Prop where
  loads : c.sourceSpanIds = .items c.spanIds
  exist : ∀ id ∈ c.spanIds, ∃ r ∈ spans, r.id = id ∧ r.userId = c.userId

/-- The part of a response for a claim. -/
def CompiledClaim.response (spans : List SourceSpan) (c : CompiledClaim Score) :
    ClaimCitationResponse Score :=
  ⟨c.id, c.text, c.confidenceLevel, c.confidenceScore, c.readSourceIds,
    (c.spanIds.filterMap (spanById spans)).map SourceSpanResponse.ofSpan⟩

section Lookup
variable {spans : List SourceSpan} {allIds : List Nat} {userId : String}

/-- A cited span of the user is found among those that are fetched. -/
theorem spanById_of_mem {r : SourceSpan} (hnodup : (spans.map (·.id)).Nodup) (hr : r ∈ spans)
    (hid : r.id ∈ allIds) (huser : r.userId = userId) :
    spanById (spans.filter fun x ↦ x.id ∈ allIds ∧ x.userId = userId) r.id = some r := by
  unfold spanById
  apply Rows.find?_of_nodup
  · rw [List.map_reverse, List.nodup_reverse]
    exact hnodup.sublist (List.filter_sublist.map _)
  · rw [List.mem_reverse, List.mem_filter]
    exact ⟨hr, decide_eq_true ⟨hid, huser⟩⟩

/-- What is found, for each id. -/
theorem filterMap_spanById {ids : List Nat} (hnodup : (spans.map (·.id)).Nodup)
    (hall : ids ⊆ allIds) (hexist : ∀ id ∈ ids, ∃ r ∈ spans, r.id = id ∧ r.userId = userId) :
    List.Forall₂ (fun id r ↦ r ∈ spans ∧ r.id = id) ids
      (ids.filterMap
        (spanById (spans.filter fun x ↦ x.id ∈ allIds ∧ x.userId = userId))) := by
  induction ids with
  | nil => exact .nil
  | cons id ids ih =>
    obtain ⟨r, hr, rfl, huser⟩ := hexist id List.mem_cons_self
    rw [List.filterMap_cons_some
      (spanById_of_mem hnodup hr (hall List.mem_cons_self) huser)]
    exact .cons ⟨hr, rfl⟩ (ih (fun x hx ↦ hall (List.mem_cons_of_mem _ hx))
      fun x hx ↦ hexist x (List.mem_cons_of_mem _ hx))

private theorem map_id_of_forall₂ {ids : List Nat} {found : List SourceSpan}
    (h : List.Forall₂ (fun id r ↦ r ∈ spans ∧ r.id = id) ids found) : found.map (·.id) = ids := by
  induction h with
  | nil => rfl
  | cons hr _ ih => rw [List.map_cons, ih, hr.2]

end Lookup

/-- What the citations of an article are when its claims are well formed. -/
theorem getArticleCitations_eq {order : ClaimOrder Score} {db : Db Score}
    {idOrSlug userId articleId : String}
    (hresolve : resolveArticleId db.articles userId idOrSlug = some articleId)
    (hloads : ∀ c ∈ db.claimsOf order articleId userId, c.sourceSpanIds = .items c.spanIds) :
    getArticleCitations order db idOrSlug userId = .ok ⟨articleId,
      ((db.articles.find? fun a ↦ a.id = articleId ∧ a.userId = userId).map (·.title)).getD "",
      (db.claimsOf order articleId userId).map (CompiledClaim.response (db.spans.filter fun r ↦
        r.id ∈ ((db.claimsOf order articleId userId).map CompiledClaim.spanIds).flatten ∧
          r.userId = userId))⟩ := by
  have hload : ∀ c ∈ db.claimsOf order articleId userId, c.sourceSpanIds.load = .ok c.spanIds := by
    intro c hc
    rw [hloads c hc]
    rfl
  unfold getArticleCitations
  simp only [hresolve]
  rw [mapM_eq_ok hload]
  dsimp only [bind, Except.bind]
  rw [mapM_eq_ok (g := CompiledClaim.response _)]
  intro c hc
  rw [hload c hc]
  rfl

/-- Two spans that stand for one citation: their texts have one fingerprint. -/
structure SameCitation (env : Env) (before after : SourceSpanResponse) : Prop where
  id : after.id = before.id
  sourceId : after.sourceId = before.sourceId
  locatorKind : after.locatorKind = before.locatorKind
  fingerprint : after.fingerprint = before.fingerprint
  text : computeFingerprint env after.text = computeFingerprint env before.text

/-- The parts of two responses for one claim. -/
structure SameClaim (env : Env) (before after : ClaimCitationResponse Score) : Prop where
  id : after.id = before.id
  text : after.text = before.text
  sourceIds : after.sourceIds = before.sourceIds
  spans : List.Forall₂ (SameCitation env) before.sourceSpans after.sourceSpans

private theorem forall₂_join {α β γ : Type} {R : α → β → Prop} {S : α → γ → Prop} {T : β → γ → Prop}
    {as : List α} {bs : List β} {cs : List γ} (hR : List.Forall₂ R as bs)
    (hS : List.Forall₂ S as cs) (hT : ∀ a b c, R a b → S a c → T b c) :
    List.Forall₂ T bs cs := by
  induction hR generalizing cs with
  | nil =>
    cases hS
    exact .nil
  | cons hab _ ih =>
    cases hS with
    | cons hac hrest => exact .cons (hT _ _ _ hab hac) (ih hrest)

section Later
variable {env : Env} {past more : List Ingestion}

/-- The rows of one id, before and after further ingests, stand for one citation. -/
theorem sameCitation_of_id {r r' : SourceSpan} (hr : r ∈ (history env past).table)
    (hr' : r' ∈ (history env (past ++ more)).table) (hid : r'.id = r.id) :
    SameCitation env (SourceSpanResponse.ofSpan r) (SourceSpanResponse.ofSpan r') := by
  obtain ⟨x, hx, horigin, htext⟩ := exists_later more hr
  simp only [SourceSpan.origin, Prod.mk.injEq] at horigin
  obtain ⟨hxid, hsource, -, hkind, hfingerprint⟩ := horigin
  have hsame : x = r' := Rows.eq_of_nodup sound_history.nodup hr' hx (hxid.trans hid.symm)
  rw [← hsame]
  exact ⟨hxid, hsource, hkind, hfingerprint, htext⟩

theorem Anchored.later {c : CompiledClaim Score} (h : Anchored (history env past).table c) :
    Anchored (history env (past ++ more)).table c := by
  refine ⟨h.loads, fun id hid ↦ ?_⟩
  obtain ⟨r, hr, hrid, huser⟩ := h.exist id hid
  obtain ⟨x, hx, horigin, -⟩ := exists_later more hr
  simp only [SourceSpan.origin, Prod.mk.injEq] at horigin
  exact ⟨x, hx, horigin.1.trans hrid, horigin.2.2.1.trans huser⟩

private theorem sameClaim_response {allIds allIds' : List Nat} {c : CompiledClaim Score}
    {userId : String} (h : Anchored (history env past).table c) (huser : c.userId = userId)
    (hall : c.spanIds ⊆ allIds) (hall' : c.spanIds ⊆ allIds') :
    SameClaim env
      (c.response ((history env past).table.filter
        fun r ↦ r.id ∈ allIds ∧ r.userId = userId))
      (c.response ((history env (past ++ more)).table.filter
        fun r ↦ r.id ∈ allIds' ∧ r.userId = userId)) := by
  subst huser
  refine ⟨rfl, rfl, rfl, ?_⟩
  have hlater : Anchored (history env (past ++ more)).table c := h.later
  have hbefore := filterMap_spanById sound_history.nodup hall h.exist
  have hafter := filterMap_spanById sound_history.nodup hall' hlater.exist
  unfold CompiledClaim.response
  dsimp only
  rw [List.forall₂_map_left_iff, List.forall₂_map_right_iff]
  refine forall₂_join hbefore hafter fun id r r' ⟨hr, hid⟩ ⟨hr', hid'⟩ ↦ ?_
  exact sameCitation_of_id hr hr' (hid'.trans hid.symm)

end Later

/-- An article whose claims cite spans of its owner cites them, in the order of each claim, and
goes on to do so whatever is ingested: the same spans of the same sources, whose texts have the
fingerprints they had. Claims of one time may come in another order. -/
theorem citations_kept (env : Env) (past later : List Ingestion)
    (orderBefore orderAfter : ClaimOrder Score) (articles : List (Article Score))
    (claims : List (CompiledClaim Score)) (idOrSlug userId articleId : String)
    (hresolve : resolveArticleId articles userId idOrSlug = some articleId)
    (hanchored : ∀ c ∈ claims, c.articleId = articleId → c.userId = userId →
      Anchored (history env past).table c) :
    ∃ before after cited cited',
      getArticleCitations orderBefore ⟨articles, claims, (history env past).table⟩ idOrSlug
        userId = .ok before ∧
      getArticleCitations orderAfter ⟨articles, claims, (history env (past ++ later)).table⟩
        idOrSlug userId = .ok after ∧
      before.claims = ((Db.mk articles claims []).claimsOf orderBefore articleId userId).map cited ∧
      after.claims = ((Db.mk articles claims []).claimsOf orderAfter articleId userId).map cited' ∧
      ∀ c ∈ claims, c.articleId = articleId → c.userId = userId →
        (cited c).id = c.id ∧ (cited c).sourceSpans.map (·.id) = c.spanIds ∧
          SameClaim env (cited c) (cited' c) := by
  have hmine : ∀ (order : ClaimOrder Score) c,
      c ∈ (Db.mk articles claims []).claimsOf order articleId userId ↔
        c ∈ claims ∧ c.articleId = articleId ∧ c.userId = userId := by
    intro order c
    rw [Db.claimsOf, (order.perm _).mem_iff, List.mem_filter, decide_eq_true_iff]
  have hids : ∀ (order : ClaimOrder Score) c, c ∈ claims → c.articleId = articleId →
      c.userId = userId → c.spanIds ⊆ (((Db.mk articles claims []).claimsOf order articleId
        userId).map CompiledClaim.spanIds).flatten := fun order c hc harticle huser id hid ↦
    List.mem_flatten.mpr
      ⟨_, List.mem_map_of_mem ((hmine order c).mpr ⟨hc, harticle, huser⟩), hid⟩
  have hloads : ∀ (order : ClaimOrder Score),
      ∀ c ∈ (Db.mk articles claims []).claimsOf order articleId userId,
        c.sourceSpanIds = .items c.spanIds := by
    intro order c hc
    obtain ⟨hmem, harticle, huser⟩ := (hmine order c).mp hc
    exact (hanchored c hmem harticle huser).loads
  have heq : ∀ (order : ClaimOrder Score) (table : List SourceSpan),
      getArticleCitations order ⟨articles, claims, table⟩ idOrSlug userId = .ok ⟨articleId, _,
        ((Db.mk articles claims []).claimsOf order articleId userId).map
          (CompiledClaim.response (table.filter fun r ↦
            r.id ∈ (((Db.mk articles claims []).claimsOf order articleId userId).map
              CompiledClaim.spanIds).flatten ∧ r.userId = userId))⟩ := fun order table ↦
    @getArticleCitations_eq _ order ⟨articles, claims, table⟩ _ _ _ hresolve (hloads order)
  refine ⟨_, _, _, _, heq orderBefore _, heq orderAfter _, rfl, rfl, ?_⟩
  intro c hc harticle huser
  have hanchor := hanchored c hc harticle huser
  refine ⟨rfl, ?_, sameClaim_response hanchor huser (hids orderBefore c hc harticle huser)
    (hids orderAfter c hc harticle huser)⟩
  subst huser
  have hfound := map_id_of_forall₂ (filterMap_spanById sound_history.nodup
    (hids orderBefore c hc harticle rfl) hanchor.exist)
  simp only [CompiledClaim.response, List.map_map]
  exact hfound

/-- A note and its corrected version. -/
def noteIngests : List Ingestion :=
  [⟨.text "Cats purr.".toList, "s", "u", .asInserted⟩,
    ⟨.text "Old cats\n\ncats PURR".toList, "s", "u", .asInserted⟩]

/-- A claim that cites the paragraph of the note. -/
def noteClaim : CompiledClaim Nat where
  id := "c"
  articleId := "a"
  userId := "u"
  text := "Cats purr"
  confidenceLevel := .sourced
  confidenceScore := 1
  sourceIds := .items ["s"]
  sourceSpanIds := .items [0]
  lastReinforcedAt := 0
  createdAt := 0

private theorem anchored_noteClaim :
    Anchored (history asciiEnv (noteIngests.take 1)).table noteClaim := by
  refine ⟨rfl, fun id hid ↦ ?_⟩
  rw [List.mem_singleton.mp hid]
  decide +kernel

theorem citations_kept_note : ∃ before after cited cited',
    getArticleCitations (.stable _) ⟨[⟨"a", "u", "cats", "Cats", 1⟩], [noteClaim],
      (history asciiEnv (noteIngests.take 1)).table⟩ "cats" "u" = .ok before ∧
    getArticleCitations (.stable _) ⟨[⟨"a", "u", "cats", "Cats", 1⟩], [noteClaim],
      (history asciiEnv (noteIngests.take 1 ++ noteIngests.drop 1)).table⟩ "cats" "u" =
        .ok after ∧
    before.claims = ((Db.mk [⟨"a", "u", "cats", "Cats", 1⟩] [noteClaim] []).claimsOf (.stable _)
      "a" "u").map cited ∧
    after.claims = ((Db.mk [⟨"a", "u", "cats", "Cats", 1⟩] [noteClaim] []).claimsOf (.stable _)
      "a" "u").map cited' ∧
    ∀ c ∈ [noteClaim], c.articleId = "a" → c.userId = "u" →
      (cited c).id = c.id ∧ (cited c).sourceSpans.map (·.id) = c.spanIds ∧
        SameClaim asciiEnv (cited c) (cited' c) :=
  citations_kept asciiEnv (noteIngests.take 1) (noteIngests.drop 1) (.stable _) (.stable _)
    [⟨"a", "u", "cats", "Cats", 1⟩] [noteClaim] "cats" "u" "a" (by decide) fun c hc _ _ ↦ by
      rw [List.mem_singleton.mp hc]
      exact anchored_noteClaim

end WikiMind.Wiki.Citations
