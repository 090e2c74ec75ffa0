import Mathlib.Data.Finset.Card
import Mathlib.Data.Sym.Sym2
import WikiMind.Base.FirstByKey
import WikiMind.Base.Multimap
import WikiMind.Base.Tally
import WikiMind.Export.Zip
import WikiMind.Lint.Findings

/-!
# Synthesis suggestions

`WikiService.get_synthesis_suggestions` (`services/wiki.py:1294`) proposes pairs of articles for a
synthesis page. Three passes look for shared concepts, for active contradictions and for one topic
in different sources; a pair that an earlier pass has proposed is skipped. Sets are iterated in an
order the language leaves open.
-/

namespace WikiMind.Wiki.Suggestions

open WikiMind.Base
open WikiMind.Lint.Findings (ContradictionStatus)

/-- `models/tables/wiki.py:35`. -/
structure Article where
  id : String
  userId : String
  title : String
  pageType : Export.PageType

/-- `models/tables/wiki.py:95`. -/
structure ArticleConcept where
  articleId : String
  conceptName : String

/-- `models/tables/wiki.py:107`. -/
structure ArticleSource where
  articleId : String
  sourceId : String

/-- `models/tables/lint.py:93`. -/
structure Contradiction where
  articleAId : String
  articleBId : String
  userId : String
  status : ContradictionStatus

structure Db where
  articles : List Article
  articleConcepts : List ArticleConcept
  articleSources : List ArticleSource
  contradictions : List Contradiction

/-- The order in which a set is iterated. -/
structure SetOrder where
  list : List String → List String
  perm : ∀ elements, (list elements).Perm elements

/-- `models/dto/synthesis.py:92`. -/
structure SynthesisSuggestion where
  articleIds : List String
  articleTitles : List String
  reason : String
  suggestedType : String

/-- A suggestion with the pair it is for, `frozenset(article_ids)`. -/
structure Proposal where
  pair : Sym2 String
  suggestion : SynthesisSuggestion

/-- `suggestions` and `seen_pairs`. -/
structure Progress where
  suggestions : List SynthesisSuggestion
  seenPairs : List (Sym2 String)

/-- Append a suggestion for a pair that is not seen yet. -/
def Progress.propose (s : Progress) (p : Proposal) : Progress :=
  if p.pair ∈ s.seenPairs then s
  else ⟨s.suggestions ++ [p.suggestion], s.seenPairs ++ [p.pair]⟩

/-- The pairs of `for i in range(n): for j in range(i + 1, n)`. -/
def pairsOf {α : Type} : List α → List (α × α)
  | [] => []
  | a :: rest => rest.map (a, ·) ++ pairsOf rest

/-- The concepts of the user's articles that are no synthesis pages. -/
def conceptRows (db : Db) (userId : String) : List ArticleConcept :=
  db.articleConcepts.filter fun row ↦ db.articles.any fun a ↦
    a.id = row.articleId ∧ a.userId = userId ∧ a.pageType ≠ .synthesis

/-- `_build_concept_maps`: `services/wiki.py:1327`. -/
def buildConceptMaps (db : Db) (userId : String) :
    List (String × List String) × List (String × List String) :=
  let rows := conceptRows db userId
  (Multimap.collect (rows.map fun r ↦ (r.conceptName, r.articleId)),
    Multimap.collect (rows.map fun r ↦ (r.articleId, r.conceptName)))

/-- `article_concepts[aid_a] & article_concepts[aid_b]`. -/
def sharedConcepts (articleConcepts : List (String × List String)) (a b : String) :
    List String :=
  (Multimap.get articleConcepts a).filter fun c ↦ (Multimap.get articleConcepts b).contains c

/-- `_find_shared_concept_suggestions`: `services/wiki.py:1349`. -/
def findSharedConcepts (articleConcepts : List (String × List String)) (s : Progress) : Progress :=
  (pairsOf (articleConcepts.map Prod.fst)).foldl (fun s (a, b) ↦
    let shared := sharedConcepts articleConcepts a b
    if 3 ≤ shared.length then
      s.propose ⟨s(a, b), [a, b], [], "Share " ++ toString shared.length ++ " concepts: " ++
        ", ".intercalate ((shared.mergeSort fun c d ↦ decide (c ≤ d)).take 5),
        "shared_concepts"⟩
    else s) s

/-- `list(pair_key)`. -/
def pairIds (order : SetOrder) (pair : Sym2 String) : List String :=
  order.list (pair.lift ⟨fun a b ↦ if a = b then [a] else if a < b then [a, b] else [b, a],
    fun a b ↦ by
      by_cases heq : a = b
      · rw [heq]
      · rcases lt_or_gt_of_ne heq with hlt | hlt
        · simp [heq, Ne.symm heq, hlt, not_lt_of_gt hlt]
        · simp [heq, Ne.symm heq, hlt, not_lt_of_gt hlt]⟩)

/-- `_find_contradiction_suggestions`: `services/wiki.py:1374`. -/
def findContradictions (order : SetOrder) (db : Db) (userId : String) (s : Progress) : Progress :=
  let active := db.contradictions.filter fun c ↦ c.userId = userId ∧ c.status = .active
  let contradictionPairs := Tally.tally (fun c : Contradiction ↦ s(c.articleAId, c.articleBId))
    (fun _ ↦ 1) (fun _ ↦ true) active
  contradictionPairs.foldl (fun s (pair, count) ↦ s.propose ⟨pair, pairIds order pair, [],
    toString count ++ " active contradiction(s) between these articles", "contradiction"⟩) s

/-- `_has_different_sources`: `services/wiki.py:1438`. -/
def hasDifferentSources (db : Db) (a b : String) : Bool :=
  let sourcesOf (x : String) := (db.articleSources.filter (·.articleId = x)).map (·.sourceId)
  sourcesOf a ≠ [] && sourcesOf b ≠ [] && (sourcesOf a).all fun s ↦ !(sourcesOf b).contains s

/-- `_find_different_source_suggestions`: `services/wiki.py:1406`. -/
def findDifferentSources (order : SetOrder) (db : Db)
    (conceptToArticles : List (String × List String)) (s : Progress) : Progress :=
  conceptToArticles.foldl (fun s (conceptName, aids) ↦
    if aids.length < 2 then s
    else (pairsOf (order.list aids)).foldl (fun s (a, b) ↦
      if s(a, b) ∈ s.seenPairs then s
      else if hasDifferentSources db a b then
        s.propose ⟨s(a, b), [a, b], [], "Same topic (" ++ conceptName ++ ") from different sources",
          "same_topic_different_sources"⟩
      else s) s) s

/-- `_resolve_suggestion_titles`: `services/wiki.py:1451`. -/
def resolveTitles (db : Db) (s : SynthesisSuggestion) : SynthesisSuggestion :=
  { s with articleTitles := s.articleIds.map fun aid ↦
      ((db.articles.find? (·.id = aid)).map (·.title)).getD "Unknown" }

/-- The three passes. -/
def findSuggestions (order : SetOrder) (db : Db) (userId : String) : Progress :=
  let (conceptToArticles, articleConcepts) := buildConceptMaps db userId
  findDifferentSources order db conceptToArticles
    (findContradictions order db userId (findSharedConcepts articleConcepts ⟨[], []⟩))

/-- `get_synthesis_suggestions`: `services/wiki.py:1294`. -/
def getSynthesisSuggestions (order : SetOrder) (db : Db) (userId : String) (limit : Nat) :
    List SynthesisSuggestion :=
  ((findSuggestions order db userId).suggestions.map (resolveTitles db)).take limit

/-! ### The passes as insertions -/

/-- The progress that proposals for different pairs make. -/
def Progress.of (ps : List Proposal) : Progress := ⟨ps.map (·.suggestion), ps.map (·.pair)⟩

private theorem propose_of (ps : List Proposal) (p : Proposal) :
    (Progress.of ps).propose p = Progress.of (Rows.insertNew Proposal.pair ps p) := by
  unfold Progress.propose Rows.insertNew
  have hseen : p.pair ∈ (Progress.of ps).seenPairs ↔ ps.any (·.pair = p.pair) = true := by
    simp [Progress.of]
  by_cases h : p.pair ∈ (Progress.of ps).seenPairs
  · rw [if_pos h, if_pos (hseen.mp h)]
  · rw [if_neg h, if_neg (fun hany ↦ h (hseen.mpr hany))]
    simp [Progress.of]

/-- A pass that proposes something for some of its items inserts these proposals. -/
theorem foldl_of {α : Type} {step : Progress → α → Progress} {candidate : α → Option Proposal}
    (hstep : ∀ ps a, step (Progress.of ps) a = match candidate a with
      | some p => (Progress.of ps).propose p
      | none => Progress.of ps) (items : List α) (ps : List Proposal) :
    items.foldl step (Progress.of ps) =
      Progress.of ((items.filterMap candidate).foldl (Rows.insertNew Proposal.pair) ps) := by
  induction items generalizing ps with
  | nil => rfl
  | cons a items ih =>
    rw [List.foldl_cons, hstep]
    cases hcandidate : candidate a with
    | none => rw [List.filterMap_cons_none hcandidate, ih]
    | some p =>
      dsimp only
      rw [List.filterMap_cons_some hcandidate, propose_of, ih, List.foldl_cons]

section Passes
variable (order : SetOrder) (db : Db) (userId : String)

/-- What the first pass proposes for two articles. -/
def sharedProposal (articleConcepts : List (String × List String)) (p : String × String) :
    Option Proposal :=
  let shared := sharedConcepts articleConcepts p.1 p.2
  if 3 ≤ shared.length then
    some ⟨s(p.1, p.2), [p.1, p.2], [], "Share " ++ toString shared.length ++ " concepts: " ++
      ", ".intercalate ((shared.mergeSort fun c d ↦ decide (c ≤ d)).take 5), "shared_concepts"⟩
  else none

def sharedProposals : List Proposal :=
  let articleConcepts := (buildConceptMaps db userId).2
  (pairsOf (articleConcepts.map Prod.fst)).filterMap (sharedProposal articleConcepts)

/-- The number of active contradictions of each pair that has some. -/
def contradictionPairs : List (Sym2 String × Nat) :=
  Tally.tally (fun c : Contradiction ↦ s(c.articleAId, c.articleBId)) (fun _ ↦ 1) (fun _ ↦ true)
    (db.contradictions.filter fun c ↦ c.userId = userId ∧ c.status = .active)

def contradictionProposal (p : Sym2 String × Nat) : Proposal :=
  ⟨p.1, pairIds order p.1, [], toString p.2 ++ " active contradiction(s) between these articles",
    "contradiction"⟩

def contradictionProposals : List Proposal :=
  (contradictionPairs db userId).map (contradictionProposal order)

/-- What the last pass proposes for two articles with a concept. -/
def sourceProposal (conceptName : String) (p : String × String) : Option Proposal :=
  if hasDifferentSources db p.1 p.2 then
    some ⟨s(p.1, p.2), [p.1, p.2], [], "Same topic (" ++ conceptName ++
      ") from different sources", "same_topic_different_sources"⟩
  else none

def sourceProposals : List Proposal :=
  (buildConceptMaps db userId).1.flatMap fun (conceptName, aids) ↦
    if aids.length < 2 then []
    else (pairsOf (order.list aids)).filterMap (sourceProposal db conceptName)

private theorem findSharedConcepts_of (ps : List Proposal) :
    findSharedConcepts (buildConceptMaps db userId).2 (Progress.of ps) =
      Progress.of ((sharedProposals db userId).foldl (Rows.insertNew Proposal.pair) ps) := by
  unfold findSharedConcepts sharedProposals
  refine foldl_of (fun ps p ↦ ?_) _ ps
  unfold sharedProposal
  dsimp only
  split <;> rfl

private theorem findContradictions_of (ps : List Proposal) :
    findContradictions order db userId (Progress.of ps) =
      Progress.of ((contradictionProposals order db userId).foldl
        (Rows.insertNew Proposal.pair) ps) := by
  unfold findContradictions contradictionProposals
  rw [← List.filterMap_eq_map]
  exact foldl_of (fun _ _ ↦ rfl) _ ps

private theorem findDifferentSources_of (ps : List Proposal) :
    findDifferentSources order db (buildConceptMaps db userId).1 (Progress.of ps) =
      Progress.of ((sourceProposals order db userId).foldl
        (Rows.insertNew Proposal.pair) ps) := by
  unfold findDifferentSources sourceProposals
  induction (buildConceptMaps db userId).1 generalizing ps with
  | nil => rfl
  | cons entry rest ih =>
    rw [List.foldl_cons, List.flatMap_cons, List.foldl_append]
    by_cases hfew : entry.2.length < 2
    · simp only [hfew, if_true]
      exact ih ps
    · simp only [hfew, if_false]
      rw [@foldl_of _ _ (sourceProposal db entry.1), ih]
      rintro ps ⟨a, b⟩
      unfold sourceProposal
      dsimp only
      by_cases hseen : s(a, b) ∈ (Progress.of ps).seenPairs
      · rw [if_pos hseen]
        split
        · next p hp =>
          split at hp
          · cases hp
            rw [Progress.propose, if_pos hseen]
          · cases hp
        · rfl
      · rw [if_neg hseen]
        split <;> rfl

/-- All proposals, of which the first for a pair is kept. -/
def proposals : List Proposal :=
  sharedProposals db userId ++
    (contradictionProposals order db userId ++ sourceProposals order db userId)

private theorem findSuggestions_eq : findSuggestions order db userId =
    Progress.of ((proposals order db userId).foldl (Rows.insertNew Proposal.pair) []) := by
  have hstart : (⟨[], []⟩ : Progress) = Progress.of [] := rfl
  unfold findSuggestions proposals
  dsimp only
  rw [hstart, findSharedConcepts_of, findContradictions_of, findDifferentSources_of,
    List.foldl_append, List.foldl_append]

end Passes

/-! ### What is proposed -/

section Pairs
variable {α : Type} {l : List α} {x y : α}

private theorem of_mem_pairsOf (h : l.Nodup) (hp : (x, y) ∈ pairsOf l) : x ∈ l ∧ y ∈ l ∧ x ≠ y := by
  induction l with
  | nil => cases hp
  | cons a rest ih =>
    rw [List.nodup_cons] at h
    rcases List.mem_append.mp hp with hp | hp
    · obtain ⟨b, hb, heq⟩ := List.mem_map.mp hp
      cases heq
      exact ⟨List.mem_cons_self, List.mem_cons_of_mem _ hb, fun hab ↦ h.1 (hab ▸ hb)⟩
    · obtain ⟨hx, hy, hne⟩ := ih h.2 hp
      exact ⟨List.mem_cons_of_mem _ hx, List.mem_cons_of_mem _ hy, hne⟩

private theorem mem_pairsOf_or (hx : x ∈ l) (hy : y ∈ l) (hne : x ≠ y) :
    (x, y) ∈ pairsOf l ∨ (y, x) ∈ pairsOf l := by
  induction l with
  | nil => cases hx
  | cons a rest ih =>
    rcases List.mem_cons.mp hx with rfl | hxrest
    · rcases List.mem_cons.mp hy with rfl | hyrest
      · exact absurd rfl hne
      · exact .inl (List.mem_append_left _ (List.mem_map_of_mem hyrest))
    · rcases List.mem_cons.mp hy with rfl | hyrest
      · exact .inr (List.mem_append_left _ (List.mem_map_of_mem hxrest))
      · exact (ih hxrest hyrest).imp (List.mem_append_right _) (List.mem_append_right _)

/-- A loop over the pairs of distinct elements meets two of them once, in one of their orders. -/
theorem exists_mem_pairsOf_iff (h : l.Nodup) {R : α → α → Prop} (hR : ∀ a b, R a b → R b a) :
    (∃ p ∈ pairsOf l, R p.1 p.2 ∧ s(p.1, p.2) = s(x, y)) ↔ x ∈ l ∧ y ∈ l ∧ x ≠ y ∧ R x y := by
  constructor
  · rintro ⟨⟨a, b⟩, hp, hab, heq⟩
    obtain ⟨ha, hb, hne⟩ := of_mem_pairsOf h hp
    rcases Sym2.eq_iff.mp heq with ⟨rfl, rfl⟩ | ⟨rfl, rfl⟩
    · exact ⟨ha, hb, hne, hab⟩
    · exact ⟨hb, ha, hne.symm, hR _ _ hab⟩
  · rintro ⟨hx, hy, hne, hxy⟩
    rcases mem_pairsOf_or hx hy hne with hp | hp
    · exact ⟨(x, y), hp, hxy, rfl⟩
    · exact ⟨(y, x), hp, hR _ _ hxy, Sym2.eq_swap⟩

end Pairs

section Reasons
variable (db : Db) (userId : String)

/-- The concepts of an article of the user that is no synthesis page. -/
def conceptsOf (articleId : String) : Finset String :=
  (((conceptRows db userId).filter (·.articleId = articleId)).map (·.conceptName)).toFinset

/-- The articles share three concepts. -/
def ShareConcepts (a b : String) : Prop :=
  3 ≤ (conceptsOf db userId a ∩ conceptsOf db userId b).card

/-- An active contradiction is between the articles. -/
def Contradict (a b : String) : Prop :=
  ∃ c ∈ db.contradictions, c.userId = userId ∧ c.status = .active ∧
    s(c.articleAId, c.articleBId) = s(a, b)

/-- The sources of an article. -/
def sourcesOf (articleId : String) : Finset String :=
  ((db.articleSources.filter (·.articleId = articleId)).map (·.sourceId)).toFinset

/-- The articles share a concept, and have sources, but none in common. -/
def DifferInSources (a b : String) : Prop :=
  (conceptsOf db userId a ∩ conceptsOf db userId b).Nonempty ∧
    (sourcesOf db a).Nonempty ∧ (sourcesOf db b).Nonempty ∧
      Disjoint (sourcesOf db a) (sourcesOf db b)

private theorem mem_conceptsOf {articleId c : String} : c ∈ conceptsOf db userId articleId ↔
    ∃ row ∈ conceptRows db userId, row.articleId = articleId ∧ row.conceptName = c := by
  simp [conceptsOf, and_assoc]

private theorem get_articleConcepts {articleId c : String} :
    c ∈ Multimap.get (buildConceptMaps db userId).2 articleId ↔
      c ∈ conceptsOf db userId articleId := by
  unfold buildConceptMaps
  rw [(Multimap.collect_spec _).2.1, mem_conceptsOf]
  simp

private theorem mem_articlesOf {c articleId : String} :
    articleId ∈ Multimap.get (buildConceptMaps db userId).1 c ↔
      c ∈ conceptsOf db userId articleId := by
  unfold buildConceptMaps
  rw [(Multimap.collect_spec _).2.1, mem_conceptsOf]
  simp [and_comm]

private theorem length_sharedConcepts (a b : String) :
    (sharedConcepts (buildConceptMaps db userId).2 a b).length =
      (conceptsOf db userId a ∩ conceptsOf db userId b).card := by
  have hsound := (Multimap.collect_spec ((conceptRows db userId).map
    fun r ↦ (r.articleId, r.conceptName))).1
  have hnodup : (sharedConcepts (buildConceptMaps db userId).2 a b).Nodup :=
    (Multimap.nodup_get hsound a).filter _
  rw [← List.toFinset_card_of_nodup hnodup]
  congr 1
  ext c
  rw [List.mem_toFinset, sharedConcepts, List.mem_filter, List.contains_iff_mem,
    get_articleConcepts, get_articleConcepts, Finset.mem_inter]

private theorem shareConcepts_symm {a b : String} (h : ShareConcepts db userId a b) :
    ShareConcepts db userId b a := by
  unfold ShareConcepts at *
  rwa [Finset.inter_comm]

private theorem hasDifferentSources_iff (a b : String) : hasDifferentSources db a b = true ↔
    (sourcesOf db a).Nonempty ∧ (sourcesOf db b).Nonempty ∧
      Disjoint (sourcesOf db a) (sourcesOf db b) := by
  have hnonempty : ∀ x : String, (sourcesOf db x).Nonempty ↔
      (db.articleSources.filter (·.articleId = x)).map (·.sourceId) ≠ [] := by
    intro x
    rw [sourcesOf, List.toFinset_nonempty_iff]
  rw [hnonempty, hnonempty]
  unfold hasDifferentSources
  dsimp only
  rw [Bool.and_eq_true, Bool.and_eq_true, decide_eq_true_eq, decide_eq_true_eq, and_assoc,
    List.all_eq_true, Finset.disjoint_left]
  simp only [sourcesOf, List.mem_toFinset, Bool.not_eq_true', List.contains_eq_mem,
    decide_eq_false_iff_not]

variable (order : SetOrder) {a b : String}

private theorem sharedProposal_eq_some {p : String × String} {q : Proposal} :
    sharedProposal (buildConceptMaps db userId).2 p = some q →
      ShareConcepts db userId p.1 p.2 ∧ q.pair = s(p.1, p.2) ∧
        q.suggestion.articleIds = [p.1, p.2] ∧ q.suggestion.suggestedType = "shared_concepts" := by
  unfold sharedProposal
  dsimp only
  intro h
  split at h
  · next hlength =>
    cases h
    rw [length_sharedConcepts] at hlength
    exact ⟨hlength, rfl, rfl, rfl⟩
  · cases h

private theorem exists_sharedProposal {p : String × String} (h : ShareConcepts db userId p.1 p.2) :
    ∃ q, sharedProposal (buildConceptMaps db userId).2 p = some q := by
  unfold ShareConcepts at h
  rw [← length_sharedConcepts] at h
  unfold sharedProposal
  dsimp only
  rw [if_pos h]
  exact ⟨_, rfl⟩

/-- The first pass proposes the pairs that share three concepts. -/
theorem exists_sharedProposal_iff :
    (∃ p ∈ sharedProposals db userId, p.pair = s(a, b)) ↔ a ≠ b ∧ ShareConcepts db userId a b := by
  have hspec := Multimap.collect_spec ((conceptRows db userId).map
    fun r ↦ (r.articleId, r.conceptName))
  have hpairs := exists_mem_pairsOf_iff (x := a) (y := b) hspec.1.keys
    (R := ShareConcepts db userId) fun _ _ ↦ shareConcepts_symm db userId
  have hmem : ∀ x c, c ∈ conceptsOf db userId x →
      x ∈ (buildConceptMaps db userId).2.map Prod.fst := by
    intro x c hc
    exact (hspec.2.2 x).mpr ⟨c, (hspec.2.1 x c).mp ((get_articleConcepts db userId).mpr hc)⟩
  constructor
  · rintro ⟨q, hq, heq⟩
    obtain ⟨p, hp, hcandidate⟩ := List.mem_filterMap.mp hq
    obtain ⟨hshare, hpair, -⟩ := sharedProposal_eq_some db userId hcandidate
    obtain ⟨-, -, hne, hab⟩ := hpairs.mp ⟨p, hp, hshare, hpair ▸ heq⟩
    exact ⟨hne, hab⟩
  · rintro ⟨hne, hshare⟩
    obtain ⟨c, hc⟩ := Finset.card_pos.mp (lt_of_lt_of_le (by decide) hshare)
    obtain ⟨hca, hcb⟩ := Finset.mem_inter.mp hc
    obtain ⟨p, hp, hshared, heq⟩ := hpairs.mpr ⟨hmem a c hca, hmem b c hcb, hne, hshare⟩
    obtain ⟨q, hq⟩ := exists_sharedProposal db userId hshared
    exact ⟨q, List.mem_filterMap.mpr ⟨p, hp, hq⟩,
      (sharedProposal_eq_some db userId hq).2.1.trans heq⟩

/-- The second pass proposes the pairs with an active contradiction. -/
theorem exists_contradictionProposal_iff :
    (∃ p ∈ contradictionProposals order db userId, p.pair = s(a, b)) ↔
      Contradict db userId a b := by
  have hkeys : s(a, b) ∈ (contradictionPairs db userId).map Prod.fst ↔
      ∃ c ∈ db.contradictions.filter fun c ↦ c.userId = userId ∧ c.status = .active,
        true = true ∧ s(c.articleAId, c.articleBId) = s(a, b) := Tally.mem_keys_tally
  unfold contradictionProposals
  constructor
  · rintro ⟨q, hq, heq⟩
    obtain ⟨entry, hentry, rfl⟩ := List.mem_map.mp hq
    have hkey : s(a, b) ∈ (contradictionPairs db userId).map Prod.fst :=
      heq ▸ List.mem_map_of_mem hentry
    obtain ⟨c, hc, -, hpair⟩ := hkeys.mp hkey
    obtain ⟨hmem, hprop⟩ := List.mem_filter.mp hc
    obtain ⟨huser, hactive⟩ := of_decide_eq_true hprop
    exact ⟨c, hmem, huser, hactive, hpair⟩
  · rintro ⟨c, hmem, huser, hactive, hpair⟩
    obtain ⟨entry, hentry, heq⟩ := List.mem_map.mp (hkeys.mpr
      ⟨c, List.mem_filter.mpr ⟨hmem, decide_eq_true ⟨huser, hactive⟩⟩, rfl, hpair⟩)
    exact ⟨_, List.mem_map_of_mem hentry, heq⟩

private theorem sourceProposal_eq_some {c : String} {p : String × String} {q : Proposal}
    (h : sourceProposal db c p = some q) : hasDifferentSources db p.1 p.2 = true ∧
      q.pair = s(p.1, p.2) ∧ q.suggestion.articleIds = [p.1, p.2] ∧
        q.suggestion.suggestedType = "same_topic_different_sources" := by
  unfold sourceProposal at h
  split at h
  · next hdifferent =>
    cases h
    exact ⟨hdifferent, rfl, rfl, rfl⟩
  · cases h

private theorem mem_sourceProposals {q : Proposal} : q ∈ sourceProposals order db userId ↔
    ∃ entry ∈ (buildConceptMaps db userId).1, 2 ≤ entry.2.length ∧
      ∃ p ∈ pairsOf (order.list entry.2), sourceProposal db entry.1 p = some q := by
  unfold sourceProposals
  rw [List.mem_flatMap]
  refine exists_congr fun entry ↦ and_congr_right fun _ ↦ ?_
  dsimp only
  split
  · next hfew =>
    refine iff_of_false List.not_mem_nil fun ⟨hmany, _⟩ ↦ ?_
    omega
  · next hmany =>
    rw [List.mem_filterMap, and_iff_right (Nat.le_of_not_lt hmany)]

/-- The last pass proposes the pairs with a concept in common and with sources, none of them in
common. -/
theorem exists_sourceProposal_iff :
    (∃ p ∈ sourceProposals order db userId, p.pair = s(a, b)) ↔
      a ≠ b ∧ DifferInSources db userId a b := by
  have hspec := Multimap.collect_spec ((conceptRows db userId).map
    fun r ↦ (r.conceptName, r.articleId))
  have hsymm : ∀ x y, hasDifferentSources db x y = true → hasDifferentSources db y x = true := by
    intro x y h
    rw [hasDifferentSources_iff] at h ⊢
    exact ⟨h.2.1, h.1, h.2.2.symm⟩
  have hlist : ∀ entry ∈ (buildConceptMaps db userId).1, (order.list entry.2).Nodup :=
    fun entry hentry ↦ (order.perm _).nodup_iff.mpr (hspec.1.values entry hentry)
  have hmem : ∀ entry ∈ (buildConceptMaps db userId).1, ∀ x,
      x ∈ order.list entry.2 ↔ entry.1 ∈ conceptsOf db userId x := by
    intro entry hentry x
    have hget : Multimap.get (buildConceptMaps db userId).1 entry.1 = entry.2 :=
      Multimap.get_of_mem hspec.1.keys hentry
    rw [(order.perm _).mem_iff, ← mem_articlesOf, hget]
  constructor
  · rintro ⟨q, hq, heq⟩
    obtain ⟨entry, hentry, -, p, hp, hcandidate⟩ := (mem_sourceProposals db userId order).mp hq
    obtain ⟨hdifferent, hpair, -⟩ := sourceProposal_eq_some db hcandidate
    obtain ⟨ha, hb, hne, hab⟩ := (exists_mem_pairsOf_iff (hlist entry hentry) hsymm).mp
      ⟨p, hp, hdifferent, hpair ▸ heq⟩
    exact ⟨hne, ⟨entry.1, Finset.mem_inter.mpr
      ⟨(hmem entry hentry a).mp ha, (hmem entry hentry b).mp hb⟩⟩,
      (hasDifferentSources_iff db a b).mp hab⟩
  · rintro ⟨hne, ⟨c, hc⟩, hsources⟩
    obtain ⟨hca, hcb⟩ := Finset.mem_inter.mp hc
    have hkey : c ∈ (buildConceptMaps db userId).1.map Prod.fst :=
      (hspec.2.2 c).mpr ⟨a, (hspec.2.1 c a).mp ((mem_articlesOf db userId).mpr hca)⟩
    obtain ⟨entry, hentry, rfl⟩ := List.mem_map.mp hkey
    have ha := (hmem entry hentry a).mpr hca
    have hb := (hmem entry hentry b).mpr hcb
    obtain ⟨p, hp, hdifferent, heq⟩ := (exists_mem_pairsOf_iff (hlist entry hentry) hsymm).mpr
      ⟨ha, hb, hne, (hasDifferentSources_iff db a b).mpr hsources⟩
    have hlength : 2 ≤ entry.2.length := by
      have hpair : [a, b].Nodup := by simp [hne]
      have hsub : [a, b] ⊆ order.list entry.2 := by simp [ha, hb]
      rw [← (order.perm entry.2).length_eq]
      exact (List.subperm_of_subset hpair hsub).length_le
    have hsome : sourceProposal db entry.1 p = some _ := if_pos hdifferent
    refine ⟨_, (mem_sourceProposals db userId order).mpr ⟨entry, hentry, hlength, p, hp, hsome⟩,
      ?_⟩
    exact (sourceProposal_eq_some db hsome).2.1.trans heq

end Reasons

/-- The suggestions, before they get their titles and are cut to the limit. -/
def allSuggestions (order : SetOrder) (db : Db) (userId : String) : List SynthesisSuggestion :=
  (findSuggestions order db userId).suggestions

/-- A suggestion is for two articles, in one of their orders. -/
def SynthesisSuggestion.For (s : SynthesisSuggestion) (a b : String) : Prop :=
  s.articleIds.Perm [a, b]

section Kept
variable (order : SetOrder) (db : Db) (userId : String)

/-- The proposals that are kept. -/
def kept : List Proposal := (proposals order db userId).foldl (Rows.insertNew Proposal.pair) []

private theorem mem_kept {p : Proposal} : p ∈ kept order db userId ↔
    (proposals order db userId).find? (·.pair = p.pair) = some p := by
  unfold kept
  rw [Rows.mem_foldl_insertNew]
  simp

private theorem nodup_kept : ((kept order db userId).map (·.pair)).Nodup :=
  Rows.nodup_foldl_insertNew (by simp) _

private theorem allSuggestions_eq : allSuggestions order db userId =
    (kept order db userId).map (·.suggestion) := by
  unfold allSuggestions
  rw [findSuggestions_eq]
  rfl

private theorem pairIds_spec (pair : Sym2 String) :
    (pairIds order pair).Nodup ∧ ∀ x, x ∈ pairIds order pair ↔ x ∈ pair := by
  induction pair using Sym2.ind with
  | h a b =>
    unfold pairIds
    rw [(order.perm _).nodup_iff]
    simp only [(order.perm _).mem_iff, Sym2.lift_mk, Sym2.mem_iff]
    by_cases heq : a = b
    · simp [heq]
    · by_cases hlt : a < b
      · simp [heq, hlt]
      · simp [heq, Ne.symm heq, hlt, or_comm]

/-- Where the articles of a proposal stand in a list without repetitions, it names each once. -/
theorem articleIds_of_pairsOf {l : List String} (hl : l.Nodup) {p : String × String}
    (hp : p ∈ pairsOf l) {q : Proposal} (hpair : q.pair = s(p.1, p.2))
    (hids : q.suggestion.articleIds = [p.1, p.2]) :
    q.suggestion.articleIds.Nodup ∧ ∀ x, x ∈ q.suggestion.articleIds ↔ x ∈ q.pair := by
  obtain ⟨-, -, hne⟩ := of_mem_pairsOf hl hp
  rw [hids, hpair]
  simp [hne]

/-- A proposal names the articles of its pair, each once. -/
theorem articleIds_of_mem {q : Proposal} (hq : q ∈ proposals order db userId) :
    q.suggestion.articleIds.Nodup ∧ ∀ x, x ∈ q.suggestion.articleIds ↔ x ∈ q.pair := by
  rcases List.mem_append.mp hq with hq | hq
  · obtain ⟨p, hp, hcandidate⟩ := List.mem_filterMap.mp hq
    obtain ⟨-, hpair, hids, -⟩ := sharedProposal_eq_some db userId hcandidate
    exact articleIds_of_pairsOf (Multimap.collect_spec _).1.keys hp hpair hids
  rcases List.mem_append.mp hq with hq | hq
  · obtain ⟨entry, -, rfl⟩ := List.mem_map.mp hq
    exact pairIds_spec order entry.1
  · obtain ⟨entry, hentry, -, p, hp, hcandidate⟩ := (mem_sourceProposals db userId order).mp hq
    obtain ⟨-, hpair, hids, -⟩ := sourceProposal_eq_some db hcandidate
    refine articleIds_of_pairsOf ?_ hp hpair hids
    exact (order.perm _).nodup_iff.mpr ((Multimap.collect_spec _).1.values entry hentry)

private theorem mem_proposals_of_mem_kept {q : Proposal} (hq : q ∈ kept order db userId) :
    q ∈ proposals order db userId :=
  List.mem_of_find?_eq_some ((mem_kept order db userId).mp hq)

/-- A kept suggestion is for the articles of its pair. -/
theorem for_iff {q : Proposal} (hq : q ∈ kept order db userId) {a b : String} (hne : a ≠ b) :
    q.suggestion.For a b ↔ q.pair = s(a, b) := by
  obtain ⟨hnodup, hmem⟩ := articleIds_of_mem order db userId (mem_proposals_of_mem_kept _ _ _ hq)
  have hab : [a, b].Nodup := by simp [hne]
  unfold SynthesisSuggestion.For
  rw [List.perm_ext_iff_of_nodup hnodup hab, Sym2.ext_iff]
  simp only [hmem, Sym2.mem_iff, List.mem_cons, List.not_mem_nil, or_false]

/-- Two suggestions for the same articles have one pair. -/
theorem pair_eq_of_perm {p q : Proposal} (hp : p ∈ kept order db userId)
    (hq : q ∈ kept order db userId)
    (hperm : p.suggestion.articleIds.Perm q.suggestion.articleIds) : p.pair = q.pair := by
  have hp' := (articleIds_of_mem order db userId (mem_proposals_of_mem_kept _ _ _ hp)).2
  have hq' := (articleIds_of_mem order db userId (mem_proposals_of_mem_kept _ _ _ hq)).2
  ext x
  rw [← hp', ← hq', hperm.mem_iff]

/-- The kept proposal for a pair is of the first pass that has one. -/
theorem kept_cases {q : Proposal} (hq : q ∈ kept order db userId) {a b : String}
    (hpair : q.pair = s(a, b)) :
    (q ∈ sharedProposals db userId ∧ a ≠ b ∧ ShareConcepts db userId a b) ∨
    (q ∈ contradictionProposals order db userId ∧ ¬ (a ≠ b ∧ ShareConcepts db userId a b) ∧
      Contradict db userId a b) ∨
    (q ∈ sourceProposals order db userId ∧ ¬ (a ≠ b ∧ ShareConcepts db userId a b) ∧
      ¬ Contradict db userId a b ∧ a ≠ b ∧ DifferInSources db userId a b) := by
  have hfind := (mem_kept order db userId).mp hq
  unfold proposals at hfind
  rw [List.find?_append, List.find?_append] at hfind
  have hnone : ∀ ps : List Proposal, ps.find? (·.pair = q.pair) = none →
      ¬ ∃ p ∈ ps, p.pair = s(a, b) := by
    rintro ps h ⟨p, hp, heq⟩
    exact List.find?_eq_none.mp h p hp (decide_eq_true (heq.trans hpair.symm))
  cases hshared : (sharedProposals db userId).find? (·.pair = q.pair) with
  | some p =>
    rw [hshared] at hfind
    cases hfind
    have hmem := List.mem_of_find?_eq_some hshared
    obtain ⟨hne, hshare⟩ := (exists_sharedProposal_iff db userId).mp ⟨q, hmem, hpair⟩
    exact .inl ⟨hmem, hne, hshare⟩
  | none =>
    have hnot := mt (exists_sharedProposal_iff db userId).mpr (hnone _ hshared)
    rw [hshared, Option.none_or] at hfind
    cases hcontradiction : (contradictionProposals order db userId).find? (·.pair = q.pair) with
    | some p =>
      rw [hcontradiction] at hfind
      cases hfind
      have hmem := List.mem_of_find?_eq_some hcontradiction
      exact .inr (.inl ⟨hmem, hnot,
        (exists_contradictionProposal_iff db userId order).mp ⟨q, hmem, hpair⟩⟩)
    | none =>
      have hnot' := mt (exists_contradictionProposal_iff db userId order).mpr
        (hnone _ hcontradiction)
      rw [hcontradiction, Option.none_or] at hfind
      have hmem := List.mem_of_find?_eq_some hfind
      obtain ⟨hne, hdiffer⟩ := (exists_sourceProposal_iff db userId order).mp ⟨q, hmem, hpair⟩
      exact .inr (.inr ⟨hmem, hnot, hnot', hne, hdiffer⟩)

/-- A pair that is proposed is kept. -/
theorem exists_kept {a b : String} (h : ∃ p ∈ proposals order db userId, p.pair = s(a, b)) :
    ∃ q ∈ kept order db userId, q.pair = s(a, b) := by
  obtain ⟨p, hp, hpair⟩ := h
  have hsome : ((proposals order db userId).find? (·.pair = s(a, b))).isSome = true :=
    List.find?_isSome.mpr ⟨p, hp, decide_eq_true hpair⟩
  obtain ⟨q, hq⟩ := Option.isSome_iff_exists.mp hsome
  have hqpair : q.pair = s(a, b) := by simpa using List.find?_some hq
  exact ⟨q, (mem_kept order db userId).mpr (by rwa [hqpair]), hqpair⟩

private theorem type_of_mem {q : Proposal} :
    (q ∈ sharedProposals db userId → q.suggestion.suggestedType = "shared_concepts") ∧
    (q ∈ contradictionProposals order db userId → q.suggestion.suggestedType = "contradiction") ∧
    (q ∈ sourceProposals order db userId →
      q.suggestion.suggestedType = "same_topic_different_sources") := by
  refine ⟨fun h ↦ ?_, fun h ↦ ?_, fun h ↦ ?_⟩
  · obtain ⟨p, -, hcandidate⟩ := List.mem_filterMap.mp h
    exact (sharedProposal_eq_some db userId hcandidate).2.2.2
  · obtain ⟨entry, -, rfl⟩ := List.mem_map.mp h
    rfl
  · obtain ⟨entry, -, -, p, -, hcandidate⟩ := (mem_sourceProposals db userId order).mp h
    exact (sourceProposal_eq_some db hcandidate).2.2.2

end Kept

/-- The reason that a suggestion for two articles gives is the first that there is. -/
structure FirstReason (db : Db) (userId : String) (s : SynthesisSuggestion) (a b : String) :
    Prop where
  reason : ShareConcepts db userId a b ∨ Contradict db userId a b ∨
    DifferInSources db userId a b
  shared : ShareConcepts db userId a b → s.suggestedType = "shared_concepts"
  contradiction : ¬ ShareConcepts db userId a b → Contradict db userId a b →
    s.suggestedType = "contradiction"
  sources : ¬ ShareConcepts db userId a b → ¬ Contradict db userId a b →
    s.suggestedType = "same_topic_different_sources"

section All
variable (order : SetOrder) (db : Db) (userId : String)

private theorem pairwise_allSuggestions :
    (allSuggestions order db userId).Pairwise fun s t ↦ ¬ s.articleIds.Perm t.articleIds := by
  rw [allSuggestions_eq, List.pairwise_map]
  refine List.Pairwise.imp_of_mem (fun hp hq hpair hperm ↦ ?_)
    (List.pairwise_map.mp (nodup_kept order db userId))
  exact hpair (pair_eq_of_perm order db userId hp hq hperm)

variable {a b : String} (hne : a ≠ b)
include hne

private theorem exists_suggestion
    (hreason : ShareConcepts db userId a b ∨ Contradict db userId a b ∨
    DifferInSources db userId a b) : ∃ s ∈ allSuggestions order db userId, s.For a b := by
  have hproposed : ∃ p ∈ proposals order db userId, p.pair = s(a, b) := by
    unfold proposals
    rcases hreason with h | h | h
    · obtain ⟨p, hp, heq⟩ := (exists_sharedProposal_iff db userId).mpr ⟨hne, h⟩
      exact ⟨p, List.mem_append_left _ hp, heq⟩
    · obtain ⟨p, hp, heq⟩ := (exists_contradictionProposal_iff db userId order).mpr h
      exact ⟨p, List.mem_append_right _ (List.mem_append_left _ hp), heq⟩
    · obtain ⟨p, hp, heq⟩ := (exists_sourceProposal_iff db userId order).mpr ⟨hne, h⟩
      exact ⟨p, List.mem_append_right _ (List.mem_append_right _ hp), heq⟩
  obtain ⟨q, hq, hpair⟩ := exists_kept order db userId hproposed
  rw [allSuggestions_eq]
  exact ⟨_, List.mem_map_of_mem hq, (for_iff order db userId hq hne).mpr hpair⟩

private theorem firstReason_of_mem {s : SynthesisSuggestion}
    (hs : s ∈ allSuggestions order db userId)
    (hfor : s.For a b) : FirstReason db userId s a b := by
  rw [allSuggestions_eq] at hs
  obtain ⟨q, hq, rfl⟩ := List.mem_map.mp hs
  obtain ⟨hshared, hcontradiction, hsource⟩ := @type_of_mem order db userId q
  rcases kept_cases order db userId hq ((for_iff order db userId hq hne).mp hfor) with
    ⟨hmem, -, h⟩ | ⟨hmem, hnot, h⟩ | ⟨hmem, hnot, hnot', -, h⟩
  · exact ⟨.inl h, fun _ ↦ hshared hmem, fun hn ↦ absurd h hn, fun hn ↦ absurd h hn⟩
  · exact ⟨.inr (.inl h), fun hs ↦ absurd ⟨hne, hs⟩ hnot, fun _ _ ↦ hcontradiction hmem,
      fun _ hn ↦ absurd h hn⟩
  · exact ⟨.inr (.inr h), fun hs ↦ absurd ⟨hne, hs⟩ hnot, fun _ hc ↦ absurd hc hnot',
      fun _ _ ↦ hsource hmem⟩

end All

/-- Two different articles are suggested at most once, only when they share three concepts,
contradict each other, or have a concept in common and sources of which none is, and for the first
of these reasons; unless the list is cut at its limit, all such articles are. Sets may be iterated
in any order. -/
theorem suggestions_exact (order : SetOrder) (db : Db) (userId : String) (limit : Nat) :
    let shown := getSynthesisSuggestions order db userId limit
    shown.Pairwise (fun s t ↦ ¬ s.articleIds.Perm t.articleIds) ∧
      ∀ a b, a ≠ b →
        (∀ s ∈ shown, s.For a b → FirstReason db userId s a b) ∧
        (shown.length < limit →
          ShareConcepts db userId a b ∨ Contradict db userId a b ∨ DifferInSources db userId a b →
          ∃ s ∈ shown, s.For a b) := by
  intro shown
  have hshown : shown = ((allSuggestions order db userId).map (resolveTitles db)).take limit := rfl
  refine ⟨?_, fun a b hne ↦ ⟨fun s hs hfor ↦ ?_, fun hlength hreason ↦ ?_⟩⟩
  · rw [hshown]
    refine List.Pairwise.sublist (List.take_sublist _ _) ?_
    rw [List.pairwise_map]
    exact pairwise_allSuggestions order db userId
  · rw [hshown] at hs
    obtain ⟨t, ht, rfl⟩ := List.mem_map.mp (List.mem_of_mem_take hs)
    obtain ⟨hreason, hshared, hcontradiction, hsources⟩ :=
      firstReason_of_mem order db userId hne ht hfor
    exact ⟨hreason, hshared, hcontradiction, hsources⟩
  · obtain ⟨s, hs, hfor⟩ := exists_suggestion order db userId hne hreason
    have hall : shown = (allSuggestions order db userId).map (resolveTitles db) := by
      rw [hshown] at hlength ⊢
      rw [List.length_take, min_lt_iff, or_iff_right (Nat.lt_irrefl limit)] at hlength
      exact List.take_of_length_le hlength.le
    rw [hall]
    exact ⟨_, List.mem_map_of_mem hs, hfor⟩

end WikiMind.Wiki.Suggestions
