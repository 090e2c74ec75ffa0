import WikiMind.Lint.Answers

/-!
# Concept groups

A run compares the pairs of one concept after those of another
(`engine/linter/contradictions.py:584`), so a pair whose articles share several concepts is
met in each of their groups, where the cache answers for it once it is compared. A finding
names the concept of its group.
-/

namespace WikiMind.Lint.Contradictions

open WikiMind.Base

/-- The articles of a pair, whatever their order. -/
def Pair.ids (p : Pair) : String × String := sortedIds p.a.id p.b.id

def ContradictionFinding.ids (f : ContradictionFinding) : String × String :=
  sortedIds f.articleAId f.articleBId

/-- What a finding says, apart from where it was made. -/
def ContradictionFinding.reported (f : ContradictionFinding) : Reported :=
  ⟨f.description, f.articleAClaim, f.articleBClaim, f.llmConfidence⟩

/-- The articles of a concept and the pairs chosen of them: `contradictions.py:421–439`. -/
structure Group where
  conceptId : Option String
  articles : List Article
  pairs : List Pair
  ids : (articles.map Article.id).Nodup
  sample : pairs.Subperm (combinations articles)

def Group.item (g : Group) : WorkItem :=
  .ofArticles g.conceptId g.articles g.pairs g.ids g.sample

/-- The run over some groups. -/
def Run.ofGroups (llm : Llm) (reportId userId : String) (groups : List Group)
    (committed : Bool) : Run :=
  ⟨llm, reportId, userId, groups.map Group.item, committed⟩

/-- A comparison of the content of a pair that is known: of an earlier run or of this one. -/
def Knows (s : State) (w : Work) (p : Pair) (c : Comparison) : Prop :=
  (c ∈ s.history ∨ c ∈ w.comparisons) ∧ c.pair.content = p.content

/-- The findings of a pair are those of a single comparison of it, in whichever order its
articles stand. -/
def ReportsOnce (cfg : LinterConfig) (s : State) (r : Run) : Prop :=
  ∀ found, (lint cfg s r).1 = .ok found → ∀ item ∈ r.allWork, ∀ p ∈ item.pairs,
    p.hasClaims = true → ∃ c, Knows s (lint cfg s r).2 p c ∧
      (found.filter (·.ids = p.ids)).map ContradictionFinding.reported = c.reported

/-- What a group reports is of its pairs; of each it is what a comparison that is told of the
pair found, or nothing, which of a pair with claims is so only where no batch is made. -/
def Group.Reports (cfg : LinterConfig) (told : Pair → Comparison → Prop)
    (reportId userId : String) (g : Group) (found : List ContradictionFinding) : Prop :=
  (∀ f ∈ found, ∃ p ∈ g.pairs, f.ids = p.ids) ∧
    ∀ p ∈ g.pairs,
      (∃ c, told p c ∧ found.filter (·.ids = p.ids) =
        c.reported.map (Reported.finding ⟨reportId, g.conceptId, userId⟩ p)) ∨
      found.filter (·.ids = p.ids) = [] ∧ (p.hasClaims = true →
        cfg.contradictionBatchEnabled = true ∧ cfg.contradictionBatchSize < 0)

/-- The articles of the groups are rows of one table. -/
def OneTable (groups : List Group) : Prop :=
  ∀ g ∈ groups, ∀ g' ∈ groups, ∀ a ∈ g.articles, ∀ a' ∈ g'.articles, a.id = a'.id → a = a'

/-- The findings of a run are those of its groups, one group after the other. With the pair
cache on, all groups report of two articles what one comparison of them found. -/
def ReportsByGroup (cfg : LinterConfig) (s : State) (llm : Llm) (reportId userId : String)
    (groups : List Group) (committed : Bool) : Prop :=
  ∀ found w, lint cfg s (.ofGroups llm reportId userId groups committed) = (.ok found, w) →
    ∃ parts, List.Forall₂ (Group.Reports cfg (Knows s w) reportId userId) groups parts ∧
      found = parts.flatten ∧ (cfg.enablePairCache = true → OneTable groups →
        ∃ answer : String × String → Option Comparison, List.Forall₂ (Group.Reports cfg
          (fun p c ↦ Knows s w p c ∧ answer p.ids = some c) reportId userId) groups parts)

section Pairs

private theorem eq_or_swap_of_sortedIds {a b c d : String} (h : sortedIds a b = sortedIds c d) :
    a = c ∧ b = d ∨ a = d ∧ b = c := by
  unfold sortedIds at h
  split at h <;> split at h <;> cases h <;> tauto

/-- The pairs of different articles are different, whatever their order. -/
theorem nodup_ids_combinations {articles : List Article} (h : (articles.map Article.id).Nodup) :
    ((combinations articles).map Pair.ids).Nodup := by
  induction articles with
  | nil => exact List.nodup_nil
  | cons a rest ih =>
    rw [List.map_cons, List.nodup_cons] at h
    obtain ⟨hfresh, hrest⟩ := h
    have hne (b : Article) (hb : b ∈ rest) : b.id ≠ a.id :=
      fun heq ↦ hfresh (heq ▸ List.mem_map_of_mem hb)
    rw [combinations, List.map_append, List.nodup_append]
    refine ⟨?_, ih hrest, ?_⟩
    · rw [List.map_map]
      refine List.Nodup.map_on ?_ hrest.of_map
      intro b hb c hc heq
      refine List.inj_on_of_nodup_map hrest hb hc ?_
      obtain ⟨_, h⟩ | ⟨h, h'⟩ := eq_or_swap_of_sortedIds heq
      · exact h
      · exact absurd h.symm (hne c hc)
    · intro ids hfirst ids' hlater heq
      rw [List.mem_map] at hfirst hlater
      obtain ⟨p, hp, rfl⟩ := hfirst
      obtain ⟨b, hb, rfl⟩ := List.mem_map.mp hp
      obtain ⟨q, hq, rfl⟩ := hlater
      obtain ⟨ha, hb'⟩ := mem_combinations hq
      obtain ⟨h, _⟩ | ⟨h, _⟩ := eq_or_swap_of_sortedIds heq
      · exact hne q.a ha h.symm
      · exact hne q.b hb' h.symm

private theorem Group.nodup_ids (g : Group) : (g.pairs.map Pair.ids).Nodup := by
  obtain ⟨chosen, hperm, hsub⟩ := g.sample
  exact (hperm.map _).nodup_iff.mp ((nodup_ids_combinations g.ids).sublist (hsub.map _))

end Pairs

section Meetings

variable {cfg : LinterConfig} {llm : Llm} {ctx : Context} {state : State} {s t : Work}

/-- What a comparison says of a pair it answers for. -/
def tell (ctx : Context) (m : Pair × Comparison) : List ContradictionFinding :=
  m.2.reported.map (Reported.finding ctx m.1)

private theorem ids_of_mem_tell (m : Pair × Comparison) : ∀ f ∈ tell ctx m, f.ids = m.1.ids := by
  intro f hf
  obtain ⟨r, _, rfl⟩ := List.mem_map.mp hf
  rfl

theorem Knows.mono {p : Pair} {c : Comparison} (h : Knows state s p c) (hst : Extends cfg s t) :
    Knows state t p c :=
  ⟨h.1.imp_right (hst.comparisons c), h.2⟩

/-- The batches hold the pairs that are compared, in their order. -/
theorem flatten_batches {pairs : List Pair} {parts : List (List Pair)}
    (hbatch : cfg.contradictionBatchEnabled = true ∧ 1 < pairs.length)
    (h : batches pairs cfg.contradictionBatchSize = .ok parts) :
    parts.flatten = processedPairs cfg pairs := by
  unfold batches at h
  unfold processedPairs
  split at h
  · cases h
  next hzero =>
    split at h
    next hneg =>
      cases h
      rw [if_pos ⟨hbatch.1, hbatch.2, hneg⟩]
      rfl
    next hpos =>
      cases h
      rw [if_neg fun hneg ↦ hpos hneg.2.2, flatten_slices (by omega)]

/-- The cache answers for the pair with what the comparison found. -/
def Says (w : Work) (p : Pair) (c : Comparison) : Prop :=
  checkPairCache w.cache p = some (c.reported.map Reported.toJson)

/-- What the cache answers, from the row for the articles of the pair. -/
theorem checkPairCache_eq (cache : List LintPairCache) (p : Pair) :
    checkPairCache cache p =
      (cache.find? fun row ↦ row.articleAId = p.ids.1 ∧ row.articleBId = p.ids.2).bind
        fun row ↦ if row.content = p.content then some row.result else none := by
  change (cache.find? fun row ↦ row.articleAId = p.ids.1 ∧ row.articleBId = p.ids.2).bind _ = _
  cases hrow : cache.find? fun row ↦ row.articleAId = p.ids.1 ∧ row.articleBId = p.ids.2 with
  | none => rfl
  | some row =>
    have hids := List.find?_some hrow
    simp only [decide_eq_true_eq] at hids
    refine if_congr ?_ rfl rfl
    simp only [LintPairCache.content, Pair.content, cacheRow, Content.mk.injEq]
    rw [apply_ite Article.updatedAt, apply_ite Article.updatedAt]
    exact ⟨fun h ↦ ⟨hids.1, hids.2, h⟩, fun h ↦ h.2.2⟩

private theorem ids_eq_of_content {p q : Pair} (h : p.content = q.content) : p.ids = q.ids :=
  Prod.ext (congrArg Content.articleAId h) (congrArg Content.articleBId h)

private theorem checkPairCache_congr {p q : Pair} (h : p.content = q.content)
    (cache : List LintPairCache) : checkPairCache cache p = checkPairCache cache q := by
  rw [checkPairCache_eq, checkPairCache_eq, h, ids_eq_of_content h]

/-- Saving a pair leaves the answers for other articles, and gives the one for these. -/
theorem checkPairCache_save {q : Pair} {found : List ContradictionFinding} {checked n : Nat}
    (henabled : cfg.enablePairCache = true)
    (h : (saveAndCount cfg q found checked).exec s = (.ok n, t)) :
    (∀ p, p.ids ≠ q.ids → checkPairCache t.cache p = checkPairCache s.cache p) ∧
      checkPairCache t.cache q = some (cacheDataFromFindings found) := by
  have hcache : t.cache = s.cache.filter (fun old ↦
      ¬ (old.articleAId = q.ids.1 ∧ old.articleBId = q.ids.2)) ++
        [cacheRow q (cacheDataFromFindings found)] := by
    rw [saveAndCount, saveIfEnabled, if_pos henabled] at h
    cases h
    rfl
  have hrow : (cacheRow q (cacheDataFromFindings found)).articleAId = q.ids.1 ∧
      (cacheRow q (cacheDataFromFindings found)).articleBId = q.ids.2 := ⟨rfl, rfl⟩
  constructor
  · intro p hne
    have hother (row : LintPairCache) (hp : row.articleAId = p.ids.1 ∧ row.articleBId = p.ids.2) :
        ¬ (row.articleAId = q.ids.1 ∧ row.articleBId = q.ids.2) := fun hq ↦
      hne (Prod.ext (hp.1.symm.trans hq.1) (hp.2.symm.trans hq.2))
    rw [checkPairCache_eq, checkPairCache_eq, hcache, List.find?_append, List.find?_filter,
      List.find?_singleton, if_neg fun hp ↦ hother _ (of_decide_eq_true hp) hrow, Option.or_none]
    congr 2
    funext row
    exact decide_eq_decide.mpr ⟨fun h ↦ of_decide_eq_true h.2,
      fun h ↦ ⟨decide_eq_true (hother row h), decide_eq_true h⟩⟩
  · have hnone : (s.cache.filter fun old ↦
        ¬ (old.articleAId = q.ids.1 ∧ old.articleBId = q.ids.2)).find?
          (fun row ↦ row.articleAId = q.ids.1 ∧ row.articleBId = q.ids.2) = none := by
      rw [List.find?_eq_none]
      intro row hmem hids
      exact of_decide_eq_true (List.mem_filter.mp hmem).2 (of_decide_eq_true hids)
    rw [checkPairCache_eq, hcache, List.find?_append, hnone, Option.none_or, List.find?_singleton,
      if_pos (decide_eq_true hrow), Option.bind_some, if_pos (content_cacheRow ..)]
    rfl

/-- With the cache on, it answers with the comparisons for their articles, and as before for
others, if no two comparisons are of the same articles. -/
def Saved (cfg : LinterConfig) (s : Work) (cs : List Comparison) (t : Work) : Prop :=
  cfg.enablePairCache = true → (cs.map (·.pair.ids)).Nodup →
    (∀ c ∈ cs, Says t c.pair c) ∧
      ∀ p : Pair, p.ids ∉ cs.map (·.pair.ids) → checkPairCache t.cache p = checkPairCache s.cache p

theorem Saved.nil (cfg : LinterConfig) (s : Work) : Saved cfg s [] s :=
  fun _ _ ↦ ⟨fun _ h ↦ absurd h List.not_mem_nil, fun _ _ ↦ rfl⟩

theorem Saved.append {u : Work} {cs ds : List Comparison} (h : Saved cfg s cs t)
    (h' : Saved cfg t ds u) : Saved cfg s (cs ++ ds) u := by
  intro henabled hnodup
  rw [List.map_append, List.nodup_append] at hnodup
  obtain ⟨hcs, hds, hdisjoint⟩ := hnodup
  obtain ⟨htold, hkept⟩ := h henabled hcs
  obtain ⟨htold', hkept'⟩ := h' henabled hds
  constructor
  · refine List.forall_mem_append.mpr ⟨fun c hc ↦ ?_, htold'⟩
    have hother : c.pair.ids ∉ ds.map (·.pair.ids) := fun hmem ↦
      hdisjoint _ (List.mem_map_of_mem (f := (·.pair.ids)) hc) _ hmem rfl
    exact (hkept' c.pair hother).trans (htold c hc)
  · intro p hp
    rw [List.map_append, List.mem_append, not_or] at hp
    exact (hkept' p hp.2).trans (hkept p hp.1)

/-- What changes no row in front of a saving changes nothing in what is saved. -/
theorem Saved.of_cache {u : Work} {cs : List Comparison} (h : Saved cfg t cs u)
    (hcache : t.cache = s.cache) : Saved cfg s cs u := by
  unfold Saved at h ⊢
  rwa [← hcache]

private theorem saved_saveAndCount {c : Comparison} {found : List ContradictionFinding}
    {checked n : Nat}
    (hfound : found = c.findings ctx)
    (h : (saveAndCount cfg c.pair found checked).exec s = (.ok n, t)) : Saved cfg s [c] t := by
  intro henabled _
  obtain ⟨hkept, htold⟩ := checkPairCache_save henabled h
  constructor
  · rw [List.forall_mem_singleton, Says, htold, hfound, cacheDataFromFindings_findings]
  · intro p hp
    exact hkept p fun heq ↦ hp (by simp [heq])

/-- The findings of a batch are saved pair by pair. -/
theorem saved_saveBatch {cs : List Comparison} {checked n : Nat}
    (hnodup : (cs.map fun c ↦ (c.pair.a.id, c.pair.b.id)).Nodup)
    (h : (saveBatch cfg (cs.flatMap (Comparison.findings ctx)) (cs.map Comparison.pair)
      checked).exec s = (.ok n, t)) : Saved cfg s cs t := by
  rw [saveBatch, List.foldlM_map] at h
  refine Stateful.returns_foldlM (J := fun done (_ : Nat) w ↦ Saved cfg s done w) ?_ ?_ h
  · exact Saved.nil cfg s
  · intro done c hc checked u checked' v hdone hround
    exact hdone.append (saved_saveAndCount (findingsOf_flatMap hnodup hc) hround)

/-- The findings are those of comparisons of the pairs, which are noted and saved. -/
def ComparedFrom (cfg : LinterConfig) (ctx : Context) (s : Work) (pairs : List Pair)
    (found : List ContradictionFinding) (t : Work) : Prop :=
  ∃ cs : List Comparison, cs.map Comparison.pair = pairs ∧ (∀ c ∈ cs, c ∈ t.comparisons) ∧
    found = cs.flatMap (Comparison.findings ctx) ∧ Saved cfg s cs t

/-- A round that compares its pairs and then saves them adds their findings. -/
theorem comparedFrom_compareAndSave {start : Work} {ps pairs : List Pair}
    {x : Detect (List ContradictionFinding)} {save : List ContradictionFinding → Detect Nat}
    {before : List ContradictionFinding} {r : PairProcessResult}
    (hmoves : Stateful.Moves (Extends cfg) x) (hquiet : Stateful.Moves Quiet x)
    (hcompared : Stateful.Returns x fun _ found t ↦ Compared ctx pairs found t)
    (hextends : ∀ found t, Compared ctx pairs found t → Extends cfg t ((save found).exec t).2)
    (hsave : ∀ cs : List Comparison, cs.map Comparison.pair = pairs → ∀ u n v,
      (save (cs.flatMap (Comparison.findings ctx))).exec u = (.ok n, v) → Saved cfg u cs v)
    (hbefore : ComparedFrom cfg ctx start ps before s)
    (h : Stateful.exec (do
        let found ← x
        let checked ← save found
        return (⟨before ++ found, checked⟩ : PairProcessResult)) s = (.ok r, t)) :
    ComparedFrom cfg ctx start (ps ++ pairs) r.findings t := by
  obtain ⟨found, u, hfound, h⟩ := Stateful.exec_bind_eq_ok.mp h
  obtain ⟨checked, v, hchecked, h⟩ := Stateful.exec_bind_eq_ok.mp h
  cases h
  obtain ⟨cs, rfl, hnoted, rfl, hsaved⟩ := hbefore
  have hu := hcompared s found u hfound
  have hsu := hmoves.of_exec hfound
  have hut : Extends cfg u t := by simpa [hchecked] using hextends found u hu
  obtain ⟨ds, hpairs, hnoted', rfl⟩ := hu
  refine ⟨cs ++ ds, by rw [List.map_append, hpairs], ?_, List.flatMap_append.symm, ?_⟩
  · refine List.forall_mem_append.mpr ⟨fun c hc ↦ ?_, fun c hc ↦ ?_⟩
    · exact hut.comparisons c (hsu.comparisons c (hnoted c hc))
    · exact hut.comparisons c (hnoted' c hc)
  · exact hsaved.append ((hsave ds hpairs u checked t hchecked).of_cache (hquiet.of_exec hfound).1)

/-- What is left to compare is compared once, batch by batch or pair by pair, and saved. -/
theorem comparedFrom_processUncachedPairs {pairs : List Pair}
    (hclaims : ∀ p ∈ pairs, p.hasClaims = true)
    (hnodup : (pairs.map fun p ↦ (p.a.id, p.b.id)).Nodup) (checked : Nat) :
    Stateful.Returns (processUncachedPairs llm cfg ctx pairs checked) fun s r t ↦
      ComparedFrom cfg ctx s (processedPairs cfg pairs) r.findings t := by
  have hempty (w : Work) : ComparedFrom cfg ctx w [] [] w :=
    ⟨[], rfl, fun _ h ↦ absurd h List.not_mem_nil, rfl, Saved.nil cfg w⟩
  unfold processUncachedPairs
  split
  next hbatch =>
    intro s r t h
    obtain ⟨parts, u, hparts, h⟩ := Stateful.exec_bind_eq_ok.mp h
    rw [Stateful.exec_ofExcept, Prod.mk.injEq] at hparts
    obtain ⟨hparts, rfl⟩ := hparts
    rw [← flatten_batches hbatch hparts]
    refine Stateful.returns_foldlM (J := fun (done : List (List Pair)) (r : PairProcessResult) w ↦
      ComparedFrom cfg ctx s done.flatten r.findings w) ?_ ?_ h
    · exact hempty s
    intro done part hpart r v r' w hdone hround
    have hin := (of_batches hparts).1 part hpart
    have hnodup' := hnodup.sublist (hin.map _)
    rw [List.flatten_append, List.flatten_singleton]
    refine comparedFrom_compareAndSave (moves_runBatch llm ctx part)
      (quiet_runBatch llm ctx part) (returns_runBatch fun p hp ↦ hclaims p (hin.subset hp))
      (fun _ _ h ↦ extends_saveBatch h hnodup' _) ?_ hdone hround
    rintro cs rfl u n v hsave
    rw [List.map_map] at hnodup'
    exact saved_saveBatch hnodup' hsave
  next hsingle =>
    intro s r t h
    have hall : processedPairs cfg pairs = pairs := if_neg fun hneg ↦ hsingle ⟨hneg.1, hneg.2.1⟩
    rw [hall]
    refine Stateful.returns_foldlM (J := fun done (r : PairProcessResult) w ↦
      ComparedFrom cfg ctx s done r.findings w) ?_ ?_ h
    · exact hempty s
    intro done p hp r v r' w hdone hround
    have hmoves : Stateful.Moves (Extends cfg) (compareArticlePair llm ctx p) :=
      moves_compareArticlePair llm ctx p
    refine comparedFrom_compareAndSave hmoves (quiet_compareArticlePair llm ctx p)
      (returns_compareArticlePair (hclaims p hp)) (fun found t h ↦ ?_) ?_ hdone hround
    · obtain ⟨c, hc, hpair, hfound⟩ := h.exists_of_singleton
      exact extends_saveAndCount hc hpair hfound _
    · intro cs hcs u n v hsave
      obtain ⟨c, rest, rfl, rfl, hrest⟩ := List.map_eq_cons_iff.mp hcs
      rw [List.map_eq_nil_iff] at hrest
      subst hrest
      exact saved_saveAndCount (List.flatMap_singleton ..) hsave

/-- The pairs of a group that are sorted: those the cache answered for with what it said, those
that are left and those without claims. -/
structure SortedInto (cfg : LinterConfig) (state : State) (ctx : Context)
    (before : List ContradictionFinding) (done : List Pair) (acc : Sorted) (w : Work)
    (hits : List (Pair × Comparison)) (skipped : List Pair) : Prop where
  findings : acc.findings = before ++ hits.flatMap (tell ctx)
  known : ∀ m ∈ hits, Knows state w m.1 m.2
  said : ∀ m ∈ hits, Says w m.1 m.2
  missed : cfg.enablePairCache = true → ∀ p ∈ acc.uncachedPairs, checkPairCache w.cache p = none
  perm : (hits.map Prod.fst ++ acc.uncachedPairs ++ skipped).Perm done
  skipped : ∀ p ∈ skipped, ¬ p.hasClaims = true

theorem SortedInto.sortPair {before : List ContradictionFinding} {done skipped : List Pair}
    {acc acc' : Sorted} {hits : List (Pair × Comparison)} {p : Pair}
    (h : SortedInto cfg state ctx before done acc s hits skipped) (hrows : s.RowedFrom state)
    (hexec : (sortPair cfg ctx acc p).exec s = (.ok acc', t)) :
    ∃ hits' skipped', SortedInto cfg state ctx before (done ++ [p]) acc' t hits' skipped' := by
  have hmoves : Extends cfg s t := (moves_sortPair ctx acc p).of_exec hexec
  have hknown : ∀ m ∈ hits, Knows state t m.1 m.2 := fun m hm ↦ (h.known m hm).mono hmoves
  obtain ⟨hsorts, hcache⟩ := sorts_of_sortPair hexec
  have hsaid : ∀ m ∈ hits, Says t m.1 m.2 := by
    unfold Says
    rw [hcache]
    exact h.said
  have hmissed := h.missed
  rw [← hcache] at hmissed
  cases hsorts with
  | hit _ _ hcheck hfound =>
    obtain ⟨c, hc, hcontent, rfl, rfl⟩ := exists_of_hit hrows hcheck hfound
    rw [← hcache] at hcheck
    refine ⟨hits ++ [(p, c)], skipped, ?_, ?_, ?_, hmissed, ?_, h.skipped⟩
    · change acc.findings ++ c.reported.map (Reported.finding ctx p) = _
      rw [h.findings, List.append_assoc, List.flatMap_append, List.flatMap_singleton]
      rfl
    · refine List.forall_mem_append.mpr ⟨hknown, List.forall_mem_singleton.mpr ⟨?_, hcontent⟩⟩
      exact hc.imp_right (hmoves.comparisons c)
    · exact List.forall_mem_append.mpr ⟨hsaid, List.forall_mem_singleton.mpr hcheck⟩
    · refine List.perm_iff_count.mpr fun q ↦ ?_
      have hcount := h.perm.count_eq q
      simp only [List.map_append, List.map_cons, List.map_nil, List.count_append] at hcount ⊢
      omega
  | left hmiss _ =>
    rw [← hcache] at hmiss
    refine ⟨hits, skipped, h.findings, hknown, hsaid, fun henabled ↦ ?_, ?_, h.skipped⟩
    · exact List.forall_mem_append.mpr
        ⟨hmissed henabled, List.forall_mem_singleton.mpr (hmiss henabled)⟩
    · refine List.perm_iff_count.mpr fun q ↦ ?_
      have hcount := h.perm.count_eq q
      simp only [List.count_append] at hcount ⊢
      omega
  | skipped _ hclaims =>
    refine ⟨hits, skipped ++ [p], h.findings, hknown, hsaid, hmissed, ?_, ?_⟩
    · rw [← List.append_assoc]
      exact h.perm.append_right [p]
    · exact List.forall_mem_append.mpr ⟨h.skipped, List.forall_mem_singleton.mpr hclaims⟩

/-- A group is sorted into what the cache says, what is left and what has no claims. -/
theorem exists_sortedInto {before : List ContradictionFinding} {pairs : List Pair}
    {checked : Nat} {sorted : Sorted} (hrows : s.RowedFrom state)
    (hexec : (pairs.foldlM (sortPair cfg ctx) ⟨before, [], checked⟩).exec s = (.ok sorted, t)) :
    ∃ hits skipped, SortedInto cfg state ctx before pairs sorted t hits skipped := by
  have hinv := Stateful.returns_foldlM
    (J := fun done (acc : Sorted) w ↦ w.RowedFrom state ∧
      ∃ hits skipped, SortedInto cfg state ctx before done acc w hits skipped) ?_ ?_ hexec
  · exact hinv.2
  · refine ⟨hrows, [], [], ?_, ?_, ?_, ?_, ?_, ?_⟩
    · exact (List.append_nil before).symm
    · exact fun _ h ↦ absurd h List.not_mem_nil
    · exact fun _ h ↦ absurd h List.not_mem_nil
    · exact fun _ _ h ↦ absurd h List.not_mem_nil
    · exact List.Perm.refl []
    · exact fun _ h ↦ absurd h List.not_mem_nil
  · rintro done p _ acc u acc' w ⟨hu, hits, skipped, hsorted⟩ hround
    exact ⟨hu.mono ((moves_sortPair ctx acc p).of_exec hround), hsorted.sortPair hu hround⟩

/-- Findings told of different pairs, each once: of a pair they are those of its comparison. -/
theorem Group.reports_of_meetings {told : Pair → Comparison → Prop} {reportId userId : String}
    {g : Group} {meetings : List (Pair × Comparison)} {rest : List Pair}
    (hknown : ∀ m ∈ meetings, told m.1 m.2)
    (hperm : (meetings.map Prod.fst ++ rest).Perm g.pairs)
    (hrest : ∀ p ∈ rest, p.hasClaims = true →
      cfg.contradictionBatchEnabled = true ∧ cfg.contradictionBatchSize < 0) :
    g.Reports cfg told reportId userId
      (meetings.flatMap (tell ⟨reportId, g.conceptId, userId⟩)) := by
  have hkey := @ids_of_mem_tell ⟨reportId, g.conceptId, userId⟩
  have hnodup : ((meetings.map Prod.fst ++ rest).map Pair.ids).Nodup :=
    (hperm.map _).nodup_iff.mpr g.nodup_ids
  rw [List.map_append, List.map_map, List.nodup_append] at hnodup
  obtain ⟨hmeetings, -, hdisjoint⟩ := hnodup
  constructor
  · intro f hf
    obtain ⟨m, hm, hmem⟩ := List.mem_flatMap.mp hf
    have hp : m.1 ∈ g.pairs := hperm.subset (List.mem_append_left _ (List.mem_map_of_mem hm))
    exact ⟨m.1, hp, hkey m f hmem⟩
  · intro p hp
    obtain hmet | hleft := List.mem_append.mp (hperm.symm.subset hp)
    · obtain ⟨m, hm, rfl⟩ := List.mem_map.mp hmet
      exact .inl ⟨m.2, hknown m hm, Rows.filter_flatMap_of_nodup hkey hmeetings hm⟩
    · have hnone : p.ids ∉ meetings.map (Pair.ids ∘ Prod.fst) :=
        fun h ↦ hdisjoint _ h _ (List.mem_map_of_mem hleft) rfl
      exact .inr ⟨Rows.filter_flatMap_of_not_mem hkey hnone, hrest p hleft⟩

/-- What is known of a pair, and what the cache says of it where it is on. -/
def Answers (cfg : LinterConfig) (state : State) (w : Work) (p : Pair) (c : Comparison) : Prop :=
  Knows state w p c ∧ (cfg.enablePairCache = true → Says w p c)

/-- The cache still answers as before for each pair that differs from those of a group in its
articles or has the content of one. -/
def KeepsAnswers (cfg : LinterConfig) (g : Group) (s t : Work) : Prop :=
  cfg.enablePairCache = true → ∀ p, (∀ q ∈ g.pairs, q.ids = p.ids → q.content = p.content) →
    ∀ cached, checkPairCache s.cache p = some cached → checkPairCache t.cache p = some cached

/-- What a group adds to the findings. -/
theorem reports_of_processItem {reportId userId : String} {acc result : PairProcessResult}
    {g : Group} (hrows : s.RowedFrom state)
    (hexec : (processItem llm cfg reportId userId acc g.item).exec s = (.ok result, t)) :
    ∃ part, result.findings = acc.findings ++ part ∧
      g.Reports cfg (Answers cfg state t) reportId userId part ∧ KeepsAnswers cfg g s t := by
  obtain ⟨sorted, u, hsort, hexec⟩ := Stateful.exec_bind_eq_ok.mp hexec
  obtain ⟨processed, v, hprocess, hexec⟩ := Stateful.exec_bind_eq_ok.mp hexec
  cases hexec
  have hleft := returns_sortPairs _ _ _ _ s sorted u hsort
  have hnodup := g.item.nodup.sublist (hleft.sublist.map _)
  obtain ⟨hits, skipped, hsorted⟩ := exists_sortedInto hrows hsort
  have hmoves := (processes_processUncachedPairs hleft.claims hnodup _).1.of_exec hprocess
  obtain ⟨comparisons, hpairs, hnoted, hfound, hsaved⟩ :=
    comparedFrom_processUncachedPairs hleft.claims hnodup _ u processed t hprocess
  have hprocessed : processedPairs cfg sorted.uncachedPairs ⊆ sorted.uncachedPairs := by
    unfold processedPairs
    split
    · exact List.nil_subset _
    · exact List.Subset.refl _
  have hids : (comparisons.map (·.pair.ids)).Nodup := by
    have hsub : (comparisons.map Comparison.pair).Sublist g.pairs := by
      rw [hpairs]
      unfold processedPairs
      split
      · exact List.nil_sublist _
      · exact hleft.sublist
    have hsub := g.nodup_ids.sublist (hsub.map _)
    rwa [List.map_map] at hsub
  have hanswers (henabled : cfg.enablePairCache = true) := hsaved henabled hids
  -- a pair that is compared had no answer before
  have hkept (henabled : cfg.enablePairCache = true) (p : Pair)
      (hp : ∀ q ∈ g.pairs, q.ids = p.ids → q.content = p.content) (cached : List JsonValue)
      (hcached : checkPairCache u.cache p = some cached) :
      checkPairCache t.cache p = some cached := by
    rw [(hanswers henabled).2 p, hcached]
    intro hmem
    obtain ⟨c, hc, heq⟩ := List.mem_map.mp hmem
    have hq : c.pair ∈ sorted.uncachedPairs :=
      hprocessed (hpairs ▸ List.mem_map_of_mem hc)
    have hcontent := hp c.pair (hleft.sublist.subset hq) heq
    have hmissed := hsorted.missed henabled c.pair hq
    rw [checkPairCache_congr hcontent, hcached] at hmissed
    cases hmissed
  refine ⟨(hits ++ comparisons.map fun c ↦ (c.pair, c)).flatMap
    (tell ⟨reportId, g.conceptId, userId⟩), ?_, ?_, ?_⟩
  · change sorted.findings ++ processed.findings = _
    rw [hsorted.findings, hfound, List.append_assoc, List.flatMap_append, List.flatMap_map]
    rfl
  · have hlist : (hits ++ comparisons.map fun c ↦ (c.pair, c)).map Prod.fst =
        hits.map Prod.fst ++ processedPairs cfg sorted.uncachedPairs := by
      rw [List.map_append, List.map_map, ← hpairs]
      rfl
    have hmet : ∀ m ∈ hits ++ comparisons.map fun c ↦ (c.pair, c),
        Answers cfg state t m.1 m.2 := by
      refine List.forall_mem_append.mpr ⟨fun m hm ↦ ⟨(hsorted.known m hm).mono hmoves, ?_⟩, ?_⟩
      · intro henabled
        have hin : m.1 ∈ g.pairs := hsorted.perm.subset
          (List.mem_append_left _ (List.mem_append_left _ (List.mem_map_of_mem hm)))
        refine hkept henabled m.1 (fun q hq heq ↦ ?_) _ (hsorted.said m hm)
        rw [List.inj_on_of_nodup_map g.nodup_ids hq hin heq]
      · intro m hm
        obtain ⟨c, hc, rfl⟩ := List.mem_map.mp hm
        exact ⟨⟨.inr (hnoted c hc), rfl⟩, fun henabled ↦ (hanswers henabled).1 c hc⟩
    have hclaims (p : Pair) (hp : p ∈ skipped) : p.hasClaims = true →
        cfg.contradictionBatchEnabled = true ∧ cfg.contradictionBatchSize < 0 :=
      fun h ↦ absurd h (hsorted.skipped p hp)
    by_cases hnegative : cfg.contradictionBatchEnabled ∧ 1 < sorted.uncachedPairs.length ∧
        cfg.contradictionBatchSize < 0
    · -- no batch is made of the pairs that are left
      have hnone : processedPairs cfg sorted.uncachedPairs = [] := if_pos hnegative
      have hperm : ((hits ++ comparisons.map fun c ↦ (c.pair, c)).map Prod.fst ++
          (sorted.uncachedPairs ++ skipped)).Perm g.pairs := by
        rw [hlist, hnone, List.append_nil, ← List.append_assoc]
        exact hsorted.perm
      refine Group.reports_of_meetings hmet hperm (List.forall_mem_append.mpr ⟨?_, hclaims⟩)
      exact fun _ _ _ ↦ ⟨hnegative.1, hnegative.2.2⟩
    · have hall : processedPairs cfg sorted.uncachedPairs = sorted.uncachedPairs :=
        if_neg hnegative
      have hperm : ((hits ++ comparisons.map fun c ↦ (c.pair, c)).map Prod.fst ++ skipped).Perm
          g.pairs := by
        rw [hlist, hall]
        exact hsorted.perm
      exact Group.reports_of_meetings hmet hperm hclaims
  · intro henabled p hp cached hcached
    rw [← hleft.cache] at hcached
    exact hkept henabled p hp cached hcached

theorem Group.Reports.imp {told told' : Pair → Comparison → Prop} {reportId userId : String}
    {g : Group} {found : List ContradictionFinding}
    (h : g.Reports cfg told reportId userId found)
    (himp : ∀ p ∈ g.pairs, ∀ c, told p c → told' p c) :
    g.Reports cfg told' reportId userId found := by
  refine ⟨h.1, fun p hp ↦ (h.2 p hp).imp_left ?_⟩
  rintro ⟨c, hc, heq⟩
  exact ⟨c, himp p hp c hc, heq⟩

/-- The content of a pair does not depend on the order of its articles. -/
theorem content_swap {a b : Article} (h : a.id = b.id → a = b) :
    (Pair.mk a b).content = (Pair.mk b a).content := by
  by_cases hid : a.id = b.id
  · rw [h hid]
  · simp only [Pair.content, cacheRow, LintPairCache.content, sortedIds_comm b.id a.id,
      Content.mk.injEq, true_and]
    unfold sortedIds
    split
    · simp [Ne.symm hid]
    · simp [Ne.symm hid]

theorem Group.mem_articles (g : Group) {p : Pair} (hp : p ∈ g.pairs) :
    p.a ∈ g.articles ∧ p.b ∈ g.articles := by
  obtain ⟨chosen, hperm, hsub⟩ := g.sample
  exact mem_combinations (hsub.subset (hperm.symm.subset hp))

/-- Over one table, pairs of the same articles have the same content. -/
theorem OneTable.content_eq {groups : List Group} (h : OneTable groups) {g g' : Group}
    (hg : g ∈ groups) (hg' : g' ∈ groups) {p q : Pair} (hp : p ∈ g.pairs) (hq : q ∈ g'.pairs)
    (hids : p.ids = q.ids) : p.content = q.content := by
  obtain ⟨ha, hb⟩ := g.mem_articles hp
  obtain ⟨ha', hb'⟩ := g'.mem_articles hq
  obtain ⟨hfirst, hsecond⟩ | ⟨hfirst, hsecond⟩ := eq_or_swap_of_sortedIds hids
  · have hpair : p = q :=
      congrArg₂ Pair.mk (h g hg g' hg' _ ha _ ha' hfirst) (h g hg g' hg' _ hb _ hb' hsecond)
    rw [hpair]
  · have hpair : p = ⟨q.b, q.a⟩ :=
      congrArg₂ Pair.mk (h g hg g' hg' _ ha _ hb' hfirst) (h g hg g' hg' _ hb _ ha' hsecond)
    rw [hpair]
    exact content_swap (h g' hg' g' hg' _ hb' _ ha')

/-- What a run over groups finds, and, over one table, what its cache says of each pair at the
end. -/
theorem exists_parts_of_detectContradictions {reportId userId : String} {groups : List Group}
    {found : List ContradictionFinding} (hrows : s.RowedFrom state)
    (hexec : (detectContradictions llm cfg reportId userId (groups.map Group.item)).exec s =
      (.ok found, t)) :
    ∃ parts, List.Forall₂ (Group.Reports cfg (Knows state t) reportId userId) groups parts ∧
      found = parts.flatten ∧ (OneTable groups →
        List.Forall₂ (Group.Reports cfg (Answers cfg state t) reportId userId) groups parts) := by
  obtain ⟨_, u, hreport, hexec⟩ := Stateful.exec_bind_eq_ok.mp hexec
  obtain ⟨result, v, hloop, hexec⟩ := Stateful.exec_bind_eq_ok.mp hexec
  cases hexec
  have hu : u.RowedFrom state := by
    cases hreport
    exact hrows
  rw [List.foldlM_map] at hloop
  have hinv := Stateful.returns_foldlM
    (J := fun (done : List Group) (r : PairProcessResult) w ↦ w.RowedFrom state ∧
      (∀ g ∈ done, g ∈ groups) ∧
      ∃ parts, List.Forall₂ (Group.Reports cfg (Knows state w) reportId userId) done parts ∧
        r.findings = parts.flatten ∧ (OneTable groups →
          List.Forall₂ (Group.Reports cfg (Answers cfg state w) reportId userId) done parts))
    ?_ ?_ hloop
  · exact hinv.2.2
  · exact ⟨hu, fun _ h ↦ absurd h List.not_mem_nil, [], .nil, rfl, fun _ ↦ .nil⟩
  · rintro done g hg r w r' w' ⟨hw, hdone, parts, hparts, hfindings, hanswers⟩ hround
    have hmoves := (moves_processItem llm reportId userId r g.item).of_exec hround
    obtain ⟨part, hpart, hreports, hkeeps⟩ := reports_of_processItem hw hround
    refine ⟨hw.mono hmoves, ?_, parts ++ [part], ?_, ?_, fun htable ↦ ?_⟩
    · exact List.forall_mem_append.mpr ⟨hdone, List.forall_mem_singleton.mpr hg⟩
    · have hkept := hparts.imp fun _ _ h ↦ h.imp fun _ _ _ h ↦ h.mono hmoves
      exact List.rel_append hkept (.cons (hreports.imp fun _ _ _ h ↦ h.1) .nil)
    · rw [hpart, hfindings, List.flatten_append, List.flatten_singleton]
    · have hall := (List.forall₂_and_left _ _).mpr ⟨hdone, hanswers htable⟩
      refine List.rel_append (hall.imp fun g' _ h ↦ h.2.imp fun p hp c hc ↦ ?_)
        (.cons hreports .nil)
      refine ⟨hc.1.mono hmoves, fun henabled ↦ ?_⟩
      exact hkeeps henabled p (fun q hq heq ↦ htable.content_eq hg h.1 hq hp heq) _ (hc.2 henabled)

private theorem toJson_injective : Function.Injective Reported.toJson := by
  rintro ⟨d, a, b, c⟩ ⟨d', a', b', c'⟩ h
  simp only [Reported.toJson, JsonValue.obj.injEq, List.cons.injEq, Prod.mk.injEq, true_and,
    and_true] at h
  simp only [Reported.mk.injEq]
  tauto

/-- Two comparisons that the cache says of one content found the same. -/
theorem Says.reported_eq {p q : Pair} {c d : Comparison} (hc : Says t p c) (hd : Says t q d)
    (h : p.content = q.content) : c.reported = d.reported := by
  unfold Says at hc hd
  rw [checkPairCache_congr h, hd, Option.some.injEq] at hc
  exact (List.map_injective_iff.mpr toJson_injective hc).symm

/-- Of all comparisons that the cache says of two articles, one will do for all groups. -/
theorem exists_answer {reportId userId : String} {groups : List Group}
    {parts : List (List ContradictionFinding)} (htable : OneTable groups)
    (henabled : cfg.enablePairCache = true)
    (h : List.Forall₂ (Group.Reports cfg (Answers cfg state t) reportId userId) groups parts) :
    ∃ answer : String × String → Option Comparison, List.Forall₂ (Group.Reports cfg
      (fun p c ↦ Knows state t p c ∧ answer p.ids = some c) reportId userId) groups parts := by
  classical
  let Met (ids : String × String) (c : Comparison) : Prop :=
    ∃ g ∈ groups, ∃ p ∈ g.pairs, p.ids = ids ∧ Answers cfg state t p c
  refine ⟨fun ids ↦ if h : ∃ c, Met ids c then some h.choose else none, ?_⟩
  have hall := (List.forall₂_and_left _ _).mpr ⟨fun g (hg : g ∈ groups) ↦ hg, h⟩
  refine hall.imp fun g part h ↦ ⟨h.2.1, fun p hp ↦ (h.2.2 p hp).imp_left ?_⟩
  rintro ⟨c, hc, heq⟩
  have hmet : ∃ c, Met p.ids c := ⟨c, g, h.1, p, hp, rfl, hc⟩
  obtain ⟨g', hg', q, hq, hids, hanswer⟩ := hmet.choose_spec
  have hcontent := htable.content_eq hg' h.1 hq hp hids
  refine ⟨hmet.choose, ⟨⟨hanswer.1.1, hanswer.1.2.trans hcontent⟩, dif_pos hmet⟩, ?_⟩
  rw [heq, (hanswer.2 henabled).reported_eq (hc.2 henabled) hcontent]

end Meetings

/-- A run reports its concept groups one after the other; of a pair of a group its findings,
with the concept of the group, are those of a single comparison, of this run or, by the cache,
of an earlier one. With the cache on it is the same comparison in every group. -/
theorem reportsByGroup_after (cfg : LinterConfig) (earlier : List Run) (llm : Llm)
    (reportId userId : String) (groups : List Group) (committed : Bool) :
    ReportsByGroup cfg (earlier.foldl (step cfg) .empty) llm reportId userId groups committed := by
  have hrun : (lints cfg).run .empty earlier = some (earlier.foldl (step cfg) .empty) :=
    Machine.run_ofFun (step cfg) .empty earlier
  intro found w hlint
  obtain ⟨parts, hparts, hfound, hanswers⟩ :=
    exists_parts_of_detectContradictions (rowedFrom_of_run hrun) hlint
  exact ⟨parts, hparts, hfound,
    fun henabled htable ↦ exists_answer htable henabled (hanswers htable)⟩

section Samples

private def tides : Article := ⟨"a", "Tides", "2026-01-01", ["the moon"], []⟩
private def waves : Article := ⟨"b", "Waves", "2026-01-02", ["the wind"], []⟩

private def causes : JsonValue :=
  .obj [("contradictions", .arr [.obj [("description", .str "cause"),
    ("article_a_claim", .str "the moon"), ("article_b_claim", .str "the wind")]])]

private theorem nodup_tides_waves : ([tides, waves].map Article.id).Nodup := by decide

private theorem sample_tides_waves :
    List.Subperm [⟨tides, waves⟩] (combinations [tides, waves]) :=
  ⟨_, List.Perm.refl _, List.Sublist.refl _⟩

/-- The two articles under a concept. -/
private def underConcept (conceptId : String) : Group :=
  ⟨some conceptId, [tides, waves], [⟨tides, waves⟩], nodup_tides_waves, sample_tides_waves⟩

/-- Two articles under two concepts. -/
private def sharedRun : Run :=
  .ofGroups (fun _ _ ↦ .ok causes) "r" "u" [underConcept "c1", underConcept "c2"] true

/-- They are compared once and their contradiction is reported twice. -/
theorem not_reportsOnce_shared : ¬ ReportsOnce {} .empty sharedRun := by
  intro h
  have htwice : (lint {} .empty sharedRun).1.toOption.map (fun found ↦
      (found.filter (·.ids = Pair.ids ⟨tides, waves⟩)).length) = some 2 := by decide +kernel
  have honce : (lint {} .empty sharedRun).2.comparisons.map (·.reported.length) = [1] := by
    decide +kernel
  cases hlint : (lint {} .empty sharedRun).1 with
  | error e =>
    rw [hlint] at htwice
    cases htwice
  | ok found =>
    rw [hlint] at htwice
    obtain ⟨c, ⟨hc, _⟩, heq⟩ := h found hlint (underConcept "c1").item (List.mem_cons_self ..)
      ⟨tides, waves⟩ (List.mem_singleton_self _) (by decide)
    have hlength : c.reported.length = 2 := by
      rw [← heq, List.length_map]
      exact Option.some.inj htwice
    obtain hearlier | hnow := hc
    · cases hearlier
    · have hmem := List.mem_map_of_mem (f := fun c : Comparison ↦ c.reported.length) hnow
      rw [honce, List.mem_singleton, hlength] at hmem
      cases hmem

end Samples

end WikiMind.Lint.Contradictions
