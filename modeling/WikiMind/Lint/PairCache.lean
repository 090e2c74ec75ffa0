import WikiMind.Base.Run
import WikiMind.Lint.Contradictions

/-!
# The pair cache over runs

The cache is filled by one lint run and read by the next. A run starts with the rows of the
table; where its transaction is rolled back they stay. Beside the table stands the history
of all comparisons, which the code does not keep: the statements say which comparison a row
comes from and which pairs are compared again.
-/

namespace WikiMind.Lint.Contradictions

open WikiMind.Base

/-- What a row is valid for: its articles and the state they were compared in. -/
structure Content where
  articleAId : String
  articleBId : String
  articleAUpdatedAt : String
  articleBUpdatedAt : String
  deriving DecidableEq, Repr

def LintPairCache.content (row : LintPairCache) : Content :=
  ⟨row.articleAId, row.articleBId, row.articleAUpdatedAt, row.articleBUpdatedAt⟩

/-- The content of a pair, whatever its order. -/
def Pair.content (p : Pair) : Content := (cacheRow p []).content

/-- A contradiction as the cache keeps it. -/
def Reported.toJson (r : Reported) : JsonValue :=
  .obj [("description", r.description), ("article_a_claim", r.articleAClaim),
    ("article_b_claim", r.articleBClaim), ("confidence", r.confidence)]

/-- The row that a comparison leaves. -/
def Comparison.row (c : Comparison) : LintPairCache :=
  cacheRow c.pair (c.reported.map Reported.toJson)

/-- A lint run: what the model answers in it, what it works on and whether its transaction
is committed. -/
structure Run where
  llm : Llm
  reportId : String
  userId : String
  allWork : List WorkItem
  committed : Bool

/-- The cache and the comparisons of all runs so far. -/
structure State where
  cache : List LintPairCache
  history : List Comparison

def State.empty : State := ⟨[], []⟩

/-- The outcome of a run, and what it wrote. -/
def lint (cfg : LinterConfig) (s : State) (r : Run) :
    Except Exc (List ContradictionFinding) × Work :=
  (detectContradictions r.llm cfg r.reportId r.userId r.allWork).exec ⟨s.cache, 0, 0, [], []⟩

/-- The state a run leaves. An exception does not undo what is written:
`engine/linter/runner.py:402–409`. -/
def step (cfg : LinterConfig) (s : State) (r : Run) : State :=
  let w := (lint cfg s r).2
  ⟨if r.committed then w.cache else s.cache, s.history ++ w.comparisons⟩

/-- The lint runs, one after the other. -/
def lints (cfg : LinterConfig) : Machine State Run := .ofFun (step cfg)

section Rows

@[simp] theorem content_cacheRow (p : Pair) (result : List JsonValue) :
    (cacheRow p result).content = p.content := rfl

@[simp] theorem content_row (c : Comparison) : c.row.content = c.pair.content := rfl

/-- The cache keeps of the findings of a comparison what the model reported. -/
theorem cacheDataFromFindings_findings (ctx : Context) (c : Comparison) :
    cacheDataFromFindings (c.findings ctx) = c.reported.map Reported.toJson := by
  simp only [cacheDataFromFindings, Comparison.findings, List.map_map]
  rfl

/-- A hit is a row for the content of the pair. -/
theorem exists_of_checkPairCache {cache : List LintPairCache} {p : Pair}
    {cached : List JsonValue} (h : checkPairCache cache p = some cached) :
    ∃ row ∈ cache, row.content = p.content ∧ row.result = cached := by
  simp only [checkPairCache, Option.bind_eq_some_iff, Option.ite_none_right_eq_some,
    Option.some.injEq] at h
  obtain ⟨row, hfind, ⟨hua, hub⟩, rfl⟩ := h
  have hids := List.find?_some hfind
  simp only [decide_eq_true_eq] at hids
  obtain ⟨ha, hb⟩ := hids
  refine ⟨row, List.mem_of_find?_eq_some hfind, ?_, rfl⟩
  simp only [LintPairCache.content, Pair.content, cacheRow, Content.mk.injEq]
  refine ⟨ha, hb, ?_, ?_⟩
  · rw [hua]
    split <;> rfl
  · rw [hub]
    split <;> rfl

/-- A row for the content of the pair is a hit. -/
theorem checkPairCache_singleton {row : LintPairCache} {p : Pair}
    (h : row.content = p.content) : checkPairCache [row] p = some row.result := by
  simp only [LintPairCache.content, Pair.content, cacheRow, Content.mk.injEq] at h
  obtain ⟨ha, hb, hua, hub⟩ := h
  simp only [checkPairCache, ha, hb, and_self, decide_true, List.find?_cons_of_pos,
    Option.bind_some, hua, hub]
  rw [if_pos]
  constructor
  · split <;> rfl
  · split <;> rfl

end Rows

/-- A call about one pair failed, or its answer could not be read. -/
def isFailedSingle : Call × Answer → Bool
  | (.single _, .error e) => isCallFailure e
  | _ => false

/-- What a part of a run may do: it calls and compares, keeps or replaces rows by those of
its comparisons, and notes a failed comparison only after a failed call. -/
structure Extends (cfg : LinterConfig) (s t : Work) : Prop where
  calls : ∀ call ∈ s.calls, call ∈ t.calls
  comparisons : ∀ c ∈ s.comparisons, c ∈ t.comparisons
  cache : ∀ row ∈ t.cache, row ∈ s.cache ∨ ∃ c ∈ t.comparisons, row = c.row
  disabled : cfg.enablePairCache = false → t.cache = s.cache
  failed : ∀ c ∈ t.comparisons, c.succeeded = false →
    c ∈ s.comparisons ∨ ∃ call ∈ t.calls, isFailedSingle call

section
variable {cfg : LinterConfig} {s t u : Work}

/-- Nothing done is an extension. -/
theorem Extends.refl (s : Work) : Extends cfg s s :=
  ⟨fun _ h ↦ h, fun _ h ↦ h, fun _ h ↦ .inl h, fun _ ↦ rfl, fun _ h _ ↦ .inl h⟩

/-- Extensions one after the other are an extension. -/
theorem Extends.trans (hst : Extends cfg s t) (htu : Extends cfg t u) : Extends cfg s u where
  calls call h := htu.calls call (hst.calls call h)
  comparisons c h := htu.comparisons c (hst.comparisons c h)
  cache row h := by
    rcases htu.cache row h with ht | hu
    · rcases hst.cache row ht with hs | ⟨c, hc, hrow⟩
      · exact .inl hs
      · exact .inr ⟨c, htu.comparisons c hc, hrow⟩
    · exact .inr hu
  disabled h := (htu.disabled h).trans (hst.disabled h)
  failed c hc hfailed := by
    rcases htu.failed c hc hfailed with ht | hu
    · rcases hst.failed c ht hfailed with hs | ⟨call, hcall, h⟩
      · exact .inl hs
      · exact .inr ⟨call, htu.calls call hcall, h⟩
    · exact .inr hu

instance : Std.Refl (Extends cfg) := ⟨Extends.refl⟩

instance : IsTrans Work (Extends cfg) := ⟨fun _ _ _ ↦ Extends.trans⟩

/-- A state that differs in the report only. -/
theorem Extends.of_report (total checked : Nat) :
    Extends cfg s { s with totalPairs := total, checkedPairs := checked } where
  calls _ h := h
  comparisons _ h := h
  cache _ h := .inl h
  disabled _ := rfl
  failed _ h _ := .inl h

/-- A row is saved for a comparison that is noted. -/
theorem Extends.of_save {p : Pair} {found : List ContradictionFinding} {ctx : Context}
    {c : Comparison} (hc : c ∈ s.comparisons) (hp : c.pair = p)
    (hfound : found = c.findings ctx) :
    Extends cfg s ((saveIfEnabled cfg p found).exec s).2 := by
  unfold saveIfEnabled
  split
  next henabled =>
    subst hp hfound
    rw [cacheDataFromFindings_findings]
    constructor
    · exact fun _ h ↦ h
    · exact fun _ h ↦ h
    · intro row hrow
      simp only [savePairCache, Stateful.exec_modify, List.mem_append, List.mem_filter,
        List.mem_singleton] at hrow
      rcases hrow with ⟨hold, _⟩ | hnew
      · exact .inl hold
      · exact .inr ⟨c, hc, hnew⟩
    · exact fun h ↦ absurd henabled (by simp [h])
    · exact fun _ h _ ↦ .inl h
  next => exact Extends.refl s

/-- A call is recorded with its outcome. -/
theorem exec_ask (llm : Llm) (call : Call) (s : Work) :
    (ask llm call).exec s =
      (llm s.calls.length call,
        { s with calls := s.calls ++ [(call, llm s.calls.length call)] }) := by
  simp only [ask, Stateful.exec_bind, Stateful.exec_get, Stateful.exec_modify,
    Stateful.exec_ofExcept]

/-- A call extends the work. -/
theorem moves_ask (llm : Llm) (call : Call) : Stateful.Moves (Extends cfg) (ask llm call) := by
  intro s
  rw [exec_ask]
  constructor
  · exact fun _ h ↦ List.mem_append_left _ h
  · exact fun _ h ↦ h
  · exact fun _ h ↦ .inl h
  · exact fun _ ↦ rfl
  · exact fun _ h _ ↦ .inl h

/-- Comparisons that succeeded may be noted at any time. -/
theorem moves_note {comparisons : List Comparison}
    (h : ∀ c ∈ comparisons, c.succeeded = true) :
    Stateful.Moves (Extends cfg) (note comparisons) := by
  intro s
  constructor
  · exact fun _ h ↦ h
  · exact fun _ h ↦ List.mem_append_left _ h
  · exact fun _ h ↦ .inl h
  · exact fun _ ↦ rfl
  · intro c hc hfailed
    rcases List.mem_append.mp hc with hs | hnew
    · exact .inl hs
    · rw [h c hnew] at hfailed
      cases hfailed

/-- Counting a pair extends the work. -/
theorem moves_countPair (checked : Nat) : Stateful.Moves (Extends cfg) (countPair checked) :=
  fun s ↦ Extends.of_report s.totalPairs (checked + 1)

/-- The call for one pair is recorded; its failure gives no data. -/
theorem exec_askSingle (llm : Llm) (p : Pair) (s : Work) :
    (askSingle llm p).exec s =
      (match llm s.calls.length (.single p) with
        | .ok data => .ok (some data)
        | .error e => if isCallFailure e then .ok none else .error e,
        { s with calls := s.calls ++ [(.single p, llm s.calls.length (.single p))] }) := by
  simp only [askSingle, Stateful.exec_tryCatch, Stateful.exec_map, exec_ask]
  cases llm s.calls.length (.single p) with
  | ok data => rfl
  | error e =>
    simp only [Except.map]
    split <;> rfl

/-- A failed call is caught after it is recorded. -/
theorem exists_of_askSingle {llm : Llm} {p : Pair}
    (h : (askSingle llm p).exec s = (.ok none, t)) :
    ∃ call ∈ t.calls, isFailedSingle call = true := by
  rw [exec_askSingle] at h
  obtain ⟨houtcome, rfl⟩ := Prod.mk.inj h
  refine ⟨_, List.mem_append_right _ (List.mem_singleton_self _), ?_⟩
  cases hanswer : llm s.calls.length (.single p) with
  | ok data => simp [hanswer] at houtcome
  | error e =>
    simp only [hanswer] at houtcome
    split at houtcome
    next hfailure => exact hfailure
    next => cases houtcome

/-- The call for one pair extends the work. -/
theorem moves_askSingle (llm : Llm) (p : Pair) :
    Stateful.Moves (Extends cfg) (askSingle llm p) := by
  apply Stateful.moves_tryCatch
  · intro s
    rw [Stateful.exec_map]
    exact moves_ask llm _ s
  · intro e
    split
    · exact Stateful.moves_pure _
    · exact Stateful.moves_throw _

/-- A failed comparison is noted after its failed call. -/
theorem Extends.of_noteFailed {p : Pair} (h : ∃ call ∈ s.calls, isFailedSingle call = true) :
    Extends cfg s ((note [⟨p, [], false⟩]).exec s).2 where
  calls _ h := h
  comparisons _ h := List.mem_append_left _ h
  cache _ h := .inl h
  disabled _ := rfl
  failed _ _ _ := .inr h

/-- A comparison of two articles extends the work. -/
theorem moves_compareArticlePair (llm : Llm) (ctx : Context) (p : Pair) :
    Stateful.Moves (Extends cfg) (compareArticlePair llm ctx p) := by
  unfold compareArticlePair
  split
  · exact Stateful.moves_pure _
  · refine Stateful.moves_bind_of_returns (moves_askSingle llm p)
      (Q := fun _ data t ↦ data = none → ∃ call ∈ t.calls, isFailedSingle call = true) ?_ ?_
    · rintro s data t h rfl
      exact exists_of_askSingle h
    · intro s data t h
      cases data with
      | none =>
        simp only [Stateful.exec_bind]
        exact Extends.of_noteFailed (h rfl)
      | some data =>
        refine Stateful.moves_bind (Stateful.moves_ofExcept _) (fun contradictions ↦ ?_) t
        refine Stateful.moves_bind (Stateful.moves_ofExcept _) fun reported ↦ ?_
        refine Stateful.moves_bind (moves_note ?_) fun _ ↦ Stateful.moves_pure _
        simp

/-- The findings are those of comparisons of the pairs, one each, that are noted. -/
def Compared (ctx : Context) (pairs : List Pair) (found : List ContradictionFinding)
    (w : Work) : Prop :=
  ∃ comparisons : List Comparison, comparisons.map Comparison.pair = pairs ∧
    (∀ c ∈ comparisons, c ∈ w.comparisons) ∧ found = comparisons.flatMap (Comparison.findings ctx)

/-- Where a comparison of two articles returns, the pair is compared. -/
theorem returns_compareArticlePair {llm : Llm} {ctx : Context} {p : Pair}
    (hclaims : p.hasClaims = true) :
    Stateful.Returns (compareArticlePair llm ctx p) fun _ found t ↦ Compared ctx [p] found t := by
  intro s found t h
  simp only [Pair.hasClaims, decide_eq_true_eq] at hclaims
  have hneither : ¬ (extractClaims p.a = [] ∨ extractClaims p.b = []) := by tauto
  rw [compareArticlePair, if_neg hneither] at h
  obtain ⟨data, u, _, h⟩ := Stateful.exec_bind_eq_ok.mp h
  cases data with
  | none =>
    cases h
    exact ⟨[⟨p, [], false⟩], rfl, by simp, rfl⟩
  | some data =>
    obtain ⟨contradictions, v, _, h⟩ := Stateful.exec_bind_eq_ok.mp h
    obtain ⟨reported, w, _, h⟩ := Stateful.exec_bind_eq_ok.mp h
    cases h
    refine ⟨[⟨p, reported, true⟩], rfl, by simp, ?_⟩
    simp [Comparison.findings]

/-- What is compared stays compared. -/
theorem Compared.mono {ctx : Context} {pairs : List Pair} {found : List ContradictionFinding}
    (h : Compared ctx pairs found s) (hst : Extends cfg s t) : Compared ctx pairs found t := by
  obtain ⟨comparisons, hpairs, hmem, hfound⟩ := h
  exact ⟨comparisons, hpairs, fun c hc ↦ hst.comparisons c (hmem c hc), hfound⟩

/-- Comparisons of pairs and of more pairs are comparisons of all of them. -/
theorem Compared.append {ctx : Context} {ps qs : List Pair}
    {found more : List ContradictionFinding} (hp : Compared ctx ps found s)
    (hq : Compared ctx qs more s) : Compared ctx (ps ++ qs) (found ++ more) s := by
  obtain ⟨cs, rfl, hcs, rfl⟩ := hp
  obtain ⟨ds, rfl, hds, rfl⟩ := hq
  refine ⟨cs ++ ds, by simp, ?_, by simp⟩
  intro c hc
  rcases List.mem_append.mp hc with h | h
  · exact hcs c h
  · exact hds c h

/-- Each pair has its comparison. -/
theorem Compared.exists_of_mem {ctx : Context} {pairs : List Pair}
    {found : List ContradictionFinding} (h : Compared ctx pairs found s) {p : Pair}
    (hp : p ∈ pairs) : ∃ c ∈ s.comparisons, c.pair = p := by
  obtain ⟨comparisons, rfl, hmem, _⟩ := h
  obtain ⟨c, hc, rfl⟩ := List.mem_map.mp hp
  exact ⟨c, hmem c hc, rfl⟩

/-- A finding bears the identifiers of its pair. -/
theorem findingsOf_findings (ctx : Context) (p : Pair) (c : Comparison) :
    findingsOf p (c.findings ctx) =
      if c.pair.a.id = p.a.id ∧ c.pair.b.id = p.b.id then c.findings ctx else [] := by
  unfold findingsOf
  split
  next hids =>
    rw [List.filter_eq_self]
    intro f hf
    obtain ⟨r, _, rfl⟩ := List.mem_map.mp hf
    exact decide_eq_true hids
  next hids =>
    rw [List.filter_eq_nil_iff]
    intro f hf
    obtain ⟨r, _, rfl⟩ := List.mem_map.mp hf
    exact fun h ↦ hids (of_decide_eq_true h)

/-- Among the findings of pairs that differ, those of one pair are those of its
comparison. -/
theorem findingsOf_flatMap {ctx : Context} {comparisons : List Comparison}
    (hnodup : (comparisons.map fun c ↦ (c.pair.a.id, c.pair.b.id)).Nodup) {c : Comparison}
    (hc : c ∈ comparisons) :
    findingsOf c.pair (comparisons.flatMap (Comparison.findings ctx)) = c.findings ctx := by
  obtain ⟨before, after, rfl⟩ := List.append_of_mem hc
  have hother : ∀ d ∈ before ++ after, findingsOf c.pair (d.findings ctx) = [] := by
    intro d hd
    rw [findingsOf_findings, if_neg]
    rintro ⟨ha, hb⟩
    simp only [List.map_append, List.map_cons, List.nodup_append, List.nodup_cons, List.mem_map,
      List.mem_cons] at hnodup
    obtain ⟨_, ⟨hafter, _⟩, hbefore⟩ := hnodup
    rcases List.mem_append.mp hd with h | h
    · exact hbefore _ ⟨d, h, rfl⟩ _ (.inl rfl) (Prod.ext ha hb)
    · exact hafter ⟨d, h, Prod.ext ha hb⟩
  have hnil : ∀ ds : List Comparison, (∀ d ∈ ds, d ∈ before ++ after) →
      findingsOf c.pair (ds.flatMap (Comparison.findings ctx)) = [] := by
    intro ds hds
    simp only [findingsOf, List.filter_flatMap, List.flatMap_eq_nil_iff]
    exact fun d hd ↦ hother d (hds d hd)
  have hsplit : ∀ fs gs : List ContradictionFinding, findingsOf c.pair (fs ++ gs) =
      findingsOf c.pair fs ++ findingsOf c.pair gs := fun fs gs ↦ List.filter_append fs gs
  rw [List.flatMap_append, List.flatMap_cons, hsplit, hsplit, findingsOf_findings,
    if_pos ⟨rfl, rfl⟩, hnil before fun d hd ↦ List.mem_append_left _ hd,
    hnil after fun d hd ↦ List.mem_append_right _ hd]
  simp

/-- Each of the pairs has its comparison, whose findings are those of the pair. -/
theorem Compared.findingsOf {ctx : Context} {pairs : List Pair}
    {found : List ContradictionFinding} (h : Compared ctx pairs found s)
    (hnodup : (pairs.map fun p ↦ (p.a.id, p.b.id)).Nodup) {p : Pair} (hp : p ∈ pairs) :
    ∃ c ∈ s.comparisons, c.pair = p ∧ findingsOf p found = c.findings ctx := by
  obtain ⟨comparisons, rfl, hmem, rfl⟩ := h
  obtain ⟨c, hc, rfl⟩ := List.mem_map.mp hp
  rw [List.map_map] at hnodup
  exact ⟨c, hmem c hc, rfl, findingsOf_flatMap hnodup hc⟩

private theorem mapM_readAll {xs : List (Pair × Nat)} {parsed : Nat → JsonValue}
    {comparisons : List Comparison}
    (h : (xs.mapM fun (p, idx) ↦ do
      let reported ← readAll (parsed idx)
      return (⟨p, reported, true⟩ : Comparison)) = Except.ok comparisons) :
    comparisons.map Comparison.pair = xs.map Prod.fst ∧
      ∀ c ∈ comparisons, c.succeeded = true := by
  induction xs generalizing comparisons with
  | nil =>
    cases h
    simp
  | cons x xs ih =>
    rw [List.mapM_cons] at h
    obtain ⟨c, hc, h⟩ := bind_eq_ok.mp h
    obtain ⟨rest, hrest, h⟩ := bind_eq_ok.mp h
    obtain ⟨reported, _, hc⟩ := bind_eq_ok.mp hc
    cases hc
    cases h
    obtain ⟨hpairs, hsucceeded⟩ := ih hrest
    exact ⟨by simp [hpairs], List.forall_mem_cons.mpr ⟨rfl, hsucceeded⟩⟩

/-- An answer that is read gives one comparison for each pair. -/
theorem of_readBatch {data : JsonValue} {pairs : List Pair} {comparisons : List Comparison}
    (h : readBatch data pairs = .ok comparisons) :
    comparisons.map Comparison.pair = pairs ∧ ∀ c ∈ comparisons, c.succeeded = true := by
  obtain ⟨results, _, h⟩ := bind_eq_ok.mp h
  obtain ⟨parsed, _, h⟩ := bind_eq_ok.mp h
  have hcomparisons := mapM_readAll h
  rwa [List.zipIdx_map_fst] at hcomparisons

/-- A batch in one call extends the work. -/
theorem moves_attemptBatch (llm : Llm) (ctx : Context) (pairs : List Pair) :
    Stateful.Moves (Extends cfg) (attemptBatch llm ctx pairs) := by
  apply Stateful.moves_tryCatch
  · refine Stateful.moves_bind (moves_ask llm _) fun data ↦ ?_
    refine Stateful.moves_bind_of_returns (Stateful.moves_ofExcept _)
      (Q := fun _ comparisons _ ↦ ∀ c ∈ comparisons, c.succeeded = true) ?_ ?_
    · intro s comparisons t h
      rw [Stateful.exec_ofExcept] at h
      exact (of_readBatch (Prod.mk.inj h).1).2
    · intro s comparisons t h
      exact Stateful.moves_bind (moves_note h) (fun _ ↦ Stateful.moves_pure _) t
  · intro e
    split
    · exact Stateful.moves_pure _
    · exact Stateful.moves_throw _

/-- Where a batch in one call has findings, its pairs are compared. -/
theorem returns_attemptBatch {llm : Llm} {ctx : Context} {pairs : List Pair} :
    Stateful.Returns (attemptBatch llm ctx pairs) fun _ result t ↦
      ∀ found, result = some found → Compared ctx pairs found t := by
  rintro s _ t h found rfl
  rw [attemptBatch, Stateful.exec_tryCatch] at h
  split at h
  next result u hexec =>
    obtain ⟨hresult, rfl⟩ := Prod.mk.inj h
    cases hresult
    obtain ⟨data, v, _, hexec⟩ := Stateful.exec_bind_eq_ok.mp hexec
    obtain ⟨comparisons, w, hread, hexec⟩ := Stateful.exec_bind_eq_ok.mp hexec
    rw [Stateful.exec_ofExcept] at hread
    have hpairs := (of_readBatch (Prod.mk.inj hread).1).1
    cases hexec
    exact ⟨comparisons, hpairs, fun c hc ↦ List.mem_append_right _ hc, rfl⟩
  next e u hexec =>
    split at h
    · cases h
    · cases h

/-- A comparison of each pair on its own extends the work. -/
theorem moves_compareEach (llm : Llm) (ctx : Context) (pairs : List Pair) :
    Stateful.Moves (Extends cfg) (compareEach llm ctx pairs) :=
  Stateful.moves_foldlM (fun _ p ↦ Stateful.moves_bind (moves_compareArticlePair llm ctx p)
    fun _ ↦ Stateful.moves_pure _) pairs []

/-- Where the comparisons of each pair return, all are compared. -/
theorem returns_compareEach {llm : Llm} {ctx : Context} {pairs : List Pair}
    (hclaims : ∀ p ∈ pairs, p.hasClaims = true) :
    Stateful.Returns (compareEach llm ctx pairs) fun _ found t ↦ Compared ctx pairs found t := by
  intro s found t h
  refine Stateful.returns_foldlM (J := fun done found w ↦ Compared ctx done found w) ?_ ?_ h
  · exact ⟨[], rfl, by simp, rfl⟩
  · intro done p hp found s' found' t' hdone hexec
    obtain ⟨new, u, hcompare, hexec⟩ := Stateful.exec_bind_eq_ok.mp hexec
    cases hexec
    have hmoves : Extends {} s' t' := (moves_compareArticlePair llm ctx p).of_exec hcompare
    have hnew := returns_compareArticlePair (hclaims p hp) s' new t' hcompare
    exact (hdone.mono hmoves).append hnew

/-- A batch, in one call or pair by pair, extends the work. -/
theorem moves_runBatch (llm : Llm) (ctx : Context) (pairs : List Pair) :
    Stateful.Moves (Extends cfg) (runBatch llm ctx pairs) := by
  refine Stateful.moves_bind (moves_attemptBatch llm ctx pairs) fun first ↦ ?_
  cases first with
  | some found => exact Stateful.moves_pure _
  | none =>
    refine Stateful.moves_bind (moves_attemptBatch llm ctx pairs) fun second ↦ ?_
    cases second with
    | some found => exact Stateful.moves_pure _
    | none => exact moves_compareEach llm ctx pairs

/-- Where a batch returns, its pairs are compared. -/
theorem returns_runBatch {llm : Llm} {ctx : Context} {pairs : List Pair}
    (hclaims : ∀ p ∈ pairs, p.hasClaims = true) :
    Stateful.Returns (runBatch llm ctx pairs) fun _ found t ↦ Compared ctx pairs found t := by
  intro s found t h
  obtain ⟨first, u, hfirst, h⟩ := Stateful.exec_bind_eq_ok.mp h
  cases first with
  | some result =>
    cases h
    exact returns_attemptBatch s _ t hfirst found rfl
  | none =>
    obtain ⟨second, v, hsecond, h⟩ := Stateful.exec_bind_eq_ok.mp h
    cases second with
    | some result =>
      cases h
      exact returns_attemptBatch u _ t hsecond found rfl
    | none => exact returns_compareEach hclaims v found t h

/-- The cache and the report are as before. -/
def Quiet (s t : Work) : Prop :=
  t.cache = s.cache ∧ t.totalPairs = s.totalPairs ∧ t.checkedPairs = s.checkedPairs

instance : Std.Refl Quiet := ⟨fun _ ↦ ⟨rfl, rfl, rfl⟩⟩

instance : IsTrans Work Quiet := ⟨fun _ _ _ hst htu ↦
  ⟨htu.1.trans hst.1, htu.2.1.trans hst.2.1, htu.2.2.trans hst.2.2⟩⟩

/-- A call leaves the cache and the report as they are. -/
theorem quiet_ask (llm : Llm) (call : Call) : Stateful.Moves Quiet (ask llm call) := by
  intro s
  rw [exec_ask]
  exact ⟨rfl, rfl, rfl⟩

private theorem quiet_note (comparisons : List Comparison) :
    Stateful.Moves Quiet (note comparisons) := fun _ ↦ ⟨rfl, rfl, rfl⟩

private theorem quiet_askSingle (llm : Llm) (p : Pair) :
    Stateful.Moves Quiet (askSingle llm p) := by
  apply Stateful.moves_tryCatch
  · intro s
    rw [Stateful.exec_map]
    exact quiet_ask llm _ s
  · intro e
    split
    · exact Stateful.moves_pure _
    · exact Stateful.moves_throw _

theorem quiet_compareArticlePair (llm : Llm) (ctx : Context) (p : Pair) :
    Stateful.Moves Quiet (compareArticlePair llm ctx p) := by
  unfold compareArticlePair
  split
  · exact Stateful.moves_pure _
  · refine Stateful.moves_bind (quiet_askSingle llm p) fun data ↦ ?_
    cases data with
    | none => exact Stateful.moves_bind (quiet_note _) fun _ ↦ Stateful.moves_pure _
    | some data =>
      refine Stateful.moves_bind (Stateful.moves_ofExcept _) fun contradictions ↦ ?_
      refine Stateful.moves_bind (Stateful.moves_ofExcept _) fun reported ↦ ?_
      exact Stateful.moves_bind (quiet_note _) fun _ ↦ Stateful.moves_pure _

private theorem quiet_attemptBatch (llm : Llm) (ctx : Context) (pairs : List Pair) :
    Stateful.Moves Quiet (attemptBatch llm ctx pairs) := by
  apply Stateful.moves_tryCatch
  · refine Stateful.moves_bind (quiet_ask llm _) fun data ↦ ?_
    refine Stateful.moves_bind (Stateful.moves_ofExcept _) fun comparisons ↦ ?_
    exact Stateful.moves_bind (quiet_note _) fun _ ↦ Stateful.moves_pure _
  · intro e
    split
    · exact Stateful.moves_pure _
    · exact Stateful.moves_throw _

private theorem quiet_compareEach (llm : Llm) (ctx : Context) (pairs : List Pair) :
    Stateful.Moves Quiet (compareEach llm ctx pairs) :=
  Stateful.moves_foldlM (fun _ p ↦ Stateful.moves_bind
    (quiet_compareArticlePair llm ctx p) fun _ ↦ Stateful.moves_pure _) pairs []

theorem quiet_runBatch (llm : Llm) (ctx : Context) (pairs : List Pair) :
    Stateful.Moves Quiet (runBatch llm ctx pairs) := by
  refine Stateful.moves_bind (quiet_attemptBatch llm ctx pairs) fun first ↦ ?_
  cases first with
  | some found => exact Stateful.moves_pure _
  | none =>
    refine Stateful.moves_bind (quiet_attemptBatch llm ctx pairs) fun second ↦ ?_
    cases second with
    | some found => exact Stateful.moves_pure _
    | none => exact quiet_compareEach llm ctx pairs

/-- What is done of a pair keeps within its comparison. -/
theorem extends_saveAndCount {ctx : Context} {p : Pair} {found : List ContradictionFinding}
    {c : Comparison} (hc : c ∈ s.comparisons) (hp : c.pair = p)
    (hfound : found = c.findings ctx) (checked : Nat) :
    Extends cfg s ((saveAndCount cfg p found checked).exec s).2 :=
  Stateful.rel_bind (Extends.of_save hc hp hfound) fun _ t _ ↦ moves_countPair checked t

/-- Saving what a batch has found extends the work. -/
theorem extends_saveBatch {ctx : Context} {batch : List Pair}
    {found : List ContradictionFinding} (h : Compared ctx batch found s)
    (hnodup : (batch.map fun p ↦ (p.a.id, p.b.id)).Nodup) (checked : Nat) :
    Extends cfg s ((saveBatch cfg found batch checked).exec s).2 := by
  refine Stateful.rel_foldlM (I := Compared ctx batch found) (fun _ _ hst h ↦ h.mono hst) ?_ _ h
  intro p hp checked t ht
  obtain ⟨c, hc, hpair, hfound⟩ := ht.findingsOf hnodup hp
  exact extends_saveAndCount hc hpair hfound checked

/-- A pair that is compared has one comparison, of which the findings are. -/
theorem Compared.exists_of_singleton {ctx : Context} {p : Pair}
    {found : List ContradictionFinding} (h : Compared ctx [p] found s) :
    ∃ c ∈ s.comparisons, c.pair = p ∧ found = c.findings ctx := by
  obtain ⟨comparisons, hpairs, hmem, hfound⟩ := h
  obtain ⟨c, rest, rfl, hpair, hrest⟩ := List.map_eq_cons_iff.mp hpairs
  rw [List.map_eq_nil_iff] at hrest
  subst hrest
  rw [List.flatMap_singleton] at hfound
  exact ⟨c, hmem c (List.mem_singleton_self c), hpair, hfound⟩

/-- A part of a run does what `Extends` says, and where it returns each of its pairs has its
comparison. -/
def Processes (cfg : LinterConfig) {α : Type} (x : Detect α) (pairs : List Pair) : Prop :=
  Stateful.Moves (Extends cfg) x ∧
    Stateful.Returns x fun _ _ t ↦ ∀ p ∈ pairs, ∃ c ∈ t.comparisons, c.pair = p

/-- Pairs that are compared first are processed, whatever follows. -/
theorem processes_bind {ctx : Context} {α : Type} {pairs : List Pair}
    {x : Detect (List ContradictionFinding)} {f : List ContradictionFinding → Detect α}
    (hx : Stateful.Moves (Extends cfg) x)
    (hcompared : Stateful.Returns x fun _ found t ↦ Compared ctx pairs found t)
    (hf : ∀ found t, Compared ctx pairs found t → Extends cfg t ((f found).exec t).2) :
    Processes cfg (x >>= f) pairs := by
  constructor
  · exact Stateful.moves_bind_of_returns hx hcompared fun _ found t ↦ hf found t
  · intro s a t h p hp
    obtain ⟨found, u, hfound, h⟩ := Stateful.exec_bind_eq_ok.mp h
    have hu := hcompared s found u hfound
    have hrest : Extends cfg u t := by simpa [h] using hf found u hu
    obtain ⟨c, hc, hpair⟩ := hu.exists_of_mem hp
    exact ⟨c, hrest.comparisons c hc, hpair⟩

/-- A batch is processed with all its pairs. -/
theorem processes_processBatch {llm : Llm} {ctx : Context} {batch : List Pair}
    (hclaims : ∀ p ∈ batch, p.hasClaims = true)
    (hnodup : (batch.map fun p ↦ (p.a.id, p.b.id)).Nodup) (acc : PairProcessResult) :
    Processes cfg (processBatch llm cfg ctx acc batch) batch := by
  refine processes_bind (moves_runBatch llm ctx batch) (returns_runBatch hclaims) ?_
  intro found t hcompared
  exact Stateful.rel_bind (extends_saveBatch hcompared hnodup _) fun _ u _ ↦ Extends.refl u

/-- A pair is processed on its own. -/
theorem processes_processPair {llm : Llm} {ctx : Context} {p : Pair}
    (hclaims : p.hasClaims = true) (acc : PairProcessResult) :
    Processes cfg (processPair llm cfg ctx acc p) [p] := by
  refine processes_bind (moves_compareArticlePair llm ctx p)
    (returns_compareArticlePair hclaims) ?_
  intro found t hcompared
  obtain ⟨c, hc, hpair, hfound⟩ := hcompared.exists_of_singleton
  exact Stateful.rel_bind (extends_saveAndCount hc hpair hfound _) fun _ u _ ↦ Extends.refl u

/-- A loop processes what its rounds do. -/
theorem processes_foldlM {α γ : Type} {g : γ → α → Detect γ} {xs : List α}
    {pairsOf : α → List Pair} (h : ∀ x ∈ xs, ∀ acc, Processes cfg (g acc x) (pairsOf x))
    (acc : γ) : Processes cfg (xs.foldlM g acc) (xs.flatMap pairsOf) := by
  constructor
  · intro s
    exact Stateful.rel_foldlM (I := fun _ ↦ True) (fun _ _ _ h ↦ h)
      (fun x hx acc s _ ↦ (h x hx acc).1 s) acc trivial
  · intro s d t hexec
    refine Stateful.returns_foldlM
      (J := fun done _ w ↦ ∀ p ∈ done.flatMap pairsOf, ∃ c ∈ w.comparisons, c.pair = p)
      (by simp) ?_ hexec
    intro done x hx acc v acc' w hold hround p hp
    rw [List.flatMap_append, List.flatMap_singleton, List.mem_append] at hp
    rcases hp with hbefore | hnow
    · obtain ⟨c, hc, hpair⟩ := hold p hbefore
      exact ⟨c, ((h x hx acc).1.of_exec hround).comparisons c hc, hpair⟩
    · exact (h x hx acc).2 v acc' w hround p hnow

/-- The slices of a list are the list. -/
theorem flatten_slices {pairs : List Pair} {size : Nat} (hsize : 0 < size) :
    (slices pairs size).flatten = pairs := by
  have hfirst (k : Nat) : ((List.range k).map fun i ↦
      (pairs.drop (i * size)).take size).flatten = pairs.take (k * size) := by
    induction k with
    | zero => simp
    | succ k ih =>
      rw [List.range_succ, List.map_append, List.flatten_append, ih, Nat.succ_mul, List.take_add]
      simp
  unfold slices
  rw [hfirst, List.take_of_length_le]
  have hmod := Nat.div_add_mod (pairs.length + (size - 1)) size
  have hlt := Nat.mod_lt (pairs.length + (size - 1)) hsize
  rw [Nat.mul_comm] at hmod
  omega

private theorem sublist_of_mem_slices {pairs part : List Pair} {size : Nat}
    (h : part ∈ slices pairs size) : part.Sublist pairs := by
  obtain ⟨i, _, rfl⟩ := List.mem_map.mp h
  exact (List.take_sublist _ _).trans (List.drop_sublist _ _)

/-- Every pair is in a slice. -/
theorem exists_mem_slices {pairs : List Pair} {size : Nat} (hsize : 0 < size) {p : Pair}
    (hp : p ∈ pairs) : ∃ part ∈ slices pairs size, p ∈ part := by
  apply List.mem_flatten.mp
  rwa [flatten_slices hsize]

/-- The batches of a run, of a size that is not negative, are parts of the list that cover
it. -/
theorem of_batches {pairs : List Pair} {size : Int} {parts : List (List Pair)}
    (h : batches pairs size = .ok parts) :
    (∀ part ∈ parts, part.Sublist pairs) ∧
      (0 ≤ size → ∀ p ∈ pairs, ∃ part ∈ parts, p ∈ part) := by
  unfold batches at h
  split at h
  next => cases h
  next hzero =>
    split at h
    next hneg =>
      cases h
      exact ⟨by simp, by omega⟩
    next hpos =>
      cases h
      refine ⟨fun part hpart ↦ sublist_of_mem_slices hpart, fun _ p hp ↦ ?_⟩
      exact exists_mem_slices (by omega) hp

/-- The pairs that `_process_uncached_pairs` compares: those of the batches, or all. -/
def processedPairs (cfg : LinterConfig) (pairs : List Pair) : List Pair :=
  if cfg.contradictionBatchEnabled ∧ 1 < pairs.length ∧ cfg.contradictionBatchSize < 0 then []
  else pairs

/-- The pairs that no cache row answers are processed in their batches. -/
theorem processes_processUncachedPairs {llm : Llm} {ctx : Context} {pairs : List Pair}
    (hclaims : ∀ p ∈ pairs, p.hasClaims = true)
    (hnodup : (pairs.map fun p ↦ (p.a.id, p.b.id)).Nodup) (checked : Nat) :
    Processes cfg (processUncachedPairs llm cfg ctx pairs checked)
      (processedPairs cfg pairs) := by
  have hbatches (parts : List (List Pair))
      (hparts : batches pairs cfg.contradictionBatchSize = .ok parts) :
      Processes cfg (parts.foldlM (processBatch llm cfg ctx) ⟨[], checked⟩) parts.flatten := by
    have hsub := (of_batches hparts).1
    rw [← List.flatMap_id]
    refine processes_foldlM (fun part hpart acc ↦ ?_) _
    have hin := hsub part hpart
    exact processes_processBatch (fun p hp ↦ hclaims p (hin.subset hp))
      (hnodup.sublist (hin.map _)) acc
  have hpairs : Processes cfg (pairs.foldlM (processPair llm cfg ctx) ⟨[], checked⟩) pairs := by
    have h : Processes cfg (pairs.foldlM (processPair llm cfg ctx) ⟨[], checked⟩)
        (pairs.flatMap fun p ↦ [p]) :=
      processes_foldlM (fun p hp acc ↦ processes_processPair (hclaims p hp) acc) _
    simpa using h
  unfold processUncachedPairs processedPairs
  split
  next hbatch =>
    constructor
    · refine Stateful.moves_bind_of_returns (Stateful.moves_ofExcept _)
        (Q := fun _ parts _ ↦ batches pairs cfg.contradictionBatchSize = .ok parts) ?_ ?_
      · intro s parts t h
        rw [Stateful.exec_ofExcept] at h
        exact (Prod.mk.inj h).1
      · exact fun _ parts t hparts ↦ (hbatches parts hparts).1 t
    · intro s result t h p hp
      obtain ⟨parts, u, hparts, h⟩ := Stateful.exec_bind_eq_ok.mp h
      rw [Stateful.exec_ofExcept] at hparts
      have hparts := (Prod.mk.inj hparts).1
      split at hp
      next => cases hp
      next hneg =>
        have hsize : 0 ≤ cfg.contradictionBatchSize := by
          by_contra hlt
          exact hneg ⟨hbatch.1, hbatch.2, by omega⟩
        obtain ⟨part, hpart, hmem⟩ := (of_batches hparts).2 hsize p hp
        exact (hbatches parts hparts).2 u result t h p (List.mem_flatten.mpr ⟨part, hpart, hmem⟩)
  next hsingle =>
    rw [if_neg fun h ↦ hsingle ⟨h.1, h.2.1⟩]
    exact hpairs

/-- The cache has a row for the content of the pair, and is asked. -/
def Hit (cfg : LinterConfig) (cache : List LintPairCache) (p : Pair) : Prop :=
  cfg.enablePairCache = true ∧ ∃ row ∈ cache, row.content = p.content

/-- What the sorting of some pairs of a group left to compare. -/
structure SortedFrom (cfg : LinterConfig) (start : List LintPairCache) (done : List Pair)
    (acc : Sorted) (w : Work) : Prop where
  cache : w.cache = start
  sublist : acc.uncachedPairs.Sublist done
  claims : ∀ p ∈ acc.uncachedPairs, p.hasClaims = true
  hit : ∀ p ∈ done, p.hasClaims = true → p ∈ acc.uncachedPairs ∨ Hit cfg start p

/-- What a pair comes to: the cache answers for it, it is left, or it has no claims. -/
inductive Sorts (cfg : LinterConfig) (ctx : Context) (s : Work) (acc : Sorted) (p : Pair) :
    Sorted → Prop
  | hit {cached : List JsonValue} {found : List ContradictionFinding} (checked : Nat)
      (henabled : cfg.enablePairCache = true) (hcheck : checkPairCache s.cache p = some cached)
      (hfound : findingsFromCached ctx p cached = .ok found) :
      Sorts cfg ctx s acc p { acc with findings := acc.findings ++ found, checked }
  | left (hmiss : cfg.enablePairCache = true → checkPairCache s.cache p = none)
      (hclaims : p.hasClaims = true) :
      Sorts cfg ctx s acc p { acc with uncachedPairs := acc.uncachedPairs ++ [p] }
  | skipped (checked : Nat) (hclaims : ¬ p.hasClaims = true) :
      Sorts cfg ctx s acc p { acc with checked }

/-- The sorting of a pair asks the cache and leaves it as it is. -/
theorem sorts_of_sortPair {ctx : Context} {acc acc' : Sorted} {p : Pair}
    (hexec : (sortPair cfg ctx acc p).exec s = (.ok acc', t)) :
    Sorts cfg ctx s acc p acc' ∧ t.cache = s.cache := by
  obtain ⟨w, u, hget, hexec⟩ := Stateful.exec_bind_eq_ok.mp hexec
  cases hget
  split at hexec
  next cached hcached =>
    obtain ⟨found, v, hfound, hexec⟩ := Stateful.exec_bind_eq_ok.mp hexec
    obtain ⟨henabled, hcheck⟩ := Option.ite_none_right_eq_some.mp hcached
    rw [Stateful.exec_ofExcept] at hfound
    obtain ⟨hok, rfl⟩ := Prod.mk.inj hfound
    cases hexec
    exact ⟨.hit _ henabled hcheck hok, rfl⟩
  next hmiss =>
    split at hexec
    next hclaims =>
      cases hexec
      exact ⟨.left (fun henabled ↦ by rwa [if_pos henabled] at hmiss) hclaims, rfl⟩
    next hclaims =>
      cases hexec
      exact ⟨.skipped _ hclaims, rfl⟩

/-- Looking a pair up in the cache extends the work. -/
theorem moves_sortPair (ctx : Context) (acc : Sorted) (p : Pair) :
    Stateful.Moves (Extends cfg) (sortPair cfg ctx acc p) := by
  intro s
  refine Stateful.rel_bind (Extends.refl s) fun w t _ ↦ ?_
  cases if cfg.enablePairCache then checkPairCache w.cache p else none with
  | some cached =>
    refine Stateful.moves_bind (Stateful.moves_ofExcept _) (fun _ ↦ ?_) t
    exact Stateful.moves_bind (moves_countPair _) fun _ ↦ Stateful.moves_pure _
  | none =>
    cases p.hasClaims with
    | true => exact Extends.refl t
    | false => exact Stateful.moves_bind (moves_countPair _) (fun _ ↦ Stateful.moves_pure _) t

/-- One more pair is sorted: the cache answers it, it has no claims, or it is left. -/
theorem SortedFrom.sortPair {start : List LintPairCache} {done : List Pair} {ctx : Context}
    {acc acc' : Sorted} {p : Pair} (h : SortedFrom cfg start done acc s)
    (hexec : (sortPair cfg ctx acc p).exec s = (.ok acc', t)) :
    SortedFrom cfg start (done ++ [p]) acc' t := by
  obtain ⟨hsorts, hsame⟩ := sorts_of_sortPair hexec
  have hcache : t.cache = start := hsame.trans h.cache
  have hsublist : acc.uncachedPairs.Sublist (done ++ [p]) :=
    h.sublist.trans (List.sublist_append_left ..)
  cases hsorts with
  | hit _ henabled hcheck _ =>
    obtain ⟨row, hrow, hcontent, _⟩ := exists_of_checkPairCache hcheck
    rw [h.cache] at hrow
    refine ⟨hcache, hsublist, h.claims, List.forall_mem_append.mpr ⟨h.hit, ?_⟩⟩
    exact List.forall_mem_singleton.mpr fun _ ↦ .inr ⟨henabled, row, hrow, hcontent⟩
  | left _ hclaims =>
    refine ⟨hcache, h.sublist.append (List.Sublist.refl _), ?_, ?_⟩
    · exact List.forall_mem_append.mpr ⟨h.claims, List.forall_mem_singleton.mpr hclaims⟩
    · refine List.forall_mem_append.mpr ⟨fun q hq hq' ↦ ?_, fun q hq _ ↦ ?_⟩
      · exact (h.hit q hq hq').imp_left fun hleft ↦ List.mem_append_left _ hleft
      · exact .inl (List.mem_append_right _ hq)
  | skipped _ hclaims =>
    refine ⟨hcache, hsublist, h.claims, List.forall_mem_append.mpr ⟨h.hit, ?_⟩⟩
    exact List.forall_mem_singleton.mpr fun hhas ↦ absurd hhas hclaims

/-- The pairs are sorted into those with a cache row and the others. -/
theorem returns_sortPairs (ctx : Context) (pairs : List Pair) (found : List ContradictionFinding)
    (checked : Nat) :
    Stateful.Returns (pairs.foldlM (sortPair cfg ctx) ⟨found, [], checked⟩) fun s sorted t ↦
      SortedFrom cfg s.cache pairs sorted t := by
  intro s sorted t h
  refine Stateful.returns_foldlM (J := fun done acc w ↦ SortedFrom cfg s.cache done acc w) ?_ ?_ h
  · exact ⟨rfl, List.Sublist.refl _, by simp, by simp⟩
  · exact fun done p _ acc v acc' w hacc hexec ↦ hacc.sortPair hexec

/-- The pair was answered by the cache of the start, or a comparison of its content is
noted. -/
def Covered (cfg : LinterConfig) (start : List LintPairCache) (p : Pair) (w : Work) : Prop :=
  Hit cfg start p ∨ ∃ c ∈ w.comparisons, c.pair.content = p.content

/-- A covered pair stays covered. -/
theorem Covered.mono {start : List LintPairCache} {p : Pair} (h : Covered cfg start p s)
    (hst : Extends cfg s t) : Covered cfg start p t :=
  h.imp_right fun ⟨c, hc, hcontent⟩ ↦ ⟨c, hst.comparisons c hc, hcontent⟩

/-- A hit within a run goes back to the start or to a comparison of the run. -/
theorem Hit.covered {p : Pair} (h : Hit cfg t.cache p) (hst : Extends cfg s t) :
    Covered cfg s.cache p t := by
  obtain ⟨henabled, row, hrow, hcontent⟩ := h
  rcases hst.cache row hrow with hs | ⟨c, hc, rfl⟩
  · exact .inl ⟨henabled, row, hs, hcontent⟩
  · exact .inr ⟨c, hc, hcontent⟩

/-- A group of articles extends the work. -/
theorem moves_processItem (llm : Llm) (reportId userId : String) (acc : PairProcessResult)
    (item : WorkItem) :
    Stateful.Moves (Extends cfg) (processItem llm cfg reportId userId acc item) := by
  refine Stateful.moves_bind_of_returns (Stateful.moves_foldlM (moves_sortPair _) _ _)
    (returns_sortPairs _ _ _ _) ?_
  intro _ sorted t h
  have hnodup := item.nodup.sublist (h.sublist.map _)
  exact Stateful.moves_bind (processes_processUncachedPairs h.claims hnodup _).1
    (fun _ ↦ Stateful.moves_pure _) t

/-- An item that returns covers its pairs that have claims. -/
theorem covered_of_processItem {llm : Llm} {reportId userId : String}
    {acc result : PairProcessResult} {item : WorkItem}
    (hsize : cfg.contradictionBatchEnabled = true → 0 ≤ cfg.contradictionBatchSize)
    (hst : Extends cfg s t)
    (hexec : (processItem llm cfg reportId userId acc item).exec t = (.ok result, u)) {p : Pair}
    (hp : p ∈ item.pairs) (hclaims : p.hasClaims = true) : Covered cfg s.cache p u := by
  have hall := (moves_processItem llm reportId userId acc item).of_exec hexec
  obtain ⟨sorted, v, hsort, hexec⟩ := Stateful.exec_bind_eq_ok.mp hexec
  obtain ⟨processed, w, hprocess, hexec⟩ := Stateful.exec_bind_eq_ok.mp hexec
  cases hexec
  have h := returns_sortPairs _ _ _ _ t sorted v hsort
  rcases h.hit p hp hclaims with hleft | hhit
  · have hnodup := item.nodup.sublist (h.sublist.map _)
    have hprocesses := (processes_processUncachedPairs h.claims hnodup _).2 v processed u hprocess
    have hnotEmpty : processedPairs cfg sorted.uncachedPairs = sorted.uncachedPairs := by
      refine if_neg fun hneg ↦ ?_
      have := hsize hneg.1
      omega
    rw [hnotEmpty] at hprocesses
    obtain ⟨c, hc, hpair⟩ := hprocesses p hleft
    exact .inr ⟨c, hc, congrArg Pair.content hpair⟩
  · exact (hhit.covered hst).mono hall

/-- A lint run extends the work. -/
theorem moves_detectContradictions (llm : Llm) (reportId userId : String)
    (allWork : List WorkItem) :
    Stateful.Moves (Extends cfg) (detectContradictions llm cfg reportId userId allWork) := by
  refine Stateful.moves_bind (Stateful.moves_modify fun s ↦ Extends.of_report _ _) fun _ ↦ ?_
  refine Stateful.moves_bind ?_ fun _ ↦ Stateful.moves_pure _
  exact Stateful.moves_foldlM (moves_processItem llm reportId userId) _ _

/-- Every pair of a lint run that returns is covered, if it has claims. -/
theorem covered_of_detectContradictions {llm : Llm} {reportId userId : String}
    {allWork : List WorkItem} {found : List ContradictionFinding}
    (hsize : cfg.contradictionBatchEnabled = true → 0 ≤ cfg.contradictionBatchSize)
    (hexec : (detectContradictions llm cfg reportId userId allWork).exec s = (.ok found, t)) :
    ∀ item ∈ allWork, ∀ p ∈ item.pairs, p.hasClaims = true → Covered cfg s.cache p t := by
  obtain ⟨_, u, hreport, hexec⟩ := Stateful.exec_bind_eq_ok.mp hexec
  obtain ⟨result, v, hloop, hexec⟩ := Stateful.exec_bind_eq_ok.mp hexec
  cases hexec
  have hsu : Extends cfg s u := by
    cases hreport
    exact Extends.of_report _ _
  have hinv := Stateful.returns_foldlM
    (J := fun done _ w ↦ Extends cfg s w ∧
      ∀ item ∈ done, ∀ p ∈ item.pairs, p.hasClaims = true → Covered cfg s.cache p w)
    ⟨hsu, by simp⟩ (fun done item _ acc w acc' w' hold hround ↦ ?_) hloop
  · exact hinv.2
  · obtain ⟨hsw, hdone⟩ := hold
    have hmoves := (moves_processItem llm reportId userId acc item).of_exec hround
    refine ⟨hsw.trans hmoves, fun item' hitem' p hp hclaims ↦ ?_⟩
    rcases List.mem_append.mp hitem' with hbefore | hnow
    · exact (hdone item' hbefore p hp hclaims).mono hmoves
    · rw [List.mem_singleton.mp hnow] at hp
      exact covered_of_processItem hsize hsw hround hp hclaims

end

section Runs
variable {cfg : LinterConfig} {s t : State} {r : Run}

/-- Every row comes from a comparison that succeeded. -/
def State.Sound (s : State) : Prop :=
  ∀ row ∈ s.cache, ∃ c ∈ s.history, c.succeeded = true ∧ row = c.row

/-- The last comparison of the pair in its present content failed, or there is none. -/
def State.Unsettled (s : State) (p : Pair) : Prop :=
  ∀ c, s.history.reverse.find? (·.pair.content = p.content) = some c → c.succeeded = false

/-- A run that returns compares the pairs of its work that are not settled. -/
def Recompares (cfg : LinterConfig) (s : State) (r : Run) (t : State) : Prop :=
  ∀ found, (lint cfg s r).1 = .ok found →
    ∀ item ∈ r.allWork, ∀ p ∈ item.pairs, p.hasClaims = true → s.Unsettled p →
      ∃ c ∈ t.history.drop s.history.length, c.pair.content = p.content

/-- With the cache on, no call about one pair fails in the run. A batch size is not
negative, since `range` gives no batch for such a one. -/
structure Answered (cfg : LinterConfig) (s : State) (r : Run) : Prop where
  answered : cfg.enablePairCache = true → ∀ call ∈ (lint cfg s r).2.calls,
    isFailedSingle call = false
  size : cfg.contradictionBatchEnabled = true → 0 ≤ cfg.contradictionBatchSize

/-- Every row comes from a comparison, and with the cache on all of them succeeded. -/
structure State.Filled (cfg : LinterConfig) (s : State) : Prop where
  rows : ∀ row ∈ s.cache, ∃ c ∈ s.history, row = c.row
  succeeded : cfg.enablePairCache = true → ∀ c ∈ s.history, c.succeeded = true
  disabled : cfg.enablePairCache = false → s.cache = []

/-- A run of the linter extends the work from its start. -/
theorem extends_lint (cfg : LinterConfig) (s : State) (r : Run) :
    Extends cfg ⟨s.cache, 0, 0, [], []⟩ (lint cfg s r).2 :=
  moves_detectContradictions r.llm r.reportId r.userId r.allWork _

/-- A row after a run comes from a comparison, of this run or of an earlier one. -/
theorem rows_step (h : ∀ row ∈ s.cache, ∃ c ∈ s.history, row = c.row) :
    ∀ row ∈ (step cfg s r).cache, ∃ c ∈ (step cfg s r).history, row = c.row := by
  have hold (row : LintPairCache) (hrow : row ∈ s.cache) :
      ∃ c ∈ (step cfg s r).history, row = c.row := by
    obtain ⟨c, hc, heq⟩ := h row hrow
    exact ⟨c, List.mem_append_left _ hc, heq⟩
  intro row hrow
  simp only [step] at hrow
  split at hrow
  · rcases (extends_lint cfg s r).cache row hrow with hs | ⟨c, hc, heq⟩
    · exact hold row hs
    · exact ⟨c, List.mem_append_right _ hc, heq⟩
  · exact hold row hrow

/-- A run whose calls are answered keeps the cache filled. -/
theorem State.Filled.step (h : s.Filled cfg) (hr : Answered cfg s r) :
    (Contradictions.step cfg s r).Filled cfg where
  rows := rows_step h.rows
  succeeded henabled := by
    refine List.forall_mem_append.mpr ⟨h.succeeded henabled, fun c hc ↦ ?_⟩
    by_contra hfailed
    rw [Bool.not_eq_true] at hfailed
    rcases (extends_lint cfg s r).failed c hc hfailed with hs | ⟨call, hcall, hcallFailed⟩
    · cases hs
    · rw [hr.answered henabled call hcall] at hcallFailed
      cases hcallFailed
  disabled hdisabled := by
    have hcache := (extends_lint cfg s r).disabled hdisabled
    simp only [Contradictions.step, hcache, h.disabled hdisabled, ite_self]

/-- A filled cache is sound. -/
theorem State.Filled.sound (h : s.Filled cfg) : s.Sound := by
  intro row hrow
  obtain ⟨c, hc, heq⟩ := h.rows row hrow
  refine ⟨c, hc, h.succeeded ?_ c hc, heq⟩
  by_contra hdisabled
  rw [h.disabled (by simpa using hdisabled)] at hrow
  cases hrow

/-- A pair that is not settled has no row. -/
theorem State.Filled.not_hit (h : s.Filled cfg) {p : Pair} (hp : s.Unsettled p) :
    ¬ Hit cfg s.cache p := by
  rintro ⟨henabled, row, hrow, hcontent⟩
  obtain ⟨c, hc, rfl⟩ := h.rows row hrow
  have hsome : (s.history.reverse.find? (·.pair.content = p.content)).isSome := by
    rw [List.find?_isSome]
    exact ⟨c, List.mem_reverse.mpr hc, by simpa using hcontent⟩
  obtain ⟨d, hd⟩ := Option.isSome_iff_exists.mp hsome
  have hmem := List.mem_reverse.mp (List.mem_of_find?_eq_some hd)
  have hfailed := hp d hd
  rw [h.succeeded henabled d hmem] at hfailed
  cases hfailed

/-- A run with a filled cache compares again what has changed, and nothing else. -/
theorem State.Filled.recompares (h : s.Filled cfg) (hr : Answered cfg s r) :
    Recompares cfg s r (Contradictions.step cfg s r) := by
  intro found hfound item hitem p hp hclaims hunsettled
  have hcovered := covered_of_detectContradictions hr.size (s := ⟨s.cache, 0, 0, [], []⟩)
    (t := (lint cfg s r).2) (Prod.ext hfound rfl) item hitem p hp hclaims
  rcases hcovered with hhit | ⟨c, hc, hcontent⟩
  · exact absurd hhit (h.not_hit hunsettled)
  · refine ⟨c, ?_, hcontent⟩
    simpa [Contradictions.step] using hc

/-- As long as no call about one pair fails while the cache is on, every row comes from a
comparison that succeeded, and a run compares each pair that is not settled. -/
theorem always_sound_and_recompares (cfg : LinterConfig) (rs : List Run)
    (h : (lints cfg).Guarded (Answered cfg) .empty rs) :
    (lints cfg).Always State.Sound .empty rs ∧ (lints cfg).Steps (Recompares cfg) .empty rs := by
  have hempty : State.empty.Filled cfg := ⟨by simp [State.empty], by simp [State.empty], by
    simp [State.empty]⟩
  have hstep (s : State) (r : Run) (t : State) (hs : s.Filled cfg) (hr : Answered cfg s r)
      (ht : (lints cfg).step s r = some t) : t.Filled cfg ∧ Recompares cfg s r t := by
    cases ht
    exact ⟨hs.step hr, hs.recompares hr⟩
  constructor
  · have hfilled := (lints cfg).always_of_guarded
      (fun s r t hs hr ht ↦ (hstep s r t hs hr ht).1) hempty h
    exact hfilled.mono _ fun s ↦ State.Filled.sound
  · exact (lints cfg).steps_of_guarded hstep hempty h

/-- The contradiction as it reads with the articles in the other order. -/
def Reported.mirror (r : Reported) : Reported :=
  { r with articleAClaim := r.articleBClaim, articleBClaim := r.articleAClaim }

/-- The findings of a fresh comparison of the pair, with the contradictions a comparison of
its content found: each claim goes with its article. -/
def Comparison.fresh (ctx : Context) (c : Comparison) (p : Pair) : List ContradictionFinding :=
  (if p.a.id = c.pair.a.id then c.reported else c.reported.map Reported.mirror).map
    (Reported.finding ctx p)

/-- The comparison is one whose contradictions the hit on the pair gives. -/
def Comparison.Fills (c : Comparison) (p : Pair) (cached : List JsonValue) : Prop :=
  c.pair.content = p.content ∧ cached = c.reported.map Reported.toJson

/-- A reported contradiction is read back from its JSON. -/
theorem read_toJson (r : Reported) : Reported.read r.toJson = .ok r := by
  simp [Reported.read, Reported.toJson, JsonValue.lookup]
  rfl

/-- A row reads back as the contradictions it was made of. -/
theorem findingsFromCached_toJson (ctx : Context) (p : Pair) (reported : List Reported) :
    findingsFromCached ctx p (reported.map Reported.toJson) =
      .ok (reported.map (Reported.finding ctx p)) := by
  have hread : (reported.map Reported.toJson).mapM Reported.read = .ok reported := by
    induction reported with
    | nil => rfl
    | cons r rest ih =>
      rw [List.map_cons, List.mapM_cons, read_toJson, ih]
      rfl
  rw [findingsFromCached, hread]
  rfl

/-- A hit comes from a comparison of the run or of an earlier one. -/
theorem exists_fills {p : Pair} {cached : List JsonValue}
    (hrows : ∀ row ∈ s.cache, ∃ c ∈ s.history, row = c.row)
    (h : checkPairCache s.cache p = some cached) : ∃ c ∈ s.history, c.Fills p cached := by
  obtain ⟨row, hrow, hcontent, rfl⟩ := exists_of_checkPairCache h
  obtain ⟨c, hc, rfl⟩ := hrows row hrow
  exact ⟨c, hc, hcontent, rfl⟩

/-- A contradiction of a pair makes the same finding as its mirror where both claims read
the same. -/
theorem finding_mirror_iff (ctx : Context) (p : Pair) (r : Reported) :
    r.finding ctx p = r.mirror.finding ctx p ↔ r.articleAClaim = r.articleBClaim := by
  constructor
  · exact fun h ↦ congrArg ContradictionFinding.articleAClaim h
  · intro h
    simp only [Reported.finding, Reported.mirror, h]

/-- What the cache gives is what a fresh comparison gives if the pair comes in the order in
which it was compared, and else only where all contradictions have two equal claims. -/
theorem findingsFromCached_eq_fresh_iff (cfg : LinterConfig) (rs : List Run)
    (hrun : (lints cfg).run .empty rs = some s) (ctx : Context) (p : Pair)
    (cached : List JsonValue) (hhit : checkPairCache s.cache p = some cached) :
    (∃ c ∈ s.history, c.Fills p cached) ∧ ∀ c : Comparison, c.Fills p cached →
      (findingsFromCached ctx p cached = .ok (c.fresh ctx p) ↔
        p.a.id = c.pair.a.id ∨ ∀ r ∈ c.reported, r.articleAClaim = r.articleBClaim) := by
  constructor
  · apply exists_fills _ hhit
    refine (lints cfg).invariant_of_reachable
      (I := fun s ↦ ∀ row ∈ s.cache, ∃ c ∈ s.history, row = c.row) ?_ ?_ ⟨rs, hrun⟩
    · rintro s r t hs ht
      cases ht
      exact rows_step hs
    · simp [State.empty]
  · rintro c ⟨_, rfl⟩
    rw [findingsFromCached_toJson, Except.ok.injEq, Comparison.fresh]
    split
    next horder => simp [horder]
    next horder =>
      rw [List.map_map, List.map_inj_left, or_iff_right horder]
      exact forall₂_congr fun r _ ↦ finding_mirror_iff ctx p r

section Samples

private def first : Article := ⟨"a", "Tides", "2026-01-01", ["the moon"], []⟩
private def second : Article := ⟨"b", "Waves", "2026-01-02", ["the wind"], []⟩

/-- A run over one pair in which every call has the same answer. -/
private def runOver (p : Pair) (answer : Answer) : Run where
  llm _ _ := answer
  reportId := "r"
  userId := "u"
  allWork := [⟨none, [p], List.nodup_singleton _⟩]
  committed := true

private def disputed : JsonValue :=
  .obj [("contradictions", .arr [.obj [("description", .str "cause"),
    ("article_a_claim", .str "the moon"), ("article_b_claim", .str "the wind")]])]

theorem always_sound_and_recompares_disputed :
    (lints {}).Always State.Sound .empty [runOver ⟨first, second⟩ (.ok disputed)] ∧
      (lints {}).Steps (Recompares {}) .empty [runOver ⟨first, second⟩ (.ok disputed)] := by
  apply always_sound_and_recompares
  intro t _
  exact ⟨⟨fun _ ↦ by decide +kernel, fun _ ↦ by decide⟩, trivial⟩

/-- The answer cannot be read: the pair gets a row all the same, and the next run passes it
by. -/
theorem not_always_sound_and_not_recompares :
    ¬ (lints {}).Always State.Sound .empty [runOver ⟨first, second⟩ (.error .valueError)] ∧
      ¬ (lints {}).Steps (Recompares {}) .empty
        [runOver ⟨first, second⟩ (.error .valueError), runOver ⟨first, second⟩ (.ok disputed)] := by
  let failed : Comparison := ⟨⟨first, second⟩, [], false⟩
  have hstate : step {} .empty (runOver ⟨first, second⟩ (.error .valueError)) =
      ⟨[failed.row], [failed]⟩ := rfl
  constructor
  · intro ⟨_, h⟩
    obtain ⟨c, hc, hsucceeded, _⟩ := h _ (congrArg some hstate) _ (List.mem_singleton_self _)
    rw [List.mem_singleton.mp hc] at hsucceeded
    cases hsucceeded
  · intro h
    obtain ⟨_, h⟩ := h _ (congrArg some hstate)
    obtain ⟨h, _⟩ := h _ rfl
    have hunsettled : State.Unsettled ⟨[failed.row], [failed]⟩ ⟨first, second⟩ := by
      intro c hc
      have hmem := List.mem_reverse.mp (List.mem_of_find?_eq_some hc)
      rw [List.mem_singleton.mp hmem]
    let next := runOver ⟨first, second⟩ (.ok disputed)
    have hreturns : (lint {} ⟨[failed.row], [failed]⟩ next).1.isOk = true := by decide +kernel
    have hnone : (step {} ⟨[failed.row], [failed]⟩ next).history.drop 1 = [] :=
      List.eq_nil_of_length_eq_zero (by decide +kernel)
    cases hfound : (lint {} ⟨[failed.row], [failed]⟩ next).1 with
    | error e => simp [hfound, Except.isOk, Except.toBool] at hreturns
    | ok found =>
      obtain ⟨c, hc, _⟩ := h found hfound _ (List.mem_singleton_self _) _
        (List.mem_singleton_self _) (by decide) hunsettled
      rw [List.length_singleton, hnone] at hc
      cases hc

private def context : Context := ⟨"s", none, "u"⟩

/-- The cache filled by a run over the pair answers for it in the other order. -/
theorem findingsFromCached_eq_fresh_iff_disputed :
    ∃ s cached, (lints {}).run .empty [runOver ⟨first, second⟩ (.ok disputed)] = some s ∧
      checkPairCache s.cache ⟨second, first⟩ = some cached ∧
      (∃ c ∈ s.history, c.Fills ⟨second, first⟩ cached) ∧
      ∀ c : Comparison, c.Fills ⟨second, first⟩ cached →
        (findingsFromCached context ⟨second, first⟩ cached = .ok (c.fresh context ⟨second, first⟩) ↔
          "b" = c.pair.a.id ∨ ∀ r ∈ c.reported, r.articleAClaim = r.articleBClaim) := by
  let s := step {} .empty (runOver ⟨first, second⟩ (.ok disputed))
  have hrun : (lints {}).run .empty [runOver ⟨first, second⟩ (.ok disputed)] = some s := rfl
  have hhit : (checkPairCache s.cache ⟨second, first⟩).isSome = true := by decide +kernel
  obtain ⟨cached, hcached⟩ := Option.isSome_iff_exists.mp hhit
  exact ⟨s, cached, hrun, hcached,
    findingsFromCached_eq_fresh_iff {} _ hrun context ⟨second, first⟩ cached hcached⟩

private def found : Reported := ⟨.str "cause", .str "the moon", .str "the wind", .str "medium"⟩

private def comparison : Comparison := ⟨⟨first, second⟩, [found], true⟩

/-- The pair comes in the other order: the claim about the moon goes to the article on
waves. -/
theorem findingsFromCached_ne_fresh :
    ∃ s, (lints {}).run .empty [runOver ⟨first, second⟩ (.ok disputed)] = some s ∧
      s.history = [comparison] ∧
      checkPairCache s.cache ⟨second, first⟩ = some [found.toJson] ∧
      findingsFromCached context ⟨second, first⟩ [found.toJson] ≠
        .ok (comparison.fresh context ⟨second, first⟩) := by
  have hstate : step {} .empty (runOver ⟨first, second⟩ (.ok disputed)) =
      ⟨[comparison.row], [comparison]⟩ := rfl
  refine ⟨_, congrArg some hstate, rfl, ?_, ?_⟩
  · have hcontent : comparison.row.content = (Pair.mk second first).content := by decide
    exact checkPairCache_singleton hcontent
  · have horder : ¬ (Pair.mk second first).a.id = comparison.pair.a.id := by decide
    rw [← List.map_singleton (f := Reported.toJson), findingsFromCached_toJson, Comparison.fresh,
      if_neg horder, List.map_map]
    intro h
    have hmap := List.map_inj_left.mp (Except.ok.inj h)
    have hfinding := hmap found (List.mem_singleton_self found)
    have hclaims := JsonValue.str.inj ((finding_mirror_iff _ _ found).mp hfinding)
    revert hclaims
    decide

end Samples

end Runs

end WikiMind.Lint.Contradictions
