import Mathlib.Algebra.GroupWithZero.Nat
import Mathlib.Data.String.Basic
import WikiMind.Base.JsonValue
import WikiMind.Base.Stateful

/-!
# Contradiction detection

`engine/linter/contradictions.py`. A lint run takes the article pairs of each concept,
answers from the pair cache where it can and asks the model about the others, one by one
or in batches. An answer of the model is the JSON value read from it or the exception that
the call or the reading raised. Left out are the prompts and the backlinks, which neither
the findings nor the cache depend on. A hash is given by the text it is taken of.
-/

namespace WikiMind.Lint.Contradictions

open WikiMind.Base

/-- An article, with the claims of the claim table and those read from its file. The time of
its last update is given by its text. -/
structure Article where
  id : String
  title : String
  updatedAt : String
  dbClaims : List String
  markdownClaims : List String
  deriving DecidableEq, Repr

/-- Two articles in the order in which a run meets them. -/
structure Pair where
  a : Article
  b : Article
  deriving DecidableEq, Repr

/-- What a finding takes from its run: report, concept and user. -/
structure Context where
  reportId : String
  conceptId : Option String
  userId : String
  deriving DecidableEq, Repr

/-- `models/tables/lint.py:46`. What the model says is not checked for its type. -/
structure ContradictionFinding where
  reportId : String
  description : JsonValue
  contentHash : String
  articleAId : String
  articleBId : String
  articleAClaim : JsonValue
  articleBClaim : JsonValue
  llmConfidence : JsonValue
  sharedConceptId : Option String
  userId : String

/-- `models/tables/lint.py:115`, with the decoded result. -/
structure LintPairCache where
  articleAId : String
  articleBId : String
  articleAUpdatedAt : String
  articleBUpdatedAt : String
  result : List JsonValue

/-- `LinterConfig`, as far as the comparison reads it: `config.py:260`. -/
structure LinterConfig where
  enablePairCache : Bool := true
  contradictionBatchEnabled : Bool := true
  contradictionBatchSize : Int := 10
  deriving DecidableEq, Repr

/-- A call of the model, for several pairs or for one. -/
inductive Call where
  | batch (pairs : List Pair)
  | single (pair : Pair)
  deriving DecidableEq, Repr

/-- The answer to a call, or the exception of the call or of the reading of its answer. -/
abbrev Answer := Except Exc JsonValue

/-- What the model answers to the `n`-th call of a run. -/
abbrev Llm := Nat → Call → Answer

/-- A contradiction of an answer, with the defaults of absent keys. -/
structure Reported where
  description : JsonValue
  articleAClaim : JsonValue
  articleBClaim : JsonValue
  confidence : JsonValue

/-- A comparison of a pair that ended: what it found, and whether its answer was read. -/
structure Comparison where
  pair : Pair
  reported : List Reported
  succeeded : Bool

/-- The tables and the report a run writes, with its calls and comparisons so far. -/
structure Work where
  cache : List LintPairCache
  totalPairs : Nat
  checkedPairs : Nat
  calls : List (Call × Answer)
  comparisons : List Comparison

/-- The computations of a run. -/
abbrev Detect (α : Type) := Stateful Work Exc α

/-- Two identifiers in ascending order. -/
def sortedIds (a b : String) : String × String := if a ≤ b then (a, b) else (b, a)

theorem sortedIds_comm (a b : String) : sortedIds a b = sortedIds b a := by
  unfold sortedIds
  rcases lt_trichotomy a b with h | rfl | h
  · rw [if_pos h.le, if_neg (not_le.mpr h)]
  · rfl
  · rw [if_neg (not_le.mpr h), if_pos h.le]

/-- `_content_hash`: `contradictions.py:57`. -/
def contentHash (articleAId articleBId : String) : String :=
  let ids := sortedIds articleAId articleBId
  "contradiction|" ++ ids.1 ++ "|" ++ ids.2

/-- `_extract_claims`: `contradictions.py:115`. -/
def extractClaims (article : Article) : List String :=
  if article.dbClaims ≠ [] then article.dbClaims else article.markdownClaims

/-- Both articles of the pair have claims. -/
def Pair.hasClaims (p : Pair) : Bool := extractClaims p.a ≠ [] ∧ extractClaims p.b ≠ []

/-- The reading of one contradiction: `contradictions.py:725–740`, and its likes at
`:362–377` and `:455–470`. -/
def Reported.read (c : JsonValue) : Except Exc Reported := do
  let articleAClaim ← c.get "article_a_claim" (.str "")
  let articleBClaim ← c.get "article_b_claim" (.str "")
  let description ← c.get "description" (.str "Contradiction detected")
  let confidence ← c.get "confidence" (.str "medium")
  return ⟨description, articleAClaim, articleBClaim, confidence⟩

/-- The finding of a contradiction of a pair. -/
def Reported.finding (ctx : Context) (p : Pair) (r : Reported) : ContradictionFinding where
  reportId := ctx.reportId
  description := r.description
  contentHash := contentHash p.a.id p.b.id
  articleAId := p.a.id
  articleBId := p.b.id
  articleAClaim := r.articleAClaim
  articleBClaim := r.articleBClaim
  llmConfidence := r.confidence
  sharedConceptId := ctx.conceptId
  userId := ctx.userId

/-- The loop over the contradictions of a pair. -/
def readAll (contradictions : JsonValue) : Except Exc (List Reported) := do
  (← contradictions.items).mapM Reported.read

/-- `_check_pair_cache`: `contradictions.py:157`. -/
def checkPairCache (cache : List LintPairCache) (p : Pair) : Option (List JsonValue) :=
  let ids := sortedIds p.a.id p.b.id
  (cache.find? fun row ↦ row.articleAId = ids.1 ∧ row.articleBId = ids.2).bind fun cached ↦
    let currentA := if ids.1 = p.a.id then p.a.updatedAt else p.b.updatedAt
    let currentB := if ids.2 = p.b.id then p.b.updatedAt else p.a.updatedAt
    if cached.articleAUpdatedAt = currentA ∧ cached.articleBUpdatedAt = currentB then
      some cached.result
    else none

/-- The row `_save_pair_cache` adds: `contradictions.py:184–201`. -/
def cacheRow (p : Pair) (result : List JsonValue) : LintPairCache :=
  let ids := sortedIds p.a.id p.b.id
  let aArt := if ids.1 = p.a.id then p.a else p.b
  let bArt := if ids.2 = p.b.id then p.b else p.a
  ⟨ids.1, ids.2, aArt.updatedAt, bArt.updatedAt, result⟩

/-- `_save_pair_cache`: `contradictions.py:178`. -/
def savePairCache (p : Pair) (result : List JsonValue) : Detect Unit :=
  let row := cacheRow p result
  modify fun w ↦
    { w with cache := w.cache.filter (fun old ↦
        ¬ (old.articleAId = row.articleAId ∧ old.articleBId = row.articleBId)) ++ [row] }

/-- `_findings_from_cached`: `contradictions.py:444`. -/
def findingsFromCached (ctx : Context) (p : Pair) (cached : List JsonValue) :
    Except Exc (List ContradictionFinding) :=
  (cached.mapM Reported.read).map (List.map (Reported.finding ctx p))

/-- `_cache_data_from_findings`: `contradictions.py:475`. -/
def cacheDataFromFindings (findings : List ContradictionFinding) : List JsonValue :=
  findings.map fun f ↦ .obj [("description", f.description),
    ("article_a_claim", f.articleAClaim), ("article_b_claim", f.articleBClaim),
    ("confidence", f.llmConfidence)]

/-- The exceptions that count as a failure of the call: `contradictions.py:355, 713`. -/
def isCallFailure : Exc → Bool
  | .runtimeError _ | .valueError | .keyError => true
  | _ => false

/-- A call of the model. -/
def ask (llm : Llm) (call : Call) : Detect JsonValue := do
  let answer := llm (← get).calls.length call
  modify fun w ↦ { w with calls := w.calls ++ [(call, answer)] }
  Stateful.ofExcept answer

/-- Record that comparisons ended. -/
def note (comparisons : List Comparison) : Detect Unit :=
  modify fun w ↦ { w with comparisons := w.comparisons ++ comparisons }

/-- The value an answer about one pair has to have, `none` where the call failed:
`contradictions.py:706–720`. -/
def askSingle (llm : Llm) (p : Pair) : Detect (Option JsonValue) :=
  tryCatch (some <$> ask llm (.single p)) fun e ↦
    if isCallFailure e then pure none else throw e

/-- `_compare_article_pair`: `contradictions.py:666`. -/
def compareArticlePair (llm : Llm) (ctx : Context) (p : Pair) :
    Detect (List ContradictionFinding) :=
  if extractClaims p.a = [] ∨ extractClaims p.b = [] then pure []
  else do
    match ← askSingle llm p with
    | none =>
      note [⟨p, [], false⟩]
      return []
    | some data =>
      let contradictions ← Stateful.ofExcept (data.get "contradictions" (.arr []))
      let reported ← Stateful.ofExcept (readAll contradictions)
      note [⟨p, reported, true⟩]
      return reported.map (Reported.finding ctx p)

/-- One item of a batch answer, put under its pair: `contradictions.py:275–278`. An index
that is no number of a pair is never read again. -/
def parseItem (expectedCount : Nat) (result : Nat → JsonValue) (item : JsonValue) :
    Except Exc (Nat → JsonValue) := do
  match ← item.get "pair_index" .null with
  | .null => return result
  | value =>
    let idx ← value.toNumber
    if 0 ≤ idx ∧ idx < expectedCount then
      let contradictions ← item.get "contradictions" (.arr [])
      return fun i ↦ if (i : ℚ) = idx then contradictions else result i
    else return result

/-- `_parse_batch_response`: `contradictions.py:268`. -/
def parseBatchResponse (responseData : JsonValue) (expectedCount : Nat) :
    Except Exc (Nat → JsonValue) := do
  (← responseData.items).foldlM (parseItem expectedCount) fun _ ↦ .arr []

/-- The list of an answer, plain or under a key: `contradictions.py:336–343`. -/
def batchResults : JsonValue → Except Exc JsonValue
  | .arr items => .ok (.arr items)
  | .obj fields => ((JsonValue.lookup fields "results").map .ok).getD (.error .valueError)
  | _ => .error .valueError

/-- What the parsed answer says of each pair. -/
def readBatch (data : JsonValue) (pairs : List Pair) : Except Exc (List Comparison) := do
  let parsed ← parseBatchResponse (← batchResults data) pairs.length
  pairs.zipIdx.mapM fun (p, idx) ↦ do
    let reported ← readAll (parsed idx)
    return ⟨p, reported, true⟩

/-- The findings of a comparison. -/
def Comparison.findings (ctx : Context) (c : Comparison) : List ContradictionFinding :=
  c.reported.map (Reported.finding ctx c.pair)

/-- One attempt of a batch, `none` where it failed: `contradictions.py:330–363`. -/
def attemptBatch (llm : Llm) (ctx : Context) (pairs : List Pair) :
    Detect (Option (List ContradictionFinding)) :=
  tryCatch
    (do
      let data ← ask llm (.batch pairs)
      let comparisons ← Stateful.ofExcept (readBatch data pairs)
      note comparisons
      return some (comparisons.flatMap (Comparison.findings ctx)))
    fun e ↦ if isCallFailure e then pure none else throw e

/-- The comparison of each pair by itself: `contradictions.py:372–385`. -/
def compareEach (llm : Llm) (ctx : Context) (pairs : List Pair) :
    Detect (List ContradictionFinding) :=
  pairs.foldlM (fun findings p ↦ return findings ++ (← compareArticlePair llm ctx p)) []

/-- `_run_batch`: `contradictions.py:283`. -/
def runBatch (llm : Llm) (ctx : Context) (pairs : List Pair) :
    Detect (List ContradictionFinding) := do
  match ← attemptBatch llm ctx pairs with
  | some findings => return findings
  | none =>
    match ← attemptBatch llm ctx pairs with
    | some findings => return findings
    | none => compareEach llm ctx pairs

/-- `PairProcessResult`: `contradictions.py:488`. -/
structure PairProcessResult where
  findings : List ContradictionFinding
  checkedCount : Nat

/-- One more pair is checked, and the report says so. -/
def countPair (checked : Nat) : Detect Nat := do
  modify fun w ↦ { w with checkedPairs := checked + 1 }
  return checked + 1

/-- Save what was found of a pair, where the cache is on. -/
def saveIfEnabled (cfg : LinterConfig) (p : Pair) (found : List ContradictionFinding) :
    Detect Unit :=
  if cfg.enablePairCache then savePairCache p (cacheDataFromFindings found) else pure ()

/-- The findings of a batch that are those of a pair: `contradictions.py:527–529`. -/
def findingsOf (p : Pair) (found : List ContradictionFinding) : List ContradictionFinding :=
  found.filter fun f ↦ f.articleAId = p.a.id ∧ f.articleBId = p.b.id

/-- What is done of a pair that was compared. -/
def saveAndCount (cfg : LinterConfig) (p : Pair) (found : List ContradictionFinding)
    (checked : Nat) : Detect Nat := do
  saveIfEnabled cfg p found
  countPair checked

/-- The loop over the pairs of a batch: `contradictions.py:525–534`. -/
def saveBatch (cfg : LinterConfig) (found : List ContradictionFinding) (batch : List Pair)
    (checked : Nat) : Detect Nat :=
  batch.foldlM (fun checked p ↦ saveAndCount cfg p (findingsOf p found) checked) checked

/-- One batch of the loop: `contradictions.py:511–534`. -/
def processBatch (llm : Llm) (cfg : LinterConfig) (ctx : Context) (acc : PairProcessResult)
    (batch : List Pair) : Detect PairProcessResult := do
  let found ← runBatch llm ctx batch
  let checked ← saveBatch cfg found batch acc.checkedCount
  return ⟨acc.findings ++ found, checked⟩

/-- One pair of the loop: `contradictions.py:536–553`. -/
def processPair (llm : Llm) (cfg : LinterConfig) (ctx : Context) (acc : PairProcessResult)
    (p : Pair) : Detect PairProcessResult := do
  let found ← compareArticlePair llm ctx p
  let checked ← saveAndCount cfg p found acc.checkedCount
  return ⟨acc.findings ++ found, checked⟩

/-- The slices of a list that start at `range(0, len(pairs), size)`, for a positive size. -/
def slices (pairs : List Pair) (size : Nat) : List (List Pair) :=
  (List.range ((pairs.length + (size - 1)) / size)).map fun i ↦
    (pairs.drop (i * size)).take size

/-- The batches of a run. A step of 0 raises and a negative one gives none:
`contradictions.py:511–512`. -/
def batches (pairs : List Pair) (size : Int) : Except Exc (List (List Pair)) :=
  if size = 0 then .error .valueError
  else if size < 0 then .ok []
  else .ok (slices pairs size.toNat)

/-- `_process_uncached_pairs`: `contradictions.py:495`. -/
def processUncachedPairs (llm : Llm) (cfg : LinterConfig) (ctx : Context)
    (uncachedPairs : List Pair) (checked : Nat) : Detect PairProcessResult := do
  if cfg.contradictionBatchEnabled ∧ 1 < uncachedPairs.length then
    let parts ← Stateful.ofExcept (batches uncachedPairs cfg.contradictionBatchSize)
    parts.foldlM (processBatch llm cfg ctx) ⟨[], checked⟩
  else uncachedPairs.foldlM (processPair llm cfg ctx) ⟨[], checked⟩

/-- The findings, the pairs left to compare and the count, while a group is sorted. -/
structure Sorted where
  findings : List ContradictionFinding
  uncachedPairs : List Pair
  checked : Nat

/-- One pair of a group: `contradictions.py:595–637`. -/
def sortPair (cfg : LinterConfig) (ctx : Context) (acc : Sorted) (p : Pair) :
    Detect Sorted := do
  let w ← get
  match if cfg.enablePairCache then checkPairCache w.cache p else none with
  | some cached =>
    let cachedFindings ← Stateful.ofExcept (findingsFromCached ctx p cached)
    let checked ← countPair acc.checked
    return { acc with findings := acc.findings ++ cachedFindings, checked }
  | none =>
    if p.hasClaims then return { acc with uncachedPairs := acc.uncachedPairs ++ [p] }
    else
      let checked ← countPair acc.checked
      return { acc with checked }

/-- A work item: a concept and the pairs chosen of its articles, each pair at most once. -/
structure WorkItem where
  conceptId : Option String
  pairs : List Pair
  nodup : (pairs.map fun p ↦ (p.a.id, p.b.id)).Nodup

/-- `itertools.combinations(articles, 2)`. -/
def combinations : List Article → List Pair
  | [] => []
  | a :: rest => rest.map (fun b ↦ ⟨a, b⟩) ++ combinations rest

theorem mem_combinations {articles : List Article} {p : Pair}
    (h : p ∈ combinations articles) : p.a ∈ articles ∧ p.b ∈ articles := by
  induction articles with
  | nil => simp [combinations] at h
  | cons a rest ih =>
    simp only [combinations, List.mem_append, List.mem_map] at h
    rcases h with ⟨b, hb, rfl⟩ | hp
    · exact ⟨List.mem_cons_self .., List.mem_cons_of_mem a hb⟩
    · obtain ⟨ha, hb⟩ := ih hp
      exact ⟨List.mem_cons_of_mem a ha, List.mem_cons_of_mem a hb⟩

private theorem nodup_combinations {articles : List Article}
    (h : (articles.map Article.id).Nodup) :
    ((combinations articles).map fun p ↦ (p.a.id, p.b.id)).Nodup := by
  induction articles with
  | nil => simp [combinations]
  | cons a rest ih =>
    rw [List.map_cons, List.nodup_cons] at h
    obtain ⟨ha, hrest⟩ := h
    simp only [combinations, List.map_append, List.map_map]
    apply List.Nodup.append
    · have hsame : (fun b : Article ↦ (a.id, b.id)) = (Prod.mk a.id) ∘ Article.id := rfl
      change (rest.map fun b : Article ↦ (a.id, b.id)).Nodup
      rw [hsame, ← List.map_map]
      exact hrest.map (Prod.mk_right_injective a.id)
    · exact ih hrest
    · intro ids hfirst hlater
      simp only [List.mem_map, Function.comp_apply] at hfirst hlater
      obtain ⟨b, _, rfl⟩ := hfirst
      obtain ⟨p, hp, hids⟩ := hlater
      have hpa := (mem_combinations hp).1
      exact ha (List.mem_map.mpr ⟨p.a, hpa, (Prod.mk.inj hids).1⟩)

/-- The work item of a concept: all pairs of its articles, or a sample of them
(`contradictions.py:393–441`). -/
def WorkItem.ofArticles (conceptId : Option String) (articles : List Article)
    (pairs : List Pair) (hids : (articles.map Article.id).Nodup)
    (hsample : pairs.Subperm (combinations articles)) : WorkItem where
  conceptId := conceptId
  pairs := pairs
  nodup := by
    obtain ⟨chosen, hperm, hsub⟩ := hsample
    exact (hperm.map _).nodup_iff.mp ((nodup_combinations hids).sublist (hsub.map _))

/-- One work item: `contradictions.py:586–654`. -/
def processItem (llm : Llm) (cfg : LinterConfig) (reportId userId : String)
    (acc : PairProcessResult) (item : WorkItem) : Detect PairProcessResult := do
  let ctx := ⟨reportId, item.conceptId, userId⟩
  let sorted ← item.pairs.foldlM (sortPair cfg ctx) ⟨acc.findings, [], acc.checkedCount⟩
  let processed ← processUncachedPairs llm cfg ctx sorted.uncachedPairs sorted.checked
  return ⟨sorted.findings ++ processed.findings, processed.checkedCount⟩

/-- `detect_contradictions` from its work items on: `contradictions.py:559`. -/
def detectContradictions (llm : Llm) (cfg : LinterConfig) (reportId userId : String)
    (allWork : List WorkItem) : Detect (List ContradictionFinding) := do
  modify fun w ↦
    { w with totalPairs := (allWork.map (·.pairs.length)).sum, checkedPairs := 0 }
  let result ← allWork.foldlM (processItem llm cfg reportId userId) ⟨[], 0⟩
  return result.findings

end WikiMind.Lint.Contradictions
