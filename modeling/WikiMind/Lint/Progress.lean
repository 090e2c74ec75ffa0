import WikiMind.Base.Watched
import WikiMind.Lint.PairCache

/-!
# The progress of a run

`detect_contradictions` (`engine/linter/contradictions.py:559`) shows in its report how many
pairs it has checked. The count is passed from function to function and written in four places.
Here the same run is watched: wherever it flushes its report, what the report shows is noted.
-/

namespace WikiMind.Lint.Contradictions

open WikiMind.Base

/-- What a report shows of a run. -/
structure Shown where
  totalPairs : Nat
  checkedPairs : Nat
  deriving DecidableEq, Repr

def Work.shown (w : Work) : Shown := ⟨w.totalPairs, w.checkedPairs⟩

namespace Watched

/-- A computation of a run, beside what its report showed so far. -/
abbrev Detect (α : Type) := Stateful (Work × List Shown) Exc α

/-- The flush of the report: `session.add(report)` and `session.flush()`. -/
def flush : Detect Unit := Stateful.look Work.shown

/-- One more pair is checked, and the report says so. -/
def countPair (checked : Nat) : Detect Nat := do
  let checked ← Stateful.unwatched (Contradictions.countPair checked)
  flush
  return checked

/-- What is done of a pair that was compared. -/
def saveAndCount (cfg : LinterConfig) (p : Pair) (found : List ContradictionFinding)
    (checked : Nat) : Detect Nat := do
  Stateful.unwatched (saveIfEnabled cfg p found)
  countPair checked

/-- The loop over the pairs of a batch: `contradictions.py:525–534`. -/
def saveBatch (cfg : LinterConfig) (found : List ContradictionFinding) (batch : List Pair)
    (checked : Nat) : Detect Nat :=
  batch.foldlM (fun checked p ↦ saveAndCount cfg p (findingsOf p found) checked) checked

/-- One batch of the loop: `contradictions.py:511–534`. -/
def processBatch (llm : Llm) (cfg : LinterConfig) (ctx : Context) (acc : PairProcessResult)
    (batch : List Pair) : Detect PairProcessResult := do
  let found ← Stateful.unwatched (runBatch llm ctx batch)
  let checked ← saveBatch cfg found batch acc.checkedCount
  return ⟨acc.findings ++ found, checked⟩

/-- One pair of the loop: `contradictions.py:536–553`. -/
def processPair (llm : Llm) (cfg : LinterConfig) (ctx : Context) (acc : PairProcessResult)
    (p : Pair) : Detect PairProcessResult := do
  let found ← Stateful.unwatched (compareArticlePair llm ctx p)
  let checked ← saveAndCount cfg p found acc.checkedCount
  return ⟨acc.findings ++ found, checked⟩

/-- `_process_uncached_pairs`: `contradictions.py:495`. -/
def processUncachedPairs (llm : Llm) (cfg : LinterConfig) (ctx : Context)
    (uncachedPairs : List Pair) (checked : Nat) : Detect PairProcessResult := do
  if cfg.contradictionBatchEnabled ∧ 1 < uncachedPairs.length then
    let parts ← Stateful.unwatched
      (Stateful.ofExcept (batches uncachedPairs cfg.contradictionBatchSize))
    parts.foldlM (processBatch llm cfg ctx) ⟨[], checked⟩
  else uncachedPairs.foldlM (processPair llm cfg ctx) ⟨[], checked⟩

/-- One pair of a group: `contradictions.py:595–637`. -/
def sortPair (cfg : LinterConfig) (ctx : Context) (acc : Sorted) (p : Pair) :
    Detect Sorted := do
  let w ← Stateful.unwatched get
  match if cfg.enablePairCache then checkPairCache w.cache p else none with
  | some cached =>
    let cachedFindings ← Stateful.unwatched (Stateful.ofExcept (findingsFromCached ctx p cached))
    let checked ← countPair acc.checked
    return { acc with findings := acc.findings ++ cachedFindings, checked }
  | none =>
    if p.hasClaims then return { acc with uncachedPairs := acc.uncachedPairs ++ [p] }
    else
      let checked ← countPair acc.checked
      return { acc with checked }

/-- One work item: `contradictions.py:586–654`. -/
def processItem (llm : Llm) (cfg : LinterConfig) (reportId userId : String)
    (acc : PairProcessResult) (item : WorkItem) : Detect PairProcessResult := do
  let ctx := ⟨reportId, item.conceptId, userId⟩
  let sorted ← item.pairs.foldlM (sortPair cfg ctx) ⟨acc.findings, [], acc.checkedCount⟩
  let processed ← processUncachedPairs llm cfg ctx sorted.uncachedPairs sorted.checked
  return ⟨sorted.findings ++ processed.findings, processed.checkedCount⟩

/-- `detect_contradictions` from its work items on: `contradictions.py:559`. -/
def detectContradictions (llm : Llm) (cfg : LinterConfig) (reportId userId : String)
    (allWork : List WorkItem) : Detect (List ContradictionFinding) := do
  Stateful.unwatched (modify fun w ↦
    { w with totalPairs := (allWork.map (·.pairs.length)).sum, checkedPairs := 0 })
  flush
  let result ← allWork.foldlM (processItem llm cfg reportId userId) ⟨[], 0⟩
  return result.findings

end Watched

section Erasure

open Stateful

private theorem erases_countPair (checked : Nat) :
    Erases (Watched.countPair checked) (countPair checked) := fun _ ↦ rfl

private theorem erases_saveAndCount (cfg : LinterConfig) (p : Pair)
    (found : List ContradictionFinding)
    (checked : Nat) :
    Erases (Watched.saveAndCount cfg p found checked) (saveAndCount cfg p found checked) :=
  erases_bind (erases_unwatched _) fun _ ↦ erases_countPair checked

private theorem erases_saveBatch (cfg : LinterConfig) (found : List ContradictionFinding)
    (batch : List Pair) (checked : Nat) :
    Erases (Watched.saveBatch cfg found batch checked) (saveBatch cfg found batch checked) :=
  erases_foldlM (fun checked p ↦ erases_saveAndCount cfg p _ checked) batch checked

private theorem erases_processBatch (llm : Llm) (cfg : LinterConfig) (ctx : Context)
    (acc : PairProcessResult) (batch : List Pair) :
    Erases (Watched.processBatch llm cfg ctx acc batch) (processBatch llm cfg ctx acc batch) :=
  erases_bind (erases_unwatched _) fun found ↦
    erases_bind (erases_saveBatch cfg found batch _) fun _ ↦ erases_pure _

private theorem erases_processPair (llm : Llm) (cfg : LinterConfig) (ctx : Context)
    (acc : PairProcessResult) (p : Pair) :
    Erases (Watched.processPair llm cfg ctx acc p) (processPair llm cfg ctx acc p) :=
  erases_bind (erases_unwatched _) fun found ↦
    erases_bind (erases_saveAndCount cfg p found _) fun _ ↦ erases_pure _

private theorem erases_processUncachedPairs (llm : Llm) (cfg : LinterConfig) (ctx : Context)
    (uncachedPairs : List Pair) (checked : Nat) :
    Erases (Watched.processUncachedPairs llm cfg ctx uncachedPairs checked)
      (processUncachedPairs llm cfg ctx uncachedPairs checked) := by
  unfold Watched.processUncachedPairs processUncachedPairs
  split
  · exact erases_bind (erases_unwatched _) fun parts ↦
      erases_foldlM (erases_processBatch llm cfg ctx) parts _
  · exact erases_foldlM (erases_processPair llm cfg ctx) uncachedPairs _

private theorem erases_sortPair (cfg : LinterConfig) (ctx : Context) (acc : Sorted) (p : Pair) :
    Erases (Watched.sortPair cfg ctx acc p) (sortPair cfg ctx acc p) := by
  refine erases_bind (erases_unwatched _) fun w ↦ ?_
  cases (if cfg.enablePairCache then checkPairCache w.cache p else none) with
  | some cached =>
    exact erases_bind (erases_unwatched _) fun _ ↦
      erases_bind (erases_countPair _) fun _ ↦ erases_pure _
  | none =>
    dsimp only
    split
    · exact erases_pure _
    · exact erases_bind (erases_countPair _) fun _ ↦ erases_pure _

private theorem erases_processItem (llm : Llm) (cfg : LinterConfig) (reportId userId : String)
    (acc : PairProcessResult) (item : WorkItem) :
    Erases (Watched.processItem llm cfg reportId userId acc item)
      (processItem llm cfg reportId userId acc item) :=
  erases_bind (erases_foldlM (erases_sortPair cfg _) item.pairs _) fun sorted ↦
    erases_bind (erases_processUncachedPairs llm cfg _ sorted.uncachedPairs sorted.checked)
      fun _ ↦ erases_pure _

/-- The watched run is the run. -/
theorem erases_detectContradictions (llm : Llm) (cfg : LinterConfig) (reportId userId : String)
    (allWork : List WorkItem) :
    Erases (Watched.detectContradictions llm cfg reportId userId allWork)
      (detectContradictions llm cfg reportId userId allWork) :=
  erases_bind (erases_unwatched _) fun _ ↦ erases_look_bind <|
    erases_bind (erases_foldlM (erases_processItem llm cfg reportId userId) allWork _)
      fun _ ↦ erases_pure _

end Erasure

/-- The report of a run that has checked some pairs: it says so, and what it showed before
increases to that number under the one total. -/
structure Progress (total checked : Nat) (s : Work × List Shown) : Prop where
  totalPairs : s.1.totalPairs = total
  checkedPairs : s.1.checkedPairs = checked
  seen : ∀ shown ∈ s.2, shown.totalPairs = total ∧ shown.checkedPairs ≤ checked
  sorted : s.2.Pairwise fun earlier later ↦ earlier.checkedPairs ≤ later.checkedPairs

/-- What the report shows is the same. -/
def SameReport (s t : Work) : Prop := t.shown = s.shown

instance : Std.Refl SameReport := ⟨fun _ ↦ rfl⟩

/-- Between two counts nothing writes the report. -/
theorem sameReport_of_quiet {α : Type} {x : Detect α} (hx : Stateful.Moves Quiet x) :
    Stateful.Moves SameReport x := by
  intro s
  obtain ⟨-, htotal, hchecked⟩ := hx s
  exact congrArg₂ Shown.mk htotal hchecked

private theorem sameReport_saveIfEnabled (cfg : LinterConfig) (p : Pair)
    (found : List ContradictionFinding) :
    Stateful.Moves SameReport (saveIfEnabled cfg p found) := by
  unfold saveIfEnabled
  split
  · exact fun _ ↦ rfl
  · exact fun _ ↦ rfl

section Counting

variable {total checked checked' : Nat} {s t : Work × List Shown}

theorem Progress.unwatched {α : Type} {x : Detect α} {a : α} (h : Progress total checked s)
    (hx : Stateful.Moves SameReport x)
    (hexec : Stateful.exec (Stateful.unwatched x) s = (.ok a, t)) : Progress total checked t := by
  obtain ⟨hrun, hseen⟩ := Stateful.exec_unwatched_eq_ok hexec
  have hshown : t.1.shown = s.1.shown := hx.of_exec hrun
  obtain ⟨htotal, hchecked⟩ := Shown.mk.inj hshown
  exact ⟨htotal.trans h.totalPairs, hchecked.trans h.checkedPairs, hseen ▸ h.seen,
    hseen ▸ h.sorted⟩

/-- The step: one more pair is counted. -/
theorem Progress.countPair (h : Progress total checked s)
    (hexec : Stateful.exec (Watched.countPair checked) s = (.ok checked', t)) :
    checked' = checked + 1 ∧ Progress total (checked + 1) t := by
  have hrun : Stateful.exec (Watched.countPair checked) s = (.ok (checked + 1),
      ({ s.1 with checkedPairs := checked + 1 }, s.2 ++ [⟨s.1.totalPairs, checked + 1⟩])) := rfl
  rw [hrun] at hexec
  cases hexec
  refine ⟨rfl, h.totalPairs, rfl, ?_, ?_⟩
  · intro shown hshown
    obtain hold | hnew := List.mem_append.mp hshown
    · obtain ⟨htotal, hle⟩ := h.seen shown hold
      exact ⟨htotal, by omega⟩
    · rw [List.mem_singleton.mp hnew]
      exact ⟨h.totalPairs, le_rfl⟩
  · refine List.pairwise_append.mpr ⟨h.sorted, List.pairwise_singleton _ _, ?_⟩
    intro earlier hearlier later hlater
    rw [List.mem_singleton.mp hlater]
    exact Nat.le_succ_of_le (h.seen earlier hearlier).2

theorem Progress.saveAndCount {cfg : LinterConfig} {p : Pair}
    {found : List ContradictionFinding} (h : Progress total checked s)
    (hexec : Stateful.exec (Watched.saveAndCount cfg p found checked) s = (.ok checked', t)) :
    checked' = checked + 1 ∧ Progress total (checked + 1) t := by
  obtain ⟨_, u, hsave, hcount⟩ := Stateful.exec_bind_eq_ok.mp hexec
  exact (h.unwatched (sameReport_saveIfEnabled cfg p found) hsave).countPair hcount

/-- A batch counts its pairs. -/
theorem Progress.saveBatch {cfg : LinterConfig} {found : List ContradictionFinding}
    {batch : List Pair} (h : Progress total checked s)
    (hexec : Stateful.exec (Watched.saveBatch cfg found batch checked) s = (.ok checked', t)) :
    checked' = checked + batch.length ∧ Progress total checked' t := by
  refine Stateful.returns_foldlM (J := fun done n u ↦
    n = checked + done.length ∧ Progress total n u) ⟨rfl, h⟩ ?_ hexec
  rintro done p - n u n' v ⟨rfl, hprogress⟩ hround
  obtain ⟨rfl, hnext⟩ := hprogress.saveAndCount hround
  exact ⟨by rw [List.length_append, List.length_singleton, Nat.add_assoc], hnext⟩

theorem Progress.processBatch {llm : Llm} {cfg : LinterConfig} {ctx : Context}
    {acc acc' : PairProcessResult} {batch : List Pair} (h : Progress total acc.checkedCount s)
    (hexec : Stateful.exec (Watched.processBatch llm cfg ctx acc batch) s = (.ok acc', t)) :
    acc'.checkedCount = acc.checkedCount + batch.length ∧ Progress total acc'.checkedCount t := by
  obtain ⟨found, u, hfound, hexec⟩ := Stateful.exec_bind_eq_ok.mp hexec
  obtain ⟨n, v, hsave, hexec⟩ := Stateful.exec_bind_eq_ok.mp hexec
  cases hexec
  exact (h.unwatched (sameReport_of_quiet (quiet_runBatch llm ctx batch)) hfound).saveBatch hsave

theorem Progress.processPair {llm : Llm} {cfg : LinterConfig} {ctx : Context}
    {acc acc' : PairProcessResult} {p : Pair} (h : Progress total acc.checkedCount s)
    (hexec : Stateful.exec (Watched.processPair llm cfg ctx acc p) s = (.ok acc', t)) :
    acc'.checkedCount = acc.checkedCount + 1 ∧ Progress total acc'.checkedCount t := by
  obtain ⟨found, u, hfound, hexec⟩ := Stateful.exec_bind_eq_ok.mp hexec
  obtain ⟨n, v, hsave, hexec⟩ := Stateful.exec_bind_eq_ok.mp hexec
  cases hexec
  obtain ⟨rfl, hprogress⟩ :=
    (h.unwatched (sameReport_of_quiet (quiet_compareArticlePair llm ctx p)) hfound).saveAndCount
      hsave
  exact ⟨rfl, hprogress⟩

/-- The batches of a positive size hold each pair once. -/
theorem sum_batches {pairs : List Pair} {size : Int} {parts : List (List Pair)}
    (hsize : 1 ≤ size) (h : batches pairs size = .ok parts) :
    (parts.map List.length).sum = pairs.length := by
  unfold batches at h
  rw [if_neg (by omega), if_neg (by omega)] at h
  cases h
  rw [← List.length_flatten, flatten_slices (by omega)]

/-- Every uncached pair is counted once, in batches or one by one. -/
theorem Progress.processUncachedPairs {llm : Llm} {cfg : LinterConfig} {ctx : Context}
    {pairs : List Pair} {acc : PairProcessResult} (hsize : 1 ≤ cfg.contradictionBatchSize)
    (h : Progress total checked s)
    (hexec : Stateful.exec (Watched.processUncachedPairs llm cfg ctx pairs checked) s =
      (.ok acc, t)) :
    acc.checkedCount = checked + pairs.length ∧ Progress total acc.checkedCount t := by
  unfold Watched.processUncachedPairs at hexec
  split at hexec
  · obtain ⟨parts, u, hparts, hexec⟩ := Stateful.exec_bind_eq_ok.mp hexec
    have hu := h.unwatched (Stateful.moves_ofExcept _) hparts
    obtain ⟨hbatches, -⟩ := Stateful.exec_unwatched_eq_ok hparts
    rw [Stateful.exec_ofExcept] at hbatches
    rw [← sum_batches hsize (Prod.mk.inj hbatches).1]
    refine Stateful.returns_foldlM (J := fun done acc u ↦
      acc.checkedCount = checked + (done.map List.length).sum ∧
        Progress total acc.checkedCount u) ⟨rfl, hu⟩ ?_ hexec
    rintro done batch - acc v acc' w ⟨hcount, hprogress⟩ hround
    obtain ⟨hnext, hprogress'⟩ := hprogress.processBatch hround
    refine ⟨?_, hprogress'⟩
    rw [hnext, hcount, List.map_append, List.sum_append, Nat.add_assoc]
    rfl
  · refine Stateful.returns_foldlM (J := fun done acc u ↦
      acc.checkedCount = checked + done.length ∧ Progress total acc.checkedCount u)
      ⟨rfl, h⟩ ?_ hexec
    rintro done p - acc v acc' w ⟨hcount, hprogress⟩ hround
    obtain ⟨hnext, hprogress'⟩ := hprogress.processPair hround
    refine ⟨?_, hprogress'⟩
    rw [hnext, hcount, List.length_append, List.length_singleton, Nat.add_assoc]

/-- A pair is counted or left to compare. -/
theorem Progress.sortPair {cfg : LinterConfig} {ctx : Context} {acc acc' : Sorted} {p : Pair}
    (h : Progress total acc.checked s)
    (hexec : Stateful.exec (Watched.sortPair cfg ctx acc p) s = (.ok acc', t)) :
    acc'.checked + acc'.uncachedPairs.length = acc.checked + acc.uncachedPairs.length + 1 ∧
      Progress total acc'.checked t := by
  obtain ⟨w, u, hget, hexec⟩ := Stateful.exec_bind_eq_ok.mp hexec
  have hsame : Stateful.Moves SameReport (get : Detect Work) := fun _ ↦ rfl
  have hu := h.unwatched hsame hget
  cases hcached : (if cfg.enablePairCache then checkPairCache w.cache p else none) with
  | some cached =>
    rw [hcached] at hexec
    obtain ⟨found, v, hfound, hexec⟩ := Stateful.exec_bind_eq_ok.mp hexec
    obtain ⟨n, x, hcount, hexec⟩ := Stateful.exec_bind_eq_ok.mp hexec
    cases hexec
    obtain ⟨rfl, hprogress⟩ := (hu.unwatched (Stateful.moves_ofExcept _) hfound).countPair hcount
    exact ⟨by dsimp only; omega, hprogress⟩
  | none =>
    rw [hcached] at hexec
    dsimp only at hexec
    split at hexec
    · cases hexec
      refine ⟨?_, hu⟩
      rw [List.length_append, List.length_singleton, Nat.add_assoc]
    · obtain ⟨n, x, hcount, hexec⟩ := Stateful.exec_bind_eq_ok.mp hexec
      cases hexec
      obtain ⟨rfl, hprogress⟩ := hu.countPair hcount
      exact ⟨by dsimp only; omega, hprogress⟩

/-- A work item counts its pairs. -/
theorem Progress.processItem {llm : Llm} {cfg : LinterConfig} {reportId userId : String}
    {acc acc' : PairProcessResult} {item : WorkItem} (hsize : 1 ≤ cfg.contradictionBatchSize)
    (h : Progress total acc.checkedCount s)
    (hexec : Stateful.exec (Watched.processItem llm cfg reportId userId acc item) s =
      (.ok acc', t)) :
    acc'.checkedCount = acc.checkedCount + item.pairs.length ∧
      Progress total acc'.checkedCount t := by
  obtain ⟨sorted, u, hsorted, hexec⟩ := Stateful.exec_bind_eq_ok.mp hexec
  obtain ⟨processed, v, hprocessed, hexec⟩ := Stateful.exec_bind_eq_ok.mp hexec
  cases hexec
  have hsum : sorted.checked + sorted.uncachedPairs.length =
      acc.checkedCount + item.pairs.length ∧ Progress total sorted.checked u := by
    refine Stateful.returns_foldlM (J := fun done sorted u ↦
      sorted.checked + sorted.uncachedPairs.length = acc.checkedCount + done.length ∧
        Progress total sorted.checked u) ⟨rfl, h⟩ ?_ hsorted
    rintro done p - sorted v sorted' w ⟨hcount, hprogress⟩ hround
    obtain ⟨hnext, hprogress'⟩ := hprogress.sortPair hround
    refine ⟨?_, hprogress'⟩
    rw [hnext, hcount, List.length_append, List.length_singleton, Nat.add_assoc]
  obtain ⟨hcount, hprogress⟩ := hsum.2.processUncachedPairs hsize hprocessed
  exact ⟨hcount.trans hsum.1, hprogress⟩

/-- In a run that completes, the count only goes up, never above the total, and ends at it. -/
theorem checked_of_detectContradictions {llm : Llm} {cfg : LinterConfig}
    {reportId userId : String} {allWork : List WorkItem} {w w' : Work} {seen : List Shown}
    {findings : List ContradictionFinding} (hsize : 1 ≤ cfg.contradictionBatchSize)
    (h : (Watched.detectContradictions llm cfg reportId userId allWork).exec (w, []) =
      (.ok findings, (w', seen))) :
    (detectContradictions llm cfg reportId userId allWork).exec w = (.ok findings, w') ∧
      w'.checkedPairs = w'.totalPairs ∧
      w'.totalPairs = (allWork.map (·.pairs.length)).sum ∧
      (∀ shown ∈ seen, shown.totalPairs = w'.totalPairs ∧
        shown.checkedPairs ≤ shown.totalPairs) ∧
      seen.Pairwise fun earlier later ↦ earlier.checkedPairs ≤ later.checkedPairs := by
  have herases := erases_detectContradictions llm cfg reportId userId allWork (w, [])
  rw [h] at herases
  refine ⟨herases, ?_⟩
  unfold Watched.detectContradictions at h
  obtain ⟨_, s, hset, hrest⟩ := Stateful.exec_bind_eq_ok.mp h
  obtain ⟨_, s', hflush, hloop⟩ := Stateful.exec_bind_eq_ok.mp hrest
  obtain ⟨result, t, hresult, hreturn⟩ := Stateful.exec_bind_eq_ok.mp hloop
  cases hreturn
  cases hset
  cases hflush
  have hdone : result.checkedCount = (allWork.map (·.pairs.length)).sum ∧
      Progress (allWork.map (·.pairs.length)).sum result.checkedCount (w', seen) := by
    refine Stateful.returns_foldlM (J := fun done acc u ↦
      acc.checkedCount = (done.map (·.pairs.length)).sum ∧
        Progress (allWork.map (·.pairs.length)).sum acc.checkedCount u) ?_ ?_ hresult
    · refine ⟨rfl, rfl, rfl, ?_, List.pairwise_singleton _ _⟩
      intro shown hshown
      have hfirst : shown = ⟨(allWork.map (·.pairs.length)).sum, 0⟩ := List.mem_singleton.mp hshown
      rw [hfirst]
      exact ⟨rfl, le_rfl⟩
    · rintro done item - acc u acc' v ⟨hcount, hprogress⟩ hround
      obtain ⟨hnext, hprogress'⟩ := hprogress.processItem hsize hround
      refine ⟨?_, hprogress'⟩
      rw [hnext, hcount, List.map_append, List.sum_append]
      rfl
  obtain ⟨hcount, htotal, hchecked, hseen, hsorted⟩ := hdone
  dsimp only at htotal hchecked hseen hsorted
  refine ⟨by omega, htotal, fun shown hshown ↦ ?_, hsorted⟩
  obtain ⟨hshownTotal, hle⟩ := hseen shown hshown
  exact ⟨by omega, by omega⟩

end Counting

section Samples

private def ebb : Article := ⟨"a", "Ebb", "2026-01-01", ["the moon"], []⟩
private def flow : Article := ⟨"b", "Flow", "2026-01-02", ["the wind"], []⟩
private def stub : Article := ⟨"c", "Stub", "2026-01-03", [], []⟩

private theorem nodup_ebb_flow_stub : ([ebb, flow, stub].map Article.id).Nodup := by decide

private theorem sample_ebb_flow_stub :
    (combinations [ebb, flow, stub]).Subperm (combinations [ebb, flow, stub]) :=
  ⟨_, List.Perm.refl _, List.Sublist.refl _⟩

/-- Three articles of a concept, one of them without claims. -/
private def tidesItem : WorkItem :=
  .ofArticles (some "tides") [ebb, flow, stub] (combinations [ebb, flow, stub])
    nodup_ebb_flow_stub sample_ebb_flow_stub

/-- The concept twice: the pair that is compared in the first group is cached in the second. -/
private def tidesRun : (Except Exc (List ContradictionFinding)) × Work × List Shown :=
  (Watched.detectContradictions (fun _ _ ↦ .ok (.obj [])) {} "r" "u" [tidesItem, tidesItem]).exec
    (⟨[], 0, 0, [], []⟩, [])

private theorem eq_of_fst {α β γ : Type} {p : α × β × γ} {a : α} (h : p.1 = a) :
    p = (a, (p.2.1, p.2.2)) := by
  subst h
  rfl

theorem checked_of_detectContradictions_tides :
    tidesRun.2.2.map Shown.checkedPairs = [0, 1, 2, 3, 4, 5, 6] ∧
      tidesRun.2.1.checkedPairs = tidesRun.2.1.totalPairs := by
  have hsize : 1 ≤ ({} : LinterConfig).contradictionBatchSize := by decide
  have hempty : tidesRun.1.toOption.map List.isEmpty = some true := by decide +kernel
  have hok : tidesRun.1 = .ok [] := by
    cases hresult : tidesRun.1 with
    | error e => simp [hresult, Except.toOption] at hempty
    | ok findings => simpa [hresult, Except.toOption] using hempty
  have hrun : tidesRun = (.ok [], (tidesRun.2.1, tidesRun.2.2)) := eq_of_fst hok
  exact ⟨by decide +kernel, (checked_of_detectContradictions hsize hrun).2.1⟩

end Samples

end WikiMind.Lint.Contradictions
