import Mathlib.Data.Nat.Cast.Order.Ring
import WikiMind.Lint.PairCache

/-!
# Answers a lint run gets over

Which answers of the model a run can read. The call of the model and the decoding of its
answer stand in a `try`, the accesses to the decoded value of one pair do not, and the two
`try` blocks name no class for an access to a value of another type
(`engine/linter/contradictions.py:330–363, 703–740`). A run that returns has the findings of
all its pairs; an answer that cannot be read gives none for its own pair.
-/

namespace WikiMind.Lint.Contradictions

open WikiMind.Base

/-- The item of a batch answer is an object, and its index, if it has one, is a number. -/
def IsBatchItem (item : JsonValue) : Prop :=
  item.get "pair_index" .null = .ok .null ∨
    ∃ idx, item.get "pair_index" .null >>= JsonValue.toNumber = .ok idx

/-- The item of a batch answer has the index of the pair. -/
def namesPair (i : Nat) (item : JsonValue) : Bool :=
  match item.get "pair_index" .null >>= JsonValue.toNumber with
  | .ok idx => (i : ℚ) = idx
  | .error _ => false

/-- What an item of a batch answer lists. -/
def contradictionsOf (item : JsonValue) : JsonValue :=
  ((item.get "contradictions" (.arr [])).toOption).getD (.arr [])

/-- What the items of a batch answer list for a pair: the last item with its index counts. -/
def contradictionsAt (items : List JsonValue) (i : Nat) : JsonValue :=
  ((items.reverse.find? (namesPair i)).map contradictionsOf).getD (.arr [])

/-- An answer about one pair is an object, whose list holds objects only. -/
def ReadableSingle (data : JsonValue) : Prop :=
  data.isObj = true ∧ (contradictionsOf data).OfObjects

/-- If an answer about several pairs has a list of results, its items can be read, and what
counts for a pair holds objects only. -/
def ReadableBatch (pairs : Nat) (data : JsonValue) : Prop :=
  ∀ results, batchResults data = .ok results → ∃ items, results.items = .ok items ∧
    (∀ item ∈ items, IsBatchItem item) ∧ ∀ i < pairs, (contradictionsAt items i).OfObjects

/-- The run gets over the answer to a call: the exception counts as a failed call, or the
value can be read. -/
def Survivable : Call × Answer → Prop
  | (_, .error e) => isCallFailure e = true
  | (.single _, .ok data) => ReadableSingle data
  | (.batch pairs, .ok data) => ReadableBatch pairs.length data

/-- The run returns, and for each pair with claims it returns the findings of a comparison of
the pair's content, of this run or of an earlier one. -/
def Keeps (cfg : LinterConfig) (s : State) (r : Run) : Prop :=
  ∃ found, (lint cfg s r).1 = .ok found ∧
    ∀ item ∈ r.allWork, ∀ p ∈ item.pairs, p.hasClaims = true →
      ∃ c ∈ (step cfg s r).history, c.pair.content = p.content ∧
        c.reported.map (Reported.finding ⟨r.reportId, item.conceptId, r.userId⟩ p) ⊆ found

section Reading

variable {data : JsonValue}

private theorem raises_read_iff (c : JsonValue) : Raises (Reported.read c) ↔ c.isObj = false := by
  cases c with
  | obj fields => exact iff_of_false (raises_ok _) (by simp [JsonValue.isObj])
  | _ =>
    refine iff_of_true ?_ rfl
    exact ⟨_, rfl⟩

private theorem raisesOnly_read (c : JsonValue) :
    RaisesOnly (isCallFailure · = false) (Reported.read c) := by
  intro e h
  cases c with
  | obj fields => cases h
  | _ =>
    cases h
    rfl

/-- The loop over contradictions ends well for objects. -/
theorem raises_readAll_iff (contradictions : JsonValue) :
    Raises (readAll contradictions) ↔ ¬ contradictions.OfObjects := by
  unfold readAll JsonValue.OfObjects
  cases hitems : contradictions.items with
  | error e =>
    refine iff_of_true ⟨e, rfl⟩ ?_
    rintro ⟨xs, h, _⟩
    cases h
  | ok xs =>
    have hread : Raises (xs.mapM Reported.read) ↔ ∃ x ∈ xs, x.isObj = false := by
      rw [raises_mapM_iff]
      exact exists_congr fun x ↦ and_congr_right fun _ ↦ raises_read_iff x
    simpa [bind, Except.bind] using hread

private theorem raisesOnly_readAll (contradictions : JsonValue) :
    RaisesOnly (isCallFailure · = false) (readAll contradictions) := by
  refine raisesOnly_bind ?_ fun xs ↦ raisesOnly_mapM raisesOnly_read xs
  intro e h
  rw [contradictions.raisesOnly_items e h]
  rfl

/-- The index of an object that is a number puts what the object lists under its pair. -/
theorem parseItem_of_number {pairs : Nat} {result : Nat → JsonValue}
    {fields : List (String × JsonValue)} {idx : ℚ}
    (h : ((JsonValue.lookup fields "pair_index").getD .null).toNumber = .ok idx) :
    parseItem pairs result (.obj fields) = .ok fun i ↦
      if 0 ≤ idx ∧ idx < pairs ∧ (i : ℚ) = idx then contradictionsOf (.obj fields)
      else result i := by
  simp only [parseItem, JsonValue.get_obj, bind, Except.bind, contradictionsOf, Except.toOption,
    Option.getD_some]
  cases hindex : (JsonValue.lookup fields "pair_index").getD .null with
  | num q | bool b =>
    rw [hindex] at h
    simp only [h]
    split
    next hrange => simp [hrange, pure, Except.pure]
    next hrange =>
      have hnone (i : Nat) : ¬ (0 ≤ idx ∧ idx < pairs ∧ (i : ℚ) = idx) :=
        fun hi ↦ hrange ⟨hi.1, hi.2.1⟩
      simp only [hnone, if_false]
      rfl
  | _ =>
    rw [hindex] at h
    cases h

/-- An item without a number under its index is refused. -/
theorem raises_parseItem_iff (pairs : Nat) (result : Nat → JsonValue) (item : JsonValue) :
    Raises (parseItem pairs result item) ↔ ¬ IsBatchItem item := by
  cases item with
  | obj fields =>
    cases hnumber : ((JsonValue.lookup fields "pair_index").getD .null).toNumber with
    | ok idx =>
      rw [parseItem_of_number hnumber]
      exact iff_of_false (raises_ok _) (not_not_intro (.inr ⟨idx, hnumber⟩))
    | error e =>
      simp only [parseItem, IsBatchItem, JsonValue.get_obj, bind, Except.bind, Except.ok.injEq,
        hnumber]
      cases hindex : (JsonValue.lookup fields "pair_index").getD .null with
      | null => exact iff_of_false (raises_ok _) (by simp)
      | num q | bool b =>
        rw [hindex] at hnumber
        cases hnumber
      | _ => exact iff_of_true ⟨_, rfl⟩ (by simp)
  | _ => exact iff_of_true ⟨_, rfl⟩ (by simp [IsBatchItem, JsonValue.get, bind, Except.bind])

private theorem raisesOnly_parseItem (pairs : Nat) (result : Nat → JsonValue) (item : JsonValue) :
    RaisesOnly (isCallFailure · = false) (parseItem pairs result item) := by
  have hget (key : String) (default : JsonValue) :
      RaisesOnly (isCallFailure · = false) (item.get key default) := by
    intro e h
    rw [item.raisesOnly_get default key e h]
    rfl
  refine raisesOnly_bind (hget _ _) fun value ↦ ?_
  have hnumber : RaisesOnly (isCallFailure · = false) value.toNumber := by
    intro e h
    rw [value.raisesOnly_toNumber e h]
    rfl
  split
  · exact raisesOnly_ok _
  · refine raisesOnly_bind hnumber fun idx ↦ ?_
    split
    · exact raisesOnly_bind (hget _ _) fun _ ↦ raisesOnly_ok _
    · exact raisesOnly_ok _

/-- An item that is read changes what counts for the pair of its index. -/
theorem apply_of_parseItem {pairs i : Nat} {result result' : Nat → JsonValue} {item : JsonValue}
    (hi : i < pairs) (h : parseItem pairs result item = .ok result') :
    result' i = if namesPair i item then contradictionsOf item else result i := by
  cases item with
  | obj fields =>
    have hcast : (i : ℚ) < pairs := by exact_mod_cast hi
    have hnames : namesPair i (.obj fields) =
        match ((JsonValue.lookup fields "pair_index").getD .null).toNumber with
        | .ok idx => decide ((i : ℚ) = idx)
        | .error _ => false := rfl
    rw [hnames]
    split
    next idx hnumber =>
      rw [parseItem_of_number hnumber] at h
      cases h
      have hrange : (0 ≤ idx ∧ idx < pairs ∧ (i : ℚ) = idx) ↔ (i : ℚ) = idx := by
        constructor
        · exact fun h ↦ h.2.2
        · rintro rfl
          exact ⟨Nat.cast_nonneg i, hcast, rfl⟩
      simp only [hrange, decide_eq_true_eq]
    next e hnumber =>
      have hread : IsBatchItem (.obj fields) := by
        by_contra hbad
        obtain ⟨e', he'⟩ := (raises_parseItem_iff pairs result _).mpr hbad
        cases h.symm.trans he'
      rcases hread with hnull | ⟨idx, hidx⟩
      · have hindex : (JsonValue.lookup fields "pair_index").getD .null = .null :=
          Except.ok.inj hnull
        simp only [parseItem, JsonValue.get_obj, bind, Except.bind, hindex] at h
        cases h
        simp
      · cases hnumber.symm.trans hidx
  | _ => cases h

/-- The loop over the items is refused at the first that has no number under its index. -/
theorem raises_foldlM_parseItem_iff (pairs : Nat) (items : List JsonValue)
    (result : Nat → JsonValue) :
    Raises (items.foldlM (parseItem pairs) result) ↔ ∃ item ∈ items, ¬ IsBatchItem item := by
  induction items generalizing result with
  | nil => exact iff_of_false (raises_ok _) (by simp)
  | cons item items ih =>
    rw [List.foldlM_cons, raises_bind fun result' _ ↦ ih result', raises_parseItem_iff,
      List.exists_mem_cons_iff]

/-- The last item with the index of a pair counts for it. -/
theorem apply_of_foldlM_parseItem {pairs i : Nat} {result result' : Nat → JsonValue}
    {items : List JsonValue} (hi : i < pairs)
    (h : items.foldlM (parseItem pairs) result = .ok result') :
    result' i = ((items.reverse.find? (namesPair i)).map contradictionsOf).getD (result i) := by
  induction items generalizing result with
  | nil =>
    cases h
    rfl
  | cons item items ih =>
    rw [List.foldlM_cons] at h
    obtain ⟨next, hnext, h⟩ := bind_eq_ok.mp h
    rw [ih h, apply_of_parseItem hi hnext, List.reverse_cons, List.find?_append]
    cases items.reverse.find? (namesPair i) with
    | some last => rfl
    | none =>
      cases hnames : namesPair i item with
      | true => simp [hnames]
      | false => simp [hnames]

/-- The loop over the pairs of a batch reads what counts for each of them. -/
theorem raises_mapM_readAll_iff {ps : List Pair} (parsed : Nat → JsonValue) :
    Raises (ps.zipIdx.mapM fun (p, idx) ↦ do
        let reported ← readAll (parsed idx)
        return (⟨p, reported, true⟩ : Comparison)) ↔
      ∃ i < ps.length, ¬ (parsed i).OfObjects := by
  have hone (x : Pair × Nat) : Raises (do
      let reported ← readAll (parsed x.2)
      return (⟨x.1, reported, true⟩ : Comparison)) ↔ ¬ (parsed x.2).OfObjects := by
    rw [raises_bind (Q := False) fun _ _ ↦ raises_pure _, or_false, raises_readAll_iff]
  simp only [raises_mapM_iff, hone]
  constructor
  · rintro ⟨⟨p, i⟩, hmem, hbad⟩
    exact ⟨i, List.snd_lt_of_mem_zipIdx hmem, hbad⟩
  · rintro ⟨i, hi, hbad⟩
    exact ⟨(ps[i], i), List.mem_zipIdx_iff_getElem?.mpr (by simp [hi]), hbad⟩

/-- What is raised behind the list of results counts as no failed call. -/
theorem raises_readBatch_iff {data results : JsonValue} {ps : List Pair}
    (hresults : batchResults data = .ok results) :
    Raises (readBatch data ps) ↔ ¬ ∃ items, results.items = .ok items ∧
      (∀ item ∈ items, IsBatchItem item) ∧
        ∀ i < ps.length, (contradictionsAt items i).OfObjects := by
  simp only [readBatch, hresults, parseBatchResponse, bind, Except.bind]
  cases hitems : results.items with
  | error e => exact iff_of_true ⟨e, rfl⟩ (by simp)
  | ok items =>
    simp only [Except.ok.injEq, exists_eq_left', not_and_or]
    cases hfold : items.foldlM (parseItem ps.length) fun _ ↦ JsonValue.arr [] with
    | error e =>
      refine iff_of_true ⟨e, rfl⟩ (.inl ?_)
      have hraises := (raises_foldlM_parseItem_iff _ items fun _ ↦ JsonValue.arr []).mp ⟨e, hfold⟩
      simpa using hraises
    | ok parsed =>
      have hall : ∀ item ∈ items, IsBatchItem item := by
        by_contra hbad
        have hraises := (raises_foldlM_parseItem_iff ps.length items
          fun _ ↦ JsonValue.arr []).mpr (by simpa using hbad)
        rw [hfold] at hraises
        exact raises_ok _ hraises
      have hat (i : Nat) (hi : i < ps.length) : parsed i = contradictionsAt items i :=
        apply_of_foldlM_parseItem hi hfold
      rw [or_iff_right (not_not_intro hall)]
      refine (raises_mapM_readAll_iff parsed).trans ?_
      simp only [not_forall, exists_prop]
      exact exists_congr fun i ↦ and_congr_right fun hi ↦ by rw [hat i hi]

private theorem raisesOnly_readBatch {data results : JsonValue} {ps : List Pair}
    (hresults : batchResults data = .ok results) :
    RaisesOnly (isCallFailure · = false) (readBatch data ps) := by
  have hitems : RaisesOnly (isCallFailure · = false) results.items := by
    intro e h
    rw [results.raisesOnly_items e h]
    rfl
  rw [readBatch, hresults]
  change RaisesOnly _ (parseBatchResponse results ps.length >>= _)
  refine raisesOnly_bind (raisesOnly_bind hitems fun items ↦ ?_) fun parsed ↦ ?_
  · exact raisesOnly_foldlM (raisesOnly_parseItem ps.length) items _
  · refine raisesOnly_mapM (fun x ↦ ?_) _
    exact raisesOnly_bind (raisesOnly_readAll _) fun _ ↦ raisesOnly_ok _

/-- Without a list of results the answer counts as a failed call; else it has to be read. -/
theorem readableBatch_iff {data : JsonValue} {ps : List Pair} :
    ReadableBatch ps.length data ↔ ∀ e, readBatch data ps = .error e → isCallFailure e = true := by
  cases hresults : batchResults data with
  | error e =>
    have hvalue : e = .valueError := by
      unfold batchResults at hresults
      split at hresults
      · cases hresults
      next fields =>
        cases hlookup : JsonValue.lookup fields "results" with
        | none => simpa [hlookup, eq_comm] using hresults
        | some v => simp [hlookup] at hresults
      · cases hresults
        rfl
    refine iff_of_true (fun results h ↦ ?_) fun e' h ↦ ?_
    · cases hresults.symm.trans h
    · simp only [readBatch, hresults, bind, Except.bind] at h
      cases h
      rw [hvalue]
      rfl
  | ok results =>
    have hread : ReadableBatch ps.length data ↔ ¬ Raises (readBatch data ps) := by
      rw [raises_readBatch_iff hresults, not_not]
      constructor
      · exact fun h ↦ h results hresults
      · intro h results' hresults'
        cases hresults.symm.trans hresults'
        exact h
    rw [hread]
    constructor
    · intro h e he
      exact absurd ⟨e, he⟩ h
    · rintro h ⟨e, he⟩
      have hcaught := h e he
      rw [raisesOnly_readBatch hresults e he] at hcaught
      cases hcaught

end Reading

/-- Every row of the cache is one that was saved. -/
def Work.Reads (w : Work) : Prop :=
  ∀ row ∈ w.cache, ∃ reported : List Reported, row.result = reported.map Reported.toJson

/-- A part of a run leaves such rows, and it returns exactly when the run gets over all
answers it had. -/
def Endures {α : Type} (x : Detect α) : Prop :=
  ∀ s : Work, s.Reads → (x.exec s).2.Reads ∧ ∃ new, (x.exec s).2.calls = s.calls ++ new ∧
    (¬ Raises (x.exec s).1 ↔ ∀ call ∈ new, Survivable call)

section Enduring

variable {α β γ : Type} {cfg : LinterConfig} {llm : Llm} {ctx : Context}

private theorem endures_pure (a : α) : Endures (pure a) :=
  fun s hs ↦ ⟨hs, [], by simp, iff_of_true (raises_ok a) (by simp)⟩

private theorem endures_modify {g : Work → Work} (hcalls : ∀ s, (g s).calls = s.calls)
    (hreads : ∀ s : Work, s.Reads → (g s).Reads) : Endures (modify g) :=
  fun s hs ↦ ⟨hreads s hs, [], by simp [hcalls], iff_of_true (raises_ok _) (by simp)⟩

private theorem endures_bind {x : Detect α} {f : α → Detect β} (hx : Endures x)
    (hf : ∀ a, Endures (f a)) : Endures (x >>= f) := by
  intro s hs
  obtain ⟨hreads, new, hnew, hiff⟩ := hx s hs
  rw [Stateful.exec_bind]
  cases hexec : x.exec s with
  | mk outcome t =>
    rw [hexec] at hreads hnew hiff
    cases outcome with
    | error e =>
      refine ⟨hreads, new, hnew, iff_of_false (not_not_intro ⟨e, rfl⟩) fun hall ↦ ?_⟩
      exact hiff.mpr hall ⟨e, rfl⟩
    | ok a =>
      obtain ⟨hreads', new', hnew', hiff'⟩ := hf a t hreads
      refine ⟨hreads', new ++ new', by rw [hnew', hnew, List.append_assoc], ?_⟩
      rw [hiff', List.forall_mem_append, and_iff_right (hiff.mp (raises_ok a))]

private theorem endures_foldlM {g : γ → β → Detect γ} (h : ∀ c b, Endures (g c b)) (bs : List β)
    (c : γ) :
    Endures (bs.foldlM g c) := by
  induction bs generalizing c with
  | nil => exact endures_pure c
  | cons b bs ih =>
    rw [List.foldlM_cons]
    exact endures_bind (h c b) ih

variable (llm) in
/-- A part that makes one call and leaves the cache. -/
theorem endures_of_call {x : Detect α} (call : Call)
    (h : ∀ s, (x.exec s).2.cache = s.cache ∧
      (x.exec s).2.calls = s.calls ++ [(call, llm s.calls.length call)] ∧
      (¬ Raises (x.exec s).1 ↔ Survivable (call, llm s.calls.length call))) :
    Endures x := by
  intro s hs
  obtain ⟨hcache, hcalls, hiff⟩ := h s
  refine ⟨?_, _, hcalls, by rw [hiff, List.forall_mem_singleton]⟩
  unfold Work.Reads
  rwa [hcache]

private theorem endures_countPair (checked : Nat) : Endures (countPair checked) :=
  endures_bind (endures_modify (fun _ ↦ rfl) fun _ hs ↦ hs) fun _ ↦ endures_pure _

/-- What is saved is what findings keep of contradictions. -/
theorem endures_saveIfEnabled (p : Pair) (found : List ContradictionFinding) :
    Endures (saveIfEnabled cfg p found) := by
  unfold saveIfEnabled
  split
  · refine endures_modify (fun _ ↦ rfl) fun s hs row hrow ↦ ?_
    rcases List.mem_append.mp hrow with hold | hnew
    · exact hs row (List.mem_of_mem_filter hold)
    · rw [List.mem_singleton.mp hnew]
      let kept (f : ContradictionFinding) : Reported :=
        ⟨f.description, f.articleAClaim, f.articleBClaim, f.llmConfidence⟩
      refine ⟨found.map kept, ?_⟩
      rw [List.map_map]
      rfl
  · exact endures_pure ()

private theorem endures_saveAndCount (p : Pair) (found : List ContradictionFinding)
    (checked : Nat) :
    Endures (saveAndCount cfg p found checked) :=
  endures_bind (endures_saveIfEnabled p found) fun _ ↦ endures_countPair checked

/-- The comparison of one pair asks once, and returns if the answer can be read. -/
theorem endures_compareArticlePair (p : Pair) : Endures (compareArticlePair llm ctx p) := by
  unfold compareArticlePair
  split
  · exact endures_pure []
  refine endures_of_call llm (.single p) fun s ↦ ?_
  rw [Stateful.exec_bind, exec_askSingle]
  cases llm s.calls.length (.single p) with
  | error e =>
    by_cases hfailure : isCallFailure e = true
    · simp only [hfailure, if_true]
      exact ⟨rfl, rfl, iff_of_true (raises_ok _) hfailure⟩
    · simp only [hfailure, Bool.false_eq_true, if_false]
      exact ⟨trivial, trivial, iff_of_false (not_not_intro ⟨e, rfl⟩) hfailure⟩
  | ok data =>
    simp only [Survivable, ReadableSingle]
    cases data with
    | obj fields =>
      simp only [Stateful.exec_bind, Stateful.exec_ofExcept, JsonValue.get_obj]
      have hlist : contradictionsOf (.obj fields) =
          (JsonValue.lookup fields "contradictions").getD (.arr []) := rfl
      rw [hlist]
      cases hread : readAll ((JsonValue.lookup fields "contradictions").getD (.arr [])) with
      | error e =>
        have hbad := (raises_readAll_iff _).mp ⟨e, hread⟩
        exact ⟨rfl, rfl, iff_of_false (not_not_intro ⟨e, rfl⟩) fun h ↦ hbad h.2⟩
      | ok reported =>
        refine ⟨rfl, rfl, iff_of_true (raises_ok _) ⟨rfl, ?_⟩⟩
        by_contra hbad
        have hraises := (raises_readAll_iff _).mpr hbad
        rw [hread] at hraises
        exact raises_ok _ hraises
    | _ => exact ⟨rfl, rfl, iff_of_false (not_not_intro ⟨_, rfl⟩) fun h ↦ by cases h.1⟩

/-- An attempt of a batch asks once, and returns unless what it raises is let through. -/
theorem endures_attemptBatch (ps : List Pair) : Endures (attemptBatch llm ctx ps) := by
  refine endures_of_call llm (.batch ps) fun s ↦ ?_
  rw [attemptBatch, Stateful.exec_tryCatch, Stateful.exec_bind, exec_ask]
  cases llm s.calls.length (.batch ps) with
  | error e =>
    by_cases hfailure : isCallFailure e = true
    · simp only [hfailure, if_true]
      exact ⟨rfl, rfl, iff_of_true (raises_ok _) hfailure⟩
    · simp only [hfailure, Bool.false_eq_true, if_false]
      exact ⟨rfl, rfl, iff_of_false (not_not_intro ⟨e, rfl⟩) hfailure⟩
  | ok data =>
    simp only [Survivable, readableBatch_iff, Stateful.exec_bind, Stateful.exec_ofExcept]
    cases readBatch data ps with
    | ok comparisons => exact ⟨rfl, rfl, iff_of_true (raises_ok _) fun e h ↦ by cases h⟩
    | error e =>
      simp only [Except.error.injEq, forall_eq']
      by_cases hfailure : isCallFailure e = true
      · simp only [hfailure, if_true]
        exact ⟨rfl, rfl, iff_of_true (raises_ok _) trivial⟩
      · simp only [hfailure, Bool.false_eq_true, if_false]
        exact ⟨rfl, rfl, iff_of_false (not_not_intro ⟨e, rfl⟩) (by simp)⟩

private theorem endures_compareEach (ps : List Pair) : Endures (compareEach llm ctx ps) :=
  endures_foldlM (fun _ p ↦
    endures_bind (endures_compareArticlePair p) fun _ ↦ endures_pure _) ps []

private theorem endures_runBatch (ps : List Pair) : Endures (runBatch llm ctx ps) := by
  refine endures_bind (endures_attemptBatch ps) fun first ↦ ?_
  cases first with
  | some found => exact endures_pure found
  | none =>
    refine endures_bind (endures_attemptBatch ps) fun second ↦ ?_
    cases second with
    | some found => exact endures_pure found
    | none => exact endures_compareEach ps

private theorem endures_processBatch (acc : PairProcessResult) (batch : List Pair) :
    Endures (processBatch llm cfg ctx acc batch) := by
  refine endures_bind (endures_runBatch batch) fun found ↦ ?_
  refine endures_bind ?_ fun _ ↦ endures_pure _
  exact endures_foldlM (fun checked p ↦ endures_saveAndCount p _ checked) batch _

private theorem endures_processPair (acc : PairProcessResult) (p : Pair) :
    Endures (processPair llm cfg ctx acc p) :=
  endures_bind (endures_compareArticlePair p) fun _ ↦
    endures_bind (endures_saveAndCount p _ _) fun _ ↦ endures_pure _

/-- The batches are made for every size but 0. -/
theorem endures_processUncachedPairs
    (hsize : cfg.contradictionBatchEnabled = true → cfg.contradictionBatchSize ≠ 0)
    (ps : List Pair) (checked : Nat) : Endures (processUncachedPairs llm cfg ctx ps checked) := by
  unfold processUncachedPairs
  split
  next hbatch =>
    unfold batches
    rw [if_neg (hsize hbatch.1)]
    split
    · exact endures_bind (endures_pure _) fun _ ↦ endures_foldlM endures_processBatch _ _
    · exact endures_bind (endures_pure _) fun _ ↦ endures_foldlM endures_processBatch _ _
  next => exact endures_foldlM endures_processPair _ _

/-- A hit reads back what was saved. -/
theorem endures_sortPair (acc : Sorted) (p : Pair) : Endures (sortPair cfg ctx acc p) := by
  intro s hs
  rw [sortPair, Stateful.exec_bind, Stateful.exec_get]
  dsimp only
  cases hhit : if cfg.enablePairCache then checkPairCache s.cache p else none with
  | some cached =>
    obtain ⟨_, hcheck⟩ := Option.ite_none_right_eq_some.mp hhit
    obtain ⟨row, hrow, _, rfl⟩ := exists_of_checkPairCache hcheck
    obtain ⟨reported, hreported⟩ := hs row hrow
    simp only [hreported, findingsFromCached_toJson]
    exact endures_bind (endures_pure _) (fun _ ↦
      endures_bind (endures_countPair _) fun _ ↦ endures_pure _) s hs
  | none =>
    dsimp only
    split
    · exact endures_pure _ s hs
    · exact endures_bind (endures_countPair _) (fun _ ↦ endures_pure _) s hs

variable (llm) in
private theorem endures_detectContradictions
    (hsize : cfg.contradictionBatchEnabled = true → cfg.contradictionBatchSize ≠ 0)
    (reportId userId : String) (allWork : List WorkItem) :
    Endures (detectContradictions llm cfg reportId userId allWork) := by
  refine endures_bind (endures_modify (fun _ ↦ rfl) fun _ hs ↦ hs) fun _ ↦ ?_
  refine endures_bind (endures_foldlM (fun acc item ↦ ?_) allWork _) fun _ ↦ endures_pure _
  refine endures_bind (endures_foldlM endures_sortPair _ _) fun _ ↦ ?_
  exact endures_bind (endures_processUncachedPairs hsize _ _) fun _ ↦ endures_pure _

end Enduring

/-- Every row comes from a comparison, of the run so far or of an earlier run. -/
def Work.RowedFrom (w : Work) (s : State) : Prop :=
  ∀ row ∈ w.cache, ∃ c, (c ∈ s.history ∨ c ∈ w.comparisons) ∧ row = c.row

/-- The findings have what a comparison of the pair's content found, of the run so far or of
an earlier run. -/
def Told (s : State) (ctx : Context) (found : List ContradictionFinding) (p : Pair) (w : Work) :
    Prop :=
  ∃ c, (c ∈ s.history ∨ c ∈ w.comparisons) ∧ c.pair.content = p.content ∧
    c.reported.map (Reported.finding ctx p) ⊆ found

section Keeping

variable {cfg : LinterConfig} {llm : Llm} {ctx : Context} {state : State} {s t : Work}
  {found more : List ContradictionFinding} {p : Pair} {pairs : List Pair}

theorem Work.RowedFrom.mono (h : s.RowedFrom state) (hst : Extends cfg s t) :
    t.RowedFrom state := by
  intro row hrow
  rcases hst.cache row hrow with hs | ⟨c, hc, rfl⟩
  · obtain ⟨c, hc, rfl⟩ := h row hs
    exact ⟨c, hc.imp_right (hst.comparisons c), rfl⟩
  · exact ⟨c, .inr hc, rfl⟩

theorem Work.RowedFrom.reads (h : s.RowedFrom state) : s.Reads := by
  intro row hrow
  obtain ⟨c, _, rfl⟩ := h row hrow
  exact ⟨c.reported, rfl⟩

theorem Told.mono (h : Told state ctx found p s) (hst : Extends cfg s t) (hfound : found ⊆ more) :
    Told state ctx more p t := by
  obtain ⟨c, hc, hcontent, hsub⟩ := h
  exact ⟨c, hc.imp_right (hst.comparisons c), hcontent, List.Subset.trans hsub hfound⟩

/-- A comparison of the pairs tells of each of them. -/
theorem Compared.told (h : Compared ctx pairs found s) (hp : p ∈ pairs) :
    Told state ctx found p s := by
  obtain ⟨comparisons, rfl, hmem, rfl⟩ := h
  obtain ⟨c, hc, rfl⟩ := List.mem_map.mp hp
  exact ⟨c, .inr (hmem c hc), rfl, fun f hf ↦ List.mem_flatMap.mpr ⟨c, hc, hf⟩⟩

/-- The findings so far stay, and each of the pairs is told of. -/
def Tells (state : State) (ctx : Context) (before after : List ContradictionFinding)
    (pairs : List Pair) (w : Work) : Prop :=
  before ⊆ after ∧ ∀ p ∈ pairs, Told state ctx after p w

variable (cfg) in
/-- Pairs that are compared first are told of, whatever is saved then. -/
theorem returns_compareAndSave {x : Detect (List ContradictionFinding)}
    {save : List ContradictionFinding → Detect Nat} {before : List ContradictionFinding}
    (hcompared : Stateful.Returns x fun _ found t ↦ Compared ctx pairs found t)
    (hsave : ∀ found t, Compared ctx pairs found t → Extends cfg t ((save found).exec t).2) :
    Stateful.Returns (do
        let found ← x
        let checked ← save found
        return (⟨before ++ found, checked⟩ : PairProcessResult)) fun _ r t ↦
      Tells state ctx before r.findings pairs t := by
  intro s r t h
  obtain ⟨found, u, hfound, h⟩ := Stateful.exec_bind_eq_ok.mp h
  obtain ⟨checked, v, hchecked, h⟩ := Stateful.exec_bind_eq_ok.mp h
  have hu := hcompared s found u hfound
  have hext : Extends cfg u v := by simpa [hchecked] using hsave found u hu
  cases h
  exact ⟨List.subset_append_left _ _, fun p hp ↦
    (hu.told hp).mono hext (List.subset_append_right _ _)⟩

/-- A loop tells of what its rounds do. -/
theorem returns_foldlM_tells {α : Type} {g : PairProcessResult → α → Detect PairProcessResult}
    {xs : List α} (pairsOf : α → List Pair)
    (hmoves : ∀ x ∈ xs, ∀ acc, Stateful.Moves (Extends cfg) (g acc x))
    (h : ∀ x ∈ xs, ∀ acc, Stateful.Returns (g acc x) fun _ r t ↦
      Tells state ctx acc.findings r.findings (pairsOf x) t) (acc : PairProcessResult) :
    Stateful.Returns (xs.foldlM g acc) fun _ r t ↦
      Tells state ctx acc.findings r.findings (xs.flatMap pairsOf) t := by
  intro s r t hexec
  refine Stateful.returns_foldlM
    (J := fun done r w ↦ Tells state ctx acc.findings r.findings (done.flatMap pairsOf) w)
    ⟨List.Subset.refl _, by simp⟩ ?_ hexec
  intro done x hx r u r' w hold hround
  obtain ⟨hsub, hnow⟩ := h x hx r u r' w hround
  refine ⟨List.Subset.trans hold.1 hsub, fun p hp ↦ ?_⟩
  rw [List.flatMap_append, List.flatMap_singleton, List.mem_append] at hp
  rcases hp with hbefore | hmem
  · exact (hold.2 p hbefore).mono ((hmoves x hx r).of_exec hround) hsub
  · exact hnow p hmem

variable (state) in
private theorem returns_processBatch {batch : List Pair} (hclaims : ∀ p ∈ batch, p.hasClaims = true)
    (hnodup : (batch.map fun p ↦ (p.a.id, p.b.id)).Nodup) (acc : PairProcessResult) :
    Stateful.Returns (processBatch llm cfg ctx acc batch) fun _ r t ↦
      Tells state ctx acc.findings r.findings batch t :=
  returns_compareAndSave cfg (returns_runBatch hclaims) fun _ _ h ↦ extends_saveBatch h hnodup _

variable (state) in
private theorem returns_processPair (hclaims : p.hasClaims = true) (acc : PairProcessResult) :
    Stateful.Returns (processPair llm cfg ctx acc p) fun _ r t ↦
      Tells state ctx acc.findings r.findings [p] t := by
  refine returns_compareAndSave cfg (returns_compareArticlePair hclaims) fun found t h ↦ ?_
  obtain ⟨c, hc, hpair, hfound⟩ := h.exists_of_singleton
  exact extends_saveAndCount hc hpair hfound _

variable (state) in
private theorem returns_processUncachedPairs
    (hsize : cfg.contradictionBatchEnabled = true → 0 < cfg.contradictionBatchSize)
    (hclaims : ∀ p ∈ pairs, p.hasClaims = true)
    (hnodup : (pairs.map fun p ↦ (p.a.id, p.b.id)).Nodup) (checked : Nat) :
    Stateful.Returns (processUncachedPairs llm cfg ctx pairs checked) fun _ r t ↦
      Tells state ctx [] r.findings pairs t := by
  unfold processUncachedPairs
  split
  next hbatch =>
    intro s r t h
    obtain ⟨parts, u, hparts, h⟩ := Stateful.exec_bind_eq_ok.mp h
    rw [Stateful.exec_ofExcept] at hparts
    obtain ⟨hsub, hcover⟩ := of_batches (Prod.mk.inj hparts).1
    have hin (part : List Pair) (hpart : part ∈ parts) : (∀ p ∈ part, p.hasClaims = true) ∧
        (part.map fun p ↦ (p.a.id, p.b.id)).Nodup :=
      ⟨fun p hp ↦ hclaims p ((hsub part hpart).subset hp), hnodup.sublist ((hsub part hpart).map _)⟩
    have hmoves (part : List Pair) (hpart : part ∈ parts) (acc : PairProcessResult) :
        Stateful.Moves (Extends cfg) (processBatch llm cfg ctx acc part) :=
      (processes_processBatch (hin part hpart).1 (hin part hpart).2 acc).1
    have hloop := returns_foldlM_tells id hmoves (fun part hpart acc ↦
      returns_processBatch state (hin part hpart).1 (hin part hpart).2 acc) _ u r t h
    refine ⟨hloop.1, fun p hp ↦ hloop.2 p ?_⟩
    obtain ⟨part, hpart, hmem⟩ := hcover (hsize hbatch.1).le p hp
    exact List.mem_flatMap.mpr ⟨part, hpart, hmem⟩
  next =>
    have hmoves (p : Pair) (hp : p ∈ pairs) (acc : PairProcessResult) :
        Stateful.Moves (Extends cfg) (processPair llm cfg ctx acc p) :=
      (processes_processPair (hclaims p hp) acc).1
    have hloop := returns_foldlM_tells (fun p ↦ [p]) hmoves (fun p hp acc ↦
      returns_processPair state (hclaims p hp) acc) ⟨[], checked⟩
    simpa using hloop

/-- What the cache answers is what a comparison of the content found. -/
theorem exists_of_hit {cached : List JsonValue} (hrows : s.RowedFrom state)
    (hcheck : checkPairCache s.cache p = some cached)
    (hfound : findingsFromCached ctx p cached = .ok found) :
    ∃ c, (c ∈ state.history ∨ c ∈ s.comparisons) ∧ c.pair.content = p.content ∧
      cached = c.reported.map Reported.toJson ∧
      found = c.reported.map (Reported.finding ctx p) := by
  obtain ⟨row, hrow, hcontent, rfl⟩ := exists_of_checkPairCache hcheck
  obtain ⟨c, hc, rfl⟩ := hrows row hrow
  have hresult : c.row.result = c.reported.map Reported.toJson := rfl
  rw [hresult, findingsFromCached_toJson] at hfound
  exact ⟨c, hc, hcontent, rfl, (Except.ok.inj hfound).symm⟩

/-- A pair is told of by its hit, or it is left, or it has no claims. -/
theorem told_of_sortPair {acc acc' : Sorted} (hrows : s.RowedFrom state)
    (hexec : (sortPair cfg ctx acc p).exec s = (.ok acc', t)) :
    acc.findings ⊆ acc'.findings ∧ acc.uncachedPairs ⊆ acc'.uncachedPairs ∧
      (p.hasClaims = true → p ∈ acc'.uncachedPairs ∨ Told state ctx acc'.findings p t) := by
  have hmoves := (moves_sortPair ctx acc p).of_exec hexec
  cases (sorts_of_sortPair hexec).1 with
  | hit _ _ hcheck hfound =>
    obtain ⟨c, hc, hcontent, -, rfl⟩ := exists_of_hit hrows hcheck hfound
    refine ⟨List.subset_append_left _ _, List.Subset.refl _, fun _ ↦ .inr ?_⟩
    exact ⟨c, hc.imp_right (hmoves.comparisons c), hcontent, List.subset_append_right _ _⟩
  | left _ hclaims =>
    exact ⟨List.Subset.refl _, List.subset_append_left _ _, fun _ ↦ .inl (by simp)⟩
  | skipped _ hclaims =>
    exact ⟨List.Subset.refl _, List.Subset.refl _, fun h ↦ absurd h hclaims⟩

/-- The sorting of a group leaves a pair with claims, or tells of it. -/
theorem returns_sortPairs_told (acc : Sorted) (ps : List Pair) {acc' : Sorted}
    (hrows : s.RowedFrom state)
    (hexec : (ps.foldlM (sortPair cfg ctx) acc).exec s = (.ok acc', t)) :
    acc.findings ⊆ acc'.findings ∧ ∀ p ∈ ps, p.hasClaims = true →
      p ∈ acc'.uncachedPairs ∨ Told state ctx acc'.findings p t := by
  have hinv := Stateful.returns_foldlM
    (J := fun done r w ↦ w.RowedFrom state ∧ acc.findings ⊆ r.findings ∧
      ∀ p ∈ done, p.hasClaims = true → p ∈ r.uncachedPairs ∨ Told state ctx r.findings p w)
    ⟨hrows, List.Subset.refl _, by simp⟩ ?_ hexec
  · exact hinv.2
  · rintro done p _ r u r' w ⟨hu, hsub, hdone⟩ hround
    have hmoves := (moves_sortPair ctx r p).of_exec hround
    obtain ⟨hfindings, hleft, hnow⟩ := told_of_sortPair hu hround
    refine ⟨hu.mono hmoves, List.Subset.trans hsub hfindings, fun q hq hclaims ↦ ?_⟩
    rcases List.mem_append.mp hq with hbefore | hmem
    · exact (hdone q hbefore hclaims).imp (fun h ↦ hleft h) fun h ↦ h.mono hmoves hfindings
    · rw [List.mem_singleton.mp hmem] at hclaims ⊢
      exact hnow hclaims

/-- An item that returns tells of its pairs that have claims. -/
theorem told_of_processItem {reportId userId : String} {acc result : PairProcessResult}
    {item : WorkItem}
    (hsize : cfg.contradictionBatchEnabled = true → 0 < cfg.contradictionBatchSize)
    (hrows : s.RowedFrom state)
    (hexec : (processItem llm cfg reportId userId acc item).exec s = (.ok result, t)) :
    acc.findings ⊆ result.findings ∧ ∀ p ∈ item.pairs, p.hasClaims = true →
      Told state ⟨reportId, item.conceptId, userId⟩ result.findings p t := by
  obtain ⟨sorted, u, hsort, hexec⟩ := Stateful.exec_bind_eq_ok.mp hexec
  obtain ⟨processed, v, hprocess, hexec⟩ := Stateful.exec_bind_eq_ok.mp hexec
  cases hexec
  have hsorted := returns_sortPairs _ _ _ _ s sorted u hsort
  have hnodup := item.nodup.sublist (hsorted.sublist.map _)
  obtain ⟨hsub, hpairs⟩ := returns_sortPairs_told ⟨acc.findings, [], acc.checkedCount⟩ item.pairs
    hrows hsort
  have hmoves := (processes_processUncachedPairs hsorted.claims hnodup _).1.of_exec hprocess
  have htells := returns_processUncachedPairs state hsize hsorted.claims hnodup _ u
    processed t hprocess
  refine ⟨List.Subset.trans hsub (List.subset_append_left _ _), fun p hp hclaims ↦ ?_⟩
  rcases hpairs p hp hclaims with hleft | htold
  · exact (htells.2 p hleft).mono (Extends.refl t : Extends cfg t t) (List.subset_append_right _ _)
  · exact htold.mono hmoves (List.subset_append_left _ _)

private theorem told_of_detectContradictions {reportId userId : String} {allWork : List WorkItem}
    (hsize : cfg.contradictionBatchEnabled = true → 0 < cfg.contradictionBatchSize)
    (hrows : s.RowedFrom state)
    (hexec : (detectContradictions llm cfg reportId userId allWork).exec s = (.ok found, t)) :
    ∀ item ∈ allWork, ∀ p ∈ item.pairs, p.hasClaims = true →
      Told state ⟨reportId, item.conceptId, userId⟩ found p t := by
  obtain ⟨_, u, hreport, hexec⟩ := Stateful.exec_bind_eq_ok.mp hexec
  obtain ⟨result, v, hloop, hexec⟩ := Stateful.exec_bind_eq_ok.mp hexec
  cases hexec
  have hu : u.RowedFrom state := by
    cases hreport
    exact hrows
  have hinv := Stateful.returns_foldlM
    (J := fun done r w ↦ w.RowedFrom state ∧ ∀ item ∈ done, ∀ p ∈ item.pairs,
      p.hasClaims = true → Told state ⟨reportId, item.conceptId, userId⟩ r.findings p w)
    ⟨hu, by simp⟩ ?_ hloop
  · exact hinv.2
  · rintro done item _ r w r' w' ⟨hw, hdone⟩ hround
    have hmoves := (moves_processItem llm reportId userId r item).of_exec hround
    obtain ⟨hsub, hnow⟩ := told_of_processItem hsize hw hround
    refine ⟨hw.mono hmoves, fun item' hitem' p hp hclaims ↦ ?_⟩
    rcases List.mem_append.mp hitem' with hbefore | hmem
    · exact (hdone item' hbefore p hp hclaims).mono hmoves hsub
    · rw [List.mem_singleton.mp hmem] at hp ⊢
      exact hnow p hp hclaims

/-- The rows that the runs so far left come from their comparisons. -/
theorem rowedFrom_of_run {rs : List Run} {s : State} (hrun : (lints cfg).run .empty rs = some s) :
    Work.RowedFrom ⟨s.cache, 0, 0, [], []⟩ s := by
  have hrows := (lints cfg).invariant_of_reachable
    (I := fun s ↦ ∀ row ∈ s.cache, ∃ c ∈ s.history, row = c.row) ?_ ?_ ⟨rs, hrun⟩
  · intro row hrow
    obtain ⟨c, hc, heq⟩ := hrows row hrow
    exact ⟨c, .inl hc, heq⟩
  · rintro s r t hs ht
    cases ht
    exact rows_step hs
  · simp [State.empty]

/-- A run keeps the findings of its pairs exactly when it gets over each answer it had. -/
theorem run_keeps_iff {rs : List Run} {s : State} {r : Run}
    (hsize : cfg.contradictionBatchEnabled = true → 0 < cfg.contradictionBatchSize)
    (hrun : (lints cfg).run .empty rs = some s) :
    Keeps cfg s r ↔ ∀ call ∈ (lint cfg s r).2.calls, Survivable call := by
  have hrows := rowedFrom_of_run hrun
  obtain ⟨-, new, hnew, hiff⟩ := endures_detectContradictions r.llm
    (fun h ↦ (hsize h).ne') r.reportId r.userId r.allWork _ hrows.reads
  have hcalls : (lint cfg s r).2.calls = new := hnew
  rw [hcalls, ← hiff]
  constructor
  · rintro ⟨found, hfound, _⟩ hraises
    change Raises (lint cfg s r).1 at hraises
    rw [hfound] at hraises
    exact raises_ok found hraises
  · intro hreturns
    change ¬ Raises (lint cfg s r).1 at hreturns
    cases hfound : (lint cfg s r).1 with
    | error e => exact absurd ⟨e, hfound⟩ hreturns
    | ok found =>
      refine ⟨found, hfound, fun item hitem p hp hclaims ↦ ?_⟩
      have htold := told_of_detectContradictions hsize hrows (t := (lint cfg s r).2)
        (Prod.ext hfound rfl) item hitem p hp hclaims
      obtain ⟨c, hc, hcontent, hsub⟩ := htold
      exact ⟨c, List.mem_append.mpr hc, hcontent, hsub⟩

end Keeping

end WikiMind.Lint.Contradictions
