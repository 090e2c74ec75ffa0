import WikiMind.Base.Run
import WikiMind.Ingest.Sources
import WikiMind.Jobs.CompileSource

/-!
# Concurrent ingests of the same content

An adapter looks its content up by hash, commits a row without file and records the file
later (`ingest/adapters/text.py:45–86`, its siblings alike); the column of the hash has an
index but no constraint (`models/tables/ingest.py:39`). The system has one step for each
part of an ingest that ends in a commit or a look-up, and for each status a compile job
writes, in any interleaving of any number of ingests of any users.
-/

namespace WikiMind.Ingest.Concurrent

open WikiMind.Base WikiMind.Ingest WikiMind.Jobs

/-- Where an ingest stands: before its look-up, about to delete a row without file, before
its own row, with its row committed; and how it ended: with a source, by an exception of
the database, or by a failure outside it. -/
inductive Phase where
  | admitted
  | clearing (sourceId : Nat)
  | cleared
  | inserted (sourceId : Nat)
  | returned (sourceId : Nat)
  | raised | failed
  deriving DecidableEq, Repr

/-- An ingest, with the content it brings. -/
structure Request where
  id : Nat
  userId : String
  contentHash : String
  content : Content
  phase : Phase
  deriving DecidableEq, Repr

/-- The rows, the status of each of them, and all ingests so far. -/
structure State where
  sources : List Source
  nextId : Nat
  status : Nat → IngestStatus
  requests : List Request

/-- The steps of the system. A flag tells whether the file can be read or written. -/
inductive Label where
  | request (r : Nat) (userId contentHash : String) (content : Content)
  | dedup (r : Nat) (readable : Bool)
  | discard (r : Nat)
  | insert (r : Nat)
  | write (r : Nat) (written : Bool)
  | abort (r : Nat)
  | compile (sourceId : Nat) (status : IngestStatus)
  deriving DecidableEq, Repr

/-- The ingest is under way. -/
def Phase.isLive : Phase → Bool
  | .admitted | .clearing _ | .cleared | .inserted _ => true
  | .returned _ | .raised | .failed => false

/-- The rows of a user with that content. -/
def hasContent (contentHash userId : String) (s : Source) : Bool :=
  s.contentHash = contentHash ∧ s.userId = userId

/-- The dedup check of an ingest: `ingest/utils.py:362–381`. -/
def Request.lookUp (q : Request) (sources : List Source) (readable : Bool) : Phase :=
  match checkSourceDedup sources q.contentHash q.userId with
  | .error _ => .raised
  | .ok (.hit existing) => if readable then .returned existing.id else .failed
  | .ok (.zombie existing) => .clearing existing.id
  | .ok .fresh => .cleared

namespace State

/-- The ingest of a number. -/
def request? (s : State) (r : Nat) : Option Request := s.requests.find? (·.id = r)

/-- An ingest goes on to a phase. -/
def goto (s : State) (r : Nat) (phase : Phase) : State :=
  { s with requests := Rows.modify (·.id = r) (fun q ↦ { q with phase }) s.requests }

/-- The row of a zombie is deleted. No row is deleted without complaint when it is gone. -/
def discard (s : State) (r id : Nat) : State :=
  { s.goto r .cleared with sources := deleteRow id s.sources }

/-- A new row without file: `ingest/adapters/text.py:50–59`. -/
def insert (s : State) (q : Request) : State :=
  { s.goto q.id (.inserted s.nextId) with
    sources := s.sources ++ [⟨s.nextId, q.userId, q.contentHash, none⟩]
    nextId := s.nextId + 1
    status := Function.update s.status s.nextId .processing }

/-- The file is written and recorded; a row that is gone cannot be updated. Where the write
fails the row stays as it is, with its status. `ingest/adapters/text.py:64–86`. -/
def write (s : State) (q : Request) (id : Nat) (written : Bool) : State :=
  if ¬ written then { s.goto q.id .failed with status := Function.update s.status id .failed }
  else if s.sources.any (·.id = id) then
    { s.goto q.id (.returned id) with sources := setFile id q.content s.sources }
  else s.goto q.id .raised

end State

/-- One step; `none` when it is not enabled. -/
def step (s : State) : Label → Option State
  | .request r userId contentHash content =>
    if (s.request? r).isSome then none
    else some { s with requests := ⟨r, userId, contentHash, content, .admitted⟩ :: s.requests }
  | .dedup r readable =>
    (s.request? r).bind fun q ↦
      if q.phase = .admitted then some (s.goto r (q.lookUp s.sources readable)) else none
  | .discard r =>
    (s.request? r).bind fun q ↦
      match q.phase with
      | .clearing id => some (s.discard r id)
      | _ => none
  | .insert r =>
    (s.request? r).bind fun q ↦ if q.phase = .cleared then some (s.insert q) else none
  | .write r written =>
    (s.request? r).bind fun q ↦
      match q.phase with
      | .inserted id => some (s.write q id written)
      | _ => none
  | .abort r =>
    (s.request? r).bind fun q ↦ if q.phase.isLive then some (s.goto r .failed) else none
  | .compile sourceId status =>
    if s.sources.any (·.id = sourceId) then
      some { s with status := Function.update s.status sourceId status }
    else none

/-- The system of the ingests and the compile jobs they start. -/
def ingests : Machine State Label := ⟨step⟩

/-- The ingest fares well: the row it processes is there, the source it returned is there
with its content, and no exception of the database ends it. -/
structure Request.Right (sources : List Source) (q : Request) : Prop where
  processed : ∀ id, q.phase = .inserted id → ∃ s ∈ sources, s.id = id
  returned : ∀ id, q.phase = .returned id →
    ∃ s ∈ sources, s.id = id ∧ hasContent q.contentHash q.userId s = true
  raised : q.phase ≠ .raised

/-- A user has one row at most for a content, every look-up succeeds, and every ingest
fares well. -/
structure State.Deduped (s : State) : Prop where
  unique : ∀ contentHash userId,
    (s.sources.filter (hasContent contentHash userId)).length ≤ 1
  lookUp : ∀ contentHash userId, ¬ Raises (findSourceByHash s.sources contentHash userId)
  request : ∀ q ∈ s.requests, q.Right s.sources

/-- The ingest has looked its content up and is not over. -/
def Phase.processing : Phase → Bool
  | .clearing _ | .cleared | .inserted _ => true
  | .admitted | .returned _ | .raised | .failed => false

/-- No ingest looks its content up while another one of that content and user is between its
own look-up and its end. -/
def Apart (s : State) : Label → Prop
  | .dedup r _ => ∀ q ∈ s.request? r, ∀ q' ∈ s.requests, q'.contentHash = q.contentHash →
      q'.userId = q.userId → q'.phase.processing = false
  | _ => True

instance (s : State) : ∀ l, Decidable (Apart s l)
  | .dedup r _ => inferInstanceAs (Decidable (∀ q ∈ s.request? r, ∀ q' ∈ s.requests,
      q'.contentHash = q.contentHash → q'.userId = q.userId → q'.phase.processing = false))
  | .request .. | .discard _ | .insert _ | .write .. | .abort _ | .compile .. => .isTrue trivial

/-- What the system keeps in any run. -/
structure State.Sound (s : State) : Prop where
  nodup : (s.requests.map Request.id).Nodup
  ids : ∀ s' ∈ s.sources, s'.id < s.nextId
  inserted : ∀ q ∈ s.requests, ∀ id, q.phase = .inserted id → id < s.nextId
  content : ∀ q ∈ s.requests, ∀ s' ∈ s.sources, q.phase = .inserted s'.id →
    hasContent q.contentHash q.userId s' = true

section
variable {s t : State} {r : Nat} {q : Request}

private theorem request?_eq_some (hs : s.Sound) :
    s.request? r = some q ↔ q ∈ s.requests ∧ q.id = r := by
  unfold State.request?
  constructor
  · intro h
    exact ⟨List.mem_of_find?_eq_some h, by simpa using List.find?_some h⟩
  · rintro ⟨hq, rfl⟩
    exact Rows.find?_of_nodup hs.nodup hq

/-- A step of an ingest finds it. -/
theorem exists_of_bind {f : Request → Option State} (hs : s.Sound)
    (h : (s.request? r).bind f = some t) : ∃ q ∈ s.requests, q.id = r ∧ f q = some t := by
  obtain ⟨q, hq, hf⟩ := Option.bind_eq_some_iff.mp h
  obtain ⟨hmem, hid⟩ := (request?_eq_some hs).mp hq
  exact ⟨q, hmem, hid, hf⟩

/-- A look-up inserts no row. -/
theorem lookUp_ne_inserted {readable : Bool} (id : Nat) :
    q.lookUp s.sources readable ≠ .inserted id := by
  unfold Request.lookUp
  split
  · simp
  · split <;> simp
  · simp
  · simp

@[simp] theorem ids_goto (s : State) (r : Nat) (phase : Phase) :
    (s.goto r phase).requests.map Request.id = s.requests.map Request.id :=
  Rows.map_modify (fun _ _ _ ↦ rfl)

/-- What holds of all ingests after one of them went on. -/
theorem forall_goto {P : Request → Prop} {phase : Phase} (hs : s.Sound)
    (hq : q ∈ s.requests) :
    (∀ q' ∈ (s.goto q.id phase).requests, P q') ↔
      P { q with phase } ∧ ∀ q' ∈ s.requests, q'.id ≠ q.id → P q' := by
  unfold State.goto
  rw [Rows.forall_modify]
  constructor
  · rintro ⟨hself, hother⟩
    exact ⟨hself q hq (by simp), fun q' hq' hne ↦ hother q' hq' (by simpa using hne)⟩
  · rintro ⟨hself, hother⟩
    refine ⟨fun q' hq' hid ↦ ?_, fun q' hq' hne ↦ hother q' hq' (by simpa using hne)⟩
    rw [Rows.eq_of_nodup hs.nodup hq hq' (by simpa using hid)]
    exact hself

/-- An ingest that does not insert a row keeps the invariant. -/
theorem State.Sound.goto {phase : Phase} (hs : s.Sound) (hq : q ∈ s.requests)
    (hphase : ∀ id, phase ≠ .inserted id) : (s.goto q.id phase).Sound where
  nodup := by
    rw [ids_goto]
    exact hs.nodup
  ids := hs.ids
  inserted := by
    rw [forall_goto hs hq]
    exact ⟨fun id h ↦ absurd h (hphase id), fun q' hq' _ ↦ hs.inserted q' hq'⟩
  content := by
    rw [forall_goto hs hq]
    exact ⟨fun s' _ h ↦ absurd h (hphase s'.id), fun q' hq' _ ↦ hs.content q' hq'⟩

theorem State.Sound.discard {id : Nat} (hs : s.Sound) (hq : q ∈ s.requests) :
    (s.discard q.id id).Sound := by
  have hgoto : (s.goto q.id .cleared).Sound := hs.goto hq (by simp)
  have hsub : ∀ s' ∈ deleteRow id s.sources, s' ∈ s.sources :=
    fun s' hs' ↦ List.mem_of_mem_filter hs'
  exact { hgoto with
    ids := fun s' hs' ↦ hs.ids s' (hsub s' hs')
    content := fun q' hq' s' hs' ↦ hgoto.content q' hq' s' (hsub s' hs') }

theorem State.Sound.insert (hs : s.Sound) (hq : q ∈ s.requests) : (s.insert q).Sound where
  nodup := by
    unfold State.insert
    rw [ids_goto]
    exact hs.nodup
  ids := by
    unfold State.insert
    simp only [List.mem_append, List.mem_singleton]
    rintro s' (hs' | rfl)
    · exact Nat.lt_succ_of_lt (hs.ids s' hs')
    · exact Nat.lt_succ_self _
  inserted := by
    unfold State.insert
    rw [forall_goto hs hq]
    constructor
    · intro id h
      cases h
      exact Nat.lt_succ_self _
    · intro q' hq' _ id h
      exact Nat.lt_succ_of_lt (hs.inserted q' hq' id h)
  content := by
    unfold State.insert
    rw [forall_goto hs hq]
    simp only [List.mem_append, List.mem_singleton]
    constructor
    · rintro s' (hs' | rfl) h
      · have := hs.ids s' hs'
        injection h with h
        omega
      · simp [hasContent]
    · rintro q' hq' - s' (hs' | rfl) h
      · exact hs.content q' hq' s' hs' h
      · exact absurd (hs.inserted q' hq' _ h) (Nat.lt_irrefl _)

/-- Recording a file keeps the id and the content of every row. -/
theorem forall_setFile {P : Source → Prop} {id : Nat} {content : Content}
    {sources : List Source} (hP : ∀ s' file, P s' → P { s' with file })
    (h : ∀ s' ∈ sources, P s') : ∀ s' ∈ setFile id content sources, P s' := by
  unfold setFile
  rw [Rows.forall_modify]
  exact ⟨fun s' hs' _ ↦ hP s' _ (h s' hs'), fun s' hs' _ ↦ h s' hs'⟩

theorem State.Sound.write {id : Nat} {written : Bool} (hs : s.Sound) (hq : q ∈ s.requests) :
    (s.write q id written).Sound := by
  unfold State.write
  split
  · have hgoto : (s.goto q.id .failed).Sound := hs.goto hq (by simp)
    exact { hgoto with }
  split
  · have hgoto : (s.goto q.id (.returned id)).Sound := hs.goto hq (by simp)
    exact { hgoto with
      ids := forall_setFile (fun _ _ h ↦ h) hs.ids
      content := fun q' hq' ↦ forall_setFile (fun _ _ h ↦ h) (hgoto.content q' hq') }
  · exact hs.goto hq (by simp)

end

/-- Every step keeps the invariant. -/
theorem sound_step {s t : State} {l : Label} (hs : s.Sound) (h : step s l = some t) :
    t.Sound := by
  cases l with
  | request r userId contentHash content =>
    obtain ⟨hnew, ht⟩ := Option.ite_none_left_eq_some.mp h
    cases ht
    have hfresh : ∀ q ∈ s.requests, q.id ≠ r := by
      simpa [State.request?, List.find?_isSome] using hnew
    constructor
    · exact List.nodup_cons.mpr ⟨by simpa using hfresh, hs.nodup⟩
    · exact hs.ids
    · simpa using hs.inserted
    · simpa using hs.content
  | dedup r readable =>
    obtain ⟨q, hq, rfl, hnext⟩ := exists_of_bind hs h
    obtain ⟨hphase, ht⟩ := Option.ite_none_right_eq_some.mp hnext
    cases ht
    exact hs.goto hq lookUp_ne_inserted
  | discard r =>
    obtain ⟨q, hq, rfl, hnext⟩ := exists_of_bind hs h
    split at hnext
    · cases hnext
      exact hs.discard hq
    · cases hnext
  | insert r =>
    obtain ⟨q, hq, rfl, hnext⟩ := exists_of_bind hs h
    obtain ⟨hphase, ht⟩ := Option.ite_none_right_eq_some.mp hnext
    cases ht
    exact hs.insert hq
  | write r written =>
    obtain ⟨q, hq, rfl, hnext⟩ := exists_of_bind hs h
    split at hnext
    · cases hnext
      exact hs.write hq
    · cases hnext
  | abort r =>
    obtain ⟨q, hq, rfl, hnext⟩ := exists_of_bind hs h
    obtain ⟨hlive, ht⟩ := Option.ite_none_right_eq_some.mp hnext
    cases ht
    exact hs.goto hq (by simp)
  | compile sourceId status =>
    obtain ⟨-, ht⟩ := Option.ite_none_right_eq_some.mp h
    cases ht
    exact { hs with }

section
variable {s t : State} {q : Request}

/-- With one row at most for each content, no look-up raises. -/
theorem State.Deduped.of_unique
    (hunique : ∀ contentHash userId,
      (s.sources.filter (hasContent contentHash userId)).length ≤ 1)
    (hrequest : ∀ q ∈ s.requests, q.Right s.sources) : s.Deduped where
  unique := hunique
  lookUp contentHash userId := by
    unfold findSourceByHash
    rw [Rows.raises_oneOrNone_iff]
    exact Nat.not_lt.mpr (hunique contentHash userId)
  request := hrequest

/-- An ingest that goes on in an unchanged table. -/
theorem State.Deduped.goto {phase : Phase} (hd : s.Deduped) (hs : s.Sound)
    (hq : q ∈ s.requests) (hright : ({ q with phase } : Request).Right s.sources) :
    (s.goto q.id phase).Deduped where
  unique := hd.unique
  lookUp := hd.lookUp
  request := by
    rw [forall_goto hs hq]
    exact ⟨hright, fun q' hq' _ ↦ hd.request q' hq'⟩

/-- An ingest without a row that is not over is well, and so is one that failed. -/
theorem Request.Right.of_idle {sources : List Source} {phase : Phase}
    (hphase : phase = .admitted ∨ phase = .cleared ∨ phase = .failed ∨
      ∃ id, phase = .clearing id) : ({ q with phase } : Request).Right sources := by
  rcases hphase with rfl | rfl | rfl | ⟨id, rfl⟩
  all_goals exact ⟨by simp, by simp, by simp⟩

/-- A look-up ends well, or leads to a row without file or to a new one. -/
theorem right_lookUp {readable : Bool} (hd : s.Deduped) :
    ({ q with phase := q.lookUp s.sources readable } : Request).Right s.sources := by
  unfold Request.lookUp
  cases hfound : findSourceByHash s.sources q.contentHash q.userId with
  | error e => exact absurd ⟨e, hfound⟩ (hd.lookUp q.contentHash q.userId)
  | ok found =>
    cases found with
    | none =>
      have hcheck : checkSourceDedup s.sources q.contentHash q.userId = .ok .fresh := by
        unfold checkSourceDedup
        rw [hfound]
        rfl
      rw [hcheck]
      exact .of_idle (by simp)
    | some existing =>
      have hcheck : checkSourceDedup s.sources q.contentHash q.userId =
          .ok (if existing.hasFile then .hit existing else .zombie existing) := by
        unfold checkSourceDedup
        rw [hfound]
        rfl
      have hcontent : hasContent q.contentHash q.userId existing = true :=
        Rows.prop_of_oneOrNone hfound
      have hmem := Rows.mem_of_oneOrNone hfound
      rw [hcheck]
      cases existing.hasFile with
      | false => exact .of_idle (by simp)
      | true =>
        cases readable with
        | false => exact .of_idle (by simp)
        | true =>
          refine ⟨by simp, fun id h ↦ ?_, by simp⟩
          cases h
          exact ⟨existing, hmem, rfl, hcontent⟩

/-- Deleting a row leaves at most as many rows of a content. -/
theorem length_filter_deleteRow_le (p : Source → Bool) (id : Nat) (sources : List Source) :
    ((deleteRow id sources).filter p).length ≤ (sources.filter p).length :=
  ((List.filter_sublist).filter p).length_le

/-- A zombie may go when nobody processes it or has returned it. -/
theorem State.Deduped.discard {id : Nat} (hd : s.Deduped) (hs : s.Sound) (hq : q ∈ s.requests)
    (hfree : ∀ q' ∈ s.requests, ∀ s' ∈ s.sources, s'.id = id →
      q'.phase ≠ .inserted id ∧ q'.phase ≠ .returned id) : (s.discard q.id id).Deduped := by
  have hkept : ∀ s' ∈ s.sources, s'.id ≠ id → s' ∈ deleteRow id s.sources :=
    fun s' hs' hne ↦ List.mem_filter.mpr ⟨hs', by simpa using hne⟩
  apply State.Deduped.of_unique
  · intro contentHash userId
    exact Nat.le_trans (length_filter_deleteRow_le _ _ _) (hd.unique contentHash userId)
  · unfold State.discard
    rw [forall_goto hs hq]
    refine ⟨.of_idle (by simp), fun q' hq' _ ↦ ?_⟩
    have hright := hd.request q' hq'
    refine ⟨fun id' hins ↦ ?_, fun id' hret ↦ ?_, hright.raised⟩
    · obtain ⟨s', hs', hid'⟩ := hright.processed id' hins
      refine ⟨s', hkept s' hs' fun hid ↦ ?_, hid'⟩
      exact (hfree q' hq' s' hs' hid).1 (by rw [hins, ← hid', hid])
    · obtain ⟨s', hs', hid', hcontent⟩ := hright.returned id' hret
      refine ⟨s', hkept s' hs' fun hid ↦ ?_, hid', hcontent⟩
      exact (hfree q' hq' s' hs' hid).2 (by rw [hret, ← hid', hid])

/-- A longer table takes nothing from an ingest. -/
theorem Request.Right.mono {sources sources' : List Source} (hright : q.Right sources)
    (hsub : sources ⊆ sources') : q.Right sources' where
  processed id h := (hright.processed id h).imp fun _ ⟨hs, hid⟩ ↦ ⟨hsub hs, hid⟩
  returned id h := (hright.returned id h).imp fun _ ⟨hs, hid⟩ ↦ ⟨hsub hs, hid⟩
  raised := hright.raised

/-- A row may be inserted when it is the first of its content. -/
theorem State.Deduped.insert (hd : s.Deduped) (hs : s.Sound) (hq : q ∈ s.requests)
    (hnone : ∀ s' ∈ s.sources, hasContent q.contentHash q.userId s' = false) :
    (s.insert q).Deduped := by
  apply State.Deduped.of_unique
  · intro contentHash userId
    unfold State.insert
    rw [List.filter_append, List.length_append]
    by_cases h : q.contentHash = contentHash ∧ q.userId = userId
    · obtain ⟨rfl, rfl⟩ := h
      have hnil : s.sources.filter (hasContent q.contentHash q.userId) = [] :=
        List.filter_eq_nil_iff.mpr (by simpa using hnone)
      simp [hnil, hasContent]
    · have hold := hd.unique contentHash userId
      simpa [hasContent, h] using hold
  · unfold State.insert
    rw [forall_goto hs hq]
    constructor
    · refine ⟨fun id h ↦ ?_, by simp, by simp⟩
      cases h
      exact ⟨⟨s.nextId, q.userId, q.contentHash, none⟩, by simp, rfl⟩
    · intro q' hq' _
      exact (hd.request q' hq').mono (List.subset_append_left _ _)

/-- Recording a file leaves as many rows of a content. -/
theorem length_filter_setFile (contentHash userId : String) (id : Nat) (content : Content)
    (sources : List Source) :
    ((setFile id content sources).filter (hasContent contentHash userId)).length =
      (sources.filter (hasContent contentHash userId)).length := by
  unfold setFile Rows.modify
  rw [← List.countP_eq_length_filter, ← List.countP_eq_length_filter, List.countP_map]
  apply List.countP_congr
  intro s' _
  by_cases h : s'.id = id
  · simp [h, hasContent]
  · simp [h]

/-- A row stays after recording a file. -/
theorem exists_setFile {P : Source → Prop} {id : Nat} {content : Content}
    {sources : List Source} (hP : ∀ s' file, P s' → P { s' with file })
    (h : ∃ s' ∈ sources, P s') : ∃ s' ∈ setFile id content sources, P s' := by
  obtain ⟨s', hs', hp⟩ := h
  by_cases hid : s'.id = id
  · exact ⟨_, Rows.mem_modify.mpr (.inl ⟨s', hs', by simpa using hid, rfl⟩), hP s' _ hp⟩
  · exact ⟨s', Rows.mem_modify.mpr (.inr ⟨hs', by simpa using hid⟩), hp⟩

/-- Recording the file of a row ends its ingest well. -/
theorem State.Deduped.write {id : Nat} {written : Bool} (hd : s.Deduped) (hs : s.Sound)
    (hq : q ∈ s.requests) (hphase : q.phase = .inserted id) :
    (s.write q id written).Deduped := by
  obtain ⟨row, hrow, hid⟩ := (hd.request q hq).processed id hphase
  have hcontent := hs.content q hq row hrow (by rw [hphase, hid])
  unfold State.write
  split
  · have hgoto : (s.goto q.id .failed).Deduped := hd.goto hs hq (.of_idle (by simp))
    exact { hgoto with }
  split
  next =>
    apply State.Deduped.of_unique
    · intro contentHash userId
      rw [length_filter_setFile]
      exact hd.unique contentHash userId
    · rw [forall_goto hs hq]
      constructor
      · refine ⟨by simp, fun id' h ↦ ?_, by simp⟩
        cases h
        exact exists_setFile (fun _ _ h ↦ h) ⟨row, hrow, hid, hcontent⟩
      · intro q' hq' _
        have hright := hd.request q' hq'
        exact ⟨fun id' h ↦ exists_setFile (fun _ _ h ↦ h) (hright.processed id' h),
          fun id' h ↦ exists_setFile (fun _ _ h ↦ h) (hright.returned id' h), hright.raised⟩
  next hgone =>
    rw [Bool.not_eq_true, List.any_eq_false] at hgone
    exact absurd (by simpa using hid) (hgone row hrow)

end

/-! ### Ingests that keep apart -/

/-- Of the ingests of a content and user at most one is past its look-up and not over. -/
def State.Alone (s : State) : Prop :=
  ∀ q ∈ s.requests, ∀ q' ∈ s.requests, q.phase.processing = true → q'.phase.processing = true →
    q.contentHash = q'.contentHash → q.userId = q'.userId → q.id = q'.id

/-- What an ingest knows from its look-up still holds: of the row it is about to delete, that
there is no other with its content and that it has no file; after that, that no row has its
content; and the source it has returned has a file. -/
def Request.Holds (q : Request) (s : State) : Prop :=
  match q.phase with
  | .clearing id => id < s.nextId ∧ ∀ s' ∈ s.sources,
      (hasContent q.contentHash q.userId s' = true ↔ s'.id = id) ∧
        (s'.id = id → s'.hasFile = false)
  | .cleared => ∀ s' ∈ s.sources, hasContent q.contentHash q.userId s' = false
  | .returned id => id < s.nextId ∧ ∀ s' ∈ s.sources, s'.id = id → s'.hasFile = true
  | _ => True

/-- The invariant. -/
structure State.Kept (s : State) : Prop where
  sound : s.Sound
  deduped : s.Deduped
  ids : (s.sources.map Source.id).Nodup
  alone : s.Alone
  holds : ∀ q ∈ s.requests, q.Holds s

section
variable {s t : State} {q : Request}

private theorem key_of_hasContent {q q' : Request} {s' : Source}
    (h : hasContent q.contentHash q.userId s' = true)
    (h' : hasContent q'.contentHash q'.userId s' = true) :
    q.contentHash = q'.contentHash ∧ q.userId = q'.userId := by
  simp only [hasContent, decide_eq_true_eq] at h h'
  exact ⟨h.1.symm.trans h'.1, h.2.symm.trans h'.2⟩

/-- Two ingests of one content that are both past their look-up are the same. -/
theorem State.Kept.eq_of_processing (hk : s.Kept) {q' : Request} (hq : q ∈ s.requests)
    (hq' : q' ∈ s.requests) (hphase : q.phase.processing = true)
    (hphase' : q'.phase.processing = true) (hhash : q.contentHash = q'.contentHash)
    (huser : q.userId = q'.userId) : q = q' :=
  Rows.eq_of_nodup hk.sound.nodup hq' hq (hk.alone q hq q' hq' hphase hphase' hhash huser)

private theorem alone_goto {phase : Phase} (hs : s.Sound) (halone : s.Alone) (hq : q ∈ s.requests)
    (h : phase.processing = true → ∀ q' ∈ s.requests, q'.id ≠ q.id →
      q'.contentHash = q.contentHash → q'.userId = q.userId → q'.phase.processing = false) :
    (s.goto q.id phase).Alone := by
  have hfree (q' : Request) (hq' : q' ∈ s.requests) (hne : q'.id ≠ q.id)
      (hphase : phase.processing = true) (hphase' : q'.phase.processing = true)
      (hhash : q'.contentHash = q.contentHash) (huser : q'.userId = q.userId) : False := by
    rw [h hphase q' hq' hne hhash huser] at hphase'
    cases hphase'
  unfold State.Alone
  simp only [forall_goto hs hq]
  refine ⟨⟨fun _ _ _ _ ↦ trivial, ?_⟩, fun a ha hne ↦ ⟨?_, ?_⟩⟩
  · intro b hb hne hphase hphase' hhash huser
    exact (hfree b hb hne hphase hphase' hhash.symm huser.symm).elim
  · intro hphase' hphase hhash huser
    exact (hfree a ha hne hphase hphase' hhash huser).elim
  · exact fun b hb _ ↦ halone a ha b hb

/-- An ingest that goes on in an unchanged table. -/
theorem State.Kept.goto {phase : Phase} (hk : s.Kept) (hq : q ∈ s.requests)
    (hphase : ∀ id, phase ≠ .inserted id)
    (hright : ({ q with phase } : Request).Right s.sources)
    (hholds : ({ q with phase } : Request).Holds s)
    (halone : phase.processing = true → ∀ q' ∈ s.requests, q'.id ≠ q.id →
      q'.contentHash = q.contentHash → q'.userId = q.userId → q'.phase.processing = false) :
    (s.goto q.id phase).Kept where
  sound := hk.sound.goto hq hphase
  deduped := hk.deduped.goto hk.sound hq hright
  ids := hk.ids
  alone := alone_goto hk.sound hk.alone hq halone
  holds := by
    rw [forall_goto hk.sound hq]
    exact ⟨hholds, fun q' hq' _ ↦ hk.holds q' hq'⟩

/-- What a look-up finds holds of the table it reads. -/
theorem holds_lookUp {readable : Bool} (hk : s.Kept) :
    ({ q with phase := q.lookUp s.sources readable } : Request).Holds s := by
  unfold Request.lookUp
  cases hfound : findSourceByHash s.sources q.contentHash q.userId with
  | error e => exact absurd ⟨e, hfound⟩ (hk.deduped.lookUp q.contentHash q.userId)
  | ok found =>
    cases found with
    | none =>
      have hcheck : checkSourceDedup s.sources q.contentHash q.userId = .ok .fresh := by
        unfold checkSourceDedup
        rw [hfound]
        rfl
      rw [hcheck]
      exact fun s' hs' ↦ Rows.not_of_oneOrNone hfound hs'
    | some existing =>
      have hcheck : checkSourceDedup s.sources q.contentHash q.userId =
          .ok (if existing.hasFile then .hit existing else .zombie existing) := by
        unfold checkSourceDedup
        rw [hfound]
        rfl
      have hmem := Rows.mem_of_oneOrNone hfound
      have hid := hk.sound.ids existing hmem
      have hself {s' : Source} (hs' : s' ∈ s.sources) (h : s'.id = existing.id) : s' = existing :=
        Rows.eq_of_nodup hk.ids hmem hs' h
      rw [hcheck]
      cases hfile : existing.hasFile with
      | false =>
        refine ⟨hid, fun s' hs' ↦ ⟨⟨fun hcontent ↦ ?_, fun h ↦ ?_⟩, fun h ↦ ?_⟩⟩
        · exact congrArg Source.id (Rows.eq_of_oneOrNone hfound hs' hcontent)
        · rw [hself hs' h]
          exact Rows.prop_of_oneOrNone hfound
        · rw [hself hs' h]
          exact hfile
      | true =>
        cases readable with
        | false => trivial
        | true =>
          refine ⟨hid, fun s' hs' h ↦ ?_⟩
          rw [hself hs' h]
          exact hfile

theorem State.Kept.discard {id : Nat} (hk : s.Kept) (hq : q ∈ s.requests)
    (hphase : q.phase = .clearing id) : (s.discard q.id id).Kept := by
  have hclearing := hk.holds q hq
  unfold Request.Holds at hclearing
  rw [hphase] at hclearing
  have hprocessing : q.phase.processing = true := by
    rw [hphase]
    rfl
  have hsub : ∀ s' ∈ deleteRow id s.sources, s' ∈ s.sources ∧ s'.id ≠ id := by
    intro s' hs'
    obtain ⟨hmem, hne⟩ := List.mem_filter.mp hs'
    exact ⟨hmem, by simpa using hne⟩
  constructor
  · exact hk.sound.discard hq
  · refine hk.deduped.discard hk.sound hq fun q' hq' s' hs' hid ↦ ⟨fun hins ↦ ?_, fun hret ↦ ?_⟩
    · -- the other ingest would be of the same content
      obtain ⟨hhash, huser⟩ := key_of_hasContent (((hclearing.2 s' hs').1).mpr hid)
        (hk.sound.content q' hq' s' hs' (hid ▸ hins))
      have hsame := hk.eq_of_processing hq hq' hprocessing (by rw [hins]; rfl) hhash huser
      rw [← hsame, hphase] at hins
      cases hins
    · have hreturned := hk.holds q' hq'
      unfold Request.Holds at hreturned
      rw [hret] at hreturned
      have hfile := hreturned.2 s' hs' hid
      rw [(hclearing.2 s' hs').2 hid] at hfile
      cases hfile
  · exact hk.ids.sublist (List.filter_sublist.map _)
  · exact alone_goto hk.sound hk.alone hq fun _ q' hq' hne hhash huser ↦ by
      by_contra hother
      exact hne (hk.alone q' hq' q hq (by simpa using hother) hprocessing hhash huser)
  · unfold State.discard
    rw [forall_goto hk.sound hq]
    refine ⟨fun s' hs' ↦ ?_, fun q' hq' _ ↦ ?_⟩
    · obtain ⟨hmem, hne⟩ := hsub s' hs'
      by_contra hcontent
      exact hne (((hclearing.2 s' hmem).1).mp (by simpa using hcontent))
    · have hholds := hk.holds q' hq'
      unfold Request.Holds at hholds ⊢
      cases hphase' : q'.phase with
      | clearing id' =>
        rw [hphase'] at hholds
        exact ⟨hholds.1, fun s' hs' ↦ hholds.2 s' (hsub s' hs').1⟩
      | cleared =>
        rw [hphase'] at hholds
        exact fun s' hs' ↦ hholds s' (hsub s' hs').1
      | returned id' =>
        rw [hphase'] at hholds
        exact ⟨hholds.1, fun s' hs' ↦ hholds.2 s' (hsub s' hs').1⟩
      | _ => trivial

theorem State.Kept.insert (hk : s.Kept) (hq : q ∈ s.requests) (hphase : q.phase = .cleared) :
    (s.insert q).Kept := by
  have hcleared := hk.holds q hq
  unfold Request.Holds at hcleared
  rw [hphase] at hcleared
  have hprocessing : q.phase.processing = true := by
    rw [hphase]
    rfl
  constructor
  · exact hk.sound.insert hq
  · exact hk.deduped.insert hk.sound hq hcleared
  · show ((s.sources ++ [(⟨s.nextId, q.userId, q.contentHash, none⟩ : Source)]).map Source.id).Nodup
    rw [List.map_append, List.nodup_append_comm]
    refine List.nodup_cons.mpr ⟨fun hmem ↦ ?_, hk.ids⟩
    obtain ⟨s', hs', hid⟩ := List.mem_map.mp hmem
    exact absurd (hk.sound.ids s' hs') (Nat.not_lt.mpr (Nat.le_of_eq hid.symm))
  · exact alone_goto hk.sound hk.alone hq fun _ q' hq' hne hhash huser ↦ by
      by_contra hother
      exact hne (hk.alone q' hq' q hq (by simpa using hother) hprocessing hhash huser)
  · unfold State.insert
    rw [forall_goto hk.sound hq]
    refine ⟨by trivial, fun q' hq' hne ↦ ?_⟩
    have hother (hprocessing' : q'.phase.processing = true) :
        hasContent q'.contentHash q'.userId ⟨s.nextId, q.userId, q.contentHash, none⟩ = false := by
      by_contra hcontent
      simp only [hasContent, Bool.not_eq_false, decide_eq_true_eq] at hcontent
      exact hne (hk.alone q' hq' q hq hprocessing' hprocessing hcontent.1.symm hcontent.2.symm)
    have hholds := hk.holds q' hq'
    unfold Request.Holds at hholds ⊢
    cases hphase' : q'.phase with
    | clearing id' =>
      rw [hphase'] at hholds hother
      refine ⟨Nat.lt_succ_of_lt hholds.1, List.forall_mem_append.mpr ⟨hholds.2, ?_⟩⟩
      rw [List.forall_mem_singleton, hother rfl]
      exact ⟨⟨nofun, fun h ↦ absurd hholds.1 (Nat.not_lt.mpr (Nat.le_of_eq h))⟩, fun _ ↦ rfl⟩
    | cleared =>
      rw [hphase'] at hholds hother
      exact List.forall_mem_append.mpr ⟨hholds, List.forall_mem_singleton.mpr (hother rfl)⟩
    | returned id' =>
      rw [hphase'] at hholds
      refine ⟨Nat.lt_succ_of_lt hholds.1, List.forall_mem_append.mpr ⟨hholds.2, ?_⟩⟩
      rw [List.forall_mem_singleton]
      exact fun h ↦ absurd hholds.1 (Nat.not_lt.mpr (Nat.le_of_eq h))
    | _ => trivial

theorem State.Kept.write {id : Nat} {written : Bool} (hk : s.Kept) (hq : q ∈ s.requests)
    (hphase : q.phase = .inserted id) : (s.write q id written).Kept := by
  have hprocessing : q.phase.processing = true := by
    rw [hphase]
    rfl
  have hsound : (s.write q id written).Sound := hk.sound.write hq
  have hdeduped : (s.write q id written).Deduped := hk.deduped.write hk.sound hq hphase
  unfold State.write at hsound hdeduped ⊢
  split
  next hwritten =>
    have hgoto : (s.goto q.id .failed).Kept :=
      hk.goto hq (by simp) (.of_idle (by simp)) trivial nofun
    exact { hgoto with sound := { hgoto.sound with }, deduped := { hgoto.deduped with } }
  split
  next hwritten hrow =>
    rw [if_neg hwritten, if_pos hrow] at hsound hdeduped
    refine ⟨hsound, hdeduped, ?_, alone_goto hk.sound hk.alone hq nofun, ?_⟩
    · have hids : (setFile id q.content s.sources).map Source.id = s.sources.map Source.id :=
        Rows.map_modify fun _ _ _ ↦ rfl
      show ((setFile id q.content s.sources).map Source.id).Nodup
      rw [hids]
      exact hk.ids
    · rw [forall_goto hk.sound hq]
      refine ⟨⟨hk.sound.inserted q hq id hphase, ?_⟩, fun q' hq' hne ↦ ?_⟩
      · unfold setFile
        rw [Rows.forall_modify]
        exact ⟨fun _ _ _ _ ↦ rfl, fun s' _ hother h ↦ absurd h (by simpa using hother)⟩
      · have hholds := hk.holds q' hq'
        unfold Request.Holds at hholds ⊢
        cases hphase' : q'.phase with
        | clearing id' =>
          rw [hphase'] at hholds
          -- the row with the new file is of another content
          refine ⟨hholds.1, ?_⟩
          unfold setFile
          rw [Rows.forall_modify]
          refine ⟨fun s' hs' hid ↦ ⟨(hholds.2 s' hs').1, fun h ↦ ?_⟩,
            fun s' hs' _ ↦ hholds.2 s' hs'⟩
          have hid : s'.id = id := by simpa using hid
          obtain ⟨hhash, huser⟩ := key_of_hasContent (((hholds.2 s' hs').1).mpr h)
            (hk.sound.content q hq s' hs' (hid ▸ hphase))
          exact absurd (hk.alone q' hq' q hq (by rw [hphase']; rfl) hprocessing hhash huser) hne
        | cleared =>
          rw [hphase'] at hholds
          exact forall_setFile (fun _ _ h ↦ h) hholds
        | returned id' =>
          rw [hphase'] at hholds
          refine ⟨hholds.1, ?_⟩
          unfold setFile
          rw [Rows.forall_modify]
          exact ⟨fun _ _ _ _ ↦ rfl, fun s' hs' _ ↦ hholds.2 s' hs'⟩
        | _ => trivial
  next hwritten hrow =>
    rw [if_neg hwritten, if_neg hrow] at hsound hdeduped
    refine ⟨hsound, hdeduped, hk.ids, alone_goto hk.sound hk.alone hq nofun, ?_⟩
    rw [forall_goto hk.sound hq]
    exact ⟨trivial, fun q' hq' _ ↦ hk.holds q' hq'⟩

/-- Every step keeps the invariant, while the ingests of a content keep apart. -/
theorem kept_step {l : Label} (hk : s.Kept) (hapart : Apart s l) (h : step s l = some t) :
    t.Kept := by
  have hs := hk.sound
  cases l with
  | request r userId contentHash content =>
    have hsound := sound_step hs h
    obtain ⟨-, ht⟩ := Option.ite_none_left_eq_some.mp h
    cases ht
    refine ⟨hsound, .of_unique hk.deduped.unique ?_, hk.ids, ?_, ?_⟩
    · rw [List.forall_mem_cons]
      exact ⟨⟨nofun, nofun, nofun⟩, hk.deduped.request⟩
    · unfold State.Alone
      simp only [List.forall_mem_cons]
      exact ⟨⟨nofun, fun _ _ ↦ nofun⟩, fun q hq ↦ ⟨fun _ ↦ nofun, hk.alone q hq⟩⟩
    · rw [List.forall_mem_cons]
      exact ⟨trivial, hk.holds⟩
  | dedup r readable =>
    obtain ⟨q, hq, rfl, hnext⟩ := exists_of_bind hs h
    obtain ⟨-, ht⟩ := Option.ite_none_right_eq_some.mp hnext
    cases ht
    have hfound := (request?_eq_some hs).mpr ⟨hq, rfl⟩
    exact hk.goto hq lookUp_ne_inserted (right_lookUp hk.deduped) (holds_lookUp hk)
      fun _ q' hq' _ hhash huser ↦ hapart q hfound q' hq' hhash huser
  | discard r =>
    obtain ⟨q, hq, rfl, hnext⟩ := exists_of_bind hs h
    split at hnext
    next id hphase =>
      cases hnext
      exact hk.discard hq hphase
    · cases hnext
  | insert r =>
    obtain ⟨q, hq, rfl, hnext⟩ := exists_of_bind hs h
    obtain ⟨hphase, ht⟩ := Option.ite_none_right_eq_some.mp hnext
    cases ht
    exact hk.insert hq hphase
  | write r written =>
    obtain ⟨q, hq, rfl, hnext⟩ := exists_of_bind hs h
    split at hnext
    next id hphase =>
      cases hnext
      exact hk.write hq hphase
    · cases hnext
  | abort r =>
    obtain ⟨q, hq, rfl, hnext⟩ := exists_of_bind hs h
    obtain ⟨-, ht⟩ := Option.ite_none_right_eq_some.mp hnext
    cases ht
    exact hk.goto hq (by simp) (.of_idle (by simp)) trivial nofun
  | compile sourceId status =>
    obtain ⟨-, ht⟩ := Option.ite_none_right_eq_some.mp h
    cases ht
    exact { hk with sound := { hk.sound with }, deduped := { hk.deduped with } }

end

/-- In every interleaving in which the ingests of a content keep apart: each content keeps one
row, each ingest fares well and each look-up succeeds throughout, from every table without
duplicates. -/
theorem ingests_deduped_of_apart {s : State} (hs : s.Sound) (hd : s.Deduped)
    (hids : (s.sources.map Source.id).Nodup) (hstart : s.requests = []) {labels : List Label}
    (h : ingests.Guarded Apart s labels) : ingests.Always State.Deduped s labels :=
  (ingests.always_of_guarded (fun _ _ _ hk hapart hstep ↦ kept_step hk hapart hstep)
    ⟨hs, hd, hids, fun _ hq ↦ absurd (hstart ▸ hq) List.not_mem_nil,
      fun _ hq ↦ absurd (hstart ▸ hq) List.not_mem_nil⟩ h).mono _ fun _ hk ↦ hk.deduped

/-- A table without rows, before the first ingest. -/
def emptyState : State := ⟨[], 0, fun _ ↦ .pending, []⟩

private theorem emptyState_sound : emptyState.Sound := by
  constructor
  all_goals simp [emptyState]

private theorem emptyState_deduped : emptyState.Deduped :=
  .of_unique (by simp [emptyState]) (by simp [emptyState])

/-- An ingest of a text by a user. -/
def request (r : Nat) : Label := .request r "u" "hash" ⟨100, 25⟩

/-- An ingest dies before its file is written, a second one clears its row away, and a
third finds the row of the second. -/
theorem ingests_deduped_retry :
    ingests.Always State.Deduped emptyState
      [request 0, .dedup 0 true, .insert 0, .abort 0,
       request 1, .dedup 1 true, .discard 1, .insert 1, .write 1 true, .compile 1 .compiled,
       request 2, .dedup 2 true] :=
  ingests_deduped_of_apart emptyState_sound emptyState_deduped List.nodup_nil rfl
    (by decide +kernel)

/-- Two ingests look up before either inserts: both return a row of their own, and a third
ingest finds two. -/
theorem ingests_duplicate :
    ¬ ingests.Always State.Deduped emptyState
      [request 0, request 1, .dedup 0 true, .dedup 1 true, .insert 0, .insert 1,
       .write 0 true, .write 1 true, request 2, .dedup 2 true] := by
  intro h
  rw [Machine.always_iff_forall] at h
  have hlast := h _ (List.prefix_refl _) _ rfl
  exact (hlast.request _ (List.mem_cons_self ..)).raised rfl

end WikiMind.Ingest.Concurrent
