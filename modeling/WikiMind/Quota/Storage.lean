import WikiMind.Billing.Tables
import WikiMind.Quota.SourceQuota

/-!
# The storage counter

`StorageUsage.total_bytes` is a counter next to the source table: `reserve_storage`
(`services/quota.py:140`) reads it, `commit_storage` (`:166`) adds to it after an ingest
route got its source back (`api/routes/ingest.py:73–141`). Deletion does not touch it, and
no code inserts its row. Requests run one after the other here, each as a whole.
-/

namespace WikiMind.Quota

open WikiMind.Base WikiMind.Billing WikiMind.Ingest

/-- The sources, and `total_bytes` of the users that have a usage row (the user id is the
primary key). -/
structure Store where
  sources : List Source
  nextId : Nat
  usage : String → Option Nat

/-- Where an ingest fails, if it does: before the dedup check, when the content is
extracted or read back, when the file is written, or when compilation is scheduled. -/
inductive Fault where
  | fetch | extract | write | schedule
  deriving DecidableEq, Repr

/-- A request: an ingest with the content it brings, or the deletion of a source. -/
inductive Op where
  | ingest (entry : EntryPoint) (userId contentHash : String) (content : Content)
      (fault : Option Fault)
  | delete (userId : String) (sourceId : Nat)
  deriving DecidableEq, Repr

/-- Refuse a user whose recorded total is at the limit: `services/quota.py:140`. -/
def reserveStorage (usage : String → Option Nat) (userId : String) (plan : Plan) :
    Except Exc Unit :=
  match plan.maxStorageBytes.filter (· ≠ 0), usage userId with
  | none, _ => .ok ()
  | some _, none => .ok ()
  | some limit, some total =>
    if limit ≤ total then .error (.quotaExceeded "storage" total limit) else .ok ()

/-- Add bytes to the usage row of a user; an `UPDATE`, so nothing happens without a row.
`services/quota.py:166`. -/
def commitStorage (usage : String → Option Nat) (userId : String) (actualBytes : Nat) :
    String → Option Nat :=
  fun v ↦ if v = userId then (usage v).map (· + actualBytes) else usage v

/-- What the route charges for the source it got back, `none` if it makes no charge:
`api/routes/ingest.py:78, 120, 140`. -/
def charge (entry : EntryPoint) (content : Content) (source : Source) : Option Nat :=
  match entry with
  | .text | .pdf => some content.bytes
  | .url => if source.tokenCount = 0 then none else some (source.tokenCount * 4)
  | .captureIngest | .mcpUrl | .mcpText => none

namespace Store

/-- The quota checks before an ingest; there are none without a plan. -/
def accept (plan : String → Option Plan) (db : Store) (entry : EntryPoint) (userId : String) :
    Except Exc Unit :=
  match plan userId with
  | none => .ok ()
  | some p => do
    if entry.checksQuota then checkSourceQuota p.maxSources (owned userId db.sources)
    if entry.chargesStorage then reserveStorage db.usage userId p

/-- The new row of an adapter, and its file: `ingest/adapters/text.py:50–70`. -/
def insertSource (db : Store) (userId contentHash : String) (content : Content)
    (fault : Option Fault) : Except Exc Source × Store :=
  if fault = some .extract then (.error .valueError, db)
  else
    let written := fault ≠ some .write
    let source : Source := ⟨db.nextId, userId, contentHash, if written then some content else none⟩
    (if written then .ok source else .error (.runtimeError "File write failed"),
      { db with sources := db.sources ++ [source], nextId := db.nextId + 1 })

/-- An adapter: the dedup check, then a new row unless the content is there. -/
def adapt (db : Store) (userId contentHash : String) (content : Content)
    (fault : Option Fault) : Except Exc Source × Store :=
  if fault = some .fetch then (.error (.runtimeError "Failed to ingest URL"), db)
  else
    match checkSourceDedup db.sources contentHash userId with
    | .error e => (.error e, db)
    | .ok (.hit existing) =>
      (if fault = some .extract then .error .valueError else .ok existing, db)
    | .ok (.zombie existing) =>
      { db with sources := deleteRow existing.id db.sources }.insertSource userId contentHash
        content fault
    | .ok .fresh => db.insertSource userId contentHash content fault

/-- An ingest request from its checks to its charge. -/
def ingest (plan : String → Option Plan) (db : Store) (entry : EntryPoint)
    (userId contentHash : String) (content : Content) (fault : Option Fault) :
    Except Exc Source × Store :=
  match db.accept plan entry userId with
  | .error e => (.error e, db)
  | .ok () =>
    match db.adapt userId contentHash content fault with
    | (.error e, db') => (.error e, db')
    | (.ok source, db') =>
      if fault = some .schedule then (.error (.runtimeError "schedule_compile"), db')
      else
        match (plan userId).bind fun _ ↦ charge entry content source with
        | none => (.ok source, db')
        | some n => (.ok source, { db' with usage := commitStorage db'.usage userId n })

/-- The source a user may delete: `services/ingest.py:303–308`. -/
def deletable (db : Store) (userId : String) (sourceId : Nat) : Option Source :=
  (db.sources.find? fun s ↦ s.id = sourceId).filter fun s ↦ userId = "" ∨ s.userId = userId

/-- `delete_source`: `services/ingest.py:279`. -/
def deleteSource (db : Store) (userId : String) (sourceId : Nat) : Except Exc Unit × Store :=
  match db.deletable userId sourceId with
  | none => (.error (.notFound "Source not found"), db)
  | some source => (.ok (), { db with sources := deleteRow source.id db.sources })

/-- The state after a request, whatever its response. -/
def step (plan : String → Option Plan) (db : Store) : Op → Store
  | .ingest entry userId contentHash content fault =>
    (db.ingest plan entry userId contentHash content fault).2
  | .delete userId sourceId => (db.deleteSource userId sourceId).2

/-- Source ids are unique and below the next one. -/
def WF (db : Store) : Prop :=
  (db.sources.map Source.id).Nodup ∧ ∀ s ∈ db.sources, s.id < db.nextId

/-- The recorded storage total of a user, zero without a row. -/
def recorded (db : Store) (userId : String) : Nat := (db.usage userId).getD 0

end Store

/-- The bytes of the sources a user has. -/
def storedBytes (userId : String) (sources : List Source) : Nat :=
  ((sources.filter fun s ↦ s.userId = userId).map Source.bytes).sum

/-- The system of ingest and deletion requests under the plan of each user. -/
def storage (plan : String → Option Plan) : Machine Store Op := .ofFun (Store.step plan)

/-- The recorded total is what the user stores, and the storage check passes precisely
below the limit. -/
def Store.Exact (plan : String → Option Plan) (userId : String) (db : Store) : Prop :=
  db.recorded userId = storedBytes userId db.sources ∧
    ∀ p ∈ plan userId, ∀ limit ∈ p.maxStorageBytes,
      (reserveStorage db.usage userId p = .ok () ↔
        limit = 0 ∨ storedBytes userId db.sources < limit)

/-- A charge reaches the total of the user: there are a plan and a usage row, and the request
comes by a route that charges. -/
def Store.Counted (plan : String → Option Plan) (db : Store) (entry : EntryPoint)
    (userId : String) : Prop :=
  (plan userId).isSome = true ∧ (db.usage userId).isSome = true ∧ entry.chargesStorage = true

instance (plan : String → Option Plan) (db : Store) (entry : EntryPoint) (userId : String) :
    Decidable (db.Counted plan entry userId) := by unfold Store.Counted; infer_instance

/-- What keeps the total right where an accepted ingest finds its content stored, or stores it.
A repeated ingest comes by an uncounted route or user, or stops before its end, or its text or
file is empty, or the source has no tokens. A new content is counted, by a route for texts or
files or from a page whose tokens times four are its bytes, and does not stop between file and
charge; or it is empty. -/
def Store.Charges (plan : String → Option Plan) (db : Store) (entry : EntryPoint)
    (userId : String) (content : Content) (fault : Option Fault) : Except Exc Dedup → Prop
  | .error _ => True
  | .ok (.hit existing) =>
    fault = none ∨ fault = some .write → db.Counted plan entry userId →
      if entry = .url then existing.tokenCount = 0 else content.bytes = 0
  | .ok (.zombie _) | .ok .fresh =>
    (fault = none →
      if db.Counted plan entry userId then entry = .url → content.tokenCount * 4 = content.bytes
      else content.bytes = 0) ∧
    (fault = some .schedule → content.bytes = 0)

instance (plan : String → Option Plan) (db : Store) (entry : EntryPoint) (userId : String)
    (content : Content) (fault : Option Fault) :
    (d : Except Exc Dedup) → Decidable (db.Charges plan entry userId content fault d)
  | .error _ => .isTrue trivial
  | .ok (.hit _) | .ok (.zombie _) | .ok .fresh => by unfold Store.Charges; infer_instance

/-- The request moves no byte of the user past the counter: an accepted ingest is one whose
charge is right, and a deleted source has no bytes. -/
def Store.Accounts (plan : String → Option Plan) (userId : String) (db : Store) : Op → Prop
  | .ingest entry v contentHash content fault =>
    v = userId → db.accept plan entry v = .ok () →
      db.Charges plan entry v content fault (checkSourceDedup db.sources contentHash v)
  | .delete v sourceId =>
    ∀ source ∈ db.deletable v sourceId, source.userId = userId → source.bytes = 0

instance (plan : String → Option Plan) (userId : String) (db : Store) :
    (op : Op) → Decidable (db.Accounts plan userId op)
  | .ingest _ _ _ _ _ | .delete _ _ => by unfold Store.Accounts; infer_instance

section Bytes

variable {userId v : String} {sources : List Source}

/-- A new row counts for its owner only. -/
theorem storedBytes_append (s : Source) :
    storedBytes userId (sources ++ [s]) =
      storedBytes userId sources + if s.userId = userId then s.bytes else 0 := by
  unfold storedBytes
  by_cases h : s.userId = userId
  · simp [h]
  · simp [h]

/-- Deletion takes the bytes of the one row with the id. -/
theorem storedBytes_deleteRow (userId : String) {s : Source}
    (hnodup : (sources.map Source.id).Nodup)
    (hs : s ∈ sources) :
    storedBytes userId (deleteRow s.id sources) +
      (if s.userId = userId then s.bytes else 0) = storedBytes userId sources := by
  unfold storedBytes deleteRow
  induction sources with
  | nil => cases hs
  | cons x rest ih =>
    rw [List.map_cons, List.nodup_cons] at hnodup
    obtain ⟨hfresh, hrest⟩ := hnodup
    rcases List.mem_cons.mp hs with rfl | hmem
    · -- the row is the head, and no other row has its id
      have hkeep : rest.filter (fun y ↦ y.id ≠ s.id) = rest := by
        rw [List.filter_eq_self]
        intro y hy
        have hne : y.id ≠ s.id := fun heq ↦ hfresh (heq ▸ List.mem_map_of_mem hy)
        simpa using hne
      rw [List.filter_cons_of_neg (by simp), hkeep]
      by_cases h : s.userId = userId
      · simp [h]
        omega
      · simp [h]
    · have hne : x.id ≠ s.id := fun heq ↦ hfresh (heq ▸ List.mem_map_of_mem hmem)
      have htail := ih hrest hmem
      rw [List.filter_cons_of_pos (by simpa using hne)]
      by_cases h : x.userId = userId
      · simp only [List.filter_cons, h, decide_true, if_true, List.map_cons, List.sum_cons]
        omega
      · simp only [List.filter_cons, h, decide_false, Bool.false_eq_true, if_false]
        exact htail

/-- A charge adds to the row of its user, if there is one. -/
theorem getD_commitStorage (usage : String → Option Nat) (n : Nat) :
    (commitStorage usage v n userId).getD 0 =
      (usage userId).getD 0 + if v = userId ∧ (usage userId).isSome then n else 0 := by
  unfold commitStorage
  by_cases h : userId = v
  · subst h
    cases usage userId <;> simp
  · have hne : v ≠ userId := fun heq ↦ h heq.symm
    simp [h, hne]

/-- The storage check against a total that is what is stored. -/
theorem reserveStorage_ok_iff {usage : String → Option Nat} {p : Plan} {limit : Nat}
    (hlimit : p.maxStorageBytes = some limit) :
    reserveStorage usage userId p = .ok () ↔ limit = 0 ∨ (usage userId).getD 0 < limit := by
  unfold reserveStorage
  rw [hlimit]
  by_cases hzero : limit = 0
  · simp [hzero, Option.filter]
  · rw [Option.filter_some_pos (by simpa using hzero)]
    cases usage userId with
    | none =>
      simp [hzero]
      omega
    | some total =>
      by_cases hfull : limit ≤ total
      · simp [hzero, hfull]
      · simp [hzero, hfull]
        omega

end Bytes

namespace Store

variable {plan : String → Option Plan} {db : Store} {entry : EntryPoint}
  {userId v contentHash : String} {content : Content} {fault : Option Fault}

/-- The bytes a charge adds to the recorded total of a user: none without a plan or a row. -/
def chargeable (plan : String → Option Plan) (db : Store) (entry : EntryPoint)
    (userId : String) (content : Content) (source : Source) : Nat :=
  if (plan userId).isSome ∧ (db.usage userId).isSome then (charge entry content source).getD 0
  else 0

/-- What the routes charge: the request's size, or four bytes for each token of the source. -/
theorem chargeable_eq (plan : String → Option Plan) (db : Store) (entry : EntryPoint)
    (userId : String) (content : Content) (source : Source) :
    db.chargeable plan entry userId content source =
      if db.Counted plan entry userId then
        if entry = .url then source.tokenCount * 4 else content.bytes
      else 0 := by
  have htokens : (if source.tokenCount = 0 then none else some (source.tokenCount * 4)).getD 0 =
      source.tokenCount * 4 := by
    split
    · next hzero => simp [hzero]
    · rfl
  unfold chargeable Counted charge
  cases entry <;> simp [EntryPoint.chargesStorage, htokens]

/-- A repeated ingest charges nothing where it is not counted, or has no size. -/
theorem chargeable_hit_iff {existing : Source} :
    db.chargeable plan entry userId content existing = 0 ↔ (db.Counted plan entry userId →
      if entry = .url then existing.tokenCount = 0 else content.bytes = 0) := by
  rw [chargeable_eq]
  by_cases hcounted : db.Counted plan entry userId
  · simp [hcounted]
    split <;> simp
  · simp [hcounted]

/-- A new content is charged its size where it is counted, by its bytes or by tokens that amount
to them, or where it has none. -/
theorem chargeable_miss_iff {id : Nat} :
    db.chargeable plan entry userId content ⟨id, v, contentHash, some content⟩ = content.bytes ↔
      (if db.Counted plan entry userId then entry = .url → content.tokenCount * 4 = content.bytes
        else content.bytes = 0) := by
  rw [chargeable_eq]
  by_cases hcounted : db.Counted plan entry userId
  · by_cases hurl : entry = .url
    · subst hurl
      simp [hcounted, Source.tokenCount]
    · simp [hcounted, hurl]
  · simp [hcounted, eq_comm]

/-- An exact total makes the storage check exact. -/
theorem exact_iff_recorded :
    db.Exact plan userId ↔ db.recorded userId = storedBytes userId db.sources := by
  constructor
  · exact fun h ↦ h.1
  · intro h
    refine ⟨h, fun p _ limit hlimit ↦ ?_⟩
    rw [reserveStorage_ok_iff hlimit, ← h]
    rfl

/-- Deletion keeps the ids unique. -/
theorem WF.deleteRow (h : db.WF) (id : Nat) :
    { db with sources := Ingest.deleteRow id db.sources }.WF := by
  refine ⟨?_, fun s hs ↦ h.2 s (List.mem_of_mem_filter hs)⟩
  exact h.1.sublist (List.filter_sublist.map Source.id)

/-- A new row has a new id. -/
theorem WF.insertSource (h : db.WF) : (db.insertSource v contentHash content fault).2.WF := by
  unfold Store.insertSource
  split
  · exact h
  · refine ⟨?_, ?_⟩
    · rw [Rows.nodup_map_concat]
      exact ⟨h.1, fun s hs ↦ Nat.ne_of_lt (h.2 s hs)⟩
    · intro s hs
      rcases List.mem_append.mp hs with hold | hnew
      · have hbelow := h.2 s hold
        show s.id < db.nextId + 1
        omega
      · rw [List.mem_singleton] at hnew
        subst hnew
        show db.nextId < db.nextId + 1
        omega

/-- An adapter keeps the ids unique. -/
theorem WF.adapt (h : db.WF) : (db.adapt v contentHash content fault).2.WF := by
  unfold Store.adapt
  split
  · exact h
  · split
    · exact h
    · exact h
    · exact (h.deleteRow _).insertSource
    · exact h.insertSource

/-- Apart from the counter, an ingest leaves what its adapter leaves, unless it is refused. -/
theorem ingest_snd (plan : String → Option Plan) (db : Store) (entry : EntryPoint)
    (v contentHash : String) (content : Content) (fault : Option Fault) :
    ∃ usage, (db.ingest plan entry v contentHash content fault).2 =
      { (if db.accept plan entry v = .ok () then (db.adapt v contentHash content fault).2
          else db) with usage } := by
  unfold ingest
  cases haccept : db.accept plan entry v with
  | error e => exact ⟨db.usage, by simp⟩
  | ok u =>
    cases u
    rw [if_pos rfl]
    rcases hadapt : db.adapt v contentHash content fault with ⟨r, db'⟩
    cases r with
    | error e => exact ⟨db'.usage, rfl⟩
    | ok source =>
      dsimp only
      split
      · exact ⟨db'.usage, rfl⟩
      · split
        · exact ⟨db'.usage, rfl⟩
        · exact ⟨_, rfl⟩

/-- A request keeps the ids unique. -/
theorem WF.step (h : db.WF) (op : Op) : (db.step plan op).WF := by
  cases op with
  | ingest entry v contentHash content fault =>
    obtain ⟨usage, hsnd⟩ := ingest_snd plan db entry v contentHash content fault
    show (db.ingest plan entry v contentHash content fault).2.WF
    rw [hsnd]
    split
    · exact h.adapt
    · exact h
  | delete v sourceId =>
    show (db.deleteSource v sourceId).2.WF
    unfold deleteSource
    split
    · exact h
    · exact h.deleteRow _

/-- What a new row adds to the bytes of a user. -/
theorem storedBytes_insertSource : storedBytes userId
      (db.insertSource v contentHash content fault).2.sources = storedBytes userId db.sources +
        if v = userId ∧ fault ≠ some .extract ∧ fault ≠ some .write then content.bytes else 0 := by
  unfold insertSource
  by_cases hextract : fault = some .extract
  · simp [hextract]
  · rw [if_neg hextract]
    simp only [storedBytes_append, Source.bytes]
    by_cases hv : v = userId
    · by_cases hwrite : fault = some .write <;> simp [hv, hwrite, hextract]
    · simp [hv]

/-- Past the dedup check an adapter inserts its row, after it deleted one without bytes
where it found one. -/
theorem adapt_of_miss (userId : String) (content : Content) (hwf : db.WF)
    (hfetch : fault ≠ some .fetch) {d : Dedup}
    (hdedup : checkSourceDedup db.sources contentHash v = .ok d)
    (hmiss : ∀ existing, d ≠ .hit existing) :
    ∃ sources, db.adapt v contentHash content fault =
        { db with sources }.insertSource v contentHash content fault ∧
      storedBytes userId sources = storedBytes userId db.sources := by
  unfold adapt
  rw [if_neg hfetch, hdedup]
  cases d with
  | hit existing => exact absurd rfl (hmiss existing)
  | fresh => exact ⟨db.sources, rfl, rfl⟩
  | zombie existing =>
    refine ⟨Ingest.deleteRow existing.id db.sources, rfl, ?_⟩
    obtain ⟨hmem, _, _, hfile⟩ := zombie_of_checkSourceDedup hdedup
    have hzero : existing.bytes = 0 := by
      unfold Source.hasFile at hfile
      rw [Option.isSome_eq_false_iff, Option.isNone_iff_eq_none] at hfile
      simp [Source.bytes, hfile]
    have hdelete := storedBytes_deleteRow userId hwf.1 hmem
    rw [hzero] at hdelete
    simpa using hdelete

/-- What an ingest that got its source back adds to the recorded totals. -/
theorem recorded_of_adapt_ok {db' : Store} {source : Source}
    (haccept : db.accept plan entry v = .ok ())
    (hadapt : db.adapt v contentHash content fault = (.ok source, db'))
    (husage : db'.usage = db.usage) (hschedule : fault ≠ some .schedule) :
    (db.ingest plan entry v contentHash content fault).2.recorded userId =
      db.recorded userId +
        if v = userId then db.chargeable plan entry v content source else 0 := by
  unfold ingest recorded chargeable
  rw [haccept, hadapt]
  simp only [if_neg hschedule]
  cases plan v with
  | none => simp [husage]
  | some p =>
    cases charge entry content source with
    | none => simp [husage]
    | some n =>
      simp only [Option.bind_some, husage, getD_commitStorage, Option.isSome_some, true_and,
        Option.getD_some]
      by_cases hv : v = userId
      · simp [hv]
      · simp [hv]

/-- An ingest that does not get its source back leaves the recorded totals. -/
theorem recorded_of_adapt_error (plan : String → Option Plan) (entry : EntryPoint)
    (userId : String) {db' : Store} {r : Except Exc Source}
    (hadapt : db.adapt v contentHash content fault = (r, db')) (husage : db'.usage = db.usage)
    (hfail : (∃ e, r = .error e) ∨ fault = some .schedule) :
    (db.ingest plan entry v contentHash content fault).2.recorded userId = db.recorded userId := by
  unfold ingest recorded
  cases db.accept plan entry v with
  | error e => rfl
  | ok u =>
    rw [hadapt]
    rcases hfail with ⟨e, rfl⟩ | rfl
    · simp [husage]
    · cases r <;> simp [husage]

private theorem sources_of_accept (contentHash : String) (content : Content)
    (fault : Option Fault) (haccept : db.accept plan entry v = .ok ()) :
    (db.ingest plan entry v contentHash content fault).2.sources =
      (db.adapt v contentHash content fault).2.sources := by
  obtain ⟨usage, hsnd⟩ := ingest_snd plan db entry v contentHash content fault
  rw [hsnd, if_pos haccept]

/-- An ingest that finds its content stored keeps the total exact precisely when it
charges nothing. -/
theorem exact_hit {existing : Source} (hexact : db.recorded userId = storedBytes userId db.sources)
    (haccept : db.accept plan entry v = .ok ()) (hfetch : fault ≠ some .fetch)
    (hdedup : checkSourceDedup db.sources contentHash v = .ok (.hit existing)) :
    ((db.ingest plan entry v contentHash content fault).2.recorded userId =
        storedBytes userId (db.ingest plan entry v contentHash content fault).2.sources) ↔
      (v = userId → db.Charges plan entry v content fault (.ok (.hit existing))) := by
  unfold Charges
  have hadapt : db.adapt v contentHash content fault =
      (if fault = some .extract then .error .valueError else .ok existing, db) := by
    unfold adapt
    rw [if_neg hfetch, hdedup]
  rw [sources_of_accept contentHash content _ haccept, hadapt]
  by_cases hstop : fault = some .extract ∨ fault = some .schedule
  · have hrecorded := recorded_of_adapt_error plan entry userId
      hadapt rfl (hstop.imp (fun h ↦ ⟨.valueError, if_pos h⟩) id)
    rw [hrecorded]
    rcases hstop with rfl | rfl <;> simp [hexact]
  · obtain ⟨hextract, hschedule⟩ := not_or.mp hstop
    rw [if_neg hextract] at hadapt
    rw [recorded_of_adapt_ok haccept hadapt rfl hschedule]
    have hgoes : fault = none ∨ fault = some .write := by
      match fault with
      | none => exact .inl rfl
      | some .write => exact .inr rfl
      | some .fetch | some .extract | some .schedule => simp_all
    by_cases hv : v = userId
    · simp only [hv, if_true, hgoes, forall_const, ← chargeable_hit_iff]
      omega
    · simp [hv, hexact]

/-- An ingest that stores its content keeps the total exact precisely when it charges the
size stored. -/
theorem exact_miss (hwf : db.WF) {d : Dedup}
    (hexact : db.recorded userId = storedBytes userId db.sources)
    (haccept : db.accept plan entry v = .ok ()) (hfetch : fault ≠ some .fetch)
    (hdedup : checkSourceDedup db.sources contentHash v = .ok d)
    (hmiss : ∀ existing, d ≠ .hit existing) :
    ((db.ingest plan entry v contentHash content fault).2.recorded userId =
        storedBytes userId (db.ingest plan entry v contentHash content fault).2.sources) ↔
      (v = userId → db.Charges plan entry v content fault (.ok d)) := by
  have hcharges : db.Charges plan entry v content fault (.ok d) ↔
      (fault = none → db.chargeable plan entry v content
        ⟨db.nextId, v, contentHash, some content⟩ = content.bytes) ∧
      (fault = some .schedule → content.bytes = 0) := by
    cases d with
    | hit existing => exact absurd rfl (hmiss existing)
    | zombie _ | fresh => simp only [Charges, chargeable_miss_iff]
  rw [hcharges]
  obtain ⟨sources, hadapt, hbytes⟩ :=
    adapt_of_miss userId content hwf hfetch hdedup hmiss
  rw [sources_of_accept contentHash content _ haccept, hadapt, storedBytes_insertSource]
  simp only [hbytes]
  match fault with
  | none =>
    rw [recorded_of_adapt_ok haccept hadapt rfl (by simp)]
    by_cases hv : v = userId
    · simp [hv]
      omega
    · simp [hv, hexact]
  | some .schedule =>
    rw [recorded_of_adapt_error plan entry userId hadapt rfl (.inr rfl)]
    by_cases hv : v = userId
    · simp [hv]
      omega
    · simp [hv, hexact]
  | some .extract =>
    rw [recorded_of_adapt_error plan entry userId hadapt rfl (.inl ⟨_, rfl⟩)]
    simp [hexact]
  | some .write =>
    rw [recorded_of_adapt_error plan entry userId hadapt rfl (.inl ⟨_, rfl⟩)]
    simp [hexact]
  | some .fetch => exact absurd rfl hfetch

/-- A deletion keeps the total exact precisely when it deletes no bytes of the user. -/
theorem exact_delete (hwf : db.WF) {sourceId : Nat}
    (hexact : db.recorded userId = storedBytes userId db.sources) :
    ((db.deleteSource v sourceId).2.recorded userId =
        storedBytes userId (db.deleteSource v sourceId).2.sources) ↔
      ∀ source ∈ db.deletable v sourceId, source.userId = userId → source.bytes = 0 := by
  unfold deleteSource
  cases hdel : db.deletable v sourceId with
  | none => simp [hexact]
  | some source =>
    have hmem : source ∈ db.sources := by
      unfold deletable at hdel
      exact List.mem_of_find?_eq_some (Option.filter_eq_some_iff.mp hdel).1
    have hbytes := storedBytes_deleteRow userId hwf.1 hmem
    have hsame : (⟨Ingest.deleteRow source.id db.sources, db.nextId, db.usage⟩ : Store).recorded
        userId = db.recorded userId := rfl
    simp only [hsame, Option.mem_def, Option.some.injEq, forall_eq']
    by_cases hu : source.userId = userId
    · simp only [hu, if_true, forall_const] at hbytes ⊢
      omega
    · simp only [hu, if_false, Nat.add_zero, false_implies, iff_true] at hbytes ⊢
      omega

/-- One request keeps the total exact precisely when it accounts for its bytes. -/
theorem exact_step (hwf : db.WF) (op : Op)
    (hexact : db.recorded userId = storedBytes userId db.sources) :
    (db.step plan op).recorded userId = storedBytes userId (db.step plan op).sources ↔
      db.Accounts plan userId op := by
  cases op with
  | delete v sourceId => exact exact_delete hwf hexact
  | ingest entry v contentHash content fault =>
    unfold Accounts
    by_cases haccept : db.accept plan entry v = .ok ()
    · by_cases hfetch : fault = some .fetch
      · subst hfetch
        have hadapt : db.adapt v contentHash content (some .fetch) =
            (.error (.runtimeError "Failed to ingest URL"), db) := rfl
        have hsources := sources_of_accept contentHash content (some .fetch) haccept
        have hrecorded := recorded_of_adapt_error plan entry userId
          hadapt rfl (.inl ⟨_, rfl⟩)
        simp only [Store.step, hsources, hadapt, hrecorded, hexact, true_iff]
        intro _ _
        unfold Charges
        split <;> simp
      · cases hdedup : checkSourceDedup db.sources contentHash v with
        | error e =>
          have hadapt : db.adapt v contentHash content fault = (.error e, db) := by
            unfold adapt
            rw [if_neg hfetch, hdedup]
          have hrecorded := recorded_of_adapt_error plan entry userId
            hadapt rfl (.inl ⟨_, rfl⟩)
          simp [Store.step, sources_of_accept contentHash content _ haccept, hadapt, hrecorded,
            hexact, hdedup, Charges]
        | ok d =>
          cases d with
          | hit existing =>
            simp only [haccept, hdedup, forall_const]
            exact exact_hit hexact haccept hfetch hdedup
          | zombie existing =>
            simp only [haccept, hdedup, forall_const]
            exact exact_miss hwf hexact haccept hfetch hdedup (by simp)
          | fresh =>
            simp only [haccept, hdedup, forall_const]
            exact exact_miss hwf hexact haccept hfetch hdedup (by simp)
    · have hstep : db.step plan (.ingest entry v contentHash content fault) = db := by
        show (db.ingest plan entry v contentHash content fault).2 = db
        unfold ingest
        cases h : db.accept plan entry v with
        | error e => rfl
        | ok u => exact absurd h haccept
      simp [haccept, hstep, hexact]

end Store

/-- In every run of ingests and deletions the recorded total of a user is what the user
stores, and the storage check exact, precisely when it is so at the start and every
request accounts for the bytes it moves. -/
theorem storage_exact_iff (plan : String → Option Plan) (userId : String) (db : Store)
    (ops : List Op) (hwf : db.WF) :
    (storage plan).Always (Store.Exact plan userId) db ops ↔
      db.Exact plan userId ∧ (storage plan).Guarded (Store.Accounts plan userId) db ops := by
  refine (storage plan).always_iff_guarded (W := Store.WF) ?_ ?_ hwf ops
  · intro s op t hs hstep
    cases hstep
    exact hs.step op
  · intro s op t hs hexact hstep
    cases hstep
    rw [Store.exact_iff_recorded]
    exact Store.exact_step hs op hexact.1

/-- A store with an empty usage row for a user. -/
def emptyStore (userId : String) : Store := ⟨[], 0, fun v ↦ if v = userId then some 0 else none⟩

/-- Two texts, one refused write and the deletion of the row it left: the total is exact
throughout. -/
theorem storage_exact_twoTexts :
    (storage fun _ ↦ some (freePlan "free")).Always
      (Store.Exact (fun _ ↦ some (freePlan "free")) "u") (emptyStore "u")
      [.ingest .text "u" "a" ⟨30, 7⟩ none, .ingest .text "u" "b" ⟨12, 3⟩ (some .write),
       .delete "u" 1, .ingest .pdf "u" "c" ⟨500, 90⟩ none] := by
  refine (storage_exact_iff _ _ _ _ ⟨by decide, by decide⟩).mpr
    ⟨Store.exact_iff_recorded.mpr rfl, ?_⟩
  decide

/-- The recorded total and the stored bytes of a user after a run, with the decision of the
storage check for a plan that allows ten bytes. -/
def totalsAfter (db : Store) (ops : List Op) : Option (Nat × Nat × Except Exc Unit) :=
  let tenBytes := { freePlan "free" with maxStorageBytes := some 10 }
  ((storage fun _ ↦ some tenBytes).run db ops).map fun t ↦
    (t.recorded "u", storedBytes "u" t.sources, reserveStorage t.usage "u" tenBytes)

/-- Nothing is recorded without a usage row; a re-ingest of stored content is charged
again; a deletion releases nothing, and a user with nothing stored is refused. -/
theorem storage_inexact :
    totalsAfter ⟨[], 0, fun _ ↦ none⟩ [.ingest .text "u" "a" ⟨30, 7⟩ none] =
      some (0, 30, .ok ()) ∧
    totalsAfter (emptyStore "u")
      [.ingest .text "u" "a" ⟨6, 1⟩ none, .ingest .text "u" "a" ⟨6, 1⟩ none] =
      some (12, 6, .error (.quotaExceeded "storage" 12 10)) ∧
    totalsAfter (emptyStore "u")
      [.ingest .text "u" "a" ⟨30, 7⟩ none, .delete "u" 0] =
      some (30, 0, .error (.quotaExceeded "storage" 30 10)) := by
  decide

end WikiMind.Quota
