import WikiMind.Base.Run
import WikiMind.Ingest.Sources

/-!
# Source quota under concurrent ingest

`check_source_quota` (`services/quota.py:105`) takes a lock that lives as long as the
transaction, counts the user's sources and lets the request go on; the row is inserted
and committed by an adapter much later. The transition system has one step for each
part of a request that commits or takes the lock, in any interleaving of any number of
requests and deletions. Lock waiting is a step that is not enabled.
-/

namespace WikiMind.Quota

open WikiMind.Base WikiMind.Ingest

/-- Where an ingest request stands: past the entry checks, past the dedup check, or with
its row committed and the file still to be written. -/
inductive Phase where
  | admitted | cleared
  | inserted (sourceId : Nat)
  deriving DecidableEq, Repr

/-- An ingest request in flight. -/
structure IngestRequest where
  userId : String
  contentHash : String
  content : Content
  phase : Phase
  deriving DecidableEq, Repr

/-- The sources, the captures that wait for promotion, the advisory lock of each user, and
the requests in flight. -/
structure State where
  sources : List Source
  nextId : Nat
  captures : List (String × String)
  lock : String → Option Nat
  requests : Nat → Option IngestRequest

/-- The steps of the system. A request has a fresh number of its own. -/
inductive Label where
  | capture (userId contentHash : String)
  | request (r : Nat) (entry : EntryPoint) (userId contentHash : String)
    (content : Content)
  | dedup (r : Nat)
  | insert (r : Nat)
  | fileWritten (r : Nat)
  | abort (r : Nat)
  | delete (sourceId : Nat)
  deriving DecidableEq, Repr

/-- The decision of `check_source_quota` for the plan's limit and the count: nothing to
do for a limit that is falsy, else the count has to be below it. `services/quota.py:105`. -/
def checkSourceQuota (maxSources : Option Nat) (count : Nat) : Except Exc Unit :=
  match maxSources.filter (· ≠ 0) with
  | none => .ok ()
  | some limit => if limit ≤ count then .error (.quotaExceeded "source" count limit) else .ok ()

/-- Whether the check takes the lock: `services/quota.py:107–110`. -/
def takesLock (entry : EntryPoint) (maxSources : Option Nat) : Bool :=
  entry.checksQuota && (maxSources.filter (· ≠ 0)).isSome

namespace State

/-- The end of a transaction releases the locks its request holds. -/
def release (s : State) (r : Nat) : State :=
  { s with lock := fun userId ↦ if s.lock userId = some r then none else s.lock userId }

/-- A request goes on to a phase. -/
def setRequest (s : State) (r : Nat) (req : IngestRequest) : State :=
  { s with requests := fun n ↦ if n = r then some req else s.requests n }

/-- A request is over, with its transaction. -/
def drop (s : State) (r : Nat) : State :=
  { s.release r with requests := fun n ↦ if n = r then none else s.requests n }

/-- A request arrives. Checked entries wait for the lock of their user, if the plan has a
limit, and are refused when the user is at the limit. -/
def arrive (maxSources : String → Option Nat) (s : State) (r : Nat) (entry : EntryPoint)
    (req : IngestRequest) : Option State :=
  if (s.requests r).isSome then none
  else if entry = .captureIngest ∧ (req.userId, req.contentHash) ∉ s.captures then none
  else if takesLock entry (maxSources req.userId) then
    if (s.lock req.userId).isSome then none
    else
      match checkSourceQuota (maxSources req.userId) (owned req.userId s.sources) with
      | .error _ => some s
      | .ok () => some { s.setRequest r req with
          lock := fun userId ↦ if userId = req.userId then some r else s.lock userId }
  else some (s.setRequest r req)

/-- The dedup check: a hit ends the request without a new row; a row without file is
deleted, and that commit ends the transaction. `ingest/utils.py:362`. -/
def dedup (s : State) (r : Nat) (req : IngestRequest) : State :=
  match checkSourceDedup s.sources req.contentHash req.userId with
  | .error _ | .ok (.hit _) => s.drop r
  | .ok .fresh => s.setRequest r { req with phase := .cleared }
  | .ok (.zombie existing) =>
    { (s.release r).setRequest r { req with phase := .cleared } with
      sources := deleteRow existing.id s.sources }

/-- Insert and commit the row: `ingest/adapters/text.py:50–59` and its siblings. -/
def insert (s : State) (r : Nat) (req : IngestRequest) : State :=
  { (s.release r).setRequest r { req with phase := .inserted s.nextId } with
    sources := s.sources ++ [⟨s.nextId, req.userId, req.contentHash, none⟩]
    nextId := s.nextId + 1 }

end State

/-- One step; `none` when it is not enabled. -/
def step (maxSources : String → Option Nat) (s : State) : Label → Option State
  | .capture userId contentHash => some { s with captures := (userId, contentHash) :: s.captures }
  | .request r entry userId contentHash content =>
    s.arrive maxSources r entry ⟨userId, contentHash, content, .admitted⟩
  | .dedup r =>
    match s.requests r with
    | some req => if req.phase = .admitted then some (s.dedup r req) else none
    | none => none
  | .insert r =>
    match s.requests r with
    | some req => if req.phase = .cleared then some (s.insert r req) else none
    | none => none
  | .fileWritten r =>
    match s.requests r with
    | some req =>
      match req.phase with
      | .inserted id => some { s.drop r with sources := setFile id req.content s.sources }
      | _ => none
    | none => none
  | .abort r => if (s.requests r).isSome then some (s.drop r) else none
  | .delete id => some { s with sources := deleteRow id s.sources }

/-- The ingest system with the plan limit of each user. -/
def ingest (maxSources : String → Option Nat) : Machine State Label := ⟨step maxSources⟩

/-- The request may still insert a row. -/
def IngestRequest.Pending (req : IngestRequest) : Prop :=
  req.phase = .admitted ∨ req.phase = .cleared

/-- Whoever may still insert a row for the user holds the user's lock, and then the user
is below the limit. -/
def LockedBelow (userId : String) (limit : Nat) (s : State) : Prop :=
  ∀ r req, s.requests r = some req → req.userId = userId → req.Pending →
    s.lock userId = some r ∧ owned userId s.sources < limit

/-- The step keeps the check effective for the user: a request that arrives comes by a
path with quota check under a limit that is not zero, and a dedup check meets no row of
its content without file. -/
def KeepsCheck (userId : String) (maxSources : String → Option Nat) (s : State) : Label → Prop
  | .request _ entry v _ _ =>
    v = userId → entry.checksQuota = true ∧ maxSources userId ≠ some 0
  | .dedup r => ∀ req ∈ s.requests r, req.userId = userId →
      ∀ row ∈ s.sources, row.userId = userId → row.contentHash = req.contentHash →
        row.hasFile = true
  | _ => True

instance (userId : String) (maxSources : String → Option Nat) (s : State) :
    (l : Label) → Decidable (KeepsCheck userId maxSources s l)
  | .request _ _ _ _ _ => by unfold KeepsCheck; infer_instance
  | .dedup _ => by unfold KeepsCheck; infer_instance
  | .capture _ _ | .insert _ | .fileWritten _ | .abort _ | .delete _ => .isTrue trivial

/-- The step does not take the user above the limit. -/
def StaysBelow (userId : String) (limit : Nat) (s : State) (_ : Label) (t : State) : Prop :=
  owned userId t.sources ≤ limit ∨ owned userId t.sources ≤ owned userId s.sources

section Steps

variable {userId : String} {limit : Nat} {maxSources : String → Option Nat} {s t : State}

private theorem lock_release {r n : Nat} (hne : n ≠ r) (h : s.lock userId = some n) :
    (s.release r).lock userId = some n := by
  simp only [State.release, h, Option.some.injEq, hne, if_false]

-- All requests but `r` are as before; what is left to check is `r` itself.
private theorem lockedBelow_of_frame {r : Nat} (h : LockedBelow userId limit s)
    (hrequests : ∀ n, n ≠ r → t.requests n = s.requests n)
    (hlock : ∀ n, n ≠ r → s.lock userId = some n → t.lock userId = some n)
    (howned : owned userId t.sources ≤ owned userId s.sources)
    (hr : ∀ req, t.requests r = some req → req.userId = userId → req.Pending →
      t.lock userId = some r ∧ owned userId t.sources < limit) :
    LockedBelow userId limit t := by
  intro n req hreq huser hpending
  by_cases hn : n = r
  · subst hn
    exact hr req hreq huser hpending
  · rw [hrequests n hn] at hreq
    obtain ⟨hheld, hbelow⟩ := h n req hreq huser hpending
    exact ⟨hlock n hn hheld, by omega⟩

private theorem lockedBelow_drop {r : Nat} (h : LockedBelow userId limit s) (sources : List Source)
    (howned : owned userId sources ≤ owned userId s.sources) :
    LockedBelow userId limit { s.drop r with sources } := by
  apply lockedBelow_of_frame (r := r) h
  · intro n hn
    simp only [State.drop, hn, if_false]
  · intro n hn hheld
    exact lock_release hn hheld
  · exact howned
  · intro req hreq
    simp [State.drop] at hreq

private theorem checkSourceQuota_ok {count : Nat} (hlimit : limit ≠ 0)
    (h : checkSourceQuota (some limit) count = .ok ()) : count < limit := by
  unfold checkSourceQuota at h
  rw [Option.filter_some_pos (by simpa using hlimit)] at h
  dsimp only at h
  split at h
  · cases h
  · omega

/-- An arrival through a checked entry leaves its request with the lock, below the limit. -/
theorem lockedBelow_arrive {r : Nat} {entry : EntryPoint} {req : IngestRequest}
    (hmax : maxSources userId = some limit) (h : LockedBelow userId limit s)
    (hstep : s.arrive maxSources r entry req = some t)
    (hguard : req.userId = userId → entry.checksQuota = true ∧ maxSources userId ≠ some 0) :
    LockedBelow userId limit t ∧ t.sources = s.sources := by
  unfold State.arrive at hstep
  split at hstep
  · cases hstep
  next hfresh =>
  split at hstep
  · cases hstep
  split at hstep
  · next htakes =>
    split at hstep
    · cases hstep
    next hfree =>
    split at hstep
    · cases hstep
      exact ⟨h, rfl⟩
    · next hcheck =>
      cases hstep
      refine ⟨lockedBelow_of_frame (r := r) h ?_ ?_ (Nat.le_refl _) ?_, rfl⟩
      · intro n hn
        simp only [State.setRequest, hn, if_false]
      · intro n hn hheld
        by_cases huser : userId = req.userId
        · subst huser
          simp [hheld] at hfree
        · simp only [huser, if_false, hheld]
      · intro req' hreq' huser _
        simp only [State.setRequest, if_true, Option.some.injEq] at hreq'
        subst hreq'
        subst huser
        refine ⟨by simp, ?_⟩
        rw [hmax] at hcheck
        refine checkSourceQuota_ok (fun hzero ↦ ?_) hcheck
        exact (hguard rfl).2 (by rw [hmax, hzero])
  · next hnot =>
    cases hstep
    refine ⟨lockedBelow_of_frame (r := r) h ?_ (fun _ _ hheld ↦ hheld) (Nat.le_refl _) ?_, rfl⟩
    · intro n hn
      simp only [State.setRequest, hn, if_false]
    · intro req' hreq' huser _
      simp only [State.setRequest, if_true, Option.some.injEq] at hreq'
      subst hreq'
      obtain ⟨hchecks, hzero⟩ := hguard huser
      rw [huser, hmax] at hnot
      rw [hmax] at hzero
      simp [takesLock, hchecks, Option.filter] at hnot
      simp [hnot] at hzero

/-- A dedup check that deletes no row of the user keeps lock and count together. -/
theorem lockedBelow_dedup {r : Nat} {req : IngestRequest} (hreq : s.requests r = some req)
    (hphase : req.phase = .admitted)
    (hguard : req.userId = userId → ∀ row ∈ s.sources, row.userId = userId →
      row.contentHash = req.contentHash → row.hasFile = true)
    (h : LockedBelow userId limit s) :
    LockedBelow userId limit (s.dedup r req) ∧
      owned userId (s.dedup r req).sources ≤ owned userId s.sources := by
  have hkept : LockedBelow userId limit (s.setRequest r { req with phase := .cleared }) := by
    apply lockedBelow_of_frame (r := r) h
    · intro n hn
      simp only [State.setRequest, hn, if_false]
    · exact fun _ _ hheld ↦ hheld
    · exact Nat.le_refl _
    · intro req' hreq' huser _
      simp only [State.setRequest, if_true, Option.some.injEq] at hreq'
      subst hreq'
      exact h r req hreq huser (.inl hphase)
  unfold State.dedup
  split
  · exact ⟨lockedBelow_drop h s.sources (Nat.le_refl _), Nat.le_refl _⟩
  · exact ⟨lockedBelow_drop h s.sources (Nat.le_refl _), Nat.le_refl _⟩
  · exact ⟨hkept, Nat.le_refl _⟩
  · next existing hzombie =>
    obtain ⟨hmem, hhash, hother, hfile⟩ := zombie_of_checkSourceDedup hzombie
    have hforeign : req.userId ≠ userId := by
      intro huser
      have hhas := hguard huser existing hmem (hother.trans huser) hhash
      rw [hfile] at hhas
      cases hhas
    refine ⟨?_, owned_deleteRow_le userId existing.id s.sources⟩
    apply lockedBelow_of_frame (r := r) h
    · intro n hn
      simp only [State.setRequest, State.release, hn, if_false]
    · exact fun n hn hheld ↦ lock_release hn hheld
    · exact owned_deleteRow_le userId existing.id s.sources
    · intro req' hreq' huser
      simp only [State.setRequest, if_true, Option.some.injEq] at hreq'
      subst hreq'
      exact absurd huser hforeign

/-- An insertion for the user comes from the holder of the lock, so it stays within the
limit and nobody else may insert. -/
theorem lockedBelow_insert {r : Nat} {req : IngestRequest} (hreq : s.requests r = some req)
    (hphase : req.phase = .cleared) (h : LockedBelow userId limit s) :
    LockedBelow userId limit (s.insert r req) ∧
      (owned userId (s.insert r req).sources ≤ limit ∨
        owned userId (s.insert r req).sources ≤ owned userId s.sources) := by
  have howned : owned userId (s.insert r req).sources =
      owned userId s.sources + if req.userId = userId then 1 else 0 :=
    owned_append userId s.sources _
  by_cases huser : req.userId = userId
  · obtain ⟨hheld, hbelow⟩ := h r req hreq huser (.inr hphase)
    rw [if_pos huser] at howned
    refine ⟨?_, by omega⟩
    intro n req' hreq' huser' hpending
    by_cases hn : n = r
    · subst hn
      simp only [State.insert, State.setRequest, if_true, Option.some.injEq] at hreq'
      subst hreq'
      simp [IngestRequest.Pending] at hpending
    · simp only [State.insert, State.setRequest, State.release, hn, if_false] at hreq'
      obtain ⟨hheld', _⟩ := h n req' hreq' huser' hpending
      rw [hheld] at hheld'
      exact absurd (Option.some.inj hheld').symm hn
  · rw [if_neg huser] at howned
    refine ⟨?_, by omega⟩
    apply lockedBelow_of_frame (r := r) h
    · intro n hn
      simp only [State.insert, State.setRequest, State.release, hn, if_false]
    · exact fun n hn hheld ↦ lock_release hn hheld
    · omega
    · intro req' hreq' huser'
      simp only [State.insert, State.setRequest, if_true, Option.some.injEq] at hreq'
      subst hreq'
      exact absurd huser' huser

/-- One step that keeps the check effective. -/
theorem lockedBelow_step {l : Label} (hmax : maxSources userId = some limit)
    (hguard : KeepsCheck userId maxSources s l) (h : LockedBelow userId limit s)
    (hstep : step maxSources s l = some t) :
    LockedBelow userId limit t ∧ StaysBelow userId limit s l t := by
  unfold StaysBelow
  cases l with
  | capture v contentHash =>
    cases hstep
    exact ⟨h, .inr (Nat.le_refl _)⟩
  | request r entry v contentHash content =>
    obtain ⟨hlocked, hsources⟩ := lockedBelow_arrive hmax h hstep hguard
    rw [hsources]
    exact ⟨hlocked, .inr (Nat.le_refl _)⟩
  | dedup r =>
    simp only [step] at hstep
    split at hstep
    · next req hreq =>
      split at hstep
      · next hphase =>
        cases hstep
        obtain ⟨hlocked, howned⟩ := lockedBelow_dedup hreq hphase (hguard req hreq) h
        exact ⟨hlocked, .inr howned⟩
      · cases hstep
    · cases hstep
  | insert r =>
    simp only [step] at hstep
    split at hstep
    · next req hreq =>
      split at hstep
      · next hphase =>
        cases hstep
        exact lockedBelow_insert hreq hphase h
      · cases hstep
    · cases hstep
  | fileWritten r =>
    simp only [step] at hstep
    split at hstep
    · next req hreq =>
      split at hstep
      · next id hphase =>
        cases hstep
        have howned := Nat.le_of_eq (owned_setFile userId id req.content s.sources)
        exact ⟨lockedBelow_drop h _ howned, .inr howned⟩
      · cases hstep
    · cases hstep
  | abort r =>
    simp only [step] at hstep
    split at hstep
    · cases hstep
      exact ⟨lockedBelow_drop h s.sources (Nat.le_refl _), .inr (Nat.le_refl _)⟩
    · cases hstep
  | delete id =>
    cases hstep
    have howned := owned_deleteRow_le userId id s.sources
    refine ⟨fun n req hreq huser hpending ↦ ?_, .inr howned⟩
    obtain ⟨hheld, hbelow⟩ := h n req hreq huser hpending
    exact ⟨hheld, by simp only; omega⟩

end Steps

/-- In every interleaving in which the user's requests come by checked paths under a limit
other than zero and meet no row of their content without file, no step takes the user
above the limit. -/
theorem sources_within_limit {userId : String} {limit : Nat} {maxSources : String → Option Nat}
    {s : State} {ls : List Label} (hmax : maxSources userId = some limit)
    (hquiet : ∀ r req, s.requests r = some req → req.userId ≠ userId)
    (hguard : (ingest maxSources).Guarded (KeepsCheck userId maxSources) s ls) :
    (ingest maxSources).Steps (StaysBelow userId limit) s ls := by
  refine (ingest maxSources).steps_of_guarded (I := LockedBelow userId limit) ?_ ?_ hguard
  · intro s l t hlocked hkeeps hstep
    have hstep : step maxSources s l = some t := hstep
    exact lockedBelow_step hmax hkeeps hlocked hstep
  · exact fun r req hreq huser ↦ absurd huser (hquiet r req hreq)

/-- No source, no request. -/
def emptyState : State := ⟨[], 0, [], fun _ ↦ none, fun _ ↦ none⟩

/-- Two texts one after the other, against a limit of one: the second is refused. -/
def twoTexts : List Label :=
  [.request 1 .text "u" "a" ⟨3, 0⟩, .dedup 1, .insert 1, .request 2 .text "u" "b" ⟨3, 0⟩,
   .fileWritten 1]

/-- The second text does not take the user above the limit. -/
theorem twoTexts_within_limit :
    (ingest fun _ ↦ some 1).Steps (StaysBelow "u" 1) emptyState twoTexts :=
  sources_within_limit rfl (fun _ _ h ↦ by cases h) (by decide)

/-- The user's sources after a run. -/
def ownedAfter (userId : String) (limit : Nat) (ls : List Label) : Option Nat :=
  ((ingest fun _ ↦ some limit).run emptyState ls).map fun s ↦ owned userId s.sources

/-- A text whose file write fails leaves a row without file. When the same text comes
again, deleting that row commits and lets go of the lock between check and insertion. -/
def zombieRun : List Label :=
  [.request 1 .text "u" "a" ⟨3, 0⟩, .dedup 1, .insert 1, .abort 1,
   .request 2 .text "u" "a" ⟨3, 0⟩, .dedup 2,
   .request 3 .text "u" "b" ⟨3, 0⟩, .dedup 3, .insert 3, .fileWritten 3,
   .request 4 .text "u" "c" ⟨3, 0⟩, .dedup 4, .insert 4, .fileWritten 4,
   .insert 2, .fileWritten 2]

/-- One text through an entry point. -/
def oneText (entry : EntryPoint) : List Label :=
  [.request 1 entry "u" "a" ⟨3, 0⟩, .dedup 1, .insert 1, .fileWritten 1]

/-- The limit is passed by the lost lock, by a limit of zero that counts as none, and by an
entry point that does not check. -/
theorem sources_exceed_limit :
    ownedAfter "u" 2 zombieRun = some 3 ∧ ownedAfter "u" 0 (oneText .text) = some 1 ∧
      ownedAfter "u" 1 (oneText .text ++
        [.request 2 .mcpText "u" "b" ⟨3, 0⟩, .dedup 2, .insert 2, .fileWritten 2]) = some 2 := by
  decide

end WikiMind.Quota
