import Mathlib.Data.List.Count
import WikiMind.Base.Run
import WikiMind.Base.Rows

/-!
# Daily question quota under concurrent requests

`check_query_quota` (`services/quota.py:183`) locks the user's row of the day, compares,
and raises the count; the row lock and the raised count become final with the commit that
stores the answer (`engine/qa_agent.py:528`). A stream sends the text of its answer before
its first commit (`engine/qa_agent.py:627–648`), so that a client who closes the connection
in between has the answer, and the roll back takes its count. A roll back undoes lock and
count. An answer counts for the day on which it is stored, or its text was sent. The
transition system interleaves any number of requests with the change of the day.
-/

namespace WikiMind.Quota

open WikiMind.Base

/-- The paths that answer a question. -/
inductive AskEntry where
  | ask | askStream | fork | mcpAsk
  deriving DecidableEq, Repr

/-- The paths that call `check_query_quota`: `api/routes/query.py:56, 80`. -/
def AskEntry.checksQuota : AskEntry → Bool
  | .ask | .askStream => true
  | .fork | .mcpAsk => false

/-- A request in the transaction of its quota check, with the day whose count it has raised, if
it did, and whether its answer was sent. -/
structure AskRequest where
  userId : String
  entry : AskEntry
  charged : Option Nat
  sent : Bool
  deriving DecidableEq, Repr

/-- The day, the committed counts and row locks of each user and day, the requests in their
transactions, and the answers with user and day. What a stream does after the first commit
leaves the count alone. -/
structure AskState where
  day : Nat
  counts : String → Nat → Nat
  lock : String → Nat → Option Nat
  requests : Nat → Option AskRequest
  answers : List (String × Nat)

/-- The steps of the system: a request; a stream that has sent its whole answer; the first
commit of such a stream; an answer stored in one commit; a roll back; midnight. -/
inductive AskLabel where
  | request (r : Nat) (entry : AskEntry) (userId : String)
  | send (r : Nat)
  | commitStream (r : Nat)
  | answer (r : Nat)
  | fail (r : Nat)
  | tick
  deriving DecidableEq, Repr

/-- The decision of `check_query_quota`: whether the count is raised. A falsy limit means
no check. -/
def checkQueryQuota (maxQueriesPerDay : Option Nat) (current : Nat) : Except Exc Bool :=
  match maxQueriesPerDay.filter (· ≠ 0) with
  | none => .ok false
  | some limit =>
    if limit ≤ current then .error (.quotaExceeded "query" current limit) else .ok true

namespace AskState

/-- The answers a user got on a day. -/
def answersOn (s : AskState) (userId : String) (day : Nat) : Nat := s.answers.count (userId, day)

/-- An answer was sent whose charge to a user and day is not committed: the request that has
the row sent it. -/
def sentOn (s : AskState) (userId : String) (day : Nat) : Bool :=
  ((s.lock userId day).bind s.requests).any AskRequest.sent

/-- Take a request out of its transaction, with its row lock. -/
def endTransaction (s : AskState) (r : Nat) : AskState :=
  { s with
    requests := fun n ↦ if n = r then none else s.requests n
    lock := fun userId day ↦ if s.lock userId day = some r then none else s.lock userId day }

/-- Make the raised count of a request final. -/
def commitCharge (s : AskState) (req : AskRequest) : AskState :=
  { s with
    counts := fun userId day ↦
      if userId = req.userId ∧ req.charged = some day then s.counts userId day + 1
      else s.counts userId day }

/-- An answer of today. -/
def store (s : AskState) (req : AskRequest) : AskState :=
  { s with answers := (req.userId, s.day) :: s.answers }

/-- A request has sent its answer. -/
def markSent (s : AskState) (r : Nat) (req : AskRequest) : AskState :=
  { s with requests := fun n ↦ if n = r then some { req with sent := true } else s.requests n }

/-- A request arrives; a checked one waits for the row of the user and day. -/
def arrive (maxQueriesPerDay : String → Option Nat) (s : AskState) (r : Nat) (entry : AskEntry)
    (userId : String) : Option AskState :=
  if (s.requests r).isSome then none
  else if entry.checksQuota ∧ ((maxQueriesPerDay userId).filter (· ≠ 0)).isSome then
    if (s.lock userId s.day).isSome then none
    else
      match checkQueryQuota (maxQueriesPerDay userId) (s.counts userId s.day) with
      | .error _ => some s
      | .ok _ => some { s with
          requests := fun n ↦
            if n = r then some ⟨userId, entry, some s.day, false⟩ else s.requests n
          lock := fun v day ↦ if v = userId ∧ day = s.day then some r else s.lock v day }
  else some { s with
    requests := fun n ↦ if n = r then some ⟨userId, entry, none, false⟩ else s.requests n }

end AskState

/-- One step; `none` when it is not enabled. -/
def askStep (maxQueriesPerDay : String → Option Nat) (s : AskState) : AskLabel → Option AskState
  | .request r entry userId => s.arrive maxQueriesPerDay r entry userId
  | .send r =>
    match s.requests r with
    | some req =>
      if req.entry = .askStream ∧ req.sent = false then some ((s.markSent r req).store req)
      else none
    | none => none
  | .commitStream r =>
    match s.requests r with
    | some req => if req.sent then some ((s.endTransaction r).commitCharge req) else none
    | none => none
  | .answer r =>
    match s.requests r with
    | some req =>
      if req.entry = .askStream then none
      else some (((s.endTransaction r).commitCharge req).store req)
    | none => none
  | .fail r => if (s.requests r).isSome then some (s.endTransaction r) else none
  | .tick => some { s with day := s.day + 1 }

/-- The question system with the plan limit of each user. -/
def asking (maxQueriesPerDay : String → Option Nat) : Machine AskState AskLabel :=
  ⟨askStep maxQueriesPerDay⟩

/-- The step keeps the quota effective for the user: a request comes by a checked path
under a limit that is not zero, an answer is sent or stored on the day it was charged to, and
no stream is rolled back after it sent its answer. -/
def KeepsQuota (userId : String) (maxQueriesPerDay : String → Option Nat) (s : AskState) :
    AskLabel → Prop
  | .request _ entry v => v = userId → entry.checksQuota = true ∧ maxQueriesPerDay userId ≠ some 0
  | .send r | .answer r =>
    ∀ req ∈ s.requests r, req.userId = userId → ∀ day ∈ req.charged, day = s.day
  | .fail r => ∀ req ∈ s.requests r, req.userId = userId → req.sent = false
  | .commitStream _ | .tick => True

instance (userId : String) (maxQueriesPerDay : String → Option Nat) (s : AskState) :
    (l : AskLabel) → Decidable (KeepsQuota userId maxQueriesPerDay s l)
  | .request _ _ _ | .send _ | .answer _ | .fail _ => by unfold KeepsQuota; infer_instance
  | .commitStream _ | .tick => .isTrue trivial

/-- The account of a user: the answers are covered by the counts and the charges still to be
committed, the counts by the limit, and whoever is about to raise a count has its row below the
limit. -/
structure Accounted (userId : String) (limit : Nat) (s : AskState) : Prop where
  covered : ∀ day, s.answersOn userId day ≤ s.counts userId day + (s.sentOn userId day).toNat
  within : ∀ day, s.counts userId day ≤ limit
  requests : ∀ r req, s.requests r = some req → req.userId = userId →
    ∃ day, req.charged = some day ∧ s.lock userId day = some r ∧ s.counts userId day < limit
  locks : ∀ day r, s.lock userId day = some r → ∃ req, s.requests r = some req ∧
    req.userId = userId ∧ req.charged = some day
  streams : ∀ r req, s.requests r = some req → req.sent = true → req.entry = .askStream

section Steps

variable {userId : String} {limit : Nat} {maxQueriesPerDay : String → Option Nat}
variable {s t : AskState}

/-- What a request adds to the count of a user and day when it commits. -/
private def chargeOn (req : AskRequest) (userId : String) (day : Nat) : Nat :=
  if userId = req.userId ∧ req.charged = some day then 1 else 0

private theorem counts_commitCharge (req : AskRequest) (day : Nat) :
    (s.commitCharge req).counts userId day = s.counts userId day + chargeOn req userId day := by
  simp only [AskState.commitCharge, chargeOn]
  split <;> rfl

private theorem lock_endTransaction {r n day : Nat} :
    (s.endTransaction r).lock userId day = some n ↔ n ≠ r ∧ s.lock userId day = some n := by
  simp only [AskState.endTransaction]
  split
  · next h => simp [h, eq_comm]
  · next h =>
    refine ⟨fun hn ↦ ⟨fun heq ↦ h (heq ▸ hn), hn⟩, And.right⟩

private theorem requests_endTransaction {r n : Nat} {req : AskRequest} :
    (s.endTransaction r).requests n = some req ↔ n ≠ r ∧ s.requests n = some req := by
  simp only [AskState.endTransaction]
  split
  · next h => simp [h]
  · next h => simp [h]

-- A row is held by the request that charges it.
private theorem chargeOn_of_lock {r day : Nat} {req : AskRequest} (h : Accounted userId limit s)
    (hreq : s.requests r = some req) :
    chargeOn req userId day = if s.lock userId day = some r then 1 else 0 := by
  unfold chargeOn
  congr 1
  refine propext ⟨fun ⟨huser, hcharged⟩ ↦ ?_, fun hlock ↦ ?_⟩
  · obtain ⟨day', hday', hlock, -⟩ := h.requests r req hreq huser.symm
    rw [hcharged] at hday'
    cases hday'
    exact hlock
  · obtain ⟨req', hreq', huser, hcharged⟩ := h.locks day r hlock
    rw [hreq] at hreq'
    cases hreq'
    exact ⟨huser.symm, hcharged⟩

-- The end of a transaction frees its rows, and those only.
private theorem sentOn_endTransaction {r day : Nat} :
    (s.endTransaction r).sentOn userId day =
      if s.lock userId day = some r then false else s.sentOn userId day := by
  unfold AskState.sentOn
  cases hlock : s.lock userId day with
  | none => simp [AskState.endTransaction, hlock]
  | some n => by_cases hn : n = r <;> simp [AskState.endTransaction, hlock, hn]

-- The row a request has tells whether its answer was sent.
private theorem sentOn_of_lock {r day : Nat} {req : AskRequest} (hreq : s.requests r = some req)
    (hlock : s.lock userId day = some r) : s.sentOn userId day = req.sent := by
  simp [AskState.sentOn, hlock, hreq]

-- An answer of the user falls on the day its request was charged to.
private theorem answersOn_store {req : AskRequest} (hcharged : req.userId = userId →
    req.charged = some s.day) (day : Nat) :
    (s.store req).answersOn userId day = s.answersOn userId day + chargeOn req userId day := by
  simp only [AskState.store, AskState.answersOn, List.count_cons, chargeOn, beq_iff_eq,
    Prod.mk.injEq]
  by_cases huser : req.userId = userId
  · rw [hcharged huser]
    simp [huser]
  · simp [huser, Ne.symm huser]

/-- The other requests keep their rows when one ends its transaction, and commits its charge or
does not. -/
theorem accounted_end (charge : Nat → Nat) {r : Nat} {req : AskRequest}
    (h : Accounted userId limit s) (hreq : s.requests r = some req)
    (ht : t.requests = (s.endTransaction r).requests) (hlocks : t.lock = (s.endTransaction r).lock)
    (hcounts : ∀ day, t.counts userId day = s.counts userId day + charge day)
    (hcharge : ∀ day, charge day ≤ chargeOn req userId day)
    (hcovered : ∀ day, t.answersOn userId day ≤ t.counts userId day + (t.sentOn userId day).toNat) :
    Accounted userId limit t := by
  refine ⟨hcovered, fun day ↦ ?_, fun n req' hreq' huser ↦ ?_, fun day n hlock ↦ ?_,
    fun n req' hreq' ↦ ?_⟩
  · have hwithin := h.within day
    have hbound := hcharge day
    rw [chargeOn_of_lock h hreq] at hbound
    rw [hcounts]
    split at hbound
    · next hlock =>
      obtain ⟨req', hreq', huser, hcharged⟩ := h.locks day r hlock
      obtain ⟨day', hday', -, hbelow⟩ := h.requests r req' hreq' huser
      rw [hcharged] at hday'
      cases hday'
      omega
    · omega
  · rw [ht, requests_endTransaction] at hreq'
    obtain ⟨hn, hold⟩ := hreq'
    obtain ⟨day, hcharged, hlock, hbelow⟩ := h.requests n req' hold huser
    refine ⟨day, hcharged, ?_, ?_⟩
    · rw [hlocks]
      exact lock_endTransaction.mpr ⟨hn, hlock⟩
    · have hbound := hcharge day
      rw [chargeOn_of_lock h hreq, hlock, if_neg (by simpa using hn)] at hbound
      rw [hcounts]
      omega
  · rw [hlocks, lock_endTransaction] at hlock
    obtain ⟨req', hreq', hrest⟩ := h.locks day n hlock.2
    exact ⟨req', by rw [ht]; exact requests_endTransaction.mpr ⟨hlock.1, hreq'⟩, hrest⟩
  · rw [ht, requests_endTransaction] at hreq'
    exact h.streams n req' hreq'.2

/-- A request that arrives keeps the account if it has the row it charges, below the limit. -/
theorem accounted_insert {r : Nat} {new : AskRequest} (h : Accounted userId limit s)
    (hfresh : s.requests r = none) (hunsent : new.sent = false)
    (ht : ∀ n, t.requests n = if n = r then some new else s.requests n)
    (hcounts : t.counts = s.counts) (hanswers : t.answers = s.answers)
    (hlocks : ∀ day n, t.lock userId day = some n ↔ s.lock userId day = some n ∨
      (n = r ∧ new.userId = userId ∧ new.charged = some day))
    (hnew : new.userId = userId → ∃ day, new.charged = some day ∧ s.counts userId day < limit) :
    Accounted userId limit t := by
  have hother : ∀ {day n}, s.lock userId day = some n → n ≠ r := by
    rintro day n hlock rfl
    obtain ⟨req, hreq, -⟩ := h.locks day n hlock
    rw [hfresh] at hreq
    cases hreq
  refine ⟨fun day ↦ ?_, hcounts ▸ h.within, fun n req hreq huser ↦ ?_, fun day n hlock ↦ ?_,
    fun n req hreq hsent ↦ ?_⟩
  · -- the new request has sent nothing, so no answer is added
    have hcovered := h.covered day
    unfold AskState.answersOn AskState.sentOn at hcovered ⊢
    rw [hanswers, hcounts]
    cases hold : s.lock userId day with
    | none =>
      rw [hold] at hcovered
      exact hcovered.trans (Nat.le_add_right _ _)
    | some n =>
      rw [(hlocks day n).mpr (.inl hold)]
      rw [hold] at hcovered
      simpa [ht, hother hold] using hcovered
  · rw [hcounts]
    rw [ht] at hreq
    split at hreq
    · next hn =>
      cases hreq
      obtain ⟨day, hcharged, hbelow⟩ := hnew huser
      exact ⟨day, hcharged, (hlocks day n).mpr (.inr ⟨hn, huser, hcharged⟩), hbelow⟩
    · obtain ⟨day, hcharged, hlock, hbelow⟩ := h.requests n req hreq huser
      exact ⟨day, hcharged, (hlocks day n).mpr (.inl hlock), hbelow⟩
  · rw [ht]
    rcases (hlocks day n).mp hlock with hold | ⟨rfl, huser, hcharged⟩
    · rw [if_neg (hother hold)]
      exact h.locks day n hold
    · exact ⟨new, if_pos rfl, huser, hcharged⟩
  · rw [ht] at hreq
    split at hreq
    · cases hreq
      rw [hunsent] at hsent
      cases hsent
    · exact h.streams n req hreq hsent

/-- A check that passes finds the count below the limit. -/
theorem counts_lt_of_check {raised : Bool} {current : Nat}
    (h : checkQueryQuota (some limit) current = .ok raised) (hzero : limit ≠ 0) :
    current < limit := by
  unfold checkQueryQuota at h
  rw [Option.filter_some_pos (by simpa using hzero)] at h
  dsimp only at h
  split at h
  · cases h
  · omega

/-- An arrival through a checked path holds its row below the limit. -/
theorem accounted_arrive {r : Nat} {entry : AskEntry} {v : String}
    (hmax : maxQueriesPerDay userId = some limit) (h : Accounted userId limit s)
    (hstep : s.arrive maxQueriesPerDay r entry v = some t)
    (hguard : v = userId → entry.checksQuota = true ∧ maxQueriesPerDay userId ≠ some 0) :
    Accounted userId limit t := by
  unfold AskState.arrive at hstep
  split at hstep
  · cases hstep
  next hfresh =>
  have hfresh : s.requests r = none := by simpa using hfresh
  split at hstep
  · split at hstep
    · cases hstep
    next hfree =>
    have hfree : s.lock v s.day = none := by simpa using hfree
    split at hstep
    · cases hstep
      exact h
    · next raised hcheck =>
      cases hstep
      refine accounted_insert h hfresh rfl (fun _ ↦ rfl) rfl rfl (fun day n ↦ ?_) fun huser ↦ ?_
      · by_cases hrow : userId = v ∧ day = s.day
        · obtain ⟨rfl, rfl⟩ := hrow
          simp [hfree, eq_comm]
        · simp only [hrow, if_false, iff_self_or]
          rintro ⟨-, huser, hcharged⟩
          exact absurd ⟨huser.symm, (Option.some.inj hcharged).symm⟩ hrow
      · obtain rfl : v = userId := huser
        have hzero := (hguard rfl).2
        rw [hmax] at hcheck hzero
        exact ⟨s.day, rfl, counts_lt_of_check hcheck (by simpa using hzero)⟩
  · next hnot =>
    cases hstep
    have hforeign : v ≠ userId := by
      rintro rfl
      obtain ⟨hchecks, hzero⟩ := hguard rfl
      rw [hmax] at hnot hzero
      simp [hchecks, Option.filter] at hnot
      simp [hnot] at hzero
    refine accounted_insert h hfresh rfl (fun _ ↦ rfl) rfl rfl (fun day n ↦ ?_)
      fun huser ↦ absurd huser hforeign
    simp only [iff_self_or]
    exact fun ⟨_, huser, _⟩ ↦ absurd huser hforeign

/-- A stream that sends its answer holds the row of the day, below the limit. -/
theorem accounted_send {r : Nat} {req : AskRequest} (h : Accounted userId limit s)
    (hreq : s.requests r = some req) (hentry : req.entry = .askStream) (hsent : req.sent = false)
    (hday : req.userId = userId → ∀ day ∈ req.charged, day = s.day) :
    Accounted userId limit ((s.markSent r req).store req) := by
  have hcharged : req.userId = userId → req.charged = some s.day := by
    intro huser
    obtain ⟨day, hsome, -⟩ := h.requests r req hreq huser
    rw [hsome, hday huser day hsome]
  have hmarked : ∀ n, (s.markSent r req).requests n =
      if n = r then some { req with sent := true } else s.requests n := fun _ ↦ rfl
  constructor
  · intro day
    have hcovered := h.covered day
    have hanswers := answersOn_store (s := s) hcharged day
    have hsame : ((s.markSent r req).store req).sentOn userId day =
        if s.lock userId day = some r then true else s.sentOn userId day := by
      change ((s.lock userId day).bind (s.markSent r req).requests).any AskRequest.sent = _
      unfold AskState.sentOn
      cases hlock : s.lock userId day with
      | none => simp
      | some n => by_cases hn : n = r <;> simp [hmarked, hn]
    change (s.store req).answersOn userId day ≤ s.counts userId day + _
    rw [hanswers, hsame, chargeOn_of_lock h hreq]
    split
    · next hlock =>
      rw [sentOn_of_lock hreq hlock, hsent] at hcovered
      simpa using hcovered
    · simpa using hcovered
  · exact h.within
  · intro n req' hreq' huser
    change (s.markSent r req).requests n = some req' at hreq'
    rw [hmarked] at hreq'
    split at hreq'
    · next hn =>
      cases hreq'
      exact hn ▸ h.requests r req hreq huser
    · exact h.requests n req' hreq' huser
  · intro day n hlock
    obtain ⟨req', hreq', huser, hcharge⟩ := h.locks day n hlock
    change ∃ req'', (s.markSent r req).requests n = some req'' ∧ _
    rw [hmarked]
    split
    · next hn =>
      rw [hn, hreq] at hreq'
      cases hreq'
      exact ⟨_, rfl, huser, hcharge⟩
    · exact ⟨req', hreq', huser, hcharge⟩
  · intro n req' hreq' hmark
    change (s.markSent r req).requests n = some req' at hreq'
    rw [hmarked] at hreq'
    split at hreq'
    · cases hreq'
      exact hentry
    · exact h.streams n req' hreq' hmark

/-- The commit of a stream makes the charge for the answer it sent final. -/
theorem accounted_commitStream {r : Nat} {req : AskRequest} (h : Accounted userId limit s)
    (hreq : s.requests r = some req) :
    Accounted userId limit ((s.endTransaction r).commitCharge req) := by
  refine accounted_end (chargeOn req userId) h hreq rfl rfl
    (fun day ↦ counts_commitCharge req day) (fun _ ↦ Nat.le_refl _) fun day ↦ ?_
  have hcovered := h.covered day
  change s.answersOn userId day ≤ ((s.endTransaction r).commitCharge req).counts userId day +
    ((s.endTransaction r).sentOn userId day).toNat
  rw [counts_commitCharge, sentOn_endTransaction, chargeOn_of_lock h hreq]
  change _ ≤ s.counts userId day + _ + _
  have hbool := Bool.toNat_le (s.sentOn userId day)
  split
  · simp
    omega
  · simpa using hcovered

/-- An answer in the transaction of its check makes charge and answer final together. -/
theorem accounted_answer {r : Nat} {req : AskRequest} (h : Accounted userId limit s)
    (hreq : s.requests r = some req) (hentry : req.entry ≠ .askStream)
    (hday : req.userId = userId → ∀ day ∈ req.charged, day = s.day) :
    Accounted userId limit (((s.endTransaction r).commitCharge req).store req) := by
  have hcharged : req.userId = userId → req.charged = some s.day := by
    intro huser
    obtain ⟨day, hsome, -⟩ := h.requests r req hreq huser
    rw [hsome, hday huser day hsome]
  have hunsent : req.sent = false := by
    rw [← Bool.not_eq_true]
    exact fun hsent ↦ hentry (h.streams r req hreq hsent)
  refine accounted_end (chargeOn req userId) h hreq rfl rfl
    (fun day ↦ counts_commitCharge req day) (fun _ ↦ Nat.le_refl _) fun day ↦ ?_
  have hcovered := h.covered day
  have hanswers := answersOn_store (s := s) hcharged day
  change (s.store req).answersOn userId day ≤
    ((s.endTransaction r).commitCharge req).counts userId day +
      ((s.endTransaction r).sentOn userId day).toNat
  rw [hanswers, counts_commitCharge, sentOn_endTransaction, chargeOn_of_lock h hreq]
  change _ ≤ s.counts userId day + _ + _
  split
  · next hlock =>
    rw [sentOn_of_lock hreq hlock, hunsent] at hcovered
    simpa using hcovered
  · simpa using hcovered

/-- A roll back gives up the row and charges nothing; no answer was sent. -/
theorem accounted_fail {r : Nat} {req : AskRequest} (h : Accounted userId limit s)
    (hreq : s.requests r = some req) (hunsent : req.userId = userId → req.sent = false) :
    Accounted userId limit (s.endTransaction r) := by
  refine accounted_end (fun _ ↦ 0) h hreq rfl rfl (fun _ ↦ rfl)
    (fun _ ↦ Nat.zero_le _) fun day ↦ ?_
  have hcovered := h.covered day
  change s.answersOn userId day ≤ s.counts userId day +
    ((s.endTransaction r).sentOn userId day).toNat
  rw [sentOn_endTransaction]
  split
  · next hlock =>
    obtain ⟨req', hreq', huser, -⟩ := h.locks day r hlock
    rw [hreq] at hreq'
    cases hreq'
    rw [sentOn_of_lock hreq hlock, hunsent huser] at hcovered
    exact hcovered
  · exact hcovered

/-- One step that keeps the quota effective. -/
theorem accounted_step {l : AskLabel} (hmax : maxQueriesPerDay userId = some limit)
    (hguard : KeepsQuota userId maxQueriesPerDay s l) (h : Accounted userId limit s)
    (hstep : askStep maxQueriesPerDay s l = some t) : Accounted userId limit t := by
  cases l with
  | request r entry v => exact accounted_arrive hmax h hstep hguard
  | send r =>
    simp only [askStep] at hstep
    split at hstep
    · next req hreq =>
      split at hstep
      · next hstream =>
        cases hstep
        exact accounted_send h hreq hstream.1 hstream.2 (hguard req hreq)
      · cases hstep
    · cases hstep
  | commitStream r =>
    simp only [askStep] at hstep
    split at hstep
    · next req hreq =>
      split at hstep <;> cases hstep
      exact accounted_commitStream h hreq
    · cases hstep
  | answer r =>
    simp only [askStep] at hstep
    split at hstep
    · next req hreq =>
      split at hstep
      · cases hstep
      · next hentry =>
        cases hstep
        exact accounted_answer h hreq hentry (hguard req hreq)
    · cases hstep
  | fail r =>
    simp only [askStep] at hstep
    split at hstep
    · next hsome =>
      cases hstep
      obtain ⟨req, hreq⟩ := Option.isSome_iff_exists.mp hsome
      exact accounted_fail h hreq (hguard req hreq)
    · cases hstep
  | tick =>
    cases hstep
    exact ⟨h.covered, h.within, h.requests, h.locks, h.streams⟩

end Steps

/-- In every interleaving in which the user's questions come by checked paths under a
limit other than zero, are answered on the day they are charged to, and are not rolled back
after their answer was sent, the user gets on no day more answers than the limit. -/
theorem answers_within_limit {userId : String} {limit : Nat}
    {maxQueriesPerDay : String → Option Nat} {s : AskState} {ls : List AskLabel}
    (hmax : maxQueriesPerDay userId = some limit) (hstart : Accounted userId limit s)
    (hguard : (asking maxQueriesPerDay).Guarded (KeepsQuota userId maxQueriesPerDay) s ls) :
    (asking maxQueriesPerDay).Always (fun t ↦ ∀ day, t.answersOn userId day ≤ limit) s ls := by
  have haccounted : (asking maxQueriesPerDay).Always (Accounted userId limit) s ls := by
    refine (asking maxQueriesPerDay).always_of_guarded ?_ hstart hguard
    intro u l t hu hkeeps hstep
    have hstep : askStep maxQueriesPerDay u l = some t := hstep
    exact accounted_step hmax hkeeps hu hstep
  refine Machine.Always.mono _ (fun t ht day ↦ ?_) haccounted
  have hcovered := ht.covered day
  have hwithin := ht.within day
  cases hsent : t.sentOn userId day with
  | false =>
    rw [hsent] at hcovered
    simpa using Nat.le_trans hcovered (Nat.add_le_add_right hwithin 0)
  | true =>
    -- the answer is charged to the row of its request, whose count is below the limit
    rw [hsent] at hcovered
    cases hlock : t.lock userId day with
    | none => simp [AskState.sentOn, hlock] at hsent
    | some r =>
      obtain ⟨req, hreq, huser, hcharged⟩ := ht.locks day r hlock
      obtain ⟨day', hday', -, hbelow⟩ := ht.requests r req hreq huser
      rw [hcharged] at hday'
      cases hday'
      simp only [Bool.toNat_true] at hcovered
      omega

/-- No question asked yet. -/
def noQuestions : AskState :=
  ⟨0, fun _ _ ↦ 0, fun _ _ ↦ none, fun _ ↦ none, []⟩

/-- Before any question the account is in order. -/
theorem accounted_noQuestions (userId : String) (limit : Nat) :
    Accounted userId limit noQuestions where
  covered day := by simp [noQuestions, AskState.answersOn]
  within day := Nat.zero_le limit
  requests r req hreq := by cases hreq
  locks day r hlock := by cases hlock
  streams r req hreq := by cases hreq

/-- A stream that fails before its answer, one that sends its answer, and a question, against a
limit of one: the question is refused. -/
def twoQuestions : List AskLabel :=
  [.request 1 .askStream "u", .fail 1, .request 2 .askStream "u", .send 2, .commitStream 2,
   .request 3 .ask "u"]

/-- One answer is given. -/
theorem twoQuestions_within_limit :
    (asking fun _ ↦ some 1).Always (fun t ↦ ∀ day, t.answersOn "u" day ≤ 1) noQuestions
      twoQuestions :=
  answers_within_limit rfl (accounted_noQuestions "u" 1) (by decide)

/-- The answers of a user on a day after a run. -/
def answersAfter (userId : String) (limit day : Nat) (ls : List AskLabel) : Option Nat :=
  ((asking fun _ ↦ some limit).run noQuestions ls).map fun s ↦ s.answersOn userId day

/-- The limit is passed by a fork, by the tool of the protocol server, by a limit of zero
that counts as none, by an answer stored on the day after its check, and by a stream whose
client closes the connection after the text. -/
theorem answers_exceed_limit :
    answersAfter "u" 1 0
        [.request 1 .ask "u", .answer 1, .request 2 .fork "u", .answer 2] = some 2 ∧
      answersAfter "u" 1 0
        [.request 1 .ask "u", .answer 1, .request 2 .mcpAsk "u", .answer 2] = some 2 ∧
      answersAfter "u" 0 0 [.request 1 .ask "u", .answer 1] = some 1 ∧
      answersAfter "u" 1 1
        [.request 1 .ask "u", .tick, .answer 1, .request 2 .ask "u", .answer 2] = some 2 ∧
      answersAfter "u" 1 0
        [.request 1 .askStream "u", .send 1, .fail 1, .request 2 .ask "u", .answer 2] =
          some 2 := by
  decide

end WikiMind.Quota
