import WikiMind.Base.Parties
import WikiMind.Base.Run

/-!
# Events for connected clients

`ConnectionManager` (`api/routes/ws.py:153`) keeps a set of connections for each user. A
broadcast sends an event to those of one user, one after the other (`api/routes/ws.py:208`); each
send may suspend it, and others connect and leave meanwhile. The system has a step for each part
of the code that runs without being suspended, in any interleaving, in a process without Redis.
-/

namespace WikiMind.Jobs.Broadcasts

open WikiMind.Base

/-- A user as `get_ws_user_id` (`api/deps.py:74`) finds one: it refuses an empty id. -/
structure User where
  id : String
  ne : id ≠ ""
  deriving DecidableEq

/-- A WebSocket, of the user it is opened for. -/
structure Connection where
  number : Nat
  user : User
  deriving DecidableEq

/-- `user_id or _NO_USER`: `api/routes/ws.py:182`. -/
def bucketKey (userId : String) : String := if userId = "" then "__no_user__" else userId

/-- What a send raises. -/
inductive SendError where
  | webSocketDisconnect | runtimeError | connectionError | osError | other
  deriving DecidableEq, Repr

/-- The classes a broadcast catches: `api/routes/ws.py:226`. -/
def SendError.caught : SendError → Bool
  | .webSocketDisconnect | .runtimeError | .connectionError | .osError => true
  | .other => false

inductive Status where
  | running | returned | raised
  deriving DecidableEq, Repr

/-- A broadcast: the set object it iterates, the size of that when the iteration began, how many
members it has taken, and `dead`. The rest is kept for what is required of it: the members the set
had, the sends so far, those that failed, the connections it removed, and those of its user that
are registered since it began. -/
structure Broadcast where
  status : Status
  targets : Nat
  used : Nat
  taken : Nat
  dead : List Connection
  members : List Connection
  attempts : List Connection
  failed : List Connection
  removed : List Connection
  staying : List Connection

/-- The set objects, each in the order of its table, `_connections`, the connections opened so
far, and the broadcasts. -/
structure State where
  heap : Nat → List Connection
  next : Nat
  connections : List (String × Nat)
  opened : List Connection
  broadcasts : Parties User Broadcast

/-- The steps: a connection is accepted, with the table its set has then; one is removed, since
its client has left or a message to it alone has failed; a broadcast begins; and a send of a
broadcast ends. -/
inductive Label where
  | connect (ws : Connection) (table : List Connection)
  | disconnect (ws : Connection)
  | broadcast (task : Nat) (user : User)
  | sent (task : Nat) (outcome : Option SendError)
  deriving DecidableEq

namespace State

variable (s : State)

/-- `ConnectionManager.active`: `api/routes/ws.py:170`. -/
def active : List Connection := s.connections.flatMap fun p ↦ s.heap p.2

/-- `ConnectionManager.connect`, behind `accept`: `api/routes/ws.py:178`. The order of a table is
that of the hashes of its members, and may be any. -/
def connect (ws : Connection) (table : List Connection) : Option State :=
  if ws ∈ s.opened then none
  else
    match s.connections.lookup (bucketKey ws.user.id) with
    | some o =>
      if table.Perm (ws :: s.heap o) then
        some { s with heap := Function.update s.heap o table, opened := ws :: s.opened }
      else none
    | none =>
      if table = [ws] then
        some { s with
          heap := Function.update s.heap s.next table
          next := s.next + 1
          connections := s.connections ++ [(bucketKey ws.user.id, s.next)]
          opened := ws :: s.opened }
      else none

/-- The set objects without a connection; only those that are registered change. -/
def discard (ws : Connection) (o : Nat) : List Connection :=
  if o ∈ s.connections.map Prod.snd then (s.heap o).filter (· ≠ ws) else s.heap o

/-- A connection stays no longer, for the broadcasts. -/
def leave (ws : Connection) (q : Party User Broadcast) : Party User Broadcast :=
  { q with phase := { q.phase with staying := q.phase.staying.filter (· ≠ ws) } }

/-- `ConnectionManager.disconnect`: `api/routes/ws.py:186`. -/
def disconnect (ws : Connection) : State :=
  { s with
    heap := s.discard ws
    connections := s.connections.filter fun p ↦ s.discard ws p.2 ≠ []
    broadcasts := s.broadcasts.map (leave ws) }

/-- `for ws in dead: self.disconnect(ws)`. -/
def disconnectAll (dead : List Connection) : State := dead.foldl disconnect s

/-- A broadcast without targets. -/
def idle : Broadcast := ⟨.returned, 0, 0, 0, [], [], [], [], [], []⟩

/-- The start of a broadcast, up to its first send: `api/routes/ws.py:215–225`. -/
def broadcast (task : Nat) (user : User) : Option State :=
  let phase :=
    match s.connections.lookup user.id with
    | none => idle
    | some o =>
      match s.heap o with
      | [] => idle
      | ws :: rest =>
        ⟨.running, o, (ws :: rest).length, 1, [], ws :: rest, [ws], [], [], ws :: rest⟩
  (s.broadcasts.enter task user phase).map fun broadcasts ↦ { s with broadcasts }

/-- The next step of the iteration, behind a send. The iterator of a set raises a `RuntimeError`
if the size of the set has changed. -/
def iterate (task : Nat) (b : Broadcast) : State :=
  if (s.heap b.targets).length ≠ b.used then
    let b' := { b with status := .raised }
    { s with broadcasts := s.broadcasts.goto task b' }
  else
    match (s.heap b.targets)[b.taken]? with
    | some ws =>
      let b' := { b with taken := b.taken + 1, attempts := b.attempts ++ [ws] }
      { s with broadcasts := s.broadcasts.goto task b' }
    | none =>
      let t := s.disconnectAll b.dead
      let b' := { b with status := .returned, removed := s.active.filter (· ∉ t.active) }
      { t with broadcasts := t.broadcasts.goto task b' }

/-- The end of a send: `api/routes/ws.py:224–229`. -/
def sent (task : Nat) (outcome : Option SendError) : Option State :=
  (s.broadcasts.get? task).bind fun q ↦
    let b := q.phase
    if b.status ≠ .running then none
    else
      match outcome with
      | none => some (s.iterate task b)
      | some e =>
        let failed := b.failed ++ b.attempts.getLast?.toList
        if e.caught then
          some (s.iterate task { b with dead := b.dead ++ b.attempts.getLast?.toList, failed })
        else
          let b' := { b with status := .raised, failed }
          some { s with broadcasts := s.broadcasts.goto task b' }

end State

/-- The process: its connections and its broadcasts. -/
def process : Machine State Label where
  step s label := match label with
    | .connect ws table => s.connect ws table
    | .disconnect ws => some (s.disconnect ws)
    | .broadcast task user => s.broadcast task user
    | .sent task outcome => s.sent task outcome

/-- A process that has just started. -/
def State.start : State := ⟨fun _ ↦ [], 0, [], [], []⟩

/-- What is required of a broadcast for a user: it sends at most once to each connection, and to
none of another user, it has sent to all that stayed when it returns, it removes only connections
to which a send failed, and does not raise. -/
structure Delivers (user : User) (b : Broadcast) : Prop where
  once : b.attempts.Nodup
  own : ∀ ws ∈ b.attempts, ws.user = user
  reaches : b.status = .returned → ∀ ws ∈ b.staying, ws ∈ b.attempts
  removes : ∀ ws ∈ b.removed, ws ∈ b.failed
  returns : b.status ≠ .raised

/-- All broadcasts so far are as required. -/
def AllDeliver (s : State) : Prop := ∀ q ∈ s.broadcasts, Delivers q.data q.phase

/-- When a send ends, the set that its broadcast iterates has the members it had when the
broadcast began, and the send raises no class that the broadcast does not catch. -/
def Undisturbed (s : State) : Label → Prop
  | .sent task outcome =>
    (∀ q ∈ s.broadcasts, q.id = task → s.heap q.phase.targets = q.phase.members) ∧
      ∀ e ∈ outcome, e.caught = true
  | .connect .. | .disconnect _ | .broadcast .. => True

instance (s : State) : ∀ label, Decidable (Undisturbed s label)
  | .sent task outcome => inferInstanceAs (Decidable
      ((∀ q ∈ s.broadcasts, q.id = task → s.heap q.phase.targets = q.phase.members) ∧
        ∀ e ∈ outcome, e.caught = true))
  | .connect .. | .disconnect _ | .broadcast .. => .isTrue trivial

/-! ### The connections -/

section Connections

variable {s : State}

/-- The manager: every user has one set, of own connections that were opened. -/
structure State.Kept (s : State) : Prop where
  key : ∀ p ∈ s.connections, ∀ ws ∈ s.heap p.2, bucketKey ws.user.id = p.1
  opened : ∀ p ∈ s.connections, ∀ ws ∈ s.heap p.2, ws ∈ s.opened
  nodup : ∀ p ∈ s.connections, (s.heap p.2).Nodup
  fresh : ∀ p ∈ s.connections, p.2 < s.next
  objects : (s.connections.map Prod.snd).Nodup

private theorem bucketKey_user (user : User) : bucketKey user.id = user.id := if_neg user.ne

private theorem User.eq_of_id {user user' : User} (h : user.id = user'.id) : user = user' := by
  cases user
  cases user'
  cases h
  rfl

private theorem mem_of_lookup {connections : List (String × Nat)} {k : String} {o : Nat}
    (h : connections.lookup k = some o) : (k, o) ∈ connections := by
  obtain ⟨before, after, rfl, -⟩ := List.lookup_eq_some_iff.mp h
  simp

theorem State.kept_start : State.start.Kept :=
  ⟨List.forall_mem_nil _, List.forall_mem_nil _, List.forall_mem_nil _, List.forall_mem_nil _,
    List.nodup_nil⟩

/-- The set of a user has connections of that user. -/
theorem State.Kept.user_of_lookup (h : s.Kept) {user : User} {o : Nat}
    (ho : s.connections.lookup user.id = some o) : ∀ ws ∈ s.heap o, ws.user = user := by
  intro ws hws
  have hkey := h.key _ (mem_of_lookup ho) ws hws
  rw [bucketKey_user] at hkey
  exact User.eq_of_id hkey

/-- Two sets of the manager are not one object. -/
theorem State.Kept.eq_of_object (h : s.Kept) {p q : String × Nat} (hp : p ∈ s.connections)
    (hq : q ∈ s.connections) (heq : p.2 = q.2) : p = q :=
  Rows.eq_of_nodup h.objects hq hp heq

/-- Behind a step that changes what is registered only by a new connection. -/
theorem State.Kept.of_new (h : s.Kept) {ws : Connection} {t : State}
    (hopened : t.opened = ws :: s.opened) (hfresh : ∀ p ∈ t.connections, p.2 < t.next)
    (hobjects : (t.connections.map Prod.snd).Nodup)
    (hset : ∀ p ∈ t.connections, (t.heap p.2).Nodup ∧ ∀ ws' ∈ t.heap p.2,
      ws' = ws ∧ bucketKey ws.user.id = p.1 ∨ p ∈ s.connections ∧ ws' ∈ s.heap p.2) : t.Kept := by
  refine ⟨fun p hp ws' hws' ↦ ?_, fun p hp ws' hws' ↦ ?_, fun p hp ↦ (hset p hp).1, hfresh,
    hobjects⟩
  · rcases (hset p hp).2 ws' hws' with ⟨rfl, hkey⟩ | ⟨hold, hmem⟩
    · exact hkey
    · exact h.key p hold ws' hmem
  · rw [hopened]
    rcases (hset p hp).2 ws' hws' with ⟨rfl, -⟩ | ⟨hold, hmem⟩
    · exact List.mem_cons_self
    · exact List.mem_cons_of_mem _ (h.opened p hold ws' hmem)

private theorem State.Kept.connect (h : s.Kept) {ws : Connection} {table : List Connection}
    {t : State}
    (hstep : s.connect ws table = some t) : t.Kept := by
  unfold State.connect at hstep
  split at hstep
  · cases hstep
  · next hnew =>
    split at hstep
    · next o ho =>
      split at hstep
      · next hperm =>
        cases hstep
        have hmem := mem_of_lookup ho
        refine h.of_new rfl h.fresh h.objects fun p hp ↦ ?_
        dsimp only
        by_cases heq : p.2 = o
        · -- the set the connection joins
          have hp' : p = (bucketKey ws.user.id, o) := h.eq_of_object hp hmem heq
          rw [heq, Function.update_self, hperm.nodup_iff, List.nodup_cons]
          refine ⟨⟨fun hold ↦ hnew (h.opened _ hmem ws hold), h.nodup _ hmem⟩, fun ws' hws' ↦ ?_⟩
          rcases List.mem_cons.mp (hperm.mem_iff.mp hws') with rfl | hws'
          · exact .inl ⟨rfl, by rw [hp']⟩
          · exact .inr ⟨hp, hws'⟩
        · rw [Function.update_of_ne heq]
          exact ⟨h.nodup p hp, fun ws' hws' ↦ .inr ⟨hp, hws'⟩⟩
      · cases hstep
    · next ho =>
      split at hstep
      · next htable =>
        cases hstep
        have hold : ∀ p ∈ s.connections, p.2 ≠ s.next := fun p hp ↦ Nat.ne_of_lt (h.fresh p hp)
        refine h.of_new rfl (fun p hp ↦ ?_) ?_ fun p hp ↦ ?_
        · rcases List.mem_append.mp hp with hp | hp
          · exact Nat.lt_succ_of_lt (h.fresh p hp)
          · cases List.mem_singleton.mp hp
            exact Nat.lt_succ_self _
        · rw [List.map_append, List.nodup_append]
          refine ⟨h.objects, List.nodup_singleton _, fun o hmem o' ho' heq ↦ ?_⟩
          obtain ⟨p, hp, rfl⟩ := List.mem_map.mp hmem
          exact hold p hp (heq.trans (List.mem_singleton.mp ho'))
        · dsimp only
          rcases List.mem_append.mp hp with hp | hp
          · rw [Function.update_of_ne (hold p hp)]
            exact ⟨h.nodup p hp, fun ws' hws' ↦ .inr ⟨hp, hws'⟩⟩
          · cases List.mem_singleton.mp hp
            rw [Function.update_self, htable]
            exact ⟨List.nodup_singleton ws, fun ws' hws' ↦ .inl ⟨List.mem_singleton.mp hws', rfl⟩⟩
      · cases hstep

private theorem mem_discard {ws ws' : Connection} {o : Nat} (h : ws' ∈ s.discard ws o) :
    ws' ∈ s.heap o := by
  unfold State.discard at h
  split at h
  · exact List.mem_of_mem_filter h
  · exact h

private theorem State.Kept.disconnect (h : s.Kept) (ws : Connection) : (s.disconnect ws).Kept := by
  have hold : ∀ p ∈ (s.disconnect ws).connections, p ∈ s.connections :=
    fun p hp ↦ List.mem_of_mem_filter hp
  refine ⟨fun p hp ws' hws' ↦ h.key p (hold p hp) ws' (mem_discard hws'),
    fun p hp ws' hws' ↦ h.opened p (hold p hp) ws' (mem_discard hws'), fun p hp ↦ ?_,
    fun p hp ↦ h.fresh p (hold p hp), ?_⟩
  · have hsub : (s.discard ws p.2).Sublist (s.heap p.2) := by
      unfold State.discard
      split
      · exact List.filter_sublist
      · exact List.Sublist.refl _
    exact hsub.nodup (h.nodup p (hold p hp))
  · exact ((List.filter_sublist).map Prod.snd).nodup h.objects

private theorem State.Kept.disconnectAll (h : s.Kept) (dead : List Connection) :
    (s.disconnectAll dead).Kept := by
  unfold State.disconnectAll
  induction dead generalizing s with
  | nil => exact h
  | cons ws dead ih => exact ih (h.disconnect ws)

/-- A removed connection is active no more, and the others are. -/
theorem mem_active_disconnect {ws ws' : Connection} :
    ws' ∈ (s.disconnect ws).active ↔ ws' ∈ s.active ∧ ws' ≠ ws := by
  have hdiscard : ∀ p ∈ s.connections, s.discard ws p.2 = (s.heap p.2).filter (· ≠ ws) :=
    fun p hp ↦ if_pos (List.mem_map_of_mem hp)
  unfold State.active
  rw [List.mem_flatMap, List.mem_flatMap]
  constructor
  · rintro ⟨p, hp, hws'⟩
    have hmem := List.mem_of_mem_filter hp
    have hset : ws' ∈ s.discard ws p.2 := hws'
    rw [hdiscard p hmem, List.mem_filter, decide_eq_true_eq] at hset
    exact ⟨⟨p, hmem, hset.1⟩, hset.2⟩
  · rintro ⟨⟨p, hp, hws'⟩, hne⟩
    have hset : ws' ∈ s.discard ws p.2 := by
      rw [hdiscard p hp, List.mem_filter, decide_eq_true_eq]
      exact ⟨hws', hne⟩
    refine ⟨p, List.mem_filter.mpr ⟨hp, ?_⟩, hset⟩
    rw [decide_eq_true_eq]
    exact List.ne_nil_of_mem hset

private theorem mem_active_disconnectAll {dead : List Connection} {ws : Connection} :
    ws ∈ (s.disconnectAll dead).active ↔ ws ∈ s.active ∧ ws ∉ dead := by
  unfold State.disconnectAll
  induction dead generalizing s with
  | nil => simp
  | cons first dead ih =>
    rw [List.foldl_cons, ih, mem_active_disconnect, List.mem_cons, not_or, and_assoc]

end Connections

/-! ### The broadcasts -/

section Iteration

variable {s t : State} {user : User} {b : Broadcast} {q : Party User Broadcast}

/-- A broadcast for a user has sent to the first members of its set, which are connections of that
user, and to all when it returns. -/
structure Advances (user : User) (b : Broadcast) : Prop where
  nodup : b.members.Nodup
  own : ∀ ws ∈ b.members, ws.user = user
  staying : ∀ ws ∈ b.staying, ws ∈ b.members
  attempts : b.attempts = b.members.take b.taken
  used : b.used = b.members.length
  dead : ∀ ws ∈ b.dead, ws ∈ b.failed
  removed : ∀ ws ∈ b.removed, ws ∈ b.failed
  complete : b.status = .returned → b.members.length ≤ b.taken
  returns : b.status ≠ .raised

private theorem Advances.delivers (h : Advances user b) : Delivers user b where
  once := by
    rw [h.attempts]
    exact (List.take_sublist _ _).nodup h.nodup
  own ws hws := by
    rw [h.attempts] at hws
    exact h.own ws (List.mem_of_mem_take hws)
  reaches hreturned ws hws := by
    rw [h.attempts, List.take_of_length_le (h.complete hreturned)]
    exact h.staying ws hws
  removes := h.removed
  returns := h.returns

theorem Advances.leave (h : Advances q.data q.phase) (ws : Connection) :
    Advances (State.leave ws q).data (State.leave ws q).phase :=
  { h with staying := fun ws' hws' ↦ h.staying ws' (List.mem_of_mem_filter hws') }

private theorem advances_idle (user : User) : Advances user State.idle :=
  ⟨List.nodup_nil, List.forall_mem_nil _, List.forall_mem_nil _, rfl, rfl, List.forall_mem_nil _,
    List.forall_mem_nil _, fun _ ↦ Nat.le_refl _, by simp [State.idle]⟩

/-- The manager is as it should be, and all broadcasts advance. -/
structure State.Sound (s : State) : Prop where
  kept : s.Kept
  distinct : s.broadcasts.Distinct
  advances : ∀ q ∈ s.broadcasts, Advances q.data q.phase

theorem State.sound_start : State.start.Sound :=
  ⟨State.kept_start, Parties.distinct_nil, List.forall_mem_nil _⟩

private theorem State.Sound.connect (h : s.Sound) {ws : Connection} {table : List Connection}
    (hstep : s.connect ws table = some t) : t.Sound := by
  have hbroadcasts : t.broadcasts = s.broadcasts := by
    unfold State.connect at hstep
    split at hstep
    · cases hstep
    · split at hstep
      · split at hstep <;> cases hstep
        rfl
      · split at hstep <;> cases hstep
        rfl
  exact ⟨h.kept.connect hstep, hbroadcasts ▸ h.distinct, hbroadcasts ▸ h.advances⟩

private theorem State.Sound.disconnect (h : s.Sound) (ws : Connection) :
    (s.disconnect ws).Sound := by
  refine ⟨h.kept.disconnect ws, ?_, ?_⟩
  · have hids : (s.broadcasts.map (State.leave ws)).map Party.id = s.broadcasts.map Party.id := by
      rw [List.map_map]
      rfl
    have hdistinct : ((s.broadcasts.map (State.leave ws)).map Party.id).Nodup := by
      rw [hids]
      exact h.distinct
    exact hdistinct
  · exact List.forall_mem_map.mpr fun q hq ↦ (h.advances q hq).leave ws

/-- Removing connections leaves a broadcast its number and its user. -/
theorem State.Sound.disconnectAll (h : s.Sound) (dead : List Connection) :
    (s.disconnectAll dead).Sound ∧ ∀ q ∈ s.broadcasts, ∃ q' ∈ (s.disconnectAll dead).broadcasts,
      q'.id = q.id ∧ q'.data = q.data := by
  unfold State.disconnectAll
  induction dead generalizing s with
  | nil => exact ⟨h, fun q hq ↦ ⟨q, hq, rfl, rfl⟩⟩
  | cons ws dead ih =>
    obtain ⟨hsound, hparties⟩ := ih (h.disconnect ws)
    refine ⟨hsound, fun q hq ↦ ?_⟩
    exact hparties (State.leave ws q) (List.mem_map_of_mem hq)

private theorem State.Sound.broadcast (h : s.Sound) {task : Nat}
    (hstep : s.broadcast task user = some t) :
    t.Sound := by
  unfold State.broadcast at hstep
  obtain ⟨broadcasts, henter, rfl⟩ := Option.map_eq_some_iff.mp hstep
  refine ⟨⟨h.kept.key, h.kept.opened, h.kept.nodup, h.kept.fresh, h.kept.objects⟩,
    Parties.distinct_enter h.distinct henter, ?_⟩
  obtain ⟨-, rfl⟩ := Parties.enter_eq_some.mp henter
  rw [List.forall_mem_cons]
  refine ⟨?_, h.advances⟩
  dsimp only
  split
  · exact advances_idle user
  · next o ho =>
    have hown := h.kept.user_of_lookup ho
    have hnodup := h.kept.nodup _ (mem_of_lookup ho)
    split
    · exact advances_idle user
    · next ws rest hset =>
      rw [hset] at hown hnodup
      exact ⟨hnodup, hown, fun _ hws ↦ hws, rfl, rfl, List.forall_mem_nil _, List.forall_mem_nil _,
        by simp, by simp⟩

/-- A broadcast goes on to the phase it has behind a step. -/
theorem State.Sound.goto (h : s.Sound) {task : Nat} (hq : q ∈ s.broadcasts) (hid : q.id = task)
    (hb : Advances q.data b) : { s with broadcasts := s.broadcasts.goto task b }.Sound := by
  refine ⟨⟨h.kept.key, h.kept.opened, h.kept.nodup, h.kept.fresh, h.kept.objects⟩,
    Parties.distinct_goto h.distinct, ?_⟩
  subst hid
  exact (Parties.forall_goto h.distinct hq).mpr ⟨hb, fun q' hq' _ ↦ h.advances q' hq'⟩

/-- A broadcast whose set is as it was takes the next member, or returns. -/
theorem State.Sound.iterate (h : s.Sound) {task : Nat} (hq : q ∈ s.broadcasts) (hid : q.id = task)
    (hb : Advances q.data b) (hset : s.heap b.targets = b.members) : (s.iterate task b).Sound := by
  unfold State.iterate
  rw [hset, if_neg (by rw [hb.used]; exact not_not_intro rfl)]
  split
  · next ws hnext =>
    refine h.goto hq hid { hb with attempts := ?_, complete := ?_ }
    · rw [hb.attempts, List.take_add_one, hnext, Option.toList_some]
    · intro hreturned
      exact Nat.le_succ_of_le (hb.complete hreturned)
  · next hnext =>
    obtain ⟨hsound, hparties⟩ := h.disconnectAll b.dead
    obtain ⟨q', hq', hid', hdata⟩ := hparties q hq
    refine hsound.goto hq' (hid'.trans hid) ?_
    rw [hdata]
    refine { hb with removed := ?_, complete := ?_, returns := ?_ }
    · intro ws hws
      obtain ⟨hactive, hgone⟩ := List.mem_filter.mp hws
      rw [decide_eq_true_eq, mem_active_disconnectAll, not_and, not_not] at hgone
      exact hb.dead ws (hgone hactive)
    · exact fun _ ↦ List.getElem?_eq_none_iff.mp hnext
    · simp

theorem State.Sound.sent (h : s.Sound) {task : Nat} {outcome : Option SendError}
    (hguard : Undisturbed s (.sent task outcome)) (hstep : s.sent task outcome = some t) :
    t.Sound := by
  obtain ⟨hset, hcaught⟩ := hguard
  unfold State.sent at hstep
  obtain ⟨q, hq, hid, hstep⟩ := Parties.exists_of_bind h.distinct hstep
  have hb := h.advances q hq
  dsimp only at hstep
  split at hstep
  · cases hstep
  · cases outcome with
    | none =>
      cases hstep
      exact h.iterate hq hid hb (hset q hq hid)
    | some e =>
      dsimp only at hstep
      rw [if_pos (hcaught e rfl)] at hstep
      cases hstep
      refine h.iterate hq hid { hb with dead := ?_, removed := ?_ } (hset q hq hid)
      · intro ws hws
        rcases List.mem_append.mp hws with hws | hws
        · exact List.mem_append_left _ (hb.dead ws hws)
        · exact List.mem_append_right _ hws
      · exact fun ws hws ↦ List.mem_append_left _ (hb.removed ws hws)

/-- In every run in which no broadcast is disturbed, all broadcasts are as required. -/
theorem allDeliver_of_undisturbed (events : List Label)
    (h : process.Guarded Undisturbed State.start events) :
    process.Always AllDeliver State.start events := by
  have hsound : process.Always State.Sound State.start events := by
    refine process.always_of_guarded ?_ State.sound_start h
    intro s label t hs hguard hstep
    cases label with
    | connect ws table => exact hs.connect hstep
    | disconnect ws =>
      cases hstep
      exact hs.disconnect ws
    | broadcast task user => exact hs.broadcast hstep
    | sent task outcome => exact hs.sent hguard hstep
  exact hsound.mono process fun s hs q hq ↦ (hs.advances q hq).delivers

/-- A send whose set has changed its size since its broadcast began makes that raise. -/
theorem raises_of_size {task : Nat} (h : (s.heap b.targets).length ≠ b.used) :
    (s.iterate task b).broadcasts = s.broadcasts.goto task { b with status := .raised } := by
  rw [State.iterate, if_pos h]

end Iteration

/-! ### A client that connects meanwhile -/

/-- A user and two connections. -/
def ada : User := ⟨"ada", by decide⟩

def first : Connection := ⟨1, ada⟩

def second : Connection := ⟨2, ada⟩

/-- A broadcast to the first connection, with a send that fails and another client that connects
when it is over. -/
theorem allDeliver_failedSend :
    process.Always AllDeliver State.start
      [.connect first [first], .broadcast 0 ada, .sent 0 (some .connectionError),
        .connect second [second], .disconnect second] :=
  allDeliver_of_undisturbed _ (by decide)

/-- While a broadcast is suspended in its send to the first connection of a user the second one
connects, and the broadcast raises. -/
theorem not_allDeliver_connect :
    ¬ process.Always AllDeliver State.start
      [.connect first [first], .broadcast 0 ada, .connect second [first, second],
        .sent 0 none] := by
  intro h
  have hreturns : process.Always (fun s ↦ ∀ q ∈ s.broadcasts, q.phase.status ≠ .raised) State.start
      [.connect first [first], .broadcast 0 ada, .connect second [first, second],
        .sent 0 none] := h.mono process fun s hs q hq ↦ (hs q hq).returns
  exact absurd hreturns (by decide)

end WikiMind.Jobs.Broadcasts
