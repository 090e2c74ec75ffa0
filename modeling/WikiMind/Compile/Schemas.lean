import WikiMind.Base.Parties
import WikiMind.Base.Run

/-!
# The active compilation schema

A request that activates a schema reads the active schemas of its user and turns them off
together with its own change, in one commit at its end (`services/compilation_schema.py:96`,
`database.py:131`); no constraint of the table limits the active ones. The system has one step
for each look-up and one for the commit of a request, in any interleaving of any number of
requests of any users.
-/

namespace WikiMind.Compile.Schemas

open WikiMind.Base

/-- `models/tables/user_settings.py:44`, without its directives. -/
structure CompilationSchema where
  id : Nat
  userId : String
  name : String
  isActive : Bool
  deriving DecidableEq, Repr

/-- The requests of `api/routes/compilation_schemas.py` that write. -/
inductive Request where
  | create (userId name : String) (isActive : Bool)
  | update (schemaId : Nat) (userId : String) (name : Option String) (isActive : Option Bool)
  | delete (schemaId : Nat) (userId : String)
  deriving DecidableEq, Repr

def Request.userId : Request → String
  | .create userId _ _ | .update _ userId _ _ | .delete _ userId => userId

/-- The request calls `_deactivate_all`. -/
def Request.activates : Request → Bool
  | .create _ _ isActive => isActive
  | .update _ _ _ isActive => isActive = some true
  | .delete .. => false

/-- Where a request stands: before its first look-up, with the schema it is about, with the
active schemas it has read; and whether it was committed. -/
inductive Phase where
  | started
  | loaded (row : CompilationSchema)
  | read (row : Option CompilationSchema) (active : List Nat)
  | ended | failed
  deriving DecidableEq, Repr

/-- The schema a request is about, as it was loaded. -/
def Phase.row? : Phase → Option CompilationSchema
  | .loaded row => some row
  | .read row _ => row
  | .started | .ended | .failed => none

/-- The active schemas a request has read. -/
def Phase.active : Phase → List Nat
  | .read _ active => active
  | _ => []

/-- The committed schemas, and all requests so far. -/
structure State where
  schemas : List CompilationSchema
  nextId : Nat
  requests : Parties Request Phase

/-- The steps of the system. A request may fail wherever it stands; so does one that writes a schema
which is gone, where the database counts the rows it has written. -/
inductive Label where
  | request (r : Nat) (data : Request)
  | load (r : Nat)
  | deactivateAll (r : Nat)
  | commit (r : Nat)
  | fail (r : Nat)
  deriving DecidableEq, Repr

/-- `_get_schema`: `services/compilation_schema.py:298`. -/
def getSchema (schemas : List CompilationSchema) (schemaId : Nat) (userId : String) :
    Option CompilationSchema :=
  schemas.find? fun c ↦ c.id = schemaId ∧ c.userId = userId

/-- Where a request stands once it has looked its schema up. -/
def afterLoad (schemas : List CompilationSchema) (schemaId : Nat) (userId : String) : Phase :=
  match getSchema schemas schemaId userId with
  | none => .failed
  | some row => .loaded row

/-- The schemas `_deactivate_all` selects: `services/compilation_schema.py:283`. -/
def activeOf (schemas : List CompilationSchema) (userId : String) : List Nat :=
  (schemas.filter fun c ↦ c.userId = userId ∧ c.isActive).map (·.id)

/-- `get_active_schema`, and the look-up of the compiler: `engine/compiler.py:404`. -/
def getActiveSchema (schemas : List CompilationSchema) (userId : String) :
    Except Exc (Option CompilationSchema) :=
  Rows.oneOrNone (fun c ↦ c.userId = userId ∧ c.isActive) schemas

/-- Schemas are written as inactive. -/
def deactivate (ids : List Nat) (schemas : List CompilationSchema) : List CompilationSchema :=
  Rows.modify (fun c ↦ ids.contains c.id) (fun c ↦ { c with isActive := false }) schemas

/-- The name of a user's schema is taken: `uq_compilationschema_user_name`. -/
def nameTaken (schemas : List CompilationSchema) (userId name : String) : Bool :=
  schemas.any fun c ↦ c.userId = userId ∧ c.name = name

/-- What an update writes on the stored row: the values given that differ from those loaded. -/
def CompilationSchema.change (row : CompilationSchema) (name : Option String)
    (isActive : Option Bool) (stored : CompilationSchema) : CompilationSchema :=
  { stored with
    name := if name.getD row.name = row.name then stored.name else name.getD row.name
    isActive := if isActive.getD row.isActive = row.isActive then stored.isActive
      else isActive.getD row.isActive }

/-- The schemas after a commit; `none` where the database refuses it. -/
def commitRows (schemas : List CompilationSchema) (nextId : Nat) (data : Request)
    (phase : Phase) : Option (List CompilationSchema) :=
  match data, phase.row? with
  | .create userId name isActive, _ =>
    if nameTaken schemas userId name then none
    else some (deactivate phase.active schemas ++ [⟨nextId, userId, name, isActive⟩])
  | .update _ userId name isActive, some row =>
    if ¬ schemas.any (·.id = row.id) then none
    else if name.getD row.name ≠ row.name ∧ nameTaken schemas userId (name.getD row.name) then none
    else
      some (Rows.modify (·.id = row.id) (row.change name isActive)
        (deactivate (phase.active.filter (· ≠ row.id)) schemas))
  | .delete .., some row => some (schemas.filter (·.id ≠ row.id))
  | _, none => none

/-- The request has done its look-ups. -/
def isReady : Request → Phase → Bool
  | .create _ _ isActive, .started => !isActive
  | .create _ _ isActive, .read none _ => isActive
  | .update _ _ _ isActive, .loaded _ => isActive ≠ some true
  | .update _ _ _ isActive, .read (some _) _ => isActive = some true
  | .delete .., .loaded _ => true
  | _, _ => false

/-- A request goes on to a phase. -/
def State.goto (s : State) (r : Nat) (phase : Phase) : State :=
  { s with requests := s.requests.goto r phase }

/-- One step; `none` when it is not enabled. -/
def step (s : State) : Label → Option State
  | .request r data =>
    (s.requests.enter r data .started).map fun requests ↦ { s with requests }
  | .load r =>
    (s.requests.get? r).bind fun q ↦
      match q.phase, q.data with
      | .started, .update schemaId userId _ _ | .started, .delete schemaId userId =>
        some (s.goto r (afterLoad s.schemas schemaId userId))
      | _, _ => none
  | .deactivateAll r =>
    (s.requests.get? r).bind fun q ↦
      match q.phase, q.data with
      | .started, .create userId _ true =>
        some (s.goto r (.read none (activeOf s.schemas userId)))
      | .loaded row, .update _ userId _ (some true) =>
        some (s.goto r (.read (some row) (activeOf s.schemas userId)))
      | _, _ => none
  | .commit r =>
    (s.requests.get? r).bind fun q ↦
      if isReady q.data q.phase then
        match commitRows s.schemas s.nextId q.data q.phase with
        | none => some (s.goto r .failed)
        | some schemas => some { s.goto r .ended with schemas, nextId := s.nextId + 1 }
      else none
  | .fail r =>
    (s.requests.get? r).bind fun q ↦
      match q.phase with
      | .ended | .failed => none
      | _ => some (s.goto r .failed)

/-- The system of the schema requests. -/
def schemaRequests : Machine State Label := ⟨step⟩

/-- No schema has been created. -/
def State.start : State := ⟨[], 0, []⟩

/-- Every user has at most one active schema. -/
def OneActive (schemas : List CompilationSchema) : Prop :=
  ∀ a ∈ schemas, ∀ b ∈ schemas, a.isActive = true → b.isActive = true → a.userId = b.userId →
    a.id = b.id

instance (schemas : List CompilationSchema) : Decidable (OneActive schemas) :=
  inferInstanceAs (Decidable (∀ a ∈ schemas, ∀ b ∈ schemas, _ → _ → _ → _))

/-- The commit of a request makes an inactive schema active. -/
def turnsOn (data : Request) (phase : Phase) : Bool :=
  data.activates && (phase.row?.all fun row ↦ !row.isActive)

/-- A request that makes a schema active finds no other one of its user active than those it
has read; or the database refuses it. -/
def ActivatesKnown (s : State) : Label → Prop
  | .commit r => ∀ q ∈ s.requests.get? r, isReady q.data q.phase = true →
      (commitRows s.schemas s.nextId q.data q.phase).isSome = true →
      turnsOn q.data q.phase = true → ∀ c ∈ s.schemas, c.userId = q.data.userId →
        c.isActive = true → c.id ∈ q.phase.active ∨ ∃ row ∈ q.phase.row?, c.id = row.id
  | _ => True

instance (s : State) : ∀ l, Decidable (ActivatesKnown s l)
  | .commit r => inferInstanceAs (Decidable (∀ q ∈ s.requests.get? r,
      isReady q.data q.phase = true →
      (commitRows s.schemas s.nextId q.data q.phase).isSome = true →
      turnsOn q.data q.phase = true → ∀ c ∈ s.schemas, c.userId = q.data.userId →
        c.isActive = true → c.id ∈ q.phase.active ∨ ∃ row ∈ q.phase.row?, c.id = row.id))
  | .request .. | .load _ | .deactivateAll _ | .fail _ => .isTrue trivial

/-- A request reads the active schemas and is committed with no other commit in between. -/
def CommitsInTurn (s : State) : Label → Prop
  | .commit r => ∀ q ∈ s.requests, q.id ≠ r → ∀ row active, q.phase ≠ .read row active
  | _ => True

/-- What every request has read is still there. -/
def State.Current (s : State) : Prop :=
  ∀ q ∈ s.requests, ∀ row active, q.phase = .read row active →
    active = activeOf s.schemas q.data.userId

/-- What holds in every state: numbers are unique, and a request has loaded a schema of its
user. -/
structure State.Sound (s : State) : Prop where
  distinct : s.requests.Distinct
  ids : (s.schemas.map (·.id)).Nodup
  next : ∀ c ∈ s.schemas, c.id < s.nextId
  rows : ∀ q ∈ s.requests, ∀ row ∈ q.phase.row?, row.id < s.nextId ∧
    ∀ c ∈ s.schemas, c.id = row.id → c.userId = q.data.userId

section
variable {s t : State} {q : Party Request Phase} {phase : Phase}
  {schemas schemas' : List CompilationSchema} {data : Request} {row : CompilationSchema}

/-- A schema behind `deactivate` was there before; one that is active is as it was. -/
theorem mem_deactivate {ids : List Nat} {c : CompilationSchema} (h : c ∈ deactivate ids schemas) :
    ∃ c' ∈ schemas, c'.id = c.id ∧ c'.userId = c.userId ∧
      (c.isActive = true → c' = c ∧ c.id ∉ ids) := by
  rcases Rows.mem_modify.mp h with ⟨c', hc', hid, rfl⟩ | ⟨hc, hid⟩
  · exact ⟨c', hc', rfl, rfl, fun hactive ↦ by cases hactive⟩
  · exact ⟨c, hc, rfl, rfl, fun _ ↦ ⟨rfl, by simpa using hid⟩⟩

private theorem mem_deactivate_of_not_mem {ids : List Nat} {c : CompilationSchema}
    (hc : c ∈ schemas)
    (hid : c.id ∉ ids) : c ∈ deactivate ids schemas :=
  Rows.mem_modify.mpr (.inr ⟨hc, by simpa using hid⟩)

private theorem map_id_deactivate (ids : List Nat) (schemas : List CompilationSchema) :
    (deactivate ids schemas).map (·.id) = schemas.map (·.id) :=
  Rows.map_modify fun _ _ _ ↦ rfl

/-- Active schemas that were active before are no more than one a user. -/
theorem OneActive.of_active (h : OneActive schemas)
    (hfrom : ∀ c ∈ schemas', c.isActive = true →
      ∃ c' ∈ schemas, c'.isActive = true ∧ c'.id = c.id ∧ c'.userId = c.userId) :
    OneActive schemas' := by
  intro a ha b hb hactive hactive' huser
  obtain ⟨a', ha', hon, hid, howner⟩ := hfrom a ha hactive
  obtain ⟨b', hb', hon', hid', howner'⟩ := hfrom b hb hactive'
  rw [← hid, ← hid']
  exact h a' ha' b' hb' hon hon' (howner.trans (huser.trans howner'.symm))

/-- Where the rows of a commit come from: a stored row, or the one that is created. -/
theorem commitRows_back {nextId : Nat}
    (h : commitRows schemas nextId data phase = some schemas') :
    ∀ c ∈ schemas', (∃ c' ∈ schemas, c'.id = c.id ∧ c'.userId = c.userId) ∨ c.id = nextId := by
  intro c hc
  unfold commitRows at h
  split at h
  · obtain ⟨_, hrows⟩ := Option.ite_none_left_eq_some.mp h
    cases hrows
    rcases List.mem_append.mp hc with hold | hnew
    · obtain ⟨c', hc', hid, huser, _⟩ := mem_deactivate hold
      exact .inl ⟨c', hc', hid, huser⟩
    · rw [List.mem_singleton.mp hnew]
      exact .inr rfl
  · obtain ⟨_, h⟩ := Option.ite_none_left_eq_some.mp h
    obtain ⟨_, hrows⟩ := Option.ite_none_left_eq_some.mp h
    cases hrows
    left
    rcases Rows.mem_modify.mp hc with ⟨c₁, hc₁, _, rfl⟩ | ⟨hc₁, _⟩
    · obtain ⟨c', hc', hid, huser, _⟩ := mem_deactivate hc₁
      exact ⟨c', hc', hid, huser⟩
    · obtain ⟨c', hc', hid, huser, _⟩ := mem_deactivate hc₁
      exact ⟨c', hc', hid, huser⟩
  · cases h
    exact .inl ⟨c, List.mem_of_mem_filter hc, rfl, rfl⟩
  · cases h

private theorem nodup_commitRows {nextId : Nat} (hids : (schemas.map (·.id)).Nodup)
    (hnext : ∀ c ∈ schemas, c.id < nextId)
    (h : commitRows schemas nextId data phase = some schemas') :
    (schemas'.map (·.id)).Nodup := by
  unfold commitRows at h
  split at h
  · obtain ⟨_, hrows⟩ := Option.ite_none_left_eq_some.mp h
    cases hrows
    refine Rows.nodup_map_concat.mpr ⟨map_id_deactivate _ schemas ▸ hids, fun c hc ↦ ?_⟩
    obtain ⟨c', hc', hid, _⟩ := mem_deactivate hc
    exact hid ▸ Nat.ne_of_lt (hnext c' hc')
  · obtain ⟨_, h⟩ := Option.ite_none_left_eq_some.mp h
    obtain ⟨_, hrows⟩ := Option.ite_none_left_eq_some.mp h
    cases hrows
    have hmodify (row : CompilationSchema) (name : Option String) (isActive : Option Bool)
        (rows : List CompilationSchema) :
        (Rows.modify (·.id = row.id) (row.change name isActive) rows).map (·.id) =
          rows.map (·.id) := Rows.map_modify fun _ _ _ ↦ rfl
    rw [hmodify, map_id_deactivate]
    exact hids
  · cases h
    exact hids.sublist (List.filter_sublist.map _)
  · cases h

/-- A created schema that is active is the only one precisely where all active ones of its
user are turned off. -/
theorem oneActive_create_iff {nextId : Nat} {userId name : String} {ids : List Nat}
    (hnext : ∀ c ∈ schemas, c.id < nextId) (hone : OneActive schemas) :
    OneActive (deactivate ids schemas ++ [⟨nextId, userId, name, true⟩]) ↔
      ∀ c ∈ schemas, c.userId = userId → c.isActive = true → c.id ∈ ids := by
  constructor
  · intro h c hc huser hactive
    by_contra hid
    have hsame := h c (List.mem_append_left _ (mem_deactivate_of_not_mem hc hid)) _
      (List.mem_append_right _ (List.mem_singleton_self _)) hactive rfl huser
    exact absurd hsame (Nat.ne_of_lt (hnext c hc))
  · intro h
    -- no other schema of the user is left active
    have hfree (c : CompilationSchema) (hc : c ∈ deactivate ids schemas)
        (hactive : c.isActive = true) (huser : c.userId = userId) : False := by
      obtain ⟨c', hc', _, _, hkept⟩ := mem_deactivate hc
      obtain ⟨rfl, hid⟩ := hkept hactive
      exact hid (h c' hc' huser hactive)
    intro a ha b hb hactive hactive' huser
    rcases List.mem_append.mp ha with hold | hnew
    · rcases List.mem_append.mp hb with hold' | hnew'
      · obtain ⟨a', ha', _, _, hkept⟩ := mem_deactivate hold
        obtain ⟨b', hb', _, _, hkept'⟩ := mem_deactivate hold'
        obtain ⟨rfl, _⟩ := hkept hactive
        obtain ⟨rfl, _⟩ := hkept' hactive'
        exact hone a' ha' b' hb' hactive hactive' huser
      · rw [List.mem_singleton.mp hnew'] at huser
        exact (hfree a hold hactive huser).elim
    · rcases List.mem_append.mp hb with hold' | hnew'
      · rw [List.mem_singleton.mp hnew] at huser
        exact (hfree b hold' hactive' huser.symm).elim
      · rw [List.mem_singleton.mp hnew, List.mem_singleton.mp hnew']

/-- An update that makes a schema active leaves it the only one precisely where all others of
its user are turned off. -/
theorem oneActive_update_iff {name : Option String} {userId : String} {ids : List Nat}
    (hrow : row.isActive = false) (hstored : ∃ c ∈ schemas, c.id = row.id)
    (howner : ∀ c ∈ schemas, c.id = row.id → c.userId = userId) (hone : OneActive schemas) :
    OneActive (Rows.modify (·.id = row.id) (row.change name (some true))
        (deactivate (ids.filter (· ≠ row.id)) schemas)) ↔
      ∀ c ∈ schemas, c.userId = userId → c.isActive = true → c.id ∈ ids ∨ c.id = row.id := by
  have hchange (c : CompilationSchema) : (row.change name (some true) c).isActive = true := by
    simp [CompilationSchema.change, hrow]
  constructor
  · intro h c hc huser hactive
    by_contra hnot
    obtain ⟨hid, hne⟩ := not_or.mp hnot
    obtain ⟨x, hx, hxid⟩ := hstored
    have hxmem : row.change name (some true) x ∈ Rows.modify (·.id = row.id)
        (row.change name (some true)) (deactivate (ids.filter (· ≠ row.id)) schemas) :=
      Rows.mem_modify.mpr (.inl ⟨x, mem_deactivate_of_not_mem hx (by simp [hxid]),
        by simpa using hxid, rfl⟩)
    have hcmem : c ∈ Rows.modify (·.id = row.id) (row.change name (some true))
        (deactivate (ids.filter (· ≠ row.id)) schemas) :=
      Rows.mem_modify.mpr (.inr ⟨mem_deactivate_of_not_mem hc (by simp [hid]), by simpa using hne⟩)
    have hsame := h c hcmem _ hxmem hactive (hchange x) (huser.trans (howner x hx hxid).symm)
    exact hne (hsame.trans hxid)
  · intro h
    -- an active row is the updated one, or was active and is of another user
    have hfrom (c : CompilationSchema) (hc : c ∈ Rows.modify (·.id = row.id)
        (row.change name (some true)) (deactivate (ids.filter (· ≠ row.id)) schemas))
        (hactive : c.isActive = true) : (c.id = row.id ∧ c.userId = userId) ∨
          (c ∈ schemas ∧ c.userId ≠ userId) := by
      rcases Rows.mem_modify.mp hc with ⟨c₁, hc₁, hid, rfl⟩ | ⟨hc₁, hid⟩
      · obtain ⟨c', hc', hid', huser, _⟩ := mem_deactivate hc₁
        have hid : c₁.id = row.id := of_decide_eq_true hid
        exact .inl ⟨hid, huser.symm.trans (howner c' hc' (hid'.trans hid))⟩
      · obtain ⟨c', hc', _, _, hkept⟩ := mem_deactivate hc₁
        obtain ⟨rfl, hfree⟩ := hkept hactive
        have hne : c'.id ≠ row.id := of_decide_eq_false hid
        refine .inr ⟨hc', fun huser ↦ ?_⟩
        rcases h c' hc' huser hactive with hmem | hmem
        · exact hfree (List.mem_filter.mpr ⟨hmem, by simpa using hne⟩)
        · exact hne hmem
    intro a ha b hb hactive hactive' huser
    rcases hfrom a ha hactive with ⟨hid, howner₁⟩ | ⟨hmem, hother⟩
    · rcases hfrom b hb hactive' with ⟨hid', _⟩ | ⟨_, hother'⟩
      · exact hid.trans hid'.symm
      · exact absurd (huser.symm.trans howner₁) hother'
    · rcases hfrom b hb hactive' with ⟨_, howner₂⟩ | ⟨hmem', _⟩
      · exact absurd (huser.trans howner₂) hother
      · exact hone a hmem b hmem' hactive hactive' huser

/-- An update that makes no schema active leaves at most one a user. -/
theorem oneActive_update_off {name : Option String} {isActive : Option Bool} {ids : List Nat}
    (hoff : isActive = some true → row.isActive = true) (hone : OneActive schemas) :
    OneActive (Rows.modify (·.id = row.id) (row.change name isActive)
      (deactivate ids schemas)) := by
  refine hone.of_active fun c hc hactive ↦ ?_
  rcases Rows.mem_modify.mp hc with ⟨c₁, hc₁, _, rfl⟩ | ⟨hc₁, _⟩
  · have hactive : c₁.isActive = true := by
      cases isActive with
      | none => simpa [CompilationSchema.change] using hactive
      | some value =>
        cases value with
        | true => simpa [CompilationSchema.change, hoff rfl] using hactive
        | false =>
          cases hrow : row.isActive with
          | true => simp [CompilationSchema.change, hrow] at hactive
          | false => simpa [CompilationSchema.change, hrow] using hactive
    obtain ⟨c', hc', _, _, hkept⟩ := mem_deactivate hc₁
    obtain ⟨rfl, _⟩ := hkept hactive
    exact ⟨c', hc', hactive, rfl, rfl⟩
  · obtain ⟨c', hc', _, _, hkept⟩ := mem_deactivate hc₁
    obtain ⟨rfl, _⟩ := hkept hactive
    exact ⟨c', hc', hactive, rfl, rfl⟩

/-- A commit leaves at most one active schema a user precisely where the schema it makes
active meets no other active one than those read. -/
theorem oneActive_commit_iff (hs : s.Sound) (hq : q ∈ s.requests)
    (hready : isReady q.data q.phase = true) (hone : OneActive s.schemas)
    (h : commitRows s.schemas s.nextId q.data q.phase = some schemas') :
    OneActive schemas' ↔ (turnsOn q.data q.phase = true → ∀ c ∈ s.schemas,
      c.userId = q.data.userId → c.isActive = true →
        c.id ∈ q.phase.active ∨ ∃ row ∈ q.phase.row?, c.id = row.id) := by
  have hrows := hs.rows q hq
  cases hdata : q.data with
  | create userId name isActive =>
    rw [hdata] at h hready
    obtain ⟨_, hnew⟩ := Option.ite_none_left_eq_some.mp h
    cases hnew
    cases isActive with
    | false =>
      refine iff_of_true (hone.of_active fun c hc hactive ↦ ?_) (fun hon ↦ by cases hon)
      rcases List.mem_append.mp hc with hold | hnew
      · obtain ⟨c', hc', _, _, hkept⟩ := mem_deactivate hold
        obtain ⟨rfl, _⟩ := hkept hactive
        exact ⟨c', hc', hactive, rfl, rfl⟩
      · rw [List.mem_singleton.mp hnew] at hactive
        cases hactive
    | true =>
      have hrow : q.phase.row? = none := by
        cases hphase : q.phase with
        | read row active =>
          cases row with
          | none => rfl
          | some row => rw [hphase] at hready; cases hready
        | _ => rw [hphase] at hready; cases hready
      rw [oneActive_create_iff hs.next hone]
      simp [turnsOn, Request.activates, Request.userId, hrow]
  | update schemaId userId name isActive =>
    rw [hdata] at h hready
    cases hrow : q.phase.row? with
    | none =>
      unfold commitRows at h
      rw [hrow] at h
      cases h
    | some row =>
      unfold commitRows at h
      rw [hrow] at h
      obtain ⟨hstored, h⟩ := Option.ite_none_left_eq_some.mp h
      obtain ⟨_, hnew⟩ := Option.ite_none_left_eq_some.mp h
      cases hnew
      obtain ⟨_, howner⟩ := hrows row hrow
      rw [hdata] at howner
      by_cases hon : isActive = some true ∧ row.isActive = false
      · obtain ⟨rfl, hinactive⟩ := hon
        have hstored : ∃ c ∈ s.schemas, c.id = row.id := by simpa using hstored
        rw [oneActive_update_iff hinactive hstored howner hone]
        simp [turnsOn, Request.activates, Request.userId, hrow, hinactive]
      · refine iff_of_true (oneActive_update_off (fun hactive ↦ ?_) hone) fun hturns ↦ ?_
        · by_contra hinactive
          exact hon ⟨hactive, by simpa using hinactive⟩
        · simp only [turnsOn, Request.activates, hrow, Option.all_some, Bool.and_eq_true,
            decide_eq_true_eq, Bool.not_eq_true'] at hturns
          exact absurd hturns hon
  | delete schemaId userId =>
    refine iff_of_true (hone.of_active fun c hc hactive ↦ ?_) fun hon ↦ by cases hon
    rw [hdata] at h
    cases hrow : q.phase.row? with
    | none =>
      unfold commitRows at h
      rw [hrow] at h
      cases h
    | some row =>
      unfold commitRows at h
      rw [hrow] at h
      cases h
      exact ⟨c, List.mem_of_mem_filter hc, hactive, rfl, rfl⟩

/-! ### The steps -/

theorem State.Sound.goto (hs : s.Sound) (hq : q ∈ s.requests)
    (hrow : ∀ row ∈ phase.row?, row.id < s.nextId ∧
      ∀ c ∈ s.schemas, c.id = row.id → c.userId = q.data.userId) :
    (s.goto q.id phase).Sound where
  distinct := Parties.distinct_goto hs.distinct
  ids := hs.ids
  next := hs.next
  rows := (Parties.forall_goto hs.distinct hq).mpr ⟨hrow, fun q' hq' _ ↦ hs.rows q' hq'⟩

private theorem getSchema_spec {schemaId : Nat} {userId : String}
    (h : getSchema schemas schemaId userId = some row) : row ∈ schemas ∧ row.userId = userId := by
  have hprop := List.find?_some h
  simp only [decide_eq_true_eq] at hprop
  exact ⟨List.mem_of_find?_eq_some h, hprop.2⟩

/-- A loaded schema is of the user of the request. -/
theorem afterLoad_rows {schemaId : Nat} {userId : String} (hs : s.Sound)
    (huser : data.userId = userId) :
    ∀ row ∈ (afterLoad s.schemas schemaId userId).row?, row.id < s.nextId ∧
      ∀ c ∈ s.schemas, c.id = row.id → c.userId = data.userId := by
  unfold afterLoad
  split
  · simp [Phase.row?]
  next row hfound =>
    obtain ⟨hmem, howner⟩ := getSchema_spec hfound
    rintro _ ⟨⟩
    refine ⟨hs.next row hmem, fun c hc hid ↦ ?_⟩
    rw [Rows.eq_of_nodup hs.ids hmem hc hid, howner, huser]

theorem State.Sound.commit (hs : s.Sound) (hq : q ∈ s.requests)
    (h : commitRows s.schemas s.nextId q.data q.phase = some schemas') :
    State.Sound { s.goto q.id .ended with schemas := schemas', nextId := s.nextId + 1 } where
  distinct := Parties.distinct_goto hs.distinct
  ids := nodup_commitRows hs.ids hs.next h
  next c hc := by
    rcases commitRows_back h c hc with ⟨c', hc', hid, _⟩ | hnew
    · exact hid ▸ Nat.lt_succ_of_lt (hs.next c' hc')
    · exact hnew ▸ Nat.lt_succ_self _
  rows := by
    refine (Parties.forall_goto hs.distinct hq).mpr ⟨by simp [Phase.row?], ?_⟩
    intro q' hq' _ row hrow
    obtain ⟨hlt, howner⟩ := hs.rows q' hq' row hrow
    refine ⟨Nat.lt_succ_of_lt hlt, fun c hc hid ↦ ?_⟩
    rcases commitRows_back h c hc with ⟨c', hc', hid', huser⟩ | hnew
    · exact huser ▸ howner c' hc' (hid'.trans hid)
    · exact absurd (hid.symm.trans hnew) (Nat.ne_of_lt hlt)

/-- What a step does to a sound state: it stays sound, and it keeps at most one schema a user
active precisely where it activates none beside another. -/
theorem step_spec {l : Label} (hs : s.Sound) (h : step s l = some t) :
    t.Sound ∧ (OneActive s.schemas → (OneActive t.schemas ↔ ActivatesKnown s l)) := by
  cases l with
  | request r data =>
    obtain ⟨requests, henter, rfl⟩ := Option.map_eq_some_iff.mp h
    refine ⟨⟨Parties.distinct_enter hs.distinct henter, hs.ids, hs.next, ?_⟩,
      fun hone ↦ iff_of_true hone trivial⟩
    obtain ⟨_, rfl⟩ := Parties.enter_eq_some.mp henter
    exact List.forall_mem_cons.mpr ⟨by simp [Phase.row?], hs.rows⟩
  | load r =>
    obtain ⟨q, hq, rfl, hnext⟩ := Parties.exists_of_bind hs.distinct h
    split at hnext
    next schemaId userId name isActive hphase hdata =>
      cases hnext
      exact ⟨hs.goto hq (afterLoad_rows hs (by rw [hdata]; rfl)),
        fun hone ↦ iff_of_true hone trivial⟩
    next schemaId userId hphase hdata =>
      cases hnext
      exact ⟨hs.goto hq (afterLoad_rows hs (by rw [hdata]; rfl)),
        fun hone ↦ iff_of_true hone trivial⟩
    · cases hnext
  | deactivateAll r =>
    obtain ⟨q, hq, rfl, hnext⟩ := Parties.exists_of_bind hs.distinct h
    split at hnext
    · cases hnext
      exact ⟨hs.goto hq (by simp [Phase.row?]), fun hone ↦ iff_of_true hone trivial⟩
    next row schemaId userId name hphase hdata =>
      cases hnext
      refine ⟨hs.goto hq ?_, fun hone ↦ iff_of_true hone trivial⟩
      have hrows := hs.rows q hq
      rw [hphase] at hrows
      exact hrows
    · cases hnext
  | commit r =>
    obtain ⟨q, hq, rfl, hnext⟩ := Parties.exists_of_bind hs.distinct h
    have hget := (Parties.get?_eq_some hs.distinct).mpr ⟨hq, rfl⟩
    split at hnext
    next hready =>
      split at hnext
      next hrefused =>
        cases hnext
        refine ⟨hs.goto hq (by simp [Phase.row?]), fun hone ↦ iff_of_true hone ?_⟩
        rintro q' hq' _ hsome
        rw [hget] at hq'
        cases hq'
        rw [hrefused] at hsome
        cases hsome
      next schemas' hcommit =>
        cases hnext
        refine ⟨hs.commit hq hcommit, fun hone ↦ ?_⟩
        rw [oneActive_commit_iff hs hq hready hone hcommit]
        simp [ActivatesKnown, hget, hready, hcommit]
    · cases hnext
  | fail r =>
    obtain ⟨q, hq, rfl, hnext⟩ := Parties.exists_of_bind hs.distinct h
    split at hnext
    · cases hnext
    · cases hnext
    · cases hnext
      exact ⟨hs.goto hq (by simp [Phase.row?]), fun hone ↦ iff_of_true hone trivial⟩

/-- A request that activates a schema is committed behind its look-up of the active ones. -/
theorem exists_read_of_turnsOn (hready : isReady data phase = true)
    (hturns : turnsOn data phase = true) : ∃ row active, phase = .read row active := by
  obtain ⟨hactivates, -⟩ := Bool.and_eq_true_iff.mp hturns
  cases data with
  | create userId name isActive =>
    cases hactivates
    cases phase with
    | read row active => exact ⟨row, active, rfl⟩
    | _ => cases hready
  | update schemaId userId name isActive =>
    have hon : isActive = some true := of_decide_eq_true hactivates
    cases hon
    cases phase with
    | read row active => exact ⟨row, active, rfl⟩
    | _ => cases hready
  | delete schemaId userId => cases hactivates

private theorem mem_activeOf {userId : String} {c : CompilationSchema} (hc : c ∈ schemas)
    (huser : c.userId = userId) (hactive : c.isActive = true) : c.id ∈ activeOf schemas userId :=
  List.mem_map_of_mem (List.mem_filter.mpr ⟨hc, by simp [huser, hactive]⟩)

theorem State.Current.goto (hs : s.Sound) (h : s.Current) (hq : q ∈ s.requests)
    (hphase : ∀ row active, phase = .read row active →
      active = activeOf s.schemas q.data.userId) : (s.goto q.id phase).Current :=
  (Parties.forall_goto hs.distinct hq).mpr ⟨hphase, fun q' hq' _ ↦ h q' hq'⟩

/-- A commit in turn finds no other active schemas than those it has read, and leaves what others
have read as it is. -/
theorem current_step {l : Label} (hs : s.Sound) (hcurrent : s.Current) (hturn : CommitsInTurn s l)
    (h : step s l = some t) : t.Current ∧ ActivatesKnown s l := by
  cases l with
  | request r data =>
    obtain ⟨requests, henter, rfl⟩ := Option.map_eq_some_iff.mp h
    obtain ⟨_, rfl⟩ := Parties.enter_eq_some.mp henter
    exact ⟨List.forall_mem_cons.mpr ⟨fun _ _ hphase ↦ (by cases hphase), hcurrent⟩, trivial⟩
  | load r =>
    obtain ⟨q, hq, rfl, hnext⟩ := Parties.exists_of_bind hs.distinct h
    have hload (schemaId : Nat) (userId : String) (row : Option CompilationSchema)
        (active : List Nat) : afterLoad s.schemas schemaId userId ≠ .read row active := by
      unfold afterLoad
      split <;> exact Phase.noConfusion
    split at hnext
    · cases hnext
      exact ⟨hcurrent.goto hs hq fun row active hphase ↦ (hload _ _ row active hphase).elim,
        trivial⟩
    · cases hnext
      exact ⟨hcurrent.goto hs hq fun row active hphase ↦ (hload _ _ row active hphase).elim,
        trivial⟩
    · cases hnext
  | deactivateAll r =>
    obtain ⟨q, hq, rfl, hnext⟩ := Parties.exists_of_bind hs.distinct h
    split at hnext
    next userId name hphase hdata =>
      cases hnext
      refine ⟨hcurrent.goto hs hq fun row active hread ↦ ?_, trivial⟩
      cases hread
      rw [hdata]
      rfl
    next loaded schemaId userId name hphase hdata =>
      cases hnext
      refine ⟨hcurrent.goto hs hq fun row active hread ↦ ?_, trivial⟩
      cases hread
      rw [hdata]
      rfl
    · cases hnext
  | commit r =>
    obtain ⟨q, hq, rfl, hnext⟩ := Parties.exists_of_bind hs.distinct h
    have hget := (Parties.get?_eq_some hs.distinct).mpr ⟨hq, rfl⟩
    -- no other request is behind its look-up, so nothing that was read is changed
    have hothers (phase : Phase) (hphase : ∀ row active, phase ≠ .read row active) :
        ∀ q' ∈ s.requests.goto q.id phase, ∀ row active, q'.phase ≠ .read row active :=
      (Parties.forall_goto hs.distinct hq).mpr ⟨hphase, fun q' hq' hne ↦ hturn q' hq' hne⟩
    refine ⟨?_, ?_⟩
    · split at hnext
      · split at hnext
        · cases hnext
          exact fun q' hq' row active hread ↦
            (hothers .failed (fun _ _ ↦ Phase.noConfusion) q' hq' row active hread).elim
        · cases hnext
          exact fun q' hq' row active hread ↦
            (hothers .ended (fun _ _ ↦ Phase.noConfusion) q' hq' row active hread).elim
      · cases hnext
    · rintro q' hq' hready - hturns c hc huser hactive
      rw [hget] at hq'
      cases hq'
      obtain ⟨row, active, hphase⟩ := exists_read_of_turnsOn hready hturns
      left
      rw [hphase]
      have hread := hcurrent q hq row active hphase
      exact hread ▸ mem_activeOf hc huser hactive
  | fail r =>
    obtain ⟨q, hq, rfl, hnext⟩ := Parties.exists_of_bind hs.distinct h
    split at hnext
    · cases hnext
    · cases hnext
    · cases hnext
      exact ⟨hcurrent.goto hs hq fun _ _ hphase ↦ (by cases hphase), trivial⟩

/-- Where at most one schema of each user is active, no look-up of the active one raises, and
the other way round. -/
theorem oneActive_iff_getActiveSchema (hs : s.Sound) :
    OneActive s.schemas ↔ ∀ userId, ¬ Raises (getActiveSchema s.schemas userId) := by
  constructor
  · intro hone userId hraises
    obtain ⟨found, hfound⟩ : ∃ found, getActiveSchema s.schemas userId = .ok found := by
      refine Rows.oneOrNone_ok_of_unique (List.Nodup.of_map _ hs.ids) ?_
      intro a ha b hb hactive hactive'
      simp only [decide_eq_true_eq] at hactive hactive'
      have hid := hone a ha b hb hactive.2 hactive'.2 (hactive.1.trans hactive'.1.symm)
      exact Rows.eq_of_nodup hs.ids hb ha hid
    rw [hfound] at hraises
    exact raises_ok found hraises
  · intro h a ha b hb hactive hactive' huser
    have hok := h a.userId
    cases hfound : getActiveSchema s.schemas a.userId with
    | error e => exact absurd ⟨e, hfound⟩ hok
    | ok found =>
      cases found with
      | none =>
        have hnot := Rows.not_of_oneOrNone hfound ha
        simp [hactive] at hnot
      | some c =>
        rw [Rows.eq_of_oneOrNone hfound ha (by simp [hactive]),
          Rows.eq_of_oneOrNone hfound hb (by simp [hactive', huser])]

end

/-- Every user has at most one active schema, and no look-up of it raises. -/
def State.AtMostOne (s : State) : Prop :=
  OneActive s.schemas ∧ ∀ userId, ¬ Raises (getActiveSchema s.schemas userId)

theorem sound_start : State.start.Sound where
  distinct := Parties.distinct_nil
  ids := List.nodup_nil
  next := by simp [State.start]
  rows := by simp [State.start]

/-- Requests that are committed in turn activate no schema beside one that they have not read. -/
theorem activatesKnown_of_inTurn {ls : List Label}
    (h : schemaRequests.Guarded CommitsInTurn .start ls) :
    schemaRequests.Guarded ActivatesKnown .start ls := by
  refine schemaRequests.guarded_of_guarded (I := fun s ↦ s.Sound ∧ s.Current)
    (fun s l t hs hl hstep ↦ ?_) ⟨sound_start, by simp [State.Current, State.start]⟩ h
  obtain ⟨hcurrent, hknown⟩ := current_step hs.1 hs.2 hl hstep
  exact ⟨⟨(step_spec hs.1 hstep).1, hcurrent⟩, hknown⟩

/-- Through any interleaving every user has at most one active schema, and the compiler's
look-up of it never raises, precisely as long as no request activates a schema beside one
that became active after it had read the active ones. -/
theorem atMostOne_always_iff (ls : List Label) :
    schemaRequests.Always State.AtMostOne .start ls ↔
      schemaRequests.Guarded ActivatesKnown .start ls := by
  have hone {s : State} (hs : s.Sound) : s.AtMostOne ↔ OneActive s.schemas :=
    and_iff_left_of_imp (oneActive_iff_getActiveSchema hs).mp
  rw [schemaRequests.always_iff_guarded (W := State.Sound) (G := ActivatesKnown)
    (fun _ _ _ hs h ↦ (step_spec hs h).1) ?_ sound_start ls]
  · rw [hone sound_start]
    simp [OneActive, State.start]
  · intro s l t hs hbefore h
    obtain ⟨ht, hstep⟩ := step_spec hs h
    rw [hone ht]
    exact hstep ((hone hs).mp hbefore)

/-- Two creations of an active schema that overlap leave both active, and the compiler's
look-up raises. -/
theorem overlapping_creations :
    ¬ schemaRequests.Always State.AtMostOne .start
      [.request 0 (.create "u" "brief" true), .request 1 (.create "u" "long" true),
        .deactivateAll 0, .deactivateAll 1, .commit 0, .commit 1] := by
  intro h
  have hlast := (schemaRequests.always_iff_forall _ _ _).mp h _ (List.prefix_refl _) _ rfl
  exact absurd hlast.1 (by decide)

end WikiMind.Compile.Schemas
