import WikiMind.Base.Rows
import WikiMind.Base.Run

/-!
# Identities

The users that logins find or create (`services/user.py:122–361`, `database.py:182`), in any
interleaving. A request stops at each of its queries and at its commit; between them other
requests commit. The table of users has unique ids and emails, but nothing keeps the pair of
a provider and the id of an account there unique.
-/

namespace WikiMind.Accounts.Identities

open WikiMind.Base

/-- The providers of `upsert_oauth_user`: `api/routes/auth.py:193–200`. -/
inductive Provider where
  | google | github
  deriving DecidableEq, Repr

def Provider.value : Provider → String
  | .google => "google"
  | .github => "github"

/-- The values of the column `auth_provider`. -/
inductive AuthProvider where
  | oauth (provider : Provider)
  | jwt | magicLink | dev
  deriving DecidableEq, Repr

/-- The columns of a user by which requests look it up. -/
structure Identity where
  id : String
  email : String
  authProvider : AuthProvider
  authProviderId : String
  deriving DecidableEq, Repr

/-- The user table, less its plan and its times: `models/tables/core.py:23`. -/
structure User extends Identity where
  name : Option String
  avatarUrl : Option String := none
  isAdmin : Bool := false
  deriving DecidableEq, Repr

/-- The account of a user at its provider. -/
def Identity.account (u : Identity) : AuthProvider × String := (u.authProvider, u.authProviderId)

/-- `OAuthUserInfo`, with `str` of its id: `models/dto/auth.py:27`. -/
structure OAuthUserInfo where
  id : String
  email : Option String := none
  name : Option String := none
  login : Option String := none
  picture : Option String := none
  avatarUrl : Option String := none
  deriving DecidableEq, Repr

/-- `x or y`, of optional texts. -/
def orElse (x y : Option String) : Option String := (x.filter (· ≠ "")).or y

/-- The name a provider gives: `services/user.py:147–153`. -/
def OAuthUserInfo.displayName (info : OAuthUserInfo) : Provider → Option String
  | .google => info.name
  | .github => orElse info.name info.login

/-- The picture a provider gives. -/
def OAuthUserInfo.avatar (info : OAuthUserInfo) : Provider → Option String
  | .google => info.picture
  | .github => info.avatarUrl

/-- `email or f"{provider}:{provider_id}@noemail"`. -/
def address (provider : Provider) (info : OAuthUserInfo) : String :=
  (info.email.filter (· ≠ "")).getD (provider.value ++ ":" ++ info.id ++ "@noemail")

/-- The row that `upsert_oauth_user` inserts. -/
def oauthUser (provider : Provider) (info : OAuthUserInfo) (id : String) : User where
  id := id
  email := address provider info
  authProvider := .oauth provider
  authProviderId := info.id
  name := info.displayName provider
  avatarUrl := info.avatar provider

/-- The row that `get_or_create_by_email` inserts, with the email up to its first `@` as the
name. -/
def magicLinkUser (email id : String) : User where
  id := id
  email := email
  authProvider := .magicLink
  authProviderId := email
  name := some (String.ofList (email.toList.takeWhile (· ≠ '@')))

/-- The row that `get_or_create` inserts. -/
def jwtUser (userId : String) (email : Option String) : User where
  id := userId
  email := (email.filter (· ≠ "")).getD (userId ++ "@jwt.local")
  authProvider := .jwt
  authProviderId := userId
  name := some userId

/-- The row that `_ensure_dev_user` inserts. -/
def devUser (email : String) : User where
  id := "dev-" ++ email
  email := email
  authProvider := .dev
  authProviderId := "dev-" ++ email
  name := some "Dev User"
  isAdmin := true

/-- A request that logs somebody in. -/
inductive Login where
  | oauth (provider : Provider) (info : OAuthUserInfo)
  | magicLink (email : String)
  deriving DecidableEq, Repr

/-- The email by which a login stands for a user. -/
def Login.address : Login → String
  | .oauth provider info => Identities.address provider info
  | .magicLink email => email

/-- Where a request in flight is: no user has its account and its email is looked up next, or
a change of a user or a new user waits for the commit. -/
inductive Pending where
  | searching (provider : Provider) (info : OAuthUserInfo) (id : String)
  | updating (provider : Provider) (info : OAuthUserInfo) (userId : String)
  | inserting (login : Option Login) (user : User)
  deriving DecidableEq, Repr

/-- The row a request may still insert. -/
def Pending.newcomer : Pending → Option Identity
  | .searching provider info id => some (oauthUser provider info id).toIdentity
  | .updating _ _ _ => none
  | .inserting _ user => some user.toIdentity

/-- The users, the requests in flight, the finished logins with the user each got, and the
ids of deleted users. -/
structure State where
  users : List User := []
  pending : List Pending := []
  logins : List (Login × String) := []
  deleted : List String := []
  deriving DecidableEq, Repr

namespace State

variable (s : State)

def rows : List Identity := s.users.map User.toIdentity

def newcomers : List Identity := s.pending.filterMap Pending.newcomer

def submit (p : Pending) : State := { s with pending := p :: s.pending }

def finish (p : Pending) : State := { s with pending := s.pending.erase p }

/-- A request returns a user, to a login if it is one. -/
def answer (login : Option Login) (userId : String) : State :=
  { s with logins := (login.map (·, userId)).toList ++ s.logins }

/-- A row joins the table. -/
def add (user : User) : State := { s with users := s.users ++ [user] }

/-- A row leaves the table. -/
def remove (userId : String) : State :=
  { s with users := s.users.filter (·.id ≠ userId), deleted := userId :: s.deleted }

/-- `select(User).where(auth_provider == …, auth_provider_id == …)` for one row. -/
def findByAccount (provider : Provider) (providerId : String) : Except Exc (Option User) :=
  Rows.oneOrNone (·.account = (.oauth provider, providerId)) s.users

/-- `select(User).where(User.email == email)` for one row. -/
def findByEmail (email : String) : Except Exc (Option User) :=
  Rows.oneOrNone (·.email = email) s.users

/-- `upsert_oauth_user` up to its second query: `services/user.py:122`. -/
def login (provider : Provider) (info : OAuthUserInfo) (id : String) : State :=
  match s.findByAccount provider info.id with
  | .error _ => s
  | .ok (some user) => s.submit (.updating provider info user.id)
  | .ok none =>
    if (info.email.filter (· ≠ "")).isSome then s.submit (.searching provider info id)
    else s.submit (.inserting (some (.oauth provider info)) (oauthUser provider info id))

/-- The second query of `upsert_oauth_user`: `services/user.py:160`. -/
def search (provider : Provider) (info : OAuthUserInfo) (id : String) : State :=
  match s.findByEmail (address provider info) with
  | .error _ => s.finish (.searching provider info id)
  | .ok (some user) =>
    (s.finish (.searching provider info id)).submit (.updating provider info user.id)
  | .ok none =>
    (s.finish (.searching provider info id)).submit
      (.inserting (some (.oauth provider info)) (oauthUser provider info id))

/-- `get_or_create_by_email` up to its commit: `services/user.py:325`. -/
def verify (email id : String) : State :=
  match s.findByEmail email with
  | .error _ => s
  | .ok (some user) => s.answer (some (.magicLink email)) user.id
  | .ok none => s.submit (.inserting (some (.magicLink email)) (magicLinkUser email id))

/-- `get_or_create` up to its commit: `services/user.py:209`. -/
def me (userId : String) (email : Option String) : State :=
  if s.users.any (·.id = userId) then s
  else s.submit (.inserting none (jwtUser userId email))

/-- A new row, unless its id or its email is taken. -/
def insert (user : User) : Option State :=
  if s.rows.any fun u ↦ u.id = user.id || u.email = user.email then none
  else some (s.add user)

/-- The changes of `upsert_oauth_user` in the row of a user. -/
def update (provider : Provider) (info : OAuthUserInfo) (userId : String) : State :=
  { s with users := Rows.modify (·.id = userId) (fun u ↦
      { u with name := info.displayName provider, avatarUrl := info.avatar provider }) s.users }

/-- The commit of a change or of a new row. A row that is gone or a unique column that is
taken ends the request. -/
def commit : Pending → Option State
  | .searching _ _ _ => none
  | .updating provider info userId =>
    if s.users.any (·.id = userId) then
      some (((s.finish (.updating provider info userId)).update provider info userId).answer
        (some (.oauth provider info)) userId)
    else some (s.finish (.updating provider info userId))
  | .inserting login user =>
    match (s.finish (.inserting login user)).insert user with
    | none => some (s.finish (.inserting login user))
    | some t => some (t.answer login user.id)

/-- `_ensure_dev_user`, with `on_conflict_do_nothing`: `database.py:182`. -/
def ensureDevUser (email : String) : State := (s.insert (devUser email)).getD s

/-- `delete_account`, where its statements go through: `services/user.py:363`. -/
def deleteAccount (userId : String) : State :=
  if s.users.any (·.id = userId) then s.remove userId else s

end State

/-- The steps of the system. -/
inductive Label where
  | login (provider : Provider) (info : OAuthUserInfo) (id : String)
  | search (provider : Provider) (info : OAuthUserInfo) (id : String)
  | verify (email id : String)
  | me (userId : String) (email : Option String)
  | commit (p : Pending)
  | rollback (p : Pending)
  | startUp (devUserEmail : String)
  | delete (userId : String)
  deriving DecidableEq, Repr

/-- Requests in flight and new ones, in any order. -/
def identities : Machine State Label where
  step s
    | .login provider info id => some (s.login provider info id)
    | .search provider info id =>
      if .searching provider info id ∈ s.pending then some (s.search provider info id) else none
    | .verify email id => some (s.verify email id)
    | .me userId email => some (s.me userId email)
    | .commit p => if p ∈ s.pending then s.commit p else none
    | .rollback p => if p ∈ s.pending then some (s.finish p) else none
    | .startUp email => some (s.ensureDevUser email)
    | .delete userId => some (s.deleteAccount userId)

/-! ### Rows with unique columns -/

/-- Two rows that cannot both be in the table. -/
def Identity.Clash (u v : Identity) : Prop := u.id = v.id ∨ u.email = v.email

theorem Identity.Clash.symm {u v : Identity} (h : u.Clash v) : v.Clash u :=
  h.imp Eq.symm Eq.symm

/-- Where the application itself is the provider, the account is the id or the email. -/
def Identity.OwnAccount (u : Identity) : Prop :=
  match u.authProvider with
  | .oauth _ => True
  | .jwt | .dev => u.authProviderId = u.id
  | .magicLink => u.authProviderId = u.email

theorem Identity.OwnAccount.clash {u v : Identity} (hu : u.OwnAccount) (hv : v.OwnAccount)
    (haccount : u.account = v.account) (hown : ∀ p, v.authProvider ≠ .oauth p) : u.Clash v := by
  obtain ⟨hprovider, hid⟩ := Prod.mk.inj haccount
  unfold Identity.OwnAccount at hu hv
  rw [hprovider] at hu
  cases hv' : v.authProvider with
  | oauth p => exact absurd hv' (hown p)
  | jwt =>
    rw [hv'] at hu hv
    exact .inl (hu.symm.trans (hid.trans hv))
  | dev =>
    rw [hv'] at hu hv
    exact .inl (hu.symm.trans (hid.trans hv))
  | magicLink =>
    rw [hv'] at hu hv
    exact .inr (hu.symm.trans (hid.trans hv))

/-- The unique columns of the user table. -/
structure Keyed (rows : List Identity) : Prop where
  ids : (rows.map Identity.id).Nodup
  emails : (rows.map Identity.email).Nodup

theorem Keyed.sublist {rows rows' : List Identity} (h : Keyed rows) (hrows : rows'.Sublist rows) :
    Keyed rows' :=
  ⟨h.ids.sublist (hrows.map _), h.emails.sublist (hrows.map _)⟩

theorem Keyed.append {rows : List Identity} {v : Identity} (h : Keyed rows)
    (hfree : ∀ u ∈ rows, ¬ u.Clash v) : Keyed (rows ++ [v]) :=
  ⟨Rows.nodup_map_concat.mpr ⟨h.ids, fun u hu heq ↦ hfree u hu (.inl heq)⟩,
    Rows.nodup_map_concat.mpr ⟨h.emails, fun u hu heq ↦ hfree u hu (.inr heq)⟩⟩

/-- Accounts are unique as well, and a row that may still come clashes with every other row
of its account. -/
structure Sound (rows newcomers : List Identity) : Prop extends Keyed rows where
  accounts : (rows.map Identity.account).Nodup
  own : ∀ u ∈ rows ++ newcomers, u.OwnAccount
  clash : ∀ v ∈ newcomers, ∀ u ∈ rows ++ newcomers, u.account = v.account → u.Clash v

namespace Sound

variable {rows rows' newcomers newcomers' : List Identity} {v : Identity}

private theorem shrink (h : Sound rows newcomers) (hrows : rows'.Sublist rows)
    (hnewcomers : newcomers' ⊆ newcomers) : Sound rows' newcomers' := by
  have hall : ∀ u ∈ rows' ++ newcomers', u ∈ rows ++ newcomers := by
    intro u hu
    exact List.mem_append.mpr ((List.mem_append.mp hu).imp (hrows.subset ·) (hnewcomers ·))
  exact ⟨h.toKeyed.sublist hrows, h.accounts.sublist (hrows.map _), fun u hu ↦ h.own u (hall u hu),
    fun w hw u hu ↦ h.clash w (hnewcomers hw) u (hall u hu)⟩

/-- A request that found no user brings a row of its own. -/
theorem join (h : Sound rows newcomers) (hown : v.OwnAccount)
    (hclash : ∀ u ∈ rows ++ newcomers, u.account = v.account → u.Clash v) :
    Sound rows (v :: newcomers) := by
  have hall : ∀ u ∈ rows ++ v :: newcomers, u = v ∨ u ∈ rows ++ newcomers := by
    intro u hu
    simp only [List.mem_append, List.mem_cons] at hu ⊢
    tauto
  refine ⟨h.toKeyed, h.accounts, fun u hu ↦ ?_, fun w hw u hu haccount ↦ ?_⟩
  · rcases hall u hu with rfl | hu
    · exact hown
    · exact h.own u hu
  · rcases List.mem_cons.mp hw with rfl | hw'
    · rcases hall u hu with rfl | hu
      · exact .inl rfl
      · exact hclash u hu haccount
    · rcases hall u hu with rfl | hu
      · exact (hclash w (List.mem_append_right _ hw') haccount.symm).symm
      · exact h.clash w hw' u hu haccount

/-- The row of a request becomes one of the table. -/
theorem insert (h : Sound rows newcomers) (hv : v ∈ newcomers)
    (hfree : ∀ u ∈ rows, ¬ u.Clash v) : Sound (rows ++ [v]) newcomers := by
  have hall : ∀ u ∈ (rows ++ [v]) ++ newcomers, u ∈ rows ++ newcomers := by
    intro u hu
    simp only [List.mem_append, List.mem_singleton] at hu ⊢
    rcases hu with (hu | rfl) | hu
    · exact .inl hu
    · exact .inr hv
    · exact .inr hu
  refine ⟨h.toKeyed.append hfree, Rows.nodup_map_concat.mpr ⟨h.accounts, fun u hu heq ↦ ?_⟩,
    fun u hu ↦ h.own u (hall u hu), fun w hw u hu ↦ h.clash w hw u (hall u hu)⟩
  exact hfree u hu (h.clash v hv u (List.mem_append_left _ hu) heq)

end Sound

/-! ### What the steps do to the rows -/

section Steps
variable {s t : State} {l : Label} {p : Pending}

@[simp] theorem rows_submit : (s.submit p).rows = s.rows := rfl

@[simp] theorem rows_finish : (s.finish p).rows = s.rows := rfl

@[simp] theorem rows_answer (login : Option Login) (userId : String) :
    (s.answer login userId).rows = s.rows := rfl

@[simp] theorem newcomers_answer (login : Option Login) (userId : String) :
    (s.answer login userId).newcomers = s.newcomers := rfl

@[simp] theorem rows_add (user : User) : (s.add user).rows = s.rows ++ [user.toIdentity] :=
  List.map_append

@[simp] theorem newcomers_add (user : User) : (s.add user).newcomers = s.newcomers := rfl

private theorem rows_remove (userId : String) :
    (s.remove userId).rows = s.rows.filter (·.id ≠ userId) := by
  unfold State.rows State.remove
  rw [List.filter_map]
  rfl

@[simp] theorem newcomers_remove (userId : String) :
    (s.remove userId).newcomers = s.newcomers := rfl

@[simp] theorem rows_update (provider : Provider) (info : OAuthUserInfo) (userId : String) :
    (s.update provider info userId).rows = s.rows :=
  Rows.map_modify fun _ _ _ ↦ rfl

@[simp] theorem newcomers_update (provider : Provider) (info : OAuthUserInfo) (userId : String) :
    (s.update provider info userId).newcomers = s.newcomers := rfl

private theorem newcomers_submit :
    (s.submit p).newcomers = p.newcomer.toList ++ s.newcomers := by
  unfold State.newcomers State.submit
  cases h : p.newcomer with
  | none => simp [h]
  | some v => simp [h]

private theorem newcomers_finish_subset : (s.finish p).newcomers ⊆ s.newcomers :=
  List.filterMap_subset _ List.erase_subset

private theorem newcomer_mem (hp : p ∈ s.pending) {v : Identity} (hv : p.newcomer = some v) :
    v ∈ s.newcomers :=
  List.mem_filterMap.mpr ⟨p, hp, hv⟩

/-- A query by account that finds nobody. -/
theorem account_ne_of_findByAccount {provider : Provider} {providerId : String}
    (h : s.findByAccount provider providerId = .ok none) :
    ∀ u ∈ s.rows, u.account ≠ (.oauth provider, providerId) := by
  intro u hu haccount
  obtain ⟨user, huser, rfl⟩ := List.mem_map.mp hu
  have hne := Rows.not_of_oneOrNone h huser
  simp [haccount] at hne

/-- A query by account that finds a user. -/
theorem mem_of_findByAccount {provider : Provider} {providerId : String} {user : User}
    (h : s.findByAccount provider providerId = .ok (some user)) :
    user.toIdentity ∈ s.rows ∧ user.authProvider = .oauth provider ∧
      user.authProviderId = providerId := by
  have haccount := Rows.prop_of_oneOrNone h
  simp only [Identity.account, Prod.mk.injEq, decide_eq_true_eq] at haccount
  exact ⟨List.mem_map_of_mem (Rows.mem_of_oneOrNone h), haccount.1, haccount.2⟩

/-- A query by email that finds a user. -/
theorem mem_of_findByEmail {email : String} {user : User}
    (h : s.findByEmail email = .ok (some user)) :
    user.toIdentity ∈ s.rows ∧ user.email = email := by
  have hemail := Rows.prop_of_oneOrNone h
  exact ⟨List.mem_map_of_mem (Rows.mem_of_oneOrNone h), by simpa using hemail⟩

/-- A row is inserted exactly if it clashes with none. -/
theorem insert_eq_some {user : User} (h : s.insert user = some t) :
    t = s.add user ∧ ∀ u ∈ s.rows, ¬ u.Clash user.toIdentity := by
  unfold State.insert at h
  split at h
  · cases h
  · next hfree =>
    refine ⟨(Option.some.inj h).symm, fun u hu hclash ↦ hfree (List.any_eq_true.mpr ⟨u, hu, ?_⟩)⟩
    simpa [Identity.Clash] using hclash

/-- What a step does, by its label. -/
inductive Moves (s : State) : Label → State → Prop where
  | refused {l : Label} : Moves s l s
  | ended {l : Label} {p : Pending} (hp : p ∈ s.pending) : Moves s l (s.finish p)
  | found {provider : Provider} {info : OAuthUserInfo} {id : String} {user : User}
      (huser : user.toIdentity ∈ s.rows) (hprovider : user.authProvider = .oauth provider)
      (hid : user.authProviderId = info.id) :
      Moves s (.login provider info id) (s.submit (.updating provider info user.id))
  | missed {provider : Provider} {info : OAuthUserInfo} {id : String} {p : Pending}
      (hnone : ∀ u ∈ s.rows, u.account ≠ (.oauth provider, info.id))
      (hp : p = .searching provider info id ∨
        p = .inserting (some (.oauth provider info)) (oauthUser provider info id)) :
      Moves s (.login provider info id) (s.submit p)
  | foundEmail {provider : Provider} {info : OAuthUserInfo} {id : String} {user : User}
      (hp : .searching provider info id ∈ s.pending) (huser : user.toIdentity ∈ s.rows)
      (hemail : user.email = address provider info) :
      Moves s (.search provider info id)
        ((s.finish (.searching provider info id)).submit (.updating provider info user.id))
  | missedEmail {provider : Provider} {info : OAuthUserInfo} {id : String}
      (hp : .searching provider info id ∈ s.pending) :
      Moves s (.search provider info id)
        ((s.finish (.searching provider info id)).submit
          (.inserting (some (.oauth provider info)) (oauthUser provider info id)))
  | verified {email id : String} {user : User} (huser : user.toIdentity ∈ s.rows)
      (hemail : user.email = email) :
      Moves s (.verify email id) (s.answer (some (.magicLink email)) user.id)
  | invited {email id : String} :
      Moves s (.verify email id)
        (s.submit (.inserting (some (.magicLink email)) (magicLinkUser email id)))
  | provisioned {userId : String} {email : Option String} :
      Moves s (.me userId email) (s.submit (.inserting none (jwtUser userId email)))
  | updated {provider : Provider} {info : OAuthUserInfo} {userId : String}
      (hp : .updating provider info userId ∈ s.pending) :
      Moves s (.commit (.updating provider info userId))
        (((s.finish (.updating provider info userId)).update provider info userId).answer
          (some (.oauth provider info)) userId)
  | inserted {login : Option Login} {user : User} (hp : .inserting login user ∈ s.pending)
      (hfree : ∀ u ∈ s.rows, ¬ u.Clash user.toIdentity) :
      Moves s (.commit (.inserting login user))
        (((s.finish (.inserting login user)).add user).answer login user.id)
  | started {email : String} (hfree : ∀ u ∈ s.rows, ¬ u.Clash (devUser email).toIdentity) :
      Moves s (.startUp email) (s.add (devUser email))
  | deleted {userId : String} : Moves s (.delete userId) (s.remove userId)

private theorem moves_login (provider : Provider) (info : OAuthUserInfo) (id : String) :
    Moves s (.login provider info id) (s.login provider info id) := by
  unfold State.login
  cases hfound : s.findByAccount provider info.id with
  | error e => exact .refused
  | ok result =>
    cases result with
    | some user =>
      obtain ⟨huser, hprovider, hid⟩ := mem_of_findByAccount hfound
      exact .found huser hprovider hid
    | none =>
      have hnone := account_ne_of_findByAccount hfound
      dsimp only
      split
      · exact .missed hnone (.inl rfl)
      · exact .missed hnone (.inr rfl)

private theorem moves_search {provider : Provider} {info : OAuthUserInfo} {id : String}
    (hp : .searching provider info id ∈ s.pending) :
    Moves s (.search provider info id) (s.search provider info id) := by
  unfold State.search
  cases hfound : s.findByEmail (address provider info) with
  | error e => exact .ended hp
  | ok result =>
    cases result with
    | some user =>
      obtain ⟨huser, hemail⟩ := mem_of_findByEmail hfound
      exact .foundEmail hp huser hemail
    | none => exact .missedEmail hp

private theorem moves_verify (email id : String) :
    Moves s (.verify email id) (s.verify email id) := by
  unfold State.verify
  cases hfound : s.findByEmail email with
  | error e => exact .refused
  | ok result =>
    cases result with
    | some user =>
      obtain ⟨huser, hemail⟩ := mem_of_findByEmail hfound
      exact .verified huser hemail
    | none => exact .invited

private theorem moves_commit (hp : p ∈ s.pending) (h : s.commit p = some t) :
    Moves s (.commit p) t := by
  cases p with
  | searching provider info id => cases h
  | updating provider info userId =>
    unfold State.commit at h
    dsimp only at h
    split at h
    · cases h
      exact .updated hp
    · cases h
      exact .ended hp
  | inserting login user =>
    unfold State.commit at h
    dsimp only at h
    cases hinsert : (s.finish (.inserting login user)).insert user with
    | none =>
      rw [hinsert] at h
      cases h
      exact .ended hp
    | some u =>
      rw [hinsert] at h
      cases h
      obtain ⟨rfl, hfree⟩ := insert_eq_some hinsert
      exact .inserted hp hfree

theorem moves_of_step (h : identities.step s l = some t) : Moves s l t := by
  cases l with
  | login provider info id =>
    cases h
    exact moves_login provider info id
  | search provider info id =>
    simp only [identities] at h
    split at h
    · next hp =>
      cases h
      exact moves_search hp
    · cases h
  | verify email id =>
    cases h
    exact moves_verify email id
  | me userId email =>
    cases h
    unfold State.me
    split
    · exact .refused
    · exact .provisioned
  | commit p =>
    simp only [identities] at h
    split at h
    · next hp => exact moves_commit hp h
    · cases h
  | rollback p =>
    simp only [identities] at h
    split at h
    · next hp =>
      cases h
      exact .ended hp
    · cases h
  | startUp email =>
    cases h
    unfold State.ensureDevUser
    cases hinsert : s.insert (devUser email) with
    | none => exact .refused
    | some u =>
      obtain ⟨rfl, hfree⟩ := insert_eq_some hinsert
      exact .started hfree
  | delete userId =>
    cases h
    unfold State.deleteAccount
    split
    · exact .deleted
    · exact .refused

end Steps

/-! ### One user for each account -/

/-- A login starts while no other login of its account that found no user carries another
email. -/
def Agreeing (s : State) : Label → Prop
  | .login provider info _ => ∀ v ∈ s.newcomers, v.account = (.oauth provider, info.id) →
      v.email = address provider info
  | _ => True

instance (s : State) : (l : Label) → Decidable (Agreeing s l)
  | .login _ _ _ => inferInstanceAs (Decidable (∀ v ∈ s.newcomers, _ → _))
  | .search _ _ _ => .isTrue trivial
  | .verify _ _ => .isTrue trivial
  | .me _ _ => .isTrue trivial
  | .commit _ => .isTrue trivial
  | .rollback _ => .isTrue trivial
  | .startUp _ => .isTrue trivial
  | .delete _ => .isTrue trivial

/-- The table and the requests in flight are sound. -/
def State.Sound (s : State) : Prop := Identities.Sound s.rows s.newcomers

section
variable {s t : State} {l : Label}

/-- A row whose account is its own id or email joins. -/
theorem State.Sound.join_own (h : s.Sound) {v : Identity} (hown : v.OwnAccount)
    (hlocal : ∀ p, v.authProvider ≠ .oauth p) : Identities.Sound s.rows (v :: s.newcomers) :=
  Sound.join h hown fun u hu haccount ↦ (h.own u hu).clash hown haccount hlocal

private theorem sound_moves (h : s.Sound) (hl : Agreeing s l) (hmove : Moves s l t) : t.Sound := by
  unfold State.Sound
  cases hmove with
  | refused => exact h
  | ended hp => exact Sound.shrink h (.refl _) newcomers_finish_subset
  | found huser hprovider hid =>
    rw [newcomers_submit]
    exact h
  | @missed provider info id p hnone hp =>
    have hnewcomer : p.newcomer = some (oauthUser provider info id).toIdentity := by
      rcases hp with rfl | rfl <;> rfl
    rw [rows_submit, newcomers_submit, hnewcomer]
    refine Sound.join h trivial fun u hu haccount ↦ ?_
    rcases List.mem_append.mp hu with hu | hu
    · exact absurd haccount (hnone u hu)
    · exact .inr (hl u hu haccount)
  | foundEmail hp huser hemail =>
    rw [newcomers_submit]
    exact Sound.shrink h (.refl _) newcomers_finish_subset
  | @missedEmail provider info id hp =>
    rw [newcomers_submit]
    refine Sound.shrink h (.refl _) fun v hv ↦ ?_
    rcases List.mem_cons.mp hv with rfl | hv
    · exact newcomer_mem hp rfl
    · exact newcomers_finish_subset hv
  | verified huser hemail => exact h
  | invited =>
    rw [newcomers_submit]
    exact h.join_own rfl fun p hp ↦ nomatch hp
  | provisioned =>
    rw [newcomers_submit]
    exact h.join_own rfl fun p hp ↦ nomatch hp
  | updated hp =>
    rw [rows_answer, rows_update, newcomers_answer, newcomers_update]
    exact Sound.shrink h (.refl _) newcomers_finish_subset
  | inserted hp hfree =>
    rw [rows_answer, rows_add, newcomers_answer, newcomers_add]
    exact (Sound.insert h (newcomer_mem hp rfl) hfree).shrink (.refl _) newcomers_finish_subset
  | @started email hfree =>
    rw [rows_add, newcomers_add]
    have hjoined := h.join_own (v := (devUser email).toIdentity) rfl fun p hp ↦ nomatch hp
    exact (hjoined.insert (List.mem_cons_self ..) hfree).shrink (.refl _)
      (List.subset_cons_self ..)
  | deleted =>
    rw [rows_remove, newcomers_remove]
    exact Sound.shrink h List.filter_sublist (List.Subset.refl _)

/-- No query for one user finds several. -/
theorem State.Sound.queries (h : s.Sound) :
    (∀ provider providerId, ¬ Raises (s.findByAccount provider providerId)) ∧
      ∀ email, ¬ Raises (s.findByEmail email) := by
  have hids : (s.users.map fun u ↦ u.id).Nodup := by
    simpa [State.rows, Function.comp_def] using h.ids
  have hemails : (s.users.map fun u ↦ u.email).Nodup := by
    simpa [State.rows, Function.comp_def] using h.emails
  have haccounts : (s.users.map fun u ↦ u.account).Nodup := by
    simpa [State.rows, Function.comp_def] using h.accounts
  have hnodup : s.users.Nodup := List.Nodup.of_map _ hids
  constructor
  · intro provider providerId ⟨e, he⟩
    obtain ⟨result, hresult⟩ := Rows.oneOrNone_ok_of_unique hnodup
      (p := fun u ↦ u.account = (.oauth provider, providerId)) fun x hx y hy hpx hpy ↦ by
        simp only [decide_eq_true_eq] at hpx hpy
        exact Rows.eq_of_nodup haccounts hy hx (hpx.trans hpy.symm)
    rw [State.findByAccount, hresult] at he
    cases he
  · intro email ⟨e, he⟩
    obtain ⟨result, hresult⟩ := Rows.oneOrNone_ok_of_unique hnodup
      (p := fun u ↦ u.email = email) fun x hx y hy hpx hpy ↦ by
        simp only [decide_eq_true_eq] at hpx hpy
        exact Rows.eq_of_nodup hemails hy hx (hpx.trans hpy.symm)
    rw [State.findByEmail, hresult] at he
    cases he

end

theorem sound_empty : State.Sound {} :=
  ⟨⟨.nil, .nil⟩, .nil, fun _ h ↦ (nomatch h), fun _ h ↦ nomatch h⟩

/-- If no login starts while one of the same account with another email is under way, every
user has an id, an email and an account of its own, and no query for one user finds several. -/
theorem one_user_per_account {ls : List Label} (h : identities.Guarded Agreeing {} ls) :
    identities.Always (fun t ↦ (t.rows.map Identity.id).Nodup ∧
      (t.rows.map Identity.email).Nodup ∧ (t.rows.map Identity.account).Nodup ∧
      (∀ provider providerId, ¬ Raises (t.findByAccount provider providerId)) ∧
      ∀ email, ¬ Raises (t.findByEmail email)) {} ls := by
  have hsound := identities.always_of_guarded (I := State.Sound)
    (fun s l t hs hl hstep ↦ sound_moves hs hl (moves_of_step hstep)) sound_empty h
  refine Machine.Always.mono _ (fun t ht ↦ ?_) hsound
  exact ⟨ht.ids, ht.emails, ht.accounts, ht.queries⟩

/-- Two logins of one account, of which the second starts after the first is finished. -/
def twoLogins : List Label :=
  let info : OAuthUserInfo := { id := "7", email := some "a@b.example" }
  let later : OAuthUserInfo := { id := "7", email := some "c@d.example" }
  [.login .github info "u", .search .github info "u",
    .commit (.inserting (some (.oauth .github info)) (oauthUser .github info "u")),
    .login .github later "v", .commit (.updating .github later "u")]

theorem twoLogins_one_user :
    identities.Always (fun t ↦ (t.rows.map Identity.id).Nodup ∧
      (t.rows.map Identity.email).Nodup ∧ (t.rows.map Identity.account).Nodup ∧
      (∀ provider providerId, ¬ Raises (t.findByAccount provider providerId)) ∧
      ∀ email, ¬ Raises (t.findByEmail email)) {} twoLogins :=
  one_user_per_account (by decide)

/-- The first login and a login with another email at the same time both insert a user, and
every later login of the account raises. -/
example :
    let info : OAuthUserInfo := { id := "7", email := some "a@b.example" }
    let later : OAuthUserInfo := { id := "7", email := some "c@d.example" }
    (identities.run {} [.login .github info "u", .login .github later "v",
      .search .github info "u", .search .github later "v",
      .commit (.inserting (some (.oauth .github info)) (oauthUser .github info "u")),
      .commit (.inserting (some (.oauth .github later)) (oauthUser .github later "v"))]).map
      (·.findByAccount .github "7") = some (.error .multipleResultsFound) := by
  decide

/-! ### One user for each email -/

/-- A user with this id has the email, or the user of this id was deleted. -/
def State.Known (s : State) (userId email : String) : Prop :=
  userId ∈ s.deleted ∨ ∃ u ∈ s.rows, u.id = userId ∧ u.email = email

/-- Each login of an account carries the email of the account. -/
def Carries (addressOf : Provider → String → String) : Label → Prop
  | .login provider info _ => address provider info = addressOf provider info.id
  | _ => True

/-- A row of an account has the email of the account. -/
def Identity.Addressed (addressOf : Provider → String → String) (u : Identity) : Prop :=
  ∀ p, u.authProvider = .oauth p → u.email = addressOf p u.authProviderId

/-- Logins that return a user, or are about to, return the one of their email. -/
structure Kept (addressOf : Provider → String → String) (s : State) : Prop where
  keyed : Keyed s.rows
  rows : ∀ u ∈ s.rows, u.Addressed addressOf
  newcomers : ∀ u ∈ s.newcomers, u.Addressed addressOf
  updating : ∀ provider info userId, .updating provider info userId ∈ s.pending →
    s.Known userId (address provider info)
  inserting : ∀ login user, .inserting (some login) user ∈ s.pending →
    user.email = login.address
  logins : ∀ answer ∈ s.logins, s.Known answer.2 answer.1.address

section
variable {addressOf : Provider → String → String} {s t : State} {l : Label}

/-- Rows stay or their users are deleted. -/
theorem State.Known.mono {userId email : String} (h : s.Known userId email)
    (hdeleted : s.deleted ⊆ t.deleted)
    (hrows : ∀ u ∈ s.rows, u ∈ t.rows ∨ u.id ∈ t.deleted) : t.Known userId email := by
  rcases h with h | ⟨u, hu, rfl, hemail⟩
  · exact .inl (hdeleted h)
  · rcases hrows u hu with hu' | hgone
    · exact .inr ⟨u, hu', rfl, hemail⟩
    · exact .inl hgone

namespace Kept

theorem finish (h : Kept addressOf s) (p : Pending) : Kept addressOf (s.finish p) where
  keyed := h.keyed
  rows := h.rows
  newcomers := fun u hu ↦ h.newcomers u (newcomers_finish_subset hu)
  updating := fun provider info userId hp ↦ h.updating provider info userId (List.erase_subset hp)
  inserting := fun login user hp ↦ h.inserting login user (List.erase_subset hp)
  logins := h.logins

theorem submit (h : Kept addressOf s) {p : Pending}
    (hnewcomer : ∀ u, p.newcomer = some u → u.Addressed addressOf)
    (hupdating : ∀ provider info userId, p = .updating provider info userId →
      s.Known userId (address provider info))
    (hinserting : ∀ login user, p = .inserting (some login) user → user.email = login.address) :
    Kept addressOf (s.submit p) where
  keyed := h.keyed
  rows := h.rows
  newcomers := by
    intro u hu
    rw [newcomers_submit, List.mem_append, Option.mem_toList] at hu
    exact hu.elim (hnewcomer u) (h.newcomers u)
  updating := by
    intro provider info userId hp
    rcases List.mem_cons.mp hp with hp | hp
    · exact hupdating provider info userId hp.symm
    · exact h.updating provider info userId hp
  inserting := by
    intro login user hp
    rcases List.mem_cons.mp hp with hp | hp
    · exact hinserting login user hp.symm
    · exact h.inserting login user hp
  logins := h.logins

theorem answer (h : Kept addressOf s) {login : Option Login} {userId : String}
    (hknown : ∀ l, login = some l → s.Known userId l.address) :
    Kept addressOf (s.answer login userId) where
  keyed := h.keyed
  rows := h.rows
  newcomers := h.newcomers
  updating := h.updating
  inserting := h.inserting
  logins := by
    intro x hx
    rcases List.mem_append.mp hx with hx | hx
    · obtain ⟨l, hl, rfl⟩ := Option.map_eq_some_iff.mp (Option.mem_toList.mp hx)
      exact hknown l hl
    · exact h.logins x hx

theorem add (h : Kept addressOf s) {user : User} (haddressed : user.Addressed addressOf)
    (hfree : ∀ u ∈ s.rows, ¬ u.Clash user.toIdentity) : Kept addressOf (s.add user) where
  keyed := by
    rw [rows_add]
    exact h.keyed.append hfree
  rows := by
    intro u hu
    rw [rows_add, List.mem_append, List.mem_singleton] at hu
    rcases hu with hu | rfl
    · exact h.rows u hu
    · exact haddressed
  newcomers := h.newcomers
  updating := fun provider info userId hp ↦ (h.updating provider info userId hp).mono
    (List.Subset.refl _) fun u hu ↦ .inl (by rw [rows_add]; exact List.mem_append_left _ hu)
  inserting := h.inserting
  logins := fun x hx ↦ (h.logins x hx).mono (List.Subset.refl _) fun u hu ↦
    .inl (by rw [rows_add]; exact List.mem_append_left _ hu)

theorem update (h : Kept addressOf s) (provider : Provider) (info : OAuthUserInfo)
    (userId : String) : Kept addressOf (s.update provider info userId) where
  keyed := by rw [rows_update]; exact h.keyed
  rows := by rw [rows_update]; exact h.rows
  newcomers := h.newcomers
  updating := fun provider info userId hp ↦ (h.updating provider info userId hp).mono
    (List.Subset.refl _) fun u hu ↦ .inl (by rw [rows_update]; exact hu)
  inserting := h.inserting
  logins := fun x hx ↦ (h.logins x hx).mono (List.Subset.refl _) fun u hu ↦
    .inl (by rw [rows_update]; exact hu)

theorem remove (h : Kept addressOf s) (userId : String) : Kept addressOf (s.remove userId) := by
  have hgone : ∀ u ∈ s.rows, u ∈ (s.remove userId).rows ∨ u.id ∈ (s.remove userId).deleted := by
    intro u hu
    by_cases hid : u.id = userId
    · exact .inr (hid ▸ List.mem_cons_self ..)
    · rw [rows_remove]
      exact .inl (List.mem_filter.mpr ⟨hu, by simpa using hid⟩)
  have hmore : s.deleted ⊆ (s.remove userId).deleted := List.subset_cons_self ..
  have hfewer : (s.remove userId).rows.Sublist s.rows := by
    rw [rows_remove]
    exact List.filter_sublist
  exact
    { keyed := h.keyed.sublist hfewer
      rows := fun u hu ↦ h.rows u (hfewer.subset hu)
      newcomers := h.newcomers
      updating := fun provider info userId hp ↦
        (h.updating provider info userId hp).mono hmore hgone
      inserting := h.inserting
      logins := fun x hx ↦ (h.logins x hx).mono hmore hgone }

theorem moves (h : Kept addressOf s) (hl : Carries addressOf l) (hmove : Moves s l t) :
    Kept addressOf t := by
  cases hmove with
  | refused => exact h
  | @ended _ p hp => exact h.finish p
  | @found provider info id user huser hprovider hid =>
    refine h.submit (fun u hu ↦ nomatch hu) (fun provider' info' userId hp ↦ ?_)
      fun login user hp ↦ nomatch hp
    cases hp
    exact .inr ⟨_, huser, rfl, by rw [h.rows _ huser _ hprovider, hid]; exact hl.symm⟩
  | @missed provider info id p hnone hp =>
    rcases hp with rfl | rfl
    · refine h.submit (fun u hu p hp ↦ ?_) (fun _ _ _ hp ↦ nomatch hp) fun _ _ hp ↦ nomatch hp
      cases hu
      cases hp
      exact hl
    · refine h.submit (fun u hu p hp ↦ ?_) (fun _ _ _ hp ↦ nomatch hp) fun login user hp ↦ ?_
      · cases hu
        cases hp
        exact hl
      · cases hp
        rfl
  | @foundEmail provider info id user hp huser hemail =>
    refine (h.finish _).submit (fun u hu ↦ nomatch hu) (fun provider' info' userId hp ↦ ?_)
      fun login user hp ↦ nomatch hp
    cases hp
    exact .inr ⟨_, huser, rfl, hemail⟩
  | @missedEmail provider info id hp =>
    refine (h.finish _).submit (fun u hu ↦ ?_) (fun _ _ _ hp ↦ nomatch hp) fun login user hp ↦ ?_
    · cases hu
      exact h.newcomers _ (newcomer_mem hp rfl)
    · cases hp
      rfl
  | @verified email id user huser hemail =>
    refine h.answer fun l hl ↦ ?_
    cases hl
    exact .inr ⟨_, huser, rfl, hemail⟩
  | invited =>
    refine h.submit (fun u hu p hp ↦ ?_) (fun _ _ _ hp ↦ nomatch hp) fun login user hp ↦ ?_
    · cases hu
      cases hp
    · cases hp
      rfl
  | provisioned =>
    refine h.submit (fun u hu p hp ↦ ?_) (fun _ _ _ hp ↦ nomatch hp) fun _ _ hp ↦ nomatch hp
    cases hu
    cases hp
  | @updated provider info userId hp =>
    refine ((h.finish _).update provider info userId).answer fun l hl ↦ ?_
    cases hl
    exact (h.updating provider info userId hp).mono (List.Subset.refl _) fun u hu ↦
      .inl (by rw [rows_update]; exact hu)
  | @inserted login user hp hfree =>
    refine ((h.finish _).add (h.newcomers _ (newcomer_mem hp rfl)) hfree).answer fun l hl ↦ ?_
    subst hl
    refine .inr ⟨user.toIdentity, ?_, rfl, h.inserting l user hp⟩
    rw [rows_add]
    exact List.mem_append_right _ (List.mem_singleton_self _)
  | started hfree => exact h.add (fun p hp ↦ nomatch hp) hfree
  | @deleted userId => exact h.remove userId

end Kept

end

private theorem kept_empty (addressOf : Provider → String → String) : Kept addressOf {} :=
  ⟨⟨.nil, .nil⟩, fun _ h ↦ (nomatch h), fun _ h ↦ (nomatch h), fun _ _ _ h ↦ (nomatch h),
    fun _ _ h ↦ (nomatch h), fun _ h ↦ nomatch h⟩

/-- If the logins of an account always carry the same email, every login returns the user of
its email, in any interleaving: two logins, by whatever provider or by a magic link, return the
same user exactly if they carry the same email, unless a user they returned was deleted. -/
theorem one_user_per_email {addressOf : Provider → String → String} {ls : List Label}
    (h : ∀ l ∈ ls, Carries addressOf l) :
    identities.Always (fun t ↦ ∀ x ∈ t.logins, x.2 ∉ t.deleted →
      (∃ u ∈ t.users, u.id = x.2 ∧ u.email = x.1.address) ∧
      ∀ y ∈ t.logins, y.2 ∉ t.deleted → (x.2 = y.2 ↔ x.1.address = y.1.address)) {} ls := by
  have hkept := identities.always_of_guarded (I := Kept addressOf)
    (fun s l t hs hl hstep ↦ hs.moves hl (moves_of_step hstep)) (kept_empty addressOf)
    (identities.guarded_of_forall h)
  refine Machine.Always.mono _ (fun t ht x hx hxd ↦ ?_) hkept
  obtain ⟨u, hu, huid, huemail⟩ := (ht.logins x hx).resolve_left hxd
  constructor
  · obtain ⟨user, huser, rfl⟩ := List.mem_map.mp hu
    exact ⟨user, huser, huid, huemail⟩
  · intro y hy hyd
    obtain ⟨v, hv, hvid, hvemail⟩ := (ht.logins y hy).resolve_left hyd
    rw [← huid, ← hvid, ← huemail, ← hvemail]
    constructor
    · intro heq
      rw [Rows.eq_of_nodup ht.keyed.ids hv hu heq]
    · intro heq
      rw [Rows.eq_of_nodup ht.keyed.emails hv hu heq]

/-- A login by one provider, a login by the other with the same email, and a magic link. -/
def threeLogins : List Label :=
  let info : OAuthUserInfo := { id := "3", email := some "a@b.example" }
  let other : OAuthUserInfo := { id := "7", email := some "a@b.example" }
  [.login .google info "u", .login .github other "v", .search .google info "u",
    .commit (.inserting (some (.oauth .google info)) (oauthUser .google info "u")),
    .search .github other "v", .commit (.updating .github other "u"),
    .verify "a@b.example" "w"]

theorem threeLogins_one_user :
    identities.Always (fun t ↦ ∀ x ∈ t.logins, x.2 ∉ t.deleted →
      (∃ u ∈ t.users, u.id = x.2 ∧ u.email = x.1.address) ∧
      ∀ y ∈ t.logins, y.2 ∉ t.deleted → (x.2 = y.2 ↔ x.1.address = y.1.address))
      {} threeLogins :=
  @one_user_per_email (fun _ _ ↦ "a@b.example") threeLogins (by
    intro l hl
    simp only [threeLogins, List.mem_cons, List.not_mem_nil, or_false] at hl
    rcases hl with rfl | rfl | rfl | rfl | rfl | rfl | rfl <;> first | rfl | trivial)

end WikiMind.Accounts.Identities
