import WikiMind.Base.References
import WikiMind.Billing.LastEvent

/-!
# Expiry of paid plans

The end date of a plan is parsed by the webhook (`api/routes/billing.py:330`) or the
reconcile job (`services/billing.py:429`), stored on the user, and compared with the
naive UTC clock by `get_effective_plan` (`services/quota.py:69`). The parsed value is
assigned as it is, so a string with an offset puts an aware value where the code base
keeps naive ones (`_datetime.py`). The column is a plain `DateTime`
(`alembic/versions/0018:138`): on SQLite it keeps the clock reading, whatever its offset,
and on PostgreSQL the driver refuses the value, and the request or the pass with it.
-/

namespace WikiMind.Billing

open WikiMind.Base

/-! ### The column of the end date -/

/-- Every stored end date is naive. -/
def NaiveUntil (db : Db) : Prop :=
  ∀ user ∈ db.users, ∀ until_ ∈ user.planEffectiveUntil, until_.Naive

instance (db : Db) : Decidable (NaiveUntil db) := by unfold NaiveUntil; infer_instance

/-- The user as a row without offsets. -/
def User.dropOffset (user : User) : User :=
  { user with planEffectiveUntil := user.planEffectiveUntil.map fun t ↦ ⟨t.wall, none⟩ }

/-- The tables without offsets. -/
def Db.dropOffsets (db : Db) : Db := { db with users := db.users.map User.dropOffset }

/-- Write the users of the session to their table. -/
def Db.flush (server : Server) (db : Db) : Option Db :=
  if server = .postgres ∧ ¬ NaiveUntil db then none else some db.dropOffsets

/-- A pass over the subscriptions, whose iterations are written by the next query or by the
commit. After a failed write the session takes no statement, so nothing of the pass stays. -/
def commitPass (server : Server) (billingEnabled : Bool) (remote : String → Option Attrs)
    (db : Db) : Option Db :=
  if billingEnabled then
    (db.subscriptions.filter fun s ↦ s.status.reconcilable).foldlM
      (fun db sub ↦ (reconcileOne db sub (remote sub.lemonSqueezySubscriptionId)).flush server) db
  else some db

/-- What an event commits, `none` where the commit fails. -/
def Db.commit (server : Server) (db : Db) : BillingEvent → Option Db
  | .webhook d => (handleWebhook db d).2.flush server
  | .reconcile billingEnabled remote => commitPass server billingEnabled remote db

/-- The tables as the database keeps them: an event whose commit fails leaves them. -/
def storedTables (server : Server) : Machine Db BillingEvent :=
  .ofFun fun db e ↦ (db.commit server e).getD db

/-! ### End dates of events -/

/-- The states whose end date is stored. -/
def LsStatus.keepsUntil : LsStatus → Bool
  | .cancelled | .paused => true
  | _ => false

/-- The offsets an end date may have for the column to keep its instant. -/
def keepsOffset (server : Server) (offset : Option Int) : Bool :=
  match server with
  | .sqlite => offset.getD 0 = 0
  | .postgres => offset = none

/-- The column keeps the instant of the date that a string is read as. -/
def KeepsDate (server : Server) (s : String) : Prop :=
  ∀ t ∈ (DateTime.fromisoformat s).toOption, keepsOffset server t.utcoffset

/-- Where an event stores an end date, the column keeps the instant of its string. -/
def KeepsDates (server : Server) (db : Db) : BillingEvent → Prop
  | .webhook d => d.event = .subscriptionCancelled → ∀ s ∈ d.attrs.endsAt, KeepsDate server s
  | .reconcile billingEnabled remote => billingEnabled = true →
      ∀ sub ∈ db.subscriptions, sub.status.reconcilable = true →
      ∀ attrs ∈ remote sub.lemonSqueezySubscriptionId, ∀ lsStatus ∈ attrs.status,
      lsStatus.keepsUntil = true → ∀ s ∈ attrs.endsAt, KeepsDate server s

instance (server : Server) (s : String) : Decidable (KeepsDate server s) := by
  unfold KeepsDate; infer_instance

instance (server : Server) (db : Db) : (e : BillingEvent) → Decidable (KeepsDates server db e)
  | .webhook _ => by unfold KeepsDates; infer_instance
  | .reconcile _ _ => by unfold KeepsDates; infer_instance

/-- The event brings an end date string for the user. -/
def Carries (db : Db) (userId s : String) : BillingEvent → Prop
  | .webhook d => (d.target db).map User.id = some userId ∧ d.attrs.endsAt = some s
  | .reconcile _ remote => ∃ sub ∈ db.subscriptions, sub.userId = userId ∧
      ∃ attrs, remote sub.lemonSqueezySubscriptionId = some attrs ∧ attrs.endsAt = some s

/-- The stored value is the naive UTC form of the instant a string denotes. -/
def NaiveFormOf (s : String) (until_ : DateTime) : Prop :=
  until_.Naive ∧ ∃ parsed, DateTime.fromisoformat s = .ok parsed ∧
    (until_.wall : Int) = parsed.instant

/-- Every end date in the second tables is one the user had before, or meets `good`. -/
def AssignsOnly (good : String → DateTime → Prop) (db db' : Db) : Prop :=
  ∀ user' ∈ db'.users, ∀ until_, user'.planEffectiveUntil = some until_ →
    (∃ user ∈ db.users, user.id = user'.id ∧ user.planEffectiveUntil = some until_) ∨
    good user'.id until_

/-- The comparison of `getEffectivePlan` is defined, and a stored plan counts exactly
before its end. -/
def ExpiresOnTime (db : Db) (userId : String) (now : DateTime) : Prop :=
  getEffectivePlan db userId now ≠ .error .typeError ∧
  ∀ user planId plan until_, db.userById userId = .ok (some user) → user.planId = some planId →
    planId ≠ "" → db.planById planId = .ok (some plan) → user.planEffectiveUntil = some until_ →
    getEffectivePlan db userId now = if now.wall < until_.wall then .ok plan else db.defaultPlan

section AssignsOnly

variable {good : String → DateTime → Prop} {db db' db'' : Db}

theorem AssignsOnly.of_eq (h : db'.users = db.users) : AssignsOnly good db db' := by
  intro user hu until_ huntil
  rw [h] at hu
  exact .inl ⟨user, hu, rfl, huntil⟩

theorem AssignsOnly.trans (h₁ : AssignsOnly good db db') (h₂ : AssignsOnly good db' db'') :
    AssignsOnly good db db'' := by
  intro user hu until_ huntil
  obtain ⟨user', hu', hid', huntil'⟩ | hgood := h₂ user hu until_ huntil
  · obtain ⟨user₀, hu₀, hid₀, huntil₀⟩ | hgood := h₁ user' hu' until_ huntil'
    · exact .inl ⟨user₀, hu₀, hid₀.trans hid', huntil₀⟩
    · rw [hid'] at hgood
      exact .inr hgood
  · exact .inr hgood

theorem AssignsOnly.mono {good' : String → DateTime → Prop}
    (hgood : ∀ id until_, good id until_ → good' id until_) (h : AssignsOnly good db db') :
    AssignsOnly good' db db' := fun user hu until_ huntil ↦
  (h user hu until_ huntil).imp_right (hgood _ _)

theorem AssignsOnly.setUser {user user' : User} (huser : db.userById user.id = .ok (some user))
    (hid : user'.id = user.id)
    (h : ∀ until_, user'.planEffectiveUntil = some until_ →
      user.planEffectiveUntil = some until_ ∨ good user.id until_)
    (husers : db'.users = (db.setUser user').users) : AssignsOnly good db db' := by
  intro u hu until_ huntil
  rw [husers] at hu
  obtain ⟨_, _, _, rfl⟩ | ⟨hmem, _⟩ := Rows.mem_modify.mp hu
  · rw [hid]
    exact (h until_ huntil).imp_left fun hold ↦
      ⟨user, Rows.mem_of_oneOrNone huser, rfl, hold⟩
  · exact .inl ⟨u, hmem, rfl, huntil⟩

end AssignsOnly

/-- An entitlement decision stores the end date handed to it, for a cancelled or paused
state, or leaves the one there was, or clears it. -/
theorem until_applyEntitlement {db : Db} {user user' : User} {lsStatus : LsStatus}
    {planName : String} {periodEnd : Option DateTime} {until_ : DateTime}
    (h : applyEntitlement db user lsStatus planName periodEnd = .ok user')
    (huntil : user'.planEffectiveUntil = some until_) :
    user.planEffectiveUntil = some until_ ∨
      (lsStatus.keepsUntil = true ∧ periodEnd = some until_) := by
  obtain ⟨_, rfl⟩ | ⟨plan, defaultPlan, _, _, rfl⟩ := applyEntitlement_eq_ok h
  · exact .inl huntil
  · cases lsStatus <;> simp_all [User.entitle, LsStatus.keepsUntil]

/-- A parsed end date comes from a string. -/
theorem periodEnd_eq_some {attrs : Attrs} {until_ : DateTime}
    (h : attrs.periodEnd = .ok (some until_)) :
    ∃ s, attrs.endsAt = some s ∧ DateTime.fromisoformat s = .ok until_ := by
  unfold Attrs.periodEnd at h
  split at h
  · cases h
  · next s hs =>
    obtain ⟨hsome, _⟩ := Option.filter_eq_some_iff.mp hs
    cases hparse : DateTime.fromisoformat s with
    | error e => rw [hparse] at h; cases h
    | ok parsed =>
      rw [hparse] at h
      cases h
      exact ⟨s, hsome, hparse⟩

/-! ### What an event assigns -/

/-- The value is the one a string is read as, and the column keeps its instant. -/
def ReadAs (server : Server) (s : String) (t : DateTime) : Prop :=
  DateTime.fromisoformat s = .ok t ∧ keepsOffset server t.utcoffset = true

private theorem readAs_of_keepsDate {server : Server} {s : String} {t : DateTime}
    (hparse : DateTime.fromisoformat s = .ok t) (hkeeps : KeepsDate server s) :
    ReadAs server s t :=
  ⟨hparse, hkeeps t (by rw [hparse]; rfl)⟩

/-- A delivery assigns what the string it carries is read as. -/
theorem assigns_webhook {server : Server} {db : Db} {d : Delivery}
    (hkeeps : KeepsDates server db (.webhook d)) :
    AssignsOnly (fun id t ↦ ∃ s, Carries db id s (.webhook d) ∧ ReadAs server s t) db
      (handleWebhook db d).2 := by
  by_cases hacc : Accepted db d
  · cases ht : d.target db with
    | none => exact .of_eq (accepted_untargeted hacc ht).2.1
    | some user =>
      have huser := userById_of_accepted hacc ht
      have hlink : (user.linkCustomer d.attrs.customer).planEffectiveUntil =
          user.planEffectiveUntil :=
        congrArg Prod.snd (linkCustomer_entitlement user d.attrs.customer)
      cases hc : d.entitlementCall with
      | none =>
        refine AssignsOnly.setUser huser (linkCustomer_id _ _) (fun until_ huntil ↦ ?_)
          (accepted_ignored hacc ht hc).2.1
        rw [hlink] at huntil
        exact .inl huntil
      | some call =>
        obtain ⟨lsStatus, periodEnd⟩ := call
        obtain ⟨_, stored, user', _, hperiod, hentitle, _, husers, _⟩ := accepted_handled hacc ht hc
        have hid : user'.id = user.id := (id_applyEntitlement hentitle).trans (linkCustomer_id _ _)
        refine AssignsOnly.setUser huser hid (fun until_ huntil ↦ ?_) husers
        obtain hold | ⟨_, rfl⟩ := until_applyEntitlement hentitle huntil
        · rw [hlink] at hold
          exact .inl hold
        · right
          obtain ⟨he, _, rfl⟩ | ⟨_, rfl, _⟩ := entitlementCall_cases hc
          · obtain ⟨s, hs, hparse⟩ := periodEnd_eq_some hperiod
            exact ⟨s, ⟨by simp [ht], hs⟩, readAs_of_keepsDate hparse (hkeeps he s hs)⟩
          · cases hperiod
  · rw [handleWebhook_of_not_accepted hacc]
    exact .of_eq rfl

/-- So does a reconcile iteration, for the owner of its subscription. -/
theorem assigns_iteration {server : Server} {db : Db} {sub : Subscription}
    {remote : Option Attrs}
    (hkeeps : ∀ attrs ∈ remote, ∀ lsStatus ∈ attrs.status, lsStatus.keepsUntil = true →
      ∀ s ∈ attrs.endsAt, KeepsDate server s) :
    AssignsOnly (fun id t ↦ ∃ s, (sub.userId = id ∧
        ∃ attrs, remote = some attrs ∧ attrs.endsAt = some s) ∧ ReadAs server s t)
      db (reconcileOne db sub remote) := by
  cases hlookup : reconcileLookup db sub remote with
  | error e =>
    rw [reconcileOne_of_no_lookup fun _ hfound ↦ by rw [hlookup] at hfound; cases hfound]
    exact .of_eq rfl
  | ok found =>
    cases found with
    | none =>
      rw [reconcileOne_of_no_lookup fun _ hfound ↦ by rw [hlookup] at hfound; cases hfound]
      exact .of_eq rfl
    | some found =>
      obtain ⟨attrs, lsStatus, user, planName⟩ := found
      obtain ⟨hremote, hstatus, huser, _⟩ := reconcileLookup_eq_ok hlookup
      have hid := Db.id_of_userById huser
      rw [reconcileOne_of_lookup hlookup]
      cases hsync : syncEntitlement db user attrs lsStatus planName with
      | error e => exact .of_eq rfl
      | ok user' =>
        obtain ⟨stored, hperiod, hentitle⟩ := bind_eq_ok.mp hsync
        rw [← hid] at huser
        refine AssignsOnly.setUser huser (id_syncEntitlement hsync) (fun until_ huntil ↦ ?_) rfl
        obtain hold | ⟨hends, rfl⟩ := until_applyEntitlement hentitle huntil
        · exact .inl hold
        · obtain ⟨s, hs, hparse⟩ := periodEnd_eq_some hperiod
          exact .inr ⟨s, ⟨hid.symm, attrs, hremote, hs⟩,
            readAs_of_keepsDate hparse (hkeeps attrs hremote lsStatus hstatus hends s hs)⟩

/-! ### What the commit stores -/

@[simp] theorem dropOffset_id (user : User) : user.dropOffset.id = user.id := rfl

private theorem dropOffset_dropOffset (user : User) :
    user.dropOffset.dropOffset = user.dropOffset := by
  simp [User.dropOffset, Function.comp_def]

/-- Naive dates are not changed by dropping offsets. -/
theorem dropOffset_of_naive {user : User} (h : ∀ t ∈ user.planEffectiveUntil, t.Naive) :
    user.dropOffset = user := by
  obtain ⟨id, planId, until_, customer⟩ := user
  cases until_ with
  | none => rfl
  | some t =>
    obtain ⟨wall, offset⟩ := t
    obtain rfl : offset = none := h _ rfl
    rfl

private theorem dropOffsets_of_naive {db : Db} (h : NaiveUntil db) : db.dropOffsets = db := by
  have husers : db.users.map User.dropOffset = db.users := by
    rw [List.map_congr_left fun user hu ↦ dropOffset_of_naive (h user hu), List.map_id']
  unfold Db.dropOffsets
  rw [husers]

/-- Without offsets every date is naive. -/
theorem naiveUntil_dropOffsets (db : Db) : NaiveUntil db.dropOffsets := by
  intro user hu t ht
  obtain ⟨assigned, -, rfl⟩ := List.mem_map.mp hu
  obtain ⟨t', -, rfl⟩ := Option.map_eq_some_iff.mp ht
  rfl

/-- A write that succeeds stores the dates without their offsets. -/
theorem flush_eq_some {server : Server} {db stored : Db} (h : db.flush server = some stored) :
    stored = db.dropOffsets := by
  unfold Db.flush at h
  split at h <;> cases h
  rfl

/-- Assigned values whose instants the column keeps are stored in their naive form. -/
theorem flush_of_assigns {server : Server} {db db' : Db} {read : String → String → Prop}
    (hdb : NaiveUntil db)
    (h : AssignsOnly (fun id t ↦ ∃ s, read id s ∧ ReadAs server s t) db db') :
    db'.flush server = some db'.dropOffsets ∧
      AssignsOnly (fun id t ↦ ∃ s, read id s ∧ NaiveFormOf s t) db db'.dropOffsets := by
  constructor
  · unfold Db.flush
    rw [if_neg]
    rintro ⟨rfl, haware⟩
    refine haware fun user hu t ht ↦ ?_
    obtain ⟨old, hold, -, huntil⟩ | ⟨s, -, -, hoffset⟩ := h user hu t ht
    · exact hdb old hold t huntil
    · exact of_decide_eq_true hoffset
  · intro user hu t ht
    obtain ⟨assigned, hmem, rfl⟩ := List.mem_map.mp hu
    obtain ⟨t', ht', rfl⟩ := Option.map_eq_some_iff.mp ht
    obtain ⟨old, hold, hid, huntil⟩ | ⟨s, hread, hparse, hoffset⟩ := h assigned hmem t' ht'
    · left
      have hnaive : t'.utcoffset = none := hdb old hold t' huntil
      exact ⟨old, hold, hid, by rw [huntil, ← hnaive]⟩
    · have hzero : t'.utcoffset.getD 0 = 0 := by
        cases server <;> simp_all [keepsOffset]
      exact .inr ⟨s, hread, rfl, t', hparse, by simp [DateTime.instant, hzero]⟩

/-! ### Writing between the iterations of a pass -/

private theorem userById_dropOffsets (db : Db) (id : String) :
    db.dropOffsets.userById id = (db.userById id).map (Option.map User.dropOffset) :=
  Rows.oneOrNone_map (f := User.dropOffset) (fun _ ↦ rfl) db.users

/-- Two versions of a user that differ in an offset are stored alike. -/
theorem setUser_dropOffsets {db : Db} {user user' : User}
    (h : user.dropOffset = user'.dropOffset) :
    (db.dropOffsets.setUser user).dropOffsets = (db.setUser user').dropOffsets := by
  have hid : user.id = user'.id := by simpa using congrArg User.id h
  simp only [Db.setUser, Db.dropOffsets, Rows.modify, hid, List.map_map]
  congr 1
  refine List.map_congr_left fun u _ ↦ ?_
  by_cases hu : u.id = user'.id
  · simp [hu, h]
  · simp [hu, dropOffset_dropOffset]

/-- An entitlement decision passes the stored date on, or replaces it. -/
theorem applyEntitlement_dropOffset (db : Db) (user : User) (lsStatus : LsStatus)
    (planName : String) (periodEnd : Option DateTime) :
    (applyEntitlement db.dropOffsets user.dropOffset lsStatus planName periodEnd).map
        User.dropOffset =
      (applyEntitlement db user lsStatus planName periodEnd).map User.dropOffset := by
  unfold applyEntitlement
  rw [show db.dropOffsets.planByName planName = db.planByName planName from rfl,
    show db.dropOffsets.defaultPlan = db.defaultPlan from rfl]
  cases db.planByName planName with
  | error e => rfl
  | ok found =>
    cases found with
    | none => exact congrArg Except.ok (dropOffset_dropOffset user)
    | some plan =>
      cases db.defaultPlan with
      | error e => rfl
      | ok defaultPlan =>
        cases lsStatus <;> first | rfl | exact congrArg Except.ok (dropOffset_dropOffset user)

private theorem reconcileLookup_dropOffsets (db : Db) (sub : Subscription) (remote : Option Attrs) :
    reconcileLookup db.dropOffsets sub remote =
      (reconcileLookup db sub remote).map
        (Option.map fun (attrs, lsStatus, user, planName) ↦
          (attrs, lsStatus, user.dropOffset, planName)) := by
  unfold reconcileLookup
  cases remote with
  | none => rfl
  | some attrs =>
    obtain ⟨firstId, status, customer, variant, endsAt, price⟩ := attrs
    cases status with
    | none => rfl
    | some lsStatus =>
      simp only [userById_dropOffsets]
      cases db.userById sub.userId with
      | error e => rfl
      | ok found =>
        cases found with
        | none => rfl
        | some user =>
          simp only [show db.dropOffsets.planByVariant = db.planByVariant from rfl]
          generalize db.planByVariant _ = plan
          cases plan <;> rfl

/-- An iteration over what the iterations before it stored comes to the same as one over what
they assigned: it passes stored dates on, but reads none. -/
theorem reconcileOne_dropOffsets (db : Db) (sub : Subscription) (remote : Option Attrs) :
    (reconcileOne db.dropOffsets sub remote).dropOffsets =
      (reconcileOne db sub remote).dropOffsets := by
  have htwice : ∀ db : Db, db.dropOffsets.dropOffsets = db.dropOffsets := fun db ↦
    dropOffsets_of_naive (naiveUntil_dropOffsets db)
  unfold reconcileOne
  rw [reconcileLookup_dropOffsets]
  cases reconcileLookup db sub remote with
  | error e => exact htwice db
  | ok found =>
    cases found with
    | none => exact htwice db
    | some found =>
      obtain ⟨attrs, lsStatus, user, planName⟩ := found
      have hchanged : db.dropOffsets.updateSubscription sub.lemonSqueezySubscriptionId
          (fun s ↦ { s with status := lsStatus }) =
            (db.updateSubscription sub.lemonSqueezySubscriptionId
              fun s ↦ { s with status := lsStatus }).dropOffsets := rfl
      dsimp only [Except.map, Option.map]
      rw [hchanged]
      generalize db.updateSubscription sub.lemonSqueezySubscriptionId
        (fun s ↦ { s with status := lsStatus }) = changed
      have hsync : (syncEntitlement changed.dropOffsets user.dropOffset attrs lsStatus
          planName).map User.dropOffset =
            (syncEntitlement changed user attrs lsStatus planName).map User.dropOffset := by
        unfold syncEntitlement
        cases attrs.periodEnd with
        | error e => rfl
        | ok periodEnd => exact applyEntitlement_dropOffset changed user lsStatus planName periodEnd
      revert hsync
      cases syncEntitlement changed.dropOffsets user.dropOffset attrs lsStatus planName with
      | error e =>
        cases syncEntitlement changed user attrs lsStatus planName with
        | error e' => exact fun _ ↦ htwice changed
        | ok u => exact fun h ↦ by cases h
      | ok u =>
        cases syncEntitlement changed user attrs lsStatus planName with
        | error e' => exact fun h ↦ by cases h
        | ok u' => exact fun h ↦ setUser_dropOffsets (Except.ok.inj h)

private theorem foldlM_flush_eq_some {server : Server} {remote : String → Option Attrs}
    {subs : List Subscription} {db stored : Db}
    (h : subs.foldlM (fun db sub ↦
      (reconcileOne db sub (remote sub.lemonSqueezySubscriptionId)).flush server)
      db.dropOffsets = some stored) :
    stored = (subs.foldl (fun db sub ↦
      reconcileOne db sub (remote sub.lemonSqueezySubscriptionId)) db).dropOffsets := by
  induction subs generalizing db with
  | nil =>
    cases h
    rfl
  | cons sub rest ih =>
    rw [List.foldlM_cons] at h
    obtain ⟨written, hflush, hrest⟩ := Option.bind_eq_some_iff.mp h
    rw [flush_eq_some hflush, reconcileOne_dropOffsets] at hrest
    exact ih hrest

/-- A commit that succeeds stores what the event assigned, without offsets. -/
theorem commit_eq_some {server : Server} {db stored : Db} {e : BillingEvent}
    (hdb : NaiveUntil db) (h : db.commit server e = some stored) :
    stored = (db.after e).dropOffsets := by
  cases e with
  | webhook d => exact flush_eq_some h
  | reconcile billingEnabled remote =>
    cases billingEnabled with
    | false =>
      cases h
      exact (dropOffsets_of_naive hdb).symm
    | true =>
      rw [← dropOffsets_of_naive hdb] at h
      exact foldlM_flush_eq_some h

private theorem foldlM_flush_of_assigns {server : Server} {read : String → String → Prop}
    {step : Db → Subscription → Db} {subs : List Subscription} {db : Db}
    (h : ∀ sub ∈ subs, ∀ db,
      AssignsOnly (fun id t ↦ ∃ s, read id s ∧ ReadAs server s t) db (step db sub))
    (hdb : NaiveUntil db) :
    ∃ stored, subs.foldlM (fun db sub ↦ (step db sub).flush server) db = some stored ∧
      AssignsOnly (fun id t ↦ ∃ s, read id s ∧ NaiveFormOf s t) db stored := by
  induction subs generalizing db with
  | nil => exact ⟨db, rfl, .of_eq rfl⟩
  | cons sub rest ih =>
    obtain ⟨hflush, hstep⟩ := flush_of_assigns hdb (h sub List.mem_cons_self db)
    obtain ⟨stored, hrest, hassigns⟩ := ih (fun s hs ↦ h s (List.mem_cons_of_mem sub hs))
      (naiveUntil_dropOffsets (step db sub))
    refine ⟨stored, ?_, hstep.trans hassigns⟩
    rw [List.foldlM_cons, hflush]
    exact hrest

/-- An event whose dates the column keeps is committed, and stores naive forms of the strings
it carries. -/
theorem commit_of_keepsDates {server : Server} {db : Db} {e : BillingEvent} (hdb : NaiveUntil db)
    (hkeeps : KeepsDates server db e) :
    ∃ stored, db.commit server e = some stored ∧
      AssignsOnly (fun id t ↦ ∃ s, Carries db id s e ∧ NaiveFormOf s t) db stored := by
  cases e with
  | webhook d =>
    obtain ⟨hflush, hassigns⟩ := flush_of_assigns hdb (assigns_webhook hkeeps)
    exact ⟨_, hflush, hassigns⟩
  | reconcile billingEnabled remote =>
    cases billingEnabled with
    | false => exact ⟨db, rfl, .of_eq rfl⟩
    | true =>
      refine foldlM_flush_of_assigns (fun sub hsub db' ↦ ?_) hdb
      obtain ⟨hmem, hstatus⟩ := List.mem_filter.mp hsub
      refine (assigns_iteration (hkeeps rfl sub hmem hstatus)).mono ?_
      rintro id t ⟨s, ⟨howner, attrs, hremote, hs⟩, hread⟩
      exact ⟨s, ⟨sub, hmem, howner, attrs, hremote, hs⟩, hread⟩

/-! ### Reading the end date -/

private theorem oneOrNone_ne_typeError {α : Type} {p : α → Bool} {rows : List α} :
    Rows.oneOrNone p rows ≠ .error .typeError := by
  unfold Rows.oneOrNone
  split <;> simp

private theorem one_ne_typeError {α : Type} {p : α → Bool} {rows : List α} :
    Rows.one p rows ≠ .error .typeError := by
  unfold Rows.one
  split <;> simp

/-- With naive end dates plan resolution compares without exception and stops at the end. -/
theorem expiresOnTime_of_naive {db : Db} (hdb : NaiveUntil db) (userId : String) {now : DateTime}
    (hnow : now.Naive) : ExpiresOnTime db userId now := by
  have hforce : ∀ user, db.userById userId = .ok (some user) → ∀ until_,
      user.planEffectiveUntil = some until_ →
      user.inForce now = .ok (decide (now.wall < until_.wall)) := by
    intro user huser until_ huntil
    have hnaive := hdb user (Rows.mem_of_oneOrNone huser) until_ huntil
    unfold User.inForce
    rw [huntil]
    exact DateTime.gt_of_naive hnaive hnow
  constructor
  · unfold getEffectivePlan
    cases huser : db.userById userId with
    | error e =>
      intro h
      cases h
      exact oneOrNone_ne_typeError huser
    | ok found =>
      cases found with
      | none => exact one_ne_typeError
      | some user =>
        cases hplanId : user.planId.filter (· ≠ "") with
        | none =>
          simp only [bind, Except.bind, hplanId]
          exact one_ne_typeError
        | some planId =>
          have hdefined : ∃ b, user.inForce now = .ok b := by
            cases huntil : user.planEffectiveUntil with
            | none => exact ⟨true, by simp only [User.inForce, huntil]⟩
            | some until_ => exact ⟨_, hforce user huser until_ huntil⟩
          obtain ⟨inForce, hinForce⟩ := hdefined
          simp only [bind, Except.bind, hplanId, hinForce]
          cases inForce with
          | false => exact one_ne_typeError
          | true =>
            cases hplan : db.planById planId with
            | error e =>
              intro h
              cases h
              exact oneOrNone_ne_typeError hplan
            | ok stored =>
              cases stored with
              | none => exact one_ne_typeError
              | some stored => simp [pure, Except.pure]
  · intro user planId plan until_ huser hplanId hne hplan huntil
    unfold getEffectivePlan
    rw [huser]
    simp only [bind, Except.bind, hplanId, hforce user huser until_ huntil]
    by_cases hlt : now.wall < until_.wall
    · simp [hne, hlt, Option.filter, hplan, pure, Except.pure]
    · simp [hne, hlt, Option.filter]

/-! ### Runs -/

/-- Whatever the events, what is stored is naive. -/
theorem naiveUntil_of_run {server : Server} {db₀ db : Db} {events : List BillingEvent}
    (hstart : NaiveUntil db₀) (hrun : (storedTables server).run db₀ events = some db) :
    NaiveUntil db := by
  refine (storedTables server).invariant_of_reachable ?_ hstart ⟨events, hrun⟩
  rintro db e _ hdb ⟨⟩
  change NaiveUntil ((db.commit server e).getD db)
  cases hcommit : db.commit server e with
  | none => exact hdb
  | some stored =>
    rw [commit_eq_some hdb hcommit]
    exact naiveUntil_dropOffsets _

/-- In every run whose end dates the column keeps, in every state reached: every end date is
naive; the next event is committed, stores what it assigns, and stores only naive forms of
strings it carries for the user; and plan resolution is defined and stops exactly at the end
date. -/
theorem expiry_of_keepsDates {server : Server} {db₀ : Db} {events : List BillingEvent}
    (hstart : NaiveUntil db₀)
    (hkeeps : (storedTables server).Guarded (KeepsDates server) db₀ events)
    {before : List BillingEvent} (hbefore : before <+: events) {db : Db}
    (hrun : (storedTables server).run db₀ before = some db) :
    NaiveUntil db ∧
    (∀ e, before ++ [e] <+: events → ∃ stored, db.commit server e = some stored ∧
      stored = (db.after e).dropOffsets ∧
      AssignsOnly (fun id t ↦ ∃ s, Carries db id s e ∧ NaiveFormOf s t) db stored) ∧
    ∀ userId now, now.Naive → ExpiresOnTime db userId now := by
  obtain ⟨rest, rfl⟩ := hbefore
  have hguards := ((storedTables server).guarded_append rest hrun).mp hkeeps
  have hnaive := naiveUntil_of_run hstart hrun
  refine ⟨hnaive, fun e he ↦ ?_, fun userId now ↦ expiresOnTime_of_naive hnaive userId⟩
  obtain ⟨tail, rfl⟩ := (List.prefix_append_right_inj before).mp he
  obtain ⟨stored, hcommit, hassigns⟩ := commit_of_keepsDates hnaive (hguards.2 _ rfl).1
  exact ⟨stored, hcommit, commit_eq_some hnaive hcommit, hassigns⟩

/-- The delivery of a cancellation with an end date string. -/
def cancelledAt (endsAt : String) : BillingEvent :=
  .webhook (proEvent "w2" .subscriptionCancelled "u1" "s1" .cancelled (some endsAt))

/-- A user subscribes and cancels. -/
def cancellation (endsAt : String) : List BillingEvent :=
  [.webhook (proEvent "w1" .subscriptionCreated "u1" "s1" .active none), cancelledAt endsAt]

/-- On SQLite a string in `Z` is stored as a naive end date, which plan resolution meets. -/
theorem zuluCancellation_expires :
    ∃ db, (storedTables .sqlite).run freshInstall (cancellation endOfJune) = some db ∧
      db.entitlementOf "u1" = .ok (some (some "p-pro", some ⟨63918460799000000, none⟩)) ∧
      ∀ now, now.Naive → ExpiresOnTime db "u1" now := by
  have hrun : (storedTables .sqlite).run freshInstall (cancellation endOfJune) = some _ := rfl
  have h := expiry_of_keepsDates (by decide) (by decide +kernel) (List.prefix_refl _) hrun
  exact ⟨_, hrun, by decide +kernel, h.2.2 "u1"⟩

/-- On SQLite a string with another offset is stored by its clock, and the user is on the
paid plan two hours after the instant it denotes. On PostgreSQL the form the provider sends,
which ends in `Z`, makes the commit fail, and the plan is left without an end. -/
theorem offsetCancellation_misses :
    (∃ db, (storedTables .sqlite).run freshInstall
        (cancellation "2026-06-30T23:59:59+02:00") = some db ∧
      db.entitlementOf "u1" = .ok (some (some "p-pro", some ⟨63918460799000000, none⟩)) ∧
      ¬ NaiveFormOf "2026-06-30T23:59:59+02:00" ⟨63918460799000000, none⟩ ∧
      (getEffectivePlan db "u1" ⟨63918460798999999, none⟩).map Plan.name = .ok "pro") ∧
    ∃ db, (storedTables .postgres).run freshInstall (cancellation endOfJune) = some db ∧
      db.commit .postgres (cancelledAt endOfJune) = none ∧
      db.entitlementOf "u1" = .ok (some (some "p-pro", none)) := by
  have hparse : DateTime.fromisoformat "2026-06-30T23:59:59+02:00" =
      .ok ⟨63918460799000000, some 7200000000⟩ := by decide +kernel
  refine ⟨⟨_, rfl, by decide +kernel, ?_, by decide +kernel⟩, _, rfl, by decide +kernel,
    by decide +kernel⟩
  rintro ⟨-, parsed, hparsed, heq⟩
  rw [hparse] at hparsed
  cases hparsed
  simp [DateTime.instant] at heq

end WikiMind.Billing
