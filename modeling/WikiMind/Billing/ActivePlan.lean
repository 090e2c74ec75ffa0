import Mathlib.Logic.Function.Basic
import WikiMind.Billing.LastEvent

/-!
# Users with an active subscription

Webhook events and reconcile passes in any order, over all subscriptions of a user. The
entitlement is one pair of columns on the user, and no handler looks at the other
subscriptions (`api/routes/billing.py:334`, `services/billing.py:128`): the last write
decides. The plan of a subscription is the one its last processed attributes named, kept
here as a history variable because the row's `plan_id` is set only on insertion.
-/

namespace WikiMind.Billing

open WikiMind.Base

/-- What one processed event or iteration writes: a state to a subscription, and, if
nothing raises before, the entitlement of that state and plan to a user. -/
structure Write where
  subscriptionId : String
  userId : String
  status : LsStatus
  planName : String
  inserts : Bool
  entitles : Bool
  deriving DecidableEq, Repr

/-- The write of a delivery, if it is accepted and has a handler. -/
def Delivery.write (db : Db) (d : Delivery) : Option Write :=
  if Accepted db d then
    match d.target db, d.entitlementCall, db.planByVariant d.attrs.variant with
    | some user, some (lsStatus, _), .ok plan =>
      some { subscriptionId := d.subscriptionId, userId := user.id, status := lsStatus,
             planName := planNameOf plan, entitles := true,
             inserts := d.event ≠ .subscriptionCancelled ∧ d.event ≠ .subscriptionExpired }
    | _, _, _ => none
  else none

/-- The write of a reconcile iteration, if its lookups succeed. -/
def iterationWrite (db : Db) (it : Subscription × Option Attrs) : Option Write :=
  match reconcileLookup db it.1 it.2 with
  | .ok (some (attrs, lsStatus, user, planName)) =>
    some { subscriptionId := it.1.lemonSqueezySubscriptionId, userId := user.id,
           status := lsStatus, planName, inserts := false,
           entitles := attrs.periodEnd.isOk && db.defaultPlan.isOk }
  | _ => none

/-- The effect of a write on the tables, as far as active subscriptions matter. -/
structure Performs (db : Db) (w : Write) (db' : Db) : Prop where
  repriced : Repriced db db'
  others : ∀ id, id ≠ w.userId → db'.entitlementOf id = db.entitlementOf id
  stored : Stored db.subscriptions w.subscriptionId w.userId w.status db'.subscriptions
  row : w.status = .active →
    (w.inserts ∨ ∃ s ∈ db.subscriptions, s.lemonSqueezySubscriptionId = w.subscriptionId) →
    ∃ s ∈ db'.subscriptions, s.lemonSqueezySubscriptionId = w.subscriptionId
  granted : w.status = .active → w.entitles → ∀ plan, db.planByName w.planName = .ok (some plan) →
    db'.entitlementOf w.userId = .ok (some (some plan.id, none))

/-- Tables and the plan name last processed for each subscription. -/
structure Tracked where
  db : Db
  planNames : String → Option String

/-- Record what was written next to the new tables. -/
def Tracked.next (t : Tracked) (db' : Db) : Option Write → Tracked
  | none => ⟨db', t.planNames⟩
  | some w => ⟨db', Function.update t.planNames w.subscriptionId (some w.planName)⟩

/-- One reconcile iteration with its record. -/
def trackedIteration (t : Tracked) (it : Subscription × Option Attrs) : Tracked :=
  t.next (reconcileOne t.db it.1 it.2) (iterationWrite t.db it)

/-- One event: a delivery, or all the iterations of a pass. -/
def billingStep (t : Tracked) : BillingEvent → Tracked
  | .webhook d => t.next (handleWebhook t.db d).2 (d.write t.db)
  | .reconcile billingEnabled remote =>
    (passIterations billingEnabled remote t.db).foldl trackedIteration t

/-- Webhook events and reconcile passes in any order. -/
def billing : Machine Tracked BillingEvent := .ofFun billingStep

/-- The iterations of one pass. -/
def trackedIterations : Machine Tracked (Subscription × Option Attrs) := .ofFun trackedIteration

@[simp] theorem next_db (t : Tracked) (db' : Db) (w : Option Write) : (t.next db' w).db = db' := by
  cases w <;> rfl

/-- The tables of the tracked system are those of the webhook and of the reconcile job. -/
theorem billingStep_db (t : Tracked) (e : BillingEvent) : (billingStep t e).db = t.db.after e := by
  have hfold : ∀ (its : List (Subscription × Option Attrs)) (t : Tracked),
      (its.foldl trackedIteration t).db =
        its.foldl (fun db it ↦ reconcileOne db it.1 it.2) t.db := by
    intro its
    induction its with
    | nil => intro t; rfl
    | cons it rest ih => intro t; simp only [List.foldl_cons, ih, trackedIteration, next_db]
  cases e with
  | webhook d => simp only [billingStep, next_db, Db.after]
  | reconcile billingEnabled remote =>
    have hrun := run_passIterations billingEnabled remote t.db
    unfold iterations at hrun
    rw [Machine.run_ofFun] at hrun
    simp only [billingStep, hfold]
    exact Option.some.inj hrun

/-- The user has an active subscription. -/
def HasActive (db : Db) (userId : String) : Prop :=
  ∃ s ∈ db.subscriptions, s.userId = userId ∧ s.status = .active

/-- A user with an active subscription resolves, at all times, to a paid plan of one of
their active subscriptions. -/
def ServedByActive (userId : String) (t : Tracked) : Prop :=
  HasActive t.db userId →
    ∃ s ∈ t.db.subscriptions, s.userId = userId ∧ s.status = .active ∧
      ∃ plan, plan.isDefault = false ∧
        t.planNames s.lemonSqueezySubscriptionId = some plan.name ∧
        ∀ now : DateTime, now.Naive → getEffectivePlan t.db userId now = .ok plan

/-- Plan ids are a primary key, and not empty. -/
def WellKeyed (db : Db) : Prop := (db.plans.map Plan.id).Nodup ∧ ∀ p ∈ db.plans, p.id ≠ ""

/-- After the write its subscription belongs to the user. -/
def Write.Owned (w : Write) (db : Db) (userId : String) : Prop :=
  (∃ s ∈ db.subscriptions, s.lemonSqueezySubscriptionId = w.subscriptionId ∧ s.userId = userId) ∨
  ((∀ s ∈ db.subscriptions, s.lemonSqueezySubscriptionId ≠ w.subscriptionId) ∧ w.userId = userId)

/-- The name is that of a plan other than the default one. -/
def NamesPaidPlan (db : Db) (name : String) : Prop :=
  match db.planByName name with
  | .ok (some plan) => plan.isDefault = false
  | _ => False

/-- Writes that are safe for a user: those about neither the user nor their subscriptions;
those that leave a subscription other than active while no other one is; and those that
report one of their subscriptions active, on a known paid plan. -/
def SafeWrite (userId : String) (db : Db) (w : Write) : Prop :=
  (w.userId ≠ userId ∧ ¬ w.Owned db userId) ∨
  ((w.status ≠ .active ∨ ¬ w.Owned db userId) ∧
    ∀ s ∈ db.subscriptions, s.userId = userId → s.status = .active →
      s.lemonSqueezySubscriptionId = w.subscriptionId) ∨
  (w.userId = userId ∧ w.Owned db userId ∧ w.status = .active ∧ w.entitles ∧
    (w.inserts ∨ ∃ s ∈ db.subscriptions, s.lemonSqueezySubscriptionId = w.subscriptionId) ∧
    NamesPaidPlan db w.planName)

/-- Events all of whose writes are safe for the user. -/
def SafeFor (userId : String) (t : Tracked) : BillingEvent → Prop
  | .webhook d => ∀ w ∈ d.write t.db, SafeWrite userId t.db w
  | .reconcile billingEnabled remote =>
    trackedIterations.Guarded (fun t it ↦ ∀ w ∈ iterationWrite t.db it, SafeWrite userId t.db w) t
      (passIterations billingEnabled remote t.db)

instance (db : Db) (name : String) : Decidable (NamesPaidPlan db name) := by
  unfold NamesPaidPlan
  split <;> infer_instance

instance (w : Write) (db : Db) (userId : String) : Decidable (w.Owned db userId) := by
  unfold Write.Owned; infer_instance

instance (userId : String) (db : Db) (w : Write) : Decidable (SafeWrite userId db w) := by
  unfold SafeWrite; infer_instance

instance (userId : String) (t : Tracked) : (e : BillingEvent) → Decidable (SafeFor userId t e)
  | .webhook d => by unfold SafeFor; infer_instance
  | .reconcile _ _ => by unfold SafeFor; infer_instance

instance (db : Db) (userId : String) : Decidable (HasActive db userId) := by
  unfold HasActive; infer_instance

instance (db : Db) : Decidable (WellKeyed db) := by unfold WellKeyed; infer_instance

/-! ### What a write does -/

private theorem entitlementOf_congr {db db' : Db} {id : String}
    (h : db'.userById id = db.userById id) : db'.entitlementOf id = db.entitlementOf id := by
  unfold Db.entitlementOf
  rw [h]

private theorem granted_of_entitle {db : Db} {user user' : User} {planName : String}
    {until_ : Option DateTime} {plan : Plan} (hplan : db.planByName planName = .ok (some plan))
    (h : applyEntitlement db user .active planName until_ = .ok user') :
    user'.entitlement = (some plan.id, none) := by
  obtain ⟨hnone, _⟩ | ⟨granted, _, hgranted, _, rfl⟩ := applyEntitlement_eq_ok h
  · rw [hplan] at hnone
    cases hnone
  · rw [hplan] at hgranted
    cases hgranted
    rfl

private theorem write_eq_some {db : Db} {d : Delivery} {w : Write} (h : d.write db = some w) :
    Accepted db d ∧ ∃ user periodEnd plan, d.target db = some user ∧
      d.entitlementCall = some (w.status, periodEnd) ∧
      db.planByVariant d.attrs.variant = .ok plan ∧
      w.subscriptionId = d.subscriptionId ∧ w.userId = user.id ∧ w.planName = planNameOf plan := by
  unfold Delivery.write at h
  split at h
  · next hacc =>
    split at h
    · next user lsStatus periodEnd plan ht hc hplan =>
      cases h
      exact ⟨hacc, user, periodEnd, plan, ht, hc, hplan, rfl, rfl, rfl⟩
    · cases h
  · cases h

/-- A delivery performs its write. -/
theorem performs_webhook {db : Db} {d : Delivery} {w : Write} (h : d.write db = some w) :
    Performs db w (handleWebhook db d).2 := by
  obtain ⟨hacc, user, periodEnd, plan, ht, hc, hplan, hsub, huser, hname⟩ := write_eq_some h
  obtain ⟨_, _, _, _, _, _, _, _, hstored, hrow⟩ := accepted_handled hacc ht hc
  constructor
  · exact repriced_handleWebhook db d
  · intro id hid
    exact entitlementOf_congr (userById_other fun _ ↦ by simpa [ht, ← huser] using hid.symm)
  · rw [hsub, huser]
    exact hstored
  · intro hactive _
    rw [hsub]
    obtain ⟨_, hcancelled, _⟩ | ⟨he, _, ⟨_, hexpired⟩ | ⟨he', _⟩⟩ := entitlementCall_cases hc
    · cases hcancelled.symm.trans hactive
    · cases hexpired.symm.trans hactive
    · exact hrow he he'
  · intro hactive _ granted hgranted
    obtain ⟨user', huser', hwritten⟩ := userById_target hacc ht
    rw [hc] at hwritten
    obtain ⟨plan', until_, hplan', _, hentitle⟩ := hwritten
    obtain rfl : plan = plan' := Except.ok.inj (hplan.symm.trans hplan')
    rw [huser]
    refine entitlementOf_eq_some.mpr ⟨user', huser', ?_⟩
    rw [hactive, ← hname] at hentitle
    exact granted_of_entitle hgranted hentitle

/-- A delivery without write touches neither entitlements nor subscriptions. -/
theorem untouched_webhook {db : Db} {d : Delivery} (h : d.write db = none) :
    Repriced db (handleWebhook db d).2 ∧
      (∀ id, (handleWebhook db d).2.entitlementOf id = db.entitlementOf id) ∧
      (handleWebhook db d).2.subscriptions = db.subscriptions := by
  by_cases hacc : Accepted db d
  · cases ht : d.target db with
    | none =>
      obtain ⟨hplans, husers, hsubs⟩ := accepted_untargeted hacc ht
      exact ⟨hplans, fun id ↦ entitlementOf_congr (Db.userById_congr husers id), hsubs⟩
    | some user =>
      have hc : d.entitlementCall = none := by
        obtain ⟨plan, hplan⟩ := planByVariant_of_accepted hacc ht
        unfold Delivery.write at h
        rw [if_pos hacc, ht, hplan] at h
        cases hc : d.entitlementCall with
        | none => rfl
        | some call => simp [hc] at h
      refine ⟨repriced_handleWebhook db d, fun id ↦ ?_, (accepted_ignored hacc ht hc).2.2⟩
      by_cases hid : user.id = id
      · subst hid
        obtain ⟨user', huser', hsame⟩ := userById_target hacc ht
        rw [hc] at hsame
        rw [entitlementOf_eq_some.mpr ⟨user', huser', hsame⟩,
          entitlementOf_eq_some.mpr ⟨user, userById_of_accepted hacc ht, rfl⟩]
      · exact entitlementOf_congr (userById_other fun _ ↦ by simpa [ht] using hid)
  · rw [handleWebhook_of_not_accepted hacc]
    exact ⟨.of_eq rfl, fun _ ↦ rfl, rfl⟩

private theorem iterationWrite_eq_some {db : Db} {it : Subscription × Option Attrs} {w : Write}
    (h : iterationWrite db it = some w) :
    ∃ attrs user, reconcileLookup db it.1 it.2 = .ok (some (attrs, w.status, user, w.planName)) ∧
      w.subscriptionId = it.1.lemonSqueezySubscriptionId ∧ w.userId = user.id ∧
      w.inserts = false ∧ w.entitles = (attrs.periodEnd.isOk && db.defaultPlan.isOk) := by
  unfold iterationWrite at h
  split at h
  · next attrs lsStatus user planName hlookup =>
    cases h
    exact ⟨attrs, user, hlookup, rfl, rfl, rfl, rfl⟩
  · cases h

private theorem sync_of_entitles {db : Db} {attrs : Attrs} {planName : String} {plan : Plan}
    (user : User) (hentitles : (attrs.periodEnd.isOk && db.defaultPlan.isOk) = true)
    (hplan : db.planByName planName = .ok (some plan)) :
    ∃ user', syncEntitlement db user attrs .active planName = .ok user' ∧
      user'.entitlement = (some plan.id, none) := by
  unfold syncEntitlement applyEntitlement
  rw [hplan]
  cases hperiod : attrs.periodEnd with
  | error e => simp [hperiod, Except.isOk, Except.toBool] at hentitles
  | ok until_ =>
    cases hdefault : db.defaultPlan with
    | error e => simp [hdefault, Except.isOk, Except.toBool] at hentitles
    | ok defaultPlan => exact ⟨_, rfl, rfl⟩

/-- A reconcile iteration performs its write. -/
theorem performs_iteration {db : Db} {it : Subscription × Option Attrs} {w : Write}
    (h : iterationWrite db it = some w) : Performs db w (reconcileOne db it.1 it.2) := by
  obtain ⟨attrs, user, hlookup, hsub, huserId, hinserts, hentitles⟩ := iterationWrite_eq_some h
  obtain ⟨_, _, huser, _⟩ := reconcileLookup_eq_ok hlookup
  have huser' : db.userById user.id = .ok (some user) := by
    rw [Db.id_of_userById huser]; exact huser
  have hstored : Stored db.subscriptions w.subscriptionId w.userId w.status
      (Rows.modify (fun s ↦ s.lemonSqueezySubscriptionId = it.1.lemonSqueezySubscriptionId)
        (fun s ↦ { s with status := w.status }) db.subscriptions) := by
    rw [hsub]
    exact stored_modify fun s ↦ ⟨rfl, rfl, rfl⟩
  have hrow : (w.inserts ∨ ∃ s ∈ db.subscriptions,
        s.lemonSqueezySubscriptionId = w.subscriptionId) →
      ∃ s ∈ Rows.modify (fun s ↦ s.lemonSqueezySubscriptionId = it.1.lemonSqueezySubscriptionId)
        (fun s ↦ { s with status := w.status }) db.subscriptions,
        s.lemonSqueezySubscriptionId = w.subscriptionId := by
    rintro (hi | ⟨s, hs, hid⟩)
    · rw [hinserts] at hi
      cases hi
    · refine ⟨{ s with status := w.status }, Rows.mem_modify.mpr (.inl ⟨s, hs, ?_, rfl⟩), hid⟩
      rw [← hsub]
      exact decide_eq_true hid
  rw [reconcileOne_of_lookup hlookup]
  cases hsync : syncEntitlement db user attrs w.status w.planName with
  | error e =>
    refine ⟨.of_eq rfl, fun _ _ ↦ rfl, hstored, fun _ ↦ hrow, fun hactive he plan hplan ↦ ?_⟩
    rw [hentitles] at he
    obtain ⟨user', hok, _⟩ := sync_of_entitles user he hplan
    rw [hactive, hok] at hsync
    cases hsync
  | ok user' =>
    have hid := id_syncEntitlement hsync
    refine ⟨.of_eq rfl, fun id hne ↦ ?_, hstored, fun _ ↦ hrow, fun hactive he plan hplan ↦ ?_⟩
    · apply entitlementOf_congr
      rw [huserId] at hne
      exact Db.userById_setUser_other (by rw [hid]; exact hne.symm)
    · rw [hentitles] at he
      obtain ⟨user'', hok, hcolumns⟩ := sync_of_entitles user he hplan
      rw [hactive, hok] at hsync
      cases hsync
      rw [huserId]
      exact entitlementOf_eq_some.mpr ⟨user', Db.userById_setUser_self huser' hid, hcolumns⟩

/-- An iteration without write does nothing. -/
theorem untouched_iteration {db : Db} {it : Subscription × Option Attrs}
    (h : iterationWrite db it = none) : reconcileOne db it.1 it.2 = db := by
  apply reconcileOne_of_no_lookup
  rintro ⟨attrs, lsStatus, user, planName⟩ hlookup
  simp [iterationWrite, hlookup] at h

/-! ### The invariant -/

/-- The invariant over the stored columns. -/
theorem servedByActive_iff {userId : String} {t : Tracked} :
    ServedByActive userId t ↔ (HasActive t.db userId →
      ∃ s ∈ t.db.subscriptions, s.userId = userId ∧ s.status = .active ∧
        ∃ plan, plan.isDefault = false ∧
          t.planNames s.lemonSqueezySubscriptionId = some plan.name ∧ OnPlan t.db userId plan) := by
  unfold ServedByActive
  constructor
  · intro h hactive
    obtain ⟨s, hs, hsu, hsa, plan, hpaid, hname, hall⟩ := h hactive
    exact ⟨s, hs, hsu, hsa, plan, hpaid, hname, (getEffectivePlan_always_iff hpaid).mp hall⟩
  · intro h hactive
    obtain ⟨s, hs, hsu, hsa, plan, hpaid, hname, hall⟩ := h hactive
    exact ⟨s, hs, hsu, hsa, plan, hpaid, hname, (getEffectivePlan_always_iff hpaid).mpr hall⟩

private theorem owned_of_stored {db db' : Db} {w : Write} {s : Subscription}
    (h : Stored db.subscriptions w.subscriptionId w.userId w.status db'.subscriptions)
    (hs : s ∈ db'.subscriptions) (hid : s.lemonSqueezySubscriptionId = w.subscriptionId) :
    w.Owned db s.userId := by
  obtain ⟨r, hr, hrid, howner⟩ | ⟨hnone, howner⟩ := h.owner_eq s hs hid
  · left
    exact ⟨r, hr, hrid, howner.symm⟩
  · right
    exact ⟨hnone, howner.symm⟩

private theorem wellKeyed_of_repriced {db db' : Db} (h : Repriced db db') (hk : WellKeyed db) :
    WellKeyed db' := by
  obtain ⟨f, hf, hfp⟩ := h
  have hid : ∀ p, (f p).id = p.id := fun p ↦ by rw [hfp p]
  constructor
  · have hids : db'.plans.map Plan.id = db.plans.map Plan.id := by
      rw [hf, List.map_map]
      exact List.map_congr_left fun p _ ↦ hid p
    rw [hids]
    exact hk.1
  · intro p hp
    rw [hf] at hp
    obtain ⟨q, hq, rfl⟩ := List.mem_map.mp hp
    rw [hid]
    exact hk.2 q hq

-- A paid plan stays one under price changes, with the same name.
private theorem onPlan_of_repriced {db db' : Db} {userId : String} {plan : Plan}
    (h : Repriced db db') (hcolumns : db'.entitlementOf userId = db.entitlementOf userId)
    (hon : OnPlan db userId plan) :
    ∃ plan', plan'.isDefault = plan.isDefault ∧ plan'.name = plan.name ∧
      OnPlan db' userId plan' := by
  obtain ⟨planId, hne, hstored, hplan⟩ := hon
  obtain ⟨f, hf, hbyId⟩ := planById_of_repriced h planId
  rw [hplan] at hbyId
  refine ⟨f plan, by rw [hf plan], by rw [hf plan], planId, hne, ?_, hbyId⟩
  rw [hcolumns]
  exact hstored

private theorem onPlan_of_granted {db db' : Db} {userId : String} {plan : Plan} {name : String}
    (h : Repriced db db') (hk : WellKeyed db) (hplan : db.planByName name = .ok (some plan))
    (hcolumns : db'.entitlementOf userId = .ok (some (some plan.id, none))) :
    ∃ plan', plan'.isDefault = plan.isDefault ∧ plan'.name = plan.name ∧
      OnPlan db' userId plan' := by
  have hmem := Rows.mem_of_oneOrNone hplan
  have hbyId : db.planById plan.id = .ok (some plan) := Rows.oneOrNone_of_nodup hk.1 hmem
  obtain ⟨f, hf, hbyId'⟩ := planById_of_repriced h plan.id
  rw [hbyId] at hbyId'
  exact ⟨f plan, by rw [hf plan], by rw [hf plan], plan.id, hk.2 plan hmem, hcolumns, hbyId'⟩

/-- A write that concerns neither the user nor their subscriptions. -/
theorem served_of_foreign {userId : String} {t : Tracked} {db' : Db} {w : Write}
    (hp : Performs t.db w db') (hne : w.userId ≠ userId) (hown : ¬ w.Owned t.db userId)
    (h : ServedByActive userId t) : ServedByActive userId (t.next db' (some w)) := by
  rw [servedByActive_iff] at h ⊢
  rintro ⟨s, hs, hsu, hsa⟩
  have hkey : ∀ r ∈ t.db.subscriptions, r.userId = userId →
      r.lemonSqueezySubscriptionId ≠ w.subscriptionId := fun r hr hru hid ↦
    hown (.inl ⟨r, hr, hid, hru⟩)
  have hsid : s.lemonSqueezySubscriptionId ≠ w.subscriptionId := fun hid ↦
    hown (hsu ▸ owned_of_stored hp.stored hs hid)
  have hbefore : s ∈ t.db.subscriptions := (hp.stored.other s hsid).mp hs
  obtain ⟨r, hr, hru, hra, plan, hpaid, hname, hon⟩ := h ⟨s, hbefore, hsu, hsa⟩
  obtain ⟨plan', hpaid', hname', hon'⟩ :=
    onPlan_of_repriced hp.repriced (hp.others userId hne.symm) hon
  refine ⟨r, (hp.stored.other r (hkey r hr hru)).mpr hr, hru, hra, plan', ?_, ?_, hon'⟩
  · rw [hpaid', hpaid]
  · simp only [Tracked.next, Function.update_of_ne (hkey r hr hru), hname, hname']

/-- A write that leaves the user without active subscription. -/
theorem served_of_last {userId : String} {t : Tracked} {db' : Db} {w : Write}
    (hp : Performs t.db w db') (hw : w.status ≠ .active ∨ ¬ w.Owned t.db userId)
    (hothers : ∀ s ∈ t.db.subscriptions, s.userId = userId → s.status = .active →
      s.lemonSqueezySubscriptionId = w.subscriptionId) :
    ServedByActive userId (t.next db' (some w)) := by
  rintro ⟨s, hs, hsu, hsa⟩
  have hid : s.lemonSqueezySubscriptionId = w.subscriptionId := by
    by_contra hne
    exact hne (hothers s ((hp.stored.other s hne).mp hs) hsu hsa)
  obtain hstatus | hown := hw
  · exact absurd ((hp.stored.status_eq s hs hid).symm.trans hsa) hstatus
  · exact absurd (hsu ▸ owned_of_stored hp.stored hs hid) hown

/-- A write that reports one of the user's subscriptions active on a known paid plan. -/
theorem served_of_active {userId : String} {t : Tracked} {db' : Db} {w : Write} {plan : Plan}
    (hp : Performs t.db w db') (hk : WellKeyed t.db) (huser : w.userId = userId)
    (hown : w.Owned t.db userId) (hactive : w.status = .active) (hentitles : w.entitles = true)
    (hrow : w.inserts = true ∨
      ∃ s ∈ t.db.subscriptions, s.lemonSqueezySubscriptionId = w.subscriptionId)
    (hplan : t.db.planByName w.planName = .ok (some plan)) (hpaid : plan.isDefault = false) :
    ServedByActive userId (t.next db' (some w)) := by
  rw [servedByActive_iff]
  intro _
  have hsub : ∃ s ∈ db'.subscriptions, s.lemonSqueezySubscriptionId = w.subscriptionId ∧
      s.userId = userId := by
    obtain ⟨r, hr, hrid, hru⟩ | ⟨hnone, _⟩ := hown
    · obtain ⟨s, hs, hsid, hsu⟩ := hp.stored.kept r hr hrid
      exact ⟨s, hs, hsid, hsu.trans hru⟩
    · obtain ⟨s, hs, hsid⟩ := hp.row hactive hrow
      obtain ⟨r, hr, hrid, _⟩ | ⟨_, hsu⟩ := hp.stored.owner_eq s hs hsid
      · exact absurd hrid (hnone r hr)
      · exact ⟨s, hs, hsid, hsu.trans huser⟩
  obtain ⟨s, hs, hsid, hsu⟩ := hsub
  have hcolumns := hp.granted hactive hentitles plan hplan
  rw [huser] at hcolumns
  obtain ⟨plan', hpaid', hname', hon⟩ := onPlan_of_granted hp.repriced hk hplan hcolumns
  refine ⟨s, hs, hsu, (hp.stored.status_eq s hs hsid).trans hactive, plan', ?_, ?_, hon⟩
  · rw [hpaid', hpaid]
  · have hname : plan.name = w.planName := by simpa using Rows.prop_of_oneOrNone hplan
    simp only [Tracked.next, hsid, Function.update_self, hname', hname]

/-- One safe write keeps the invariant. -/
theorem served_of_performs {userId : String} {t : Tracked} {db' : Db} {w : Write}
    (hp : Performs t.db w db') (hsafe : SafeWrite userId t.db w) (hk : WellKeyed t.db)
    (h : ServedByActive userId t) : ServedByActive userId (t.next db' (some w)) := by
  obtain ⟨hne, hown⟩ | ⟨hw, hothers⟩ | ⟨huser, hown, hactive, hentitles, hrow, hpaid⟩ := hsafe
  · exact served_of_foreign hp hne hown h
  · exact served_of_last hp hw hothers
  · unfold NamesPaidPlan at hpaid
    split at hpaid
    · next plan hplan =>
      exact served_of_active hp hk huser hown hactive hentitles hrow hplan hpaid
    · exact hpaid.elim

/-- Steps that leave entitlements and subscriptions alone keep the invariant. -/
theorem served_of_untouched {userId : String} {t : Tracked} {db' : Db} (hr : Repriced t.db db')
    (hcolumns : db'.entitlementOf userId = t.db.entitlementOf userId)
    (hsubs : db'.subscriptions = t.db.subscriptions) (h : ServedByActive userId t) :
    ServedByActive userId (t.next db' none) := by
  rw [servedByActive_iff] at h ⊢
  rintro ⟨s, hs, hsu, hsa⟩
  simp only [Tracked.next, hsubs] at hs ⊢
  obtain ⟨r, hrmem, hru, hra, plan, hpaid, hname, hon⟩ := h ⟨s, hs, hsu, hsa⟩
  obtain ⟨plan', hpaid', hname', hon'⟩ := onPlan_of_repriced hr hcolumns hon
  exact ⟨r, hrmem, hru, hra, plan', by rw [hpaid', hpaid], by rw [hname, hname'], hon'⟩

private theorem next_iteration {userId : String} {t : Tracked} {it : Subscription × Option Attrs}
    (hsafe : ∀ w ∈ iterationWrite t.db it, SafeWrite userId t.db w)
    (hk : WellKeyed t.db) (h : ServedByActive userId t) :
    WellKeyed (trackedIteration t it).db ∧ ServedByActive userId (trackedIteration t it) := by
  unfold trackedIteration
  rw [next_db]
  cases hw : iterationWrite t.db it with
  | none =>
    rw [untouched_iteration hw]
    exact ⟨hk, served_of_untouched (.of_eq rfl) rfl rfl h⟩
  | some w =>
    have hp := performs_iteration hw
    exact ⟨wellKeyed_of_repriced hp.repriced hk, served_of_performs hp (hsafe w hw) hk h⟩

/-- An event whose writes are all safe keeps the invariant. -/
theorem served_of_billingStep {userId : String} {t : Tracked} {e : BillingEvent}
    (hsafe : SafeFor userId t e) (hk : WellKeyed t.db) (h : ServedByActive userId t) :
    WellKeyed (billingStep t e).db ∧ ServedByActive userId (billingStep t e) := by
  cases e with
  | webhook d =>
    simp only [billingStep, next_db]
    cases hw : d.write t.db with
    | none =>
      obtain ⟨hr, hcolumns, hsubs⟩ := untouched_webhook hw
      exact ⟨wellKeyed_of_repriced hr hk, served_of_untouched hr (hcolumns userId) hsubs h⟩
    | some w =>
      have hp := performs_webhook hw
      exact ⟨wellKeyed_of_repriced hp.repriced hk, served_of_performs hp (hsafe w hw) hk h⟩
  | reconcile billingEnabled remote =>
    refine trackedIterations.invariant_of_guarded
      (I := fun t ↦ WellKeyed t.db ∧ ServedByActive userId t) ?_ ⟨hk, h⟩ hsafe
      (Machine.run_ofFun _ _ _)
    rintro s it _ ⟨hks, hs⟩ hG ⟨⟩
    exact next_iteration hG hks hs

/-- Over any run of webhook events and reconcile passes whose writes are safe for a user,
whenever the user has an active subscription they are on the paid plan of one. -/
theorem servedByActive_of_safe {userId : String} {t : Tracked} {events : List BillingEvent}
    (hkeys : WellKeyed t.db) (hstart : ServedByActive userId t)
    (hsafe : billing.Guarded (SafeFor userId) t events) :
    billing.Always (ServedByActive userId) t events := by
  have h := billing.always_of_guarded (I := fun t ↦ WellKeyed t.db ∧ ServedByActive userId t) ?_
    ⟨hkeys, hstart⟩ hsafe
  · exact Machine.Always.mono _ (fun _ ht ↦ ht.2) h
  · rintro s e _ ⟨hks, hs⟩ hG ⟨⟩
    exact served_of_billingStep hG hks hs

/-- Before any subscription. -/
def nothingBilled : Tracked := ⟨freshInstall, fun _ ↦ none⟩

/-- A subscription starts and is cancelled, a second one starts, a pass confirms it. -/
def renewal : List BillingEvent :=
  [.webhook (proEvent "w1" .subscriptionCreated "u1" "old" .active none),
   .webhook (proEvent "w2" .subscriptionCancelled "u1" "old" .cancelled (some endOfJune)),
   .webhook (proEvent "w3" .subscriptionCreated "u1" "new" .active none),
   .reconcile true fun id ↦
     if id = "new" then some { status := some .active, variantId := some "42" } else none]

/-- The renewed user is served by the new subscription throughout. -/
theorem renewal_served : billing.Always (ServedByActive "u1") nothingBilled renewal := by
  have hstart : ¬ HasActive nothingBilled.db "u1" := by decide
  exact servedByActive_of_safe (by decide) (fun h ↦ absurd h hstart) (by decide)

/-- When the old subscription of a renewed user expires, the user falls back to the free
plan although the new subscription is active. -/
theorem expired_downgrades :
    ∃ t, billing.run nothingBilled
        (renewal ++ [.webhook (proEvent "w4" .subscriptionExpired "u1" "old" .expired none)]) =
          some t ∧
      HasActive t.db "u1" ∧
      getEffectivePlan t.db "u1" ⟨0, none⟩ = .ok (freePlan "p-free") ∧
      ¬ ServedByActive "u1" t := by
  suffices hfree : ∀ t, HasActive t.db "u1" →
      getEffectivePlan t.db "u1" ⟨0, none⟩ = .ok (freePlan "p-free") → ¬ ServedByActive "u1" t from
    ⟨_, rfl, by decide, by decide, hfree _ (by decide) (by decide)⟩
  intro t hactive hfree hserved
  obtain ⟨_, _, _, _, plan, hpaid, _, hall⟩ := hserved hactive
  obtain rfl := Except.ok.inj (hfree.symm.trans (hall ⟨0, none⟩ rfl))
  cases hpaid

end WikiMind.Billing
