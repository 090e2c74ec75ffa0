import WikiMind.Billing.Webhook

/-!
# Subscription reconciliation

The reconcile job `services/billing.py:364`: for every subscription that is not over it
fetches the remote attributes and writes the same two entitlement columns as the webhook.
The remote side is a function from subscription ids to the attributes answered, `none`
for a request that fails. An exception skips the rest of one iteration only; what the
iteration assigned before it stays.
-/

namespace WikiMind.Billing

open WikiMind.Base

/-- The states the job selects: `services/billing.py:383`. -/
def LsStatus.reconcilable : LsStatus → Bool
  | .active | .cancelled | .pastDue | .onTrial | .paused => true
  | _ => false

/-- The entitlement part of an iteration: the end date is read for every state.
`services/billing.py:428–430`. -/
def syncEntitlement (db : Db) (user : User) (attrs : Attrs) (lsStatus : LsStatus)
    (planName : String) : Except Exc User := do
  applyEntitlement db user lsStatus planName (← attrs.periodEnd)

/-- The lookups of an iteration, each of which may end it: state, owner and plan name.
`services/billing.py:403–415`. -/
def reconcileLookup (db : Db) (sub : Subscription) (remote : Option Attrs) :
    Except Exc (Option (Attrs × LsStatus × User × String)) := do
  match remote with
  | none => throw (.runtimeError "request failed")
  | some attrs =>
    match attrs.status with
    | none => throw .keyError
    | some lsStatus =>
      match ← db.userById sub.userId with
      | none => return none
      | some user =>
        return some (attrs, lsStatus, user, planNameOf (← db.planByVariant attrs.variant))

/-- One iteration: correct a drifted state, then write the owner's entitlement.
`services/billing.py:394–436`. -/
def reconcileOne (db : Db) (sub : Subscription) (remote : Option Attrs) : Db :=
  match reconcileLookup db sub remote with
  | .error _ | .ok none => db
  | .ok (some (attrs, lsStatus, user, planName)) =>
    let db := db.updateSubscription sub.lemonSqueezySubscriptionId
      fun s ↦ { s with status := lsStatus }
    match syncEntitlement db user attrs lsStatus planName with
    | .error _ => db
    | .ok user => db.setUser user

/-- The whole pass: `services/billing.py:364`. -/
def reconcileSubscriptions (billingEnabled : Bool) (remote : String → Option Attrs) (db : Db) :
    Db :=
  if billingEnabled then
    (db.subscriptions.filter fun s ↦ s.status.reconcilable).foldl
      (fun db sub ↦ reconcileOne db sub (remote sub.lemonSqueezySubscriptionId)) db
  else db

/-- The iterations of a pass as a machine of their own. -/
def iterations : Machine Db (Subscription × Option Attrs) :=
  .ofFun fun db it ↦ reconcileOne db it.1 it.2

/-- The iterations a pass over `db` performs. -/
def passIterations (billingEnabled : Bool) (remote : String → Option Attrs) (db : Db) :
    List (Subscription × Option Attrs) :=
  if billingEnabled then
    (db.subscriptions.filter fun s ↦ s.status.reconcilable).map
      fun sub ↦ (sub, remote sub.lemonSqueezySubscriptionId)
  else []

/-- A pass is the run of its iterations. -/
theorem run_passIterations (billingEnabled : Bool) (remote : String → Option Attrs) (db : Db) :
    iterations.run db (passIterations billingEnabled remote db) =
      some (reconcileSubscriptions billingEnabled remote db) := by
  unfold iterations passIterations reconcileSubscriptions
  rw [Machine.run_ofFun]
  cases billingEnabled with
  | false => rfl
  | true => simp [List.foldl_map]

/-- An iteration whose lookups succeed. -/
theorem reconcileOne_of_lookup {db : Db} {sub : Subscription} {remote : Option Attrs}
    {attrs : Attrs} {lsStatus : LsStatus} {user : User} {planName : String}
    (h : reconcileLookup db sub remote = .ok (some (attrs, lsStatus, user, planName))) :
    reconcileOne db sub remote =
      match syncEntitlement db user attrs lsStatus planName with
      | .error _ => db.updateSubscription sub.lemonSqueezySubscriptionId
          fun s ↦ { s with status := lsStatus }
      | .ok user => (db.updateSubscription sub.lemonSqueezySubscriptionId
          fun s ↦ { s with status := lsStatus }).setUser user := by
  simp only [reconcileOne, h]
  rfl

/-- An iteration whose lookups do not succeed. -/
theorem reconcileOne_of_no_lookup {db : Db} {sub : Subscription} {remote : Option Attrs}
    (h : ∀ found, reconcileLookup db sub remote ≠ .ok (some found)) :
    reconcileOne db sub remote = db := by
  unfold reconcileOne
  split
  · rfl
  · rfl
  · next attrs lsStatus user planName hlookup => exact absurd hlookup (h _)

/-- What successful lookups found. -/
theorem reconcileLookup_eq_ok {db : Db} {sub : Subscription} {remote : Option Attrs}
    {attrs : Attrs} {lsStatus : LsStatus} {user : User} {planName : String}
    (h : reconcileLookup db sub remote = .ok (some (attrs, lsStatus, user, planName))) :
    remote = some attrs ∧ attrs.status = some lsStatus ∧
      db.userById sub.userId = .ok (some user) ∧
      ∃ plan, db.planByVariant attrs.variant = .ok plan ∧ planName = planNameOf plan := by
  unfold reconcileLookup at h
  split at h
  · cases h
  split at h
  · cases h
  · next attrs' lsStatus' hstatus =>
    obtain ⟨owner, howner, h⟩ := bind_eq_ok.mp h
    cases owner with
    | none => cases h
    | some owner =>
      obtain ⟨plan, hplan, h⟩ := bind_eq_ok.mp h
      cases h
      exact ⟨rfl, hstatus, howner, plan, hplan, rfl⟩

/-- The entitlement part writes back a version of the same user. -/
theorem id_syncEntitlement {db : Db} {user user' : User} {attrs : Attrs} {lsStatus : LsStatus}
    {planName : String} (h : syncEntitlement db user attrs lsStatus planName = .ok user') :
    user'.id = user.id := by
  obtain ⟨_, _, h⟩ := bind_eq_ok.mp h
  exact id_applyEntitlement h

/-- What can happen to the billing tables. -/
inductive BillingEvent where
  | webhook (d : Delivery)
  | reconcile (billingEnabled : Bool) (remote : String → Option Attrs)

/-- The tables after an event, with end dates as the session has them. -/
def Db.after (db : Db) : BillingEvent → Db
  | .webhook d => (handleWebhook db d).2
  | .reconcile billingEnabled remote => reconcileSubscriptions billingEnabled remote db

end WikiMind.Billing
