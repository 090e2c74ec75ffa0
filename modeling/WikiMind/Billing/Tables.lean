import WikiMind.Base.DateTime

/-!
# Billing tables

The rows of `models/tables/billing.py` and the billing columns of the user table of
`models/tables/core.py`, with the queries the billing code makes. Rows are found by the
columns the code selects on; time stamps that no modelled function reads, surrogate keys
of subscriptions and webhook events, and display texts are left out. A user is the object
of a session, with the end date as assigned; what the column makes of it at the commit is
in `Expiry`.
-/

namespace WikiMind.Billing

open WikiMind.Base

/-- A billing plan: `models/tables/billing.py:13`. -/
structure Plan where
  id : String
  name : String
  priceCents : Int
  maxSources : Option Nat
  maxQueriesPerDay : Option Nat
  maxStorageBytes : Option Nat
  dailyLlmSpendCapCents : Option Nat
  llmProvider : String
  llmModel : String
  byokAllowed : Bool
  isDefault : Bool
  lemonSqueezyVariantId : Option String
  deriving DecidableEq, Repr

/-- The free plan as the billing migration seeds it (`alembic/versions/0018`), under an id. -/
def freePlan (id : String) : Plan :=
  { id, name := "free", priceCents := 0, maxSources := some 20, maxQueriesPerDay := some 10,
    maxStorageBytes := some 26214400, dailyLlmSpendCapCents := some 50,
    llmProvider := "openai_compatible", llmModel := "gpt-4o-mini", byokAllowed := false,
    isDefault := true, lemonSqueezyVariantId := none }

/-- The seeded paid plan, sold as a variant. -/
def proPlan (id variant : String) : Plan :=
  { id, name := "pro", priceCents := 1199, maxSources := some 500, maxQueriesPerDay := some 200,
    maxStorageBytes := some 5368709120, dailyLlmSpendCapCents := some 100,
    llmProvider := "openai_compatible", llmModel := "gpt-4o-mini", byokAllowed := true,
    isDefault := false, lemonSqueezyVariantId := some variant }

/-- Subscription states of the payment provider, as the `status` texts of its payloads. -/
inductive LsStatus where
  | active | onTrial | pastDue | cancelled | paused | expired | unpaid
  | other (text : String)
  deriving DecidableEq, Repr

/-- A subscription row: `models/tables/billing.py:39`. -/
structure Subscription where
  userId : String
  planId : String
  lemonSqueezySubscriptionId : String
  lemonSqueezyCustomerId : String
  status : LsStatus
  cancelAtPeriodEnd : Bool
  deriving DecidableEq, Repr

/-- The billing columns of a user row: `models/tables/core.py:24`. -/
structure User where
  id : String
  planId : Option String
  planEffectiveUntil : Option DateTime
  lemonSqueezyCustomerId : Option String
  deriving DecidableEq, Repr

/-- Event types of webhook deliveries; `other` are the types the router has no branch for. -/
inductive EventName where
  | variantUpdated | productUpdated
  | subscriptionCreated | subscriptionUpdated | subscriptionResumed
  | subscriptionCancelled | subscriptionExpired
  | other (name : String)
  deriving DecidableEq, Repr

/-- A processed webhook: `models/tables/billing.py:55`. -/
structure WebhookEvent where
  lemonSqueezyEventId : String
  eventType : EventName
  deriving DecidableEq, Repr

/-- The tables the billing code reads and writes. -/
structure Db where
  plans : List Plan
  users : List User
  subscriptions : List Subscription
  webhookEvents : List WebhookEvent
  deriving DecidableEq, Repr

/-- The two columns that decide a user's plan. -/
def User.entitlement (user : User) : Option String × Option DateTime :=
  (user.planId, user.planEffectiveUntil)

namespace Db

/-- `select(Plan).where(Plan.name == name)`. -/
def planByName (db : Db) (name : String) : Except Exc (Option Plan) :=
  Rows.oneOrNone (fun p ↦ p.name = name) db.plans

/-- `select(Plan).where(Plan.lemon_squeezy_variant_id == variant)`. -/
def planByVariant (db : Db) (variant : String) : Except Exc (Option Plan) :=
  Rows.oneOrNone (fun p ↦ p.lemonSqueezyVariantId = some variant) db.plans

/-- `select(Plan).where(Plan.id == id)`. -/
def planById (db : Db) (id : String) : Except Exc (Option Plan) :=
  Rows.oneOrNone (fun p ↦ p.id = id) db.plans

/-- `select(Plan).where(Plan.is_default == True)`, which must find one row. -/
def defaultPlan (db : Db) : Except Exc Plan := Rows.one (fun p ↦ p.isDefault) db.plans

/-- `select(User).where(User.id == id)`. -/
def userById (db : Db) (id : String) : Except Exc (Option User) :=
  Rows.oneOrNone (fun u ↦ u.id = id) db.users

/-- `select(User).where(User.lemon_squeezy_customer_id == customer)`. -/
def userByCustomer (db : Db) (customer : String) : Except Exc (Option User) :=
  Rows.oneOrNone (fun u ↦ u.lemonSqueezyCustomerId = some customer) db.users

/-- `select(Subscription).where(Subscription.lemon_squeezy_subscription_id == id)`. -/
def subscriptionById (db : Db) (id : String) : Except Exc (Option Subscription) :=
  Rows.oneOrNone (fun s ↦ s.lemonSqueezySubscriptionId = id) db.subscriptions

/-- Write back a user object. -/
def setUser (db : Db) (user : User) : Db :=
  { db with users := Rows.modify (fun u ↦ u.id = user.id) (fun _ ↦ user) db.users }

/-- Write back the changed columns of a subscription object. -/
def updateSubscription (db : Db) (id : String) (f : Subscription → Subscription) : Db :=
  { db with
    subscriptions :=
      Rows.modify (fun s ↦ s.lemonSqueezySubscriptionId = id) f db.subscriptions }

/-- Insert a subscription row. -/
def addSubscription (db : Db) (sub : Subscription) : Db :=
  { db with subscriptions := db.subscriptions ++ [sub] }

/-- Record a webhook as processed. -/
def addWebhookEvent (db : Db) (event : WebhookEvent) : Db :=
  { db with webhookEvents := db.webhookEvents ++ [event] }

@[simp] theorem setUser_plans (db : Db) (user : User) : (db.setUser user).plans = db.plans := rfl
@[simp] theorem setUser_subscriptions (db : Db) (user : User) :
    (db.setUser user).subscriptions = db.subscriptions := rfl
@[simp] theorem updateSubscription_plans (db : Db) (id : String)
    (f : Subscription → Subscription) : (db.updateSubscription id f).plans = db.plans := rfl
@[simp] theorem updateSubscription_users (db : Db) (id : String)
    (f : Subscription → Subscription) : (db.updateSubscription id f).users = db.users := rfl
@[simp] theorem addSubscription_plans (db : Db) (sub : Subscription) :
    (db.addSubscription sub).plans = db.plans := rfl
@[simp] theorem addSubscription_users (db : Db) (sub : Subscription) :
    (db.addSubscription sub).users = db.users := rfl

/-- A user object written back is found under its id. -/
theorem userById_setUser_self {db : Db} {user : User} {id : String} {old : User}
    (h : db.userById id = .ok (some old)) (hid : user.id = id) :
    (db.setUser user).userById id = .ok (some user) := by
  subst hid
  apply Rows.oneOrNone_modify_self (f := fun _ ↦ user) _ h
  simp

/-- Of two versions of a user written back, the second stays. -/
theorem setUser_setUser (db : Db) {user user' : User} (h : user'.id = user.id) :
    (db.setUser user).setUser user' = db.setUser user' := by
  unfold setUser
  simp only [h]
  rw [Rows.modify_modify (by simp)]
  rfl

/-- Writing back a user leaves the other users. -/
theorem userById_setUser_other {db : Db} {user : User} {id : String} (h : user.id ≠ id) :
    (db.setUser user).userById id = db.userById id := by
  apply Rows.oneOrNone_modify_other
  intro u hu
  simp only [decide_eq_true_eq] at hu
  simp [hu, h]

/-- User queries read only the user table. -/
theorem userById_congr {db db' : Db} (h : db'.users = db.users) (id : String) :
    db'.userById id = db.userById id := by
  unfold userById
  rw [h]

/-- The user a query returns has the id asked for. -/
theorem id_of_userById {db : Db} {id : String} {user : User}
    (h : db.userById id = .ok (some user)) : user.id = id := by
  simpa using Rows.prop_of_oneOrNone h

/-- The subscription a query returns has the id asked for. -/
theorem id_of_subscriptionById {db : Db} {id : String} {sub : Subscription}
    (h : db.subscriptionById id = .ok (some sub)) : sub.lemonSqueezySubscriptionId = id := by
  simpa using Rows.prop_of_oneOrNone h

/-- A subscription query without result leaves no row with the id. -/
theorem no_subscription_of_none {db : Db} {id : String}
    (h : db.subscriptionById id = .ok none) :
    ∀ r ∈ db.subscriptions, r.lemonSqueezySubscriptionId ≠ id := by
  intro r hr
  simpa using Rows.not_of_oneOrNone h hr

end Db

end WikiMind.Billing
