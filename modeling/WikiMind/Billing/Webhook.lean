import WikiMind.Base.Run
import WikiMind.Billing.Entitlement

/-!
# Payment webhook

The webhook endpoint `api/routes/billing.py:209`: signature and duplicate checks, user
resolution, the handlers of subscription events, and the price events of
`services/billing.py:215` and `:253`. A request that raises is rolled back, so it leaves
the tables as they were. The signature check and the provider's API are inputs.
-/

namespace WikiMind.Billing

open WikiMind.Base

/-- The `attributes` object of a payload. A field is `none` when it is absent; ids are the
texts `str` makes of them, and a null `ends_at` counts as absent. -/
structure Attrs where
  firstSubscriptionId : Option String := none
  status : Option LsStatus := none
  customerId : Option String := none
  variantId : Option String := none
  endsAt : Option String := none
  price : Option Int := none
  deriving DecidableEq, Repr

/-- A product variant as the provider's API lists it. -/
structure Variant where
  id : String
  price : Option Int
  deriving DecidableEq, Repr

/-- One webhook request: the outcome of its signature check, its payload, and, for
`product_updated`, what the provider's API answers. -/
structure Delivery where
  signatureValid : Bool := true
  webhookId : String
  event : EventName
  userId : Option String := none
  dataId : Option String := none
  attrs : Attrs
  variants : Option (List Variant) := none
  deriving DecidableEq, Repr

/-- What the endpoint answers; an exception becomes a server error. -/
inductive Response where
  | ok | duplicate | invalidSignature | missingWebhookId
  | failed (e : Exc)
  deriving DecidableEq, Repr

/-- `str(attrs.get("customer_id", ""))`. -/
def Attrs.customer (attrs : Attrs) : String := attrs.customerId.getD ""

/-- `str(attrs.get("variant_id", ""))`. -/
def Attrs.variant (attrs : Attrs) : String := attrs.variantId.getD ""

/-- The subscription a payload names: that of its first item, else the id of its data.
`api/routes/billing.py:288–290`. -/
def Delivery.subscriptionId (d : Delivery) : String :=
  let id := d.attrs.firstSubscriptionId.getD ""
  if id = "" then d.dataId.getD "" else id

/-- `datetime.fromisoformat(ends_at) if ends_at else None`. -/
def Attrs.periodEnd (attrs : Attrs) : Except Exc (Option DateTime) :=
  match attrs.endsAt.filter (· ≠ "") with
  | none => .ok none
  | some endsAt => (DateTime.fromisoformat endsAt).map some

/-- The plan name a variant stands for; an unknown variant counts as "pro".
`api/routes/billing.py:381–384`. -/
def planNameOf (plan : Option Plan) : String :=
  match plan with
  | some plan => plan.name
  | none => "pro"

/-- The user of an event: the id in its custom data, else the owner of its customer id.
`api/routes/billing.py:251`. -/
def resolveUser (db : Db) (d : Delivery) : Except Exc (Option User) :=
  match d.userId.filter (· ≠ "") with
  | some userId => db.userById userId
  | none =>
    if d.attrs.customer = "" then .ok none
    else do
      match ← db.userByCustomer d.attrs.customer with
      | none => return none
      | some found => if found.id = "" then return none else db.userById found.id

/-- Remember the customer id of a user who has none. `api/routes/billing.py:377–379`. -/
def User.linkCustomer (user : User) (customerId : String) : User :=
  if customerId ≠ "" ∧ (user.lemonSqueezyCustomerId.filter (· ≠ "")).isNone then
    { user with lemonSqueezyCustomerId := some customerId }
  else user

/-- The row part of a handler: update the subscription found, else insert one if the
handler makes one. -/
def storeSubscription (db : Db) (id : String) (fresh : Option Subscription)
    (update : Subscription → Subscription) : Except Exc Db := do
  match ← db.subscriptionById id, fresh with
  | some _, _ => return db.updateSubscription id update
  | none, some sub => return db.addSubscription sub
  | none, none => return db

/-- What the three handlers share: store the subscription, then write the user's
entitlement for a state and an end date. -/
def handleSubscription (db : Db) (user : User) (id : String) (fresh : Option Subscription)
    (update : Subscription → Subscription) (lsStatus : LsStatus) (planName : String)
    (periodEnd : Except Exc (Option DateTime)) : Except Exc Db := do
  let db ← storeSubscription db id fresh update
  return db.setUser (← applyEntitlement db user lsStatus planName (← periodEnd))

/-- `subscription_created`, `_updated` and `_resumed`; no end date is passed on.
`api/routes/billing.py:279`. -/
def handleSubscriptionActive (db : Db) (user : User) (d : Delivery) (plan : Option Plan) :
    Except Exc Db :=
  let status := d.attrs.status.getD (.other "")
  let fresh : Subscription :=
    { userId := user.id, planId := (plan.map Plan.id).getD "",
      lemonSqueezySubscriptionId := d.subscriptionId,
      lemonSqueezyCustomerId := d.attrs.customer, status, cancelAtPeriodEnd := false }
  handleSubscription db user d.subscriptionId (some fresh) (fun s ↦ { s with status }) status
    (planNameOf plan) (.ok none)

/-- `subscription_cancelled`: the plan is kept until the end date of the payload.
`api/routes/billing.py:310`. -/
def handleSubscriptionCancelled (db : Db) (user : User) (d : Delivery) (plan : Option Plan) :
    Except Exc Db :=
  handleSubscription db user d.subscriptionId none
    (fun s ↦ { s with status := .cancelled, cancelAtPeriodEnd := true }) .cancelled
    (planNameOf plan) d.attrs.periodEnd

/-- `subscription_expired`: back to the default plan. `api/routes/billing.py:334`. -/
def handleSubscriptionExpired (db : Db) (user : User) (d : Delivery) (plan : Option Plan) :
    Except Exc Db :=
  handleSubscription db user d.subscriptionId none (fun s ↦ { s with status := .expired })
    .expired (planNameOf plan) (.ok none)

/-- Set the price of the plan sold as a variant, if there is one. -/
def setVariantPrice (db : Db) (variant : String) (price : Int) : Except Exc Db := do
  match ← db.planByVariant variant with
  | none => return db
  | some plan =>
    return { db with
      plans := Rows.modify (fun p ↦ p.id = plan.id) (fun p ↦ { p with priceCents := price })
        db.plans }

/-- `variant_updated`: `services/billing.py:215`. -/
def handleVariantUpdated (db : Db) (d : Delivery) : Except Exc Db :=
  match (d.dataId.filter (· ≠ "")), d.attrs.price with
  | some variant, some price => setVariantPrice db variant price
  | _, _ => .ok db

/-- Take over the price of one listed variant; incomplete entries are skipped.
`services/billing.py:272–288`. -/
def setListedPrice (db : Db) (v : Variant) : Except Exc Db :=
  match v.price with
  | some price => if v.id = "" then .ok db else setVariantPrice db v.id price
  | none => .ok db

/-- `product_updated`: take over the listed price of every variant of the product.
`services/billing.py:253`. -/
def handleProductUpdated (db : Db) (d : Delivery) : Except Exc Db :=
  match (d.dataId.filter (· ≠ "")), d.variants with
  | some _, some variants => variants.foldlM setListedPrice db
  | _, _ => .ok db

/-- The handler of an event of a resolved user; other event types have none.
`api/routes/billing.py:386–391`. -/
def routeSubscriptionEvent (db : Db) (user : User) (d : Delivery) (plan : Option Plan) :
    Except Exc Db :=
  match d.event with
  | .subscriptionCreated | .subscriptionUpdated | .subscriptionResumed =>
    handleSubscriptionActive db user d plan
  | .subscriptionCancelled => handleSubscriptionCancelled db user d plan
  | .subscriptionExpired => handleSubscriptionExpired db user d plan
  | _ => .ok db

/-- Route a webhook event to its handler: `api/routes/billing.py:354`. -/
def processWebhookEvent (db : Db) (d : Delivery) : Except Exc Db :=
  match d.event with
  | .variantUpdated => handleVariantUpdated db d
  | .productUpdated => handleProductUpdated db d
  | _ => do
    match ← resolveUser db d with
    | none => return db
    | some user =>
      let user := user.linkCustomer d.attrs.customer
      let db := db.setUser user
      routeSubscriptionEvent db user d (← db.planByVariant d.attrs.variant)

/-- The endpoint: `api/routes/billing.py:209`. -/
def handleWebhook (db : Db) (d : Delivery) : Response × Db :=
  if !d.signatureValid then (.invalidSignature, db)
  else if d.webhookId = "" then (.missingWebhookId, db)
  else
    match Rows.oneOrNone (fun e ↦ e.lemonSqueezyEventId = d.webhookId) db.webhookEvents with
    | .error e => (.failed e, db)
    | .ok (some _) => (.duplicate, db)
    | .ok none =>
      match processWebhookEvent (db.addWebhookEvent ⟨d.webhookId, d.event⟩) d with
      | .error e => (.failed e, db)
      | .ok db' => (.ok, db')

/-- The delivery was processed and committed. -/
def Accepted (db : Db) (d : Delivery) : Prop := (handleWebhook db d).1 = .ok

instance (db : Db) (d : Delivery) : Decidable (Accepted db d) := by unfold Accepted; infer_instance

/-- Webhook deliveries, one after the other. -/
def webhooks : Machine Db Delivery := .ofFun fun db d ↦ (handleWebhook db d).2

/-- A request either processed its event or left the tables alone. -/
theorem handleWebhook_eq {db db' : Db} {d : Delivery} {r : Response}
    (h : handleWebhook db d = (r, db')) :
    (r = .ok ∧ processWebhookEvent (db.addWebhookEvent ⟨d.webhookId, d.event⟩) d = .ok db') ∨
    (r ≠ .ok ∧ db' = db) := by
  unfold handleWebhook at h
  split at h
  · cases h; simp
  split at h
  · cases h; simp
  split at h
  · cases h; simp
  · cases h; simp
  split at h
  · cases h; simp
  · next hok => cases h; simp [hok]

/-- A delivery that is not accepted changes nothing. -/
theorem handleWebhook_of_not_accepted {db : Db} {d : Delivery} (h : ¬ Accepted db d) :
    (handleWebhook db d).2 = db := by
  obtain ⟨hr, _⟩ | ⟨_, hdb⟩ := handleWebhook_eq (rfl : handleWebhook db d = (_, _))
  · exact absurd hr h
  · exact hdb

/-- An accepted delivery is one whose event was processed without exception. -/
theorem process_of_accepted {db : Db} {d : Delivery} (h : Accepted db d) :
    processWebhookEvent (db.addWebhookEvent ⟨d.webhookId, d.event⟩) d =
      .ok (handleWebhook db d).2 := by
  obtain ⟨_, hdb⟩ | ⟨hr, _⟩ := handleWebhook_eq (rfl : handleWebhook db d = (_, _))
  · exact hdb
  · exact absurd h hr

/-! ### What an accepted event does -/

/-- Price events concern no user. -/
def EventName.isPriceEvent : EventName → Bool
  | .variantUpdated | .productUpdated => true
  | _ => false

/-- The user whose entitlement an event may write. -/
def Delivery.target (db : Db) (d : Delivery) : Option User :=
  if d.event.isPriceEvent then none
  else
    match resolveUser db d with
    | .ok user => user
    | .error _ => none

/-- The state and the end date that the handler of an event hands to `applyEntitlement`. -/
def Delivery.entitlementCall (d : Delivery) : Option (LsStatus × Except Exc (Option DateTime)) :=
  match d.event with
  | .subscriptionCreated | .subscriptionUpdated | .subscriptionResumed =>
    some (d.attrs.status.getD (.other ""), .ok none)
  | .subscriptionCancelled => some (.cancelled, d.attrs.periodEnd)
  | .subscriptionExpired => some (.expired, .ok none)
  | _ => none

/-- Only the cancellation handler passes on an end date; the others pass on none, with the
state of the payload or the expired state. -/
theorem entitlementCall_cases {d : Delivery} {lsStatus : LsStatus}
    {periodEnd : Except Exc (Option DateTime)}
    (h : d.entitlementCall = some (lsStatus, periodEnd)) :
    (d.event = .subscriptionCancelled ∧ lsStatus = .cancelled ∧ periodEnd = d.attrs.periodEnd) ∨
    (d.event ≠ .subscriptionCancelled ∧ periodEnd = .ok none ∧
      ((d.event = .subscriptionExpired ∧ lsStatus = .expired) ∨
        (d.event ≠ .subscriptionExpired ∧ lsStatus = d.attrs.status.getD (.other "")))) := by
  unfold Delivery.entitlementCall at h
  split at h <;> cases h <;> simp_all

/-- The subscription rows after one subscription got a state: the rows of other
subscriptions are the same, those of this one have the state and their old owner, or are
new and owned by the user of the event. -/
structure Stored (rows : List Subscription) (id owner : String) (status : LsStatus)
    (rows' : List Subscription) : Prop where
  other : ∀ s, s.lemonSqueezySubscriptionId ≠ id → (s ∈ rows' ↔ s ∈ rows)
  status_eq : ∀ s ∈ rows', s.lemonSqueezySubscriptionId = id → s.status = status
  owner_eq : ∀ s ∈ rows', s.lemonSqueezySubscriptionId = id →
    (∃ r ∈ rows, r.lemonSqueezySubscriptionId = id ∧ s.userId = r.userId) ∨
    ((∀ r ∈ rows, r.lemonSqueezySubscriptionId ≠ id) ∧ s.userId = owner)
  kept : ∀ r ∈ rows, r.lemonSqueezySubscriptionId = id →
    ∃ s ∈ rows', s.lemonSqueezySubscriptionId = id ∧ s.userId = r.userId

/-- Changing columns of a subscription other than its id and owner. -/
theorem stored_modify {rows : List Subscription} {id owner : String} {status : LsStatus}
    {update : Subscription → Subscription}
    (hu : ∀ s, (update s).status = status ∧ (update s).userId = s.userId ∧
      (update s).lemonSqueezySubscriptionId = s.lemonSqueezySubscriptionId) :
    Stored rows id owner status
      (Rows.modify (fun s ↦ s.lemonSqueezySubscriptionId = id) update rows) := by
  constructor
  · intro s hs
    rw [Rows.mem_modify]
    constructor
    · rintro (⟨r, _, hr, rfl⟩ | ⟨h, _⟩)
      · rw [(hu r).2.2] at hs
        exact absurd (of_decide_eq_true hr) hs
      · exact h
    · intro h
      right
      exact ⟨h, decide_eq_false hs⟩
  · intro s hs hid
    obtain ⟨r, _, _, rfl⟩ | ⟨_, hne⟩ := Rows.mem_modify.mp hs
    · exact (hu r).1
    · exact absurd hid (of_decide_eq_false hne)
  · intro s hs hid
    left
    obtain ⟨r, hr, hrid, rfl⟩ | ⟨_, hne⟩ := Rows.mem_modify.mp hs
    · exact ⟨r, hr, of_decide_eq_true hrid, (hu r).2.1⟩
    · exact absurd hid (of_decide_eq_false hne)
  · intro r hr hid
    exact ⟨update r, Rows.mem_modify.mpr (.inl ⟨r, hr, decide_eq_true hid, rfl⟩),
      (hu r).2.2.trans hid, (hu r).2.1⟩

private theorem stored_append {rows : List Subscription} {sub : Subscription}
    (hnone : ∀ r ∈ rows, r.lemonSqueezySubscriptionId ≠ sub.lemonSqueezySubscriptionId) :
    Stored rows sub.lemonSqueezySubscriptionId sub.userId sub.status (rows ++ [sub]) := by
  constructor
  · intro s hs
    rw [List.mem_append, List.mem_singleton]
    constructor
    · rintro (h | rfl)
      · exact h
      · exact absurd rfl hs
    · exact Or.inl
  · intro s hs hid
    obtain h | h := List.mem_append.mp hs
    · exact absurd hid (hnone s h)
    · rw [List.mem_singleton.mp h]
  · intro s hs hid
    right
    obtain h | h := List.mem_append.mp hs
    · exact absurd hid (hnone s h)
    · rw [List.mem_singleton.mp h]
      exact ⟨hnone, rfl⟩
  · exact fun r hr hid ↦ absurd hid (hnone r hr)

private theorem stored_absent {rows : List Subscription} {id owner : String} {status : LsStatus}
    (hnone : ∀ r ∈ rows, r.lemonSqueezySubscriptionId ≠ id) :
    Stored rows id owner status rows :=
  ⟨fun _ _ ↦ Iff.rfl, fun s hs hid ↦ absurd hid (hnone s hs),
    fun s hs hid ↦ absurd hid (hnone s hs), fun r hr hid ↦ absurd hid (hnone r hr)⟩

/-- What a shared handler does when it succeeds: it stores the subscription and writes the
user's entitlement, and touches nothing else. -/
theorem handleSubscription_eq_ok {db db' : Db} {user : User} {id : String}
    {fresh : Option Subscription} {update : Subscription → Subscription} {lsStatus : LsStatus}
    {planName : String} {periodEnd : Except Exc (Option DateTime)}
    (hu : ∀ s, (update s).status = lsStatus ∧ (update s).userId = s.userId ∧
      (update s).lemonSqueezySubscriptionId = s.lemonSqueezySubscriptionId)
    (hf : ∀ s, fresh = some s →
      s.lemonSqueezySubscriptionId = id ∧ s.userId = user.id ∧ s.status = lsStatus)
    (h : handleSubscription db user id fresh update lsStatus planName periodEnd = .ok db') :
    ∃ until_ user', periodEnd = .ok until_ ∧
      applyEntitlement db user lsStatus planName until_ = .ok user' ∧
      db'.plans = db.plans ∧ db'.users = (db.setUser user').users ∧
      Stored db.subscriptions id user.id lsStatus db'.subscriptions ∧
      (fresh.isSome → ∃ s ∈ db'.subscriptions, s.lemonSqueezySubscriptionId = id) := by
  unfold handleSubscription at h
  obtain ⟨db₁, hstore, h⟩ := bind_eq_ok.mp h
  obtain ⟨until_, huntil, h⟩ := bind_eq_ok.mp h
  obtain ⟨user', hentitle, h⟩ := bind_eq_ok.mp h
  cases h
  have key : db₁.plans = db.plans ∧ db₁.users = db.users ∧
      Stored db.subscriptions id user.id lsStatus db₁.subscriptions ∧
      (fresh.isSome → ∃ s ∈ db₁.subscriptions, s.lemonSqueezySubscriptionId = id) := by
    unfold storeSubscription at hstore
    obtain ⟨found, hfound, hstore⟩ := bind_eq_ok.mp hstore
    cases found with
    | some sub =>
      cases hstore
      refine ⟨rfl, rfl, stored_modify hu, fun _ ↦ ⟨update sub, ?_, ?_⟩⟩
      · exact Rows.mem_modify.mpr (.inl ⟨sub, Rows.mem_of_oneOrNone hfound,
          decide_eq_true (Db.id_of_subscriptionById hfound), rfl⟩)
      · rw [(hu sub).2.2]
        exact Db.id_of_subscriptionById hfound
    | none =>
      have hnone := Db.no_subscription_of_none hfound
      cases fresh with
      | some sub =>
        cases hstore
        obtain ⟨rfl, howner, rfl⟩ := hf sub rfl
        refine ⟨rfl, rfl, ?_, fun _ ↦ ⟨sub, by simp [Db.addSubscription], rfl⟩⟩
        rw [← howner]
        exact stored_append hnone
      | none =>
        cases hstore
        exact ⟨rfl, rfl, stored_absent hnone, fun h ↦ by cases h⟩
  obtain ⟨hplans, husers, hstored, hrow⟩ := key
  refine ⟨until_, user', huntil, ?_, hplans, ?_, hstored, hrow⟩
  · rw [← applyEntitlement_of_repriced (.of_eq hplans)]
    exact hentitle
  · simp only [Db.setUser, husers]

private theorem setVariantPrice_eq_ok {db db' : Db} {variant : String} {price : Int}
    (h : setVariantPrice db variant price = .ok db') :
    Repriced db db' ∧ db'.users = db.users ∧ db'.subscriptions = db.subscriptions := by
  unfold setVariantPrice at h
  obtain ⟨found, _, h⟩ := bind_eq_ok.mp h
  cases found with
  | none => cases h; exact ⟨.of_eq rfl, rfl, rfl⟩
  | some plan =>
    cases h
    refine ⟨⟨_, rfl, fun p ↦ ?_⟩, rfl, rfl⟩
    split <;> rfl

private theorem setListedPrice_eq_ok {db db' : Db} {v : Variant}
    (h : setListedPrice db v = .ok db') :
    Repriced db db' ∧ db'.users = db.users ∧ db'.subscriptions = db.subscriptions := by
  unfold setListedPrice at h
  split at h
  · split at h
    · cases h; exact ⟨.of_eq rfl, rfl, rfl⟩
    · exact setVariantPrice_eq_ok h
  · cases h; exact ⟨.of_eq rfl, rfl, rfl⟩

private theorem setListedPrices_eq_ok {variants : List Variant} {db db' : Db}
    (h : variants.foldlM setListedPrice db = .ok db') :
    Repriced db db' ∧ db'.users = db.users ∧ db'.subscriptions = db.subscriptions := by
  induction variants generalizing db with
  | nil => cases h; exact ⟨.of_eq rfl, rfl, rfl⟩
  | cons v rest ih =>
    rw [List.foldlM_cons] at h
    obtain ⟨db₁, hstep, hrest⟩ := bind_eq_ok.mp h
    obtain ⟨h₁, h₂, h₃⟩ := setListedPrice_eq_ok hstep
    obtain ⟨g₁, g₂, g₃⟩ := ih hrest
    exact ⟨h₁.trans g₁, g₂.trans h₂, g₃.trans h₃⟩

/-- A price event changes prices only. -/
theorem processWebhookEvent_price {db db' : Db} {d : Delivery} (hp : d.event.isPriceEvent = true)
    (h : processWebhookEvent db d = .ok db') :
    Repriced db db' ∧ db'.users = db.users ∧ db'.subscriptions = db.subscriptions := by
  unfold processWebhookEvent at h
  split at h
  · unfold handleVariantUpdated at h
    split at h
    · exact setVariantPrice_eq_ok h
    · cases h; exact ⟨.of_eq rfl, rfl, rfl⟩
  · unfold handleProductUpdated at h
    split at h
    · exact setListedPrices_eq_ok h
    · cases h; exact ⟨.of_eq rfl, rfl, rfl⟩
  · next hvariant hproduct =>
    unfold EventName.isPriceEvent at hp
    split at hp
    · next he => exact absurd he hvariant
    · next he => exact absurd he hproduct
    · cases hp

/-- Every other event goes to the handler of its resolved user, if there is one. -/
theorem processWebhookEvent_user {db db' : Db} {d : Delivery}
    (hp : d.event.isPriceEvent = false) (h : processWebhookEvent db d = .ok db') :
    (d.target db = none ∧ db' = db) ∨
    ∃ user plan, d.target db = some user ∧ resolveUser db d = .ok (some user) ∧
      db.planByVariant d.attrs.variant = .ok plan ∧
      routeSubscriptionEvent (db.setUser (user.linkCustomer d.attrs.customer))
        (user.linkCustomer d.attrs.customer) d plan = .ok db' := by
  unfold processWebhookEvent at h
  unfold Delivery.target
  split at h
  · next he => rw [he] at hp; cases hp
  · next he => rw [he] at hp; cases hp
  · obtain ⟨found, hfound, h⟩ := bind_eq_ok.mp h
    rw [hfound]
    cases found with
    | none => cases h; simp [hp]
    | some user =>
      obtain ⟨plan, hplan, h⟩ := bind_eq_ok.mp h
      right
      exact ⟨user, plan, by simp [hp], rfl, hplan, h⟩

/-- A resolved user is the user with that id. -/
theorem userById_of_resolveUser {db : Db} {d : Delivery} {user : User}
    (h : resolveUser db d = .ok (some user)) : db.userById user.id = .ok (some user) := by
  have key : ∀ id, db.userById id = .ok (some user) → db.userById user.id = .ok (some user) :=
    fun id hid ↦ by rw [Db.id_of_userById hid]; exact hid
  unfold resolveUser at h
  split at h
  · exact key _ h
  split at h
  · cases h
  obtain ⟨found, _, h⟩ := bind_eq_ok.mp h
  cases found with
  | none => cases h
  | some owner =>
    dsimp only at h
    split at h
    · cases h
    · exact key _ h

@[simp] theorem linkCustomer_id (user : User) (customer : String) :
    (user.linkCustomer customer).id = user.id := by
  unfold User.linkCustomer
  split <;> rfl

@[simp] theorem linkCustomer_entitlement (user : User) (customer : String) :
    (user.linkCustomer customer).entitlement = user.entitlement := by
  unfold User.linkCustomer
  split <;> rfl

private theorem routeSubscriptionEvent_of_ignored {d : Delivery} (hc : d.entitlementCall = none)
    (db : Db) (user : User) (plan : Option Plan) :
    routeSubscriptionEvent db user d plan = .ok db := by
  unfold Delivery.entitlementCall at hc
  unfold routeSubscriptionEvent
  split at hc <;> simp_all

-- The three handlers are one function of the state, the end date and the rows they write.
private theorem routeSubscriptionEvent_of_handled {d : Delivery} {lsStatus : LsStatus}
    {periodEnd : Except Exc (Option DateTime)} (hc : d.entitlementCall = some (lsStatus, periodEnd))
    (db : Db) (user : User) (plan : Option Plan) :
    ∃ fresh update, routeSubscriptionEvent db user d plan =
        handleSubscription db user d.subscriptionId fresh update lsStatus (planNameOf plan)
          periodEnd ∧
      (∀ s, (update s).status = lsStatus ∧ (update s).userId = s.userId ∧
        (update s).lemonSqueezySubscriptionId = s.lemonSqueezySubscriptionId) ∧
      (∀ s, fresh = some s → s.lemonSqueezySubscriptionId = d.subscriptionId ∧
        s.userId = user.id ∧ s.status = lsStatus) ∧
      (d.event ≠ .subscriptionCancelled → d.event ≠ .subscriptionExpired → fresh.isSome) := by
  unfold Delivery.entitlementCall at hc
  unfold routeSubscriptionEvent
  split at hc
  case h_4 he =>
    cases hc
    refine ⟨none, _, rfl, fun s ↦ ⟨rfl, rfl, rfl⟩, by simp, fun h ↦ absurd he h⟩
  case h_5 he =>
    cases hc
    refine ⟨none, _, rfl, fun s ↦ ⟨rfl, rfl, rfl⟩, by simp, fun _ h ↦ absurd he h⟩
  case h_6 => cases hc
  all_goals
    cases hc
    refine ⟨some _, _, rfl, fun s ↦ ⟨rfl, rfl, rfl⟩, ?_, fun _ _ ↦ rfl⟩
    rintro s ⟨⟩
    exact ⟨rfl, rfl, rfl⟩

section Accepted

variable {db : Db} {d : Delivery}

/-- An event without a target leaves users and subscriptions alone. -/
theorem accepted_untargeted (h : Accepted db d) (ht : d.target db = none) :
    Repriced db (handleWebhook db d).2 ∧ (handleWebhook db d).2.users = db.users ∧
      (handleWebhook db d).2.subscriptions = db.subscriptions := by
  have hprocess := process_of_accepted h
  cases hp : d.event.isPriceEvent with
  | true =>
    have hprice := processWebhookEvent_price hp hprocess
    exact hprice
  | false =>
    obtain ⟨_, hdb⟩ | ⟨user, plan, htarget, _⟩ := processWebhookEvent_user hp hprocess
    · rw [hdb]
      exact ⟨.of_eq rfl, rfl, rfl⟩
    · exact absurd (ht.symm.trans htarget) (by simp)

private theorem accepted_route {user : User} (h : Accepted db d) (ht : d.target db = some user) :
    db.userById user.id = .ok (some user) ∧ ∃ plan, db.planByVariant d.attrs.variant = .ok plan ∧
      routeSubscriptionEvent
        ((db.addWebhookEvent ⟨d.webhookId, d.event⟩).setUser
          (user.linkCustomer d.attrs.customer))
        (user.linkCustomer d.attrs.customer) d plan = .ok (handleWebhook db d).2 := by
  have hprocess := process_of_accepted h
  cases hp : d.event.isPriceEvent with
  | true => simp [Delivery.target, hp] at ht
  | false =>
    obtain ⟨htarget, _⟩ | ⟨user', plan, htarget, hresolve, hplan, hroute⟩ :=
      processWebhookEvent_user hp hprocess
    · exact absurd (ht.symm.trans htarget) (by simp)
    · obtain rfl : user = user' := Option.some.inj (ht.symm.trans htarget)
      exact ⟨userById_of_resolveUser hresolve, plan, hplan, hroute⟩

/-- The target of an accepted event is a row of the user table. -/
theorem userById_of_accepted {user : User} (h : Accepted db d) (ht : d.target db = some user) :
    db.userById user.id = .ok (some user) :=
  (accepted_route h ht).1

/-- An accepted event of a user names at most one plan variant. -/
theorem planByVariant_of_accepted {user : User} (h : Accepted db d)
    (ht : d.target db = some user) : ∃ plan, db.planByVariant d.attrs.variant = .ok plan := by
  obtain ⟨_, plan, hplan, _⟩ := accepted_route h ht
  exact ⟨plan, hplan⟩

/-- An event of a type without handler at most links the customer id. -/
theorem accepted_ignored {user : User} (h : Accepted db d) (ht : d.target db = some user)
    (hc : d.entitlementCall = none) :
    (handleWebhook db d).2.plans = db.plans ∧
      (handleWebhook db d).2.users = (db.setUser (user.linkCustomer d.attrs.customer)).users ∧
      (handleWebhook db d).2.subscriptions = db.subscriptions := by
  obtain ⟨_, plan, _, hroute⟩ := accepted_route h ht
  rw [routeSubscriptionEvent_of_ignored hc] at hroute
  rw [← Except.ok.inj hroute]
  exact ⟨rfl, rfl, rfl⟩

/-- A handled event writes the target's entitlement and the subscription it names. -/
theorem accepted_handled {user : User} {lsStatus : LsStatus}
    {periodEnd : Except Exc (Option DateTime)} (h : Accepted db d)
    (ht : d.target db = some user) (hc : d.entitlementCall = some (lsStatus, periodEnd)) :
    ∃ plan until_ user', db.planByVariant d.attrs.variant = .ok plan ∧ periodEnd = .ok until_ ∧
      applyEntitlement db (user.linkCustomer d.attrs.customer) lsStatus (planNameOf plan) until_ =
        .ok user' ∧
      (handleWebhook db d).2.plans = db.plans ∧
      (handleWebhook db d).2.users = (db.setUser user').users ∧
      Stored db.subscriptions d.subscriptionId user.id lsStatus
        (handleWebhook db d).2.subscriptions ∧
      (d.event ≠ .subscriptionCancelled → d.event ≠ .subscriptionExpired →
        ∃ s ∈ (handleWebhook db d).2.subscriptions,
          s.lemonSqueezySubscriptionId = d.subscriptionId) := by
  obtain ⟨_, plan, hplan, hroute⟩ := accepted_route h ht
  obtain ⟨fresh, update, heq, hupdate, hfresh, hsome⟩ := routeSubscriptionEvent_of_handled hc
    ((db.addWebhookEvent ⟨d.webhookId, d.event⟩).setUser (user.linkCustomer d.attrs.customer))
    (user.linkCustomer d.attrs.customer) plan
  rw [heq] at hroute
  obtain ⟨until_, user', huntil, hentitle, hplans, husers, hstored, hrow⟩ :=
    handleSubscription_eq_ok hupdate hfresh hroute
  refine ⟨plan, until_, user', hplan, huntil, hentitle, hplans, ?_, ?_, fun h₁ h₂ ↦ ?_⟩
  · rw [husers, Db.setUser_setUser _ (id_applyEntitlement hentitle)]
    rfl
  · rw [linkCustomer_id] at hstored
    exact hstored
  · exact hrow (hsome h₁ h₂)

/-- No delivery alters plans beyond their prices. -/
theorem repriced_handleWebhook (db : Db) (d : Delivery) : Repriced db (handleWebhook db d).2 := by
  by_cases h : Accepted db d
  · cases ht : d.target db with
    | none => exact (accepted_untargeted h ht).1
    | some user =>
      cases hc : d.entitlementCall with
      | none => exact .of_eq (accepted_ignored h ht hc).1
      | some call =>
        obtain ⟨_, _, _, _, _, _, hplans, _⟩ := accepted_handled h ht hc
        exact .of_eq hplans
  · rw [handleWebhook_of_not_accepted h]
    exact .of_eq rfl

/-- An accepted event leaves one version of its target, with the entitlement columns as
they were or as the handler's call of `applyEntitlement` sets them. -/
theorem userById_target {user : User} (h : Accepted db d) (ht : d.target db = some user) :
    ∃ user', (handleWebhook db d).2.userById user.id = .ok (some user') ∧
      match d.entitlementCall with
      | none => user'.entitlement = user.entitlement
      | some (lsStatus, periodEnd) => ∃ plan until_,
          db.planByVariant d.attrs.variant = .ok plan ∧ periodEnd = .ok until_ ∧
          applyEntitlement db (user.linkCustomer d.attrs.customer) lsStatus (planNameOf plan)
            until_ = .ok user' := by
  have huser := userById_of_accepted h ht
  cases hc : d.entitlementCall with
  | none =>
    refine ⟨user.linkCustomer d.attrs.customer, ?_, linkCustomer_entitlement _ _⟩
    rw [Db.userById_congr (accepted_ignored h ht hc).2.1]
    exact Db.userById_setUser_self huser (linkCustomer_id _ _)
  | some call =>
    obtain ⟨plan, until_, user', hplan, huntil, hentitle, _, husers, _⟩ :=
      accepted_handled h ht hc
    refine ⟨user', ?_, plan, until_, hplan, huntil, hentitle⟩
    rw [Db.userById_congr husers]
    apply Db.userById_setUser_self huser
    rw [id_applyEntitlement hentitle, linkCustomer_id]

/-- A delivery does not touch users other than its target. -/
theorem userById_other {id : String}
    (h : Accepted db d → (d.target db).map User.id ≠ some id) :
    (handleWebhook db d).2.userById id = db.userById id := by
  by_cases hacc : Accepted db d
  · cases ht : d.target db with
    | none => exact Db.userById_congr (accepted_untargeted hacc ht).2.1 id
    | some user =>
      have hne : user.id ≠ id := by simpa [ht] using h hacc
      cases hc : d.entitlementCall with
      | none =>
        rw [Db.userById_congr (accepted_ignored hacc ht hc).2.1]
        exact Db.userById_setUser_other (by rwa [linkCustomer_id])
      | some call =>
        obtain ⟨_, _, user', _, _, hentitle, _, husers, _⟩ := accepted_handled hacc ht hc
        rw [Db.userById_congr husers]
        apply Db.userById_setUser_other
        rwa [id_applyEntitlement hentitle, linkCustomer_id]
  · rw [handleWebhook_of_not_accepted hacc]

end Accepted

end WikiMind.Billing
