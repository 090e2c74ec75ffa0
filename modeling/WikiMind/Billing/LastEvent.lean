import WikiMind.Billing.Reconcile

/-!
# Agreement of the webhook with reconciliation

After the last accepted event of a user that carries a cancelled or paused subscription
with an end date, the webhook path and the reconcile job should have written the same
entitlement (`services/billing.py:137`, "single source of truth"). They agree for
`subscription_cancelled`; the handler of created, updated and resumed events passes no
end date (`api/routes/billing.py:307`), and paused events have no handler.
-/

namespace WikiMind.Billing

open WikiMind.Base

/-- The id of the plan that remote attributes entitle to, when their plan name is known
and a default plan is there to fall back on. -/
def Db.grantedPlan (db : Db) (attrs : Attrs) : Option String :=
  match db.planByVariant attrs.variant with
  | .error _ => none
  | .ok plan =>
    match db.planByName (planNameOf plan), db.defaultPlan with
    | .ok (some granted), .ok _ => some granted.id
    | _, _ => none

/-- The user's plan ends at `endsAt`, and a reconcile iteration over any subscription of
the user that fetches the same attributes leaves the entitlement as it is. -/
def AgreesWithReconcile (db : Db) (userId : String) (attrs : Attrs) (endsAt : DateTime) : Prop :=
  (∃ planId, db.entitlementOf userId = .ok (some (planId, some endsAt))) ∧
  ∀ sub, sub.userId = userId →
    (reconcileOne db sub (some attrs)).entitlementOf userId = db.entitlementOf userId

/-- Price changes do not alter what attributes entitle to. -/
theorem grantedPlan_of_repriced {db db' : Db} (h : Repriced db db') (attrs : Attrs) :
    db'.grantedPlan attrs = db.grantedPlan attrs := by
  obtain ⟨f, hf, hvariant⟩ := planByVariant_of_repriced h attrs.variant
  obtain ⟨g, hg, hdefault⟩ := defaultPlan_of_repriced h
  have hname : ∀ plan, planNameOf (Option.map f plan) = planNameOf plan := by
    intro plan
    cases plan with
    | none => rfl
    | some plan => simp only [Option.map_some, planNameOf]; rw [hf plan]
  unfold Db.grantedPlan
  rw [hvariant, hdefault]
  cases db.planByVariant attrs.variant with
  | error e => rfl
  | ok plan =>
    obtain ⟨k, hk, hbyName⟩ := planByName_of_repriced h (planNameOf plan)
    simp only [Except.map, hname, hbyName]
    cases db.planByName (planNameOf plan) with
    | error e => rfl
    | ok granted =>
      cases granted with
      | none => rfl
      | some granted =>
        cases db.defaultPlan with
        | error e => rfl
        | ok _ => simp only [Option.map_some]; rw [hk granted]

private theorem entitlementOf_setUser {db : Db} {user user' : User}
    (huser : db.userById user.id = .ok (some user)) (hid : user'.id = user.id) :
    (db.setUser user').entitlementOf user.id = .ok (some user'.entitlement) := by
  unfold Db.entitlementOf
  rw [Db.userById_setUser_self huser hid]
  rfl

/-- What the entitlement part of an iteration makes of cancelled or paused attributes. -/
theorem syncEntitlement_ended {db : Db} {attrs : Attrs} {lsStatus : LsStatus}
    {plan : Option Plan} {endsAt : DateTime} (user : User)
    (hplan : db.planByVariant attrs.variant = .ok plan)
    (hends : lsStatus = .cancelled ∨ lsStatus = .paused)
    (hperiod : attrs.periodEnd = .ok (some endsAt)) :
    (∃ planId, db.grantedPlan attrs = some planId ∧
      syncEntitlement db user attrs lsStatus (planNameOf plan) =
        .ok { user with planId := some planId, planEffectiveUntil := some endsAt }) ∨
    (db.grantedPlan attrs = none ∧
      (syncEntitlement db user attrs lsStatus (planNameOf plan) = .ok user ∨
        ∃ e, syncEntitlement db user attrs lsStatus (planNameOf plan) = .error e)) := by
  unfold Db.grantedPlan syncEntitlement applyEntitlement
  simp only [hplan, hperiod]
  cases db.planByName (planNameOf plan) with
  | error e => right; exact ⟨rfl, .inr ⟨e, rfl⟩⟩
  | ok granted =>
    cases granted with
    | none => right; exact ⟨rfl, .inl rfl⟩
    | some granted =>
      cases db.defaultPlan with
      | error e => right; exact ⟨rfl, .inr ⟨e, rfl⟩⟩
      | ok _ =>
        left
        refine ⟨granted.id, rfl, ?_⟩
        obtain rfl | rfl := hends <;> rfl

/-- What an iteration with cancelled or paused attributes leaves as entitlement. -/
theorem entitlementOf_reconcileOne {db : Db} {sub : Subscription} {attrs : Attrs}
    {lsStatus : LsStatus} {user : User} {plan : Option Plan} {endsAt : DateTime}
    (huser : db.userById sub.userId = .ok (some user)) (hstatus : attrs.status = some lsStatus)
    (hplan : db.planByVariant attrs.variant = .ok plan)
    (hends : lsStatus = .cancelled ∨ lsStatus = .paused)
    (hperiod : attrs.periodEnd = .ok (some endsAt)) :
    (reconcileOne db sub (some attrs)).entitlementOf sub.userId =
      .ok (some (match db.grantedPlan attrs with
        | some planId => (some planId, some endsAt)
        | none => user.entitlement)) := by
  have hid : user.id = sub.userId := Db.id_of_userById huser
  rw [← hid] at huser
  have hlookup : reconcileLookup db sub (some attrs) =
      .ok (some (attrs, lsStatus, user, planNameOf plan)) := by
    unfold reconcileLookup
    rw [← hid]
    simp only [hstatus, huser, hplan, bind, Except.bind, pure, Except.pure]
  have hkeep : db.entitlementOf user.id = .ok (some user.entitlement) := by
    unfold Db.entitlementOf
    rw [huser]
    rfl
  rw [← hid, reconcileOne_of_lookup hlookup]
  obtain ⟨planId, hgranted, hsync⟩ | ⟨hgranted, hsync | ⟨e, hsync⟩⟩ :=
    syncEntitlement_ended user hplan hends hperiod
  · rw [hgranted, hsync]
    exact entitlementOf_setUser huser rfl
  · rw [hgranted, hsync]
    exact entitlementOf_setUser huser rfl
  · rw [hgranted, hsync]
    exact hkeep

/-- Agreement in terms of the stored columns: the end date is there, and so is the plan
the attributes entitle to, if there is one. -/
theorem agreesWithReconcile_iff {db : Db} {attrs : Attrs} {lsStatus : LsStatus} {user : User}
    {plan : Option Plan} {endsAt : DateTime} (huser : db.userById user.id = .ok (some user))
    (hstatus : attrs.status = some lsStatus) (hplan : db.planByVariant attrs.variant = .ok plan)
    (hends : lsStatus = .cancelled ∨ lsStatus = .paused)
    (hperiod : attrs.periodEnd = .ok (some endsAt)) :
    AgreesWithReconcile db user.id attrs endsAt ↔
      user.planEffectiveUntil = some endsAt ∧
        ∀ planId, db.grantedPlan attrs = some planId → user.planId = some planId := by
  have hstored : db.entitlementOf user.id = .ok (some (user.planId, user.planEffectiveUntil)) := by
    unfold Db.entitlementOf
    rw [huser]
    rfl
  have hiter : ∀ sub : Subscription, sub.userId = user.id →
      (reconcileOne db sub (some attrs)).entitlementOf user.id =
        .ok (some (match db.grantedPlan attrs with
          | some planId => (some planId, some endsAt)
          | none => user.entitlement)) := by
    intro sub hsub
    rw [← hsub] at huser ⊢
    exact entitlementOf_reconcileOne huser hstatus hplan hends hperiod
  unfold AgreesWithReconcile
  rw [hstored]
  constructor
  · rintro ⟨⟨planId', hcols⟩, hagree⟩
    simp only [Except.ok.injEq, Option.some.injEq, Prod.mk.injEq] at hcols
    refine ⟨hcols.2, fun planId hgranted ↦ ?_⟩
    have hsub := hagree ⟨user.id, "", "", "", .active, false⟩ rfl
    rw [hiter _ rfl, hgranted] at hsub
    simp only [Except.ok.injEq, Option.some.injEq, Prod.mk.injEq] at hsub
    exact hsub.1.symm
  · rintro ⟨huntil, hplanId⟩
    refine ⟨⟨user.planId, by rw [huntil]⟩, fun sub hsub ↦ ?_⟩
    rw [hiter sub hsub]
    cases hgranted : db.grantedPlan attrs with
    | none => rfl
    | some planId => rw [hplanId planId hgranted, huntil]

/-- The deliveries that leave the end date of their payload behind: a cancellation whose
plan is known, or an event that writes no entitlement (its type has no handler or its plan
name is unknown) for a user who has that end date, and that plan if known, already. -/
def KeepsEndDate (db : Db) (d : Delivery) (user : User) (endsAt : DateTime) : Prop :=
  (d.event = .subscriptionCancelled ∧ db.grantedPlan d.attrs ≠ none) ∨
  ((d.entitlementCall = none ∨ db.grantedPlan d.attrs = none) ∧
    user.planEffectiveUntil = some endsAt ∧
    ∀ planId, db.grantedPlan d.attrs = some planId → user.planId = some planId)

/-- Deliveries that, where accepted, concern other users than `userId`. -/
def ForOthers (userId : String) (db : Db) (d : Delivery) : Prop :=
  Accepted db d → (d.target db).map User.id ≠ some userId

instance (userId : String) (db : Db) (d : Delivery) : Decidable (ForOthers userId db d) := by
  unfold ForOthers; infer_instance

private theorem grantedPlan_of_call {db : Db} {attrs : Attrs} {user user' : User}
    {lsStatus : LsStatus} {plan : Option Plan} {until_ : Option DateTime}
    (hplan : db.planByVariant attrs.variant = .ok plan)
    (h : applyEntitlement db user lsStatus (planNameOf plan) until_ = .ok user') :
    (db.grantedPlan attrs = none ∧ user' = user) ∨
    ∃ granted defaultPlan, db.grantedPlan attrs = some granted.id ∧
      user' = user.entitle lsStatus granted defaultPlan until_ := by
  unfold Db.grantedPlan
  obtain ⟨hnone, rfl⟩ | ⟨granted, defaultPlan, hgranted, hdefault, rfl⟩ := applyEntitlement_eq_ok h
  · left
    simp only [hplan, hnone]
    exact ⟨trivial, trivial⟩
  · right
    refine ⟨granted, defaultPlan, ?_, rfl⟩
    simp only [hplan, hgranted, hdefault]

-- One delivery: the stored columns afterwards against the condition before.
private theorem columns_iff_keepsEndDate {db : Db} {d : Delivery} {user user' : User}
    {lsStatus : LsStatus} {endsAt : DateTime}
    (hstatus : d.attrs.status = some lsStatus) (hends : lsStatus = .cancelled ∨ lsStatus = .paused)
    (hperiod : d.attrs.periodEnd = .ok (some endsAt))
    (h : match d.entitlementCall with
      | none => user'.entitlement = user.entitlement
      | some (lsStatus, periodEnd) => ∃ plan until_,
          db.planByVariant d.attrs.variant = .ok plan ∧ periodEnd = .ok until_ ∧
          applyEntitlement db (user.linkCustomer d.attrs.customer) lsStatus (planNameOf plan)
            until_ = .ok user') :
    (user'.planEffectiveUntil = some endsAt ∧
        ∀ planId, db.grantedPlan d.attrs = some planId → user'.planId = some planId) ↔
      KeepsEndDate db d user endsAt := by
  unfold KeepsEndDate
  cases hc : d.entitlementCall with
  | none =>
    rw [hc] at h
    have hevent : d.event ≠ .subscriptionCancelled := by
      intro he
      simp [Delivery.entitlementCall, he] at hc
    simp only [User.entitlement, Prod.mk.injEq] at h
    rw [h.1, h.2]
    simp [hevent]
  | some call =>
    obtain ⟨called, periodEnd⟩ := call
    rw [hc] at h
    obtain ⟨plan, until_, hplan, huntil, hentitle⟩ := h
    obtain ⟨hnone, rfl⟩ | ⟨granted, defaultPlan, hsome, rfl⟩ := grantedPlan_of_call hplan hentitle
    · have hcols := linkCustomer_entitlement user d.attrs.customer
      simp only [User.entitlement, Prod.mk.injEq] at hcols
      rw [hcols.1, hcols.2]
      simp [hnone]
    · rw [hsome]
      obtain ⟨he, rfl, rfl⟩ | ⟨he, rfl, hcalled⟩ := entitlementCall_cases hc
      · obtain rfl : until_ = some endsAt := Except.ok.inj (huntil.symm.trans hperiod)
        simp [he, User.entitle]
      · obtain rfl : until_ = none := (Except.ok.inj huntil).symm
        have hcleared : ((user.linkCustomer d.attrs.customer).entitle called granted defaultPlan
            none).planEffectiveUntil = none := by
          obtain ⟨_, rfl⟩ | ⟨_, rfl⟩ := hcalled
          · rfl
          · rw [hstatus]
            obtain rfl | rfl := hends <;> rfl
        rw [hcleared]
        simp [he]

/-- After the last accepted event of a user with a cancelled or paused state and an end
date, webhook and reconciliation agree exactly when that event keeps the end date. -/
theorem lastEvent_agrees_iff {db₀ db db' : Db} {before later : List Delivery} {d : Delivery}
    {user : User} {lsStatus : LsStatus} {endsAt : DateTime}
    (hbefore : webhooks.run db₀ before = some db) (haccepted : Accepted db d)
    (htarget : d.target db = some user) (hstatus : d.attrs.status = some lsStatus)
    (hends : lsStatus = .cancelled ∨ lsStatus = .paused)
    (hperiod : d.attrs.periodEnd = .ok (some endsAt))
    (hlater : webhooks.Guarded (ForOthers user.id) (handleWebhook db d).2 later)
    (hrun : webhooks.run db₀ (before ++ d :: later) = some db') :
    AgreesWithReconcile db' user.id d.attrs endsAt ↔ KeepsEndDate db d user endsAt := by
  obtain ⟨user', huser', hwritten⟩ := userById_target haccepted htarget
  have hid : user'.id = user.id := Db.id_of_userById huser'
  -- the later deliveries keep the user's row and everything but the prices of the plans
  have hframe : Repriced db db' ∧ db'.userById user.id = .ok (some user') := by
    have hrest : webhooks.run (handleWebhook db d).2 later = some db' := by
      rw [Machine.run_append, hbefore] at hrun
      exact hrun
    refine webhooks.invariant_of_guarded
      (I := fun t ↦ Repriced db t ∧ t.userById user.id = .ok (some user')) ?_
      ⟨repriced_handleWebhook db d, huser'⟩ hlater hrest
    rintro s e t ⟨hs, hsUser⟩ hother ⟨⟩
    exact ⟨hs.trans (repriced_handleWebhook s e), by rw [userById_other hother, hsUser]⟩
  obtain ⟨hplans, hfinal⟩ := hframe
  obtain ⟨plan, hplan⟩ := planByVariant_of_accepted haccepted htarget
  obtain ⟨f, _, hvariant⟩ := planByVariant_of_repriced hplans d.attrs.variant
  rw [hplan] at hvariant
  rw [← hid] at hfinal ⊢
  rw [agreesWithReconcile_iff hfinal hstatus hvariant hends hperiod,
    grantedPlan_of_repriced hplans]
  exact columns_iff_keepsEndDate hstatus hends hperiod hwritten

/-- A fresh installation with the seeded plans and two users. -/
def freshInstall : Db :=
  { plans := [freePlan "p-free", proPlan "p-pro" "42"],
    users := [⟨"u1", none, none, none⟩, ⟨"u2", none, none, none⟩],
    subscriptions := [], webhookEvents := [] }

/-- An event of a user's subscription to the paid plan. -/
def proEvent (webhookId : String) (event : EventName) (userId subscriptionId : String)
    (status : LsStatus) (endsAt : Option String) : Delivery :=
  { webhookId, event, userId := some userId, dataId := some subscriptionId,
    attrs := { status := some status, variantId := some "42", endsAt } }

/-- The last second of June 2026, in the form the provider sends. -/
def endOfJune : String := "2026-06-30T23:59:59.000000Z"

private def started : Delivery := proEvent "w1" .subscriptionCreated "u1" "s1" .active none

private def cancelled : Delivery :=
  proEvent "w2" .subscriptionCancelled "u1" "s1" .cancelled (some endOfJune)

private def otherStarted : Delivery := proEvent "w3" .subscriptionCreated "u2" "s2" .active none

/-- A cancellation keeps its end date, also after events of another user. -/
theorem cancelled_agrees :
    ∃ db' endsAt, webhooks.run freshInstall [started, cancelled, otherStarted] = some db' ∧
      cancelled.attrs.periodEnd = .ok (some endsAt) ∧
      AgreesWithReconcile db' "u1" cancelled.attrs endsAt := by
  have hstart : webhooks.run freshInstall [started] = some _ := rfl
  have hrun : webhooks.run freshInstall ([started] ++ cancelled :: [otherStarted]) = some _ := rfl
  have htarget : cancelled.target (handleWebhook freshInstall started).2 =
      some ⟨"u1", some "p-pro", none, none⟩ := by decide
  refine ⟨_, _, hrun, rfl, ?_⟩
  refine (lastEvent_agrees_iff hstart (by decide) htarget rfl (.inl rfl) rfl ?_ hrun).mpr ?_
  · decide
  · exact .inl ⟨rfl, by decide⟩

private def updated : Delivery :=
  proEvent "w2" .subscriptionUpdated "u1" "s1" .cancelled (some endOfJune)

/-- An update that reports the cancellation clears the end date: the user keeps the paid
plan without expiry, where reconciliation would write the end date. -/
theorem updated_disagrees :
    ∃ db db' user endsAt, webhooks.run freshInstall [started] = some db ∧ Accepted db updated ∧
      updated.target db = some user ∧ updated.attrs.status = some .cancelled ∧
      updated.attrs.periodEnd = .ok (some endsAt) ∧
      webhooks.run freshInstall [started, updated] = some db' ∧
      db'.entitlementOf user.id = .ok (some (some "p-pro", none)) ∧
      ¬ AgreesWithReconcile db' user.id updated.attrs endsAt := by
  have hrun : webhooks.run freshInstall [started, updated] = some _ := rfl
  have hcolumns : (webhooks.run freshInstall [started, updated]).map (·.entitlementOf "u1") =
      some (.ok (some (some "p-pro", none))) := by decide
  rw [hrun] at hcolumns
  refine ⟨_, _, ⟨"u1", some "p-pro", none, none⟩, _, rfl, by decide, by decide, rfl, rfl, hrun,
    Option.some.inj hcolumns, ?_⟩
  rintro ⟨⟨planId, h⟩, _⟩
  cases h.symm.trans (Option.some.inj hcolumns)

end WikiMind.Billing
