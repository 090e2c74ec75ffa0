import WikiMind.Billing.Tables

/-!
# Plan entitlement

Which plan a user is on: `apply_entitlement` (`services/billing.py:128`) maps a
subscription state to the two entitlement columns of the user, `get_effective_plan`
(`services/quota.py:56`) reads them against the clock. Both see plans only through
their names, ids and default flags, so a price change alters neither.
-/

namespace WikiMind.Billing

open WikiMind.Base

/-- The branch of a subscription state: keep the paid plan without expiry, keep it until
the period ends, or go back to the default plan. `services/billing.py:148–158`. -/
def User.entitle (user : User) (lsStatus : LsStatus) (plan defaultPlan : Plan)
    (periodEnd : Option DateTime) : User :=
  match lsStatus with
  | .active | .onTrial | .pastDue =>
    { user with planId := some plan.id, planEffectiveUntil := none }
  | .cancelled | .paused =>
    { user with planId := some plan.id, planEffectiveUntil := periodEnd }
  | .expired | .unpaid =>
    { user with planId := some defaultPlan.id, planEffectiveUntil := none }
  | .other _ => user

/-- Map a subscription state to the user's plan; an unknown plan name or state leaves
the user as it is. `services/billing.py:128`. -/
def applyEntitlement (db : Db) (user : User) (lsStatus : LsStatus) (planName : String)
    (periodEnd : Option DateTime) : Except Exc User := do
  match ← db.planByName planName with
  | none => return user
  | some plan => return user.entitle lsStatus plan (← db.defaultPlan) periodEnd

/-- Whether the stored plan still counts: no expiry, or one after `now`.
The condition of `services/quota.py:69`. -/
def User.inForce (user : User) (now : DateTime) : Except Exc Bool :=
  match user.planEffectiveUntil with
  | none => .ok true
  | some until_ => until_.gt now

/-- Resolve the plan in force for a user, else the default plan. `services/quota.py:56`. -/
def getEffectivePlan (db : Db) (userId : String) (now : DateTime) : Except Exc Plan := do
  match ← db.userById userId with
  | none => db.defaultPlan
  | some user =>
    match user.planId.filter (· ≠ "") with
    | none => db.defaultPlan
    | some planId =>
      if ← user.inForce now then
        match ← db.planById planId with
        | some plan => return plan
        | none => db.defaultPlan
      else db.defaultPlan

/-- The plan rows of `db'` are those of `db` up to their prices. -/
def Repriced (db db' : Db) : Prop :=
  ∃ f : Plan → Plan, db'.plans = db.plans.map f ∧
    ∀ p, f p = { p with priceCents := (f p).priceCents }

section Repriced

variable {db db' : Db}

/-- Nothing changed is the trivial price change. -/
theorem Repriced.of_eq (h : db'.plans = db.plans) : Repriced db db' :=
  ⟨id, by simp [h], fun _ ↦ rfl⟩

/-- Price changes compose. -/
theorem Repriced.trans {db'' : Db} (h₁ : Repriced db db') (h₂ : Repriced db' db'') :
    Repriced db db'' := by
  obtain ⟨f, hf, hfp⟩ := h₁
  obtain ⟨g, hg, hgp⟩ := h₂
  refine ⟨g ∘ f, by rw [hg, hf, List.map_map], fun p ↦ ?_⟩
  simp only [Function.comp_apply]
  rw [hgp (f p), hfp p]

private theorem query_of_repriced (h : Repriced db db') (q : Plan → Bool)
    (hq : ∀ (p : Plan) (price : Int), q { p with priceCents := price } = q p) :
    ∃ f : Plan → Plan, (∀ p, f p = { p with priceCents := (f p).priceCents }) ∧
      Rows.oneOrNone q db'.plans = (Rows.oneOrNone q db.plans).map (Option.map f) ∧
      Rows.one q db'.plans = (Rows.one q db.plans).map f := by
  obtain ⟨f, hf, hfp⟩ := h
  have hstable : ∀ p, q (f p) = q p := fun p ↦ by rw [hfp p]; exact hq p _
  exact ⟨f, hfp, by rw [hf, Rows.oneOrNone_map hstable], by rw [hf, Rows.one_map hstable]⟩

/-- After a price change a plan name finds a plan with the same id and name. -/
theorem planByName_of_repriced (h : Repriced db db') (name : String) :
    ∃ f : Plan → Plan, (∀ p, f p = { p with priceCents := (f p).priceCents }) ∧
      db'.planByName name = (db.planByName name).map (Option.map f) := by
  obtain ⟨f, hf, hq, _⟩ := query_of_repriced h (fun p ↦ p.name = name) (fun _ _ ↦ rfl)
  exact ⟨f, hf, hq⟩

/-- The same for a variant id. -/
theorem planByVariant_of_repriced (h : Repriced db db') (variant : String) :
    ∃ f : Plan → Plan, (∀ p, f p = { p with priceCents := (f p).priceCents }) ∧
      db'.planByVariant variant = (db.planByVariant variant).map (Option.map f) := by
  obtain ⟨f, hf, hq, _⟩ :=
    query_of_repriced h (fun p ↦ p.lemonSqueezyVariantId = some variant) (fun _ _ ↦ rfl)
  exact ⟨f, hf, hq⟩

/-- The same for a plan id. -/
theorem planById_of_repriced (h : Repriced db db') (id : String) :
    ∃ f : Plan → Plan, (∀ p, f p = { p with priceCents := (f p).priceCents }) ∧
      db'.planById id = (db.planById id).map (Option.map f) := by
  obtain ⟨f, hf, hq, _⟩ := query_of_repriced h (fun p ↦ p.id = id) (fun _ _ ↦ rfl)
  exact ⟨f, hf, hq⟩

/-- The same for the default plan. -/
theorem defaultPlan_of_repriced (h : Repriced db db') :
    ∃ f : Plan → Plan, (∀ p, f p = { p with priceCents := (f p).priceCents }) ∧
      db'.defaultPlan = db.defaultPlan.map f := by
  obtain ⟨f, hf, _, hq⟩ := query_of_repriced h (fun p ↦ p.isDefault) (fun _ _ ↦ rfl)
  exact ⟨f, hf, hq⟩

/-- Price changes do not alter entitlement decisions. -/
theorem applyEntitlement_of_repriced (h : Repriced db db') (user : User) (lsStatus : LsStatus)
    (planName : String) (periodEnd : Option DateTime) :
    applyEntitlement db' user lsStatus planName periodEnd =
      applyEntitlement db user lsStatus planName periodEnd := by
  obtain ⟨f, hf, hname⟩ := planByName_of_repriced h planName
  obtain ⟨g, hg, hdefault⟩ := defaultPlan_of_repriced h
  have hfid : ∀ p, (f p).id = p.id := fun p ↦ by rw [hf p]
  have hgid : ∀ p, (g p).id = p.id := fun p ↦ by rw [hg p]
  unfold applyEntitlement
  rw [hname, hdefault]
  cases db.planByName planName with
  | error e => rfl
  | ok plan =>
    cases plan with
    | none => rfl
    | some plan =>
      cases db.defaultPlan with
      | error e => rfl
      | ok defaultPlan =>
        cases lsStatus <;>
          simp [Except.map, bind, Except.bind, pure, Except.pure, User.entitle, hfid, hgid]

end Repriced

/-- What one entitlement decision does: nothing for an unknown plan, else the branch of
the state, with the default plan found. -/
theorem applyEntitlement_eq_ok {db : Db} {user user' : User} {lsStatus : LsStatus}
    {planName : String} {periodEnd : Option DateTime}
    (h : applyEntitlement db user lsStatus planName periodEnd = .ok user') :
    (db.planByName planName = .ok none ∧ user' = user) ∨
    ∃ plan defaultPlan, db.planByName planName = .ok (some plan) ∧
      db.defaultPlan = .ok defaultPlan ∧
      user' = user.entitle lsStatus plan defaultPlan periodEnd := by
  unfold applyEntitlement at h
  obtain ⟨found, hfound, h⟩ := bind_eq_ok.mp h
  cases found with
  | none =>
    left
    exact ⟨hfound, by cases h; rfl⟩
  | some plan =>
    right
    obtain ⟨defaultPlan, hdefault, h⟩ := bind_eq_ok.mp h
    cases h
    exact ⟨plan, defaultPlan, hfound, hdefault, rfl⟩

/-- An entitlement decision keeps the identity of the user. -/
theorem id_applyEntitlement {db : Db} {user user' : User} {lsStatus : LsStatus}
    {planName : String} {periodEnd : Option DateTime}
    (h : applyEntitlement db user lsStatus planName periodEnd = .ok user') :
    user'.id = user.id := by
  obtain ⟨_, rfl⟩ | ⟨plan, defaultPlan, _, _, rfl⟩ := applyEntitlement_eq_ok h
  · rfl
  · cases lsStatus <;> rfl

/-- The entitlement columns stored for a user id. -/
def Db.entitlementOf (db : Db) (userId : String) :
    Except Exc (Option (Option String × Option DateTime)) :=
  (db.userById userId).map (Option.map User.entitlement)

theorem entitlementOf_eq_some {db : Db} {userId : String}
    {columns : Option String × Option DateTime} :
    db.entitlementOf userId = .ok (some columns) ↔
      ∃ user, db.userById userId = .ok (some user) ∧ user.entitlement = columns := by
  unfold Db.entitlementOf
  cases db.userById userId with
  | error e => simp [Except.map]
  | ok found => cases found <;> simp [Except.map]

/-- A resolved plan is the default plan, or the stored one while it is in force. -/
theorem getEffectivePlan_eq_ok {db : Db} {userId : String} {now : DateTime} {plan : Plan}
    (h : getEffectivePlan db userId now = .ok plan) :
    db.defaultPlan = .ok plan ∨
    ∃ user planId, db.userById userId = .ok (some user) ∧ user.planId = some planId ∧
      planId ≠ "" ∧ user.inForce now = .ok true ∧ db.planById planId = .ok (some plan) := by
  unfold getEffectivePlan at h
  obtain ⟨found, huser, h⟩ := bind_eq_ok.mp h
  cases found with
  | none => left; exact h
  | some user =>
    cases hplanId : user.planId.filter (· ≠ "") with
    | none => left; simpa only [hplanId] using h
    | some planId =>
      simp only [hplanId] at h
      obtain ⟨inForce, hforce, h⟩ := bind_eq_ok.mp h
      cases inForce with
      | false => left; simpa using h
      | true =>
        obtain ⟨stored, hstored, h⟩ := bind_eq_ok.mp h
        cases stored with
        | none => left; exact h
        | some stored =>
          cases h
          right
          obtain ⟨hsome, hne⟩ := Option.filter_eq_some_iff.mp hplanId
          exact ⟨user, planId, huser, hsome, by simpa using hne, hforce, hstored⟩

/-- The stored columns put the user on a plan without expiry. -/
def OnPlan (db : Db) (userId : String) (plan : Plan) : Prop :=
  ∃ planId, planId ≠ "" ∧ db.entitlementOf userId = .ok (some (some planId, none)) ∧
    db.planById planId = .ok (some plan)

/-- A user is on a paid plan at all times exactly when the columns say so without expiry:
any end date is passed by some clock. -/
theorem getEffectivePlan_always_iff {db : Db} {userId : String} {plan : Plan}
    (hpaid : plan.isDefault = false) :
    (∀ now : DateTime, now.Naive → getEffectivePlan db userId now = .ok plan) ↔
      OnPlan db userId plan := by
  constructor
  · intro h
    have hstored : ∀ now : DateTime, now.Naive → ∃ user planId,
        db.userById userId = .ok (some user) ∧ user.planId = some planId ∧ planId ≠ "" ∧
        user.inForce now = .ok true ∧ db.planById planId = .ok (some plan) := by
      intro now hnow
      obtain hdefault | hstored := getEffectivePlan_eq_ok (h now hnow)
      · rw [Rows.prop_of_oneOrNone (Rows.one_eq_ok.mp hdefault)] at hpaid
        cases hpaid
      · exact hstored
    obtain ⟨user, planId, huser, hplanId, hne, _, hplan⟩ := hstored ⟨0, none⟩ rfl
    refine ⟨planId, hne, entitlementOf_eq_some.mpr ⟨user, huser, ?_⟩, hplan⟩
    suffices huntil : user.planEffectiveUntil = none by simp [User.entitlement, hplanId, huntil]
    cases huntil : user.planEffectiveUntil with
    | none => rfl
    | some until_ =>
      obtain ⟨user', _, huser', _, _, hforce, _⟩ := hstored ⟨until_.wall, none⟩ rfl
      obtain rfl : user = user' := by simpa [huser] using huser'
      simp only [User.inForce, huntil, DateTime.gt] at hforce
      cases ho : until_.utcoffset with
      | none => simp [ho] at hforce
      | some offset => simp [ho] at hforce
  · rintro ⟨planId, hne, hcolumns, hplan⟩ now _
    obtain ⟨user, huser, hstored⟩ := entitlementOf_eq_some.mp hcolumns
    simp only [User.entitlement, Prod.mk.injEq] at hstored
    unfold getEffectivePlan
    rw [huser]
    simp [bind, Except.bind, hstored.1, hne, Option.filter, User.inForce, hstored.2, hplan, pure,
      Except.pure]

end WikiMind.Billing
