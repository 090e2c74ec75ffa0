import WikiMind.Base.Inbox
import WikiMind.Billing.Webhook

/-!
# Redelivered webhooks

The provider delivers an event again until it gets an answer, and several times at will. The
endpoint (`api/routes/billing.py:209`) records the id of an event in the transaction that
processes it, and skips an event whose id is there.
-/

namespace WikiMind.Billing

open WikiMind.Base

/-- The ids of the processed events. -/
def Db.webhookIds (db : Db) : List String := db.webhookEvents.map WebhookEvent.lemonSqueezyEventId

/-- The row that records an event. -/
def Delivery.row (d : Delivery) : WebhookEvent := ⟨d.webhookId, d.event⟩

/-! ### Handlers record no events -/

section
variable {db db' : Db} {d : Delivery}

/-- The handler of a subscription records no event. -/
theorem webhookEvents_handleSubscription {user : User} {id : String}
    {fresh : Option Subscription} {update : Subscription → Subscription} {lsStatus : LsStatus}
    {planName : String} {periodEnd : Except Exc (Option DateTime)}
    (h : handleSubscription db user id fresh update lsStatus planName periodEnd = .ok db') :
    db'.webhookEvents = db.webhookEvents := by
  unfold handleSubscription at h
  obtain ⟨db₁, hstore, h⟩ := bind_eq_ok.mp h
  obtain ⟨until_, -, h⟩ := bind_eq_ok.mp h
  obtain ⟨user', -, h⟩ := bind_eq_ok.mp h
  cases h
  unfold storeSubscription at hstore
  obtain ⟨found, -, hstore⟩ := bind_eq_ok.mp hstore
  cases found with
  | some sub =>
    cases hstore
    rfl
  | none =>
    cases fresh with
    | some sub =>
      cases hstore
      rfl
    | none =>
      cases hstore
      rfl

/-- Setting the price of a variant records no event. -/
theorem webhookEvents_setVariantPrice {variant : String} {price : Int}
    (h : setVariantPrice db variant price = .ok db') :
    db'.webhookEvents = db.webhookEvents := by
  unfold setVariantPrice at h
  obtain ⟨found, -, h⟩ := bind_eq_ok.mp h
  cases found with
  | none =>
    cases h
    rfl
  | some plan =>
    cases h
    rfl

/-- Setting the price that a variant is listed with records no event. -/
theorem webhookEvents_setListedPrice {v : Variant} (h : setListedPrice db v = .ok db') :
    db'.webhookEvents = db.webhookEvents := by
  unfold setListedPrice at h
  split at h
  · split at h
    · cases h
      rfl
    · exact webhookEvents_setVariantPrice h
  · cases h
    rfl

/-- Setting the prices of all variants records no event. -/
theorem webhookEvents_setListedPrices {variants : List Variant}
    (h : variants.foldlM setListedPrice db = .ok db') :
    db'.webhookEvents = db.webhookEvents := by
  induction variants generalizing db with
  | nil =>
    cases h
    rfl
  | cons v rest ih =>
    rw [List.foldlM_cons] at h
    obtain ⟨db₁, hstep, hrest⟩ := bind_eq_ok.mp h
    exact (ih hrest).trans (webhookEvents_setListedPrice hstep)

/-- Routing an event to its handler records no event. -/
theorem webhookEvents_route {user : User} {plan : Option Plan}
    (h : routeSubscriptionEvent db user d plan = .ok db') :
    db'.webhookEvents = db.webhookEvents := by
  unfold routeSubscriptionEvent at h
  split at h
  · exact webhookEvents_handleSubscription h
  · exact webhookEvents_handleSubscription h
  · exact webhookEvents_handleSubscription h
  · exact webhookEvents_handleSubscription h
  · exact webhookEvents_handleSubscription h
  · cases h
    rfl

/-- Processing an event records no event. -/
theorem webhookEvents_process (h : processWebhookEvent db d = .ok db') :
    db'.webhookEvents = db.webhookEvents := by
  by_cases hprice : d.event.isPriceEvent = true
  · unfold processWebhookEvent at h
    split at h
    · unfold handleVariantUpdated at h
      split at h
      · exact webhookEvents_setVariantPrice h
      · cases h
        rfl
    · unfold handleProductUpdated at h
      split at h
      · exact webhookEvents_setListedPrices h
      · cases h
        rfl
    · next hvariant hproduct =>
      unfold EventName.isPriceEvent at hprice
      split at hprice
      · next he => exact absurd he hvariant
      · next he => exact absurd he hproduct
      · cases hprice
  · rcases processWebhookEvent_user (by simpa using hprice) h with ⟨-, rfl⟩ | ⟨_, _, -, -, -, h⟩
    · rfl
    · exact (webhookEvents_route h).trans rfl

end

/-! ### The endpoint as a receiver -/

/-- What the endpoint does with a delivery whose event it has not processed. -/
def processDelivery (db : Db) (d : Delivery) : Option Db :=
  if d.signatureValid && d.webhookId ≠ "" then
    (processWebhookEvent (db.addWebhookEvent d.row) d).toOption
  else none

/-- A delivery with a signature and an id is recorded and processed; others are refused. -/
theorem processDelivery_eq_some {db db' : Db} {d : Delivery} :
    processDelivery db d = some db' ↔ (d.signatureValid = true ∧ d.webhookId ≠ "") ∧
      processWebhookEvent (db.addWebhookEvent d.row) d = .ok db' := by
  unfold processDelivery
  cases processWebhookEvent (db.addWebhookEvent d.row) d with
  | error e => simp [Except.toOption]
  | ok db₁ => simp [Except.toOption]

/-- A processed delivery records its event. -/
theorem webhookEvents_processDelivery {db db' : Db} {d : Delivery}
    (h : processDelivery db d = some db') : db'.webhookEvents = db.webhookEvents ++ [d.row] :=
  webhookEvents_process (processDelivery_eq_some.mp h).2

/-- A processed delivery records its id. -/
theorem webhookIds_processDelivery {db : Db} {d : Delivery} {db' : Db}
    (h : processDelivery db d = some db') : db'.webhookIds = db.webhookIds ++ [d.webhookId] := by
  unfold Db.webhookIds
  rw [webhookEvents_processDelivery h, List.map_append]
  rfl

/-- Deliveries that are all processed record their events, in their order. -/
theorem webhookEvents_foldlM {ds : List Delivery} {db after : Db}
    (h : ds.foldlM processDelivery db = some after) :
    after.webhookEvents = db.webhookEvents ++ ds.map Delivery.row := by
  induction ds generalizing db with
  | nil =>
    cases h
    exact (List.append_nil _).symm
  | cons d ds ih =>
    rw [List.foldlM_cons] at h
    obtain ⟨db₁, hstep, hrest⟩ := Option.bind_eq_some_iff.mp h
    rw [ih hrest, webhookEvents_processDelivery hstep, List.append_assoc]
    rfl

/-- Events are the messages, their ids the keys. -/
def eventInbox : Inbox Db Delivery String where
  key := Delivery.webhookId
  recorded := Db.webhookIds
  process := processDelivery
  recorded_process := webhookIds_processDelivery

/-- No query by the id of an event that is not recorded finds a row. -/
theorem oneOrNone_webhookEvents {db : Db} {webhookId : String} (h : webhookId ∉ db.webhookIds) :
    Rows.oneOrNone (fun e ↦ e.lemonSqueezyEventId = webhookId) db.webhookEvents = .ok none :=
  Rows.oneOrNone_eq_none.mpr (List.filter_eq_nil_iff.mpr fun e he heq ↦
    h (List.mem_map.mpr ⟨e, he, by simpa using heq⟩))

private theorem handleWebhook_eq_receive (db : Db) (d : Delivery) :
    (handleWebhook db d).2 = eventInbox.receive db d := by
  unfold handleWebhook Inbox.receive
  by_cases hmem : d.webhookId ∈ db.webhookIds
  · rw [if_pos (show eventInbox.key d ∈ eventInbox.recorded db from hmem)]
    split
    · rfl
    split
    · rfl
    cases hfound :
      Rows.oneOrNone (fun e ↦ e.lemonSqueezyEventId = d.webhookId) db.webhookEvents with
    | error e => rfl
    | ok result =>
      cases result with
      | some e => rfl
      | none =>
        obtain ⟨e, he, heq⟩ := List.mem_map.mp hmem
        simpa [heq] using Rows.not_of_oneOrNone hfound he
  · rw [if_neg (show eventInbox.key d ∉ eventInbox.recorded db from hmem),
      oneOrNone_webhookEvents hmem]
    change _ = (processDelivery db d).getD db
    unfold processDelivery
    cases hvalid : d.signatureValid with
    | false => rfl
    | true =>
      by_cases hid : d.webhookId = ""
      · simp [hid]
      · simp only [hid, Bool.not_true, Bool.false_eq_true, if_false, ne_eq, not_false_eq_true,
          decide_true, Bool.and_self, if_true, Delivery.row]
        cases processWebhookEvent (db.addWebhookEvent ⟨d.webhookId, d.event⟩) d with
        | error e => rfl
        | ok db' => rfl

/-- A delivery of a recorded event is answered as a duplicate and changes nothing. -/
theorem handleWebhook_duplicate {db : Db} {d : Delivery} (hnodup : db.webhookIds.Nodup)
    (hvalid : d.signatureValid = true) (hid : d.webhookId ≠ "") (h : d.webhookId ∈ db.webhookIds) :
    handleWebhook db d = (.duplicate, db) := by
  obtain ⟨e, he, heq⟩ := List.mem_map.mp h
  have hfound := Rows.oneOrNone_of_nodup hnodup he
  rw [heq] at hfound
  simp [handleWebhook, hvalid, hid, hfound]

/-- Whatever events are delivered, in whatever order and however often: the final tables are
those of processing some of the deliveries, one after the other and without a failure; no two of
these are deliveries of one event, and their events are the ones recorded. A further delivery of
a recorded event is answered as a duplicate and changes nothing. -/
theorem events_processed_once {db : Db} (h : db.webhookIds.Nodup) (ds : List Delivery) :
    ∃ done : List Delivery, done.Sublist ds ∧ ∃ after : Db,
      webhooks.run db ds = some after ∧ done.foldlM processDelivery db = some after ∧
      after.webhookEvents = db.webhookEvents ++ done.map Delivery.row ∧ after.webhookIds.Nodup ∧
      ∀ d : Delivery, d.signatureValid = true → d.webhookId ≠ "" →
        d.webhookId ∈ after.webhookIds → handleWebhook after d = (.duplicate, after) := by
  have hreceive : (fun db d ↦ (handleWebhook db d).2) = eventInbox.receive := by
    funext db d
    exact handleWebhook_eq_receive db d
  have hnodup := eventInbox.nodup_recorded_foldl h ds
  refine ⟨eventInbox.processed db ds, eventInbox.processed_sublist db ds,
    ds.foldl eventInbox.receive db, ?_, eventInbox.foldlM_processed db ds, ?_, hnodup,
    fun d hvalid hid hmem ↦ handleWebhook_duplicate hnodup hvalid hid hmem⟩
  · unfold webhooks
    rw [Machine.run_ofFun, hreceive]
  · exact webhookEvents_foldlM (eventInbox.foldlM_processed db ds)

/-- A user and the seeded plans. -/
def seededDb : Db := ⟨[freePlan "f", proPlan "p" "v"], [⟨"u", none, none, none⟩], [], []⟩

/-- A subscription event and its redelivery. -/
def redelivered : List Delivery :=
  let created : Delivery :=
    { webhookId := "w", event := .subscriptionCreated, userId := some "u",
      attrs := { firstSubscriptionId := some "s", status := some .active, variantId := some "v" } }
  [created, created]

theorem redelivered_once :
    ∃ done : List Delivery, done.Sublist redelivered ∧ ∃ after : Db,
      webhooks.run seededDb redelivered = some after ∧
      done.foldlM processDelivery seededDb = some after ∧
      after.webhookEvents = seededDb.webhookEvents ++ done.map Delivery.row ∧
      after.webhookIds.Nodup ∧
      ∀ d : Delivery, d.signatureValid = true → d.webhookId ≠ "" →
        d.webhookId ∈ after.webhookIds → handleWebhook after d = (.duplicate, after) :=
  events_processed_once (by decide) redelivered

end WikiMind.Billing
