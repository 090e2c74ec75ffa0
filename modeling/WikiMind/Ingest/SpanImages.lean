import WikiMind.Ingest.Spans

/-!
# Spans and their rows

After `persist_spans` (`ingest/spans.py:243`) every new span of a source has one current row:
an old row with its fingerprint, which is taken once, or a row of its own. No old row is
deleted, and those that are not taken are stale.
-/

namespace WikiMind.Ingest.Spans

open WikiMind.Base

/-- Freshly extracted spans of a source: their ids are new and none is stale. -/
structure NewSpans (table : List SourceSpan) where
  spans : List SourceSpan
  sourceId : String
  nonempty : spans ≠ []
  source : ∀ new ∈ spans, new.sourceId = sourceId
  current : ∀ new ∈ spans, new.stale = false
  fresh : ((table ++ spans).map (·.id)).Nodup

/-- A current row with the text, the locator and the fingerprint of a span. -/
structure Carries (row new : SourceSpan) : Prop where
  sourceId : row.sourceId = new.sourceId
  text : row.text = new.text
  locator : row.locator = new.locator
  fingerprint : row.fingerprint = new.fingerprint
  current : row.stale = false

/-- Rows of a table are the one-to-one image of new spans. -/
structure Image {before : List SourceSpan} (new : NewSpans before) (after rows : List SourceSpan) :
    Prop where
  /-- There is one row for each new span. -/
  carries : List.Forall₂ Carries rows new.spans
  /-- No row is used for two of them. -/
  distinct : (rows.map (·.id)).Nodup
  /-- These are the rows of the source that are not stale. -/
  current : (after.filter fun r ↦ r.sourceId = new.sourceId ∧ r.stale = false).Perm rows
  /-- No old row is deleted, and only new ones are added. -/
  kept : ∃ added : List SourceSpan, added.Sublist new.spans ∧
    after.map anchor = before.map anchor ++ added.map anchor
  /-- An old row that is used has the fingerprint of its new span. -/
  reused : List.Forall₂ (fun row n ↦ ∀ r ∈ before, r.id = row.id → r.fingerprint = n.fingerprint)
    rows new.spans
  /-- An old row that is not used is stale. -/
  stale : ∀ r ∈ after, r.sourceId = new.sourceId → r.id ∉ rows.map (·.id) → r.stale = true

/-- The invariant of the matching: the rows for the spans that are done, and what is left. -/
structure Anchoring (sourceId : String) (before old past todo rows : List SourceSpan)
    (s : Matching) : Prop where
  nodup : ((s.table ++ todo).map (·.id)).Nodup
  kept : ∃ added : List SourceSpan, added.Sublist past ∧
    s.table.map anchor = before.map anchor ++ added.map anchor
  carries : List.Forall₂ Carries rows past
  distinct : (rows.map (·.id)).Nodup
  subset : ∀ r ∈ rows, r ∈ s.table
  matched : ∀ r ∈ old, r.id ∈ s.matched ↔ r.id ∈ rows.map (·.id)
  free : ∀ r ∈ old, r.id ∉ s.matched → r ∈ s.table
  rest : ∀ r ∈ s.table, r.sourceId = sourceId → r ∈ rows ∨ (r ∈ old ∧ r.id ∉ s.matched)

section Steps

variable {sourceId : String} {before old past todo rows : List SourceSpan} {s : Matching}
  {new r : SourceSpan}

/-- Equal anchors have equal ids. -/
theorem map_id_of_anchor {table table' : List SourceSpan}
    (h : table.map anchor = table'.map anchor) : table.map (·.id) = table'.map (·.id) := by
  have hids := congrArg (List.map Prod.fst) h
  rwa [List.map_map, List.map_map] at hids

/-- The ids of a source's old rows stay in the table. -/
theorem Anchoring.mem_ids (h : Anchoring sourceId before old past todo rows s)
    (hold : old ⊆ before) (hr : r ∈ old) : r.id ∈ s.table.map (·.id) := by
  obtain ⟨added, -, hkept⟩ := h.kept
  rw [← List.map_append] at hkept
  rw [map_id_of_anchor hkept]
  exact List.mem_map_of_mem (List.mem_append_left _ (hold hr))

/-- The id of a span that is still to come is not in the table. -/
theorem Anchoring.id_not_mem (h : Anchoring sourceId before old past (new :: todo) rows s) :
    new.id ∉ s.table.map (·.id) := by
  have hnodup := h.nodup
  rw [List.map_append, List.nodup_append] at hnodup
  intro hmem
  exact hnodup.2.2 _ hmem _ List.mem_cons_self rfl

/-- A span that gets a row of its own. -/
theorem Anchoring.insert (h : Anchoring sourceId before old past (new :: todo) rows s)
    (hold : old ⊆ before) (hcurrent : new.stale = false) :
    Anchoring sourceId before old (past ++ [new]) todo (rows ++ [new])
      { s with table := s.table ++ [new] } where
  nodup := by simpa using h.nodup
  kept := by
    obtain ⟨added, hsub, hkept⟩ := h.kept
    refine ⟨added ++ [new], hsub.append (List.Sublist.refl _), ?_⟩
    simp only [List.map_append, hkept, List.append_assoc]
  carries := List.rel_append h.carries (.cons ⟨rfl, rfl, rfl, rfl, hcurrent⟩ .nil)
  distinct := by
    rw [Rows.nodup_map_concat]
    refine ⟨h.distinct, fun x hx heq ↦ h.id_not_mem ?_⟩
    rw [← heq]
    exact List.mem_map_of_mem (h.subset x hx)
  subset := by
    intro x hx
    rcases List.mem_append.mp hx with hx | hx
    · exact List.mem_append_left _ (h.subset x hx)
    · exact List.mem_append_right _ hx
  matched := by
    intro x hx
    have hne : x.id ≠ new.id := fun heq ↦ h.id_not_mem (heq ▸ h.mem_ids hold hx)
    rw [List.map_append, List.mem_append, List.map_singleton, List.mem_singleton, or_iff_left hne]
    exact h.matched x hx
  free := fun x hx hfree ↦ List.mem_append_left _ (h.free x hx hfree)
  rest := by
    intro x hx hsource
    rcases List.mem_append.mp hx with hx | hx
    · exact (h.rest x hx hsource).imp_left (List.mem_append_left _)
    · exact .inl (List.mem_append_right _ hx)

/-- A span that takes an old row. -/
theorem Anchoring.take (h : Anchoring sourceId before old past (new :: todo) rows s)
    (hsource : r.sourceId = new.sourceId) (hfound : found old new = some r)
    (hfree : r.id ∉ s.matched) :
    Anchoring sourceId before old (past ++ [new]) todo
      (rows ++ [{ r with locator := new.locator, text := new.text, stale := false }])
      { table := Rows.modify (fun x ↦ x.id = r.id)
          (fun x ↦ { x with locator := new.locator, text := new.text, stale := false }) s.table
        matched := r.id :: s.matched } := by
  obtain ⟨hr, hfingerprint⟩ := found_spec hfound
  have hmem : r ∈ s.table := h.free r hr hfree
  have hunused : r.id ∉ rows.map (·.id) := fun hused ↦ hfree ((h.matched r hr).mpr hused)
  have hanchors : (Rows.modify (fun x ↦ x.id = r.id)
      (fun x ↦ { x with locator := new.locator, text := new.text, stale := false })
      s.table).map anchor = s.table.map anchor := Rows.map_modify fun _ _ _ ↦ rfl
  have hnodup : (s.table.map (·.id)).Nodup := by
    have hall := h.nodup
    rw [List.map_append] at hall
    exact hall.of_append_left
  have hother : ∀ x ∈ s.table, x.id ≠ r.id → ∀ f : SourceSpan → SourceSpan,
      x ∈ Rows.modify (fun x ↦ x.id = r.id) f s.table := fun x hx hne f ↦
    Rows.mem_modify.mpr (.inr ⟨hx, decide_eq_false hne⟩)
  constructor
  · rw [List.map_append, map_id_of_anchor hanchors, ← List.map_append]
    exact h.nodup.sublist (((List.sublist_cons_self new todo).append_left _).map _)
  · obtain ⟨added, hsub, hkept⟩ := h.kept
    refine ⟨added, hsub.trans (List.sublist_append_left _ _), ?_⟩
    exact hanchors.trans hkept
  · exact List.rel_append h.carries (.cons ⟨hsource, rfl, rfl, hfingerprint, rfl⟩ .nil)
  · rw [Rows.nodup_map_concat]
    exact ⟨h.distinct, fun x hx heq ↦ hunused (heq ▸ List.mem_map_of_mem hx)⟩
  · intro x hx
    rcases List.mem_append.mp hx with hx | hx
    · exact hother x (h.subset x hx) (fun heq ↦ hunused (heq ▸ List.mem_map_of_mem hx)) _
    · rw [List.mem_singleton.mp hx]
      exact Rows.mem_modify.mpr (.inl ⟨r, hmem, decide_eq_true rfl, rfl⟩)
  · intro x hx
    rw [List.mem_cons, List.map_append, List.mem_append, h.matched x hx, List.map_singleton,
      List.mem_singleton]
    exact or_comm
  · intro x hx hxfree
    rw [List.mem_cons, not_or] at hxfree
    exact hother x (h.free x hx hxfree.2) hxfree.1 _
  · intro x hx hxsource
    rcases Rows.mem_modify.mp hx with ⟨y, hy, hid, rfl⟩ | ⟨hx, hid⟩
    · -- the row with the id of `r` is `r`
      rw [Rows.eq_of_nodup hnodup hmem hy (of_decide_eq_true hid)]
      exact .inl (List.mem_append_right _ List.mem_cons_self)
    · refine (h.rest x hx hxsource).imp (List.mem_append_left _) fun ⟨hx, hxfree⟩ ↦ ⟨hx, ?_⟩
      rw [List.mem_cons, not_or]
      exact ⟨of_decide_eq_false hid, hxfree⟩

/-- One step of the matching keeps the invariant. -/
theorem Anchoring.add (h : Anchoring sourceId before old past (new :: todo) rows s)
    (hold : old ⊆ before) (hsources : ∀ r ∈ old, r.sourceId = new.sourceId)
    (hcurrent : new.stale = false) :
    ∃ row, Anchoring sourceId before old (past ++ [new]) todo (rows ++ [row])
      (Matching.add old s new) := by
  cases hfound : found old new with
  | none =>
    rw [add_of_not_found hfound]
    exact ⟨new, h.insert hold hcurrent⟩
  | some r =>
    by_cases hr : r.id ∈ s.matched
    · rw [add_of_matched hfound hr]
      exact ⟨new, h.insert hold hcurrent⟩
    · rw [add_of_unmatched hfound hr]
      exact ⟨_, h.take (hsources r (found_spec hfound).1) hfound hr⟩

/-- The whole matching keeps it. -/
theorem Anchoring.foldl (h : Anchoring sourceId before old past todo rows s)
    (hold : old ⊆ before) (hsources : ∀ r ∈ old, r.sourceId = sourceId)
    (hnew : ∀ new ∈ todo, new.sourceId = sourceId ∧ new.stale = false) :
    ∃ rows, Anchoring sourceId before old (past ++ todo) [] rows
      (todo.foldl (Matching.add old) s) := by
  induction todo generalizing past rows s with
  | nil => exact ⟨rows, by simpa using h⟩
  | cons new todo ih =>
    obtain ⟨hsource, hcurrent⟩ := hnew new List.mem_cons_self
    obtain ⟨row, hrow⟩ := h.add hold (fun r hr ↦ (hsources r hr).trans hsource.symm) hcurrent
    have hrest := ih hrow fun n hn ↦ hnew n (List.mem_cons_of_mem _ hn)
    rwa [List.append_assoc] at hrest

end Steps

section Images

variable {before old : List SourceSpan} (new : NewSpans before)

/-- Before the first span the old rows are all free. -/
theorem NewSpans.anchoring (hold : ∀ r, r ∈ old ↔ r ∈ before ∧ r.sourceId = new.sourceId) :
    Anchoring new.sourceId before old [] new.spans [] ⟨before, []⟩ where
  nodup := new.fresh
  kept := ⟨[], List.Sublist.refl _, by simp⟩
  carries := .nil
  distinct := List.nodup_nil
  subset := by simp
  matched := by simp
  free := fun r hr _ ↦ ((hold r).mp hr).1
  rest := fun r hr hsource ↦ .inr ⟨(hold r).mpr ⟨hr, hsource⟩, List.not_mem_nil⟩

/-- Matching the new spans with the old rows of their source gives their image. -/
theorem NewSpans.image_reanchorSpans
    (hold : ∀ r, r ∈ old ↔ r ∈ before ∧ r.sourceId = new.sourceId) :
    ∃ rows, Image new (reanchorSpans before old new.spans) rows := by
  have hfold := (new.anchoring hold).foldl (fun r hr ↦ ((hold r).mp hr).1)
    (fun r hr ↦ ((hold r).mp hr).2) fun n hn ↦ ⟨new.source n hn, new.current n hn⟩
  obtain ⟨rows, h⟩ := hfold
  rw [List.nil_append] at h
  have hcarried : ∀ row ∈ rows, ∃ n ∈ new.spans, Carries row n := by
    intro row hrow
    obtain ⟨i, hi, rfl⟩ := List.getElem_of_mem hrow
    have hlength := h.carries.length_eq
    exact ⟨_, List.getElem_mem (hlength ▸ hi), h.carries.get hi (hlength ▸ hi)⟩
  -- a row that is made stale is none of the image
  have hstays : ∀ row ∈ rows, ¬ (row.id ∈ old.map (·.id) ∧
      row.id ∉ (new.spans.foldl (Matching.add old) ⟨before, []⟩).matched) := by
    rintro row hrow ⟨hid, hunmatched⟩
    obtain ⟨r, hr, heq⟩ := List.mem_map.mp hid
    rw [← heq] at hunmatched
    apply hunmatched
    rw [h.matched r hr, heq]
    exact List.mem_map_of_mem hrow
  have hanchors : (reanchorSpans before old new.spans).map anchor =
      (new.spans.foldl (Matching.add old) ⟨before, []⟩).table.map anchor :=
    Rows.map_modify fun _ _ _ ↦ rfl
  have hnodup : ((new.spans.foldl (Matching.add old) ⟨before, []⟩).table.map (·.id)).Nodup := by
    simpa using h.nodup
  have hstale : ∀ r ∈ reanchorSpans before old new.spans, r.sourceId = new.sourceId →
      r ∈ rows ∨ r.stale = true := by
    intro r hr hsource
    rcases Rows.mem_modify.mp hr with ⟨x, -, -, rfl⟩ | ⟨hr, hunselected⟩
    · exact .inr rfl
    · refine (h.rest r hr hsource).imp_right fun ⟨hr, hfree⟩ ↦ ?_
      exact absurd ⟨List.mem_map_of_mem hr, hfree⟩ (of_decide_eq_false hunselected)
  refine ⟨rows, h.carries, h.distinct, ?_, ?_, ?_, ?_⟩
  · have hids := map_id_of_anchor hanchors
    rw [List.perm_ext_iff_of_nodup (List.Nodup.filter _ (List.Nodup.of_map (·.id) (hids ▸ hnodup)))
      (List.Nodup.of_map (·.id) h.distinct)]
    intro r
    rw [List.mem_filter, decide_eq_true_eq]
    constructor
    · rintro ⟨hr, hsource, hcurrent⟩
      refine (hstale r hr hsource).resolve_right fun h ↦ ?_
      rw [hcurrent] at h
      cases h
    · intro hr
      obtain ⟨n, hn, hcarries⟩ := hcarried r hr
      refine ⟨Rows.mem_modify.mpr (.inr ⟨h.subset r hr, decide_eq_false (hstays r hr)⟩), ?_, ?_⟩
      · exact hcarries.sourceId.trans (new.source n hn)
      · exact hcarries.current
  · obtain ⟨added, hsub, hkept⟩ := h.kept
    exact ⟨added, hsub, hanchors.trans hkept⟩
  · -- an old row with the id of a row of the table has its fingerprint
    obtain ⟨added, -, hkept⟩ := h.kept
    refine List.forall₂_iff_get.mpr ⟨h.carries.length_eq, fun i hi hi' r hr hid ↦ ?_⟩
    have hrow : rows.get ⟨i, hi⟩ ∈ rows := List.get_mem ..
    have hanchor : anchor r ∈
        (new.spans.foldl (Matching.add old) ⟨before, []⟩).table.map anchor := by
      rw [hkept]
      exact List.mem_append_left _ (List.mem_map_of_mem hr)
    obtain ⟨x, hx, heq⟩ := List.mem_map.mp hanchor
    simp only [anchor, Prod.mk.injEq] at heq
    have hsame : x = rows.get ⟨i, hi⟩ :=
      Rows.eq_of_nodup hnodup (h.subset _ hrow) hx (heq.1.trans hid)
    rw [← heq.2.2, hsame]
    exact (h.carries.get hi hi').fingerprint
  · intro r hr hsource hunused
    refine (hstale r hr hsource).resolve_left fun hrow ↦ ?_
    exact hunused (List.mem_map_of_mem hrow)

/-- Without old rows the matching adds all spans. -/
theorem reanchorSpans_nil (table spans : List SourceSpan) :
    reanchorSpans table [] spans = table ++ spans := by
  have hfold : ∀ s : Matching, spans.foldl (Matching.add []) s =
      { s with table := s.table ++ spans } := by
    induction spans with
    | nil => simp
    | cons span spans ih =>
      intro s
      rw [List.foldl_cons, add_of_not_found (by rfl), ih]
      simp
  unfold reanchorSpans Rows.modify
  rw [hfold]
  simp

/-- Persisting new spans is matching them with the rows of their source, if any. -/
theorem NewSpans.persistSpans_eq (order : Order) : persistSpans order before new.spans =
    reanchorSpans before (order.select (before.filter fun r ↦ r.sourceId = new.sourceId))
      new.spans := by
  cases hspans : new.spans with
  | nil => exact absurd hspans new.nonempty
  | cons first spans =>
    have hsource : first.sourceId = new.sourceId :=
      new.source first (hspans ▸ List.mem_cons_self)
    rw [persistSpans, hsource]
    split
    · next hnone => rw [hnone, reanchorSpans_nil]
    · rfl

theorem NewSpans.image_persistSpans (order : Order) :
    ∃ rows, Image new (persistSpans order before new.spans) rows := by
  rw [new.persistSpans_eq]
  apply new.image_reanchorSpans
  intro r
  rw [(order.perm _).mem_iff, List.mem_filter, decide_eq_true_eq]

end Images

section Runs

variable {env : Env} {doc : Document} {s : State} {sourceId userId : String}

/-- The ids in the table differ and are all given out. -/
structure State.WF (s : State) : Prop where
  nodup : (s.table.map (·.id)).Nodup
  lt : ∀ r ∈ s.table, r.id < s.next

private theorem lt_of_mem_spans {next : Nat} {r : SourceSpan}
    (h : r ∈ doc.spans env sourceId userId next) :
    next ≤ r.id ∧ r.id < next + (doc.spans env sourceId userId next).length := by
  have hid := List.mem_map_of_mem (f := (·.id)) h
  rw [map_id_spans, List.mem_map] at hid
  obtain ⟨i, hi, heq⟩ := hid
  rw [List.mem_range] at hi
  rw [Document.spans, List.length_mapIdx]
  omega

private theorem spans_ne_nil {next : Nat} (hne : doc.places ≠ []) :
    doc.spans env sourceId userId next ≠ [] := by
  intro hnil
  apply hne
  simpa [Document.spans] using congrArg List.length hnil

/-- The spans of a document are new ones. -/
def State.WF.newSpans (env : Env) (doc : Document) (sourceId userId : String) (h : s.WF)
    (hne : doc.places ≠ []) : NewSpans s.table where
  spans := doc.spans env sourceId userId s.next
  sourceId := sourceId
  nonempty := spans_ne_nil hne
  source := fun _ hnew ↦ (of_mem_spans hnew).1
  current := fun _ hnew ↦ (of_mem_spans hnew).2
  fresh := by
    rw [List.map_append, List.nodup_append]
    refine ⟨h.nodup, nodup_ids_spans, ?_⟩
    intro i hi j hj
    obtain ⟨r, hr, rfl⟩ := List.mem_map.mp hi
    obtain ⟨new, hnew, rfl⟩ := List.mem_map.mp hj
    have hlt := h.lt r hr
    have hle := (lt_of_mem_spans hnew).1
    omega

/-- Ingesting a document keeps the ids apart. -/
theorem State.WF.ingest (h : s.WF) (order : Order) :
    (s.ingest env doc sourceId userId order).WF := by
  by_cases hne : doc.places = []
  · have htable := @ingest_table_of_nil env doc s sourceId userId order hne
    constructor
    · rw [htable]
      exact h.nodup
    · rw [htable]
      exact fun r hr ↦ (h.lt r hr).trans_le (Nat.le_add_right _ _)
  · let new := h.newSpans env doc sourceId userId hne
    obtain ⟨rows, himage⟩ := new.image_persistSpans order
    obtain ⟨added, hsub, hkept⟩ := himage.kept
    rw [← List.map_append] at hkept
    have hids : (s.ingest env doc sourceId userId order).table.map (·.id) =
        (s.table ++ added).map (·.id) := map_id_of_anchor hkept
    constructor
    · rw [hids]
      exact new.fresh.sublist ((hsub.append_left _).map _)
    · intro r hr
      have hid := List.mem_map_of_mem (f := (·.id)) hr
      rw [hids, List.map_append, List.mem_append] at hid
      rcases hid with hid | hid
      · obtain ⟨x, hx, heq⟩ := List.mem_map.mp hid
        rw [← heq]
        exact (h.lt x hx).trans_le (Nat.le_add_right _ _)
      · obtain ⟨x, hx, heq⟩ := List.mem_map.mp hid
        rw [← heq]
        exact (lt_of_mem_spans (hsub.subset hx)).2

end Runs

/-- Persisting new spans, whatever the old rows of their source are, leaves one current row for
each of them. -/
theorem persist_image (order : Order) {before : List SourceSpan} (new : NewSpans before) :
    ∃ rows, Image new (persistSpans order before new.spans) rows :=
  new.image_persistSpans order

end WikiMind.Ingest.Spans
