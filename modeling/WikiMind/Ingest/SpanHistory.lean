import WikiMind.Ingest.SpanImages

/-!
# Spans over a history of ingests

Sources are ingested in any order and as often as their owners like, each time with another
document. The current spans of a source are the paragraphs of its last document, with the places
they have there; the other spans are kept, stale, for the claims that cite them. A document
without paragraphs changes nothing (`ingest/spans.py:256`).
-/

namespace WikiMind.Ingest.Spans

open WikiMind.Base

/-- One ingest: the document of a source, for its owner, and the order in which the database
returns the spans the source has already. -/
structure Ingestion where
  document : Document
  sourceId : String
  userId : String
  order : Order

def State.add (env : Env) (s : State) (i : Ingestion) : State :=
  s.ingest env i.document i.sourceId i.userId i.order

/-- The state after a history of ingests. -/
def history (env : Env) (ingestions : List Ingestion) : State :=
  ingestions.foldl (State.add env) ⟨[], 0⟩

/-- The last document of a source that has paragraphs. -/
def lastDocument (ingestions : List Ingestion) (sourceId : String) : Option Document :=
  (ingestions.reverse.find? fun i ↦ i.sourceId = sourceId ∧ i.document.places ≠ []).map
    (·.document)

/-- The spans of a source that are not stale. -/
def State.current (s : State) (sourceId : String) : List SourceSpan :=
  s.table.filter fun r ↦ r.sourceId = sourceId ∧ r.stale = false

/-- Where a span lies, its text and its fingerprint. -/
def SourceSpan.content (r : SourceSpan) : Locator × List Char × String :=
  (r.locator, r.text, r.fingerprint)

/-- The places of the paragraphs of a document, their texts and fingerprints. -/
def Document.contents (env : Env) (doc : Document) : List (Locator × List Char × String) :=
  doc.places.map fun place ↦ (place.1, place.2, computeFingerprint env place.2)

/-- What no later ingest changes of a span. -/
def SourceSpan.origin (r : SourceSpan) : Nat × String × String × LocatorKind × String :=
  (r.id, r.sourceId, r.userId, r.locatorKind, r.fingerprint)

section Step

variable {env : Env} {doc : Document} {s : Matching} {old table news : List SourceSpan}
  {new r : SourceSpan} {sourceId userId : String} {other : String}

private theorem map_content_spans (next : Nat) :
    (doc.spans env sourceId userId next).map SourceSpan.content = doc.contents env := by
  unfold Document.spans Document.contents
  apply List.ext_getElem
  · simp
  · simp [SourceSpan.content]

/-- A step adds the new span, or changes no origin. -/
theorem origins_add : (Matching.add old s new).table.map SourceSpan.origin =
      s.table.map SourceSpan.origin ∨
    (Matching.add old s new).table = s.table ++ [new] := by
  cases h : found old new with
  | none => exact .inr (by rw [add_of_not_found h])
  | some r =>
    by_cases hr : r.id ∈ s.matched
    · exact .inr (by rw [add_of_matched h hr])
    · rw [add_of_unmatched h hr]
      exact .inl (Rows.map_modify fun _ _ _ ↦ rfl)

private theorem origins_foldl_add : ∃ added : List SourceSpan, added.Sublist news ∧
    (news.foldl (Matching.add old) s).table.map SourceSpan.origin =
      s.table.map SourceSpan.origin ++ added.map SourceSpan.origin := by
  induction news generalizing s with
  | nil => exact ⟨[], List.Sublist.refl _, by simp⟩
  | cons new news ih =>
    obtain ⟨added, hsub, heq⟩ := @ih (Matching.add old s new)
    rw [List.foldl_cons, heq]
    rcases @origins_add s old new with h | h
    · rw [h]
      exact ⟨added, hsub.cons _, rfl⟩
    · rw [h]
      exact ⟨new :: added, hsub.cons_cons _, by simp⟩

/-- A property of all rows is kept by a step when the new span has it and the span that is taken
keeps it. -/
theorem forall_add {P : SourceSpan → Prop} (h : ∀ x ∈ s.table, P x) (hnew : P new)
    (htake : ∀ r, found old new = some r → ∀ x ∈ s.table, x.id = r.id → P x →
      P { x with locator := new.locator, text := new.text, stale := false }) :
    ∀ x ∈ (Matching.add old s new).table, P x := by
  have hadded : ∀ x ∈ s.table ++ [new], P x := by
    intro x hx
    rcases List.mem_append.mp hx with hx | hx
    · exact h x hx
    · rwa [List.mem_singleton.mp hx]
  cases hfound : found old new with
  | none => rwa [add_of_not_found hfound]
  | some r =>
    by_cases hr : r.id ∈ s.matched
    · rwa [add_of_matched hfound hr]
    · rw [add_of_unmatched hfound hr]
      exact Rows.forall_modify.mpr
        ⟨fun x hx hid ↦ htake r hfound x hx (of_decide_eq_true hid) (h x hx), fun x hx _ ↦ h x hx⟩

/-- The rows with the id of an old row have its source and its fingerprint. -/
def Linked (old table : List SourceSpan) : Prop :=
  ∀ x ∈ table, ∀ r ∈ old, x.id = r.id → x.sourceId = r.sourceId ∧ x.fingerprint = r.fingerprint

/-- The rows have the fingerprints of their texts. -/
def Fingerprinted (env : Env) (table : List SourceSpan) : Prop :=
  ∀ x ∈ table, x.fingerprint = computeFingerprint env x.text

theorem Linked.add (h : Linked old s.table) (hnew : ∀ r ∈ old, new.id ≠ r.id) :
    Linked old (Matching.add old s new).table :=
  forall_add h (fun r hr hid ↦ absurd hid (hnew r hr)) fun _ _ _ _ _ hx ↦ hx

theorem Fingerprinted.add (h : Fingerprinted env s.table) (hlinked : Linked old s.table)
    (hnew : new.fingerprint = computeFingerprint env new.text) :
    Fingerprinted env (Matching.add old s new).table := by
  refine forall_add h hnew fun r hfound x hx hid _ ↦ ?_
  obtain ⟨hr, hfingerprint⟩ := found_spec hfound
  exact (hlinked x hx r hr hid).2.trans (hfingerprint.trans hnew)

/-- A step leaves the rows of other sources alone. -/
theorem filter_add (hlinked : Linked old s.table) (hold : ∀ r ∈ old, r.sourceId = sourceId)
    (hnew : new.sourceId = sourceId) (hne : other ≠ sourceId) :
    (Matching.add old s new).table.filter (fun x ↦ x.sourceId = other) =
      s.table.filter fun x ↦ x.sourceId = other := by
  have hnone : [new].filter (fun x ↦ x.sourceId = other) = [] := by
    rw [List.filter_singleton, hnew, decide_eq_false (Ne.symm hne)]
    rfl
  cases hfound : found old new with
  | none => rw [add_of_not_found hfound, List.filter_append, hnone, List.append_nil]
  | some r =>
    by_cases hr : r.id ∈ s.matched
    · rw [add_of_matched hfound hr, List.filter_append, hnone, List.append_nil]
    · rw [add_of_unmatched hfound hr]
      apply Rows.filter_modify_other
      intro x hx hid
      have hmem := (found_spec hfound).1
      have hsource := (hlinked x hx r hmem (of_decide_eq_true hid)).1.trans (hold r hmem)
      have hx' : decide (x.sourceId = other) = false :=
        decide_eq_false fun heq ↦ hne (heq.symm.trans hsource)
      exact ⟨hx', hx'⟩

/-- What the matching keeps, from its start to its end. -/
theorem matching_foldl (hlinked : Linked old s.table) (hfps : Fingerprinted env s.table)
    (hold : ∀ r ∈ old, r.sourceId = sourceId)
    (hnew : ∀ n ∈ news, n.sourceId = sourceId ∧
      n.fingerprint = computeFingerprint env n.text ∧ ∀ r ∈ old, n.id ≠ r.id) :
    Linked old (news.foldl (Matching.add old) s).table ∧
      Fingerprinted env (news.foldl (Matching.add old) s).table ∧
      ∀ other ≠ sourceId,
        (news.foldl (Matching.add old) s).table.filter (fun x ↦ x.sourceId = other) =
          s.table.filter fun x ↦ x.sourceId = other := by
  induction news generalizing s with
  | nil => exact ⟨hlinked, hfps, fun _ _ ↦ rfl⟩
  | cons n news ih =>
    obtain ⟨hsource, hfingerprint, hid⟩ := hnew n List.mem_cons_self
    rw [List.foldl_cons]
    obtain ⟨hlinked', hfps', hfilter⟩ := ih (hlinked.add hid) (hfps.add hlinked hfingerprint)
      fun m hm ↦ hnew m (List.mem_cons_of_mem _ hm)
    exact ⟨hlinked', hfps', fun other hne ↦
      (hfilter other hne).trans (filter_add hlinked hold hsource hne)⟩

/-- While the fingerprints of the new spans differ, exactly those are added that no old row has. -/
theorem origins_foldl_of_nodup (hids : (old.map (·.id)).Nodup)
    (hmatched : ∀ r ∈ old, r.id ∈ s.matched → r.fingerprint ∉ news.map (·.fingerprint))
    (hnodup : (news.map (·.fingerprint)).Nodup) :
    (news.foldl (Matching.add old) s).table.map SourceSpan.origin =
      s.table.map SourceSpan.origin ++
        (news.filter fun n ↦ (found old n).isNone).map SourceSpan.origin := by
  induction news generalizing s with
  | nil => simp
  | cons new news ih =>
    rw [List.map_cons, List.nodup_cons] at hnodup
    rw [List.foldl_cons]
    have hlater : ∀ r ∈ old, r.id ∈ s.matched → r.fingerprint ∉ news.map (·.fingerprint) :=
      fun r hr hmem hfp ↦ hmatched r hr hmem (List.mem_cons_of_mem _ hfp)
    cases hfound : found old new with
    | none =>
      rw [add_of_not_found hfound, ih (s := ⟨s.table ++ [new], s.matched⟩) hlater hnodup.2]
      simp [hfound]
    | some r =>
      obtain ⟨hr, hfingerprint⟩ := found_spec hfound
      have hfree : r.id ∉ s.matched := by
        intro hmem
        apply hmatched r hr hmem
        rw [hfingerprint]
        exact List.mem_cons_self
      rw [add_of_unmatched hfound hfree, ih ?_ hnodup.2]
      · have hkept : (Rows.modify (fun x ↦ x.id = r.id)
            (fun x ↦ { x with locator := new.locator, text := new.text, stale := false })
            s.table).map SourceSpan.origin = s.table.map SourceSpan.origin :=
          Rows.map_modify fun _ _ _ ↦ rfl
        rw [hkept, List.filter_cons, hfound]
        rfl
      · intro x hx hmem
        rcases List.mem_cons.mp hmem with heq | hmem
        · rw [Rows.eq_of_nodup hids hr hx heq, hfingerprint]
          exact hnodup.1
        · exact hlater x hx hmem

end Step

section Persist

variable {env : Env} {before : List SourceSpan} (new : NewSpans before) (order : Order)

/-- The rows that a source has when new spans of it are persisted. -/
theorem NewSpans.mem_select {r : SourceSpan} :
    r ∈ order.select (before.filter fun x ↦ x.sourceId = new.sourceId) ↔
      r ∈ before ∧ r.sourceId = new.sourceId := by
  rw [(order.perm _).mem_iff, List.mem_filter, decide_eq_true_eq]

/-- Persisting spans changes no origin and adds some of the new ones. -/
theorem NewSpans.origins : ∃ added : List SourceSpan, added.Sublist new.spans ∧
    (persistSpans order before new.spans).map SourceSpan.origin =
      before.map SourceSpan.origin ++ added.map SourceSpan.origin := by
  rw [new.persistSpans_eq]
  obtain ⟨added, hsub, heq⟩ := @origins_foldl_add ⟨before, []⟩
    (order.select (before.filter fun r ↦ r.sourceId = new.sourceId)) new.spans
  have hkept : (reanchorSpans before
      (order.select (before.filter fun r ↦ r.sourceId = new.sourceId)) new.spans).map
        SourceSpan.origin = (new.spans.foldl (Matching.add (order.select
          (before.filter fun r ↦ r.sourceId = new.sourceId))) ⟨before, []⟩).table.map
            SourceSpan.origin := Rows.map_modify fun _ _ _ ↦ rfl
  exact ⟨added, hsub, hkept.trans heq⟩

theorem NewSpans.linked (hnodup : (before.map (·.id)).Nodup) :
    Linked (order.select (before.filter fun r ↦ r.sourceId = new.sourceId)) before := by
  intro x hx r hr hid
  have hsame : r = x := Rows.eq_of_nodup hnodup hx ((new.mem_select order).mp hr).1 hid.symm
  exact ⟨by rw [hsame], by rw [hsame]⟩

private theorem NewSpans.id_ne {n r : SourceSpan} (hn : n ∈ new.spans) (hr : r ∈ before) :
    n.id ≠ r.id := by
  have hfresh := new.fresh
  rw [List.map_append, List.nodup_append] at hfresh
  exact fun heq ↦ hfresh.2.2 _ (List.mem_map_of_mem hr) _ (List.mem_map_of_mem hn) heq.symm

/-- Persisting spans of one source leaves the others alone, and texts with their fingerprints. -/
theorem NewSpans.frame (hfps : Fingerprinted env before)
    (hnew : ∀ n ∈ new.spans, n.fingerprint = computeFingerprint env n.text) :
    Fingerprinted env (persistSpans order before new.spans) ∧
      ∀ other ≠ new.sourceId,
        (persistSpans order before new.spans).filter (fun x ↦ x.sourceId = other) =
          before.filter fun x ↦ x.sourceId = other := by
  have hnodup : (before.map (·.id)).Nodup := by
    have hfresh := new.fresh
    rw [List.map_append] at hfresh
    exact hfresh.of_append_left
  have hold : ∀ r ∈ order.select (before.filter fun r ↦ r.sourceId = new.sourceId),
      r.sourceId = new.sourceId := fun r hr ↦ ((new.mem_select order).mp hr).2
  obtain ⟨hlinked, hfps', hfilter⟩ := @matching_foldl env ⟨before, []⟩ _ _ _
    (new.linked order hnodup) hfps hold fun n hn ↦
      ⟨new.source n hn, hnew n hn, fun r hr ↦ new.id_ne hn ((new.mem_select order).mp hr).1⟩
  rw [new.persistSpans_eq]
  unfold reanchorSpans
  refine ⟨Rows.forall_modify.mpr ⟨fun x hx _ ↦ hfps' x hx, fun x hx _ ↦ hfps' x hx⟩,
    fun other hne ↦ ?_⟩
  refine (Rows.filter_modify_other fun x hx hstale ↦ ?_).trans (hfilter other hne)
  obtain ⟨hmem, -⟩ := of_decide_eq_true hstale
  obtain ⟨r, hr, hid⟩ := List.mem_map.mp hmem
  have hsource := (hlinked x hx r hr hid.symm).1.trans (hold r hr)
  have hx' : decide (x.sourceId = other) = false :=
    decide_eq_false fun heq ↦ hne (heq.symm.trans hsource)
  exact ⟨hx', hx'⟩

/-- The fingerprints of the spans of a source. -/
def fingerprintsOf (table : List SourceSpan) (sourceId : String) : List String :=
  (table.filter fun r ↦ r.sourceId = sourceId).map (·.fingerprint)

private theorem fingerprintsOf_origins (table : List SourceSpan) (sourceId : String) :
    fingerprintsOf table sourceId =
      ((table.map SourceSpan.origin).filter fun o ↦ o.2.1 = sourceId).map fun o ↦ o.2.2.2.2 := by
  unfold fingerprintsOf
  rw [List.filter_map, List.map_map]
  rfl

/-- Spans with different fingerprints leave those of their source different. -/
theorem NewSpans.nodup_fingerprints (hdistinct : (new.spans.map (·.fingerprint)).Nodup)
    (hbefore : (fingerprintsOf before new.sourceId).Nodup) :
    (fingerprintsOf (persistSpans order before new.spans) new.sourceId).Nodup := by
  have hfresh := new.fresh
  rw [List.map_append] at hfresh
  let old := order.select (before.filter fun r ↦ r.sourceId = new.sourceId)
  have hids : (old.map (·.id)).Nodup :=
    ((order.perm _).map _).nodup_iff.mpr (hfresh.of_append_left.sublist (List.filter_sublist.map _))
  have horigins := @origins_foldl_of_nodup ⟨before, []⟩ old new.spans hids
    (fun _ _ hmem ↦ absurd hmem List.not_mem_nil) hdistinct
  have hkept : (reanchorSpans before old new.spans).map SourceSpan.origin =
      (new.spans.foldl (Matching.add old) ⟨before, []⟩).table.map SourceSpan.origin :=
    Rows.map_modify fun _ _ _ ↦ rfl
  have hadded : ∀ n ∈ new.spans.filter fun n ↦ (found old n).isNone,
      n.fingerprint ∉ fingerprintsOf before new.sourceId := by
    intro n hn hmem
    obtain ⟨r, hr, heq⟩ := List.mem_map.mp hmem
    have hnone := List.find?_eq_none.mp
      (Option.isNone_iff_eq_none.mp (List.mem_filter.mp hn).2) r ((order.perm _).mem_iff.mpr hr)
    exact hnone (decide_eq_true heq)
  have hall : (new.spans.filter fun n ↦ (found old n).isNone).filter
      (fun n ↦ n.sourceId = new.sourceId) = new.spans.filter fun n ↦ (found old n).isNone := by
    rw [List.filter_eq_self]
    intro n hn
    exact decide_eq_true (new.source n (List.mem_filter.mp hn).1)
  have heq : fingerprintsOf (persistSpans order before new.spans) new.sourceId =
      fingerprintsOf before new.sourceId ++
        (new.spans.filter fun n ↦ (found old n).isNone).map (·.fingerprint) := by
    rw [new.persistSpans_eq, fingerprintsOf_origins, hkept, horigins, List.filter_append,
      List.map_append, ← fingerprintsOf_origins, ← fingerprintsOf_origins]
    unfold fingerprintsOf
    rw [hall]
  rw [heq, List.nodup_append]
  refine ⟨hbefore, hdistinct.sublist (List.filter_sublist.map _), fun f hf f' hf' hsame ↦ ?_⟩
  obtain ⟨n, hn, rfl⟩ := List.mem_map.mp hf'
  exact hadded n hn (hsame ▸ hf)

end Persist

section Histories

variable {env : Env} {s : State} {ingestions : List Ingestion}

/-- What holds of the table whatever was ingested. -/
structure State.Sound (env : Env) (s : State) : Prop extends s.WF where
  fingerprints : Fingerprinted env s.table

private theorem fingerprint_of_mem_spans {doc : Document} {sourceId userId : String} {next : Nat}
    {r : SourceSpan} (h : r ∈ doc.spans env sourceId userId next) :
    r.fingerprint = computeFingerprint env r.text := by
  obtain ⟨i, hi, rfl⟩ := List.mem_mapIdx.mp h
  rfl

private theorem map_content_of_carries {rows spans : List SourceSpan}
    (h : List.Forall₂ Carries rows spans) :
    rows.map SourceSpan.content = spans.map SourceSpan.content := by
  induction h with
  | nil => rfl
  | cons hrow _ ih =>
    rw [List.map_cons, List.map_cons, ih]
    simp only [SourceSpan.content, hrow.locator, hrow.text, hrow.fingerprint]

private theorem current_eq_filter (table : List SourceSpan) (sourceId : String) :
    table.filter (fun r ↦ r.sourceId = sourceId ∧ r.stale = false) =
      (table.filter fun r ↦ r.sourceId = sourceId).filter fun r ↦ r.stale = false := by
  rw [List.filter_filter]
  apply List.filter_congr
  intro r _
  simp only [Bool.decide_and, Bool.and_comm]

/-- An ingest of a document with paragraphs makes them the current spans of its source, and leaves
those of other sources. -/
theorem State.Sound.add (h : s.Sound env) (i : Ingestion) :
    (s.add env i).Sound env ∧
      (i.document.places = [] → (s.add env i).table = s.table) ∧
      (i.document.places ≠ [] →
        (((s.add env i).current i.sourceId).map SourceSpan.content).Perm
          (i.document.contents env) ∧
        ∀ other ≠ i.sourceId, (s.add env i).current other = s.current other) := by
  have hwf : (s.add env i).WF := h.toWF.ingest i.order
  by_cases hne : i.document.places = []
  · have htable : (s.add env i).table = s.table := ingest_table_of_nil i.order hne
    refine ⟨⟨hwf, ?_⟩, fun _ ↦ htable, fun hplaces ↦ absurd hne hplaces⟩
    rw [htable]
    exact h.fingerprints
  · let new := h.toWF.newSpans env i.document i.sourceId i.userId hne
    have htable : (s.add env i).table = persistSpans i.order s.table new.spans := rfl
    obtain ⟨hfps, hframe⟩ := new.frame i.order h.fingerprints
      fun n hn ↦ fingerprint_of_mem_spans hn
    obtain ⟨rows, himage⟩ := new.image_persistSpans i.order
    refine ⟨⟨hwf, hfps⟩, fun hplaces ↦ absurd hplaces hne, fun _ ↦ ⟨?_, fun other hother ↦ ?_⟩⟩
    · have hcontents : new.spans.map SourceSpan.content = i.document.contents env :=
        map_content_spans _
      rw [← hcontents, ← map_content_of_carries himage.carries]
      exact himage.current.map _
    · unfold State.current
      rw [htable, current_eq_filter, hframe other hother, ← current_eq_filter]

private theorem history_concat (i : Ingestion) :
    history env (ingestions ++ [i]) = (history env ingestions).add env i := by
  rw [history, List.foldl_append]
  rfl

private theorem lastDocument_concat (i : Ingestion) (sourceId : String) :
    lastDocument (ingestions ++ [i]) sourceId =
      if i.sourceId = sourceId ∧ i.document.places ≠ [] then some i.document
      else lastDocument ingestions sourceId := by
  unfold lastDocument
  rw [List.reverse_append, List.reverse_singleton, List.singleton_append, List.find?_cons]
  split
  · next h => rw [if_pos (of_decide_eq_true h), Option.map_some]
  · next h => rw [if_neg (of_decide_eq_false h)]

theorem sound_history : (history env ingestions).Sound env := by
  induction ingestions using List.reverseRecOn with
  | nil =>
    refine ⟨⟨List.nodup_nil, ?_⟩, ?_⟩
    · intro r hr
      cases hr
    · intro r hr
      cases hr
  | append_singleton ingestions i ih =>
    rw [history_concat]
    exact (ih.add i).1

/-- The current spans of a source are the paragraphs of its last document with paragraphs, each
with its place, its text and its fingerprint, and as often as there. -/
theorem current_spans (env : Env) (ingestions : List Ingestion) (sourceId : String) :
    (((history env ingestions).current sourceId).map SourceSpan.content).Perm
      ((lastDocument ingestions sourceId).elim [] (Document.contents env)) := by
  induction ingestions using List.reverseRecOn with
  | nil => exact List.Perm.refl _
  | append_singleton ingestions i ih =>
    obtain ⟨-, hempty, hadd⟩ := sound_history.add (s := history env ingestions) i
    rw [history_concat, lastDocument_concat]
    by_cases hne : i.document.places = []
    · rw [if_neg fun h ↦ h.2 hne]
      unfold State.current
      rw [hempty hne]
      exact ih
    · obtain ⟨hperm, hother⟩ := hadd hne
      by_cases hsource : i.sourceId = sourceId
      · rw [if_pos ⟨hsource, hne⟩, ← hsource]
        exact hperm
      · rw [if_neg fun h ↦ hsource h.1, hother sourceId (Ne.symm hsource)]
        exact ih

private theorem State.Sound.origins_add (h : s.Sound env) (i : Ingestion) :
    ∃ added : List SourceSpan, (s.add env i).table.map SourceSpan.origin =
      s.table.map SourceSpan.origin ++ added.map SourceSpan.origin := by
  by_cases hne : i.document.places = []
  · exact ⟨[], by rw [(h.add i).2.1 hne]; simp⟩
  · obtain ⟨added, -, heq⟩ :=
      (h.toWF.newSpans env i.document i.sourceId i.userId hne).origins i.order
    exact ⟨added, heq⟩

private theorem origins_history (past later : List Ingestion) :
    ∃ added : List SourceSpan, (history env (past ++ later)).table.map SourceSpan.origin =
      (history env past).table.map SourceSpan.origin ++ added.map SourceSpan.origin := by
  induction later using List.reverseRecOn with
  | nil => exact ⟨[], by simp⟩
  | append_singleton later i ih =>
    obtain ⟨added, hadded⟩ := ih
    obtain ⟨more, hmore⟩ :=
      (@sound_history env (past ++ later)).origins_add i
    refine ⟨added ++ more, ?_⟩
    rw [← List.append_assoc, history_concat, hmore, hadded, List.map_append, List.append_assoc]

/-- A span is never lost, and keeps its source, its owner and its fingerprint, which stays that of
its text. -/
theorem exists_later {past : List Ingestion} (later : List Ingestion) {r : SourceSpan}
    (hr : r ∈ (history env past).table) :
    ∃ r' ∈ (history env (past ++ later)).table, r'.origin = r.origin ∧
      computeFingerprint env r'.text = computeFingerprint env r.text := by
  obtain ⟨added, hadded⟩ := @origins_history env past later
  have hmem : r.origin ∈ (history env (past ++ later)).table.map SourceSpan.origin := by
    rw [hadded]
    exact List.mem_append_left _ (List.mem_map_of_mem hr)
  obtain ⟨r', hr', horigin⟩ := List.mem_map.mp hmem
  refine ⟨r', hr', horigin, ?_⟩
  rw [← sound_history.fingerprints r hr, ← sound_history.fingerprints r' hr']
  simp only [SourceSpan.origin, Prod.mk.injEq] at horigin
  exact horigin.2.2.2.2

/-- Documents none of which has two paragraphs with one fingerprint. -/
def Distinct (env : Env) (ingestions : List Ingestion) : Prop :=
  ∀ i ∈ ingestions, (i.document.fingerprints env).Nodup

private theorem nodup_fingerprints_history (hdistinct : Distinct env ingestions)
    (sourceId : String) :
    (fingerprintsOf (history env ingestions).table sourceId).Nodup := by
  induction ingestions using List.reverseRecOn with
  | nil => exact List.nodup_nil
  | append_singleton ingestions i ih =>
    have hbefore := ih fun j hj ↦ hdistinct j (List.mem_append_left _ hj)
    have hsound := @sound_history env ingestions
    rw [history_concat]
    by_cases hne : i.document.places = []
    · rw [(hsound.add i).2.1 hne]
      exact hbefore
    · let new := hsound.toWF.newSpans env i.document i.sourceId i.userId hne
      have hfps : (new.spans.map (·.fingerprint)).Nodup := by
        have hspans : new.spans.map (·.fingerprint) = i.document.fingerprints env :=
          map_fingerprint_spans
        rw [hspans]
        exact hdistinct i (List.mem_append_right _ List.mem_cons_self)
      by_cases hsource : sourceId = i.sourceId
      · subst hsource
        exact new.nodup_fingerprints i.order hfps hbefore
      · have hframe := (new.frame i.order hsound.fingerprints
          fun n hn ↦ fingerprint_of_mem_spans hn).2 sourceId hsource
        unfold fingerprintsOf
        have htable : ((history env ingestions).add env i).table =
            persistSpans i.order (history env ingestions).table new.spans := rfl
        rw [htable, hframe]
        exact hbefore

/-- A span whose fingerprint the last document of its source lacks is stale; where the fingerprints
of each document differ, no other span is. -/
theorem stale_of_gone {r : SourceSpan} (hr : r ∈ (history env ingestions).table)
    (hgone : ∀ doc, lastDocument ingestions r.sourceId = some doc →
      r.fingerprint ∉ doc.fingerprints env) : r.stale = true := by
  by_contra hstale
  rw [Bool.not_eq_true] at hstale
  have hcurrent : r ∈ (history env ingestions).current r.sourceId :=
    List.mem_filter.mpr ⟨hr, decide_eq_true ⟨rfl, hstale⟩⟩
  have hcontent := (current_spans env ingestions r.sourceId).subset
    (List.mem_map_of_mem (f := SourceSpan.content) hcurrent)
  cases hlast : lastDocument ingestions r.sourceId with
  | none =>
    rw [hlast] at hcontent
    cases hcontent
  | some doc =>
    rw [hlast] at hcontent
    obtain ⟨place, hplace, heq⟩ := List.mem_map.mp hcontent
    simp only [SourceSpan.content, Prod.mk.injEq] at heq
    apply hgone doc hlast
    rw [← heq.2.2]
    exact List.mem_map_of_mem hplace

theorem stale_iff (hdistinct : Distinct env ingestions) {r : SourceSpan}
    (hr : r ∈ (history env ingestions).table) :
    r.stale = true ↔ ∀ doc, lastDocument ingestions r.sourceId = some doc →
      r.fingerprint ∉ doc.fingerprints env := by
  refine ⟨fun hstale doc hlast hmem ↦ ?_, stale_of_gone hr⟩
  obtain ⟨place, hplace, heq⟩ := List.mem_map.mp hmem
  have hcontent : (place.1, place.2, computeFingerprint env place.2) ∈
      ((lastDocument ingestions r.sourceId).elim [] (Document.contents env)) := by
    rw [hlast]
    exact List.mem_map_of_mem (f := fun p ↦ (p.1, p.2, computeFingerprint env p.2)) hplace
  obtain ⟨x, hx, hxc⟩ := List.mem_map.mp
    ((current_spans env ingestions r.sourceId).symm.subset hcontent)
  simp only [SourceSpan.content, Prod.mk.injEq] at hxc
  obtain ⟨hxmem, hxprop⟩ := List.mem_filter.mp hx
  obtain ⟨hxsource, hxstale⟩ := of_decide_eq_true hxprop
  -- both spans are of the source and have the fingerprint
  have hsame : x = r := by
    refine Rows.eq_of_nodup (nodup_fingerprints_history hdistinct r.sourceId)
      (List.mem_filter.mpr ⟨hr, decide_eq_true rfl⟩)
      (List.mem_filter.mpr ⟨hxmem, decide_eq_true hxsource⟩) ?_
    exact hxc.2.2.trans heq
  rw [hsame, hstale] at hxstale
  cases hxstale

end Histories

end WikiMind.Ingest.Spans
