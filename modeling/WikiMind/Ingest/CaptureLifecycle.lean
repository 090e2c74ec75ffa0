import WikiMind.Ingest.Captures

/-!
# Ended captures stay as they ended

The system of the capture requests keeps the lifecycle `captured → triaged → ingested |
discarded` of `models/tables/capture.py:20` in the runs whose requests come in turn. What the
requests know of the committed rows is proved kept by every step; that an ended capture keeps
its status, names its source and was ingested once follows.
-/

namespace WikiMind.Ingest.Captures

open WikiMind.Base WikiMind.Ingest

variable {server : Server} {sha256 : String → String}

/-- The loaded row is that of a capture, which has not ended the other way since. -/
structure Holds (captures : List CaptureSource) (data : Request) (row : CaptureSource) : Prop where
  captureId : data.captureId? = some row.id
  stored : ∃ c ∈ captures, c.item = row.item
  status : ∀ c ∈ captures, c.id = row.id → c.status ≠ data.opposite
  loaded : data.isIngest = true → row.status ≠ .ingested ∧ row.sourceId = none

/-- What an ingest knows of the sources; none is about to delete one. -/
def Knows (sha256 : String → String) (t : Tables) : Phase → Prop
  | .clearing .. => False
  | .cleared row contentHash => row.id ∉ t.made ∧ IsContent sha256 t.served row contentHash
  | .inserted row sourceId =>
    sourceId < t.nextSource ∧ ∀ source ∈ t.sources, source.id = sourceId →
      source.userId = row.userId ∧ IsContent sha256 t.served row source.contentHash
  | .found row sourceId =>
    ∃ source ∈ t.sources, source.id = sourceId ∧ MadeFrom sha256 t.served row source
  | .started | .checked | .loaded _ | .ended | .failed => True

/-- The owner of a capture has a source of its content. -/
def Tables.HasContent (sha256 : String → String) (t : Tables) (c : CaptureSource) : Prop :=
  ∃ source ∈ t.sources, source.userId = c.userId ∧ IsContent sha256 t.served c source.contentHash

/-- The committed rows are sound, and a source that was made from a capture is still there. -/
structure Tables.Kept (sha256 : String → String) (t : Tables) : Prop where
  captureIds : (t.captures.map (·.id)).Nodup
  captureNext : ∀ c ∈ t.captures, c.id < t.nextCapture
  sourceIds : (t.sources.map (·.id)).Nodup
  sourceNext : ∀ source ∈ t.sources, source.id < t.nextSource
  named : ∀ c ∈ t.captures, t.Named sha256 c
  unnamed : ∀ c ∈ t.captures, c.status ≠ .ingested → c.sourceId = none
  made : t.made.Nodup
  madeNext : ∀ captureId ∈ t.made, captureId < t.nextCapture
  sourced : ∀ c ∈ t.captures, c.id ∈ t.made → t.HasContent sha256 c

/-- What one request relies on. -/
structure Relies (sha256 : String → String) (t : Tables) (q : Party Request Phase) : Prop where
  holds : ∀ row ∈ q.phase.row?, Holds t.captures q.data row
  knows : Knows sha256 t q.phase
  ingests : ∀ row ∈ q.phase.row?, q.phase = .loaded row ∨ q.data.isIngest = true

/-- The invariant of the runs in turn. -/
structure State.Kept (sha256 : String → String) (s : State) : Prop where
  distinct : s.requests.Distinct
  tables : s.toTables.Kept sha256
  relies : ∀ q ∈ s.requests, Relies sha256 s.toTables q
  sameKind : ∀ q ∈ s.requests, ∀ row ∈ q.phase.row?, SameKind s.requests q row
  creating : s.requests.AtMostOne Phase.isCreating Request.captureId?

/-- What the sources of one moment still say at a later one: rows only come with new numbers,
they stay and keep their files, and so do the pages fetched. -/
structure Tables.Extends (t t' : Tables) : Prop where
  served : ∀ fetched ∈ t.served, fetched ∈ t'.served
  next : t.nextSource ≤ t'.nextSource
  back : ∀ source' ∈ t'.sources, source'.id < t.nextSource →
    ∃ source ∈ t.sources, source.id = source'.id ∧ source.userId = source'.userId ∧
      source.contentHash = source'.contentHash
  stay : ∀ source ∈ t.sources, ∃ source' ∈ t'.sources, source'.id = source.id ∧
    source'.userId = source.userId ∧ source'.contentHash = source.contentHash ∧
      (source.hasFile = true → source'.hasFile = true)

section
variable {t t' : Tables} {s : State} {q : Party Request Phase} {c row : CaptureSource}
  {phase : Phase} {contentHash : String} {sourceId : Nat}

theorem IsContent.mono {served served' : List (String × String)}
    (h : IsContent sha256 served c contentHash) (hserved : ∀ fetched ∈ served, fetched ∈ served') :
    IsContent sha256 served' c contentHash := by
  unfold IsContent at h ⊢
  split at h
  · exact h
  · obtain ⟨fetched, hfetched, hpage⟩ := h
    exact ⟨fetched, hserved fetched hfetched, hpage⟩

/-- A source made from a capture is found again. -/
theorem Tables.Extends.madeFrom (h : t.Extends t')
    (hmade : ∃ source ∈ t.sources, source.id = sourceId ∧ MadeFrom sha256 t.served c source) :
    ∃ source ∈ t'.sources, source.id = sourceId ∧ MadeFrom sha256 t'.served c source := by
  obtain ⟨source, hsource, rfl, huser, hfile, hcontent⟩ := hmade
  obtain ⟨source', hsource', hid, huser', hhash, hfile'⟩ := h.stay source hsource
  refine ⟨source', hsource', hid, huser'.trans huser, hfile' hfile, ?_⟩
  rw [hhash]
  exact hcontent.mono h.served

theorem Tables.Extends.hasContent (h : t.Extends t') (hc : t.HasContent sha256 c) :
    t'.HasContent sha256 c := by
  obtain ⟨source, hsource, huser, hcontent⟩ := hc
  obtain ⟨source', hsource', _, huser', hhash, _⟩ := h.stay source hsource
  refine ⟨source', hsource', huser'.trans huser, ?_⟩
  rw [hhash]
  exact hcontent.mono h.served

private theorem named_iff : t.Named sha256 c ↔ c.status = .ingested →
    ∃ sourceId, c.sourceId = some sourceId ∧
      ∃ source ∈ t.sources, source.id = sourceId ∧ MadeFrom sha256 t.served c source := by
  unfold Tables.Named
  apply imp_congr_right
  intro _
  constructor
  · rintro ⟨source, hsource, hid, hmade⟩
    exact ⟨source.id, hid, source, hsource, rfl, hmade⟩
  · rintro ⟨_, hid, source, hsource, rfl, hmade⟩
    exact ⟨source, hsource, hid, hmade⟩

theorem Tables.Extends.named (h : t.Extends t') (hc : t.Named sha256 c) : t'.Named sha256 c := by
  rw [named_iff] at hc ⊢
  intro hstatus
  obtain ⟨sourceId, hid, hmade⟩ := hc hstatus
  exact ⟨sourceId, hid, h.madeFrom hmade⟩

/-- What an ingest knows stays true as the sources go on, if nobody ingests its capture. -/
theorem Tables.Extends.knows (h : t.Extends t') (hknows : Knows sha256 t phase)
    (hmade : phase.isCreating = true → ∀ row ∈ phase.row?, row.id ∉ t.made → row.id ∉ t'.made) :
    Knows sha256 t' phase := by
  cases phase with
  | clearing row contentHash sourceId => exact hknows.elim
  | cleared row contentHash =>
    obtain ⟨hnew, hcontent⟩ := hknows
    exact ⟨hmade rfl row rfl hnew, hcontent.mono h.served⟩
  | inserted row sourceId =>
    obtain ⟨hnext, hown⟩ := hknows
    refine ⟨Nat.lt_of_lt_of_le hnext h.next, fun source' hsource' hid ↦ ?_⟩
    obtain ⟨source, hsource, hid', huser, hhash⟩ := h.back source' hsource' (hid ▸ hnext)
    obtain ⟨hown, hcontent⟩ := hown source hsource (hid'.trans hid)
    exact ⟨huser.symm.trans hown, hhash ▸ hcontent.mono h.served⟩
  | found row sourceId => exact h.madeFrom hknows
  | started => trivial
  | checked => trivial
  | loaded row => trivial
  | ended => trivial
  | failed => trivial

/-- The sources go on while the captures stay. -/
theorem Tables.Extends.kept (h : t.Extends t') (ht : t.Kept sha256)
    (hcaptures : t'.captures = t.captures) (hnext : t'.nextCapture = t.nextCapture)
    (hids : (t'.sources.map (·.id)).Nodup) (hnew : ∀ source ∈ t'.sources, source.id < t'.nextSource)
    (hmade : t'.made.Nodup) (hmadeNext : ∀ captureId ∈ t'.made, captureId < t'.nextCapture)
    (hsourced : ∀ c ∈ t.captures, c.id ∈ t'.made → c.id ∉ t.made → t'.HasContent sha256 c) :
    t'.Kept sha256 where
  captureIds := hcaptures ▸ ht.captureIds
  captureNext := by
    rw [hcaptures, hnext]
    exact ht.captureNext
  sourceIds := hids
  sourceNext := hnew
  named := by
    rw [hcaptures]
    exact fun c hc ↦ h.named (ht.named c hc)
  unnamed := hcaptures ▸ ht.unnamed
  made := hmade
  madeNext := hmadeNext
  sourced := by
    rw [hcaptures]
    intro c hc hmade'
    by_cases hold : c.id ∈ t.made
    · exact h.hasContent (ht.sourced c hc hold)
    · exact hsourced c hc hmade' hold

/-- A request goes on while the committed rows go on. -/
theorem State.Kept.next (hs : s.Kept sha256) (hq : q ∈ s.requests) (ht : t.Kept sha256)
    (hothers : ∀ q' ∈ s.requests, q'.id ≠ q.id → Relies sha256 t q')
    (hself : Relies sha256 t { q with phase })
    (hkind : ∀ row ∈ phase.row?, SameKind s.requests q row)
    (hcreating : phase.isCreating = true → s.requests.Alone Phase.isCreating Request.captureId? q) :
    State.Kept sha256 ⟨t, s.requests.goto q.id phase⟩ where
  distinct := Parties.distinct_goto hs.distinct
  tables := ht
  relies := (Parties.forall_goto hs.distinct hq).mpr ⟨hself, hothers⟩
  sameKind := by
    refine (Parties.forall_goto hs.distinct hq).mpr ⟨?_, ?_⟩
    · intro row hrow
      refine (Parties.forall_goto hs.distinct hq).mpr ⟨fun hne ↦ absurd rfl hne, ?_⟩
      exact fun q' hq' _ hne ↦ hkind row hrow q' hq' hne
    · intro q₁ hq₁ hne₁ row hrow
      refine (Parties.forall_goto hs.distinct hq).mpr ⟨?_, ?_⟩
      · intro _ hlive hcapture
        -- the two requests have rows of one capture, so the request that moved compares too
        obtain ⟨row', hrow'⟩ := Option.isSome_iff_exists.mp hlive
        have hid := ((hothers q₁ hq₁ hne₁).holds row hrow).captureId
        have hid' := (hself.holds row' hrow').captureId
        refine (hkind row' hrow' q₁ hq₁ hne₁ (Option.isSome_of_mem hrow) ?_).symm
        rw [hid, ← hcapture]
        exact hid'
      · exact fun q' hq' _ hne ↦ hs.sameKind q₁ hq₁ row hrow q' hq' hne
  creating := by
    cases hphase : phase.isCreating with
    | false => exact Parties.atMostOne_goto_outside hs.distinct hs.creating hq hphase
    | true =>
      exact (Parties.atMostOne_goto_inside_iff hs.distinct hs.creating hq hphase).mpr
        (hcreating hphase)

/-- A request without a row relies on nothing. -/
theorem relies_of_row?_eq_none {data : Request} {r : Nat} (h : phase.row? = none) :
    Relies sha256 t ⟨r, data, phase⟩ where
  holds := by simp [h]
  knows := by
    cases phase with
    | started => trivial
    | checked => trivial
    | ended => trivial
    | failed => trivial
    | _ => cases h
  ingests := by simp [h]

/-- A request ends while the committed rows go on. -/
theorem State.Kept.leave (hs : s.Kept sha256) (hq : q ∈ s.requests) (ht : t.Kept sha256)
    (hothers : ∀ q' ∈ s.requests, q'.id ≠ q.id → Relies sha256 t q') (hphase : phase.row? = none) :
    State.Kept sha256 ⟨t, s.requests.goto q.id phase⟩ := by
  refine hs.next hq ht hothers (relies_of_row?_eq_none hphase) (by simp [hphase]) ?_
  cases phase with
  | clearing row contentHash sourceId => cases hphase
  | cleared row contentHash => cases hphase
  | _ => simp [Phase.isCreating]

theorem State.Kept.enter (hs : s.Kept sha256) {r : Nat} {data : Request}
    {requests : Parties Request Phase} (h : s.requests.enter r data .started = some requests) :
    State.Kept sha256 { s with requests } := by
  obtain ⟨_, rfl⟩ := Parties.enter_eq_some.mp h
  exact {
    distinct := Parties.distinct_enter hs.distinct h
    tables := hs.tables
    relies := List.forall_mem_cons.mpr ⟨relies_of_row?_eq_none rfl, hs.relies⟩
    sameKind := by
      refine List.forall_mem_cons.mpr ⟨by simp [Phase.row?], fun q hq row hrow ↦ ?_⟩
      exact List.forall_mem_cons.mpr ⟨by simp [Phase.row?], hs.sameKind q hq row hrow⟩
    creating := Parties.atMostOne_enter hs.creating rfl h }

/-! ### How the sources go on -/

private theorem extends_fetch (row : CaptureSource) (t : Tables) (page : String) :
    t.Extends { t with served := row.fetch page t.served } where
  served := by
    unfold CaptureSource.fetch
    split
    · exact fun _ h ↦ h
    · exact fun _ h ↦ List.mem_cons_of_mem _ h
  next := Nat.le_refl _
  back source' h _ := ⟨source', h, rfl, rfl, rfl⟩
  stay source h := ⟨source, h, rfl, rfl, rfl, id⟩

/-- A source is committed under the next number. -/
theorem extends_concat {new : Source} {made : List Nat} (hnew : new.id = t.nextSource) :
    t.Extends { t with
      sources := t.sources ++ [new], nextSource := t.nextSource + 1, made } where
  served _ h := h
  next := Nat.le_succ _
  back source' h hid := by
    rcases List.mem_append.mp h with hold | hlast
    · exact ⟨source', hold, rfl, rfl, rfl⟩
    · rw [List.mem_singleton.mp hlast, hnew] at hid
      exact absurd hid (Nat.lt_irrefl _)
  stay source h := ⟨source, List.mem_append_left _ h, rfl, rfl, rfl, id⟩

/-- The file of a source is recorded. -/
theorem extends_setFile (t : Tables) (sourceId : Nat) (content : Content) :
    t.Extends { t with sources := setFile sourceId content t.sources } where
  served _ h := h
  next := Nat.le_refl _
  back source' h _ := by
    rcases Rows.mem_modify.mp h with ⟨source, hsource, _, rfl⟩ | ⟨hsource, _⟩
    · exact ⟨source, hsource, rfl, rfl, rfl⟩
    · exact ⟨source', hsource, rfl, rfl, rfl⟩
  stay source h := by
    by_cases hid : source.id = sourceId
    · exact ⟨_, Rows.mem_modify.mpr (.inl ⟨source, h, by simpa using hid, rfl⟩), rfl, rfl, rfl,
        fun _ ↦ rfl⟩
    · exact ⟨source, Rows.mem_modify.mpr (.inr ⟨h, by simpa using hid⟩), rfl, rfl, rfl, id⟩

/-- What a request relies on is left alone where the captures stay and its knowledge does. -/
theorem Relies.of_knows (h : Relies sha256 t q) (hcaptures : t'.captures = t.captures)
    (hknows : Knows sha256 t' q.phase) : Relies sha256 t' q where
  holds := hcaptures ▸ h.holds
  knows := hknows
  ingests := h.ingests

/-- A request past its loaded row is an ingest. -/
theorem Relies.isIngest (h : Relies sha256 t q) (hrow : row ∈ q.phase.row?)
    (hphase : q.phase ≠ .loaded row) : q.data.isIngest = true :=
  (h.ingests row hrow).resolve_left hphase

/-- A request that moves on with its row relies on what it then knows. -/
theorem Relies.goto (h : Relies sha256 t q) (hcaptures : t'.captures = t.captures)
    (hrow : phase.row? = q.phase.row?) (hingest : q.data.isIngest = true)
    (hknows : Knows sha256 t' phase) : Relies sha256 t' { q with phase } where
  holds row h' := hcaptures ▸ h.holds row (hrow ▸ h')
  knows := hknows
  ingests _ _ := .inr hingest

/-- A source is committed by an ingest or comes from elsewhere. -/
theorem Tables.Kept.concat {new : Source} {made : List Nat} (ht : t.Kept sha256)
    (hnew : new.id = t.nextSource) (hmade : made.Nodup)
    (hmadeNext : ∀ captureId ∈ made, captureId < t.nextCapture)
    (hsourced : ∀ c ∈ t.captures, c.id ∈ made → c.id ∉ t.made →
      new.userId = c.userId ∧ IsContent sha256 t.served c new.contentHash) :
    Tables.Kept sha256 { t with
      sources := t.sources ++ [new], nextSource := t.nextSource + 1, made } := by
  refine (extends_concat hnew).kept ht rfl rfl ?_ ?_ hmade hmadeNext fun c hc hmade' hold ↦
    ⟨new, List.mem_append_right _ (List.mem_singleton_self new), hsourced c hc hmade' hold⟩
  · refine Rows.nodup_map_concat.mpr ⟨ht.sourceIds, ?_⟩
    intro source hsource
    exact hnew ▸ Nat.ne_of_lt (ht.sourceNext source hsource)
  · intro source hsource
    rcases List.mem_append.mp hsource with hold | hlast
    · exact Nat.lt_succ_of_lt (ht.sourceNext source hold)
    · rw [List.mem_singleton.mp hlast, hnew]
      exact Nat.lt_succ_self _

/-! ### The steps -/

private theorem getCapture_spec {captures : List CaptureSource} {captureId : Nat} {userId : String}
    (h : getCapture captures captureId userId = some row) :
    row ∈ captures ∧ row.id = captureId ∧ row.userId = userId := by
  obtain ⟨hfind, huser⟩ := Option.filter_eq_some_iff.mp h
  exact ⟨List.mem_of_find?_eq_some hfind, by simpa using List.find?_some hfind,
    by simpa using huser⟩

/-- A request that goes on from its first look-up has the row of its capture. -/
theorem afterRead_spec {captures : List CaptureSource} {data : Request}
    (h : (afterRead sha256 captures data).row? = some row) :
    afterRead sha256 captures data = .loaded row ∧ row ∈ captures ∧
      data.captureId? = some row.id ∧ (data.isIngest = true → row.status ≠ .ingested) := by
  cases data with
  | create userId content sourceUrl =>
    dsimp only [afterRead] at h
    split at h <;> cases h
  | ingest captureId userId =>
    dsimp only [afterRead] at h ⊢
    cases hfound : getCapture captures captureId userId with
    | none =>
      rw [hfound] at h
      cases h
    | some found =>
      obtain ⟨hmem, rfl, _⟩ := getCapture_spec hfound
      rw [hfound] at h
      dsimp only at h ⊢
      split at h
      · cases h
      next hstatus =>
        cases h
        rw [if_neg hstatus]
        exact ⟨rfl, hmem, rfl, fun _ ↦ hstatus⟩
  | discard captureId userId =>
    dsimp only [afterRead] at h ⊢
    cases hfound : getCapture captures captureId userId with
    | none =>
      rw [hfound] at h
      cases h
    | some found =>
      obtain ⟨hmem, rfl, _⟩ := getCapture_spec hfound
      rw [hfound] at h
      cases h
      exact ⟨rfl, hmem, rfl, fun hingest ↦ by cases hingest⟩

theorem State.Kept.read (hs : s.Kept sha256) (hq : q ∈ s.requests)
    (hguard : ∀ row ∈ (afterRead sha256 s.captures q.data).row?,
      row.status ≠ q.data.opposite ∧ SameKind s.requests q row) :
    (s.goto q.id (afterRead sha256 s.captures q.data)).Kept sha256 := by
  cases hrow : (afterRead sha256 s.captures q.data).row? with
  | none => exact hs.leave hq hs.tables (fun q' hq' _ ↦ hs.relies q' hq') hrow
  | some row =>
    obtain ⟨hphase, hmem, hcapture, hingest⟩ := afterRead_spec hrow
    obtain ⟨hstatus, hkind⟩ := hguard row hrow
    have hself : ∀ c ∈ s.captures, c.id = row.id → c = row :=
      fun c hc hid ↦ Rows.eq_of_nodup hs.tables.captureIds hmem hc hid
    have hholds : Holds s.captures q.data row := {
      captureId := hcapture
      stored := ⟨row, hmem, rfl⟩
      status := fun c hc hid ↦ hself c hc hid ▸ hstatus
      loaded := fun h ↦ ⟨hingest h, hs.tables.unnamed row hmem (hingest h)⟩ }
    rw [hphase]
    refine hs.next hq hs.tables (fun q' hq' _ ↦ hs.relies q' hq') ⟨?_, trivial, ?_⟩ ?_ ?_
    · rintro _ ⟨⟩
      exact hholds
    · rintro _ ⟨⟩
      exact .inl rfl
    · rintro _ ⟨⟩
      exact hkind
    · simp [Phase.isCreating]

theorem State.Kept.insertCapture (hs : s.Kept sha256) (hq : q ∈ s.requests)
    {userId content : String} {sourceUrl : Option String} :
    State.Kept sha256 { s.goto q.id .ended with
      captures := s.captures ++
        [⟨s.nextCapture, userId, content, sha256 content, .captured, sourceUrl, none⟩]
      nextCapture := s.nextCapture + 1 } := by
  refine hs.leave hq ?_ ?_ rfl
  · exact {
      captureIds := Rows.nodup_map_concat.mpr
        ⟨hs.tables.captureIds, fun c hc ↦ Nat.ne_of_lt (hs.tables.captureNext c hc)⟩
      captureNext := by
        intro c hc
        rcases List.mem_append.mp hc with hold | hlast
        · exact Nat.lt_succ_of_lt (hs.tables.captureNext c hold)
        · rw [List.mem_singleton.mp hlast]
          exact Nat.lt_succ_self _
      sourceIds := hs.tables.sourceIds
      sourceNext := hs.tables.sourceNext
      named := by
        intro c hc
        rcases List.mem_append.mp hc with hold | hlast
        · exact hs.tables.named c hold
        · rw [List.mem_singleton.mp hlast]
          intro hstatus
          cases hstatus
      unnamed := by
        intro c hc
        rcases List.mem_append.mp hc with hold | hlast
        · exact hs.tables.unnamed c hold
        · rw [List.mem_singleton.mp hlast]
          exact fun _ ↦ rfl
      made := hs.tables.made
      madeNext := fun captureId h ↦ Nat.lt_succ_of_lt (hs.tables.madeNext captureId h)
      sourced := by
        intro c hc hmade
        rcases List.mem_append.mp hc with hold | hlast
        · exact hs.tables.sourced c hold hmade
        · -- nothing was made from a capture that was not there
          rw [List.mem_singleton.mp hlast] at hmade
          exact absurd (hs.tables.madeNext _ hmade) (Nat.lt_irrefl _) }
  · intro q' hq' _
    obtain ⟨hholds, hknows, hingests⟩ := hs.relies q' hq'
    refine ⟨fun row hrow ↦ ?_, hknows, hingests⟩
    obtain ⟨hcapture, ⟨c, hc, hitem⟩, hstatus, hloaded⟩ := hholds row hrow
    refine ⟨hcapture, ⟨c, List.mem_append_left _ hc, hitem⟩, fun c' hc' hid ↦ ?_, hloaded⟩
    rcases List.mem_append.mp hc' with hold | hlast
    · exact hstatus c' hold hid
    · -- the new capture has a number no request has loaded
      have hlt := hs.tables.captureNext c hc
      have hrowid : c.id = row.id := congrArg Prod.fst hitem
      rw [List.mem_singleton.mp hlast, ← hrowid] at hid
      exact absurd (hid ▸ hlt) (Nat.lt_irrefl _)

private theorem isContent_fetch (sha256 : String → String) (served : List (String × String))
    (row : CaptureSource) (page : String) :
    IsContent sha256 (row.fetch page served) row (sha256 (row.content page)) := by
  unfold IsContent CaptureSource.fetch CaptureSource.content
  cases row.url? with
  | none => rfl
  | some url => exact ⟨(url, page), List.mem_cons_self .., rfl, rfl⟩

private theorem hit_of_checkSourceDedup {sources : List Source} {contentHash userId : String}
    {existing : Source} (h : checkSourceDedup sources contentHash userId = .ok (.hit existing)) :
    existing ∈ sources ∧ existing.contentHash = contentHash ∧ existing.userId = userId ∧
      existing.hasFile = true := by
  unfold checkSourceDedup at h
  obtain ⟨found, hfound, h⟩ := bind_eq_ok.mp h
  cases found with
  | none => cases h
  | some row =>
    have hrow := Rows.prop_of_oneOrNone hfound
    simp only [decide_eq_true_eq] at hrow
    dsimp only at h
    split at h
    next hfile =>
      cases h
      exact ⟨Rows.mem_of_oneOrNone hfound, hrow.1, hrow.2, hfile⟩
    · cases h

/-- An ingest whose content is that of a source finds a source. -/
theorem isCreating_afterDedup_of_mem {sources : List Source} {page : String} {source : Source}
    (hsource : source ∈ sources) (huser : source.userId = row.userId)
    (hhash : source.contentHash = sha256 (row.content page))
    (hclearing : (afterDedup sha256 sources row page).clearing? = none) :
    (afterDedup sha256 sources row page).isCreating = false := by
  unfold afterDedup at hclearing ⊢
  dsimp only at hclearing ⊢
  split at hclearing
  · rfl
  · rfl
  · cases hclearing
  next hfresh =>
    unfold checkSourceDedup at hfresh
    obtain ⟨found, hfound, hfresh⟩ := bind_eq_ok.mp hfresh
    cases found with
    | none =>
      have hnone := Rows.oneOrNone_eq_none.mp hfound
      refine absurd ?_ (List.filter_eq_nil_iff.mp hnone source hsource)
      simp [hhash, huser]
    | some existing =>
      dsimp only at hfresh
      split at hfresh <;> cases hfresh

/-- An ingest that is to commit a source is the first of its capture to do so: an earlier one
left a source of the content, which the look-up finds. -/
theorem not_made_of_isCreating (ht : t.Kept sha256) (hstored : ∃ c ∈ t.captures, c.item = row.item)
    {page : String} (hclearing : (afterDedup sha256 t.sources row page).clearing? = none)
    (hpage : row.id ∈ t.made →
      ∀ url ∈ row.url?, ∀ fetched ∈ t.served, fetched.1 = url → fetched.2 = page)
    (hcreating : (afterDedup sha256 t.sources row page).isCreating = true) : row.id ∉ t.made := by
  intro hmade
  obtain ⟨c, hc, hitem⟩ := hstored
  simp only [CaptureSource.item, Prod.mk.injEq] at hitem
  obtain ⟨hid, huser, hpayload, hurl⟩ := hitem
  obtain ⟨source, hsource, howner, hcontent⟩ := ht.sourced c hc (hid ▸ hmade)
  have hhash : source.contentHash = sha256 (row.content page) := by
    unfold IsContent at hcontent
    rw [show c.url? = row.url? from congrArg (Option.filter (· ≠ "")) hurl] at hcontent
    unfold CaptureSource.content
    cases hrow : row.url? with
    | none =>
      rw [hrow] at hcontent
      exact hpayload ▸ hcontent
    | some url =>
      rw [hrow] at hcontent
      obtain ⟨fetched, hfetched, hfrom, hhash⟩ := hcontent
      rw [hpage hmade url hrow fetched hfetched hfrom] at hhash
      exact hhash
  rw [isCreating_afterDedup_of_mem hsource (howner.trans huser) hhash hclearing] at hcreating
  cases hcreating

/-- What an ingest knows from its dedup check. -/
theorem knows_afterDedup (row : CaptureSource) (t : Tables) (page : String)
    (hclearing : (afterDedup sha256 t.sources row page).clearing? = none)
    (hmade : (afterDedup sha256 t.sources row page).isCreating = true → row.id ∉ t.made) :
    Knows sha256 { t with served := row.fetch page t.served }
      (afterDedup sha256 t.sources row page) := by
  have hcontent := isContent_fetch sha256 t.served row page
  unfold afterDedup at hclearing hmade ⊢
  dsimp only at hclearing hmade ⊢
  split at hmade
  · trivial
  next existing hhit =>
    obtain ⟨hmem, hhash, huser, hfile⟩ := hit_of_checkSourceDedup hhit
    exact ⟨existing, hmem, rfl, huser, hfile, hhash ▸ hcontent⟩
  next existing hzombie =>
    rw [hzombie] at hclearing
    cases hclearing
  next hfresh =>
    exact ⟨hmade rfl, hcontent⟩

private theorem row?_afterDedup (sha256 : String → String) (sources : List Source)
    (row : CaptureSource) (page : String) :
    (afterDedup sha256 sources row page).row? = some row ∨
      (afterDedup sha256 sources row page).row? = none := by
  unfold afterDedup
  dsimp only
  split
  · exact .inr rfl
  all_goals exact .inl rfl

theorem State.Kept.dedup (hs : s.Kept sha256) (hq : q ∈ s.requests) (hphase : q.phase = .loaded row)
    (hingest : q.data.isIngest = true) {page : String}
    (halone : s.requests.Alone Phase.isCreating Request.captureId? q)
    (hclearing : (afterDedup sha256 s.sources row page).clearing? = none)
    (hpage : row.id ∈ s.made →
      ∀ url ∈ row.url?, ∀ fetched ∈ s.served, fetched.1 = url → fetched.2 = page) :
    State.Kept sha256 { s.goto q.id (afterDedup sha256 s.sources row page) with
      served := row.fetch page s.served } := by
  have hextends := extends_fetch row s.toTables page
  have hrow : q.phase.row? = some row := by rw [hphase]; rfl
  have hstored := ((hs.relies q hq).holds row hrow).stored
  have hknows := knows_afterDedup row s.toTables page hclearing
    (not_made_of_isCreating hs.tables hstored hclearing hpage)
  refine hs.next hq ?_ ?_ ?_ ?_ (fun _ ↦ halone)
  · exact hextends.kept hs.tables rfl rfl hs.tables.sourceIds hs.tables.sourceNext hs.tables.made
      hs.tables.madeNext fun _ _ hmade hnew ↦ absurd hmade hnew
  · intro q' hq' _
    exact (hs.relies q' hq').of_knows rfl
      (hextends.knows (hs.relies q' hq').knows fun _ _ _ hnew ↦ hnew)
  · rcases row?_afterDedup sha256 s.sources row page with hsome | hnone
    · exact (hs.relies q hq).goto rfl (hsome.trans hrow.symm) hingest hknows
    · exact relies_of_row?_eq_none hnone
  · intro row' hrow'
    rcases row?_afterDedup sha256 s.sources row page with hsome | hnone
    · exact hs.sameKind q hq row' (by rw [hrow, ← hsome]; exact hrow')
    · rw [hnone] at hrow'
      cases hrow'

theorem State.Kept.insertSource (hs : s.Kept sha256) (hq : q ∈ s.requests)
    (hphase : q.phase = .cleared row contentHash) :
    State.Kept sha256 { s.goto q.id (.inserted row s.nextSource) with
      sources := s.sources ++ [⟨s.nextSource, row.userId, contentHash, none⟩]
      nextSource := s.nextSource + 1
      made := row.id :: s.made } := by
  have hrelies := hs.relies q hq
  obtain ⟨hnew, hcontent⟩ : Knows sha256 s.toTables (.cleared row contentHash) :=
    hphase ▸ hrelies.knows
  have hrow : q.phase.row? = some row := by rw [hphase]; rfl
  have hingest := hrelies.isIngest hrow (by simp [hphase])
  obtain ⟨hcapture, ⟨c₀, hc₀, hitem⟩, _, _⟩ := hrelies.holds row hrow
  simp only [CaptureSource.item, Prod.mk.injEq] at hitem
  obtain ⟨hid₀, huser, hpayload, hurl⟩ := hitem
  have hextends : s.toTables.Extends { s.toTables with
      sources := s.sources ++ [⟨s.nextSource, row.userId, contentHash, none⟩]
      nextSource := s.nextSource + 1
      made := row.id :: s.made } := extends_concat rfl
  refine hs.next hq ?_ ?_ ?_ ?_ (by simp [Phase.isCreating])
  · refine hs.tables.concat rfl (List.nodup_cons.mpr ⟨hnew, hs.tables.made⟩) ?_ ?_
    · exact List.forall_mem_cons.mpr ⟨hid₀ ▸ hs.tables.captureNext c₀ hc₀, hs.tables.madeNext⟩
    · intro c hc hmade hold
      have hid : c.id = row.id := (List.mem_cons.mp hmade).resolve_right hold
      have hsame : c = c₀ := Rows.eq_of_nodup hs.tables.captureIds hc₀ hc (hid.trans hid₀.symm)
      rw [hsame]
      refine ⟨huser.symm, ?_⟩
      unfold IsContent CaptureSource.url? at hcontent ⊢
      rw [hurl, hpayload]
      exact hcontent
  · intro q' hq' hne
    refine (hs.relies q' hq').of_knows rfl (hextends.knows (hs.relies q' hq').knows ?_)
    intro hcreating row' hrow' hnew' hmem
    rcases List.mem_cons.mp hmem with hid | hmem
    · -- two ingests of one capture are not both about to commit a source
      have halone := hs.creating.alone hq (by rw [hphase]; rfl) q' hq' hne
      have hcapture' := ((hs.relies q' hq').holds row' hrow').captureId
      rw [halone (by rw [hcapture', hcapture, hid])] at hcreating
      cases hcreating
    · exact hnew' hmem
  · refine hrelies.goto rfl hrow.symm hingest ⟨Nat.lt_succ_self _, fun source hsource hid ↦ ?_⟩
    rcases List.mem_append.mp hsource with hold | hlast
    · exact absurd hid (Nat.ne_of_lt (hs.tables.sourceNext source hold))
    · rw [List.mem_singleton.mp hlast]
      exact ⟨rfl, hcontent⟩
  · rintro _ ⟨⟩
    exact hs.sameKind q hq row hrow

theorem State.Kept.write (hs : s.Kept sha256) (hq : q ∈ s.requests)
    (hphase : q.phase = .inserted row sourceId) (content : Content)
    (hsource : hasSource s.sources sourceId = true) :
    State.Kept sha256 { s.goto q.id (.found row sourceId) with
      sources := setFile sourceId content s.sources } := by
  have hrelies := hs.relies q hq
  obtain ⟨hnext, hown⟩ : Knows sha256 s.toTables (.inserted row sourceId) :=
    hphase ▸ hrelies.knows
  have hrow : q.phase.row? = some row := by rw [hphase]; rfl
  have hingest := hrelies.isIngest hrow (by simp [hphase])
  have hextends := extends_setFile s.toTables sourceId content
  refine hs.next hq ?_ ?_ ?_ ?_ (by simp [Phase.isCreating])
  · refine hextends.kept hs.tables rfl rfl ?_ ?_ hs.tables.made hs.tables.madeNext
      fun _ _ hmade hnew ↦ absurd hmade hnew
    · have hids : (setFile sourceId content s.sources).map (·.id) = s.sources.map (·.id) :=
        Rows.map_modify fun _ _ _ ↦ rfl
      exact hids ▸ hs.tables.sourceIds
    · exact Rows.forall_modify.mpr ⟨fun source hsource _ ↦ hs.tables.sourceNext source hsource,
        fun source hsource _ ↦ hs.tables.sourceNext source hsource⟩
  · intro q' hq' _
    exact (hs.relies q' hq').of_knows rfl
      (hextends.knows (hs.relies q' hq').knows fun _ _ _ hnew ↦ hnew)
  · refine hrelies.goto rfl hrow.symm hingest ?_
    obtain ⟨source, hmem, hid⟩ := List.any_eq_true.mp hsource
    obtain ⟨huser, hcontent⟩ := hown source hmem (by simpa using hid)
    exact ⟨_, Rows.mem_modify.mpr (.inl ⟨source, hmem, by simpa using hid, rfl⟩),
      by simpa using hid, huser, rfl, hcontent⟩
  · rintro _ ⟨⟩
    exact hs.sameKind q hq row hrow

theorem State.Kept.upload (hs : s.Kept sha256) (userId content : String) (file : Content) :
    State.Kept sha256 { s with
      sources := s.sources ++ [⟨s.nextSource, userId, sha256 content, some file⟩]
      nextSource := s.nextSource + 1 } where
  distinct := hs.distinct
  tables := hs.tables.concat rfl hs.tables.made hs.tables.madeNext
    fun _ _ hmade hnew ↦ absurd hmade hnew
  relies q hq := (hs.relies q hq).of_knows rfl
    ((extends_concat rfl).knows (hs.relies q hq).knows fun _ _ _ hnew ↦ hnew)
  sameKind := hs.sameKind
  creating := hs.creating

/-- A request writes the row of its capture: what is written names its source, and is not
what a request of its kind must not find. -/
theorem State.Kept.update (hs : s.Kept sha256) (hq : q ∈ s.requests) (hrow : row ∈ q.phase.row?)
    {changed : CaptureSource}
    (hwrite : ∀ c ∈ s.captures, c.id = row.id → (row.flush changed c).status ≠ q.data.opposite ∧
      s.Named sha256 (row.flush changed c) ∧
      ((row.flush changed c).status ≠ .ingested → (row.flush changed c).sourceId = none)) :
    (s.update q.id row changed).Kept sha256 := by
  refine hs.leave hq ?_ ?_ rfl
  · exact {
      captureIds := by
        have hids : (Rows.modify (·.id = row.id) (row.flush changed) s.captures).map (·.id) =
            s.captures.map (·.id) := Rows.map_modify fun _ _ _ ↦ rfl
        exact hids ▸ hs.tables.captureIds
      captureNext := Rows.forall_modify.mpr ⟨fun c hc _ ↦ hs.tables.captureNext c hc,
        fun c hc _ ↦ hs.tables.captureNext c hc⟩
      sourceIds := hs.tables.sourceIds
      sourceNext := hs.tables.sourceNext
      named := Rows.forall_modify.mpr
        ⟨fun c hc hid ↦ (hwrite c hc (of_decide_eq_true hid)).2.1,
          fun c hc _ ↦ hs.tables.named c hc⟩
      unnamed := Rows.forall_modify.mpr
        ⟨fun c hc hid ↦ (hwrite c hc (of_decide_eq_true hid)).2.2,
          fun c hc _ ↦ hs.tables.unnamed c hc⟩
      made := hs.tables.made
      madeNext := hs.tables.madeNext
      sourced := Rows.forall_modify.mpr ⟨fun c hc _ ↦ hs.tables.sourced c hc,
        fun c hc _ ↦ hs.tables.sourced c hc⟩ }
  · intro q' hq' hne
    obtain ⟨hholds, hknows, hingests⟩ := hs.relies q' hq'
    refine ⟨fun row' hrow' ↦ ?_, hknows, hingests⟩
    obtain ⟨hcapture, ⟨c, hc, hitem⟩, hstatus, hloaded⟩ := hholds row' hrow'
    refine ⟨hcapture, ?_, Rows.forall_modify.mpr ⟨?_, fun c hc _ ↦ hstatus c hc⟩, hloaded⟩
    · by_cases hid : c.id = row.id
      · exact ⟨_, Rows.mem_modify.mpr (.inl ⟨c, hc, by simpa using hid, rfl⟩), hitem⟩
      · exact ⟨c, Rows.mem_modify.mpr (.inr ⟨hc, by simpa using hid⟩), hitem⟩
    · intro c hc hid hid'
      have hid : c.id = row.id := of_decide_eq_true hid
      have hsame : row'.id = row.id := hid'.symm.trans hid
      have hkind := hs.sameKind q hq row hrow q' hq' hne (Option.isSome_of_mem hrow')
        (hsame ▸ hcapture)
      have hopposite : q'.data.opposite = q.data.opposite := by
        unfold Request.opposite
        rw [hkind]
      exact hopposite ▸ (hwrite c hc hid).1

/-- What an ingest writes on a capture that is not yet ingested. -/
theorem flush_ingested (hstatus : row.status ≠ .ingested) (hsource : row.sourceId = none)
    (c : CaptureSource) :
    row.flush { row with status := .ingested, sourceId := some sourceId } c =
      { c with status := .ingested, sourceId := some sourceId } := by
  simp [CaptureSource.flush, hsource, Ne.symm hstatus]

/-- What a discard writes. -/
theorem flush_discarded (row c : CaptureSource) :
    row.flush { row with status := .discarded } c =
      { c with status := if row.status = .discarded then c.status else .discarded } := by
  simp [CaptureSource.flush, eq_comm]

private theorem State.Kept.storeIngested (hs : s.Kept sha256) (hq : q ∈ s.requests)
    (hphase : q.phase = .found row sourceId) :
    (s.update q.id row { row with status := .ingested, sourceId := some sourceId }).Kept sha256 ∧
      ∀ c ∈ s.captures, c.id = row.id → c.status.isTerminal = true → c.status = .ingested := by
  have hrelies := hs.relies q hq
  have hrow : q.phase.row? = some row := by rw [hphase]; rfl
  have hingest := hrelies.isIngest hrow (by simp [hphase])
  have hopposite : q.data.opposite = .discarded := if_pos hingest
  obtain ⟨_, ⟨c₀, hc₀, hitem⟩, hstatus, hloaded⟩ := hrelies.holds row hrow
  obtain ⟨hne, hnone⟩ := hloaded hingest
  obtain ⟨source, hsource, hid, huser, hfile, hcontent⟩ :
      Knows sha256 s.toTables (.found row sourceId) := hphase ▸ hrelies.knows
  rw [hopposite] at hstatus
  constructor
  · refine hs.update hq hrow fun c hc hcid ↦ ?_
    have hsame : c = c₀ :=
      Rows.eq_of_nodup hs.tables.captureIds hc₀ hc (hcid.trans (congrArg Prod.fst hitem).symm)
    simp only [CaptureSource.item, Prod.mk.injEq, ← hsame] at hitem
    obtain ⟨_, huser', hpayload, hurl⟩ := hitem
    rw [flush_ingested hne hnone, hopposite]
    refine ⟨by simp, fun _ ↦ ⟨source, hsource, congrArg some hid.symm, ?_, hfile, ?_⟩, by simp⟩
    · exact huser.trans huser'.symm
    · unfold IsContent CaptureSource.url? at hcontent ⊢
      dsimp only
      rw [hurl, hpayload]
      exact hcontent
  · intro c hc hcid hterminal
    have hnot := hstatus c hc hcid
    cases hcstatus : c.status with
    | ingested => rfl
    | discarded => exact absurd hcstatus hnot
    | captured => rw [hcstatus] at hterminal; cases hterminal
    | triaged => rw [hcstatus] at hterminal; cases hterminal

private theorem State.Kept.storeDiscarded (hs : s.Kept sha256) (hq : q ∈ s.requests)
    (hphase : q.phase = .loaded row) (hdiscard : q.data.isIngest = false) :
    (s.update q.id row { row with status := .discarded }).Kept sha256 ∧
      ∀ c ∈ s.captures, c.id = row.id → c.status.isTerminal = true → c.status = .discarded := by
  have hrow : q.phase.row? = some row := by rw [hphase]; rfl
  have hopposite : q.data.opposite = .ingested := if_neg (by simp [hdiscard])
  have hstatus := ((hs.relies q hq).holds row hrow).status
  rw [hopposite] at hstatus
  constructor
  · refine hs.update hq hrow fun c hc hcid ↦ ?_
    rw [flush_discarded, hopposite]
    have hwritten : (if row.status = .discarded then c.status else .discarded) ≠
        CaptureStatus.ingested := by
      split
      · exact hstatus c hc hcid
      · simp
    exact ⟨hwritten, fun h ↦ absurd h hwritten,
      fun _ ↦ hs.tables.unnamed c hc (hstatus c hc hcid)⟩
  · intro c hc hcid hterminal
    have hnot := hstatus c hc hcid
    cases hcstatus : c.status with
    | discarded => rfl
    | ingested => exact absurd hcstatus hnot
    | captured => rw [hcstatus] at hterminal; cases hterminal
    | triaged => rw [hcstatus] at hterminal; cases hterminal

private theorem keepsTerminal_of_subset {s t : State} {l : Label}
    (h : ∀ c ∈ s.captures, c ∈ t.captures) : KeepsTerminal s l t :=
  fun c hc _ ↦ ⟨c, h c hc, rfl, rfl⟩

private theorem keepsTerminal_update {changed : CaptureSource} {r : Nat} {l : Label}
    (h : ∀ c ∈ s.captures, c.id = row.id → c.status.isTerminal = true →
      (row.flush changed c).status = c.status) :
    KeepsTerminal s l (s.update r row changed) := by
  intro c hc hterminal
  by_cases hid : c.id = row.id
  · exact ⟨_, Rows.mem_modify.mpr (.inl ⟨c, hc, by simpa using hid, rfl⟩), rfl,
      h c hc hid hterminal⟩
  · exact ⟨c, Rows.mem_modify.mpr (.inr ⟨hc, by simpa using hid⟩), rfl, rfl⟩

/-- What a step in turn keeps. -/
theorem kept_step {s t : State} {l : Label} (hs : s.Kept sha256) (hturn : InTurn sha256 s l)
    (h : (captureRequests server sha256).step s l = some t) :
    t.Kept sha256 ∧ KeepsTerminal s l t := by
  cases l with
  | request r data =>
    obtain ⟨requests, henter, rfl⟩ := Option.map_eq_some_iff.mp h
    exact ⟨hs.enter henter, keepsTerminal_of_subset fun _ hc ↦ hc⟩
  | read r =>
    obtain ⟨q, hq, rfl, hnext⟩ := Parties.exists_of_bind hs.distinct h
    have hget := (Parties.get?_eq_some hs.distinct).mpr ⟨hq, rfl⟩
    split at hnext
    next hphase =>
      cases hnext
      exact ⟨hs.read hq (hturn q hget hphase), keepsTerminal_of_subset fun _ hc ↦ hc⟩
    · cases hnext
  | insertCapture r =>
    obtain ⟨q, hq, rfl, hnext⟩ := Parties.exists_of_bind hs.distinct h
    split at hnext
    · cases hnext
      exact ⟨hs.insertCapture hq,
        keepsTerminal_of_subset fun _ hc ↦ List.mem_append_left _ hc⟩
    · cases hnext
  | dedup r page =>
    obtain ⟨q, hq, rfl, hnext⟩ := Parties.exists_of_bind hs.distinct h
    have hget := (Parties.get?_eq_some hs.distinct).mpr ⟨hq, rfl⟩
    split at hnext
    next row captureId userId hphase hdata =>
      cases hnext
      obtain ⟨halone, hclearing, hpage⟩ := hturn q hget row (by rw [hphase]; rfl)
      exact ⟨hs.dedup hq hphase (by rw [hdata]; rfl) halone hclearing hpage,
        keepsTerminal_of_subset fun _ hc ↦ hc⟩
    · cases hnext
  | clear r =>
    obtain ⟨q, hq, rfl, hnext⟩ := Parties.exists_of_bind hs.distinct h
    split at hnext
    next row contentHash sourceId hphase =>
      have hknows := (hs.relies q hq).knows
      rw [hphase] at hknows
      exact hknows.elim
    · cases hnext
  | insertSource r =>
    obtain ⟨q, hq, rfl, hnext⟩ := Parties.exists_of_bind hs.distinct h
    split at hnext
    next row contentHash hphase =>
      cases hnext
      exact ⟨hs.insertSource hq hphase, keepsTerminal_of_subset fun _ hc ↦ hc⟩
    · cases hnext
  | write r content =>
    obtain ⟨q, hq, rfl, hnext⟩ := Parties.exists_of_bind hs.distinct h
    split at hnext
    next row sourceId hphase =>
      split at hnext
      next hsource =>
        cases hnext
        exact ⟨hs.write hq hphase content hsource, keepsTerminal_of_subset fun _ hc ↦ hc⟩
      · cases hnext
        exact ⟨hs.leave hq hs.tables (fun q' hq' _ ↦ hs.relies q' hq') rfl,
          keepsTerminal_of_subset fun _ hc ↦ hc⟩
    · cases hnext
  | store r =>
    obtain ⟨q, hq, rfl, hnext⟩ := Parties.exists_of_bind hs.distinct h
    split at hnext
    next row sourceId captureId userId hphase hdata =>
      split at hnext <;> cases hnext
      · exact ⟨hs.leave hq hs.tables (fun q' hq' _ ↦ hs.relies q' hq') rfl,
          keepsTerminal_of_subset fun _ hc ↦ hc⟩
      · obtain ⟨hkept, hended⟩ := hs.storeIngested hq hphase
        obtain ⟨hne, hnone⟩ := ((hs.relies q hq).holds row (by rw [hphase]; rfl)).loaded
          (by rw [hdata]; rfl)
        refine ⟨hkept, keepsTerminal_update fun c hc hid hterminal ↦ ?_⟩
        rw [flush_ingested hne hnone, hended c hc hid hterminal]
    next row captureId userId hphase hdata =>
      cases hnext
      obtain ⟨hkept, hended⟩ := hs.storeDiscarded hq hphase (by rw [hdata]; rfl)
      refine ⟨hkept, keepsTerminal_update fun c hc hid hterminal ↦ ?_⟩
      rw [flush_discarded, hended c hc hid hterminal]
      exact ite_self _
    · cases hnext
  | fail r =>
    obtain ⟨q, hq, rfl, hnext⟩ := Parties.exists_of_bind hs.distinct h
    split at hnext
    · cases hnext
    · cases hnext
    · cases hnext
      exact ⟨hs.leave hq hs.tables (fun q' hq' _ ↦ hs.relies q' hq') rfl,
        keepsTerminal_of_subset fun _ hc ↦ hc⟩
  | upload userId content file =>
    cases h
    exact ⟨hs.upload userId content file, keepsTerminal_of_subset fun _ hc ↦ hc⟩

end

theorem kept_start : State.start.Kept sha256 := by
  refine ⟨Parties.distinct_nil, ⟨?_, ?_, ?_, ?_, ?_, ?_, ?_, ?_, ?_⟩, ?_, ?_, ?_⟩
  all_goals simp [State.start, Parties.AtMostOne]

theorem State.Kept.sound {s : State} (hs : s.Kept sha256) : s.Sound sha256 :=
  ⟨hs.tables.named, hs.tables.made⟩

/-- As long as the requests on each capture come in turn, an ingested or discarded capture
stays so, every ingested one names the source made from it, and one source is made from each
capture. -/
theorem lifecycle_of_inTurn (server : Server) (sha256 : String → String) (ls : List Label)
    (h : (captureRequests server sha256).Guarded (InTurn sha256) .start ls) :
    (captureRequests server sha256).Always (State.Sound sha256) .start ls ∧
      (captureRequests server sha256).Steps KeepsTerminal .start ls := by
  constructor
  · have hkept := (captureRequests server sha256).always_of_guarded
      (fun _ _ _ hs hturn hstep ↦ (kept_step hs hturn hstep).1) kept_start h
    exact hkept.mono _ fun _ hs ↦ hs.sound
  · exact (captureRequests server sha256).steps_of_guarded (G := InTurn sha256)
      (fun _ _ _ hs hturn hstep ↦ kept_step hs hturn hstep) kept_start h

/-- A capture of a note. -/
def capture (r : Nat) (content : String) : List Label :=
  [.request r (.create "u" content none), .read r, .insertCapture r]

/-- An ingest of a capture from its start to its end. -/
def ingest (r captureId : Nat) : List Label :=
  [.request r (.ingest captureId "u"), .read r, .dedup r "", .insertSource r, .write r ⟨4, 1⟩,
    .store r]

/-- A discard of a capture from its start to its end. -/
def discard (r captureId : Nat) : List Label :=
  [.request r (.discard captureId "u"), .read r, .store r]

/-- An ingest that fails once its source is there, and its repetition, which finds it. -/
def retried (r r' captureId : Nat) : List Label :=
  [.request r (.ingest captureId "u"), .read r, .dedup r "", .insertSource r, .write r ⟨4, 1⟩,
    .fail r, .request r' (.ingest captureId "u"), .read r', .dedup r' "", .store r']

/-- Three captures, of which two are ingested, one at the second try, and one is discarded. -/
theorem lifecycle_in_turn :
    (captureRequests .postgres id).Always (State.Sound id) .start
        (capture 0 "a note" ++ capture 1 "another" ++ capture 2 "a third" ++ ingest 3 0 ++
          discard 4 1 ++ retried 5 6 2) ∧
      (captureRequests .postgres id).Steps KeepsTerminal .start
        (capture 0 "a note" ++ capture 1 "another" ++ capture 2 "a third" ++ ingest 3 0 ++
          discard 4 1 ++ retried 5 6 2) :=
  lifecycle_of_inTurn .postgres id _ (by decide +kernel)

/-- An ingested capture is discarded, a discarded one is ingested, and two ingests of one
capture that check before either commits make two sources from it. -/
theorem lifecycle_not_kept :
    ¬ (captureRequests .postgres id).Steps KeepsTerminal .start
        (capture 0 "a note" ++ ingest 1 0 ++ discard 2 0) ∧
      ¬ (captureRequests .postgres id).Steps KeepsTerminal .start
        (capture 0 "a note" ++ discard 1 0 ++ ingest 2 0) ∧
      ¬ (captureRequests .postgres id).Always (State.Sound id) .start
        (capture 0 "a note" ++
          [.request 1 (.ingest 0 "u"), .request 2 (.ingest 0 "u"), .read 1, .read 2,
            .dedup 1 "", .dedup 2 "", .insertSource 1, .insertSource 2]) := by
  refine ⟨?_, ?_, ?_⟩
  all_goals decide +kernel

end WikiMind.Ingest.Captures
