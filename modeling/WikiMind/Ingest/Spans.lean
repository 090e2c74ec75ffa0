import WikiMind.Base.Rows
import WikiMind.Ingest.Chunks

/-!
# Source spans and their anchors

A source is cut into paragraphs, each of which is kept as a span that claims cite by its id
(`ingest/spans.py`). When the source is ingested again, the new spans are matched with the old
ones by a fingerprint of their text: the first old span with the fingerprint is taken, once.
So the spans of a source are kept exactly if their fingerprints differ.
-/

namespace WikiMind.Ingest.Spans

open WikiMind.Base

/-- What the standard library knows: lower case, the characters of words, SHA-256. -/
structure Env where
  lower : List Char → List Char
  isWord : Char → Bool
  sha256 : List UInt8 → String

/-- `s.split()`. -/
def splitWords (s : List Char) : List (List Char) := (s.splitOnP isSpace).filter (· ≠ [])

/-- `normalize_text`: `ingest/spans.py:32`. -/
def normalizeText (env : Env) (text : List Char) : List Char :=
  [' '].intercalate (splitWords ((env.lower text).filter fun c ↦ env.isWord c || isSpace c))

/-- `compute_fingerprint`: `ingest/spans.py:46`. -/
def computeFingerprint (env : Env) (text : List Char) : String :=
  env.sha256 (utf8 (normalizeText env text))

/-- `_split_paragraphs`: `ingest/spans.py:67`. -/
def paragraphs (text : List Char) : List (List Char) :=
  ((splitParagraphs [] false text).map strip).filter (· ≠ [])

/-- `LocatorKind`: `models/enums.py:236`. -/
inductive LocatorKind where
  | pdfPageRect
  | htmlParagraphOffset
  | textByteRange
  | youtubeTimestamp
  deriving DecidableEq, Repr

/-- Where a span lies: the locators of the kinds that are extracted. -/
inductive Locator where
  | textByteRange (start stop : Nat)
  | pdfPageRect (page paragraph : Nat)
  | htmlParagraphOffset (paragraph offset length : Nat)
  deriving DecidableEq, Repr

/-- The kind that is stored with a locator. -/
def Locator.kind : Locator → LocatorKind
  | .textByteRange _ _ => .textByteRange
  | .pdfPageRect _ _ => .pdfPageRect
  | .htmlParagraphOffset _ _ _ => .htmlParagraphOffset

/-- A span: `models/tables/wiki.py:13`. -/
structure SourceSpan where
  id : Nat
  sourceId : String
  userId : String
  locatorKind : LocatorKind
  locator : Locator
  text : List Char
  fingerprint : String
  stale : Bool
  deriving DecidableEq, Repr

/-- `bytes.find`. -/
def findBytes (t : List UInt8) : List UInt8 → Option Nat
  | [] => if t = [] then some 0 else none
  | b :: s => if t.isPrefixOf (b :: s) then some 0 else (findBytes t s).map (· + 1)

/-- The places of paragraphs in a text from a byte on: `ingest/spans.py:108–128`. -/
def textPlaces (textBytes : List UInt8) : Nat → List (List Char) → List (Locator × List Char)
  | _, [] => []
  | searchStart, para :: paras =>
    match findBytes (utf8 para) (textBytes.drop searchStart) with
    | none => textPlaces textBytes searchStart paras
    | some i =>
      let byteStart := searchStart + i
      let byteEnd := byteStart + (utf8 para).length
      (.textByteRange byteStart byteEnd, para) :: textPlaces textBytes byteEnd paras

/-- The places of paragraphs on a page. -/
def pagePlaces (page : Nat) (text : List Char) : List (Locator × List Char) :=
  (paragraphs text).mapIdx fun i para ↦ (.pdfPageRect page i, para)

/-- What spans are extracted from; for a PDF its text and that of its pages. -/
inductive Document where
  | text (content : List Char)
  | pdf (content : List Char) (pageTexts : Option (List (List Char)))
  | url (content : List Char)

/-- The locators and texts of the spans: `extract_text_spans`, `extract_pdf_spans` and
`extract_url_spans`, `ingest/spans.py:85–236`. -/
def Document.places : Document → List (Locator × List Char)
  | .text content => textPlaces (utf8 content) 0 (paragraphs content)
  | .pdf content none | .pdf content (some []) => pagePlaces 1 content
  | .pdf _ (some pages) => (pages.mapIdx fun i page ↦ pagePlaces (i + 1) page).flatten
  | .url content =>
    (paragraphs content).mapIdx fun i para ↦ (.htmlParagraphOffset i 0 para.length, para)

/-- The extracted spans, with new ids. -/
def Document.spans (env : Env) (doc : Document) (sourceId userId : String) (next : Nat) :
    List SourceSpan :=
  doc.places.mapIdx fun i place ↦
    ⟨next + i, sourceId, userId, place.1.kind, place.1, place.2, computeFingerprint env place.2,
      false⟩

/-- The order in which the database returns spans when none is asked for. -/
abbrev Order := Rows.Order SourceSpan

/-- The state of the matching. -/
structure Matching where
  table : List SourceSpan
  matched : List Nat

/-- The loop's body over the new spans: `ingest/spans.py:327–340`. -/
def Matching.add (old : List SourceSpan) (s : Matching) (new : SourceSpan) : Matching :=
  match old.find? fun r ↦ r.fingerprint = new.fingerprint with
  | some r =>
    if r.id ∈ s.matched then { s with table := s.table ++ [new] }
    else {
      table := Rows.modify (fun x ↦ x.id = r.id)
        (fun x ↦ { x with locator := new.locator, text := new.text, stale := false }) s.table
      matched := r.id :: s.matched }
  | none => { s with table := s.table ++ [new] }

/-- `reanchor_spans`: `ingest/spans.py:281`. -/
def reanchorSpans (table old new : List SourceSpan) : List SourceSpan :=
  let s := new.foldl (Matching.add old) ⟨table, []⟩
  Rows.modify (fun r ↦ r.id ∈ old.map (·.id) ∧ r.id ∉ s.matched) (fun r ↦ { r with stale := true })
    s.table

/-- `persist_spans`: `ingest/spans.py:243`. -/
def persistSpans (order : Order) (table : List SourceSpan) (spans : List SourceSpan) :
    List SourceSpan :=
  match spans with
  | [] => table
  | first :: _ =>
    match order.select (table.filter fun r ↦ r.sourceId = first.sourceId) with
    | [] => table ++ spans
    | old => reanchorSpans table old spans

/-- The spans and the next id. -/
structure State where
  table : List SourceSpan
  next : Nat

/-- Extract the spans of a source and store them. -/
def State.ingest (env : Env) (doc : Document) (sourceId userId : String) (s : State)
    (order : Order) : State :=
  let spans := doc.spans env sourceId userId s.next
  ⟨persistSpans order s.table spans, s.next + spans.length⟩

/-- What a citation relies on: the id, the source and the fingerprint of a span. -/
def anchor (r : SourceSpan) : Nat × String × String := (r.id, r.sourceId, r.fingerprint)

/-- No span was added or lost or has another id or fingerprint, and none of the source is
stale. -/
def Keeps (sourceId : String) (before after : State) : Prop :=
  after.table.map anchor = before.table.map anchor ∧
    ∀ r ∈ after.table, r.sourceId = sourceId → r.stale = false

/-- A state in which a source has no spans yet. -/
structure Start where
  state : State
  sourceId : String
  userId : String
  fresh : ∀ r ∈ state.table, r.sourceId ≠ sourceId

/-- The state after the first ingest and further ones of the same document. -/
def Start.run (env : Env) (doc : Document) (s : Start) (first : Order) (orders : List Order) :
    State :=
  orders.foldl (State.ingest env doc s.sourceId s.userId)
    (s.state.ingest env doc s.sourceId s.userId first)

section Matching

variable {old rows : List SourceSpan} {new r : SourceSpan} {s : Matching}

/-- The old span that is taken for a new one. -/
def found (old : List SourceSpan) (new : SourceSpan) : Option SourceSpan :=
  old.find? fun r ↦ r.fingerprint = new.fingerprint

theorem add_of_matched (h : found old new = some r) (hr : r.id ∈ s.matched) :
    Matching.add old s new = { s with table := s.table ++ [new] } := by
  unfold found at h
  simp only [Matching.add, h, hr, if_true]

theorem add_of_unmatched (h : found old new = some r) (hr : r.id ∉ s.matched) :
    Matching.add old s new = {
      table := Rows.modify (fun x ↦ x.id = r.id)
        (fun x ↦ { x with locator := new.locator, text := new.text, stale := false }) s.table
      matched := r.id :: s.matched } := by
  unfold found at h
  simp only [Matching.add, h, hr, if_false]

theorem add_of_not_found (h : found old new = none) :
    Matching.add old s new = { s with table := s.table ++ [new] } := by
  unfold found at h
  simp only [Matching.add, h]

/-- A step adds a row or leaves their number. -/
theorem length_le_add : s.table.length ≤ (Matching.add old s new).table.length := by
  cases h : found old new with
  | none =>
    rw [add_of_not_found h]
    simp
  | some r =>
    by_cases hr : r.id ∈ s.matched
    · rw [add_of_matched h hr]
      simp
    · rw [add_of_unmatched h hr]
      simp [Rows.modify]

private theorem length_le_foldl_add (news : List SourceSpan) :
    s.table.length ≤ (news.foldl (Matching.add old) s).table.length := by
  induction news generalizing s with
  | nil => exact Nat.le_refl _
  | cons new news ih => exact length_le_add.trans ih

/-- What is matched stays so. -/
theorem matched_subset_add : s.matched ⊆ (Matching.add old s new).matched := by
  cases h : found old new with
  | none =>
    rw [add_of_not_found h]
    exact List.Subset.refl _
  | some r =>
    by_cases hr : r.id ∈ s.matched
    · rw [add_of_matched h hr]
      exact List.Subset.refl _
    · rw [add_of_unmatched h hr]
      exact List.subset_cons_self _ _

private theorem matched_subset_foldl_add (news : List SourceSpan) :
    s.matched ⊆ (news.foldl (Matching.add old) s).matched := by
  induction news generalizing s with
  | nil => exact List.Subset.refl _
  | cons new news ih => exact List.Subset.trans matched_subset_add ih

/-- After its step, the old span of a new one is taken. -/
theorem mem_matched_add (h : found old new = some r) : r.id ∈ (Matching.add old s new).matched := by
  by_cases hr : r.id ∈ s.matched
  · exact matched_subset_add hr
  · rw [add_of_unmatched h hr]
    exact List.mem_cons_self

/-- A span whose old span is taken already adds a row. -/
theorem length_lt_foldl_add {news : List SourceSpan} (hnew : new ∈ news)
    (h : found old new = some r) (hr : r.id ∈ s.matched) :
    s.table.length < (news.foldl (Matching.add old) s).table.length := by
  induction news generalizing s with
  | nil => cases hnew
  | cons first news ih =>
    rw [List.foldl_cons]
    rcases List.mem_cons.mp hnew with rfl | hnew
    · have hadd : (Matching.add old s new).table.length = s.table.length + 1 := by
        rw [add_of_matched h hr, List.length_append, List.length_singleton]
      have hrest := @length_le_foldl_add old (Matching.add old s new) news
      omega
    · have hstep : s.table.length ≤ (Matching.add old s first).table.length := length_le_add
      exact hstep.trans_lt (ih hnew (matched_subset_add hr))

/-- Two new spans with one fingerprint of an old span add a row. -/
theorem length_lt_of_not_nodup {news : List SourceSpan}
    (hfound : ∀ new ∈ news, ∃ r, found old new = some r)
    (hdup : ¬ (news.map (·.fingerprint)).Nodup) :
    s.table.length < (news.foldl (Matching.add old) s).table.length := by
  induction news generalizing s with
  | nil => exact absurd List.nodup_nil hdup
  | cons new news ih =>
    rw [List.map_cons, List.nodup_cons, not_and_or, not_not] at hdup
    rw [List.foldl_cons]
    have hstep : s.table.length ≤ (Matching.add old s new).table.length := length_le_add
    rcases hdup with hagain | hdup
    · obtain ⟨again, hmem, heq⟩ := List.mem_map.mp hagain
      obtain ⟨r, hr⟩ := hfound new List.mem_cons_self
      have hsame : found old again = some r := by
        unfold found at hr ⊢
        rw [heq, hr]
      exact hstep.trans_lt (length_lt_foldl_add hmem hsame (mem_matched_add hr))
    · exact hstep.trans_lt (ih (fun n hn ↦ hfound n (List.mem_cons_of_mem _ hn)) hdup)

/-- Every new span has an old one that is not taken yet. -/
def Free (old : List SourceSpan) (s : Matching) (news : List SourceSpan) : Prop :=
  ∀ new ∈ news, ∃ r, found old new = some r ∧ r.id ∉ s.matched

theorem found_spec (h : found old new = some r) : r ∈ old ∧ r.fingerprint = new.fingerprint :=
  ⟨List.mem_of_find?_eq_some h, by simpa using List.find?_some h⟩

private theorem found_of_nodup (hfps : (old.map (·.fingerprint)).Nodup) (hr : r ∈ old)
    (heq : r.fingerprint = new.fingerprint) : found old new = some r := by
  unfold found
  rw [← heq]
  exact Rows.find?_of_nodup hfps hr

/-- The rest stays free when the old spans and the fingerprints of the new ones differ. -/
theorem Free.tail {news : List SourceSpan} (h : Free old s (new :: news))
    (hids : (old.map (·.id)).Nodup) (hnodup : new.fingerprint ∉ news.map (·.fingerprint)) :
    Free old (Matching.add old s new) news := by
  obtain ⟨r, hr, hfree⟩ := h new List.mem_cons_self
  rw [add_of_unmatched hr hfree]
  intro n hn
  obtain ⟨r', hr', hfree'⟩ := h n (List.mem_cons_of_mem _ hn)
  refine ⟨r', hr', fun hmem ↦ ?_⟩
  rcases List.mem_cons.mp hmem with heq | hmem
  · obtain ⟨hold, hfp⟩ := found_spec hr
    obtain ⟨hold', hfp'⟩ := found_spec hr'
    have hsame : r' = r := Rows.eq_of_nodup hids hold hold' heq
    apply hnodup
    rw [← hfp, ← hsame, hfp']
    exact List.mem_map_of_mem hn
  · exact hfree' hmem

/-- Matching changes no anchor while the old spans are free. -/
theorem anchors_foldl_add {news : List SourceSpan} (hids : (old.map (·.id)).Nodup)
    (hnodup : (news.map (·.fingerprint)).Nodup) (hfree : Free old s news) :
    (news.foldl (Matching.add old) s).table.map anchor = s.table.map anchor := by
  induction news generalizing s with
  | nil => rfl
  | cons new news ih =>
    rw [List.map_cons, List.nodup_cons] at hnodup
    rw [List.foldl_cons, ih hnodup.2 (hfree.tail hids hnodup.1)]
    obtain ⟨r, hr, hunmatched⟩ := hfree new List.mem_cons_self
    rw [add_of_unmatched hr hunmatched]
    exact Rows.map_modify fun _ _ _ ↦ rfl

/-- Nor does it make a span stale. -/
theorem not_stale_foldl_add {news : List SourceSpan} {sourceId : String}
    (hids : (old.map (·.id)).Nodup) (hnodup : (news.map (·.fingerprint)).Nodup)
    (hfree : Free old s news) (h : ∀ x ∈ s.table, x.sourceId = sourceId → x.stale = false) :
    ∀ x ∈ (news.foldl (Matching.add old) s).table, x.sourceId = sourceId → x.stale = false := by
  induction news generalizing s with
  | nil => exact h
  | cons new news ih =>
    rw [List.map_cons, List.nodup_cons] at hnodup
    apply ih hnodup.2 (hfree.tail hids hnodup.1)
    obtain ⟨r, hr, hunmatched⟩ := hfree new List.mem_cons_self
    rw [add_of_unmatched hr hunmatched]
    exact Rows.forall_modify.mpr ⟨fun _ _ _ _ ↦ rfl, fun x hx _ ↦ h x hx⟩

/-- Every old span that is found is taken in the end. -/
theorem mem_matched_foldl_add {news : List SourceSpan} (hnew : new ∈ news)
    (h : found old new = some r) : r.id ∈ (news.foldl (Matching.add old) s).matched := by
  induction news generalizing s with
  | nil => cases hnew
  | cons first news ih =>
    rw [List.foldl_cons]
    rcases List.mem_cons.mp hnew with rfl | hnew
    · exact matched_subset_foldl_add news (mem_matched_add h)
    · exact ih hnew

/-- Spans with the fingerprints of the old ones, all different, change no anchor and make no
span of the source stale. -/
theorem reanchor_of_nodup {table news : List SourceSpan} {sourceId : String}
    (hids : (old.map (·.id)).Nodup) (hnodup : (news.map (·.fingerprint)).Nodup)
    (hperm : (old.map (·.fingerprint)).Perm (news.map (·.fingerprint)))
    (hstale : ∀ x ∈ table, x.sourceId = sourceId → x.stale = false) :
    (reanchorSpans table old news).map anchor = table.map anchor ∧
      ∀ x ∈ reanchorSpans table old news, x.sourceId = sourceId → x.stale = false := by
  have hfps : (old.map (·.fingerprint)).Nodup := hperm.nodup_iff.mpr hnodup
  have hfree : Free old ⟨table, []⟩ news := by
    intro n hn
    obtain ⟨r, hr, heq⟩ := List.mem_map.mp (hperm.symm.subset (List.mem_map_of_mem hn))
    exact ⟨r, found_of_nodup hfps hr heq, List.not_mem_nil⟩
  have hmatched : ∀ r ∈ old, r.id ∈ (news.foldl (Matching.add old) ⟨table, []⟩).matched := by
    intro r hr
    obtain ⟨n, hn, heq⟩ := List.mem_map.mp (hperm.subset (List.mem_map_of_mem hr))
    exact mem_matched_foldl_add hn (found_of_nodup hfps hr heq.symm)
  have hkept : reanchorSpans table old news =
      (news.foldl (Matching.add old) ⟨table, []⟩).table := by
    unfold reanchorSpans Rows.modify
    dsimp only
    rw [List.map_congr_left (g := id), List.map_id]
    intro x _
    rw [if_neg]
    · rfl
    · rw [decide_eq_true_eq]
      rintro ⟨hid, hunmatched⟩
      obtain ⟨r, hr, heq⟩ := List.mem_map.mp hid
      exact hunmatched (heq ▸ hmatched r hr)
  rw [hkept]
  exact ⟨anchors_foldl_add hids hnodup hfree, not_stale_foldl_add hids hnodup hfree hstale⟩

end Matching

section Runs

variable {env : Env} {doc : Document} {s : State} {sourceId userId : String} {next : Nat}

/-- The fingerprints of a document's paragraphs. -/
def Document.fingerprints (env : Env) (doc : Document) : List String :=
  doc.places.map fun place ↦ computeFingerprint env place.2

theorem map_fingerprint_spans :
    (doc.spans env sourceId userId next).map (·.fingerprint) = doc.fingerprints env := by
  unfold Document.spans Document.fingerprints
  apply List.ext_getElem
  · simp
  · simp

theorem map_id_spans : (doc.spans env sourceId userId next).map (·.id) =
    (List.range doc.places.length).map (next + ·) := by
  unfold Document.spans
  apply List.ext_getElem
  · simp
  · simp

theorem nodup_ids_spans : ((doc.spans env sourceId userId next).map (·.id)).Nodup := by
  rw [map_id_spans]
  exact List.nodup_range.map fun a b h ↦ Nat.add_left_cancel h

theorem of_mem_spans {r : SourceSpan} (h : r ∈ doc.spans env sourceId userId next) :
    r.sourceId = sourceId ∧ r.stale = false := by
  obtain ⟨i, hi, rfl⟩ := List.mem_mapIdx.mp h
  exact ⟨rfl, rfl⟩

private theorem Order.select_nil (order : Order) : order.select [] = [] :=
  List.perm_nil.mp (order.perm [])

/-- The first ingest of a source adds its spans. -/
theorem Start.first_table (start : Start) (order : Order) :
    (start.state.ingest env doc start.sourceId start.userId order).table =
      start.state.table ++ doc.spans env start.sourceId start.userId start.state.next := by
  unfold State.ingest persistSpans
  dsimp only
  split
  · next heq => rw [heq, List.append_nil]
  · next span spans heq =>
    have hsource : span.sourceId = start.sourceId :=
      (of_mem_spans (heq ▸ List.mem_cons_self (a := span) (l := spans))).1
    have hnone : start.state.table.filter (fun r ↦ r.sourceId = span.sourceId) = [] := by
      rw [List.filter_eq_nil_iff]
      intro r hr
      rw [hsource, decide_eq_true_eq]
      exact start.fresh r hr
    rw [hnone, order.select_nil, heq]

/-- Tables with the same anchors have the same anchors of a source. -/
theorem filter_anchor {table table' : List SourceSpan}
    (h : table.map anchor = table'.map anchor) :
    (table.filter fun r ↦ r.sourceId = sourceId).map anchor =
      (table'.filter fun r ↦ r.sourceId = sourceId).map anchor := by
  have hfilter : ∀ l : List SourceSpan, (l.filter fun r ↦ r.sourceId = sourceId).map anchor =
      (l.map anchor).filter fun a ↦ a.2.1 = sourceId := by
    intro l
    rw [List.filter_map]
    rfl
  rw [hfilter, hfilter, h]

/-- The spans of the source after the first ingest are those of the document. -/
theorem Start.filter_first (start : Start) (order : Order) :
    (start.state.ingest env doc start.sourceId start.userId order).table.filter
        (fun r ↦ r.sourceId = start.sourceId) =
      doc.spans env start.sourceId start.userId start.state.next := by
  have hold : start.state.table.filter (fun r ↦ r.sourceId = start.sourceId) = [] := by
    rw [List.filter_eq_nil_iff]
    intro r hr
    rw [decide_eq_true_eq]
    exact start.fresh r hr
  have hnew : (doc.spans env start.sourceId start.userId start.state.next).filter
      (fun r ↦ r.sourceId = start.sourceId) =
        doc.spans env start.sourceId start.userId start.state.next := by
    rw [List.filter_eq_self]
    intro r hr
    rw [decide_eq_true_eq]
    exact (of_mem_spans hr).1
  rw [start.first_table, List.filter_append, hold, hnew, List.nil_append]

/-- The old spans of a later ingest, if no anchor has changed: their ids differ and they have the
fingerprints of the document. -/
theorem Start.old_spans (start : Start) (first order : Order)
    (h : s.table.map anchor =
      (start.state.ingest env doc start.sourceId start.userId first).table.map anchor) :
    ((order.select (s.table.filter fun r ↦ r.sourceId = start.sourceId)).map (·.id)).Nodup ∧
      ((order.select (s.table.filter fun r ↦ r.sourceId = start.sourceId)).map
        (·.fingerprint)).Perm (doc.fingerprints env) := by
  have hanchors := @filter_anchor start.sourceId _ _ h
  rw [start.filter_first] at hanchors
  have hids := congrArg (List.map Prod.fst) hanchors
  have hfps := congrArg (List.map fun a ↦ a.2.2) hanchors
  rw [List.map_map, List.map_map] at hids hfps
  have hperm := order.perm (s.table.filter fun r ↦ r.sourceId = start.sourceId)
  constructor
  · rw [(hperm.map _).nodup_iff]
    show ((s.table.filter fun r ↦ r.sourceId = start.sourceId).map (Prod.fst ∘ anchor)).Nodup
    rw [hids]
    exact nodup_ids_spans
  · have hspans : (doc.spans env start.sourceId start.userId start.state.next).map
        (·.fingerprint) = doc.fingerprints env := map_fingerprint_spans
    rw [← hspans]
    refine (hperm.map _).trans (List.Perm.of_eq ?_)
    exact hfps

/-- A later ingest of a document with paragraphs matches its spans with the old ones. -/
theorem Start.later_table (start : Start) (first order : Order) (hne : doc.places ≠ [])
    (h : s.table.map anchor =
      (start.state.ingest env doc start.sourceId start.userId first).table.map anchor) :
    (s.ingest env doc start.sourceId start.userId order).table =
      reanchorSpans s.table (order.select (s.table.filter fun r ↦ r.sourceId = start.sourceId))
        (doc.spans env start.sourceId start.userId s.next) := by
  have hlength : (order.select (s.table.filter fun r ↦ r.sourceId = start.sourceId)).length =
      doc.places.length := by
    have hperm := (start.old_spans first order h).2.length_eq
    simpa [Document.fingerprints] using hperm
  have hplaces := List.length_pos_of_ne_nil hne
  unfold State.ingest persistSpans
  dsimp only
  split
  · next heq =>
    have hnil := congrArg List.length heq
    simp only [Document.spans, List.length_mapIdx, List.length_nil] at hnil
    omega
  · next span spans heq =>
    have hsource : span.sourceId = start.sourceId :=
      (of_mem_spans (heq ▸ List.mem_cons_self (a := span) (l := spans))).1
    rw [hsource]
    split
    · next hold =>
      rw [hold, List.length_nil] at hlength
      omega
    · rw [heq]

/-- A document without paragraphs changes nothing. -/
theorem ingest_table_of_nil (order : Order) (h : doc.places = []) :
    (s.ingest env doc sourceId userId order).table = s.table := by
  unfold State.ingest Document.spans
  rw [h]
  rfl

/-- While fingerprints differ, a later ingest keeps what the first one has made. -/
theorem Start.keeps_ingest (start : Start) (first order : Order)
    (hnodup : (doc.fingerprints env).Nodup)
    (h : Keeps start.sourceId (start.state.ingest env doc start.sourceId start.userId first) s) :
    Keeps start.sourceId (start.state.ingest env doc start.sourceId start.userId first)
      (s.ingest env doc start.sourceId start.userId order) := by
  by_cases hne : doc.places = []
  · unfold Keeps
    rw [ingest_table_of_nil order hne]
    exact h
  · obtain ⟨hids, hperm⟩ := start.old_spans first order h.1
    have hspans : (doc.spans env start.sourceId start.userId s.next).map (·.fingerprint) =
        doc.fingerprints env := map_fingerprint_spans
    rw [← hspans] at hnodup hperm
    obtain ⟨hanchors, hstale⟩ := reanchor_of_nodup hids hnodup hperm h.2
    unfold Keeps
    rw [start.later_table first order hne h.1]
    exact ⟨hanchors.trans h.1, hstale⟩

/-- The first ingest makes no span stale. -/
theorem Start.keeps_first (start : Start) (first : Order) :
    Keeps start.sourceId (start.state.ingest env doc start.sourceId start.userId first)
      (start.state.ingest env doc start.sourceId start.userId first) := by
  refine ⟨rfl, fun r hr hsource ↦ ?_⟩
  have hmem : r ∈ (start.state.ingest env doc start.sourceId start.userId first).table.filter
      fun r ↦ r.sourceId = start.sourceId :=
    List.mem_filter.mpr ⟨hr, decide_eq_true hsource⟩
  rw [start.filter_first] at hmem
  exact (of_mem_spans hmem).2

/-- While fingerprints differ, any number of later ingests keeps it. -/
theorem Start.keeps_run (start : Start) (first : Order) (orders : List Order)
    (hnodup : (doc.fingerprints env).Nodup) :
    Keeps start.sourceId (start.state.ingest env doc start.sourceId start.userId first)
      (start.run env doc first orders) := by
  have hall : ∀ s, Keeps start.sourceId
      (start.state.ingest env doc start.sourceId start.userId first) s →
      Keeps start.sourceId (start.state.ingest env doc start.sourceId start.userId first)
        (orders.foldl (State.ingest env doc start.sourceId start.userId) s) := by
    induction orders with
    | nil => exact fun s h ↦ h
    | cons order orders ih => exact fun s h ↦ ih _ (start.keeps_ingest first order hnodup h)
  exact hall _ (start.keeps_first first)

/-- Where two fingerprints are equal, the second ingest adds a row. -/
theorem Start.length_lt_second (start : Start) (first order : Order)
    (hdup : ¬ (doc.fingerprints env).Nodup) :
    (start.state.ingest env doc start.sourceId start.userId first).table.length <
      (start.run env doc first [order]).table.length := by
  have hne : doc.places ≠ [] := by
    intro hnil
    rw [Document.fingerprints, hnil] at hdup
    exact hdup List.nodup_nil
  unfold Start.run
  rw [List.foldl_cons, List.foldl_nil, start.later_table first order hne rfl]
  have hperm := (@Start.old_spans env doc _ start first order rfl).2
  have hspans : ∀ next, (doc.spans env start.sourceId start.userId next).map (·.fingerprint) =
      doc.fingerprints env := fun next ↦ map_fingerprint_spans
  unfold reanchorSpans
  rw [Rows.modify, List.length_map]
  refine @length_lt_of_not_nodup _ ⟨_, []⟩ _ ?_ ?_
  · intro new hnew
    rw [← hspans (start.state.ingest env doc start.sourceId start.userId first).next] at hperm
    obtain ⟨r, hr, heq⟩ := List.mem_map.mp (hperm.symm.subset (List.mem_map_of_mem hnew))
    have hsome : (found _ new).isSome = true :=
      List.find?_isSome.mpr ⟨r, hr, decide_eq_true heq⟩
    exact Option.isSome_iff_exists.mp hsome
  · rw [hspans]
    exact hdup

end Runs

/-- Persisting the spans of a document again, any number of times, keeps the id of every span,
adds none and makes none stale exactly when no two of its paragraphs have one fingerprint. -/
theorem keeps_iff (env : Env) (doc : Document) (start : Start) (first : Order) :
    (∀ orders, Keeps start.sourceId
        (start.state.ingest env doc start.sourceId start.userId first)
        (start.run env doc first orders)) ↔
      (doc.fingerprints env).Nodup := by
  constructor
  · intro h
    by_contra hdup
    have hlength := congrArg List.length (h [first]).1
    rw [List.length_map, List.length_map] at hlength
    exact absurd hlength (start.length_lt_second first first hdup).ne'
  · intro hnodup orders
    exact start.keeps_run first orders hnodup

/-- A source without spans in an empty table. -/
def emptyStart : Start := ⟨⟨[], 0⟩, "s", "u", fun _ h ↦ by cases h⟩

/-- A lower case and words of ASCII letters and digits, and the bytes as their own hash. -/
def asciiEnv : Env where
  lower := List.map Char.toLower
  isWord := Char.isAlphanum
  sha256 bytes := String.ofList (bytes.map fun b ↦ Char.ofNat b.toNat)

/-- Two equal paragraphs. -/
def repeated : Document := .text "Yes.\n\nYes.".toList

/-- The span of the second paragraph becomes stale and a new one is added. -/
theorem repeated_paragraph_stale :
    ¬ Keeps "s" (emptyStart.state.ingest asciiEnv repeated "s" "u" .asInserted)
        (emptyStart.run asciiEnv repeated .asInserted [.asInserted]) ∧
      (emptyStart.run asciiEnv repeated .asInserted [.asInserted]).table.map
        (fun r ↦ (r.id, r.sourceId, r.stale)) =
          [(0, "s", false), (1, "s", true), (3, "s", false)] := by
  have hrun : (emptyStart.run asciiEnv repeated .asInserted [.asInserted]).table.map
      (fun r ↦ (r.id, r.sourceId, r.stale)) =
        [(0, "s", false), (1, "s", true), (3, "s", false)] := by decide +kernel
  refine ⟨fun hkeeps ↦ ?_, hrun⟩
  have hmem : (1, "s", true) ∈ (emptyStart.run asciiEnv repeated .asInserted
      [.asInserted]).table.map fun r ↦ (r.id, r.sourceId, r.stale) := by
    rw [hrun]
    decide
  obtain ⟨r, hr, heq⟩ := List.mem_map.mp hmem
  simp only [Prod.mk.injEq] at heq
  have hfalse := hkeeps.2 r hr heq.2.1
  rw [heq.2.2] at hfalse
  cases hfalse

end WikiMind.Ingest.Spans
