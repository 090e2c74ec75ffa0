import WikiMind.Base.Rows

/-!
# Sources and content dedup

The source table as the ingest paths see it, and the dedup check every adapter makes
before it creates a row (`ingest/utils.py:362`). A row is inserted and committed before
its file is written, so a request that dies in between leaves a row without file; the
dedup check of a later request deletes such a row.
-/

namespace WikiMind.Ingest

open WikiMind.Base

/-- What a source stores: the size of its content and the token estimate made from it. -/
structure Content where
  bytes : Nat
  tokenCount : Nat
  deriving DecidableEq, Repr

/-- A source row, with the content of its file once `file_path` is set. -/
structure Source where
  id : Nat
  userId : String
  contentHash : String
  file : Option Content
  deriving DecidableEq, Repr

/-- Whether `file_path` is set. -/
def Source.hasFile (s : Source) : Bool := s.file.isSome

/-- The size of a source; nothing is stored while it has no file. -/
def Source.bytes (s : Source) : Nat := (s.file.map Content.bytes).getD 0

/-- The token estimate of a source, zero while it has none. -/
def Source.tokenCount (s : Source) : Nat := (s.file.map Content.tokenCount).getD 0

/-- How a request comes to create a source. Feeds, browser history and ambient capture
store captures only; `captureIngest` promotes one. -/
inductive EntryPoint where
  | text | url | pdf | captureIngest | mcpUrl | mcpText
  deriving DecidableEq, Repr

/-- The paths that call `check_source_quota`: the ingest routes
(`api/routes/ingest.py:75, 111, 131`) and the promotion of a capture. -/
def EntryPoint.checksQuota : EntryPoint → Bool
  | .text | .url | .pdf | .captureIngest => true
  | .mcpUrl | .mcpText => false

/-- The paths that check and charge storage: the ingest routes only. -/
def EntryPoint.chargesStorage : EntryPoint → Bool
  | .text | .url | .pdf => true
  | .captureIngest | .mcpUrl | .mcpText => false

/-- `find_source_by_hash`: `ingest/utils.py:346`. -/
def findSourceByHash (sources : List Source) (contentHash userId : String) :
    Except Exc (Option Source) :=
  Rows.oneOrNone (fun s ↦ s.contentHash = contentHash ∧ s.userId = userId) sources

/-- What the dedup check finds. -/
inductive Dedup where
  | hit (existing : Source)
  | zombie (existing : Source)
  | fresh
  deriving DecidableEq, Repr

/-- The decision of `_check_source_dedup`: `ingest/utils.py:362`. -/
def checkSourceDedup (sources : List Source) (contentHash userId : String) :
    Except Exc Dedup := do
  match ← findSourceByHash sources contentHash userId with
  | none => return .fresh
  | some existing => return if existing.hasFile then .hit existing else .zombie existing

/-- Delete a row. -/
def deleteRow (id : Nat) (sources : List Source) : List Source :=
  sources.filter fun s ↦ s.id ≠ id

/-- Record the file of a row. -/
def setFile (id : Nat) (content : Content) (sources : List Source) : List Source :=
  Rows.modify (fun s ↦ s.id = id) (fun s ↦ { s with file := some content }) sources

/-- How many sources a user owns. -/
def owned (userId : String) (sources : List Source) : Nat :=
  sources.countP fun s ↦ s.userId = userId

/-- Deleting a row never adds to what a user owns. -/
theorem owned_deleteRow_le (userId : String) (id : Nat) (sources : List Source) :
    owned userId (deleteRow id sources) ≤ owned userId sources :=
  (List.filter_sublist).countP_le

/-- Recording a file keeps what a user owns. -/
theorem owned_setFile (userId : String) (id : Nat) (content : Content)
    (sources : List Source) :
    owned userId (setFile id content sources) = owned userId sources := by
  unfold owned setFile Rows.modify
  rw [List.countP_map]
  apply List.countP_congr
  intro s _
  by_cases h : s.id = id
  · simp [h]
  · simp [h]

/-- A new row counts for its owner only. -/
theorem owned_append (userId : String) (sources : List Source) (s : Source) :
    owned userId (sources ++ [s]) =
      owned userId sources + if s.userId = userId then 1 else 0 := by
  unfold owned
  rw [List.countP_append, List.countP_singleton]
  simp

/-- A row found without file is a row of the user with that content. -/
theorem zombie_of_checkSourceDedup {sources : List Source} {contentHash userId : String}
    {existing : Source} (h : checkSourceDedup sources contentHash userId = .ok (.zombie existing)) :
    existing ∈ sources ∧ existing.contentHash = contentHash ∧ existing.userId = userId ∧
      existing.hasFile = false := by
  unfold checkSourceDedup at h
  obtain ⟨found, hfound, h⟩ := bind_eq_ok.mp h
  cases found with
  | none => cases h
  | some row =>
    have hrow := Rows.prop_of_oneOrNone hfound
    simp only [decide_eq_true_eq] at hrow
    dsimp only at h
    split at h
    · cases h
    · next hfile =>
      cases h
      exact ⟨Rows.mem_of_oneOrNone hfound, hrow.1, hrow.2, by simpa using hfile⟩

end WikiMind.Ingest
