import WikiMind.Base.Parties
import WikiMind.Base.References
import WikiMind.Base.Run
import WikiMind.Ingest.Sources

/-!
# The life of a capture

A capture is ingested or discarded (`services/capture.py:199–307`). A request loads its row
once and writes the status when it is done, with no look at the row again; between the two
an ingest commits a source (`ingest/utils.py:362`, `ingest/adapters/text.py:45–86` and its
siblings). The system has one step for each part of a request that ends in a look-up or a
commit, in any interleaving of any number of requests of any users.
-/

namespace WikiMind.Ingest.Captures

open WikiMind.Base WikiMind.Ingest

/-- `models/enums.py:104`. -/
inductive CaptureStatus where
  | captured | triaged | ingested | discarded
  deriving DecidableEq, Repr

/-- No request is to move a capture on from here. -/
def CaptureStatus.isTerminal : CaptureStatus → Bool
  | .ingested | .discarded => true
  | .captured | .triaged => false

/-- A row of `models/tables/capture.py:12`, without what is only displayed. -/
structure CaptureSource where
  id : Nat
  userId : String
  rawPayload : String
  contentHash : String
  status : CaptureStatus
  sourceUrl : Option String
  sourceId : Option Nat
  deriving DecidableEq, Repr

namespace CaptureSource

/-- The URL a capture is ingested from, where it has one: `services/capture.py:236`. -/
def url? (c : CaptureSource) : Option String := c.sourceUrl.filter (· ≠ "")

/-- What an ingest turns into a source: the page at the URL, else the payload. -/
def content (c : CaptureSource) (page : String) : String :=
  if c.url?.isSome then page else c.rawPayload

/-- What no request changes. -/
def item (c : CaptureSource) : Nat × String × String × Option String :=
  (c.id, c.userId, c.rawPayload, c.sourceUrl)

/-- The effect on the stored row of a loaded row that was changed: an UPDATE writes the
columns whose values differ from those loaded. -/
def flush (loaded changed stored : CaptureSource) : CaptureSource :=
  { stored with
    status := if changed.status = loaded.status then stored.status else changed.status
    sourceId := if changed.sourceId = loaded.sourceId then stored.sourceId else changed.sourceId }

end CaptureSource

/-- The requests of `api/routes/capture.py:137–182`. -/
inductive Request where
  | create (userId content : String) (sourceUrl : Option String)
  | ingest (captureId : Nat) (userId : String)
  | discard (captureId : Nat) (userId : String)
  deriving DecidableEq, Repr

/-- The capture a request is about. -/
def Request.captureId? : Request → Option Nat
  | .create .. => none
  | .ingest captureId _ | .discard captureId _ => some captureId

def Request.isIngest : Request → Bool
  | .ingest .. => true
  | .create .. | .discard .. => false

/-- Where a request stands. A creation is past its look-up; an ingest or a discard has its
row; an ingest is about to delete a source without file, has found none, has committed its
own without file, or has been given a source by the ingest service; the request has ended, by
itself or by an exception. -/
inductive Phase where
  | started
  | checked
  | loaded (row : CaptureSource)
  | clearing (row : CaptureSource) (contentHash : String) (sourceId : Nat)
  | cleared (row : CaptureSource) (contentHash : String)
  | inserted (row : CaptureSource) (sourceId : Nat)
  | found (row : CaptureSource) (sourceId : Nat)
  | ended | failed
  deriving DecidableEq, Repr

namespace Phase

/-- The row a request under way has loaded. -/
def row? : Phase → Option CaptureSource
  | .loaded row | .clearing row _ _ | .cleared row _ | .inserted row _ | .found row _ => some row
  | .started | .checked | .ended | .failed => none

/-- An ingest that goes on to commit a source. -/
def isCreating : Phase → Bool
  | .clearing .. | .cleared .. => true
  | _ => false

/-- The source without file an ingest is about to delete. -/
def clearing? : Phase → Option Nat
  | .clearing _ _ sourceId => some sourceId
  | _ => none

end Phase

/-- What is committed, with two records of the past: the pages that were fetched, each with
its URL, and for each source an ingest committed the capture it was ingested from. -/
structure Tables where
  captures : List CaptureSource
  nextCapture : Nat
  sources : List Source
  nextSource : Nat
  served : List (String × String)
  made : List Nat

/-- What is committed, and all requests so far. -/
structure State extends Tables where
  requests : Parties Request Phase

/-- The steps of the system. An upload is a source that comes from elsewhere. -/
inductive Label where
  | request (r : Nat) (data : Request)
  | read (r : Nat)
  | insertCapture (r : Nat)
  | dedup (r : Nat) (page : String)
  | clear (r : Nat)
  | insertSource (r : Nat)
  | write (r : Nat) (content : Content)
  | store (r : Nat)
  | fail (r : Nat)
  | upload (userId content : String) (file : Content)
  deriving DecidableEq, Repr

/-- `get_capture`: `services/capture.py:175`. -/
def getCapture (captures : List CaptureSource) (captureId : Nat) (userId : String) :
    Option CaptureSource :=
  (captures.find? (·.id = captureId)).filter (·.userId = userId)

/-- The look-up before a capture is created: `services/capture.py:87`. -/
def findCapture (captures : List CaptureSource) (userId contentHash : String) :
    Option CaptureSource :=
  captures.find? fun c ↦ c.userId = userId ∧ c.contentHash = contentHash

section
variable (server : Server) (sha256 : String → String)

/-- Where a request stands after its first look-up. -/
def afterRead (captures : List CaptureSource) : Request → Phase
  | .create userId content _ =>
    if (findCapture captures userId (sha256 content)).isSome then .ended else .checked
  | .ingest captureId userId =>
    match getCapture captures captureId userId with
    | none => .failed
    | some row => if row.status = .ingested then .ended else .loaded row
  | .discard captureId userId =>
    match getCapture captures captureId userId with
    | none => .failed
    | some row => .loaded row

/-- Where an ingest stands after the dedup check of its content. -/
def afterDedup (sources : List Source) (row : CaptureSource) (page : String) : Phase :=
  let contentHash := sha256 (row.content page)
  match checkSourceDedup sources contentHash row.userId with
  | .error _ => .failed
  | .ok (.hit existing) => .found row existing.id
  | .ok (.zombie existing) => .clearing row contentHash existing.id
  | .ok .fresh => .cleared row contentHash

/-- The pages fetched so far, after an ingest of a capture has fetched one. -/
def CaptureSource.fetch (row : CaptureSource) (page : String) (served : List (String × String)) :
    List (String × String) :=
  match row.url? with
  | none => served
  | some url => (url, page) :: served

/-- A capture names a source. -/
def namesSource (captures : List CaptureSource) (sourceId : Nat) : Bool :=
  captures.any (·.sourceId = some sourceId)

def hasSource (sources : List Source) (sourceId : Nat) : Bool := sources.any (·.id = sourceId)

/-- A request goes on to a phase. -/
def State.goto (s : State) (r : Nat) (phase : Phase) : State :=
  { s with requests := s.requests.goto r phase }

/-- The row of a capture is written. -/
def State.update (s : State) (r : Nat) (loaded changed : CaptureSource) : State :=
  { s.goto r .ended with
    captures := Rows.modify (·.id = loaded.id) (loaded.flush changed) s.captures }

/-- One step; `none` when it is not enabled. -/
def step (s : State) : Label → Option State
  | .request r data =>
    (s.requests.enter r data .started).map fun requests ↦ { s with requests }
  | .read r =>
    (s.requests.get? r).bind fun q ↦
      match q.phase with
      | .started => some (s.goto r (afterRead sha256 s.captures q.data))
      | _ => none
  | .insertCapture r =>
    (s.requests.get? r).bind fun q ↦
      match q.phase, q.data with
      | .checked, .create userId content sourceUrl =>
        some { s.goto r .ended with
          captures := s.captures ++
            [⟨s.nextCapture, userId, content, sha256 content, .captured, sourceUrl, none⟩]
          nextCapture := s.nextCapture + 1 }
      | _, _ => none
  | .dedup r page =>
    (s.requests.get? r).bind fun q ↦
      match q.phase, q.data with
      | .loaded row, .ingest .. =>
        some { s.goto r (afterDedup sha256 s.sources row page) with
          served := row.fetch page s.served }
      | _, _ => none
  | .clear r =>
    (s.requests.get? r).bind fun q ↦
      match q.phase with
      | .clearing row contentHash sourceId =>
        if server = .postgres ∧ namesSource s.captures sourceId then some (s.goto r .failed)
        else
          some { s.goto r (.cleared row contentHash) with
            sources := deleteRow sourceId s.sources }
      | _ => none
  | .insertSource r =>
    (s.requests.get? r).bind fun q ↦
      match q.phase with
      | .cleared row contentHash =>
        some { s.goto r (.inserted row s.nextSource) with
          sources := s.sources ++ [⟨s.nextSource, row.userId, contentHash, none⟩]
          nextSource := s.nextSource + 1
          made := row.id :: s.made }
      | _ => none
  | .write r content =>
    (s.requests.get? r).bind fun q ↦
      match q.phase with
      | .inserted row sourceId =>
        if hasSource s.sources sourceId then
          some { s.goto r (.found row sourceId) with
            sources := setFile sourceId content s.sources }
        else some (s.goto r .failed)
      | _ => none
  | .store r =>
    (s.requests.get? r).bind fun q ↦
      match q.phase, q.data with
      | .found row sourceId, .ingest .. =>
        if server = .postgres ∧ ¬ hasSource s.sources sourceId then some (s.goto r .failed)
        else some (s.update r row { row with status := .ingested, sourceId := some sourceId })
      | .loaded row, .discard .. => some (s.update r row { row with status := .discarded })
      | _, _ => none
  | .fail r => (s.requests.get? r).bind fun q ↦
      match q.phase with
      | .ended | .failed => none
      | _ => some (s.goto r .failed)
  | .upload userId content file =>
    some { s with
      sources := s.sources ++ [⟨s.nextSource, userId, sha256 content, some file⟩]
      nextSource := s.nextSource + 1 }

/-- The system of the capture requests. -/
def captureRequests : Machine State Label := ⟨step server sha256⟩

/-- Nothing has been captured or uploaded. -/
def State.start : State := ⟨⟨[], 0, [], 0, [], []⟩, []⟩

/-- A hash is that of the content of a capture: of its payload, or of a page fetched from
its URL. -/
def IsContent (served : List (String × String)) (c : CaptureSource) (contentHash : String) :
    Prop :=
  match c.url? with
  | none => contentHash = sha256 c.rawPayload
  | some url => ∃ fetched ∈ served, fetched.1 = url ∧ contentHash = sha256 fetched.2

instance (served : List (String × String)) (c : CaptureSource) (contentHash : String) :
    Decidable (IsContent sha256 served c contentHash) := by
  unfold IsContent
  split <;> infer_instance

/-- A source of the owner, with its file, made from the content of a capture. -/
def MadeFrom (served : List (String × String)) (c : CaptureSource) (source : Source) : Prop :=
  source.userId = c.userId ∧ source.hasFile = true ∧ IsContent sha256 served c source.contentHash

instance (served : List (String × String)) (c : CaptureSource) (source : Source) :
    Decidable (MadeFrom sha256 served c source) :=
  inferInstanceAs (Decidable (_ ∧ _ ∧ _))

/-- An ingested capture names a source made from it. -/
def Tables.Named (t : Tables) (c : CaptureSource) : Prop :=
  c.status = .ingested →
    ∃ source ∈ t.sources, c.sourceId = some source.id ∧ MadeFrom sha256 t.served c source

instance (t : Tables) (c : CaptureSource) : Decidable (t.Named sha256 c) :=
  inferInstanceAs (Decidable (_ → _))

/-- Every ingested capture names its source, and no capture was made into two sources. -/
def State.Sound (s : State) : Prop :=
  (∀ c ∈ s.captures, s.Named sha256 c) ∧ s.made.Nodup

instance (s : State) : Decidable (s.Sound sha256) :=
  inferInstanceAs (Decidable (_ ∧ _))

/-- A step leaves every ingested capture ingested and every discarded one discarded. -/
def KeepsTerminal (s : State) (_ : Label) (t : State) : Prop :=
  ∀ c ∈ s.captures, c.status.isTerminal = true →
    ∃ c' ∈ t.captures, c'.id = c.id ∧ c'.status = c.status

instance (s : State) (l : Label) (t : State) : Decidable (KeepsTerminal s l t) :=
  inferInstanceAs (Decidable (∀ c ∈ s.captures, _))

/-- The status an ingest, or a discard, must not find. -/
def Request.opposite (data : Request) : CaptureStatus :=
  if data.isIngest then .discarded else .ingested

/-- Every other request under way on a capture is of the same kind. -/
def SameKind (requests : Parties Request Phase) (q : Party Request Phase) (row : CaptureSource) :
    Prop :=
  ∀ q' ∈ requests, q'.id ≠ q.id → q'.phase.row?.isSome = true →
    q'.data.captureId? = some row.id → q'.data.isIngest = q.data.isIngest

instance (requests : Parties Request Phase) (q : Party Request Phase) (row : CaptureSource) :
    Decidable (SameKind requests q row) :=
  inferInstanceAs (Decidable (∀ q' ∈ requests, _))

/-- An ingest begins on no discarded capture and beside no discard of it, a discard on no
ingested capture and beside no ingest of it. An ingest looks its content up when no other of
its capture is about to commit a source, and no try has left one without its file; where a
source was committed from its capture before, it is given the page that was served then. -/
def InTurn (s : State) : Label → Prop
  | .read r => ∀ q ∈ s.requests.get? r, q.phase = .started →
      ∀ row ∈ (afterRead sha256 s.captures q.data).row?,
        row.status ≠ q.data.opposite ∧ SameKind s.requests q row
  | .dedup r page => ∀ q ∈ s.requests.get? r, ∀ row ∈ q.phase.row?,
      s.requests.Alone Phase.isCreating Request.captureId? q ∧
        (afterDedup sha256 s.sources row page).clearing? = none ∧
        (row.id ∈ s.made →
          ∀ url ∈ row.url?, ∀ fetched ∈ s.served, fetched.1 = url → fetched.2 = page)
  | _ => True

instance (s : State) : ∀ l, Decidable (InTurn sha256 s l)
  | .read r => inferInstanceAs (Decidable (∀ q ∈ s.requests.get? r, q.phase = .started →
      ∀ row ∈ (afterRead sha256 s.captures q.data).row?, _))
  | .dedup r page => inferInstanceAs (Decidable (∀ q ∈ s.requests.get? r, ∀ row ∈ q.phase.row?,
      _ ∧ (afterDedup sha256 s.sources row page).clearing? = none ∧
        (row.id ∈ s.made → ∀ url ∈ row.url?, ∀ fetched ∈ s.served, _ → _)))
  | .request .. | .insertCapture _ | .clear _ | .insertSource _ | .write .. | .store _ |
    .fail _ | .upload .. => .isTrue trivial

end

end WikiMind.Ingest.Captures
