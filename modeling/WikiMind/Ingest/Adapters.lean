import WikiMind.Base.Flushes
import WikiMind.Ingest.Documents
import WikiMind.Ingest.PageDescriptions
import WikiMind.Ingest.Spans
import WikiMind.Jobs.CompileSource

/-!
# Failures of adapters

The adapters for texts, pages and PDFs (`ingest/adapters/`) commit the row of a source and then go
through stages, each with a handler of its own or none. A run is given the row, as it is behind the
dedup check, and the outcome of each stage if it is reached; commits themselves do not fail. The
session is that of `AsyncSession`, which a failed flush breaks.
-/

namespace WikiMind.Ingest.Adapters

open WikiMind.Base WikiMind.Base.Stateful WikiMind.Base.UnitOfWork
open WikiMind.Ingest.Documents (NormalizedDocument fileName orElse)
open WikiMind.Ingest.Spans (Document SourceSpan)
open WikiMind.Jobs (IngestStatus)

/-- The classes that the handlers tell apart: errors of `httpx`, the other classes of
`_LLM_PROVIDER_ERRORS` (`engine/llm_router.py:103`), any other `Exception`, and what is no
`Exception`, as a cancellation. -/
inductive ErrorClass where
  | httpError | providerError | exception | cancelled
  deriving DecidableEq, Repr

/-- What is raised, with its text. -/
structure Error where
  errorClass : ErrorClass
  text : String
  deriving DecidableEq, Repr

/-- `except Exception`. -/
def Error.isException (e : Error) : Bool := e.errorClass ≠ .cancelled

/-- `except (httpx.HTTPError, httpx.ConnectError)`. -/
def Error.isHttpError (e : Error) : Bool := e.errorClass = .httpError

/-- `except _LLM_PROVIDER_ERRORS`. -/
def Error.isProviderError (e : Error) : Bool :=
  e.errorClass = .httpError || e.errorClass = .providerError

/-- What a broken session raises. -/
def pendingRollbackError : Error := ⟨.exception, "PendingRollbackError"⟩

/-- A source row with its status: `models/tables/ingest.py:15`. -/
structure Row extends Documents.Source where
  status : IngestStatus
  errorMessage : Option String
  deriving DecidableEq

/-- What tells a source from others. -/
structure Key where
  id : String
  userId : String
  contentHash : String

/-- The row that an adapter commits. -/
def newRow (key : Key) (title : List Char) (author : Option (List Char))
    (publishedDate : Option String) (tokenCount : Option Nat) : Row :=
  { id := key.id, userId := key.userId, contentHash := key.contentHash, title := some title
    author, publishedDate, tokenCount, filePath := none, cleanText := none
    status := .processing, errorMessage := none }

/-- The row with its file and text. -/
def Row.withText (row : Row) (text : List Char) : Row :=
  { row with toSource := row.toSource.withText text }

/-- The row with the estimate of its tokens. -/
def Row.withTokens (row : Row) (tokens : Nat) : Row :=
  { row with toSource := { row.toSource with tokenCount := some tokens } }

/-- The row with the title that `ingest/adapters/pdf.py:228–231` finds. -/
def Row.withHeading (row : Row) (fallbackTitle extracted : List Char) : Row :=
  { row with toSource := row.toSource.withHeading fallbackTitle extracted }

/-- The row of a file that was not written: `ingest/adapters/text.py:70–79`. -/
def Row.withFailure (row : Row) (e : Error) : Row :=
  { row with status := .failed, errorMessage := some ("File write failed: " ++ e.text) }

/-- An image of a PDF: `models/tables/ingest.py:55`. -/
structure SourceImage where
  sourceId : String
  userId : String
  filename : String
  kind : String
  imageData : List UInt8
  deriving DecidableEq

/-- The rows of an ingest. -/
structure Tables where
  source : Row
  images : List SourceImage
  spans : List SourceSpan

/-- A session; the storage is the list of the files written. -/
abbrev Session := UnitOfWork Tables (List (List Char))

/-- An adapter behind the commit of its row. -/
abbrev Adapter (α : Type) := Handler Tables (List (List Char)) Error α

/-- Set attributes of the source. -/
def update (f : Row → Row) : Adapter Unit := hold fun t ↦ { t with source := f t.source }

/-- `except Exception as exc` around the files: the row is marked, and the error raised again. -/
def orFailed (x : Adapter Unit) : Adapter Unit :=
  tryCatch x fun e ↦
    if e.isException then do
      update (·.withFailure e)
      UnitOfWork.commit pendingRollbackError
      throw e
    else throw e

/-- A handler that goes on with another value. -/
def orContinue {α : Type} (caught : Error → Bool) (x handle : Adapter α) : Adapter α :=
  tryCatch x fun e ↦ if caught e then handle else throw e

/-- `storage.write`, with its outcome. -/
def writeFile (path : List Char) (outcome : Except Error Unit) : Adapter Unit := do
  Stateful.ofExcept outcome
  store (path :: ·)

/-- The outcomes of the database in `persist_spans`: of the flush before its query, of the query
and of the flush of the spans. -/
structure Persisting where
  autoflush : Except Error Unit
  select : Except Error Unit
  flush : Except Error Unit

/-- `persist_spans` for a new source, which has no spans yet: `ingest/spans.py:243`. -/
def Persisting.persistSpans (p : Persisting) (spans : List SourceSpan) : Adapter Unit :=
  if spans = [] then pure ()
  else do
    UnitOfWork.flush pendingRollbackError p.autoflush
    query pendingRollbackError p.select
    hold fun t ↦ { t with spans := t.spans ++ spans }
    UnitOfWork.flush pendingRollbackError p.flush

/-- What the libraries know, and the next id of a span. -/
structure Env where
  spans : Spans.Env
  nextSpan : Nat
  digits : Digits

/-- The spans of a document, which are extracted without fail. -/
def Env.spansOf (env : Env) (row : Row) (doc : Document) : List SourceSpan :=
  doc.spans env.spans row.id row.userId env.nextSpan

/-- The text, and the outcomes of the refresh of the row, of the file and of the spans. -/
structure TextRun where
  key : Key
  content : List Char
  title : Option (List Char)
  refresh : Except Error Unit
  write : Except Error Unit
  persisting : Persisting

def TextRun.row (r : TextRun) : Row :=
  newRow r.key (orElse r.title "Untitled Note".toList) none none (some (estimateTokens r.content))

/-- `TextAdapter.ingest` behind its first commit: `ingest/adapters/text.py:60`. -/
def TextRun.ingest (env : Env) (r : TextRun) : Adapter (Row × NormalizedDocument) := do
  query pendingRollbackError r.refresh
  orFailed do
    writeFile (fileName r.row.id ".txt") r.write
    update (·.withText r.content)
  r.persisting.persistSpans (env.spansOf r.row (.text r.content))
  UnitOfWork.commit pendingRollbackError
  let source := (← held?).source
  return (source, {
    rawSourceId := source.id
    cleanText := r.content
    title := orElse source.title "Untitled Note".toList
    estimatedTokens := source.tokenCount.getD 0
    chunks := chunkText r.content source.id })

/-- The page with its metadata, and the outcomes of the refresh of the row, of the two files and of
the spans. -/
structure UrlRun where
  key : Key
  netloc : List Char
  metaTitle : Option (List Char)
  author : Option (List Char)
  downloaded : List Char
  refresh : Except Error Unit
  writeHtml : Except Error Unit
  writeText : Except Error Unit
  persisting : Persisting

def UrlRun.title (r : UrlRun) : List Char := orElse r.metaTitle r.netloc

def UrlRun.row (r : UrlRun) : Row := newRow r.key r.title r.author none none

/-- `URLAdapter.ingest` behind its first commit: `ingest/adapters/url.py:91`. -/
def UrlRun.ingest (env : Env) (r : UrlRun) : Adapter (Row × NormalizedDocument) := do
  query pendingRollbackError r.refresh
  orFailed do
    writeFile (fileName r.row.id ".html") r.writeHtml
    writeFile (fileName r.row.id ".txt") r.writeText
    update (·.withText r.downloaded)
  orContinue Error.isException
    (r.persisting.persistSpans (env.spansOf r.row (.url r.downloaded))) (pure ())
  let tokenCount := estimateTokens r.downloaded
  update (·.withTokens tokenCount)
  UnitOfWork.commit pendingRollbackError
  let source := (← held?).source
  return (source, {
    rawSourceId := source.id
    cleanText := r.downloaded
    title := r.title
    author := source.author
    estimatedTokens := tokenCount
    chunks := chunkText r.downloaded source.id })

/-- The settings for PDFs. -/
structure PdfSettings where
  visionEnabled : Bool
  visionTextThreshold : Nat
  visionMaxPagesPerBatch : Nat
  imageExtractionEnabled : Bool

/-- A PDF with its metadata, and the outcomes of its stages. The text of the pages is read up to
three times: when `docling-serve` fails, for the look at sparse pages and for the spans. -/
structure PdfRun where
  key : Key
  settings : PdfSettings
  filename : List Char
  metaTitle : Option (List Char)
  author : Option (List Char)
  publishedDate : Option String
  refresh : Except Error Unit
  writeBytes : Except Error Unit
  resolvePath : Except Error Unit
  emitSending : Except Error Unit
  convert : Except Error (List Char)
  countPages : Except Error Unit
  emitComplete : Except Error Unit
  fallbackTexts : Except Error (List (List Char))
  visionTexts : Except Error (List (List Char))
  emitDescribing : Except Error Unit
  render : Except Error Unit
  respond : List Nat → Except Error (List Char)
  writeText : Except Error Unit
  images : Except Error (List SourceImage)
  spanTexts : Except Error (List (List Char))
  persisting : Persisting

namespace PdfRun

variable (env : Env) (r : PdfRun)

def fallbackTitle : List Char := Documents.withoutPdf r.filename

def row : Row :=
  newRow r.key (orElse r.metaTitle r.fallbackTitle) r.author r.publishedDate none

/-- `_extract_via_docling`: `ingest/adapters/pdf.py:444`. -/
def extractViaDocling : Except Error (List Char) := do
  r.emitSending
  let mdContent ← r.convert
  r.countPages
  r.emitComplete
  return mdContent

/-- `_extract_via_fitz`: `ingest/adapters/pdf.py:325`. -/
def extractViaFitz : Except Error (List Char) := do
  return "\n\n".toList.intercalate (← r.fallbackTexts)

/-- The sparse pages with their descriptions, none if nothing is described:
`ingest/adapters/pdf.py:692–725`. A step of zero is no range. -/
def describePages : Except Error (List (Nat × List Char)) := do
  if r.settings.visionEnabled then
    let sparse := sparsePages (← r.visionTexts) r.settings.visionTextThreshold
    if sparse = [] then return []
    else
      r.emitDescribing
      r.render
      let maxPerBatch := r.settings.visionMaxPagesPerBatch
      if maxPerBatch = 0 then throw ⟨.providerError, "range() arg 3 must not be zero"⟩
      else
        (batches maxPerBatch sparse).forM fun batch ↦ (r.respond batch).map fun _ ↦ ()
        let respond batch := (r.respond batch).toOption.getD []
        let descriptions :=
          describeBatches env.digits respond (fun _ ↦ none) (batches maxPerBatch sparse)
        return sparse.filterMap fun page ↦ (descriptions page).map (page, ·)
  else return []

/-- The descriptions behind a text: `ingest/adapters/pdf.py:730–735`. -/
def withDescriptions (cleanText : List Char) (descriptions : List (Nat × List Char)) : List Char :=
  if descriptions = [] then cleanText
  else cleanText ++ ['\n'].intercalate ("\n\n---\n".toList :: descriptions.map fun p ↦
    "[Visual content (page ".toList ++ Nat.toDigits 10 (p.1 + 1) ++ ")]: ".toList ++ p.2)

/-- `_enhance_with_vision`: `ingest/adapters/pdf.py:667`. -/
def enhanceWithVision (cleanText : List Char) : Except Error (List Char) := do
  return withDescriptions cleanText (← r.describePages env)

/-- The images, if they are wanted: `ingest/adapters/pdf.py:261–288`. -/
def addImages : Adapter Unit :=
  if r.settings.imageExtractionEnabled then
    orContinue Error.isException (do
      let extracted ← Stateful.ofExcept r.images
      hold fun t ↦ { t with images := t.images ++ extracted }) (pure ())
  else pure ()

/-- `PDFAdapter.ingest` behind its first commit: `ingest/adapters/pdf.py:194`. -/
def ingest : Adapter (Row × NormalizedDocument) := do
  query pendingRollbackError r.refresh
  orFailed (writeFile (fileName r.row.id ".pdf") r.writeBytes)
  Stateful.ofExcept r.resolvePath
  let extracted ← orContinue Error.isHttpError (Stateful.ofExcept r.extractViaDocling)
    (Stateful.ofExcept r.extractViaFitz)
  update (·.withHeading r.fallbackTitle extracted)
  let cleanText ← orContinue Error.isProviderError
    (Stateful.ofExcept (r.enhanceWithVision env extracted)) (pure extracted)
  orFailed do
    writeFile (fileName r.row.id ".txt") r.writeText
    update (·.withText cleanText)
  r.addImages
  orContinue Error.isException (do
    let pageTexts ← Stateful.ofExcept r.spanTexts
    r.persisting.persistSpans (env.spansOf r.row (.pdf cleanText (some pageTexts)))) (pure ())
  let tokenCount := estimateTokens cleanText
  update (·.withTokens tokenCount)
  UnitOfWork.commit pendingRollbackError
  let source := (← held?).source
  return (source, {
    rawSourceId := source.id
    cleanText := cleanText
    title := orElse source.title "Untitled".toList
    estimatedTokens := tokenCount
    chunks := chunkText cleanText source.id })

end PdfRun

/-- An ingest through one of the adapters. -/
inductive Run where
  | text (r : TextRun)
  | url (r : UrlRun)
  | pdf (r : PdfRun)

def Run.row : Run → Row
  | .text r => r.row
  | .url r => r.row
  | .pdf r => r.row

def Run.ingest (env : Env) : Run → Adapter (Row × NormalizedDocument)
  | .text r => r.ingest env
  | .url r => r.ingest env
  | .pdf r => r.ingest env

/-- The session behind the first commit. -/
def opened (row : Row) : Session := UnitOfWork.start ⟨row, [], []⟩ []

/-- A row that can be compiled: it has its text and a file, which was written. -/
structure Row.Usable (row : Row) (files : List (List Char)) : Prop where
  status : row.status = .processing
  cleanText : row.cleanText.isSome = true
  filePath : ∃ path ∈ files, path ≠ [] ∧ row.filePath = some path

/-- A row that has failed, with an error message. -/
def Row.Marked (row : Row) : Prop :=
  row.status = .failed ∧ ∃ message, message ≠ "" ∧ row.errorMessage = some message

/-- An ingest that returns leaves a usable source. -/
def LeavesUsable {α : Type} (_ : α) (s : Session) : Prop :=
  s.committed.source.Usable s.storage

/-- One that raises has marked the row. -/
def LeavesMarked (_ : Error) (s : Session) : Prop := s.committed.source.Marked

/-- The ingest returns a usable source, or its row has failed. -/
def Run.Settles (env : Env) (run : Run) : Prop :=
  wp (run.ingest env) LeavesUsable LeavesMarked (opened run.row)

/-! ### When the handlers suffice -/

/-- What is raised, if anything, is caught. -/
def Caught {α : Type} (caught : Error → Bool) (outcome : Except Error α) : Prop :=
  ∀ e, outcome = .error e → caught e = true

/-- The database does all that it is asked for. -/
structure Persisting.Succeeds (p : Persisting) : Prop where
  autoflush : p.autoflush = .ok ()
  select : p.select = .ok ()
  flush : p.flush = .ok ()

/-- No flush fails, and the query raises at most an `Exception`. -/
structure Persisting.Flushes (p : Persisting) : Prop where
  autoflush : p.autoflush = .ok ()
  select : Caught Error.isException p.select
  flush : p.select = .ok () → p.flush = .ok ()

private theorem Persisting.succeeds_iff {p : Persisting} :
    p.Succeeds ↔ p.autoflush = .ok () ∧ p.select = .ok () ∧ p.flush = .ok () :=
  ⟨fun h ↦ ⟨h.1, h.2, h.3⟩, fun h ↦ ⟨h.1, h.2.1, h.2.2⟩⟩

private theorem Persisting.flushes_iff {p : Persisting} :
    p.Flushes ↔ p.autoflush = .ok () ∧ Caught Error.isException p.select ∧
      (p.select = .ok () → p.flush = .ok ()) :=
  ⟨fun h ↦ ⟨h.1, h.2, h.3⟩, fun h ↦ ⟨h.1, h.2.1, h.2.2⟩⟩

/-- Of the stages a text reaches, only the write fails, and with an `Exception`. -/
structure TextRun.Handled (env : Env) (r : TextRun) : Prop where
  refresh : r.refresh = .ok ()
  write : Caught Error.isException r.write
  spans : r.write = .ok () → env.spansOf r.row (.text r.content) ≠ [] → r.persisting.Succeeds

/-- Of the stages a page reaches, only the writes and the query for spans fail, and with an
`Exception`. -/
structure UrlRun.Handled (env : Env) (r : UrlRun) : Prop where
  refresh : r.refresh = .ok ()
  writeHtml : Caught Error.isException r.writeHtml
  writeText : r.writeHtml = .ok () → Caught Error.isException r.writeText
  spans : r.writeHtml = .ok () → r.writeText = .ok () →
    env.spansOf r.row (.url r.downloaded) ≠ [] → r.persisting.Flushes

namespace PdfRun

variable (env : Env) (r : PdfRun)

/-- The text that `docling-serve` gives, that of the pages if it cannot be reached. -/
def extracted : Except Error (List Char) :=
  match r.extractViaDocling with
  | .ok text => .ok text
  | .error e => if e.isHttpError then r.extractViaFitz else .error e

/-- A text with the descriptions of its sparse pages, if there are any. -/
def described (text : List Char) : List Char :=
  withDescriptions text ((r.describePages env).toOption.getD [])

/-- Of the stages from the write of a text on, only these fail, and with an `Exception`: the write,
the images and the spans outside of a flush. -/
structure SavesText (text : List Char) : Prop where
  writeText : Caught Error.isException r.writeText
  images : r.writeText = .ok () → r.settings.imageExtractionEnabled = true →
    Caught Error.isException r.images
  spanTexts : r.writeText = .ok () → Caught Error.isException r.spanTexts
  spans : r.writeText = .ok () → ∀ texts, r.spanTexts = .ok texts →
    env.spansOf r.row (.pdf text (some texts)) ≠ [] → r.persisting.Flushes

/-- Of the stages behind the raw file, these fail at most: `docling-serve` with an error of `httpx`,
when the text of the pages is read then, the descriptions with an error of a provider, and those of
the text that is saved. -/
structure HandledBehind : Prop where
  resolvePath : r.resolvePath = .ok ()
  extraction : ∀ e, r.extractViaDocling = .error e →
    e.isHttpError = true ∧ ∃ texts, r.fallbackTexts = .ok texts
  vision : Caught Error.isProviderError (r.describePages env)
  saves : ∀ text, r.extracted = .ok text → r.SavesText env (r.described env text)

/-- Neither the refresh nor the write of the raw file fails, but for an `Exception` of the write,
and the stages behind them are handled. -/
structure Handled : Prop where
  refresh : r.refresh = .ok ()
  writeBytes : Caught Error.isException r.writeBytes
  behind : r.writeBytes = .ok () → r.HandledBehind env

end PdfRun

def Run.Handled (env : Env) : Run → Prop
  | .text r => r.Handled env
  | .url r => r.Handled env
  | .pdf r => r.Handled env

/-! ### The stages -/

section Stages

variable {α : Type} {c h : Tables} {files : List (List Char)} {Q : α → Session → Prop}
  {E : Error → Session → Prop}

private theorem not_marked_newRow {key : Key} {title : List Char} {author : Option (List Char)}
    {publishedDate : Option String} {tokenCount : Option Nat} :
    ¬ (newRow key title author publishedDate tokenCount).Marked := fun hmarked ↦ nomatch hmarked.1

private theorem marked_withFailure (row : Row) (e : Error) : (row.withFailure e).Marked := by
  refine ⟨rfl, _, fun hempty ↦ ?_, rfl⟩
  have hlength := congrArg String.length hempty
  rw [String.length_append] at hlength
  have hfront : "File write failed: ".length = 19 := rfl
  have hnone : "".length = 0 := rfl
  omega

/-- A stage without a handler has to succeed. -/
theorem wp_query_of_not_marked (hc : ¬ c.source.Marked) {rejected : Error}
    {outcome : Except Error α} :
    wp (query rejected outcome) Q LeavesMarked ⟨c, h, false, files⟩ ↔
      ∃ a, outcome = .ok a ∧ Q a ⟨c, h, false, files⟩ := by
  rw [wp_query, if_neg Bool.false_ne_true]
  cases outcome with
  | ok a => simp [Ends]
  | error e => simp [Ends, LeavesMarked, hc]

private theorem wp_ofExcept_of_not_marked (hc : ¬ c.source.Marked) {outcome : Except Error α} :
    wp (Stateful.ofExcept outcome) Q LeavesMarked ⟨c, h, false, files⟩ ↔
      ∃ a, outcome = .ok a ∧ Q a ⟨c, h, false, files⟩ := by
  rw [wp_ofExcept]
  cases outcome with
  | ok a => simp [Ends]
  | error e => simp [Ends, LeavesMarked, hc]

/-- What a handler that goes on does. -/
theorem wp_orContinue {caught : Error → Bool} {x handle : Adapter α} {s : Session} :
    wp (orContinue caught x handle) Q E s ↔
      wp x Q (fun e t ↦ if caught e then wp handle Q E t else E e t) s := by
  unfold orContinue
  rw [wp_tryCatch]
  apply iff_of_eq
  congr 1
  funext e t
  split <;> rfl

private theorem wp_writeFile {path : List Char} {outcome : Except Error Unit}
    {Q : Unit → Session → Prop} :
    wp (writeFile path outcome) Q E ⟨c, h, false, files⟩ ↔
      Ends (fun _ ↦ Q () ⟨c, h, false, path :: files⟩) (E · ⟨c, h, false, files⟩) outcome := by
  unfold writeFile
  rw [wp_bind, wp_ofExcept]
  rfl

/-- The handler of the files marks the row, unless what it is given is no `Exception`. -/
theorem wp_orFailed_writeFile_bind (hc : ¬ c.source.Marked) {path : List Char}
    {outcome : Except Error Unit} {x : Adapter Unit} {Q : Unit → Session → Prop} :
    wp (orFailed (writeFile path outcome >>= fun _ ↦ x)) Q LeavesMarked ⟨c, h, false, files⟩ ↔
      Caught Error.isException outcome ∧
        (outcome = .ok () → wp (orFailed x) Q LeavesMarked ⟨c, h, false, path :: files⟩) := by
  unfold orFailed Caught
  rw [wp_tryCatch, wp_bind, wp_writeFile]
  cases outcome with
  | ok u => simp [Ends, wp_tryCatch]
  | error e =>
    change wp _ Q LeavesMarked ⟨c, h, false, files⟩ ↔ _
    have hmarked := marked_withFailure h.source e
    cases he : e.isException with
    | true =>
      rw [if_pos rfl, wp_bind, update, wp_hold, wp_bind, wp_commit, if_neg Bool.false_ne_true,
        wp_throw]
      simpa [LeavesMarked, he] using hmarked
    | false =>
      rw [if_neg Bool.false_ne_true, wp_throw]
      simpa [LeavesMarked, he] using hc

private theorem wp_orFailed_writeFile (hc : ¬ c.source.Marked) {path : List Char}
    {outcome : Except Error Unit} {Q : Unit → Session → Prop} :
    wp (orFailed (writeFile path outcome)) Q LeavesMarked ⟨c, h, false, files⟩ ↔
      Caught Error.isException outcome ∧
        (outcome = .ok () → Q () ⟨c, h, false, path :: files⟩) := by
  rw [← bind_pure (writeFile path outcome)]
  exact wp_orFailed_writeFile_bind (x := pure ()) hc

private theorem wp_update {f : Row → Row} {broken : Bool} {Q : Unit → Session → Prop} :
    wp (update f) Q E ⟨c, h, broken, files⟩ ↔
      Q () ⟨c, { h with source := f h.source }, broken, files⟩ := Iff.rfl

private theorem wp_orFailed_update {f : Row → Row} {Q : Unit → Session → Prop} :
    wp (orFailed (update f)) Q E ⟨c, h, false, files⟩ ↔
      Q () ⟨c, { h with source := f h.source }, false, files⟩ := Iff.rfl

/-- Spans that are stored without a handler. -/
theorem wp_persistSpans (hc : ¬ c.source.Marked) {p : Persisting} {spans : List SourceSpan}
    {Q : Unit → Session → Prop} :
    wp (p.persistSpans spans) Q LeavesMarked ⟨c, h, false, files⟩ ↔
      (spans ≠ [] → p.Succeeds) ∧ Q () ⟨c, { h with spans := h.spans ++ spans }, false, files⟩ := by
  unfold Persisting.persistSpans
  split
  · next hnil => simp [hnil, wp_pure]
  · next hsome =>
    obtain ⟨autoflush, select, flush⟩ := p
    simp only [wp_bind, wp_flush, wp_query, wp_hold, Bool.false_eq_true, if_false]
    cases autoflush with
    | error e => simp [Ends, LeavesMarked, hc, hsome, Persisting.succeeds_iff]
    | ok u =>
      cases select with
      | error e => simp [Ends, LeavesMarked, hc, hsome, Persisting.succeeds_iff]
      | ok u =>
        cases flush with
        | error e => simp [Ends, LeavesMarked, hc, hsome, Persisting.succeeds_iff]
        | ok u => simp [Ends, Persisting.succeeds_iff]

/-- Spans that are stored under `except Exception`, in front of an operation on the session: what
goes on with a broken session fails. -/
theorem wp_orContinue_persistSpans (hc : ¬ c.source.Marked) {p : Persisting}
    {spans : List SourceSpan} {Q : Unit → Session → Prop}
    (hQ : ∀ h', h'.source = h.source → Q () ⟨c, h', false, files⟩)
    (hbroken : ∀ h', ¬ Q () ⟨c, h', true, files⟩) :
    wp (orContinue Error.isException (p.persistSpans spans) (pure ())) Q LeavesMarked
        ⟨c, h, false, files⟩ ↔
      (spans ≠ [] → p.Flushes) := by
  rw [wp_orContinue]
  unfold Persisting.persistSpans
  split
  · next hnil => simp [hnil, wp_pure, hQ]
  · next hsome =>
    obtain ⟨autoflush, select, flush⟩ := p
    simp only [wp_bind, wp_flush, wp_query, wp_hold, wp_pure, Bool.false_eq_true, if_false]
    cases autoflush with
    | error e => simp [Ends, LeavesMarked, hc, hsome, hbroken, Persisting.flushes_iff]
    | ok u =>
      cases select with
      | error e => simp [Ends, LeavesMarked, hc, hsome, hQ, Caught, Persisting.flushes_iff]
      | ok u =>
        cases flush with
        | error e => simp [Ends, LeavesMarked, hc, hsome, hbroken, Persisting.flushes_iff]
        | ok u => simp [Ends, hQ, Caught, Persisting.flushes_iff]

/-- The end of an adapter: the commit, and what is returned. -/
theorem wp_finish (hc : ¬ c.source.Marked) {broken : Bool} {result : Tables → α} :
    wp (UnitOfWork.commit pendingRollbackError >>= fun _ ↦ held? >>= fun t ↦ pure (result t))
        LeavesUsable LeavesMarked ⟨c, h, broken, files⟩ ↔
      broken = false ∧ h.source.Usable files := by
  rw [wp_bind, wp_commit]
  cases broken with
  | true => simp [LeavesMarked, hc]
  | false => exact (and_iff_right rfl).symm

/-- The end of an adapter that sets the tokens before. -/
theorem wp_tokens_finish (hc : ¬ c.source.Marked) {broken : Bool} {tokens : Nat}
    {result : Tables → α} :
    wp (update (·.withTokens tokens) >>= fun _ ↦ UnitOfWork.commit pendingRollbackError >>=
        fun _ ↦ held? >>= fun t ↦ pure (result t)) LeavesUsable LeavesMarked
        ⟨c, h, broken, files⟩ ↔
      broken = false ∧ (h.source.withTokens tokens).Usable files := by
  rw [wp_bind, wp_update, wp_finish hc]

/-- That end behind the spans, which are stored under `except Exception`. -/
theorem wp_persistSpans_finish (hc : ¬ c.source.Marked) {p : Persisting} {spans : List SourceSpan}
    {tokens : Nat} {result : Tables → α} (husable : (h.source.withTokens tokens).Usable files) :
    wp (orContinue Error.isException (p.persistSpans spans) (pure ()))
        (fun _ t ↦ wp (update (·.withTokens tokens) >>= fun _ ↦
          UnitOfWork.commit pendingRollbackError >>= fun _ ↦ held? >>= fun t ↦ pure (result t))
          LeavesUsable LeavesMarked t) LeavesMarked ⟨c, h, false, files⟩ ↔
      (spans ≠ [] → p.Flushes) := by
  refine wp_orContinue_persistSpans hc (fun h' hsource ↦ ?_) fun h' hend ↦ ?_
  · exact (wp_tokens_finish hc).mpr ⟨rfl, hsource ▸ husable⟩
  · exact Bool.false_ne_true ((wp_tokens_finish hc).mp hend).1.symm

/-- A stage whose first part has an outcome, under a handler that goes on. -/
theorem wp_orContinue_ofExcept_bind (hc : ¬ c.source.Marked) {β : Type} {caught : Error → Bool}
    {outcome : Except Error β} {f : β → Adapter α} {handle : Adapter α} :
    wp (orContinue caught (Stateful.ofExcept outcome >>= f) handle) Q LeavesMarked
        ⟨c, h, false, files⟩ ↔
      (∀ e, outcome = .error e →
        caught e = true ∧ wp handle Q LeavesMarked ⟨c, h, false, files⟩) ∧
      ∀ b, outcome = .ok b → wp (orContinue caught (f b) handle) Q LeavesMarked
        ⟨c, h, false, files⟩ := by
  rw [wp_orContinue, wp_bind, wp_ofExcept]
  cases outcome with
  | ok b => simp [Ends, wp_orContinue]
  | error e => cases hcaught : caught e <;> simp [Ends, LeavesMarked, hc, hcaught]

private theorem wp_orContinue_ofExcept (hc : ¬ c.source.Marked) {caught : Error → Bool}
    {outcome : Except Error α} {handle : Adapter α} :
    wp (orContinue caught (Stateful.ofExcept outcome) handle) Q LeavesMarked
        ⟨c, h, false, files⟩ ↔
      (∀ e, outcome = .error e →
        caught e = true ∧ wp handle Q LeavesMarked ⟨c, h, false, files⟩) ∧
      ∀ a, outcome = .ok a → Q a ⟨c, h, false, files⟩ := by
  rw [← bind_pure (Stateful.ofExcept outcome), wp_orContinue_ofExcept_bind hc]
  rfl

end Stages

/-! ### The adapters -/

private theorem usable_withText {row : Row} {text : List Char} {files : List (List Char)}
    (hstatus : row.status = .processing) (hfile : fileName row.id ".txt" ∈ files) :
    (row.withText text).Usable files :=
  ⟨hstatus, rfl, _, hfile, List.append_ne_nil_of_right_ne_nil _ (by decide), rfl⟩

private theorem Row.Usable.withTokens {row : Row} {files : List (List Char)} (h : row.Usable files)
    (tokens : Nat) : (row.withTokens tokens).Usable files := ⟨h.status, h.cleanText, h.filePath⟩

private theorem TextRun.settles_iff (env : Env) (r : TextRun) :
    (Run.text r).Settles env ↔ r.Handled env := by
  have hrow : ¬ (Tables.mk r.row [] []).source.Marked := not_marked_newRow
  have husable : (r.row.withText r.content).Usable [fileName r.row.id ".txt"] :=
    usable_withText rfl List.mem_cons_self
  change wp (r.ingest env) LeavesUsable LeavesMarked
    ⟨⟨r.row, [], []⟩, ⟨r.row, [], []⟩, false, []⟩ ↔ _
  unfold TextRun.ingest
  rw [wp_bind, wp_query_of_not_marked hrow]
  simp only [wp_bind (x := orFailed _), wp_orFailed_writeFile_bind hrow, wp_orFailed_update,
    wp_bind (x := Persisting.persistSpans _ _), wp_persistSpans hrow, wp_finish hrow, true_and]
  constructor
  · rintro ⟨⟨⟩, hrefresh, hwrite, hspans⟩
    exact ⟨hrefresh, hwrite, fun h ↦ (hspans h).1⟩
  · rintro ⟨hrefresh, hwrite, hspans⟩
    exact ⟨(), hrefresh, hwrite, fun h ↦ ⟨hspans h, husable⟩⟩

private theorem UrlRun.settles_iff (env : Env) (r : UrlRun) :
    (Run.url r).Settles env ↔ r.Handled env := by
  have hrow : ¬ (Tables.mk r.row [] []).source.Marked := not_marked_newRow
  have husable : (r.row.withText r.downloaded).Usable
      [fileName r.row.id ".txt", fileName r.row.id ".html"] :=
    usable_withText rfl List.mem_cons_self
  change wp (r.ingest env) LeavesUsable LeavesMarked
    ⟨⟨r.row, [], []⟩, ⟨r.row, [], []⟩, false, []⟩ ↔ _
  unfold UrlRun.ingest
  rw [wp_bind, wp_query_of_not_marked hrow]
  simp only [wp_bind (x := orFailed _), wp_orFailed_writeFile_bind hrow, wp_orFailed_update,
    wp_bind (x := orContinue _ _ _),
    wp_persistSpans_finish (h := ⟨r.row.withText r.downloaded, [], []⟩) hrow
      (husable.withTokens _)]
  constructor
  · rintro ⟨⟨⟩, hrefresh, hhtml, htext⟩
    exact ⟨hrefresh, hhtml, fun h ↦ (htext h).1, fun h h' ↦ (htext h).2 h'⟩
  · rintro ⟨hrefresh, hhtml, htext, hspans⟩
    exact ⟨(), hrefresh, hhtml, fun h ↦ ⟨htext h, hspans h⟩⟩

namespace PdfRun

variable {env : Env} {r : PdfRun}

/-- The source is the same behind the images. -/
theorem wp_addImages {c h : Tables} (hc : ¬ c.source.Marked) {files : List (List Char)}
    {Q : Unit → Session → Prop} {P : Prop}
    (hQ : ∀ h', h'.source = h.source → (Q () ⟨c, h', false, files⟩ ↔ P)) :
    wp r.addImages Q LeavesMarked ⟨c, h, false, files⟩ ↔
      (r.settings.imageExtractionEnabled = true → Caught Error.isException r.images) ∧ P := by
  unfold addImages
  split
  · next henabled =>
    rw [wp_orContinue_ofExcept_bind hc]
    simp only [henabled, forall_const, wp_pure, hQ h rfl]
    cases himages : r.images with
    | ok images =>
      have hheld : wp (orContinue Error.isException (hold fun t ↦
          { t with images := t.images ++ images }) (pure ())) Q LeavesMarked
            ⟨c, h, false, files⟩ ↔ P := hQ _ rfl
      simp [hheld, Caught]
    | error e => simp [Caught]
  · next henabled =>
    rw [wp_pure, hQ h rfl]
    simp [henabled]

/-- What holds of the extracted text. -/
theorem forall_extracted_iff {P : List Char → Prop} :
    ((∀ e, r.extractViaDocling = .error e →
        e.isHttpError = true ∧ ∃ text, r.extractViaFitz = .ok text ∧ P text) ∧
      ∀ text, r.extractViaDocling = .ok text → P text) ↔
    (∀ e, r.extractViaDocling = .error e →
        e.isHttpError = true ∧ ∃ texts, r.fallbackTexts = .ok texts) ∧
      ∀ text, r.extracted = .ok text → P text := by
  unfold extracted extractViaFitz
  cases r.extractViaDocling with
  | ok text => simp
  | error e =>
    cases hhttp : e.isHttpError with
    | false => simp [hhttp]
    | true => cases r.fallbackTexts <;> simp [hhttp]

private theorem exists_extracted (h : ∀ e, r.extractViaDocling = .error e →
    e.isHttpError = true ∧ ∃ texts, r.fallbackTexts = .ok texts) :
    ∃ text, r.extracted = .ok text := by
  unfold extracted extractViaFitz
  cases hdocling : r.extractViaDocling with
  | ok text => exact ⟨text, rfl⟩
  | error e =>
    obtain ⟨hhttp, texts, htexts⟩ := h e hdocling
    exact ⟨"\n\n".toList.intercalate texts, by simp [hhttp, htexts]⟩

/-- What holds of the text with the descriptions. -/
theorem forall_enhanced_iff {P : List Char → Prop} {text : List Char} :
    ((∀ e, r.enhanceWithVision env text = .error e → e.isProviderError = true ∧ P text) ∧
      ∀ enhanced, r.enhanceWithVision env text = .ok enhanced → P enhanced) ↔
    Caught Error.isProviderError (r.describePages env) ∧ P (r.described env text) := by
  unfold enhanceWithVision described Caught
  cases r.describePages env with
  | ok descriptions => simp [Except.toOption]
  | error e => simp [Except.toOption, withDescriptions]

/-- From the write of the text on. -/
theorem wp_saveText {α : Type} {c h : Tables} (hc : ¬ c.source.Marked) {files : List (List Char)}
    {path text : List Char} (husable : (h.source.withText text).Usable (path :: files))
    {tokens : Nat} {result : Tables → α} :
    wp (orFailed (writeFile path r.writeText >>= fun _ ↦ update (·.withText text)))
        (fun _ t ↦ wp r.addImages
          (fun _ t ↦ wp (orContinue Error.isException (Stateful.ofExcept r.spanTexts >>= fun texts ↦
              r.persisting.persistSpans (env.spansOf r.row (.pdf text (some texts)))) (pure ()))
            (fun _ t ↦ wp (update (·.withTokens tokens) >>= fun _ ↦
              UnitOfWork.commit pendingRollbackError >>= fun _ ↦ held? >>= fun t ↦ pure (result t))
              LeavesUsable LeavesMarked t) LeavesMarked t) LeavesMarked t) LeavesMarked
        ⟨c, h, false, files⟩ ↔ r.SavesText env text := by
  have hspans (h' : Tables) (hsource : h'.source = h.source.withText text) :
      wp (orContinue Error.isException (Stateful.ofExcept r.spanTexts >>= fun texts ↦
          r.persisting.persistSpans (env.spansOf r.row (.pdf text (some texts)))) (pure ()))
        (fun _ t ↦ wp (update (·.withTokens tokens) >>= fun _ ↦
          UnitOfWork.commit pendingRollbackError >>= fun _ ↦ held? >>= fun t ↦ pure (result t))
          LeavesUsable LeavesMarked t) LeavesMarked ⟨c, h', false, path :: files⟩ ↔
      Caught Error.isException r.spanTexts ∧ ∀ texts, r.spanTexts = .ok texts →
        env.spansOf r.row (.pdf text (some texts)) ≠ [] → r.persisting.Flushes := by
    have husable' : (h'.source.withTokens tokens).Usable (path :: files) :=
      hsource ▸ husable.withTokens tokens
    rw [wp_orContinue_ofExcept_bind hc]
    simp only [wp_persistSpans_finish hc husable', wp_pure, wp_tokens_finish hc, husable',
      and_true]
    rfl
  rw [wp_orFailed_writeFile_bind hc]
  simp only [wp_orFailed_update]
  rw [wp_addImages hc hspans]
  exact ⟨fun h ↦ ⟨h.1, fun hok ↦ (h.2 hok).1, fun hok ↦ (h.2 hok).2.1, fun hok ↦ (h.2 hok).2.2⟩,
    fun h ↦ ⟨h.1, fun hok ↦ ⟨h.2 hok, h.3 hok, h.4 hok⟩⟩⟩

private theorem withHeading_same (row : Row) (fallbackTitle extracted : List Char) :
    (row.withHeading fallbackTitle extracted).id = row.id ∧
      (row.withHeading fallbackTitle extracted).status = row.status := by
  refine ⟨?_, rfl⟩
  change (row.toSource.withHeading fallbackTitle extracted).id = row.id
  unfold Documents.Source.withHeading
  split
  · split <;> rfl
  · rfl

private theorem settles_iff (env : Env) (r : PdfRun) :
    (Run.pdf r).Settles env ↔ r.Handled env := by
  have hrow : ¬ (Tables.mk r.row [] []).source.Marked := not_marked_newRow
  change wp (r.ingest env) LeavesUsable LeavesMarked
    ⟨⟨r.row, [], []⟩, ⟨r.row, [], []⟩, false, []⟩ ↔ _
  have husable (extracted text : List Char) :
      ((r.row.withHeading r.fallbackTitle extracted).withText text).Usable
        [fileName r.row.id ".txt", fileName r.row.id ".pdf"] := by
    obtain ⟨hid, hstatus⟩ := withHeading_same r.row r.fallbackTitle extracted
    exact usable_withText hstatus (hid ▸ List.mem_cons_self)
  unfold PdfRun.ingest
  rw [wp_bind, wp_query_of_not_marked hrow]
  simp only [wp_bind (x := orFailed _), wp_orFailed_writeFile hrow,
    wp_bind (x := Stateful.ofExcept _), wp_ofExcept_of_not_marked hrow,
    wp_bind (x := orContinue _ _ _), wp_orContinue_ofExcept hrow,
    wp_bind (x := update (·.withHeading r.fallbackTitle _)), wp_update, wp_pure,
    wp_bind (x := addImages _),
    wp_saveText (h := ⟨r.row.withHeading r.fallbackTitle _, [], []⟩) hrow (husable _ _),
    forall_extracted_iff, forall_enhanced_iff]
  constructor
  · rintro ⟨⟨⟩, hrefresh, hbytes, hbehind⟩
    refine ⟨hrefresh, hbytes, fun hok ↦ ?_⟩
    obtain ⟨⟨⟩, hpath, hextraction, htexts⟩ := hbehind hok
    obtain ⟨text, htext⟩ := exists_extracted hextraction
    exact ⟨hpath, hextraction, (htexts text htext).1, fun text htext ↦ (htexts text htext).2⟩
  · rintro ⟨hrefresh, hbytes, hbehind⟩
    refine ⟨(), hrefresh, hbytes, fun hok ↦ ?_⟩
    obtain ⟨hpath, hextraction, hvision, hsaves⟩ := hbehind hok
    exact ⟨(), hpath, hextraction, fun text htext ↦ ⟨hvision, hsaves text htext⟩⟩

end PdfRun

/-- An ingest returns a usable source or marks its row as failed precisely if every stage that it
reaches either succeeds or fails with what the handler of that stage is for. -/
theorem settles_iff_handled (env : Env) (run : Run) : run.Settles env ↔ run.Handled env := by
  cases run with
  | text r => exact r.settles_iff env
  | url r => exact r.settles_iff env
  | pdf r => exact r.settles_iff env

def asciiEnv : Env := ⟨Spans.asciiEnv, 0, asciiDigits⟩

/-- A database that cannot store a null character. -/
def refusesNul : Persisting :=
  ⟨.error ⟨.exception, "DataError: invalid byte sequence: 0x00"⟩, .ok (), .ok ()⟩

/-- A pasted text with a null character, whose file is written. -/
def nulText : TextRun := ⟨⟨"s1", "u1", "h1"⟩, "a\x00b".toList, none, .ok (), .ok (), refusesNul⟩

/-- A page with that text. -/
def nulPage : UrlRun :=
  ⟨⟨"s1", "u1", "h1"⟩, "example.org".toList, none, none, "a\x00b".toList, .ok (), .ok (), .ok (),
    refusesNul⟩

/-- The row that a run leaves, and whether it has returned. -/
def Run.leaves (env : Env) (run : Run) : Bool × IngestStatus × Option (List Char) :=
  let (outcome, s) := exec (run.ingest env) (opened run.row)
  (outcome.toBool, s.committed.source.status, s.committed.source.filePath)

/-- Both ingests raise and leave a source in processing without a file. -/
theorem not_settles_nul :
    ((Run.text nulText).leaves asciiEnv = (false, .processing, none) ∧
      ¬ (Run.text nulText).Settles asciiEnv) ∧
    (Run.url nulPage).leaves asciiEnv = (false, .processing, none) ∧
      ¬ (Run.url nulPage).Settles asciiEnv := by
  have htext : asciiEnv.spansOf nulText.row (.text nulText.content) ≠ [] := by decide +kernel
  have hpage : asciiEnv.spansOf nulPage.row (.url nulPage.downloaded) ≠ [] := by decide +kernel
  refine ⟨⟨by decide +kernel, fun h ↦ ?_⟩, by decide +kernel, fun h ↦ ?_⟩
  · exact nomatch (((nulText.settles_iff asciiEnv).mp h).spans rfl htext).autoflush
  · exact nomatch (((nulPage.settles_iff asciiEnv).mp h).spans rfl rfl hpage).autoflush

end WikiMind.Ingest.Adapters
