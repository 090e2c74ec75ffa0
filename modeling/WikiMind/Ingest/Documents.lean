import WikiMind.Base.Rows
import WikiMind.Ingest.Chunks

/-!
# Documents of adapters and rebuilt documents

The ingest adapters store a source and hand its normalized document to the compiler of the
same process. The worker (`jobs/worker.py:65`) and the dedup check (`ingest/utils.py:387`)
rebuild the document from the row. Fetching, extraction and the look at the pages are done
outside; an item holds what they give. Status and error texts are left out, as the document
does not depend on them.
-/

namespace WikiMind.Ingest.Documents

open WikiMind.Base

/-- `s or other`. -/
def orElse (s : Option (List Char)) (other : List Char) : List Char :=
  match s with
  | none | some [] => other
  | some text => text

/-- A source row: `models/tables/ingest.py:15`. A date is given by its text. -/
structure Source where
  id : String
  userId : String
  contentHash : String
  title : Option (List Char)
  author : Option (List Char)
  publishedDate : Option String
  tokenCount : Option Nat
  filePath : Option (List Char)
  cleanText : Option (List Char)
  deriving DecidableEq, Repr

/-- Whether `file_path` is set. -/
def Source.hasFile (s : Source) : Bool := s.filePath.any (· ≠ [])

/-- A normalized document with its defaults: `models/dto/ingest.py:31`. -/
structure NormalizedDocument where
  rawSourceId : String
  cleanText : List Char
  title : List Char
  author : Option (List Char) := none
  publishedDate : Option String := none
  estimatedTokens : Nat := 0
  chunks : List DocumentChunk := []
  deriving DecidableEq, Repr

/-- The hash and the raw storage, of a user each. -/
structure Env where
  computeHash : List UInt8 → String
  read : String → List Char → Except Exc (List Char)
  write : String → List Char → Except Exc Unit

/-- The stored text: `clean_text`, or that of the file if there is none. -/
def contentOf (env : Env) (source : Source) : Except Exc (List Char) :=
  match source.cleanText with
  | some text => .ok text
  | none => if source.hasFile then env.read source.userId (source.filePath.getD [])
    else .error .valueError

/-- `_build_normalized_doc`: `jobs/worker.py:65`. -/
def buildNormalizedDoc (env : Env) (source : Source) : Except Exc NormalizedDocument := do
  let content ← contentOf env source
  return {
    rawSourceId := source.id
    cleanText := content
    title := orElse source.title "Untitled".toList
    author := source.author
    publishedDate := source.publishedDate
    estimatedTokens := estimateTokens content
    chunks := chunkText content source.id }

/-- `reconstruct_normalized_doc`: `ingest/utils.py:387`. -/
def reconstructNormalizedDoc (env : Env) (source : Source) : Except Exc NormalizedDocument := do
  let cleanText ← contentOf env source
  return {
    rawSourceId := source.id
    cleanText := cleanText
    title := orElse source.title "Untitled".toList
    author := source.author
    publishedDate := source.publishedDate
    estimatedTokens := (source.tokenCount.filter (· ≠ 0)).getD (estimateTokens cleanText)
    chunks := chunkText cleanText source.id }

/-- What an adapter returns or raises, and the rows it leaves. -/
abbrev Outcome := Except Exc (Source × NormalizedDocument) × List Source

/-- `_check_source_dedup`, before the rest of an adapter: `ingest/utils.py:362`. -/
def afterDedup (env : Env) (sources : List Source) (payload : List UInt8) (userId : String)
    (fresh : String → List Source → Outcome) : Outcome :=
  let contentHash := env.computeHash payload
  match Rows.oneOrNone (fun s ↦ s.contentHash = contentHash ∧ s.userId = userId) sources with
  | .error e => (.error e, sources)
  | .ok none => fresh contentHash sources
  | .ok (some existing) =>
    if existing.hasFile then ((reconstructNormalizedDoc env existing).map (existing, ·), sources)
    else fresh contentHash (sources.filter (· ≠ existing))

/-- The path of a raw file. -/
def fileName (id extension : String) : List Char := id.toList ++ extension.toList

/-- Write raw files; when that fails the row stays as it is and the error is raised again. -/
def afterWrites (env : Env) (source : Source) (extensions : List String) (sources : List Source)
    (rest : Outcome) : Outcome :=
  match extensions.forM fun extension ↦ env.write source.userId (fileName source.id extension) with
  | .error e => (.error e, sources ++ [source])
  | .ok () => rest

/-- A row with its text. -/
def Source.withText (s : Source) (text : List Char) : Source :=
  { s with filePath := some (fileName s.id ".txt"), cleanText := some text }

/-- `TextAdapter.ingest`: `ingest/adapters/text.py:32`. -/
def ingestText (env : Env) (sources : List Source) (id userId : String) (content : List Char)
    (title : Option (List Char)) : Outcome :=
  afterDedup env sources (utf8 content) userId fun contentHash sources ↦
    let source : Source := {
      id, userId, contentHash
      title := some (orElse title "Untitled Note".toList)
      author := none
      publishedDate := none
      tokenCount := some (estimateTokens content)
      filePath := none
      cleanText := none }
    afterWrites env source [".txt"] sources <|
      let source := source.withText content
      (.ok (source, {
        rawSourceId := source.id
        cleanText := content
        title := orElse source.title "Untitled Note".toList
        estimatedTokens := source.tokenCount.getD 0
        chunks := chunkText content source.id }), sources ++ [source])

/-- `YouTubeAdapter.ingest`: `ingest/adapters/youtube.py:34`, with the id and the transcript. -/
def ingestYouTube (env : Env) (sources : List Source) (id userId : String)
    (videoId transcript : List Char) : Outcome :=
  afterDedup env sources (utf8 transcript) userId fun contentHash sources ↦
    let source : Source := {
      id, userId, contentHash
      title := some ("YouTube: ".toList ++ videoId)
      author := none
      publishedDate := none
      tokenCount := some (estimateTokens transcript)
      filePath := none
      cleanText := none }
    afterWrites env source [".txt"] sources <|
      let source := source.withText transcript
      (.ok (source, {
        rawSourceId := source.id
        cleanText := transcript
        title := orElse source.title "YouTube Video".toList
        estimatedTokens := source.tokenCount.getD 0
        chunks := chunkText transcript source.id }), sources ++ [source])

/-- A page that was fetched: its host, its HTML, the text extracted from it and the title and
the author of its metadata. Only a URL with a host is fetched. -/
structure Page where
  netloc : List Char
  html : List Char
  extracted : Option (List Char)
  title : Option (List Char)
  author : Option (List Char)
  netloc_ne_nil : netloc ≠ []

/-- `URLAdapter.ingest`: `ingest/adapters/url.py:36`. -/
def ingestUrl (env : Env) (sources : List Source) (id userId : String) (page : Page) : Outcome :=
  afterDedup env sources (utf8 page.html) userId fun contentHash sources ↦
    match page.extracted with
    | none | some [] => (.error .valueError, sources)
    | some downloaded =>
      let title := orElse page.title page.netloc
      let source : Source := {
        id, userId, contentHash
        title := some title
        author := page.author
        publishedDate := none
        tokenCount := none
        filePath := none
        cleanText := none }
      afterWrites env source [".html", ".txt"] sources <|
        let tokenCount := estimateTokens downloaded
        let source := { source.withText downloaded with tokenCount := some tokenCount }
        (.ok (source, {
          rawSourceId := source.id
          cleanText := downloaded
          title := title
          author := page.author
          estimatedTokens := tokenCount
          chunks := chunkText downloaded source.id }), sources ++ [source])

/-- `filename.replace(".pdf", "")`. -/
def withoutPdf : List Char → List Char
  | '.' :: 'p' :: 'd' :: 'f' :: rest => withoutPdf rest
  | c :: rest => c :: withoutPdf rest
  | [] => []

/-- `\s+(.+)$` behind a number sign, with the group stripped. If only white space is left, the
group is white space on one line. -/
def headingText (s : List Char) : Option (List Char) :=
  let space := s.takeWhile isSpace
  match s.dropWhile isSpace with
  | [] => if space.tail.any (· ≠ '\n') then some [] else none
  | text => if space = [] then none else some (strip (text.takeWhile (· ≠ '\n')))

/-- `_first_markdown_heading`: `ingest/adapters/pdf.py:122`; the first argument says that a line
begins. -/
def firstMarkdownHeading : Bool → List Char → Option (List Char)
  | _, [] => none
  | start, c :: rest =>
    match if start && c = '#' then headingText rest else none with
    | some heading => some heading
    | none => firstMarkdownHeading (c = '\n') rest

/-- An uploaded PDF: its bytes and name, the metadata that `_extract_pdf_metadata` reads, the
extracted text and the text after the descriptions of its pages were merged into it. -/
structure Pdf where
  fileBytes : List UInt8
  filename : List Char
  title : Option (List Char)
  author : Option (List Char)
  publishedDate : Option String
  extracted : List Char
  enhanced : List Char

/-- The title of a PDF without one of its own is its first heading:
`ingest/adapters/pdf.py:228–231`. -/
def Source.withHeading (s : Source) (fallbackTitle extracted : List Char) : Source :=
  if s.title = some fallbackTitle then
    match firstMarkdownHeading true extracted with
    | none | some [] => s
    | some heading => { s with title := some heading }
  else s

/-- `PDFAdapter.ingest`: `ingest/adapters/pdf.py:147`. -/
def ingestPdf (env : Env) (sources : List Source) (id userId : String) (pdf : Pdf) : Outcome :=
  afterDedup env sources pdf.fileBytes userId fun contentHash sources ↦
    let fallbackTitle := withoutPdf pdf.filename
    let source : Source := {
      id, userId, contentHash
      title := some (orElse pdf.title fallbackTitle)
      author := pdf.author
      publishedDate := pdf.publishedDate
      tokenCount := none
      filePath := none
      cleanText := none }
    afterWrites env source [".pdf"] sources <|
      let source := source.withHeading fallbackTitle pdf.extracted
      let cleanText := pdf.enhanced
      afterWrites env source [".txt"] sources <|
        let tokenCount := estimateTokens cleanText
        let source := { source.withText cleanText with tokenCount := some tokenCount }
        (.ok (source, {
          rawSourceId := source.id
          cleanText := cleanText
          title := orElse source.title "Untitled".toList
          estimatedTokens := tokenCount
          chunks := chunkText cleanText source.id }), sources ++ [source])

/-- What is ingested. -/
inductive Item where
  | text (content : List Char) (title : Option (List Char))
  | url (page : Page)
  | pdf (upload : Pdf)
  | youTube (videoId transcript : List Char)

/-- An ingest, with the id its row is given if it makes one. -/
structure Request where
  userId : String
  id : String
  item : Item

def ingest (env : Env) (sources : List Source) (request : Request) : Outcome :=
  match request.item with
  | .text content title => ingestText env sources request.id request.userId content title
  | .url page => ingestUrl env sources request.id request.userId page
  | .pdf upload => ingestPdf env sources request.id request.userId upload
  | .youTube videoId transcript =>
    ingestYouTube env sources request.id request.userId videoId transcript

/-- The rows after one ingest after the other. -/
def run (env : Env) (sources : List Source) (requests : List Request) : List Source :=
  requests.foldl (fun sources request ↦ (ingest env sources request).2) sources

/-- The bytes whose hash the adapter looks up. -/
def Item.payload : Item → List UInt8
  | .text content _ => utf8 content
  | .url page => utf8 page.html
  | .pdf upload => upload.fileBytes
  | .youTube _ transcript => utf8 transcript

/-- The user has a source with this content. -/
def Known (env : Env) (sources : List Source) (request : Request) : Prop :=
  ∃ s ∈ sources, s.userId = request.userId ∧
    s.contentHash = env.computeHash request.item.payload ∧ s.hasFile = true

/-- A PDF without author and date, or not a PDF. -/
def Item.Anonymous : Item → Prop
  | .pdf upload => upload.author = none ∧ upload.publishedDate = none
  | _ => True

/-- A row whose file is set has its text, and its token count is that of the text or missing. -/
def Kept (s : Source) : Prop :=
  s.hasFile = true → ∃ text, s.cleanText = some text ∧
    (s.tokenCount = none ∨ s.tokenCount = some (estimateTokens text))

/-- The document agrees with its row in all but the author and the date. -/
structure Fits (source : Source) (doc : NormalizedDocument) : Prop where
  id : doc.rawSourceId = source.id
  file : source.hasFile = true
  text : source.cleanText = some doc.cleanText
  title : doc.title = orElse source.title "Untitled".toList
  count : source.tokenCount = some (estimateTokens doc.cleanText)
  tokens : doc.estimatedTokens = estimateTokens doc.cleanText
  chunks : doc.chunks = chunkText doc.cleanText source.id

/-- The rest of an adapter behind the dedup check: it fails and leaves at most a row without
file, or adds a row with its document, which has the author and the date if the item has none
or is no PDF. -/
def Adds (item : Item) (rest : List Source) (o : Outcome) : Prop :=
  (∃ e, o.1 = .error e ∧ (o.2 = rest ∨ ∃ s, s.hasFile = false ∧ o.2 = rest ++ [s])) ∨
    ∃ source doc, o = (.ok (source, doc), rest ++ [source]) ∧ Fits source doc ∧
      ((doc.author = source.author ∧ doc.publishedDate = source.publishedDate) ↔ item.Anonymous)

section Rebuilding

variable {env : Env} {source : Source} {doc : NormalizedDocument}

theorem Fits.kept (h : Fits source doc) : Kept source :=
  fun _ ↦ ⟨doc.cleanText, h.text, .inr h.count⟩

/-- The worker's document of a row with its text. -/
theorem build_of_cleanText {text : List Char} (h : source.cleanText = some text) :
    buildNormalizedDoc env source = .ok
      ⟨source.id, text, orElse source.title "Untitled".toList, source.author,
        source.publishedDate, estimateTokens text, chunkText text source.id⟩ := by
  unfold buildNormalizedDoc contentOf
  rw [h]
  rfl

private theorem Fits.build_iff (h : Fits source doc) : buildNormalizedDoc env source = .ok doc ↔
    doc.author = source.author ∧ doc.publishedDate = source.publishedDate := by
  rw [build_of_cleanText h.text, ← h.title, ← h.id, ← h.tokens]
  have hchunks := h.chunks
  rw [← h.id] at hchunks
  rw [← hchunks, Except.ok.injEq]
  constructor
  · intro heq
    rw [← heq]
    exact ⟨rfl, rfl⟩
  · rintro ⟨hauthor, hdate⟩
    rw [← hauthor, ← hdate]

/-- Both ways of rebuilding give the same document. -/
theorem Kept.reconstruct_eq (env : Env) (h : Kept source) (hfile : source.hasFile = true) :
    reconstructNormalizedDoc env source = buildNormalizedDoc env source := by
  obtain ⟨text, htext, hcount⟩ := h hfile
  have htokens : (source.tokenCount.filter (· ≠ 0)).getD (estimateTokens text) =
      estimateTokens text := by
    rcases hcount with hcount | hcount
    · rw [hcount]
      rfl
    · rw [hcount, Option.filter_some]
      split
      · rfl
      · rfl
  unfold reconstructNormalizedDoc buildNormalizedDoc contentOf
  rw [htext]
  show Except.ok _ = Except.ok _
  rw [htokens]

end Rebuilding

section Adapters

variable {env : Env} {sources rest : List Source} {source : Source} {userId : String}

/-- The dedup check fails, finds a row with a file, or goes on without a row for the content. -/
theorem afterDedup_cases (payload : List UInt8) (fresh : String → List Source → Outcome) :
    (∃ e, afterDedup env sources payload userId fresh = (.error e, sources)) ∨
    (∃ existing ∈ sources, existing.userId = userId ∧
      existing.contentHash = env.computeHash payload ∧ existing.hasFile = true ∧
      afterDedup env sources payload userId fresh =
        ((reconstructNormalizedDoc env existing).map (existing, ·), sources)) ∨
    ∃ rest, rest ⊆ sources ∧ (∀ s ∈ sources, s.hasFile = true → s ∈ rest) ∧
      (∀ s ∈ sources, s.userId = userId → s.contentHash = env.computeHash payload →
        s.hasFile = false) ∧
      afterDedup env sources payload userId fresh = fresh (env.computeHash payload) rest := by
  unfold afterDedup
  cases hfound : Rows.oneOrNone
    (fun s : Source ↦ decide (s.contentHash = env.computeHash payload ∧ s.userId = userId))
    sources with
  | error e => exact .inl ⟨e, by dsimp only; rw [hfound]⟩
  | ok found =>
    dsimp only
    rw [hfound]
    cases found with
    | none =>
      refine .inr (.inr ⟨sources, List.Subset.refl _, fun s hs _ ↦ hs, ?_, rfl⟩)
      intro s hs huser hhash
      have hnot := Rows.not_of_oneOrNone hfound hs
      simp [huser, hhash] at hnot
    | some existing =>
      have hmem := Rows.mem_of_oneOrNone hfound
      have hrow := Rows.prop_of_oneOrNone hfound
      simp only [decide_eq_true_eq] at hrow
      cases hfile : existing.hasFile with
      | true => exact .inr (.inl ⟨existing, hmem, hrow.2, hrow.1, hfile, by simp [hfile]⟩)
      | false =>
        refine .inr (.inr ⟨sources.filter (· ≠ existing), List.filter_subset_self _, ?_, ?_,
          by simp [hfile]⟩)
        · intro s hs hhas
          refine List.mem_filter.mpr ⟨hs, ?_⟩
          rw [decide_eq_true_eq]
          rintro rfl
          rw [hfile] at hhas
          cases hhas
        · intro s hs huser hhash
          have heq : s = existing := Rows.eq_of_oneOrNone hfound hs (by simp [huser, hhash])
          rw [heq]
          exact hfile

/-- Files are written, or the row is left without. -/
theorem afterWrites_cases (extensions : List String) (o : Outcome) :
    afterWrites env source extensions rest o = o ∨
      ∃ e, afterWrites env source extensions rest o = (.error e, rest ++ [source]) := by
  unfold afterWrites
  split
  · next e _ => exact .inr ⟨e, rfl⟩
  · exact .inl rfl

/-- An adapter whose files are written before its row has one. -/
theorem Adds.afterWrites {item : Item} {o : Outcome} (extensions : List String)
    (hfile : source.hasFile = false) (h : Adds item rest o) :
    Adds item rest (afterWrites env source extensions rest o) := by
  rcases afterWrites_cases extensions o with heq | ⟨e, heq⟩
  · rw [heq]
    exact h
  · rw [heq]
    exact .inl ⟨e, rfl, .inr ⟨source, hfile, rfl⟩⟩

private theorem hasFile_withText (text : List Char) : (source.withText text).hasFile = true := by
  have hne : fileName source.id ".txt" ≠ [] := by
    unfold fileName
    simp
  simp [Source.withText, Source.hasFile, hne]

private theorem orElse_ne_nil {s : Option (List Char)} {other : List Char} (h : other ≠ []) :
    orElse s other ≠ [] := by
  unfold orElse
  split
  · exact h
  · exact h
  · next hne => exact fun hnil ↦ hne (hnil ▸ rfl)

/-- A text that is not empty is kept. -/
theorem orElse_some {text other : List Char} (h : text ≠ []) : orElse (some text) other = text := by
  cases text with
  | nil => exact absurd rfl h
  | cons c rest => rfl

/-- A heading changes the title only. -/
theorem withHeading_eq (source : Source) (fallbackTitle extracted : List Char) :
    ∃ title, source.withHeading fallbackTitle extracted = { source with title := title } := by
  unfold Source.withHeading
  split
  · split
    · exact ⟨source.title, rfl⟩
    · exact ⟨source.title, rfl⟩
    · exact ⟨some _, rfl⟩
  · exact ⟨source.title, rfl⟩

private theorem ingestText_adds (request : Request) {content : List Char}
    {title : Option (List Char)} :
    ∃ fresh, ingestText env sources request.id request.userId content title =
        afterDedup env sources (utf8 content) request.userId fresh ∧
      ∀ contentHash rest, Adds (.text content title) rest (fresh contentHash rest) := by
  refine ⟨_, rfl, fun contentHash rest ↦ .afterWrites [".txt"] rfl (.inr ⟨_, _, rfl, ?_, ?_⟩)⟩
  · have htitle : orElse title "Untitled Note".toList ≠ [] := orElse_ne_nil (by decide)
    constructor
    · rfl
    · exact hasFile_withText content
    · rfl
    · simp only [Source.withText, orElse_some htitle]
    · rfl
    · rfl
    · rfl
  · exact iff_of_true ⟨rfl, rfl⟩ trivial

private theorem ingestYouTube_adds (request : Request) {videoId transcript : List Char} :
    ∃ fresh, ingestYouTube env sources request.id request.userId videoId transcript =
        afterDedup env sources (utf8 transcript) request.userId fresh ∧
      ∀ contentHash rest, Adds (.youTube videoId transcript) rest (fresh contentHash rest) := by
  refine ⟨_, rfl, fun contentHash rest ↦ .afterWrites [".txt"] rfl (.inr ⟨_, _, rfl, ?_, ?_⟩)⟩
  · have htitle : "YouTube: ".toList ++ videoId ≠ [] := by simp
    constructor
    · rfl
    · exact hasFile_withText transcript
    · rfl
    · simp only [Source.withText, orElse_some htitle]
    · rfl
    · rfl
    · rfl
  · exact iff_of_true ⟨rfl, rfl⟩ trivial

private theorem ingestUrl_adds (request : Request) {page : Page} :
    ∃ fresh, ingestUrl env sources request.id request.userId page =
        afterDedup env sources (utf8 page.html) request.userId fresh ∧
      ∀ contentHash rest, Adds (.url page) rest (fresh contentHash rest) := by
  refine ⟨_, rfl, fun contentHash rest ↦ ?_⟩
  dsimp only
  split
  · exact .inl ⟨_, rfl, .inl rfl⟩
  · exact .inl ⟨_, rfl, .inl rfl⟩
  · next downloaded _ _ =>
    refine .afterWrites [".html", ".txt"] rfl (.inr ⟨_, _, rfl, ?_, ?_⟩)
    · have htitle : orElse page.title page.netloc ≠ [] := orElse_ne_nil page.netloc_ne_nil
      constructor
      · rfl
      · exact hasFile_withText downloaded
      · rfl
      · simp only [Source.withText, orElse_some htitle]
      · rfl
      · rfl
      · rfl
    · exact iff_of_true ⟨rfl, rfl⟩ trivial

private theorem ingestPdf_adds (request : Request) {upload : Pdf} :
    ∃ fresh, ingestPdf env sources request.id request.userId upload =
        afterDedup env sources upload.fileBytes request.userId fresh ∧
      ∀ contentHash rest, Adds (.pdf upload) rest (fresh contentHash rest) := by
  refine ⟨_, rfl, fun contentHash rest ↦ .afterWrites [".pdf"] rfl ?_⟩
  dsimp only
  obtain ⟨title, htitle⟩ := withHeading_eq ⟨request.id, request.userId, contentHash,
    some (orElse upload.title (withoutPdf upload.filename)), upload.author, upload.publishedDate,
    none, none, none⟩ (withoutPdf upload.filename) upload.extracted
  rw [htitle]
  refine .afterWrites [".txt"] rfl (.inr ⟨_, _, rfl, ?_, ?_⟩)
  · constructor
    · rfl
    · exact hasFile_withText upload.enhanced
    · rfl
    · rfl
    · rfl
    · rfl
    · rfl
  · show none = upload.author ∧ none = upload.publishedDate ↔ _
    rw [@eq_comm _ none, @eq_comm _ none]
    rfl

/-- What each adapter does behind the dedup check. -/
theorem ingest_eq_afterDedup (request : Request) :
    ∃ fresh, ingest env sources request =
        afterDedup env sources request.item.payload request.userId fresh ∧
      ∀ contentHash rest, Adds request.item rest (fresh contentHash rest) := by
  unfold ingest
  cases request.item with
  | text content title => exact ingestText_adds request
  | youTube videoId transcript => exact ingestYouTube_adds request
  | url page => exact ingestUrl_adds request
  | pdf upload => exact ingestPdf_adds request

/-- What an ingest leaves of rows with files: those that were there, and at most one more. -/
theorem ingest_rows (request : Request) :
    (∀ s ∈ sources, s.hasFile = true → s ∈ (ingest env sources request).2) ∧
      ∀ s ∈ (ingest env sources request).2, s ∈ sources ∨ Kept s := by
  obtain ⟨fresh, heq, hadds⟩ := ingest_eq_afterDedup request
  rw [heq]
  rcases afterDedup_cases request.item.payload fresh with
    ⟨e, hraised⟩ | ⟨existing, -, -, -, -, hhit⟩ | ⟨rest, hrest, hfiles, -, hfresh⟩
  · rw [hraised]
    exact ⟨fun s hs _ ↦ hs, fun s hs ↦ .inl hs⟩
  · rw [hhit]
    exact ⟨fun s hs _ ↦ hs, fun s hs ↦ .inl hs⟩
  · rw [hfresh]
    rcases hadds (env.computeHash request.item.payload) rest with
      ⟨e, -, hrows | ⟨failed, hfailed, hrows⟩⟩ | ⟨source, doc, hrows, hfits, -⟩
    · rw [hrows]
      exact ⟨hfiles, fun s hs ↦ .inl (hrest hs)⟩
    · rw [hrows]
      refine ⟨fun s hs hfile ↦ List.mem_append_left _ (hfiles s hs hfile), fun s hs ↦ ?_⟩
      rcases List.mem_append.mp hs with hs | hs
      · exact .inl (hrest hs)
      · rw [List.mem_singleton.mp hs]
        right
        intro hfile
        rw [hfailed] at hfile
        cases hfile
    · rw [hrows]
      refine ⟨fun s hs hfile ↦ List.mem_append_left _ (hfiles s hs hfile), fun s hs ↦ ?_⟩
      rcases List.mem_append.mp hs with hs | hs
      · exact .inl (hrest hs)
      · rw [List.mem_singleton.mp hs]
        exact .inr hfits.kept

/-- Every row of a run is kept as the adapters make it. -/
theorem run_kept (requests : List Request) (h : ∀ s ∈ sources, Kept s) :
    ∀ s ∈ run env sources requests, Kept s := by
  induction requests generalizing sources with
  | nil => exact h
  | cons request requests ih =>
    apply ih
    intro s hs
    rcases (ingest_rows request).2 s hs with hold | hnew
    · exact h s hold
    · exact hnew

/-- A row with a file stays. -/
theorem mem_run (requests : List Request) (hs : source ∈ sources) (hfile : source.hasFile = true) :
    source ∈ run env sources requests := by
  induction requests generalizing sources with
  | nil => exact hs
  | cons request requests ih => exact ih ((ingest_rows request).1 source hs hfile)

end Adapters

/-- In every run, the document an adapter hands out is the one the worker and the dedup check
rebuild from its row at any later time, exactly when the user has the content already or the
item is not a PDF with an author or a date. -/
theorem rebuilt_iff (env : Env) (before later : List Request) (request : Request)
    {source : Source} {doc : NormalizedDocument}
    (h : (ingest env (run env [] before) request).1 = .ok (source, doc)) :
    (source ∈ run env [] (before ++ request :: later) ∧ buildNormalizedDoc env source = .ok doc ∧
        reconstructNormalizedDoc env source = .ok doc) ↔
      Known env (run env [] before) request ∨ request.item.Anonymous := by
  have hkept : ∀ s ∈ run env [] before, Kept s := run_kept before (by simp)
  obtain ⟨fresh, heq, hadds⟩ := @ingest_eq_afterDedup env (run env [] before) request
  have hlater : source ∈ (ingest env (run env [] before) request).2 → source.hasFile = true →
      source ∈ run env [] (before ++ request :: later) := by
    intro hs hfile
    unfold run
    rw [List.foldl_append, List.foldl_cons]
    exact mem_run later hs hfile
  rw [heq] at h hlater
  rcases afterDedup_cases request.item.payload fresh with
    ⟨e, hraised⟩ | ⟨existing, hmem, huser, hhash, hfile, hhit⟩ | ⟨rest, -, -, hnone, hfresh⟩
  · rw [hraised] at h
    cases h
  · rw [hhit] at h hlater
    -- a dedup hit: the document is the one rebuilt from the row that was there
    have hok : (reconstructNormalizedDoc env existing).map (existing, ·) = .ok (source, doc) := h
    cases hrebuilt : reconstructNormalizedDoc env existing with
    | error e =>
      rw [hrebuilt] at hok
      cases hok
    | ok rebuilt =>
      rw [hrebuilt] at hok
      obtain ⟨rfl, rfl⟩ := Prod.mk.inj (Except.ok.inj hok)
      have hbuilt := (hkept existing hmem).reconstruct_eq env hfile
      refine iff_of_true ⟨hlater hmem hfile, ?_, hrebuilt⟩
        (.inl ⟨existing, hmem, huser, hhash, hfile⟩)
      rw [← hbuilt]
      exact hrebuilt
  · have hunknown : ¬ Known env (run env [] before) request := by
      rintro ⟨s, hs, huser, hhash, hfile⟩
      rw [hnone s hs huser hhash] at hfile
      cases hfile
    rw [hfresh] at h hlater
    rw [or_iff_right hunknown]
    rcases hadds (env.computeHash request.item.payload) rest with
      ⟨e, herror, -⟩ | ⟨source', doc', hrows, hfits, hanonymous⟩
    · rw [herror] at h
      cases h
    · rw [hrows] at h hlater
      obtain ⟨rfl, rfl⟩ := Prod.mk.inj (Except.ok.inj h)
      rw [hfits.kept.reconstruct_eq env hfits.file, and_self_iff, hfits.build_iff, ← hanonymous]
      exact and_iff_right (hlater (by simp) hfits.file)

/-- A storage that takes every file. -/
def openEnv : Env where
  computeHash bytes := String.ofList (bytes.map fun b ↦ Char.ofNat b.toNat)
  read _ _ := .error .valueError
  write _ _ := .ok ()

/-- A first note of a user. -/
theorem rebuilt_iff_note : ∃ source doc,
    (ingest openEnv (run openEnv [] []) ⟨"u", "s", .text "Text.".toList none⟩).1 =
        .ok (source, doc) ∧
      ((source ∈ run openEnv [] ([] ++ ⟨"u", "s", .text "Text.".toList none⟩ :: []) ∧
          buildNormalizedDoc openEnv source = .ok doc ∧
          reconstructNormalizedDoc openEnv source = .ok doc) ↔
        Known openEnv (run openEnv [] []) ⟨"u", "s", .text "Text.".toList none⟩ ∨
          (Item.text "Text.".toList none).Anonymous) :=
  ⟨_, _, rfl, rebuilt_iff openEnv [] [] ⟨"u", "s", .text "Text.".toList none⟩ rfl⟩

/-- A PDF with a title and an author. -/
def paper : Pdf where
  fileBytes := [37, 80, 68, 70]
  filename := "paper.pdf".toList
  title := some "On Trees".toList
  author := some "Ada".toList
  publishedDate := none
  extracted := "Text.".toList
  enhanced := "Text.".toList

/-- The document of the adapter has no author, its row and the rebuilt documents have. -/
theorem paper_loses_author : ∃ source doc,
    (ingest openEnv [] ⟨"u", "s", .pdf paper⟩).1 = .ok (source, doc) ∧
      doc.author = none ∧ source.author = some "Ada".toList ∧
      buildNormalizedDoc openEnv source ≠ .ok doc ∧
      reconstructNormalizedDoc openEnv source ≠ .ok doc := by
  refine ⟨_, _, rfl, rfl, rfl, ?_, ?_⟩
  · intro h
    cases congrArg NormalizedDocument.author (Except.ok.inj h)
  · intro h
    cases congrArg NormalizedDocument.author (Except.ok.inj h)

end WikiMind.Ingest.Documents
