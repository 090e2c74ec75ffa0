import Mathlib.Data.List.Nodup
import WikiMind.Base.JsonString
import WikiMind.Base.Text
import WikiMind.Compile.Articles

/-!
# Export of a wiki

`services/wiki_export.py`. The articles of a user go into a zip archive, each under a name
made from its title: with YAML frontmatter for Obsidian, or as plain bodies beside a file
`metadata.json`. Texts are lists of characters; times and scores are given by their texts,
a JSON file by its value.
-/

namespace WikiMind.Export

open WikiMind.Base
open WikiMind.Compile (ConfidenceLevel)

/-- A text on one line, such as a slug, a time or a number. -/
structure Line where
  text : List Char
  oneLine : '\n' ∉ text
  deriving DecidableEq

/-- Types of pages: `models/enums.py:15`. -/
inductive PageType where
  | source | concept | answer | index | metaPage | synthesis
  deriving DecidableEq, Repr

def PageType.value : PageType → String
  | source => "source"
  | concept => "concept"
  | answer => "answer"
  | index => "index"
  | metaPage => "meta"
  | synthesis => "synthesis"

/-- The value of a confidence level: `models/enums.py:60`. -/
def confidenceValue : ConfidenceLevel → String
  | .sourced => "sourced"
  | .mixed => "mixed"
  | .inferred => "inferred"
  | .opinion => "opinion"

/-- An article row, as far as the export reads it: `models/tables/wiki.py:35`. -/
structure Article where
  id : String
  userId : String
  slug : Line
  title : List Char
  filePath : String
  confidence : Option ConfidenceLevel
  summary : Option (List Char)
  createdAt : Line
  updatedAt : Line
  confidenceScore : Line
  pageType : PageType
  deriving DecidableEq

/-- A concept of an article: `models/tables/wiki.py:95`. -/
structure ArticleConcept where
  articleId : String
  conceptName : List Char
  deriving DecidableEq, Repr

/-- A file by its text as it is read, with `\n` at the end of every line: the lines of its
frontmatter, if it has one, and its body. -/
structure StoredFile where
  frontmatter : Option (List Line)
  body : List Char
  deriving DecidableEq

/-- The text of a file. -/
def StoredFile.content (file : StoredFile) : List Char :=
  match file.frontmatter with
  | some lines =>
    "---\n".toList ++ (lines.flatMap (·.text ++ ['\n']) ++ ("---\n".toList ++ file.body))
  | none => file.body

/-- The rows, articles in the order of their titles, and the files of each user by path. -/
structure Wiki where
  articles : List Article
  articleConcepts : List ArticleConcept
  files : String → String → Option StoredFile
  nodup : (articles.map (·.id)).Nodup

/-- `_sanitize_filename`: `services/wiki_export.py:28`. -/
def sanitizeFilename (title : List Char) : List Char :=
  let safe := replaceChar ':' "-" (replaceChar '\\' "-" (replaceChar '/' "-" title))
  let safe := replaceChar '|' "-" (replaceChar '>' "" (replaceChar '<' "" safe))
  let safe := replaceChar '*' "" (replaceChar '?' "" (replaceChar '"' "" safe))
  let atEnd (c : Char) : Bool := c = '.' || c = ' '
  ((safe.take 200).dropWhile atEnd).rdropWhile atEnd

/-- A line of the frontmatter. -/
def field (key : String) (value : List Char) : List Char := key.toList ++ (": ".toList ++ value)

/-- `_build_obsidian_frontmatter`: `services/wiki_export.py:40`. -/
def buildObsidianFrontmatter (article : Article) (concepts : List (List Char)) : List Char :=
  let lines :=
    ["---".toList, field "title" (JsonString.dumps article.title),
      field "slug" article.slug.text, field "page_type" article.pageType.value.toList] ++
    (match article.confidence with
      | some confidence => [field "confidence" (confidenceValue confidence).toList]
      | none => []) ++
    [field "confidence_score" article.confidenceScore.text] ++
    (match article.summary.filter (· ≠ []) with
      | some summary => [field "summary" (JsonString.dumps summary)]
      | none => []) ++
    [field "created_at" article.createdAt.text, field "updated_at" article.updatedAt.text] ++
    (if concepts = [] then [] else "tags:".toList :: concepts.map ("  - ".toList ++ ·)) ++
    ["---".toList]
  ['\n'].intercalate lines ++ ['\n', '\n']

/-- `_strip_frontmatter`: `services/wiki_export.py:61`. -/
def stripFrontmatter (content : List Char) : List Char :=
  if startsWith content "---" then
    match (find "\n---\n".toList (content.drop 3)).map (· + 3) with
    | some fence => content.drop (fence + 5)
    | none => content
  else content

/-- An article in `metadata.json`: `services/wiki_export.py:169`. -/
structure MetadataEntry where
  id : String
  slug : List Char
  title : List Char
  pageType : PageType
  confidence : Option ConfidenceLevel
  confidenceScore : List Char
  summary : Option (List Char)
  concepts : List (List Char)
  createdAt : List Char
  updatedAt : List Char
  filename : List Char
  deriving DecidableEq, Repr

/-- The file `metadata.json`: `services/wiki_export.py:184`. -/
structure Manifest where
  format : String
  exportedAt : List Char
  articleCount : Nat
  articles : List MetadataEntry
  deriving DecidableEq, Repr

/-- The content of an entry of an archive. -/
inductive Content where
  | text (text : List Char)
  | json (manifest : Manifest)
  deriving DecidableEq, Repr

/-- An entry of an archive. -/
structure Entry where
  name : List Char
  content : Content
  deriving DecidableEq, Repr

/-- The name of an entry, which a zip file ends at the first NUL. -/
def entryName (filename : List Char) : List Char := filename.takeWhile (· ≠ '\x00')

/-- `ZipFile.writestr`, which adds an entry beside those of the same name. -/
def writestr (archive : List Entry) (filename : List Char) (content : Content) : List Entry :=
  archive ++ [⟨entryName filename, content⟩]

/-- `ZipFile.read`: the entry written last under a name. -/
def read (archive : List Entry) (name : List Char) : Option Content :=
  (archive.reverse.find? (·.name = name)).map (·.content)

/-- `read_article_content`, empty for a missing file: `storage.py:159`. -/
def readArticleContent (w : Wiki) (filePath userId : String) : List Char :=
  ((w.files userId filePath).map StoredFile.content).getD []

/-- `concepts_map`: `services/wiki_export.py:93`. -/
def conceptsMap (w : Wiki) (articles : List Article) (id : String) : List (List Char) :=
  let rows := w.articleConcepts.filter fun ac ↦ ac.articleId ∈ articles.map (·.id)
  (rows.filter (·.articleId = id)).map (·.conceptName)

/-- `_read_all_contents`: `services/wiki_export.py:120`. -/
def readAllContents (w : Wiki) (articles : List Article) (userId : String) :
    List (String × List Char) :=
  articles.map fun article ↦ (article.id, readArticleContent w article.filePath userId)

/-- The body of an article, without the frontmatter of its file. -/
def exportedBody (contents : List (String × List Char)) (article : Article) : List Char :=
  let rawContent := (contents.lookup article.id).getD []
  if rawContent = [] then [] else stripFrontmatter rawContent

/-- The file name of an article. -/
def filename (article : Article) : List Char := sanitizeFilename article.title ++ ".md".toList

/-- `_build_obsidian_zip`: `services/wiki_export.py:132`. -/
def buildObsidianZip (articles : List Article) (conceptsMap : String → List (List Char))
    (contents : List (String × List Char)) : List Entry :=
  articles.foldl (fun zf article ↦
    let frontmatter := buildObsidianFrontmatter article (conceptsMap article.id)
    writestr zf (filename article) (.text (frontmatter ++ exportedBody contents article))) []

/-- The entry of an article in `metadata.json`. -/
def metadataEntry (article : Article) (concepts : List (List Char)) : MetadataEntry where
  id := article.id
  slug := article.slug.text
  title := article.title
  pageType := article.pageType
  confidence := article.confidence
  confidenceScore := article.confidenceScore.text
  summary := article.summary
  concepts := concepts
  createdAt := article.createdAt.text
  updatedAt := article.updatedAt.text
  filename := filename article

/-- `_build_markdown_json_zip`: `services/wiki_export.py:151`. -/
def buildMarkdownJsonZip (articles : List Article) (conceptsMap : String → List (List Char))
    (contents : List (String × List Char)) (exportedAt : List Char) : List Entry :=
  let zf := articles.foldl (fun zf article ↦
    writestr zf ("articles/".toList ++ filename article)
      (.text (exportedBody contents article))) []
  let manifest : Manifest :=
    { format := "wikimind-export-v1"
      exportedAt := exportedAt
      articleCount := articles.length
      articles := articles.map fun article ↦ metadataEntry article (conceptsMap article.id) }
  writestr zf "metadata.json".toList (.json manifest)

/-- Formats: `models/enums.py:229`. -/
inductive WikiExportFormat where
  | obsidian | markdownJson
  deriving DecidableEq, Repr

/-- The articles of a user. -/
def Wiki.articlesOf (w : Wiki) (userId : String) : List Article :=
  w.articles.filter (·.userId = userId)

/-- `export_wiki`, its archive, name and number of articles: `services/wiki_export.py:73`. -/
def exportWiki (w : Wiki) (userId : String) (fmt : WikiExportFormat)
    (timestamp exportedAt : List Char) : List Entry × List Char × Nat :=
  let articles := w.articlesOf userId
  let concepts := conceptsMap w articles
  let contents := readAllContents w articles userId
  match fmt with
  | .obsidian =>
    (buildObsidianZip articles concepts contents,
      "wikimind-obsidian-".toList ++ timestamp ++ ".zip".toList, articles.length)
  | .markdownJson =>
    (buildMarkdownJsonZip articles concepts contents exportedAt,
      "wikimind-export-".toList ++ timestamp ++ ".zip".toList, articles.length)

end WikiMind.Export
