import WikiMind.Base.Path
import WikiMind.Export.Zip

/-!
# Storage and the path migrations

`storage.py` and the session migrations of `database.py`. A file storage resolves a path
below its root and refuses one that leaves it. The first migration cuts the wiki directory
off the paths of articles, the second removes the concept pages whose file is not found.
-/

namespace WikiMind.Storage

open WikiMind.Base
open WikiMind.Export (PageType)

/-- The data directory, as configured, and the working directory of the process. -/
structure Settings where
  dataDir : List Char
  cwd : List Name

/-- The id of a user, a single name; empty for rows of a version without users. -/
structure UserId where
  text : List Char
  plain : '/' ∉ text ∧ text ≠ ['.'] ∧ text ≠ up
  deriving DecidableEq

/-- The files and directories by their places. -/
structure FileSystem where
  file : List Name → Option (List Char)
  dir : List Name → Bool

inductive StorageError where
  | valueError | osError
  deriving DecidableEq, Repr

/-- `LocalFileStorage`: `storage.py:63`. -/
structure LocalFileStorage where
  root : Path
  deriving DecidableEq, Repr

section Storage

variable (settings : Settings) (fs : FileSystem)

/-- `LocalFileStorage._resolve`: `storage.py:69`. -/
def LocalFileStorage.resolve (storage : LocalFileStorage) (relativePath : List Char) :
    Except StorageError (List Name) :=
  let resolved := (storage.root.join relativePath).resolve settings.cwd
  if (storage.root.resolve settings.cwd).isPrefixOf resolved then .ok resolved
  else .error .valueError

/-- `LocalFileStorage.read`: `storage.py:85`. -/
def LocalFileStorage.read (storage : LocalFileStorage) (relativePath : List Char) :
    Except StorageError (List Char) := do
  let path ← storage.resolve settings relativePath
  match fs.file path with
  | some content => return content
  | none => throw .osError

/-- `LocalFileStorage.exists`: `storage.py:124`. -/
def LocalFileStorage.fileExists (storage : LocalFileStorage) (relativePath : List Char) :
    Except StorageError Bool := do
  let path ← storage.resolve settings relativePath
  return (fs.file path).isSome || fs.dir path

/-- `Path(settings.data_dir) / "wiki"`. -/
def Settings.wikiDir : Path := (Path.ofText settings.dataDir).join "wiki".toList

/-- `Path(settings.data_dir) / "raw"`. -/
def Settings.rawDir : Path := (Path.ofText settings.dataDir).join "raw".toList

/-- `get_wiki_storage`: `storage.py:141`. -/
def getWikiStorage (userId : UserId) : LocalFileStorage :=
  ⟨if userId.text = [] then settings.wikiDir else settings.wikiDir.join userId.text⟩

end Storage

/-- An article row, as far as the migrations read it: `models/tables/wiki.py:35`. -/
structure Article where
  id : String
  userId : UserId
  filePath : List Char
  pageType : PageType
  deriving DecidableEq

/-- A source row, as far as the migrations read it. -/
structure Source where
  id : String
  filePath : Option (List Char)
  deriving DecidableEq, Repr

structure Backlink where
  sourceArticleId : String
  targetArticleId : String
  deriving DecidableEq, Repr

/-- The tables, and the ids of the articles in the full-text index. -/
structure Database where
  articles : List Article
  sources : List Source
  backlinks : List Backlink
  articleFts : List String
  deriving DecidableEq

section Migrations

variable (settings : Settings) (fs : FileSystem)

/-- `wiki_prefix`: `database.py:822`. -/
def wikiPrefix : List Char := settings.wikiDir.text ++ ['/']

/-- `raw_prefix`: `database.py:823`. -/
def rawPrefix : List Char := settings.rawDir.text ++ ['/']

/-- Cut the start off an absolute path. -/
def cutStart (start path : List Char) : List Char :=
  if path.head? = some '/' ∧ start <+: path then path.drop start.length else path

def migrateArticle (article : Article) : Article :=
  { article with filePath := cutStart (wikiPrefix settings) article.filePath }

def migrateSource (source : Source) : Source :=
  { source with filePath := source.filePath.map (cutStart (rawPrefix settings)) }

/-- `_migrate_to_relative_paths`: `database.py:814`. -/
def migrateToRelativePaths (db : Database) : Database :=
  { db with
    articles := db.articles.map (migrateArticle settings)
    sources := db.sources.map (migrateSource settings) }

/-- A concept page whose file is not found; a path outside the storage counts as missing. -/
def isOrphan (article : Article) : Bool :=
  match (getWikiStorage settings article.userId).fileExists settings fs article.filePath with
  | .ok found => !found
  | .error _ => true

/-- Remove an article with its links and its entry in the index. -/
def removeArticle (db : Database) (articleId : String) : Database :=
  { db with
    articles := db.articles.filter (·.id ≠ articleId)
    backlinks := db.backlinks.filter fun b ↦
      b.sourceArticleId ≠ articleId ∧ b.targetArticleId ≠ articleId
    articleFts := db.articleFts.filter (· ≠ articleId) }

/-- `_cleanup_orphan_concept_rows`: `database.py:757`. -/
def cleanupOrphanConceptRows (db : Database) : Database :=
  let conceptArticles := db.articles.filter (·.pageType = .concept)
  conceptArticles.foldl (fun db article ↦
    if isOrphan settings fs article then removeArticle db article.id else db) db

/-- The migrations of paths in their order: `database.py:395`. Those between them do not read
or change these columns. -/
def runVersionedMigrations (db : Database) : Database :=
  cleanupOrphanConceptRows settings fs (migrateToRelativePaths settings db)

end Migrations

end WikiMind.Storage
