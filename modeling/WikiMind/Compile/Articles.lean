import WikiMind.Base.Rows
import WikiMind.Llm.Request

/-!
# Article tables

The rows a compiled source page is stored in (`models/tables/wiki.py`,
`models/tables/compilation.py`) and what `Compiler.save_article` computes before it
writes them: the slug, the resolved backlinks, the relative path, the confidence. Rows are
in the order of their creation. The markdown file, the search index, scores and the
reinforcement log are no part of these tables and are left out.
-/

namespace WikiMind.Compile

open WikiMind.Base WikiMind.Llm

/-- Confidence of claims and articles: `models/enums.py:60`. -/
inductive ConfidenceLevel where
  | sourced | mixed | inferred | opinion
  deriving DecidableEq, Repr

/-- An article. `sourceIds` and `conceptIds` are the decoded JSON columns, `compiledAt` the
time of the compilation it holds: `models/tables/wiki.py:35`. -/
structure Article where
  id : Nat
  userId : String
  slug : String
  title : String
  filePath : String
  conceptIds : List String
  confidence : ConfidenceLevel
  summary : String
  sourceIds : List String
  provider : Option Provider
  compiledAt : Nat

/-- Link of an article to a source: `models/tables/wiki.py:107`. -/
structure ArticleSource where
  articleId : Nat
  sourceId : String
  deriving DecidableEq, Repr

/-- Link of an article to a concept name; both columns are the key:
`models/tables/wiki.py:95`. -/
structure ArticleConcept where
  articleId : Nat
  conceptName : String
  deriving DecidableEq, Repr

/-- A persisted claim: `models/tables/compilation.py:33`. -/
structure CompiledClaim where
  articleId : Nat
  userId : String
  text : String
  subjects : List String
  predicate : Option String
  confidenceLevel : ConfidenceLevel
  quote : Option String
  sourceIds : List String
  sourceSpanIds : List String

/-- A link between two articles, keyed by them: `models/tables/wiki.py:161`. -/
structure Backlink where
  sourceArticleId : Nat
  targetArticleId : Nat
  userId : String
  context : String
  relationType : String

/-- The source row, as far as a compilation writes it. -/
structure SourceRow where
  id : String
  compiledAt : Option Nat

/-- The tables of the compiler and the clock. -/
structure Tables where
  articles : List Article
  nextId : Nat
  articleSources : List ArticleSource
  articleConcepts : List ArticleConcept
  claims : List CompiledClaim
  backlinks : List Backlink
  sources : List SourceRow
  clock : Nat

/-- A claim of a compilation result: `models/dto/compilation.py:23`. -/
structure CompiledClaimDTO where
  claim : String
  confidence : ConfidenceLevel
  subjects : List String
  predicate : Option String
  quote : Option String
  sourceIds : List String
  sourceSpanIds : List String

/-- A compilation result, without the texts that only go into the file:
`models/dto/compilation.py:44`. -/
structure CompilationResult where
  title : String
  summary : String
  keyClaims : List CompiledClaimDTO
  concepts : List String
  backlinkSuggestions : List String

/-- A wikilink candidate that names an article: `engine/wikilink_resolver.py:30`. -/
structure ResolvedBacklink where
  candidateText : String
  targetId : Nat
  relationType : String
  deriving DecidableEq, Repr

/-- Text functions of the libraries and the title normalizer, and the slug attempts. -/
structure TextEnv where
  slugify : Option Nat → String → String
  strip : String → String
  lower : String → String
  normalizeTitle : String → String
  slugMaxAttempts : Nat

/-- The candidates for a slug in the order they are tried. -/
def slugCandidates (base : String) (attempts : Nat) : List String :=
  (List.range attempts).map fun i ↦
    if i = 0 then base else base ++ "-" ++ toString (i + 1)

/-- The first candidate that is not taken: the loop of `generate_unique_slug`, `slug.py:58–70`. -/
def freeSlug (taken : String → Bool) (base : String) (attempts : Nat) : Option String :=
  (slugCandidates base attempts).find? (! taken ·)

/-- A slug that is generated is not taken. -/
theorem not_taken_of_freeSlug {taken : String → Bool} {base slug : String} {attempts : Nat}
    (h : freeSlug taken base attempts = some slug) : taken slug = false := by
  simpa using List.find?_some h

/-- A slug that is generated is one of the candidates. -/
theorem mem_of_freeSlug {taken : String → Bool} {base slug : String} {attempts : Nat}
    (h : freeSlug taken base attempts = some slug) : slug ∈ slugCandidates base attempts :=
  List.mem_of_find?_eq_some h

/-- `generate_unique_slug`: `slug.py:24`. -/
def generateUniqueSlug (env : TextEnv) (articles : List Article) (userId title : String) :
    Except Exc String :=
  let taken (slug : String) : Bool := articles.any fun a ↦ a.slug = slug ∧ a.userId = userId
  match freeSlug taken (env.slugify (some 80) title) env.slugMaxAttempts with
  | some slug => .ok slug
  | none => .error .valueError

/-- The article a candidate names: by title with case ignored, else by normalized title.
`engine/wikilink_resolver.py:103–127`. -/
def resolveCandidate (env : TextEnv) (articles : List Article) (candidate : String) :
    Option Article :=
  match articles.find? fun a ↦ env.lower a.title = env.lower candidate with
  | some a => some a
  | none =>
    let norm := env.normalizeTitle candidate
    if norm = "" then none else articles.find? fun a ↦ env.normalizeTitle a.title = norm

/-- `resolve_backlink_candidates`, one entry for each target:
`engine/wikilink_resolver.py:50`. -/
def resolveBacklinkCandidates (env : TextEnv) (articles : List Article) (userId : String)
    (exclude : Option Nat) (relationTypes : List (String × String)) (candidates : List String) :
    List ResolvedBacklink :=
  let pool := articles.filter fun a ↦ a.userId = userId ∧ some a.id ≠ exclude
  let cleaned := (candidates.map env.strip).filter (· ≠ "")
  cleaned.foldl (fun resolved candidate ↦
    match resolveCandidate env pool candidate with
    | none => resolved
    | some target =>
      if resolved.any (·.targetId = target.id) then resolved
      else resolved ++ [⟨candidate, target.id,
        (relationTypes.lookup (env.lower candidate)).getD "references"⟩]) []

/-- The relative path of the file: `engine/compiler.py:963–965`. -/
def relativePath (env : TextEnv) (concepts : List String) (slug : String) : String :=
  env.slugify none (concepts.headD "general") ++ "/" ++ slug ++ ".md"

/-- `_overall_confidence`, by the share of sourced claims: `engine/compiler.py:1027`. -/
def overallConfidence (claims : List CompiledClaimDTO) : ConfidenceLevel :=
  let sourced := claims.countP (·.confidence = .sourced)
  if claims.isEmpty then .inferred
  else if 4 * claims.length ≤ 5 * sourced then .sourced
  else if 2 * claims.length ≤ 5 * sourced then .mixed
  else .inferred

/-- The relation types of backlinks: `models/enums.py:26`. -/
def relationTypeValues : List String :=
  ["references", "contradicts", "extends", "supersedes", "synthesizes", "related_to"]

end WikiMind.Compile
