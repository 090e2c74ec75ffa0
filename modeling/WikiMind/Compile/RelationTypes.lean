import WikiMind.Compile.Prompt
import WikiMind.Compile.Provenance
import WikiMind.Compile.Resolver

/-!
# Relation types of suggested backlinks

A response of the language model suggests backlinks with a relation type each. The compiler
keeps the types beside the result, by the target in lower case (`engine/compiler.py:445–461`),
each compilation of a chunk replaces them (`engine/compiler.py:515–569`), and the save looks
them up for the candidates the resolver has stripped (`engine/wikilink_resolver.py:109–126`).
-/

namespace WikiMind.Compile

open WikiMind.Base WikiMind.Llm

/-- An item of `backlink_suggestions`: an object with the text of its target and of its relation
type, if it has one, a plain title, or a value of another kind. -/
inductive RawSuggestion where
  | typed (target : String) (relationType : Option String)
  | title (text : String)
  | other
  deriving DecidableEq, Repr

/-- `_normalize_backlink_suggestions`: `engine/compiler.py:74`. -/
def normalizeBacklinkSuggestions (raw : List RawSuggestion) : List String :=
  raw.filterMap fun
    | .typed target _ => if target = "" then none else some target
    | .title text => some text
    | .other => none

/-- `RelationType(rel)`, and the relation type where that fails. -/
def toRelationType (rel : Option String) : String :=
  match rel with
  | some value => if value ∈ relationTypeValues then value else "references"
  | none => "references"

/-- `_extract_typed_suggestions`, as pairs of target and relation type:
`engine/compiler.py:99`. -/
def extractTypedSuggestions (env : TextEnv) (raw : List RawSuggestion) :
    List (String × String) :=
  raw.filterMap fun
    | .typed target rel => if target = "" then none else some (target, toRelationType rel)
    | .title text => if env.strip text = "" then none else some (text, "references")
    | .other => none

/-- The relation types by target in lower case, of which the last counts:
`engine/compiler.py:452`. -/
def typedMap (env : TextEnv) (raw : List RawSuggestion) : List (String × String) :=
  ((extractTypedSuggestions env raw).map fun s ↦ (env.lower s.1, s.2)).reverse

/-- What a call of `compile` gets: no response, one that cannot be parsed, or one with its
suggestions and the result, if the rest of it is valid. -/
inductive Reply where
  | silent
  | unreadable (provider : Provider)
  | read (provider : Provider) (suggestions : List RawSuggestion)
      (parsed : Option CompilationResult)

/-- `compile` after its call: the relation types are replaced before the result is validated.
`engine/compiler.py:434–466`. -/
def compileReply (env : TextEnv) (c : Compiler) : Reply → Option CompilationResult × Compiler
  | .silent => (none, c)
  | .unreadable provider => (none, { c with lastProviderUsed := some provider })
  | .read provider suggestions parsed =>
    (parsed.map fun r ↦ { r with
        backlinkSuggestions := normalizeBacklinkSuggestions suggestions },
      { c with
        lastProviderUsed := some provider
        lastTypedSuggestions := typedMap env suggestions })

/-- The order in which a set of texts is listed, which the language leaves open. -/
structure SetOrder where
  toList : List String → List String
  perm : ∀ xs, (toList xs).Perm xs.dedup

/-- `_merge_chunk_results`, and no result for none: `engine/compiler.py:539–569`. -/
def mergeChunkResults (order : SetOrder) (title : String) :
    List CompilationResult → Option CompilationResult
  | [] => none
  | first :: rest =>
    let results := first :: rest
    some {
      title
      summary := first.summary
      keyClaims := (results.flatMap (·.keyClaims)).take 20
      concepts := (order.toList (results.flatMap (·.concepts))).take 10
      backlinkSuggestions := (order.toList (results.flatMap (·.backlinkSuggestions))).take 10 }

/-- The loop of `_compile_chunked` over the replies for its chunks: `engine/compiler.py:526–540`. -/
def compileReplies (env : TextEnv) :
    Compiler → List Reply → List CompilationResult × Compiler
  | c, [] => ([], c)
  | c, reply :: replies =>
    let (result, c) := compileReply env c reply
    let (results, c) := compileReplies env c replies
    (result.toList ++ results, c)

/-- The replies a document gets when the call for its `i`-th part gets `reply i`. A chunk that
is large itself is not sent. -/
def received (doc : NormalizedDocument) (reply : Nat → Reply) : List Reply :=
  if isLarge doc then
    ((chunkDocuments doc).zipIdx.filter (! isLarge ·.1)).map fun part ↦ reply part.2
  else [reply 0]

/-- `Compiler.compile` of a document, by its replies: `engine/compiler.py:373`. -/
def compileDocument (env : TextEnv) (order : SetOrder) (c : Compiler) (doc : NormalizedDocument)
    (reply : Nat → Reply) : Option CompilationResult × Compiler :=
  if isLarge doc then
    let (results, c) := compileReplies env c (received doc reply)
    (mergeChunkResults order doc.title results, c)
  else compileReply env c (reply 0)

/-- The suggestions of a reply. -/
def Reply.suggestions : Reply → Option (List RawSuggestion)
  | .read _ suggestions _ => some suggestions
  | _ => none

/-- The suggestions of the last reply that could be parsed. -/
def lastSuggestions (replies : List Reply) : List RawSuggestion :=
  ((replies.filterMap Reply.suggestions).getLast?).getD []

/-- The relation types the replies give for a suggestion. -/
def givenTypes (env : TextEnv) (replies : List Reply) (suggestion : String) : List String :=
  (replies.filterMap Reply.suggestions).flatMap fun raw ↦
    ((extractTypedSuggestions env raw).filter (·.1 = suggestion)).map (·.2)

/-- The relation type of the last suggestion whose target reads, in lower case, as that of another
one does when stripped; without any, the default. -/
def lastTypeFor (env : TextEnv) (raw : List RawSuggestion) (suggestion : String) : String :=
  match (extractTypedSuggestions env raw).reverse.find?
      fun s ↦ env.lower s.1 = env.lower (env.strip suggestion) with
  | some s => s.2
  | none => "references"

/-- The row of a resolved backlink: `engine/compiler.py:881–889`. -/
def backlinkRow (articleId : Nat) (userId : String) (rb : ResolvedBacklink) : Backlink :=
  ⟨articleId, rb.targetId, userId, rb.candidateText,
    if rb.relationType ∈ relationTypeValues then rb.relationType else "references"⟩

/-- The primary key of backlinks. -/
def Backlink.key (b : Backlink) : Nat × Nat := (b.sourceArticleId, b.targetArticleId)

/-- The backlinks that are there when a save commits its own: those of other articles. -/
def keptBacklinks (db : Tables) (existing : Option Article) : List Backlink :=
  match existing with
  | none => db.backlinks
  | some article => db.backlinks.filter (·.sourceArticleId ≠ article.id)

/-- The stages behind the first commit, up to that of the backlinks. -/
def backlinkStages : List Stage := [.refresh, .commitLinks, .index, .commitBacklinks]

/-- A save gets as far as the commit of its backlinks, and that succeeds. -/
def CommitsBacklinks (env : TextEnv) (userId sourceId : String) (provider : Option Provider)
    (db : Tables) (a : Attempt) : Prop :=
  a.fails .find = false ∧ ∃ article resolved written,
    writeArticle env db userId sourceId provider (findArticle db sourceId provider) a =
      .ok (article, resolved, written) ∧
    ¬ Raises (addLinks written article.id sourceId a.result.concepts) ∧
    ∀ stage ∈ backlinkStages, a.fails stage = false

/-- The same attempt, where the commit of the backlinks fails. -/
def Attempt.withoutBacklinks (a : Attempt) : Attempt :=
  { a with fails := fun stage ↦ stage = .commitBacklinks || a.fails stage }

/-- The suggestion a link to an article is resolved from: the first that names it. -/
def suggestionFor (env : TextEnv) (userId : String) (db : Tables) (existing : Option Article)
    (suggestions : List String) (target : Nat) : Option String :=
  suggestions.find? fun suggestion ↦
    namedArticle env (candidatePool db.articles userId (existing.map (·.id))) suggestion =
      some target

/-- A document is compiled and its result saved: each backlink that would be missing without
the commit of the backlinks has a relation type that a reply gave for the suggestion the
backlink was resolved from. -/
def TypesKept (env : TextEnv) (order : SetOrder) (userId sourceId : String) (db : Tables)
    (spans : List String) (doc : NormalizedDocument) (reply : Nat → Reply)
    (fails : Stage → Bool) : Prop :=
  ∀ result c, compileDocument env order ⟨none, [], spans⟩ doc reply = (some result, c) →
    let a := c.attempt result fails
    let existing := findArticle db sourceId c.lastProviderUsed
    ∀ b ∈ (saveArticle env userId sourceId c.lastProviderUsed db a).2.backlinks,
      b ∈ (saveArticle env userId sourceId c.lastProviderUsed db a.withoutBacklinks).2.backlinks ∨
        ∃ suggestion, suggestionFor env userId db existing result.backlinkSuggestions
            b.targetArticleId = some suggestion ∧
          b.relationType ∈ givenTypes env (received doc reply) suggestion

/-- The condition on replies and tables, for each suggestion that gets a new link: the last
readable reply pairs the target it has when stripped, in lower case, with a relation type that
a reply gave for the suggestion itself. -/
def PairsUp (env : TextEnv) (order : SetOrder) (userId sourceId : String) (db : Tables)
    (spans : List String) (doc : NormalizedDocument) (reply : Nat → Reply)
    (fails : Stage → Bool) : Prop :=
  ∀ result c, compileDocument env order ⟨none, [], spans⟩ doc reply = (some result, c) →
    CommitsBacklinks env userId sourceId c.lastProviderUsed db (c.attempt result fails) →
    let existing := findArticle db sourceId c.lastProviderUsed
    ∀ target suggestion, suggestionFor env userId db existing result.backlinkSuggestions target =
        some suggestion →
      (∀ b ∈ keptBacklinks db existing, b.key ≠ (targetId db existing, target)) →
      lastTypeFor env (lastSuggestions (received doc reply)) suggestion ∈
        givenTypes env (received doc reply) suggestion

section Saved

variable {env : TextEnv} {userId sourceId : String} {provider : Option Provider}
  {db : Tables} {a : Attempt}

/-- The inserts of `_persist_resolved_backlinks`, by key. -/
theorem backlinks_addBacklinks (db : Tables) (articleId : Nat) (resolved : List ResolvedBacklink) :
    (addBacklinks db articleId userId resolved).backlinks =
      (resolved.map (backlinkRow articleId userId)).foldl (Rows.insertNew Backlink.key)
        db.backlinks := by
  unfold addBacklinks
  dsimp only
  generalize db.backlinks = rows
  induction resolved generalizing rows with
  | nil => rfl
  | cons rb resolved ih =>
    rw [List.foldl_cons, ih, List.map_cons, List.foldl_cons]
    congr 1
    unfold Rows.insertNew
    simp only [Backlink.key, backlinkRow, Prod.mk.injEq]

/-- The join rows leave the backlinks. -/
theorem backlinks_addLinks {linked : Tables} {articleId : Nat} {concepts : List String}
    (h : addLinks db articleId sourceId concepts = .ok linked) :
    linked.backlinks = db.backlinks := by
  unfold addLinks at h
  dsimp only at h
  split at h
  · cases h
    rfl
  · cases h

/-- What follows the first commit adds the backlinks, if nothing fails up to them. -/
theorem backlinks_finishArticle {article : Article} {resolved : List ResolvedBacklink}
    (hlinks : ¬ Raises (addLinks db article.id sourceId a.result.concepts))
    (hstages : ∀ stage ∈ backlinkStages, a.fails stage = false) :
    (finishArticle db userId sourceId a article resolved).2.backlinks =
      (addBacklinks db article.id userId resolved).backlinks := by
  have hreach : ∀ stage ∈ backlinkStages, a.reach stage = .ok () :=
    fun stage hstage ↦ Attempt.reach_eq_ok.mpr (hstages stage hstage)
  simp only [backlinkStages, List.forall_mem_cons] at hreach
  obtain ⟨hrefresh, hcommit, hindex, hbacklinks, -⟩ := hreach
  cases hlinked : addLinks db article.id sourceId a.result.concepts with
  | error e => exact absurd ⟨e, hlinked⟩ hlinks
  | ok linked =>
    unfold finishArticle
    simp only [hrefresh, hcommit, hindex, hbacklinks, hlinked, bind, Except.bind, pure,
      Except.pure, commitStep]
    have hrows : (addBacklinks linked article.id userId resolved).backlinks =
        (addBacklinks db article.id userId resolved).backlinks := by
      rw [backlinks_addBacklinks, backlinks_addBacklinks, backlinks_addLinks hlinked]
    cases a.reach .commitClaims with
    | error e => exact hrows
    | ok u =>
      cases a.reach .confidence with
      | error e => exact hrows
      | ok u =>
        cases a.reach .sideEffects with
        | error e => exact hrows
        | ok u => exact hrows

/-- It leaves them, if something fails before. -/
theorem backlinks_finishArticle_of_fails {article : Article} {resolved : List ResolvedBacklink}
    (h : Raises (addLinks db article.id sourceId a.result.concepts) ∨
      ∃ stage ∈ backlinkStages, a.fails stage = true) :
    (finishArticle db userId sourceId a article resolved).2.backlinks = db.backlinks := by
  unfold finishArticle
  cases hrefresh : a.reach .refresh with
  | error e => rfl
  | ok u =>
  cases hlinked : addLinks db article.id sourceId a.result.concepts with
  | error e => rfl
  | ok linked =>
  have hkept := backlinks_addLinks hlinked
  cases hcommit : a.reach .commitLinks with
  | error e => rfl
  | ok u =>
  cases hindex : a.reach .index with
  | error e => exact hkept
  | ok u =>
  cases hbacklinks : a.reach .commitBacklinks with
  | error e => exact hkept
  | ok u =>
    exfalso
    rcases h with hraises | ⟨stage, hstage, hfails⟩
    · rw [hlinked] at hraises
      exact raises_ok _ hraises
    · rw [Attempt.reach_eq_ok] at hrefresh hcommit hindex hbacklinks
      simp only [backlinkStages, List.mem_cons, List.not_mem_nil, or_false] at hstage
      rcases hstage with rfl | rfl | rfl | rfl <;> simp_all

/-- The join rows are refused for a key that occurs twice. -/
theorem raises_addLinks_iff {articleId : Nat} {concepts : List String} :
    Raises (addLinks db articleId sourceId concepts) ↔
      ¬ ((db.articleSources ++ [(⟨articleId, sourceId⟩ : ArticleSource)]).Nodup ∧
        (db.articleConcepts ++
          concepts.map fun name ↦ (⟨articleId, name⟩ : ArticleConcept)).Nodup) := by
  unfold addLinks
  dsimp only
  split
  · next h => exact iff_of_false (raises_ok _) (not_not_intro h)
  · next h => exact iff_of_true ⟨_, rfl⟩ h

private theorem raises_addLinks_clock {articleId now : Nat} {concepts : List String} :
    Raises (addLinks { db with clock := now } articleId sourceId concepts) ↔
      Raises (addLinks db articleId sourceId concepts) := by
  rw [raises_addLinks_iff, raises_addLinks_iff]

/-- What the first transaction decides about the backlinks. -/
theorem writeArticle_backlinks {existing : Option Article} {article : Article}
    {resolved : List ResolvedBacklink} {written : Tables}
    (h : writeArticle env db userId sourceId provider existing a =
      .ok (article, resolved, written)) :
    article.id = targetId db existing ∧ written.backlinks = keptBacklinks db existing ∧
      resolved = resolveBacklinkCandidates env db.articles userId (existing.map Article.id)
        a.relationTypes a.result.backlinkSuggestions := by
  obtain ⟨hresolved, hwritten⟩ := writeArticle_eq_ok h
  cases existing with
  | none =>
    obtain ⟨⟨hid, -⟩, rfl⟩ := hwritten
    exact ⟨hid, rfl, hresolved⟩
  | some e =>
    obtain ⟨f, rfl, hf, rfl⟩ := hwritten
    exact ⟨(hf e).1, rfl, hresolved⟩

/-- It has nothing to do with the commit of the backlinks. -/
theorem writeArticle_withoutBacklinks {existing : Option Article} :
    writeArticle env db userId sourceId provider existing a.withoutBacklinks =
      writeArticle env db userId sourceId provider existing a := rfl

/-- A save without the commit of its backlinks leaves the kept ones, once it gets there. -/
theorem backlinks_withoutBacklinks (h : CommitsBacklinks env userId sourceId provider db a) :
    (saveArticle env userId sourceId provider db a.withoutBacklinks).2.backlinks =
      keptBacklinks db (findArticle db sourceId provider) := by
  obtain ⟨hfind, article, resolved, written, hwrite, -, -⟩ := h
  have hreach : a.withoutBacklinks.reach .find = .ok () := Attempt.reach_eq_ok.mpr hfind
  unfold saveArticle
  simp only [hreach, writeArticle_withoutBacklinks, hwrite]
  rw [backlinks_finishArticle_of_fails (.inr ⟨.commitBacklinks, by simp [backlinkStages], rfl⟩)]
  exact (writeArticle_backlinks hwrite).2.1

/-- A save inserts the rows of the answers, once it gets there. -/
theorem backlinks_of_commits (h : CommitsBacklinks env userId sourceId provider db a) :
    (saveArticle env userId sourceId provider db a).2.backlinks =
      ((resolveBacklinkCandidates env db.articles userId
          ((findArticle db sourceId provider).map Article.id) a.relationTypes
          a.result.backlinkSuggestions).map
        (backlinkRow (targetId db (findArticle db sourceId provider)) userId)).foldl
          (Rows.insertNew Backlink.key)
          (keptBacklinks db (findArticle db sourceId provider)) := by
  obtain ⟨hfind, article, resolved, written, hwrite, hlinks, hstages⟩ := h
  have hreach : a.reach .find = .ok () := Attempt.reach_eq_ok.mpr hfind
  obtain ⟨hid, hkept, hresolved⟩ := writeArticle_backlinks hwrite
  unfold saveArticle
  simp only [hreach, hwrite]
  rw [backlinks_finishArticle (mt raises_addLinks_clock.mp hlinks) hstages,
    backlinks_addBacklinks, ← hid, ← hresolved, ← hkept]

/-- A save that does not get there leaves the backlinks it would leave without their commit. -/
theorem backlinks_of_not_commits (h : ¬ CommitsBacklinks env userId sourceId provider db a) :
    (saveArticle env userId sourceId provider db a).2.backlinks =
      (saveArticle env userId sourceId provider db a.withoutBacklinks).2.backlinks := by
  have hsame : a.withoutBacklinks.reach .find = a.reach .find := rfl
  unfold saveArticle
  rw [hsame, writeArticle_withoutBacklinks]
  cases hreach : a.reach .find with
  | error e => rfl
  | ok u =>
  cases hwrite : writeArticle env db userId sourceId provider
      (findArticle db sourceId provider) a with
  | error e => rfl
  | ok saved =>
    obtain ⟨article, resolved, written⟩ := saved
    have hfails : Raises (addLinks { written with clock := db.clock + 1 } article.id sourceId
        a.result.concepts) ∨ ∃ stage ∈ backlinkStages, a.fails stage = true := by
      by_contra hall
      push Not at hall
      refine h ⟨Attempt.reach_eq_ok.mp hreach, article, resolved, written, hwrite, ?_, ?_⟩
      · exact mt raises_addLinks_clock.mpr hall.1
      · exact fun stage hstage ↦ Bool.eq_false_iff.mpr (hall.2 stage hstage)
    refine (backlinks_finishArticle_of_fails hfails).trans (Eq.symm ?_)
    exact backlinks_finishArticle_of_fails
      (.inr ⟨.commitBacklinks, by simp [backlinkStages], rfl⟩)

/-- The backlinks of a save: those kept, and one for each article that is named and not linked
yet, from the first suggestion that names it. -/
theorem mem_backlinks_saveArticle (h : CommitsBacklinks env userId sourceId provider db a)
    {b : Backlink} :
    b ∈ (saveArticle env userId sourceId provider db a).2.backlinks ↔
      b ∈ keptBacklinks db (findArticle db sourceId provider) ∨
        (∀ x ∈ keptBacklinks db (findArticle db sourceId provider), x.key ≠ b.key) ∧
          ∃ suggestion, suggestionFor env userId db (findArticle db sourceId provider)
              a.result.backlinkSuggestions b.targetArticleId = some suggestion ∧
            b = backlinkRow (targetId db (findArticle db sourceId provider)) userId
              (answer env a.relationTypes suggestion b.targetArticleId) := by
  rw [backlinks_of_commits h, Rows.mem_foldl_insertNew]
  refine or_congr_right (and_congr_right fun _ ↦ ?_)
  constructor
  · intro hfirst
    obtain ⟨rb, hrb, rfl⟩ := List.mem_map.mp (List.mem_of_find?_eq_some hfirst)
    obtain ⟨suggestion, hsuggestion, hanswer⟩ := mem_resolveBacklinkCandidates.mp hrb
    exact ⟨suggestion, hsuggestion, congrArg _ hanswer⟩
  · rintro ⟨suggestion, hsuggestion, hrow⟩
    have hmem := List.mem_map.mpr ⟨answer env a.relationTypes suggestion b.targetArticleId,
      mem_resolveBacklinkCandidates.mpr ⟨suggestion, hsuggestion, rfl⟩, hrow.symm⟩
    cases hfind : ((resolveBacklinkCandidates env db.articles userId
          ((findArticle db sourceId provider).map Article.id) a.relationTypes
          a.result.backlinkSuggestions).map
        (backlinkRow (targetId db (findArticle db sourceId provider)) userId)).find?
          (·.key = b.key) with
    | none =>
      have hno := List.find?_eq_none.mp hfind b hmem
      simp at hno
    | some x =>
      -- an answer is determined by its article, and so is its row
      have hkey : x.key = b.key := by simpa using List.find?_some hfind
      obtain ⟨rb, hrb, rfl⟩ := List.mem_map.mp (List.mem_of_find?_eq_some hfind)
      obtain ⟨other, hother, hanswer⟩ := mem_resolveBacklinkCandidates.mp hrb
      have htarget : rb.targetId = b.targetArticleId := (Prod.mk.inj hkey).2
      rw [htarget] at hother hanswer
      have hsame : other = suggestion := Option.some.inj (hother.symm.trans hsuggestion)
      rw [hanswer, hsame, ← hrow]

end Saved

section Types

variable {env : TextEnv}

/-- Relation types are values of the enumeration. -/
theorem toRelationType_mem (rel : Option String) : toRelationType rel ∈ relationTypeValues := by
  unfold toRelationType
  cases rel with
  | none => decide
  | some value =>
    dsimp only
    split
    · assumption
    · decide

private theorem extractTypedSuggestions_mem {raw : List RawSuggestion} {s : String × String}
    (h : s ∈ extractTypedSuggestions env raw) : s.2 ∈ relationTypeValues := by
  obtain ⟨item, -, hitem⟩ := List.mem_filterMap.mp h
  cases item with
  | typed target rel =>
    obtain ⟨-, hs⟩ := Option.ite_none_left_eq_some.mp hitem
    cases hs
    exact toRelationType_mem rel
  | title text =>
    obtain ⟨-, hs⟩ := Option.ite_none_left_eq_some.mp hitem
    cases hs
    show "references" ∈ relationTypeValues
    decide
  | other => cases hitem

/-- The map answers with the last suggestion whose target reads so in lower case. -/
theorem lookup_typedMap (raw : List RawSuggestion) (key : String) :
    (typedMap env raw).lookup key =
      ((extractTypedSuggestions env raw).reverse.find? fun s ↦ env.lower s.1 = key).map (·.2) := by
  unfold typedMap
  rw [← List.map_reverse]
  induction (extractTypedSuggestions env raw).reverse with
  | nil => rfl
  | cons s rest ih =>
    rw [List.map_cons, List.lookup_cons]
    by_cases hkey : env.lower s.1 = key
    · rw [List.find?_cons_of_pos (by simpa using hkey)]
      simp [hkey]
    · have hne : (key == env.lower s.1) = false := by simpa using fun h ↦ hkey h.symm
      rw [List.find?_cons_of_neg (by simpa using hkey), hne, ih]

/-- What the compiler remembers after its replies is what the last readable one said. -/
theorem compileReplies_types (c : Compiler) (replies : List Reply) :
    (compileReplies env c replies).2.lastTypedSuggestions =
      match (replies.filterMap Reply.suggestions).getLast? with
      | none => c.lastTypedSuggestions
      | some raw => typedMap env raw := by
  induction replies generalizing c with
  | nil => rfl
  | cons reply replies ih =>
    show (compileReplies env (compileReply env c reply).2 replies).2.lastTypedSuggestions = _
    rw [ih]
    cases reply with
    | silent => rfl
    | unreadable provider => rfl
    | read provider raw parsed =>
      have hcons : (Reply.read provider raw parsed :: replies).filterMap Reply.suggestions =
          raw :: replies.filterMap Reply.suggestions := rfl
      rw [hcons, List.getLast?_cons]
      cases (replies.filterMap Reply.suggestions).getLast? with
      | none => rfl
      | some last => rfl

private theorem compileDocument_types {order : SetOrder} {spans : List String}
    {doc : NormalizedDocument}
    {reply : Nat → Reply} {result : CompilationResult} {c : Compiler}
    (h : compileDocument env order ⟨none, [], spans⟩ doc reply = (some result, c)) :
    c.lastTypedSuggestions = typedMap env (lastSuggestions (received doc reply)) := by
  have hc : c = (compileReplies env ⟨none, [], spans⟩ (received doc reply)).2 := by
    unfold compileDocument at h
    unfold received at h ⊢
    split at h
    · next hlarge =>
      rw [if_pos hlarge]
      exact (congrArg Prod.snd h).symm
    · next hsmall =>
      rw [if_neg hsmall]
      exact (congrArg Prod.snd h).symm
  rw [hc, compileReplies_types]
  unfold lastSuggestions
  cases ((received doc reply).filterMap Reply.suggestions).getLast? with
  | none => rfl
  | some raw => rfl

/-- The map of the last reply gives a row its relation type. -/
theorem relationType_backlinkRow {raw : List RawSuggestion} {articleId target : Nat}
    {userId suggestion : String} :
    (backlinkRow articleId userId
        (answer env (typedMap env raw) suggestion target)).relationType =
      lastTypeFor env raw suggestion := by
  unfold backlinkRow answer lastTypeFor
  dsimp only
  rw [lookup_typedMap]
  cases hfind : (extractTypedSuggestions env raw).reverse.find?
      fun s ↦ env.lower s.1 = env.lower (env.strip suggestion) with
  | none => rfl
  | some s =>
    have hmem := List.mem_reverse.mp (List.mem_of_find?_eq_some hfind)
    exact if_pos (extractTypedSuggestions_mem hmem)

end Types

/-- Each new backlink has the relation type of its suggestion precisely where the last readable
reply pairs its stripped target with a type given for it. -/
theorem typesKept_iff (env : TextEnv) (order : SetOrder) (userId sourceId : String) (db : Tables)
    (spans : List String) (doc : NormalizedDocument) (reply : Nat → Reply)
    (fails : Stage → Bool) :
    TypesKept env order userId sourceId db spans doc reply fails ↔
      PairsUp env order userId sourceId db spans doc reply fails := by
  unfold TypesKept PairsUp
  refine forall_congr' fun result ↦ forall_congr' fun c ↦ forall_congr' fun hcompiled ↦ ?_
  have htypes := compileDocument_types hcompiled
  dsimp only
  constructor
  · intro h hcommits target suggestion hsuggestion hnew
    -- the row the save inserts for this target
    have hmem := (mem_backlinks_saveArticle hcommits (b := backlinkRow
      (targetId db (findArticle db sourceId c.lastProviderUsed)) userId
      (answer env c.lastTypedSuggestions suggestion target))).mpr
        (.inr ⟨hnew, suggestion, hsuggestion, rfl⟩)
    rcases h _ hmem with hold | ⟨other, hother, htype⟩
    · rw [backlinks_withoutBacklinks hcommits] at hold
      exact absurd rfl (hnew _ hold)
    · have hsame : other = suggestion := Option.some.inj (hother.symm.trans hsuggestion)
      rwa [htypes, relationType_backlinkRow, hsame] at htype
  · intro h b hb
    by_cases hcommits : CommitsBacklinks env userId sourceId c.lastProviderUsed db
        (c.attempt result fails)
    · rcases (mem_backlinks_saveArticle hcommits).mp hb with hkept | ⟨hnew, suggestion, hfirst, hb⟩
      · left
        rw [backlinks_withoutBacklinks hcommits]
        exact hkept
      · right
        refine ⟨suggestion, hfirst, ?_⟩
        have hkey : b.key = (targetId db (findArticle db sourceId c.lastProviderUsed),
            b.targetArticleId) := congrArg (·.key) hb
        have hpairs := h hcommits b.targetArticleId suggestion hfirst (hkey ▸ hnew)
        have htype := congrArg Backlink.relationType hb
        rw [show (c.attempt result fails).relationTypes = c.lastTypedSuggestions from rfl, htypes,
          relationType_backlinkRow] at htype
        rwa [htype]
    · rw [backlinks_of_not_commits hcommits] at hb
      exact .inl hb

/-- Text functions that strip, lower and compare titles as they are. -/
def strippingText : TextEnv :=
  ⟨fun _ s ↦ s, fun s ↦ String.ofList (strip s.toList),
    fun s ↦ String.ofList (s.toList.map Char.toLower), id, 3⟩

/-- Sets in the order of the last occurrences. -/
def listOrder : SetOrder := ⟨List.dedup, fun _ ↦ .refl _⟩

/-- One article to link to. -/
def linkState : Tables where
  articles := [⟨0, "u", "other", "Other", "ai/other.md", [], .inferred, "", [], none, 0⟩]
  nextId := 1
  articleSources := []
  articleConcepts := []
  claims := []
  backlinks := []
  sources := [⟨"s", none⟩]
  clock := 1

/-- A reply with these suggestions. -/
def sampleReply (suggestions : List RawSuggestion) : Reply :=
  .read .anthropic suggestions (some ⟨"Title", "Summary", [], ["ai"], []⟩)

/-- A short document, and one of two chunks. -/
def shortNote : NormalizedDocument := ⟨"s", "Text.", "Note", none, none, 1, []⟩

def chunkedNote : NormalizedDocument :=
  ⟨"s", "First. Second.", "Note", none, none, 90000, [⟨"First.", 45000⟩, ⟨"Second.", 45000⟩]⟩

/-- The first chunk suggests a link, the second none. -/
def chunkReplies (i : Nat) : Reply :=
  sampleReply (if i = 0 then [.typed "Other" (some "extends")] else [])

/-- What a save with these suggestions and relation types attempts. -/
def linkAttempt (title : String) (suggestions : List String) (types : List (String × String)) :
    Attempt :=
  ⟨⟨title, "Summary", [], ["ai"], suggestions⟩, types, [], fun _ ↦ false⟩

/-- A new link to the article is saved as a reference, and no reply says so for its suggestion. -/
theorem not_typesKept (title : String) (suggestions : List String)
    (types : List (String × String)) {doc : NormalizedDocument} {reply : Nat → Reply}
    (hcompiled : compileDocument strippingText listOrder ⟨none, [], []⟩ doc reply =
      (some ⟨title, "Summary", [], ["ai"], suggestions⟩, ⟨some .anthropic, types, []⟩))
    (hrow : ∃ b ∈ (saveArticle strippingText "u" "s" (some .anthropic) linkState
        (linkAttempt title suggestions types)).2.backlinks,
      b.targetArticleId = 0 ∧ b.relationType = "references")
    (hbefore : (saveArticle strippingText "u" "s" (some .anthropic) linkState
      (linkAttempt title suggestions types).withoutBacklinks).2.backlinks = [])
    (hgiven : ∀ suggestion ∈ suggestionFor strippingText "u" linkState none suggestions 0,
      "references" ∉ givenTypes strippingText (received doc reply) suggestion) :
    ¬ TypesKept strippingText listOrder "u" "s" linkState [] doc reply (fun _ ↦ false) := by
  intro h
  obtain ⟨b, hb, htarget, htype⟩ := hrow
  rcases h _ _ hcompiled b hb with hold | ⟨suggestion, hsuggestion, hmem⟩
  · have hold : b ∈ (saveArticle strippingText "u" "s" (some .anthropic) linkState
        (linkAttempt title suggestions types).withoutBacklinks).2.backlinks := hold
    rw [hbefore] at hold
    cases hold
  · rw [htarget] at hsuggestion
    rw [htype] at hmem
    exact hgiven suggestion hsuggestion hmem

/-- The link of a padded target and the link of an earlier chunk are both saved as references,
where the one reply that gives their suggestion a type says that it extends. -/
theorem types_lost :
    ¬ TypesKept strippingText listOrder "u" "s" linkState [] shortNote
      (fun _ ↦ sampleReply [.typed " Other" (some "extends")]) (fun _ ↦ false) ∧
    ¬ TypesKept strippingText listOrder "u" "s" linkState [] chunkedNote chunkReplies
      (fun _ ↦ false) := by
  constructor
  · exact not_typesKept "Title" [" Other"] [(" other", "extends")] rfl (by decide +kernel) rfl
      (by decide +kernel)
  · exact not_typesKept "Note" ["Other"] [] rfl (by decide +kernel) rfl (by decide +kernel)

end WikiMind.Compile
