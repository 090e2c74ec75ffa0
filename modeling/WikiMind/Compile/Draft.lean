import WikiMind.Compile.SaveArticle

/-!
# Compilation drafts

Interactive compilation stores the result of a compilation as a draft
(`services/draft.py:37`) that is saved when the user approves it (`services/draft.py:137`).
What the compiler remembers of the compilation besides its result is not part of a draft:
the approval saves with a new compiler.
-/

namespace WikiMind.Compile

open WikiMind.Base WikiMind.Llm

/-- What a compiler instance remembers of its last compilation, for its saves:
`engine/base_compiler.py:43`, `engine/compiler.py:205–211`. -/
structure Compiler where
  lastProviderUsed : Option Provider
  lastTypedSuggestions : List (String × String)
  sourceSpans : List String

/-- A new instance, before any compilation. -/
def Compiler.new : Compiler := ⟨none, [], []⟩

/-- The attempt of an instance to save a result. -/
def Compiler.attempt (c : Compiler) (result : CompilationResult) (fails : Stage → Bool) : Attempt :=
  ⟨result, c.lastTypedSuggestions, c.sourceSpans, fails⟩

/-- `Compiler.save_article`, with the provider of the last compilation:
`engine/compiler.py:571`. -/
def Compiler.saveArticle (c : Compiler) (env : TextEnv) (userId sourceId : String) (db : Tables)
    (result : CompilationResult) (fails : Stage → Bool) : Except Exc Article × Tables :=
  Compile.saveArticle env userId sourceId c.lastProviderUsed db (c.attempt result fails)

/-- Review states of a draft: `models/tables/compilation.py:28`. -/
inductive DraftStatus where
  | pending | approved | rejected
  deriving DecidableEq, Repr

/-- A draft with its decoded result: `models/tables/compilation.py:12`. -/
structure CompilationDraft where
  id : Nat
  userId : String
  sourceId : String
  result : CompilationResult
  status : DraftStatus

/-- The article tables and the drafts. -/
structure DraftState where
  tables : Tables
  drafts : List CompilationDraft

/-- `create_draft`: `services/draft.py:37`. -/
def createDraft (s : DraftState) (userId sourceId : String) (result : CompilationResult) :
    DraftState :=
  { s with drafts := s.drafts ++ [⟨s.drafts.length, userId, sourceId, result, .pending⟩] }

/-- `get_draft_for_source`: `services/draft.py:82`. -/
def getDraftForSource (s : DraftState) (userId sourceId : String) :
    Except Exc CompilationDraft :=
  match s.drafts.find? fun d ↦ d.sourceId = sourceId ∧ d.userId = userId ∧ d.status = .pending with
  | some draft => .ok draft
  | none => .error (.notFound "No pending draft for this source")

/-- A saved draft is marked: `services/draft.py:195`. -/
def markApproved (draft : CompilationDraft) (drafts : List CompilationDraft) :
    List CompilationDraft :=
  Rows.modify (·.id = draft.id) (fun d ↦ { d with status := .approved }) drafts

/-- The compiler and the result of an approval: those of the guided compilation, where there
is guidance, else a new instance and the result of the draft. `services/draft.py:164–191`. -/
def approvedSave (draft : CompilationDraft) (guided : Option (Compiler × CompilationResult)) :
    Compiler × CompilationResult :=
  guided.getD (.new, draft.result)

/-- `approve_draft`, with what the guided compilation gave where guidance is given:
`services/draft.py:137`. -/
def approveDraft (env : TextEnv) (userId sourceId : String) (s : DraftState)
    (guided : Option (Compiler × CompilationResult)) (fails : Stage → Bool) :
    Except Exc Article × DraftState :=
  match getDraftForSource s userId sourceId with
  | .error e => (.error e, s)
  | .ok draft =>
    if s.tables.sources.any (·.id = sourceId) then
      let (compiler, result) := approvedSave draft guided
      match compiler.saveArticle env userId sourceId s.tables result fails with
      | (.error e, tables) => (.error e, { s with tables })
      | (.ok article, tables) => (.ok article, ⟨tables, markApproved draft s.drafts⟩)
    else (.error (.notFound "Source not found"), s)

section Draft

variable {env : TextEnv} {userId sourceId : String} {s : DraftState}
  {result : CompilationResult}

/-- A source with a new draft has a pending one; it need not be the new one. -/
theorem exists_getDraftForSource (s : DraftState) (userId sourceId : String)
    (result : CompilationResult) :
    ∃ draft, getDraftForSource (createDraft s userId sourceId result) userId sourceId =
      .ok draft := by
  unfold getDraftForSource
  cases hfind : (createDraft s userId sourceId result).drafts.find?
      fun d ↦ d.sourceId = sourceId ∧ d.userId = userId ∧ d.status = .pending with
  | some draft => exact ⟨draft, rfl⟩
  | none =>
    have hnew := List.find?_eq_none.mp hfind
      ⟨s.drafts.length, userId, sourceId, result, .pending⟩ (by simp [createDraft])
    simp at hnew

/-- The tables of an approval are those of its save. -/
theorem tables_approveDraft {draft : CompilationDraft}
    {guided : Option (Compiler × CompilationResult)} {fails : Stage → Bool}
    (hdraft : getDraftForSource s userId sourceId = .ok draft)
    (hsource : ∃ x ∈ s.tables.sources, x.id = sourceId) :
    (approveDraft env userId sourceId s guided fails).2.tables =
      ((approvedSave draft guided).1.saveArticle env userId sourceId s.tables
        (approvedSave draft guided).2 fails).2 := by
  have hany : (s.tables.sources.any (·.id = sourceId)) = true := by
    simpa using hsource
  unfold approveDraft
  rw [hdraft]
  simp only [hany, if_true]
  split
  · next heq => rw [heq]
  · next heq => rw [heq]

end Draft

/-- The result an approval without guidance saves: that of the first pending draft. -/
def pendingResult (s : DraftState) (userId sourceId : String) (result : CompilationResult) :
    CompilationResult :=
  match getDraftForSource (createDraft s userId sourceId result) userId sourceId with
  | .ok draft => draft.result
  | .error _ => result

/-- A result is stored as a draft that is approved at once and without guidance. -/
def saveThroughDraft (env : TextEnv) (userId sourceId : String) (s : DraftState)
    (result : CompilationResult) (fails : Stage → Bool) : Except Exc Article × DraftState :=
  approveDraft env userId sourceId (createDraft s userId sourceId result) none fails

/-- An approval without guidance is a save by a new compiler. -/
theorem tables_saveThroughDraft {env : TextEnv} {userId sourceId : String} {s : DraftState}
    {result : CompilationResult} {fails : Stage → Bool}
    (hsource : ∃ x ∈ s.tables.sources, x.id = sourceId) :
    (saveThroughDraft env userId sourceId s result fails).2.tables =
      (Compiler.new.saveArticle env userId sourceId s.tables
        (pendingResult s userId sourceId result) fails).2 := by
  obtain ⟨draft, hdraft⟩ := exists_getDraftForSource s userId sourceId result
  unfold saveThroughDraft pendingResult
  rw [tables_approveDraft hdraft hsource, hdraft]
  rfl

/-- A save for a provider and a save for none, from one state, leave the same rows only if
both stop early: a first commit leaves an article of its own time and provider. -/
theorem sameRows_saves_iff {env : TextEnv} {userId sourceId : String} {db : Tables}
    {p : Provider} {a a' : Attempt} (hstamped : db.Stamped) :
    SameRows (saveArticle env userId sourceId (some p) db a).2
        (saveArticle env userId sourceId none db a').2 ↔
      StopsEarly env userId sourceId (some p) db a ∧
        StopsEarly env userId sourceId none db a' := by
  constructor
  · intro hsame
    rcases saveArticle_cases env userId sourceId (some p) db a with
      ⟨hearly, e, heq⟩ | ⟨_, hcommit, _⟩
    · refine ⟨hearly, (sameRows_iff hstamped).mp (SameRows.trans ?_ hsame)⟩
      rw [heq]
      exact ⟨rfl, rfl, rfl, rfl, rfl⟩
    · exfalso
      obtain ⟨article, hmem, hstamp, hprovider⟩ := exists_of_firstCommit hcommit
      rw [← hsame.articles] at hmem
      rcases saveArticle_cases env userId sourceId none db a' with
        ⟨_, e, heq⟩ | ⟨_, hcommit', _⟩
      · rw [heq] at hmem
        have hpast := hstamped article hmem
        omega
      · -- without a provider no article is found, and the new one has none either
        obtain ⟨new, hnew, _, hnone, _⟩ := hcommit'
        rw [hnew] at hmem
        rcases List.mem_append.mp hmem with hold | hlast
        · have hpast := hstamped article hold
          omega
        · rw [List.mem_singleton.mp hlast, hnone] at hprovider
          cases hprovider
  · intro ⟨hearly, hearly'⟩
    have hleft := (sameRows_iff hstamped).mpr hearly
    have hright := (sameRows_iff hstamped).mpr hearly'
    exact hleft.symm.trans hright

/-- Approving a stored result leaves the rows of the direct save precisely when neither of
the two saves gets to its first commit. -/
theorem saveThroughDraft_refines_iff {env : TextEnv} {userId sourceId : String}
    {s : DraftState} {compiler : Compiler} {p : Provider} {result : CompilationResult}
    {fails fails' : Stage → Bool} (hstamped : s.tables.Stamped)
    (hsource : ∃ x ∈ s.tables.sources, x.id = sourceId)
    (hcompiled : compiler.lastProviderUsed = some p) :
    SameRows (compiler.saveArticle env userId sourceId s.tables result fails).2
        (saveThroughDraft env userId sourceId s result fails').2.tables ↔
      StopsEarly env userId sourceId (some p) s.tables (compiler.attempt result fails) ∧
        StopsEarly env userId sourceId none s.tables
          (Compiler.new.attempt (pendingResult s userId sourceId result) fails') := by
  rw [tables_saveThroughDraft hsource]
  unfold Compiler.saveArticle
  rw [hcompiled]
  exact sameRows_saves_iff hstamped

/-- An article that a provider compiled from the source before, and one to link to. -/
def draftSample : DraftState :=
  ⟨{ articles := [⟨0, "u", "other", "Other", "ai/other.md", [], .inferred, "", [], none, 0⟩,
       ⟨1, "u", "Title", "Title", "ai/Title.md", ["ai"], .inferred, "", ["s"],
         some .anthropic, 1⟩]
     nextId := 2, articleSources := [⟨1, "s"⟩], articleConcepts := [⟨1, "ai"⟩]
     claims := [], backlinks := [], sources := [⟨"s", some 1⟩], clock := 2 }, []⟩

/-- A result with a typed link and a claim that cites a span. -/
def draftResult : CompilationResult :=
  ⟨"Title", "Summary", [⟨"Claim", .sourced, [], none, none, [], ["span"]⟩], ["ai"], ["Other"]⟩

/-- The compiler after the compilation that gave the result. -/
def draftCompiler : Compiler := ⟨some .anthropic, [("Other", "extends")], ["span"]⟩

private theorem draftSample_stamped : draftSample.tables.Stamped := by
  intro x hx
  simp only [draftSample, List.mem_cons, List.not_mem_nil, or_false] at hx
  rcases hx with rfl | rfl
  · exact Nat.zero_lt_two
  · exact Nat.one_lt_two

/-- The file of either save cannot be written: both leave all rows. -/
theorem saveThroughDraft_writeFile :
    SameRows (draftCompiler.saveArticle plainText "u" "s" draftSample.tables draftResult
        (· = .writeFile)).2
      (saveThroughDraft plainText "u" "s" draftSample draftResult (· = .writeFile)).2.tables :=
  (saveThroughDraft_refines_iff draftSample_stamped ⟨_, List.mem_singleton_self _, rfl⟩ rfl).mpr
    ⟨.inr (.inr (.inl rfl)), .inr (.inr (.inl rfl))⟩

/-- Nothing fails: the direct save replaces the article of the provider and keeps relation
type and span; the approval makes another article and loses all three. -/
theorem saveThroughDraft_differs :
    let direct := (draftCompiler.saveArticle plainText "u" "s" draftSample.tables draftResult
      fun _ ↦ false).2
    let approved := (saveThroughDraft plainText "u" "s" draftSample draftResult
      fun _ ↦ false).2.tables
    direct.articles.map (fun x ↦ (x.id, x.slug, x.provider)) =
        [(0, "other", none), (1, "Title", some .anthropic)] ∧
      approved.articles.map (fun x ↦ (x.id, x.slug, x.provider)) =
        [(0, "other", none), (1, "Title", some .anthropic), (2, "Title-2", none)] ∧
      direct.backlinks.map (fun l ↦ (l.sourceArticleId, l.relationType)) = [(1, "extends")] ∧
      approved.backlinks.map (fun l ↦ (l.sourceArticleId, l.relationType)) =
        [(2, "references")] ∧
      direct.claims.map (fun c ↦ (c.articleId, c.sourceSpanIds)) = [(1, ["span"])] ∧
      approved.claims.map (fun c ↦ (c.articleId, c.sourceSpanIds)) = [(2, [])] ∧
      ¬ SameRows direct approved := by
  refine ⟨by decide +kernel, by decide +kernel, by decide +kernel, by decide +kernel,
    by decide +kernel, by decide +kernel, fun hsame ↦ ?_⟩
  have hlength := congrArg List.length hsame.articles
  revert hlength
  decide +kernel

end WikiMind.Compile
