import WikiMind.Base.FirstByKey
import WikiMind.Compile.Articles

/-!
# What the wikilink resolver answers

`resolve_backlink_candidates` (`engine/wikilink_resolver.py:50`) answers once for each article,
for the first candidate that names it.
-/

namespace WikiMind.Compile

open WikiMind.Base

/-- The articles candidates are looked up in: `engine/wikilink_resolver.py:88–94`. -/
def candidatePool (articles : List Article) (userId : String) (exclude : Option Nat) :
    List Article :=
  articles.filter fun a ↦ a.userId = userId ∧ some a.id ≠ exclude

/-- The article a candidate names, without the white space around it; a blank one names none. -/
def namedArticle (env : TextEnv) (pool : List Article) (candidate : String) : Option Nat :=
  if env.strip candidate = "" then none
  else (resolveCandidate env pool (env.strip candidate)).map (·.id)

/-- The answer for a candidate that names an article. -/
def answer (env : TextEnv) (relationTypes : List (String × String)) (candidate : String)
    (targetId : Nat) : ResolvedBacklink :=
  ⟨env.strip candidate, targetId,
    (relationTypes.lookup (env.lower (env.strip candidate))).getD "references"⟩

section Resolver

variable {env : TextEnv} {articles : List Article} {userId : String} {exclude : Option Nat}
  {relationTypes : List (String × String)}

/-- A candidate that is not blank adds its answer, if it names an article without one:
`engine/wikilink_resolver.py:109–126`. -/
def addCandidate (env : TextEnv) (pool : List Article) (relationTypes : List (String × String))
    (found : List ResolvedBacklink) (candidate : String) : List ResolvedBacklink :=
  match resolveCandidate env pool candidate with
  | none => found
  | some target =>
    if found.any (·.targetId = target.id) then found
    else found ++ [⟨candidate, target.id,
      (relationTypes.lookup (env.lower candidate)).getD "references"⟩]

private theorem foldl_addCandidate (pool : List Article) (candidates : List String)
    (found : List ResolvedBacklink) :
    ((candidates.map env.strip).filter (· ≠ "")).foldl (addCandidate env pool relationTypes) found =
      (candidates.filterMap fun c ↦
        (namedArticle env pool c).map (answer env relationTypes c)).foldl
          (Rows.insertNew (·.targetId)) found := by
  induction candidates generalizing found with
  | nil => rfl
  | cons c candidates ih =>
    rw [List.map_cons]
    by_cases hblank : env.strip c = ""
    · have hnone : namedArticle env pool c = none := by rw [namedArticle, if_pos hblank]
      rw [List.filter_cons_of_neg (by simpa using hblank), ih]
      simp only [List.filterMap_cons, hnone, Option.map_none]
    · rw [List.filter_cons_of_pos (by simpa using hblank), List.foldl_cons, ih, addCandidate]
      cases hnamed : resolveCandidate env pool (env.strip c) with
      | none =>
        have hnone : namedArticle env pool c = none := by
          rw [namedArticle, if_neg hblank, hnamed, Option.map_none]
        simp only [List.filterMap_cons, hnone, Option.map_none]
      | some target =>
        have hsome : namedArticle env pool c = some target.id := by
          rw [namedArticle, if_neg hblank, hnamed, Option.map_some]
        simp only [List.filterMap_cons, hsome, Option.map_some, List.foldl_cons]
        rfl

/-- The loop inserts the answers by their article. -/
theorem resolveBacklinkCandidates_eq (candidates : List String) :
    resolveBacklinkCandidates env articles userId exclude relationTypes candidates =
      (candidates.filterMap fun c ↦
        (namedArticle env (candidatePool articles userId exclude) c).map
          (answer env relationTypes c)).foldl (Rows.insertNew (·.targetId)) [] :=
  foldl_addCandidate (candidatePool articles userId exclude) candidates []

/-- An answer is that of the first candidate that names its article. -/
theorem mem_resolveBacklinkCandidates {candidates : List String} {rb : ResolvedBacklink} :
    rb ∈ resolveBacklinkCandidates env articles userId exclude relationTypes candidates ↔
      ∃ first, candidates.find? (fun c ↦
          namedArticle env (candidatePool articles userId exclude) c = some rb.targetId) =
            some first ∧ rb = answer env relationTypes first rb.targetId := by
  rw [resolveBacklinkCandidates_eq, Rows.mem_foldl_insertNew, List.find?_filterMap]
  have hany : ∀ c, ((namedArticle env (candidatePool articles userId exclude) c).map
      (answer env relationTypes c)).any (fun x ↦ x.targetId = rb.targetId) =
        decide (namedArticle env (candidatePool articles userId exclude) c =
          some rb.targetId) := by
    intro c
    cases namedArticle env (candidatePool articles userId exclude) c with
    | none => simp
    | some target => simp [answer]
  simp only [hany, List.not_mem_nil, false_imp_iff, implies_true, true_and, false_or,
    Option.bind_eq_some_iff]
  refine exists_congr fun first ↦ and_congr_right fun hfirst ↦ ?_
  have hnamed : namedArticle env (candidatePool articles userId exclude) first =
      some rb.targetId := by simpa using List.find?_some hfirst
  rw [hnamed, Option.map_some, Option.some.injEq, eq_comm]

end Resolver

end WikiMind.Compile
