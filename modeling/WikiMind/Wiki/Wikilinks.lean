import WikiMind.Base.Brackets
import WikiMind.Compile.ResolvedBacklinks

/-!
# Wikilinks of a page that is shown

`WikiService.process_wikilinks` (`services/wiki.py:1044`) links a `[[title]]` by its own table of
titles in lower case, over the articles in whatever order the database lists them. The resolver
of the compiler goes by the order of creation, and has a second table of normalized titles.
-/

namespace WikiMind.Wiki

open WikiMind.Base WikiMind.Compile

/-- How the database answers a query for articles without an order. -/
abbrev RowOrder := Rows.Order ArticleRow

/-- `by_lower` of the articles of a user: `services/wiki.py:1071–1079`. -/
def titleTable (env : TextEnv) (plan : RowOrder) (rows : List ArticleRow) (userId : String) :
    List (String × ArticleRow) :=
  Rows.indexFirst (fun a ↦ some (env.lower a.title)) (plan.select (rows.filter (·.userId = userId)))

/-- The title in the brackets. -/
def linkTitle (env : TextEnv) (inner : List Char) : String := env.strip (String.ofList inner)

/-- The article a bracket is linked to: `services/wiki.py:1083–1084`. -/
def linkedArticle (env : TextEnv) (plan : RowOrder) (rows : List ArticleRow) (userId : String)
    (inner : List Char) : Option ArticleRow :=
  (titleTable env plan rows userId).lookup (env.lower (linkTitle env inner))

/-- `replace_wikilink`; characters outside the brackets stay: `services/wiki.py:1081`. -/
def replaceWikilink (env : TextEnv) (plan : RowOrder) (rows : List ArticleRow) (userId : String) :
    Brackets.Segment → List Char
  | .text c => [c]
  | .bracket inner =>
    match linkedArticle env plan rows userId inner with
    | some target =>
      Brackets.link (linkTitle env inner).toList ("/wiki/articles/" ++ target.slug).toList
    | none => Brackets.Segment.render (.bracket inner)

/-- `process_wikilinks`: `services/wiki.py:1044`. -/
def processWikilinks (env : TextEnv) (plan : RowOrder) (rows : List ArticleRow) (userId : String)
    (markdown : List Char) : List Char :=
  if Brackets.brackets markdown = [] then markdown
  else (Brackets.scan markdown).flatMap (replaceWikilink env plan rows userId)

/-- The article the resolver finds for a title alone. -/
def resolvedTarget (env : TextEnv) (order : CreatedOrder) (rows : List ArticleRow)
    (userId : String) (inner : List Char) : Option Nat :=
  (resolveBacklinks env order rows userId none [] [String.ofList inner]).resolved.head?.map
    (·.targetId)

/-- Whatever the database answers, every bracket of a text is linked to the article the resolver
finds for it. -/
def LinksAgree (env : TextEnv) (rows : List ArticleRow) (userId : String)
    (markdown : List Char) : Prop :=
  ∀ (plan : RowOrder) (order : CreatedOrder), ∀ inner ∈ Brackets.brackets markdown,
    (linkedArticle env plan rows userId inner).map (·.id) =
      resolvedTarget env order rows userId inner

/-- A title that two readings cannot tell apart: a blank one is that of no article of the user,
another is that of at most one, and of none after normalization if it is that of none. -/
structure PlainTitle (env : TextEnv) (rows : List ArticleRow) (userId title : String) :
    Prop where
  blank : title = "" → ∀ a ∈ rows, a.userId = userId → ¬ ExactMatch env title a
  single : ∀ a ∈ rows, ∀ b ∈ rows, a.userId = userId → b.userId = userId →
    ExactMatch env title a → ExactMatch env title b → a.id = b.id
  normalized : title ≠ "" → (∀ a ∈ rows, a.userId = userId → ¬ ExactMatch env title a) →
    ∀ a ∈ rows, a.userId = userId → ¬ NormalizedMatch env title a

section Wikilinks

variable {env : TextEnv} {plan : RowOrder} {order : CreatedOrder} {rows : List ArticleRow}
  {userId title : String} {inner markdown : List Char} {a : ArticleRow}

/-- A text without brackets is what the replacement would leave. -/
theorem processWikilinks_eq (env : TextEnv) (plan : RowOrder) (rows : List ArticleRow)
    (userId : String) (markdown : List Char) :
    processWikilinks env plan rows userId markdown =
      (Brackets.scan markdown).flatMap (replaceWikilink env plan rows userId) := by
  unfold processWikilinks
  split
  · next hnone =>
    have hrender : ∀ segment ∈ Brackets.scan markdown,
        replaceWikilink env plan rows userId segment = segment.render := by
      rintro (c | inner) hsegment
      · rfl
      · have hmem : inner ∈ Brackets.brackets markdown :=
          List.mem_filterMap.mpr ⟨_, hsegment, rfl⟩
        rw [hnone] at hmem
        exact absurd hmem List.not_mem_nil
    rw [List.flatMap_congr hrender]
    exact (Brackets.render_scan markdown).symm
  · rfl

/-- The table answers with the first article of the title in the order of the query. -/
theorem linkedArticle_eq :
    linkedArticle env plan rows userId inner =
      (plan.select (rows.filter (·.userId = userId))).find?
        (ExactMatch env (linkTitle env inner) ·) := by
  unfold linkedArticle titleTable
  rw [Rows.lookup_indexFirst]
  simp only [Option.some.injEq]
  rfl

private theorem exactMatch_of_linkedArticle
    (h : linkedArticle env plan rows userId inner = some a) :
    a ∈ rows ∧ a.userId = userId ∧ ExactMatch env (linkTitle env inner) a := by
  rw [linkedArticle_eq] at h
  have hmem := (plan.perm _).mem_iff.mp (List.mem_of_find?_eq_some h)
  rw [List.mem_filter, decide_eq_true_eq] at hmem
  exact ⟨hmem.1, hmem.2, by simpa using List.find?_some h⟩

private theorem linkedArticle_eq_none_iff :
    linkedArticle env plan rows userId inner = none ↔
      ∀ a ∈ rows, a.userId = userId → ¬ ExactMatch env (linkTitle env inner) a := by
  rw [linkedArticle_eq, List.find?_eq_none]
  simp only [(plan.perm _).mem_iff, List.mem_filter, decide_eq_true_eq, and_imp]

/-- A blank title is not resolved, another goes through the two tables. -/
theorem resolvedTarget_eq (hinner : inner ≠ []) :
    resolvedTarget env order rows userId inner =
      if linkTitle env inner = "" then none
      else ((indexTitles env (loadArticles order rows userId none)).target env
        (linkTitle env inner)).map (·.id) := by
  have hne : String.ofList inner ≠ "" := by
    intro h
    exact hinner (by simpa using congrArg String.toList h)
  unfold resolvedTarget
  rw [resolveBacklinks_eq, foldl_placeCandidate]
  by_cases hblank : linkTitle env inner = ""
  · have hclean : cleanCandidates env [String.ofList inner] = [] := by
      unfold linkTitle at hblank
      simp [cleanCandidates, hblank]
    simp [hclean, hblank]
  · have hclean : cleanCandidates env [String.ofList inner] = [linkTitle env inner] := by
      unfold linkTitle at hblank
      simp [cleanCandidates, hne, hblank, linkTitle]
    rw [hclean, if_neg hblank]
    cases htarget : (indexTitles env (loadArticles order rows userId none)).target env
      (linkTitle env inner) with
    | none => simp [resolvedFor, htarget]
    | some target => simp [resolvedFor, htarget, Rows.insertNew]

/-- The database may list any article first. -/
theorem exists_plan_first (ha : a ∈ rows) : ∃ (plan : RowOrder) (rest : List ArticleRow),
    plan.select rows = a :: rest := by
  classical
  refine ⟨⟨fun l ↦ if a ∈ l then a :: l.erase a else l, fun l ↦ ?_⟩, rows.erase a, if_pos ha⟩
  split
  · next hmem => exact (List.perm_cons_erase hmem).symm
  · exact .refl _

/-- Any article of the title may be the one that is linked. -/
theorem exists_linkedArticle (ha : a ∈ rows) (huser : a.userId = userId)
    (hexact : ExactMatch env (linkTitle env inner) a) :
    ∃ plan, linkedArticle env plan rows userId inner = some a := by
  have hmem : a ∈ rows.filter (·.userId = userId) :=
    List.mem_filter.mpr ⟨ha, decide_eq_true huser⟩
  obtain ⟨plan, rest, hfirst⟩ := exists_plan_first hmem
  refine ⟨plan, ?_⟩
  rw [linkedArticle_eq, hfirst, List.find?_cons_of_pos (by simpa using hexact)]

/-- For one title both readings agree exactly if they cannot tell them apart. -/
theorem agree_iff (hinner : inner ≠ []) :
    (∀ (plan : RowOrder) (order : CreatedOrder),
        (linkedArticle env plan rows userId inner).map (·.id) =
          resolvedTarget env order rows userId inner) ↔
      PlainTitle env rows userId (linkTitle env inner) := by
  constructor
  · intro hagree
    refine ⟨fun hblank a ha huser hexact ↦ ?_, fun a ha b hb hau hbu hae hbe ↦ ?_,
      fun hne hnone a ha huser hnorm ↦ ?_⟩
    · obtain ⟨plan, hplan⟩ := exists_linkedArticle ha huser hexact
      have := hagree plan createdOrder
      rw [hplan, resolvedTarget_eq hinner, if_pos hblank] at this
      cases this
    · obtain ⟨plan, hplan⟩ := exists_linkedArticle ha hau hae
      obtain ⟨plan', hplan'⟩ := exists_linkedArticle hb hbu hbe
      have h := hagree plan createdOrder
      have h' := hagree plan' createdOrder
      rw [hplan] at h
      rw [hplan', ← h] at h'
      exact (Option.some.inj h').symm
    · have h := hagree ⟨id, fun _ ↦ .refl _⟩ createdOrder
      rw [linkedArticle_eq_none_iff.mpr hnone, resolvedTarget_eq hinner, if_neg hne] at h
      have htarget := Option.map_eq_none_iff.mp h.symm
      exact ((Compile.target_eq_none_iff _).mp htarget a ha ⟨huser, by simp⟩).2 hnorm
  · intro hplain plan order
    rw [resolvedTarget_eq hinner]
    by_cases hblank : linkTitle env inner = ""
    · have hnone : linkedArticle env plan rows userId inner = none :=
        linkedArticle_eq_none_iff.mpr (hplain.blank hblank)
      rw [hnone, if_pos hblank, Option.map_none]
    · rw [if_neg hblank]
      cases hlinked : linkedArticle env plan rows userId inner with
      | none =>
        have hnone := linkedArticle_eq_none_iff.mp hlinked
        have htarget : (indexTitles env (loadArticles order rows userId none)).target env
            (linkTitle env inner) = none :=
          (Compile.target_eq_none_iff _).mpr fun a ha hadm ↦
            ⟨hnone a ha hadm.1, hplain.normalized hblank hnone a ha hadm.1⟩
        rw [htarget]
      | some a =>
        obtain ⟨ha, huser, hexact⟩ := exactMatch_of_linkedArticle hlinked
        have hadm : Admissible userId none a := ⟨huser, by simp⟩
        cases htarget : (indexTitles env (loadArticles order rows userId none)).target env
          (linkTitle env inner) with
        | none => exact absurd hexact ((Compile.target_eq_none_iff _).mp htarget a ha hadm).1
        | some b =>
          obtain ⟨hb⟩ | ⟨hnone, -⟩ := target_spec htarget
          · rw [Option.map_some, Option.map_some,
              hplain.single a ha b hb.mem huser hb.fits.1.1 hexact hb.fits.2]
          · exact absurd hexact (hnone a ha hadm)

/-- The page and the resolver agree on a text exactly if every title of it is plain. -/
theorem linksAgree_iff (env : TextEnv) (rows : List ArticleRow) (userId : String)
    (markdown : List Char) :
    LinksAgree env rows userId markdown ↔
      ∀ inner ∈ Brackets.brackets markdown,
        PlainTitle env rows userId (linkTitle env inner) := by
  constructor
  · intro h inner hinner
    exact (agree_iff (Brackets.ne_nil_of_mem_brackets hinner)).mp fun plan order ↦
      h plan order inner hinner
  · intro h plan order inner hinner
    exact (agree_iff (Brackets.ne_nil_of_mem_brackets hinner)).mpr (h inner hinner) plan order

/-- Texts stripped and in lower case, with the normalizer. -/
def titleText : TextEnv :=
  withNormalizer String.toList
    ⟨fun _ s ↦ s, fun s ↦ String.ofList (strip s.toList),
      fun s ↦ String.ofList (s.toList.map Char.toLower), id, 3⟩

/-- One article of one user. -/
def oneArticle : List ArticleRow :=
  [⟨⟨1, "u", "gpt-4", "GPT-4", "general/gpt-4.md", [], .sourced, "", ["s"], none, 0⟩, 0⟩]

/-- A title that is that of an article after normalization only is shown as a red link, although
the resolver links it. -/
theorem normalized_title_shown_red :
    processWikilinks titleText ⟨id, fun _ ↦ .refl _⟩ oneArticle "u" "See [[gpt 4]].".toList =
        "See [[gpt 4]].".toList ∧
      resolvedTarget titleText createdOrder oneArticle "u" "gpt 4".toList = some 1 ∧
      ¬ LinksAgree titleText oneArticle "u" "See [[gpt 4]].".toList := by
  refine ⟨by decide, by decide, fun h ↦ ?_⟩
  have := h ⟨id, fun _ ↦ .refl _⟩ createdOrder "gpt 4".toList (by decide)
  revert this
  decide

end Wikilinks

end WikiMind.Wiki
