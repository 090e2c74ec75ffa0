import WikiMind.Base.Brackets
import WikiMind.Compile.Resolver
import WikiMind.Wiki.Pages

/-!
# The wikilink sweep

`sweep_wikilinks` (`jobs/sweep.py:189`) removes the concept pages of a user whose file is
missing and then takes the user's articles one after another: the brackets `[[title]]` of the
file go to the wikilink resolver and those that it resolves become links. A pass reads the
brackets as they stand, the resolver strips them and answers once for each article, and the
replacement looks them up in lower case; `Uniform` says when the three agree. Rows are in the
order of their creation, and a run that fails is no run. The job row and the tables that
refer to a removed page are left out.
-/

namespace WikiMind.Jobs.Sweep

open WikiMind.Base WikiMind.Base.Brackets
open WikiMind.Compile (TextEnv Backlink ResolvedBacklink resolveCandidate
  resolveBacklinkCandidates)
open WikiMind.Wiki (PageType)

/-- An article with its page type: `models/tables/wiki.py:35`. -/
structure Page extends Compile.Article where
  pageType : PageType

/-- The articles and links of all users, and the files by user and path. -/
structure Db where
  pages : List Page
  files : String × String → Option (List Char)
  backlinks : List Backlink
  nodup_id : (pages.map (·.id)).Nodup

/-- The file of an article, if it exists under a valid path. -/
def Db.content (db : Db) (article : Page) : Option (List Char) :=
  db.files (article.userId, article.filePath)

/-- The bracket texts of a file, each once: `jobs/sweep.py:82–87`. -/
def candidates (content : List Char) : List (List Char) := (brackets content).eraseDups

/-- What the resolver answers for the brackets of an article: `jobs/sweep.py:89–94`. -/
def resolved (env : TextEnv) (db : Db) (article : Page) (content : List Char) :
    List ResolvedBacklink :=
  resolveBacklinkCandidates env (db.pages.map (·.toArticle)) article.userId (some article.id) []
    ((candidates content).map String.ofList)

/-- The entry of `resolved_map` for a bracket text; later entries overwrite earlier ones.
`jobs/sweep.py:100–107`. -/
def entry (env : TextEnv) (found : List ResolvedBacklink) (inner : List Char) : Option Nat :=
  (found.reverse.find? fun rb ↦
    env.lower rb.candidateText = env.lower (String.ofList inner)).map (·.targetId)

/-- The address of an article. -/
def address (articleId : Nat) : List Char := '/' :: 'w' :: 'i' :: 'k' :: 'i' :: '/' ::
  Nat.toDigits 10 articleId

/-- The content with links for the brackets that have an entry: `jobs/sweep.py:105–113`. -/
def relink (entry : List Char → Option Nat) (content : List Char) : List Char :=
  replace (fun inner ↦ (entry inner).map address) content

/-- Get or create the link to a target: `jobs/sweep.py:125–136`. -/
def addBacklink (article : Page) (links : List Backlink) (rb : ResolvedBacklink) :
    List Backlink :=
  let key (b : Backlink) : Bool :=
    b.sourceArticleId = article.id ∧ b.targetArticleId = rb.targetId
  if links.any key then Rows.modify key (fun b ↦ { b with context := rb.candidateText }) links
  else links ++ [⟨article.id, rb.targetId, article.userId, rb.candidateText, "references"⟩]

/-- Write the file of an article. -/
def Db.write (db : Db) (article : Page) (content : List Char) : Db :=
  { db with
    files := fun key ↦
      if key = (article.userId, article.filePath) then some content else db.files key }

/-- `_sweep_single_article`: `jobs/sweep.py:44`. -/
def sweepSingleArticle (env : TextEnv) (db : Db) (articleId : Nat) : Db :=
  match db.pages.find? (·.id = articleId) with
  | none => db
  | some article =>
    match db.content article with
    | none => db
    | some content =>
      let found := resolved env db article content
      if found.isEmpty then db
      else
        let newContent := relink (entry env found) content
        if newContent = content then db
        else
          { db.write article newContent with
            backlinks := found.foldl (addBacklink article) db.backlinks }

/-- Remove an article and the links from and to it: `jobs/sweep.py:166–177`. -/
def Db.remove (db : Db) (articleId : Nat) : Db :=
  { db with
    pages := db.pages.filter (·.id ≠ articleId)
    backlinks := db.backlinks.filter fun b ↦
      ¬ (b.sourceArticleId = articleId ∨ b.targetArticleId = articleId)
    nodup_id := db.nodup_id.sublist (List.filter_sublist.map _) }

/-- `_cleanup_orphaned_concept_pages`: `jobs/sweep.py:148`. -/
def cleanup (db : Db) (userId : String) : Db :=
  (db.pages.filter fun p ↦ p.pageType = .concept ∧ p.userId = userId).foldl
    (fun db article ↦ if (db.content article).isSome then db else db.remove article.id) db

/-- The ids of the articles of a user. -/
def Db.idsOf (db : Db) (userId : String) : List Nat :=
  (db.pages.filter (·.userId = userId)).map (·.id)

/-- One pass for each article. -/
def sweeper (env : TextEnv) : Machine Db Nat := .ofFun (sweepSingleArticle env)

/-- `sweep_wikilinks`: `jobs/sweep.py:189`. -/
def sweepWikilinks (env : TextEnv) (db : Db) (userId : String) : Db :=
  ((cleanup db userId).idsOf userId).foldl (sweepSingleArticle env) (cleanup db userId)

/-- The article the resolver finds for a bracket text, other than the one it stands in:
`engine/wikilink_resolver.py:82–122`. -/
def targetOf (env : TextEnv) (db : Db) (article : Page) (inner : List Char) : Option Nat :=
  let candidate := env.strip (String.ofList inner)
  if candidate = "" then none
  else
    (resolveCandidate env ((db.pages.map (·.toArticle)).filter fun a ↦
      a.userId = article.userId ∧ some a.id ≠ some article.id) candidate).map (·.id)

/-- The first bracket text that names an article. -/
def firstFor (env : TextEnv) (db : Db) (article : Page) (content : List Char) (target : Nat) :
    Option (List Char) :=
  (candidates content).find? fun inner ↦ targetOf env db article inner = some target

/-- The brackets that name an article are spelled, up to case, as the first of them is without
its padding, and no others are. -/
def Uniform (env : TextEnv) (db : Db) (article : Page) (content : List Char) : Prop :=
  ∀ first ∈ candidates content, ∀ target ∈ targetOf env db article first,
    firstFor env db article content target = some first →
      ∀ inner ∈ candidates content,
        env.lower (env.strip (String.ofList first)) = env.lower (String.ofList inner) ↔
          targetOf env db article inner = some target

/-- The brackets of an article are uniform when its pass begins. -/
def UniformAt (env : TextEnv) (db : Db) (articleId : Nat) : Prop :=
  ∀ article ∈ db.pages, article.id = articleId → ∀ content ∈ db.content article,
    Uniform env db article content

/-- No bracket in a file of the user names an article. -/
def Swept (env : TextEnv) (userId : String) (db : Db) : Prop :=
  ∀ article ∈ db.pages, article.userId = userId → ∀ content ∈ db.content article,
    ∀ inner ∈ brackets content, targetOf env db article inner = none

/-- The pass of an article turns brackets into links to the articles they name and changes
nothing else in the file. -/
def LinksRight (env : TextEnv) (db : Db) (articleId : Nat) (db' : Db) : Prop :=
  ∀ article ∈ db.pages, article.id = articleId → ∀ content ∈ db.content article,
    ∃ chosen : List Char → Option Nat,
      (∀ inner ∈ brackets content, ∀ target ∈ chosen inner,
        targetOf env db article inner = some target) ∧
        db'.content article = some (relink chosen content)

section Resolver

variable (env : TextEnv) (db : Db) (article : Page)

/-- The answers of the resolver to a list of bracket texts. -/
private abbrev answers (texts : List (List Char)) : List ResolvedBacklink :=
  resolveBacklinkCandidates env (db.pages.map (·.toArticle)) article.userId (some article.id) []
    (texts.map String.ofList)

/-- The resolver answers once for each article, with the first bracket text that names it. -/
private theorem mem_answers (texts : List (List Char)) (rb : ResolvedBacklink) :
    rb ∈ answers env db article texts ↔
      ∃ first, texts.find? (fun inner ↦ targetOf env db article inner = some rb.targetId) =
        some first ∧ rb = ⟨env.strip (String.ofList first), rb.targetId, "references"⟩ := by
  have hnamed : ∀ inner, Compile.namedArticle env (Compile.candidatePool
      (db.pages.map (·.toArticle)) article.userId (some article.id)) (String.ofList inner) =
        targetOf env db article inner := fun _ ↦ rfl
  unfold answers
  rw [Compile.mem_resolveBacklinkCandidates, List.find?_map]
  constructor
  · rintro ⟨_, hfirst, hrb⟩
    obtain ⟨first, hfind, rfl⟩ := Option.map_eq_some_iff.mp hfirst
    exact ⟨first, hfind, hrb⟩
  · rintro ⟨first, hfind, hrb⟩
    exact ⟨String.ofList first, Option.map_eq_some_iff.mpr ⟨first, hfind, rfl⟩, hrb⟩

end Resolver

section Links

/-- An address has neither brackets nor parentheses. -/
private theorem not_mem_address {c : Char} (hc : c = '[' ∨ c = ')') (articleId : Nat) :
    c ∉ address articleId := by
  have hdigits : c ∉ Nat.toDigits 10 articleId := by
    intro hmem
    have hdigit := Nat.isDigit_of_mem_toDigits (by omega) (by omega) hmem
    rcases hc with rfl | rfl <;> exact absurd hdigit (by decide)
  unfold address
  rcases hc with rfl | rfl <;> simp [hdigits]

/-- Different articles have different addresses. -/
private theorem address_inj {i j : Nat} (h : address i = address j) : i = j := by
  unfold address at h
  simp only [List.cons.injEq, true_and] at h
  rw [← Nat.ofDigitChars_ten_toDigits (n := i), h, Nat.ofDigitChars_ten_toDigits]

private theorem mapped_address {c : Char} (hc : c = '[' ∨ c = ')') {e : List Char → Option Nat}
    (inner target : List Char) (h : (e inner).map address = some target) : c ∉ target := by
  obtain ⟨articleId, _, rfl⟩ := Option.map_eq_some_iff.mp h
  exact not_mem_address hc articleId

/-- The brackets without an entry are left. -/
theorem brackets_relink (e : List Char → Option Nat) (content : List Char) :
    brackets (relink e content) = (brackets content).filter (e · = none) := by
  unfold relink
  rw [brackets_replace (mapped_address (.inl rfl))]
  simp

/-- Without an entry for any bracket the content is left as it is. -/
theorem relink_eq_self {e : List Char → Option Nat} {content : List Char}
    (h : ∀ inner ∈ brackets content, e inner = none) : relink e content = content :=
  replace_eq_self fun inner hmem ↦ by rw [h inner hmem]; rfl

/-- The new content shows which bracket became a link to which article. -/
theorem relink_inj {e e' : List Char → Option Nat} {content : List Char}
    (h : relink e content = relink e' content) :
    ∀ inner ∈ brackets content, e inner = e' inner := by
  intro inner hmem
  exact Option.map_injective (fun _ _ ↦ address_inj)
    (replace_inj (mapped_address (.inr rfl)) (mapped_address (.inr rfl)) h inner hmem)

end Links

section Entries

variable {env : TextEnv} {db : Db} {article : Page} {content : List Char}

/-- An entry comes from the first bracket that names its article. -/
theorem entry_eq_some {inner : List Char} {target : Nat}
    (h : entry env (resolved env db article content) inner = some target) :
    ∃ first, firstFor env db article content target = some first ∧
      env.lower (env.strip (String.ofList first)) = env.lower (String.ofList inner) := by
  obtain ⟨rb, hfind, rfl⟩ := Option.map_eq_some_iff.mp h
  have hmem := List.mem_reverse.mp (List.mem_of_find?_eq_some hfind)
  obtain ⟨first, hfirst, hrb⟩ := (mem_answers env db article _ rb).mp hmem
  have hlower : env.lower rb.candidateText = env.lower (String.ofList inner) := by
    simpa using List.find?_some hfind
  rw [hrb] at hlower
  exact ⟨first, hfirst, hlower⟩

/-- The first bracket that names an article makes an entry. -/
theorem entry_isSome {first inner : List Char} {target : Nat}
    (hfirst : firstFor env db article content target = some first)
    (hlower : env.lower (env.strip (String.ofList first)) = env.lower (String.ofList inner)) :
    ∃ other, entry env (resolved env db article content) inner = some other := by
  have hmem : ⟨env.strip (String.ofList first), target, "references"⟩ ∈
      resolved env db article content := (mem_answers env db article _ _).mpr ⟨first, hfirst, rfl⟩
  have hsome : ((resolved env db article content).reverse.find? fun rb ↦
      env.lower rb.candidateText = env.lower (String.ofList inner)).isSome := by
    rw [List.find?_isSome]
    exact ⟨_, List.mem_reverse.mpr hmem, by simpa using hlower⟩
  obtain ⟨rb, hrb⟩ := Option.isSome_iff_exists.mp hsome
  exact ⟨rb.targetId, by rw [entry, hrb]; rfl⟩

private theorem mem_candidates {inner : List Char} :
    inner ∈ candidates content ↔ inner ∈ brackets content :=
  List.mem_eraseDups

/-- The first bracket that names an article names it. -/
theorem firstFor_spec {first : List Char} {target : Nat}
    (h : firstFor env db article content target = some first) :
    first ∈ candidates content ∧ targetOf env db article first = some target :=
  ⟨List.mem_of_find?_eq_some h, by simpa using List.find?_some h⟩

/-- An article named by a bracket is named by a first one. -/
theorem firstFor_of_mem {inner : List Char} {target : Nat} (hmem : inner ∈ candidates content)
    (h : targetOf env db article inner = some target) :
    ∃ first, firstFor env db article content target = some first := by
  rw [← Option.isSome_iff_exists, firstFor, List.find?_isSome]
  exact ⟨inner, hmem, by simpa using h⟩

/-- The entries of all brackets are what the resolver finds for them exactly when the brackets
are uniform. -/
theorem entry_iff_uniform :
    (∀ inner ∈ brackets content,
      entry env (resolved env db article content) inner = targetOf env db article inner) ↔
      Uniform env db article content := by
  constructor
  · intro h first hmem target htarget hfirst inner hinner
    have hself := h first (mem_candidates.mp hmem)
    have hother := h inner (mem_candidates.mp hinner)
    rw [Option.mem_def.mp htarget] at hself
    -- The entry of the first bracket is its own, so it is not padded.
    obtain ⟨first', hfirst', hlower⟩ := entry_eq_some hself
    rw [hfirst] at hfirst'
    cases hfirst'
    constructor
    · intro heq
      rw [← hother, ← hself]
      unfold entry
      rw [← heq, hlower]
    · intro heq
      rw [heq] at hother
      obtain ⟨first', hfirst', hlower'⟩ := entry_eq_some hother
      rw [hfirst] at hfirst'
      cases hfirst'
      exact hlower'
  · intro h inner hinner
    have huniform : ∀ target first, firstFor env db article content target = some first →
        (env.lower (env.strip (String.ofList first)) = env.lower (String.ofList inner) ↔
          targetOf env db article inner = some target) := by
      intro target first hfirst
      obtain ⟨hmem, htarget⟩ := firstFor_spec hfirst
      exact h first hmem target htarget hfirst inner (mem_candidates.mpr hinner)
    cases hentry : entry env (resolved env db article content) inner with
    | some target =>
      obtain ⟨first, hfirst, hlower⟩ := entry_eq_some hentry
      exact ((huniform target first hfirst).mp hlower).symm
    | none =>
      cases htarget : targetOf env db article inner with
      | none => rfl
      | some target =>
        obtain ⟨first, hfirst⟩ := firstFor_of_mem (mem_candidates.mpr hinner) htarget
        obtain ⟨other, hother⟩ := entry_isSome hfirst ((huniform target first hfirst).mpr htarget)
        rw [hentry] at hother
        cases hother

end Entries

section Pass

variable {env : TextEnv} {db : Db} {article : Page} {content : List Char}

/-- A pass leaves the articles. -/
@[simp] theorem pages_sweep (env : TextEnv) (db : Db) (articleId : Nat) :
    (sweepSingleArticle env db articleId).pages = db.pages := by
  unfold sweepSingleArticle
  split
  · rfl
  split
  · rfl
  · dsimp only
    split
    · rfl
    · split <;> rfl

/-- Articles and their files are searched in the articles alone. -/
theorem targetOf_congr {db' : Db} (h : db'.pages = db.pages) :
    targetOf env db' = targetOf env db := by
  unfold targetOf
  rw [h]

/-- What a pass does to its article: the brackets with an entry become links. -/
theorem content_sweep (hmem : article ∈ db.pages) (hcontent : db.content article = some content) :
    (sweepSingleArticle env db article.id).content article =
      some (relink (entry env (resolved env db article content)) content) := by
  have hfind : db.pages.find? (·.id = article.id) = some article :=
    Rows.find?_of_nodup db.nodup_id hmem
  unfold sweepSingleArticle
  simp only [hfind, hcontent]
  split
  · next hempty =>
    have hnil : ∀ inner ∈ brackets content, entry env [] inner = none := fun _ _ ↦ rfl
    rw [List.isEmpty_iff.mp hempty, relink_eq_self hnil]
    exact hcontent
  · split
    · next heq => rw [heq]; exact hcontent
    · simp [Db.write, Db.content]

/-- A pass writes no other file. -/
theorem files_sweep {key : String × String} (hmem : article ∈ db.pages)
    (hkey : key ≠ (article.userId, article.filePath)) :
    (sweepSingleArticle env db article.id).files key = db.files key := by
  have hfind : db.pages.find? (·.id = article.id) = some article :=
    Rows.find?_of_nodup db.nodup_id hmem
  unfold sweepSingleArticle
  simp only [hfind]
  split
  · rfl
  · split
    · rfl
    · split
      · rfl
      · simp [Db.write, hkey]

/-- A pass over a file in which no bracket names an article changes nothing. -/
theorem sweep_eq_self (hmem : article ∈ db.pages)
    (h : ∀ content ∈ db.content article, ∀ inner ∈ brackets content,
      targetOf env db article inner = none) : sweepSingleArticle env db article.id = db := by
  have hfind : db.pages.find? (·.id = article.id) = some article :=
    Rows.find?_of_nodup db.nodup_id hmem
  unfold sweepSingleArticle
  simp only [hfind]
  split
  · rfl
  · next content hcontent =>
    have hnil : resolved env db article content = [] := by
      rw [List.eq_nil_iff_forall_not_mem]
      intro rb hrb
      obtain ⟨first, hfirst, _⟩ := (mem_answers env db article _ rb).mp hrb
      obtain ⟨hin, htarget⟩ := firstFor_spec hfirst
      rw [h content hcontent first (mem_candidates.mp hin)] at htarget
      cases htarget
    simp [hnil]

end Pass

section Runs

variable {env : TextEnv} {db : Db} {article : Page} {userId : String}

/-- No bracket in the file of an article names an article. -/
def Clean (env : TextEnv) (db : Db) (article : Page) : Prop :=
  ∀ content ∈ db.content article, ∀ inner ∈ brackets content, targetOf env db article inner = none

/-- A pass leaves the content of an article, or some brackets of it. -/
private theorem content_any (env : TextEnv) (db : Db) (article : Page) (articleId : Nat) :
    ∃ e : List Char → Option Nat,
      (sweepSingleArticle env db articleId).content article =
        (db.content article).map (relink e) := by
  have hsame : ∃ e : List Char → Option Nat,
      db.content article = (db.content article).map (relink e) := by
    refine ⟨fun _ ↦ none, ?_⟩
    have hid : relink (fun _ ↦ none) = id := by
      funext content
      exact relink_eq_self fun _ _ ↦ rfl
    rw [hid, Option.map_id]
    rfl
  cases hfind : db.pages.find? (·.id = articleId) with
  | none =>
    have heq : sweepSingleArticle env db articleId = db := by simp [sweepSingleArticle, hfind]
    rw [heq]
    exact hsame
  | some other =>
    have hmem := List.mem_of_find?_eq_some hfind
    have hid : other.id = articleId := by simpa using List.find?_some hfind
    subst hid
    by_cases hkey : (article.userId, article.filePath) = (other.userId, other.filePath)
    · have hcontent : db.content article = db.content other := congrArg db.files hkey
      have hafter : (sweepSingleArticle env db other.id).content article =
          (sweepSingleArticle env db other.id).content other :=
        congrArg (sweepSingleArticle env db other.id).files hkey
      rw [hafter, hcontent]
      cases hold : db.content other with
      | none =>
        have heq : sweepSingleArticle env db other.id = db := by
          unfold sweepSingleArticle
          simp only [hfind, hold]
        exact ⟨fun _ ↦ none, by rw [heq, hold]; rfl⟩
      | some content => exact ⟨_, content_sweep hmem hold⟩
    · obtain ⟨e, he⟩ := hsame
      exact ⟨e, (files_sweep hmem hkey).trans he⟩

/-- A clean article stays clean. -/
theorem Clean.sweep (h : Clean env db article) (articleId : Nat) :
    Clean env (sweepSingleArticle env db articleId) article := by
  intro content hcontent inner hinner
  rw [targetOf_congr (pages_sweep env db articleId)]
  obtain ⟨e, he⟩ := content_any env db article articleId
  rw [Option.mem_def, he] at hcontent
  obtain ⟨old, hold, rfl⟩ := Option.map_eq_some_iff.mp hcontent
  rw [brackets_relink, List.mem_filter] at hinner
  exact h old hold inner hinner.1

/-- Its own pass makes an article clean if its brackets are uniform. -/
theorem clean_of_uniform (hmem : article ∈ db.pages) (h : UniformAt env db article.id) :
    Clean env (sweepSingleArticle env db article.id) article := by
  intro content hcontent inner hinner
  rw [targetOf_congr (pages_sweep env db article.id)]
  obtain ⟨e, he⟩ := content_any env db article article.id
  rw [Option.mem_def, he] at hcontent
  obtain ⟨old, hold, _⟩ := Option.map_eq_some_iff.mp hcontent
  rw [← he, content_sweep hmem hold] at hcontent
  cases hcontent
  rw [brackets_relink, List.mem_filter] at hinner
  obtain ⟨hin, hnone⟩ := hinner
  rw [← entry_iff_uniform.mpr (h article hmem rfl old hold) inner hin]
  simpa using hnone

/-- The pass of an article with uniform brackets makes the right links. -/
theorem linksRight_of_uniform {articleId : Nat} (h : UniformAt env db articleId) :
    LinksRight env db articleId (sweepSingleArticle env db articleId) := by
  rintro article hmem rfl content hcontent
  refine ⟨_, fun inner hinner target hentry ↦ ?_, content_sweep hmem hcontent⟩
  rw [← entry_iff_uniform.mpr (h article hmem rfl content hcontent) inner hinner]
  exact hentry

/-- The passes over a list of articles leave the articles. -/
theorem pages_passes (env : TextEnv) (db : Db) (ids : List Nat) :
    (ids.foldl (sweepSingleArticle env) db).pages = db.pages := by
  induction ids generalizing db with
  | nil => rfl
  | cons articleId ids ih => rw [List.foldl_cons, ih, pages_sweep]

/-- The passes leave the files that exist, and no others. -/
theorem isSome_content_passes (env : TextEnv) (db : Db) (ids : List Nat) (article : Page) :
    ((ids.foldl (sweepSingleArticle env) db).content article).isSome =
      (db.content article).isSome := by
  induction ids generalizing db with
  | nil => rfl
  | cons articleId ids ih =>
    obtain ⟨e, he⟩ := content_any env db article articleId
    rw [List.foldl_cons, ih, he, Option.isSome_map]

/-- A clean article is clean after the passes. -/
theorem Clean.passes (h : Clean env db article) (ids : List Nat) :
    Clean env (ids.foldl (sweepSingleArticle env) db) article := by
  induction ids generalizing db with
  | nil => exact h
  | cons articleId ids ih => exact ih (h.sweep articleId)

/-- Guarded passes make all their articles clean. -/
theorem clean_of_guarded {ids : List Nat} (h : (sweeper env).Guarded (UniformAt env) db ids)
    (hmem : article ∈ db.pages) (hid : article.id ∈ ids) :
    Clean env (ids.foldl (sweepSingleArticle env) db) article := by
  induction ids generalizing db with
  | nil => cases hid
  | cons articleId ids ih =>
    obtain ⟨huniform, hrest⟩ := h _ rfl
    have hmem' : article ∈ (sweepSingleArticle env db articleId).pages := by
      rw [pages_sweep]
      exact hmem
    by_cases hhead : article.id = articleId
    · subst hhead
      exact (clean_of_uniform hmem huniform).passes ids
    · exact ih hrest hmem' ((List.mem_cons.mp hid).resolve_left hhead)

/-- Passes over clean articles change nothing. -/
theorem passes_eq_self {ids : List Nat} (h : ∀ i ∈ ids, ∃ x ∈ db.pages, x.id = i ∧ Clean env db x) :
    ids.foldl (sweepSingleArticle env) db = db := by
  induction ids with
  | nil => rfl
  | cons articleId ids ih =>
    obtain ⟨⟨x, hx, rfl, hclean⟩, hrest⟩ := List.forall_mem_cons.mp h
    rw [List.foldl_cons, sweep_eq_self hx hclean]
    exact ih hrest

end Runs

section Cleanup

variable {env : TextEnv} {db : Db} {userId : String}

private abbrev removeMissing (db : Db) (article : Page) : Db :=
  if (db.content article).isSome then db else db.remove article.id

private theorem files_removeMissing (db : Db) (article : Page) :
    (removeMissing db article).files = db.files := by
  unfold removeMissing
  split <;> rfl

private theorem files_removals (db : Db) (orphans : List Page) :
    (orphans.foldl removeMissing db).files = db.files := by
  induction orphans generalizing db with
  | nil => rfl
  | cons x orphans ih => rw [List.foldl_cons, ih, files_removeMissing]

private theorem mem_removals {orphans : List Page} {p : Page}
    (hp : p ∈ (orphans.foldl removeMissing db).pages) :
    p ∈ db.pages ∧ (p ∈ orphans → (db.content p).isSome) := by
  induction orphans generalizing db with
  | nil => exact ⟨hp, fun h ↦ nomatch h⟩
  | cons x orphans ih =>
    obtain ⟨hmem, hrest⟩ := ih hp
    have hcontent : (removeMissing db x).content p = db.content p :=
      congrFun (files_removeMissing db x) _
    rw [hcontent] at hrest
    unfold removeMissing at hmem
    split at hmem
    · next hsome =>
      refine ⟨hmem, fun h ↦ ?_⟩
      rcases List.mem_cons.mp h with rfl | h
      · exact hsome
      · exact hrest h
    · obtain ⟨hold, hne⟩ := List.mem_filter.mp hmem
      refine ⟨hold, fun h ↦ ?_⟩
      rcases List.mem_cons.mp h with rfl | h
      · simp at hne
      · exact hrest h

/-- The concept pages that the cleanup leaves have a file. -/
theorem isSome_content_cleanup {p : Page} (hp : p ∈ (cleanup db userId).pages)
    (htype : p.pageType = .concept) (huser : p.userId = userId) :
    ((cleanup db userId).content p).isSome := by
  obtain ⟨hmem, hsome⟩ := mem_removals hp
  have hfiles : (cleanup db userId).content p = db.content p := congrFun (files_removals db _) _
  rw [hfiles]
  exact hsome (List.mem_filter.mpr ⟨hmem, by simp [htype, huser]⟩)

/-- Nothing is cleaned up if all concept pages have a file. -/
theorem cleanup_eq_self (h : ∀ p ∈ db.pages, p.pageType = .concept → p.userId = userId →
    (db.content p).isSome) : cleanup db userId = db := by
  have hall : ∀ orphans : List Page, (∀ p ∈ orphans, (db.content p).isSome) →
      orphans.foldl removeMissing db = db := by
    intro orphans horphans
    induction orphans with
    | nil => rfl
    | cons x orphans ih =>
      obtain ⟨hx, hrest⟩ := List.forall_mem_cons.mp horphans
      rw [List.foldl_cons, removeMissing, if_pos hx]
      exact ih hrest
  apply hall
  intro p hp
  obtain ⟨hmem, hcond⟩ := List.mem_filter.mp hp
  obtain ⟨htype, huser⟩ := of_decide_eq_true hcond
  exact h p hmem htype huser

end Cleanup

/-- What a sweep promises: no bracket is left that names an article, all links are right, and
a second sweep changes nothing. -/
structure Complete (env : TextEnv) (db : Db) (userId : String) : Prop where
  swept : Swept env userId (sweepWikilinks env db userId)
  links : (sweeper env).Steps (LinksRight env) (cleanup db userId)
    ((cleanup db userId).idsOf userId)
  again : sweepWikilinks env (sweepWikilinks env db userId) userId = sweepWikilinks env db userId

/-- The files of the user's articles are different ones. -/
def DistinctPaths (userId : String) (db : Db) : Prop :=
  ∀ x ∈ db.pages, ∀ y ∈ db.pages, x.userId = userId → y.userId = userId →
    x.filePath = y.filePath → x.id = y.id

section Sweep

variable {env : TextEnv} {db : Db} {userId : String}

theorem mem_idsOf {articleId : Nat} :
    articleId ∈ db.idsOf userId ↔ ∃ x ∈ db.pages, x.userId = userId ∧ x.id = articleId := by
  unfold Db.idsOf
  simp [List.mem_map, List.mem_filter, and_assoc]

private theorem nodup_idsOf (db : Db) (userId : String) : (db.idsOf userId).Nodup :=
  db.nodup_id.sublist (List.filter_sublist.map _)

/-- After guarded passes every file of the user is swept. -/
theorem swept_of_guarded
    (h : (sweeper env).Guarded (UniformAt env) db (db.idsOf userId)) :
    Swept env userId ((db.idsOf userId).foldl (sweepSingleArticle env) db) := by
  intro article hmem huser
  rw [pages_passes] at hmem
  exact clean_of_guarded h hmem (mem_idsOf.mpr ⟨article, hmem, huser, rfl⟩)

/-- Guarded passes make right links. -/
theorem steps_of_guarded {ids : List Nat} (h : (sweeper env).Guarded (UniformAt env) db ids) :
    (sweeper env).Steps (LinksRight env) db ids := by
  apply Machine.steps_of_guarded (sweeper env) (I := fun _ ↦ True) _ trivial h
  intro s articleId t _ huniform hstep
  cases hstep
  exact ⟨trivial, linksRight_of_uniform huniform⟩

/-- A sweep after one that swept all files changes nothing. -/
theorem again_of_swept (h : Swept env userId (sweepWikilinks env db userId)) :
    sweepWikilinks env (sweepWikilinks env db userId) userId = sweepWikilinks env db userId := by
  have hclean : cleanup (sweepWikilinks env db userId) userId = sweepWikilinks env db userId := by
    apply cleanup_eq_self
    intro p hp htype huser
    unfold sweepWikilinks at hp ⊢
    rw [pages_passes] at hp
    rw [isSome_content_passes]
    exact isSome_content_cleanup hp htype huser
  generalize sweepWikilinks env db userId = db' at h hclean
  unfold sweepWikilinks
  rw [hclean]
  apply passes_eq_self
  intro i hi
  obtain ⟨x, hx, huser, hid⟩ := mem_idsOf.mp hi
  exact ⟨x, hx, hid, h x hx huser⟩

/-- The passes of other articles leave a file of its own. -/
theorem content_passes_other {ids : List Nat} {article : Page} (hpaths : DistinctPaths userId db)
    (hmem : article ∈ db.pages) (huser : article.userId = userId)
    (hids : ∀ i ∈ ids, ∃ x ∈ db.pages, x.userId = userId ∧ x.id = i) (hother : article.id ∉ ids) :
    (ids.foldl (sweepSingleArticle env) db).content article = db.content article := by
  induction ids generalizing db with
  | nil => rfl
  | cons i ids ih =>
    obtain ⟨⟨x, hx, hxuser, rfl⟩, hrest⟩ := List.forall_mem_cons.mp hids
    rw [List.mem_cons, not_or] at hother
    have hpages := pages_sweep env db x.id
    rw [List.foldl_cons, ih (by unfold DistinctPaths; rwa [hpages]) (by rwa [hpages])
      (by rwa [hpages]) hother.2]
    apply files_sweep hx
    intro hkey
    exact hother.1 (hpaths article hmem x hx huser hxuser (Prod.ext_iff.mp hkey).2)

/-- Passes that make right links and leave no bracket that names an article were guarded, if
the files are different ones. -/
theorem guarded_of_swept {ids : List Nat} (hpaths : DistinctPaths userId db)
    (hids : ∀ i ∈ ids, ∃ x ∈ db.pages, x.userId = userId ∧ x.id = i) (hnodup : ids.Nodup)
    (hlinks : (sweeper env).Steps (LinksRight env) db ids)
    (hswept : Swept env userId (ids.foldl (sweepSingleArticle env) db)) :
    (sweeper env).Guarded (UniformAt env) db ids := by
  induction ids generalizing db with
  | nil => trivial
  | cons i ids ih =>
    intro t ht
    cases ht
    obtain ⟨hright, hrest⟩ := hlinks _ rfl
    obtain ⟨⟨x, hx, hxuser, rfl⟩, hids'⟩ := List.forall_mem_cons.mp hids
    rw [List.nodup_cons] at hnodup
    have hpages := pages_sweep env db x.id
    have hpaths' : DistinctPaths userId (sweepSingleArticle env db x.id) := by
      unfold DistinctPaths
      rwa [hpages]
    refine ⟨?_, ih hpaths' (by rwa [hpages]) hnodup.2 hrest hswept⟩
    intro article hmem hid content hcontent
    obtain rfl := Rows.eq_of_nodup db.nodup_id hx hmem hid
    rw [← entry_iff_uniform]
    intro inner hinner
    obtain ⟨chosen, hchosen, hafter⟩ := hright article hmem rfl content hcontent
    rw [content_sweep hmem hcontent] at hafter
    have hentry := relink_inj (Option.some.inj hafter) inner hinner
    cases htarget : entry env (resolved env db article content) inner with
    | some target =>
      exact (hchosen inner hinner target (by rw [← hentry]; exact htarget)).symm
    | none =>
      -- A bracket without an entry is left in the end.
      have hend :
          (ids.foldl (sweepSingleArticle env) (sweepSingleArticle env db article.id)).content
              article =
            some (relink (entry env (resolved env db article content)) content) := by
        rw [content_passes_other hpaths' (by rwa [hpages]) hxuser (by rwa [hpages]) hnodup.1]
        exact content_sweep hmem hcontent
      have hleft :
          inner ∈ brackets (relink (entry env (resolved env db article content)) content) := by
        rw [brackets_relink, List.mem_filter]
        exact ⟨hinner, by simpa using htarget⟩
      have hnone := hswept article (by rw [pages_passes]; exact hmem) hxuser _ hend inner hleft
      rw [targetOf_congr (pages_passes env _ _)] at hnone
      exact hnone.symm

/-- A sweep whose passes find uniform brackets keeps its promises, and where the user's files
are different ones it keeps them only then. -/
theorem sweep_complete_iff (env : TextEnv) (db : Db) (userId : String) :
    ((sweeper env).Guarded (UniformAt env) (cleanup db userId) ((cleanup db userId).idsOf userId) →
        Complete env db userId) ∧
      (DistinctPaths userId (cleanup db userId) →
        (Complete env db userId ↔ (sweeper env).Guarded (UniformAt env) (cleanup db userId)
          ((cleanup db userId).idsOf userId))) := by
  have hforward : (sweeper env).Guarded (UniformAt env) (cleanup db userId)
      ((cleanup db userId).idsOf userId) → Complete env db userId := by
    intro hguarded
    have hswept := swept_of_guarded hguarded
    exact ⟨hswept, steps_of_guarded hguarded, again_of_swept hswept⟩
  refine ⟨hforward, fun hpaths ↦ ⟨fun h ↦ ?_, hforward⟩⟩
  exact guarded_of_swept hpaths (fun i hi ↦ mem_idsOf.mp hi) (nodup_idsOf _ _) h.links h.swept

end Sweep

section Examples

/-- Lower case and titles of plain texts. -/
def plainText : TextEnv where
  slugify := fun _ s ↦ s
  strip := fun s ↦
    String.ofList ((s.toList.dropWhile (· = ' ')).reverse.dropWhile (· = ' ')).reverse
  lower := fun s ↦ String.ofList (s.toList.map Char.toLower)
  normalizeTitle := fun s ↦ String.ofList ((s.toList.filter Char.isAlphanum).map Char.toLower)
  slugMaxAttempts := 3

private def plainPage (id : Nat) (title filePath : String) : Page where
  id := id
  userId := "u"
  slug := title
  title := title
  filePath := filePath
  conceptIds := []
  confidence := .sourced
  summary := ""
  sourceIds := []
  provider := none
  compiledAt := 0
  pageType := .source

/-- Two articles, of which the first has the content. -/
def twoPages (content : String) : Db where
  pages := [plainPage 1 "Bar" "bar.md", plainPage 2 "Foo" "foo.md"]
  files := fun key ↦
    if key = ("u", "bar.md") then some content.toList
    else if key = ("u", "foo.md") then some [] else none
  backlinks := []
  nodup_id := by decide

instance (env : TextEnv) (db : Db) (article : Page) (content : List Char) :
    Decidable (Uniform env db article content) :=
  inferInstanceAs (Decidable (∀ first ∈ candidates content,
    ∀ target ∈ targetOf env db article first,
      firstFor env db article content target = some first →
        ∀ inner ∈ candidates content,
          env.lower (env.strip (String.ofList first)) = env.lower (String.ofList inner) ↔
            targetOf env db article inner = some target))

instance (env : TextEnv) (db : Db) (articleId : Nat) : Decidable (UniformAt env db articleId) :=
  inferInstanceAs (Decidable (∀ article ∈ db.pages, article.id = articleId →
    ∀ content ∈ db.content article, Uniform env db article content))

/-- Brackets of one spelling, in any case, are all linked. -/
theorem sweep_complete_plain : Complete plainText (twoPages "[[Foo]] and [[foo]]") "u" :=
  (sweep_complete_iff plainText (twoPages "[[Foo]] and [[foo]]") "u").1 (by decide +kernel)

private theorem not_complete_of_left {s : String} (after : String) (inner : List Char)
    (hafter : (sweepWikilinks plainText (twoPages s) "u").files ("u", "bar.md") = some after.toList)
    (hinner : inner ∈ brackets after.toList)
    (htarget : targetOf plainText (twoPages s) (plainPage 1 "Bar" "bar.md") inner ≠ none)
    (hclean : cleanup (twoPages s) "u" = twoPages s) : ¬ Complete plainText (twoPages s) "u" := by
  intro h
  have hpages : (sweepWikilinks plainText (twoPages s) "u").pages = (twoPages s).pages := by
    unfold sweepWikilinks
    rw [pages_passes, hclean]
  have hmem : plainPage 1 "Bar" "bar.md" ∈ (sweepWikilinks plainText (twoPages s) "u").pages := by
    rw [hpages]
    exact List.mem_cons_self ..
  have hswept := h.swept
  -- only the pages and the file matter from here on
  generalize sweepWikilinks plainText (twoPages s) "u" = db at hafter hpages hmem hswept
  have hnone := hswept _ hmem rfl _ hafter inner hinner
  rw [targetOf_congr hpages] at hnone
  exact htarget hnone

/-- A second spelling of one title and a padded title are left, though both name an article,
and the second spelling becomes a link in the next sweep. -/
theorem sweep_not_complete :
    ¬ Complete plainText (twoPages "[[Foo]] and [[foo!]]") "u" ∧
      ¬ Complete plainText (twoPages "see [[ Foo ]]") "u" ∧
      sweepWikilinks plainText
          (sweepWikilinks plainText (twoPages "[[Foo]] and [[foo!]]") "u") "u" ≠
        sweepWikilinks plainText (twoPages "[[Foo]] and [[foo!]]") "u" := by
  refine ⟨?_, ?_, fun h ↦ ?_⟩
  · exact not_complete_of_left "[Foo](/wiki/2) and [[foo!]]" "foo!".toList
      (by decide +kernel) (by decide +kernel) (by decide +kernel) rfl
  · exact not_complete_of_left "see [[ Foo ]]" " Foo ".toList
      (by decide +kernel) (by decide +kernel) (by decide +kernel) rfl
  · have hfile := congrArg (fun db ↦ db.files ("u", "bar.md")) h
    revert hfile
    decide +kernel

end Examples

end WikiMind.Jobs.Sweep
