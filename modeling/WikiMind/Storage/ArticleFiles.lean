import WikiMind.Compile.SaveArticle
import WikiMind.Storage.KeptFiles

/-!
# Where a compiled article is written

`_write_article_file` (`engine/compiler.py:950`) joins the slug of the first concept and the slug
of the article to a relative path, and `LocalFileStorage.write` (`storage.py:95`) refuses one that
leaves the directory of the user. A concept without letters or digits has an empty slug, and then
the path is an absolute one.
-/

namespace WikiMind.Storage

open WikiMind.Base
open WikiMind.Compile (TextEnv Tables Attempt generateUniqueSlug slugCandidates mem_of_freeSlug
  chooseSlug relativePath)

/-- `LocalFileStorage.write`: the path is resolved, the directories above it are made, unless one
of them is a file, and the file is written, unless it is a directory. -/
def LocalFileStorage.write (settings : Settings) (fs : FileSystem) (storage : LocalFileStorage)
    (relativePath content : List Char) : Except StorageError FileSystem := do
  let path ← storage.resolve settings relativePath
  if path.dropLast.inits.any fun p ↦ (fs.file p).isSome then throw .osError
  if fs.dir path then throw .osError
  return { file := fun p ↦ if p = path then some content else fs.file p
           dir := fun p ↦ fs.dir p || p.isPrefixOf path.dropLast }

/-- `[a-z0-9-]`. -/
def isSlugChar (c : Char) : Bool :=
  ('a' ≤ c && c ≤ 'z') || ('0' ≤ c && c ≤ '9') || c = '-'

/-- What `slugify` promises. -/
structure Slugifies (env : TextEnv) : Prop where
  chars : ∀ limit s, ∀ c ∈ (env.slugify limit s).toList, isSlugChar c
  general : env.slugify none "general" = "general"

/-- The slug of an article: one that `generate_unique_slug` has given to some title. -/
def IsArticleSlug (env : TextEnv) (userId slug : String) : Prop :=
  ∃ articles title, generateUniqueSlug env articles userId title = .ok slug

/-- The path of a compiled article. -/
def articlePath (env : TextEnv) (concepts : List String) (slug : String) : List Char :=
  (relativePath env concepts slug).toList

/-- The path is that of a file below the directory of the user, and a write does not refuse it. -/
structure Accepts (settings : Settings) (userId : UserId) (path : List Char) : Prop where
  below : ∃ part parts, ((getWikiStorage settings userId).root.join path).resolve settings.cwd =
    (getWikiStorage settings userId).root.resolve settings.cwd ++ part :: parts
  writes : ∀ fs content,
    (getWikiStorage settings userId).write settings fs path content ≠ .error .valueError

section ArticleFiles

variable {settings : Settings} {userId : UserId} {env : TextEnv} {user slug : String}
  {concepts : List String}

private theorem isSlugChar_ne {c d : Char} (h : isSlugChar c) (hd : isSlugChar d = false) :
    c ≠ d := by
  rintro rfl
  rw [h] at hd
  cases hd

private theorem isSlugChar_of_isDigit {c : Char} (h : c.isDigit) : isSlugChar c := by
  unfold Char.isDigit at h
  unfold isSlugChar
  rw [Bool.or_eq_true, Bool.or_eq_true]
  exact .inl (.inr h)

/-- A slug with a number behind it keeps to the alphabet. -/
theorem isSlugChar_of_isArticleSlug (henv : Slugifies env) (h : IsArticleSlug env user slug) :
    ∀ c ∈ slug.toList, isSlugChar c := by
  obtain ⟨articles, title, hok⟩ := h
  have hmem : slug ∈ slugCandidates (env.slugify (some 80) title) env.slugMaxAttempts := by
    unfold generateUniqueSlug at hok
    dsimp only at hok
    split at hok
    · next found hfound =>
      cases hok
      exact mem_of_freeSlug hfound
    · cases hok
  obtain ⟨i, -, rfl⟩ := List.mem_map.mp hmem
  intro c hc
  split at hc
  · exact henv.chars _ _ c hc
  · simp only [String.toList_append, List.mem_append] at hc
    obtain (hbase | hhyphen) | hnumber := hc
    · exact henv.chars _ _ c hbase
    · obtain rfl : c = '-' := by simpa using hhyphen
      rfl
    · have hdigit : c.isDigit := by
        rw [show toString (i + 1) = Nat.repr (i + 1) from rfl, Nat.toList_repr] at hnumber
        exact Nat.isDigit_of_mem_toDigits (by omega) (by omega) hnumber
      exact isSlugChar_of_isDigit hdigit

/-- The slug a save goes on with is that of an article, if the one it replaces has such a slug. -/
theorem isArticleSlug_of_chooseSlug {db : Tables} {existing : Option Compile.Article}
    {a : Attempt} (hold : ∀ e ∈ existing, IsArticleSlug env user e.slug)
    (h : chooseSlug env db user existing a = .ok slug) : IsArticleSlug env user slug := by
  cases existing with
  | some e =>
    cases h
    exact hold e rfl
  | none =>
    obtain ⟨-, -, h⟩ := bind_eq_ok.mp h
    exact ⟨_, _, h⟩

private theorem write_eq_valueError_iff {fs : FileSystem} {storage : LocalFileStorage}
    {path content : List Char} :
    storage.write settings fs path content = .error .valueError ↔
      storage.resolve settings path = .error .valueError := by
  unfold LocalFileStorage.write
  cases storage.resolve settings path with
  | error e => simp [bind, Except.bind]
  | ok place =>
    simp only [bind, Except.bind, pure, Except.pure]
    split
    · simp [throw, throwThe, MonadExceptOf.throw]
    · split
      · simp [throw, throwThe, MonadExceptOf.throw]
      · simp

/-- A write takes what lies below the directory of the user. -/
theorem accepts_iff {path : List Char} :
    Accepts settings userId path ↔
      ∃ part parts, ((getWikiStorage settings userId).root.join path).resolve settings.cwd =
        (getWikiStorage settings userId).root.resolve settings.cwd ++ part :: parts := by
  constructor
  · exact Accepts.below
  · intro hbelow
    refine ⟨hbelow, fun fs content ↦ ?_⟩
    obtain ⟨part, parts, heq⟩ := hbelow
    rw [Ne, write_eq_valueError_iff, resolve_eq_ok.mpr ⟨rfl, ⟨part :: parts, heq.symm⟩⟩]
    intro h
    cases h

/-- The slug of the first concept, and the name of the file. -/
theorem articlePath_eq (env : TextEnv) (concepts : List String) (slug : String) :
    articlePath env concepts slug =
      (env.slugify none (concepts.headD "general")).toList ++
        '/' :: (slug.toList ++ ".md".toList) := by
  unfold articlePath relativePath
  simp [String.toList_append]

private theorem not_slash_of_isSlugChar {s : List Char} (h : ∀ c ∈ s, isSlugChar c) : '/' ∉ s :=
  fun hmem ↦ isSlugChar_ne (h _ hmem) rfl rfl

/-- The file is a name of its own. -/
theorem fileName_spec (hslug : ∀ c ∈ slug.toList, isSlugChar c) :
    '/' ∉ slug.toList ++ ".md".toList ∧ isPart (slug.toList ++ ".md".toList) ∧
      slug.toList ++ ".md".toList ≠ up := by
  refine ⟨?_, ?_, ?_⟩
  · rw [List.mem_append, not_or]
    exact ⟨not_slash_of_isSlugChar hslug, by decide⟩
  · have hlength : 3 ≤ (slug.toList ++ ".md".toList).length := by simp
    simp only [isPart, Bool.and_eq_true, decide_eq_true_eq]
    constructor
    · intro h
      rw [h] at hlength
      cases hlength
    · intro h
      rw [h] at hlength
      revert hlength
      decide
  · intro h
    have hlength := congrArg List.length h
    simp [up] at hlength

/-- With a slug of the concept the path is a relative one of two parts. -/
theorem ofText_articlePath (hconcept : env.slugify none (concepts.headD "general") ≠ "")
    (henv : Slugifies env) (hslug : ∀ c ∈ slug.toList, isSlugChar c) :
    Path.ofText (articlePath env concepts slug) =
      ⟨[], [(env.slugify none (concepts.headD "general")).toList,
        slug.toList ++ ".md".toList]⟩ := by
  obtain ⟨hslash, hpart, -⟩ := fileName_spec hslug
  have hchars := henv.chars none (concepts.headD "general")
  set name := (env.slugify none (concepts.headD "general")).toList with hname
  have hne : name ≠ [] := by simpa [hname] using hconcept
  have hnameSlash : '/' ∉ name := not_slash_of_isSlugChar hchars
  have hdot : name ≠ ['.'] := by
    rintro h
    exact isSlugChar_ne (hchars '.' (by simp [h])) rfl rfl
  have hnamePart : isPart name := by simp [isPart, hne, hdot]
  have hproper : Path.Proper ⟨[], [name]⟩ :=
    ⟨List.mem_cons_self, by simpa using ⟨hnameSlash, hnamePart⟩⟩
  have htext : (⟨[], [name]⟩ : Path).text = name := by simp [Path.text]
  rw [articlePath_eq, ← hname, ← htext, hproper.ofText_append (by simp), htext,
    Path.ofText_name hslash hpart]
  rfl

/-- Without one it is absolute, and of one part. -/
theorem ofText_articlePath_of_empty
    (hconcept : env.slugify none (concepts.headD "general") = "")
    (hslug : ∀ c ∈ slug.toList, isSlugChar c) :
    Path.ofText (articlePath env concepts slug) = ⟨['/'], [slug.toList ++ ".md".toList]⟩ := by
  obtain ⟨hslash, hpart, -⟩ := fileName_spec hslug
  have hroot : rootOf ('/' :: (slug.toList ++ ".md".toList)) = ['/'] := by
    cases hchars : slug.toList with
    | nil => rfl
    | cons c s =>
      have hc : c ≠ '/' := isSlugChar_ne (hslug c (by simp [hchars])) rfl
      have hroot : ['/'] ∈ [[], ['/'], ['/', '/']] := by simp
      exact Path.rootOf_append hroot hc
  rw [articlePath_eq, hconcept, Path.ofText]
  simp only [String.toList_empty, List.nil_append]
  rw [hroot, Path.splitOn_slash, List.splitOn_eq_singleton hslash,
    List.filter_cons_of_neg (by decide), List.filter_cons_of_pos hpart, List.filter_nil]

/-- The wiki directory is called `wiki`. -/
theorem wikiPlace_eq (settings : Settings) :
    ∃ place, settings.wikiPlace = place ++ ["wiki".toList] := by
  unfold Settings.wikiPlace Path.resolve
  rw [wikiDir_eq, Path.walk_append]
  exact ⟨_, rfl⟩

/-- No directory of a user holds a file of the root directory. -/
theorem not_root_prefix (settings : Settings) (userId : UserId) (name : Name) :
    ¬ (getWikiStorage settings userId).root.resolve settings.cwd <+: [name ++ ".md".toList] := by
  obtain ⟨place, hplace⟩ := wikiPlace_eq settings
  rw [resolve_root, hplace]
  intro hstarts
  have hlength := hstarts.length_le
  split at hstarts
  · have hnil : place = [] := by
      rw [if_pos ‹_›, List.length_append, List.length_singleton, List.length_singleton] at hlength
      exact List.length_eq_zero_iff.mp (by omega)
    rw [hnil, List.nil_append, List.cons_prefix_cons] at hstarts
    have hdot : '.' ∈ "wiki".toList := by
      rw [hstarts.1]
      simp
    revert hdot
    decide
  · rw [if_neg ‹_›] at hlength
    simp at hlength

/-- The path is accepted exactly if the slug of the concept is not empty. -/
theorem accepts_articlePath_iff (settings : Settings) (userId : UserId) (env : TextEnv)
    (henv : Slugifies env) (concepts : List String) (user slug : String)
    (hslug : IsArticleSlug env user slug) :
    Accepts settings userId (articlePath env concepts slug) ↔
      ∀ concept ∈ concepts.head?, env.slugify none concept ≠ "" := by
  have hchars := isSlugChar_of_isArticleSlug henv hslug
  have hhead : (∀ concept ∈ concepts.head?, env.slugify none concept ≠ "") ↔
      env.slugify none (concepts.headD "general") ≠ "" := by
    cases concepts with
    | nil => simp [henv.general]
    | cons concept concepts => simp
  rw [hhead, accepts_iff]
  by_cases hconcept : env.slugify none (concepts.headD "general") = ""
  · -- the absolute path names a file of the root directory
    have hpath := ofText_articlePath_of_empty hconcept hchars
    have hroot : rootOf (articlePath env concepts slug) ≠ [] := by
      rw [show rootOf (articlePath env concepts slug) = ['/'] from congrArg Path.root hpath]
      simp
    refine iff_of_false ?_ (not_not_intro hconcept)
    rintro ⟨part, parts, h⟩
    rw [Path.resolve_join_of_absolute _ hroot, hpath] at h
    apply not_root_prefix settings userId slug.toList
    refine ⟨part :: parts, h.symm.trans ?_⟩
    exact Path.walk_singleton [] (fileName_spec hchars).2.2
  · have hpath := ofText_articlePath hconcept henv hchars
    have hroot : rootOf (articlePath env concepts slug) = [] := congrArg Path.root hpath
    refine iff_of_true ⟨(env.slugify none (concepts.headD "general")).toList,
      [slug.toList ++ ".md".toList], ?_⟩ hconcept
    have hup : (env.slugify none (concepts.headD "general")).toList ≠ up := by
      intro h
      exact isSlugChar_ne (henv.chars _ _ '.' (by rw [h]; decide)) rfl rfl
    rw [Path.resolve_join_of_relative _ hroot, hpath, ← List.singleton_append, Path.walk_append,
      Path.walk_singleton _ hup, Path.walk_singleton _ (fileName_spec hchars).2.2,
      List.append_assoc]

/-- Lower case, and what is no letter, digit or hyphen goes. -/
def keepingSlugs : TextEnv :=
  ⟨fun _ s ↦ String.ofList ((s.toList.map Char.toLower).filter isSlugChar), id, id, id, 3⟩

private theorem slugifies_keepingSlugs : Slugifies keepingSlugs := by
  refine ⟨fun limit s c hc ↦ ?_, by decide⟩
  have hmem : c ∈ (s.toList.map Char.toLower).filter isSlugChar := by simpa [keepingSlugs] using hc
  exact (List.mem_filter.mp hmem).2

theorem accepts_articlePath_ai :
    Accepts ⟨"/data".toList, []⟩ ⟨"u".toList, by decide⟩
      (articlePath keepingSlugs ["AI", "???"] "llms") :=
  (accepts_articlePath_iff _ _ keepingSlugs slugifies_keepingSlugs _ "u" "llms"
    ⟨[], "LLMs", by decide⟩).mpr (by decide)

/-- An article whose first concept has neither letters nor digits is refused, and so is the
save. -/
theorem concept_without_slug_refused :
    IsArticleSlug keepingSlugs "u" "llms" ∧
      (∀ fs content, (getWikiStorage ⟨"/data".toList, []⟩ ⟨"u".toList, by decide⟩).write
        ⟨"/data".toList, []⟩ fs (articlePath keepingSlugs ["???", "AI"] "llms") content =
          .error .valueError) ∧
      ¬ Accepts ⟨"/data".toList, []⟩ ⟨"u".toList, by decide⟩
        (articlePath keepingSlugs ["???", "AI"] "llms") := by
  have hrefused : ∀ fs content,
      (getWikiStorage ⟨"/data".toList, []⟩ ⟨"u".toList, by decide⟩).write ⟨"/data".toList, []⟩ fs
        (articlePath keepingSlugs ["???", "AI"] "llms") content = .error .valueError :=
    fun fs content ↦ write_eq_valueError_iff.mpr (by decide)
  exact ⟨⟨[], "LLMs", by decide⟩, hrefused, fun h ↦
    h.writes ⟨fun _ ↦ none, fun _ ↦ false⟩ [] (hrefused _ _)⟩

end ArticleFiles

end WikiMind.Storage
