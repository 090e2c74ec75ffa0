import WikiMind.Base.Rows
import WikiMind.Storage.Migrations

/-!
# What the path migrations keep

Paths of an earlier version are absolute and lie below the wiki directory. Cutting the wiki
directory off a path leaves one that the storage of a user resolves below the directory of
that user, whatever the layout was: it is right for the rows without a user only, or where
the path climbs so far that its start does not matter. A path in another form is not cut,
and then the storage takes it if it lies in the directory of the user.
-/

namespace WikiMind.Storage

open WikiMind.Base

/-- The place of the wiki directory. -/
def Settings.wikiPlace (settings : Settings) : List Name :=
  settings.wikiDir.resolve settings.cwd

/-- The place an absolute path of an article names. -/
def place (settings : Settings) (article : Article) : List Name :=
  (Path.ofText article.filePath).resolve settings.cwd

/-- A database of an earlier version: every path of an article is absolute and lies below
the wiki directory. -/
structure Legacy (settings : Settings) extends Database where
  nodup : (articles.map (·.id)).Nodup
  absolute : ∀ article ∈ articles, article.filePath.head? = some '/'
  below : ∀ article ∈ articles, settings.wikiPlace <+: place settings article

/-- Every article whose file existed is there, and its storage reads that file. -/
def KeepsFiles (settings : Settings) (fs : FileSystem) (before after : Database) : Prop :=
  ∀ article ∈ before.articles, ∀ content, fs.file (place settings article) = some content →
    ∃ kept ∈ after.articles, kept.id = article.id ∧
      (getWikiStorage settings kept.userId).resolve settings kept.filePath =
        .ok (place settings article) ∧
      (getWikiStorage settings kept.userId).read settings fs kept.filePath = .ok content

/-- The file lies in the directory of the user of the article. -/
def InOwnDirectory (settings : Settings) (article : Article) : Prop :=
  (getWikiStorage settings article.userId).root.resolve settings.cwd <+: place settings article

/-- If the path is cut, the rest is relative and the article has no user, or the rest climbs
above the directory it is read from. -/
def CutRightly (settings : Settings) (article : Article) : Prop :=
  ∀ rest, article.filePath = wikiPrefix settings ++ rest →
    if rootOf rest = [] then
      article.userId.text = [] ∨
        settings.wikiPlace.length < Path.climbs (Path.ofText rest).parts
    else settings.wikiPlace.length ≤ Path.climbs (Path.ofText rest).parts

section Paths

variable {settings : Settings} {article : Article}

private theorem proper_wikiDir (settings : Settings) : settings.wikiDir.Proper :=
  (Path.proper_ofText _).join _

theorem wikiDir_eq (settings : Settings) : settings.wikiDir =
    ⟨rootOf settings.dataDir, (Path.ofText settings.dataDir).parts ++ ["wiki".toList]⟩ := by
  have hwiki : Path.ofText "wiki".toList = ⟨[], ["wiki".toList]⟩ := by decide
  simp only [Settings.wikiDir, Path.join, hwiki, if_true]
  rfl

private theorem wikiDir_parts_ne_nil (settings : Settings) : settings.wikiDir.parts ≠ [] := by
  rw [wikiDir_eq]
  simp

/-- The storage of a user is a directory of the wiki directory. -/
theorem resolve_root (settings : Settings) (userId : UserId) :
    (getWikiStorage settings userId).root.resolve settings.cwd =
      if userId.text = [] then settings.wikiPlace else settings.wikiPlace ++ [userId.text] := by
  unfold getWikiStorage
  split
  · rfl
  · next hne =>
    have hpart : isPart userId.text := by simp [isPart, hne, userId.plain.2.1]
    have hname := Path.ofText_name userId.plain.1 hpart
    have hrelative : rootOf userId.text = [] := congrArg Path.root hname
    rw [Path.resolve_join_of_relative _ hrelative, hname]
    simp [Path.walk, Path.step, userId.plain.2.2, Settings.wikiPlace]

/-- The place of a path that is cut. -/
theorem place_of_cut {rest : List Char} (h : article.filePath = wikiPrefix settings ++ rest) :
    place settings article = Path.walk settings.wikiPlace (Path.ofText rest).parts := by
  have hpath : Path.ofText article.filePath =
      ⟨settings.wikiDir.root, settings.wikiDir.parts ++ (Path.ofText rest).parts⟩ := by
    rw [h, wikiPrefix, List.append_assoc, List.singleton_append]
    exact (proper_wikiDir settings).ofText_append (wikiDir_parts_ne_nil settings) rest
  rw [place, hpath, Path.resolve, Path.walk_append]
  rfl

theorem resolve_eq_ok {storage : LocalFileStorage} {path : List Char} {q : List Name} :
    storage.resolve settings path = .ok q ↔
      (storage.root.join path).resolve settings.cwd = q ∧
        storage.root.resolve settings.cwd <+: q := by
  simp only [LocalFileStorage.resolve, List.isPrefixOf_iff_prefix]
  split
  · next hbelow =>
    constructor
    · intro h
      cases h
      exact ⟨rfl, hbelow⟩
    · rintro ⟨rfl, -⟩
      rfl
  · next hbelow =>
    constructor
    · intro h
      cases h
    · rintro ⟨rfl, h⟩
      exact absurd h hbelow

private theorem cutRightly_iff {rest : List Char}
    (h : article.filePath = wikiPrefix settings ++ rest) :
    CutRightly settings article ↔
      if rootOf rest = [] then
        article.userId.text = [] ∨
          settings.wikiPlace.length < Path.climbs (Path.ofText rest).parts
      else settings.wikiPlace.length ≤ Path.climbs (Path.ofText rest).parts := by
  constructor
  · exact fun hcut ↦ hcut rest h
  · intro hrest rest' h'
    rw [List.append_cancel_left (h'.symm.trans h)]
    exact hrest

private theorem migrateArticle_filePath (habsolute : article.filePath.head? = some '/')
    {rest : List Char} (h : article.filePath = wikiPrefix settings ++ rest) :
    (migrateArticle settings article).filePath = rest := by
  have hstarts : wikiPrefix settings <+: article.filePath := ⟨rest, h.symm⟩
  simp only [migrateArticle, cutStart, habsolute, hstarts, and_self, if_true]
  rw [h, List.drop_left]

/-- What is left of a path names the place of the whole path exactly if it was cut rightly. -/
theorem resolve_rest_iff {rest : List Char} (h : article.filePath = wikiPrefix settings ++ rest) :
    ((getWikiStorage settings article.userId).root.join rest).resolve settings.cwd =
        place settings article ↔ CutRightly settings article := by
  rw [place_of_cut h, cutRightly_iff h]
  split
  · next hrelative =>
    rw [Path.resolve_join_of_relative _ hrelative, resolve_root]
    split
    · next hnil => simp [hnil]
    · next hne =>
      rw [Path.walk_concat_eq_iff]
      simp [hne]
  · next habsolute =>
    rw [Path.resolve_join_of_absolute _ habsolute, Path.walk_nil_eq_iff]

/-- The path after the migration is resolved to the place it named before exactly if the file
lies in the directory of the user and the path was cut rightly. -/
theorem resolve_migrateArticle_iff (habsolute : article.filePath.head? = some '/') :
    (getWikiStorage settings article.userId).resolve settings
        (migrateArticle settings article).filePath = .ok (place settings article) ↔
      InOwnDirectory settings article ∧ CutRightly settings article := by
  rw [resolve_eq_ok, and_comm, InOwnDirectory]
  apply and_congr_right'
  by_cases hcut : wikiPrefix settings <+: article.filePath
  · obtain ⟨rest, hrest⟩ := hcut
    rw [migrateArticle_filePath habsolute hrest.symm]
    exact resolve_rest_iff hrest.symm
  · -- a path that is not cut stays absolute and names its place itself
    have hpath : (migrateArticle settings article).filePath = article.filePath := by
      simp [migrateArticle, cutStart, hcut]
    have hroot : rootOf article.filePath ≠ [] := by
      cases hfile : article.filePath with
      | nil => simp [hfile] at habsolute
      | cons c s =>
        rw [hfile, List.head?_cons, Option.some.injEq] at habsolute
        rw [habsolute]
        unfold rootOf
        split
        all_goals simp_all
    rw [hpath, Path.resolve_join_of_absolute _ hroot, place, Path.resolve, Path.ofText]
    simp only [hroot, if_false, true_iff]
    intro rest hrest
    exact absurd ⟨rest, hrest.symm⟩ hcut

end Paths

section Rows

variable {settings : Settings} {fs : FileSystem}

private theorem articles_foldl_remove (orphan : Article → Bool) (pages : List Article)
    (db : Database) :
    (pages.foldl (fun db article ↦
      if orphan article then removeArticle db article.id else db) db).articles =
      db.articles.filter fun article ↦
        pages.all fun page ↦ !orphan page || page.id ≠ article.id := by
  induction pages generalizing db with
  | nil => simp
  | cons page pages ih =>
    rw [List.foldl_cons, ih]
    by_cases horphan : orphan page
    · simp only [horphan, if_true, removeArticle, List.filter_filter]
      congr 1
      funext article
      by_cases heq : article.id = page.id
      · simp [heq, horphan]
      · simp [horphan, heq, Ne.symm heq]
    · simp [horphan]

/-- The articles after the clean-up. -/
theorem mem_cleanup_articles {db : Database} (hnodup : (db.articles.map (·.id)).Nodup)
    {article : Article} :
    article ∈ (cleanupOrphanConceptRows settings fs db).articles ↔
      article ∈ db.articles ∧
        (article.pageType = .concept → isOrphan settings fs article = false) := by
  rw [cleanupOrphanConceptRows, articles_foldl_remove, List.mem_filter]
  apply and_congr_right
  intro hmem
  rw [List.all_eq_true]
  constructor
  · intro h hconcept
    have hpage : article ∈ db.articles.filter (·.pageType = .concept) := by
      rw [List.mem_filter]
      exact ⟨hmem, by simpa using hconcept⟩
    simpa using h article hpage
  · intro h page hpage
    obtain ⟨hpage, hconcept⟩ := List.mem_filter.mp hpage
    by_cases heq : page.id = article.id
    · have hsame := Rows.eq_of_nodup hnodup hmem hpage heq
      subst hsame
      simp [h (by simpa using hconcept)]
    · simp [heq]

/-- A page whose file its storage finds is no orphan. -/
theorem isOrphan_of_resolve {article : Article} {q : List Name}
    (hresolve : (getWikiStorage settings article.userId).resolve settings article.filePath = .ok q)
    (hfile : (fs.file q).isSome) : isOrphan settings fs article = false := by
  have hfound : (getWikiStorage settings article.userId).fileExists settings fs
      article.filePath = .ok true := by
    rw [LocalFileStorage.fileExists, hresolve]
    simp [hfile, bind, Except.bind, pure, Except.pure]
  rw [isOrphan, hfound]
  rfl

private theorem nodup_migrateToRelativePaths {db : Database}
    (hnodup : (db.articles.map (·.id)).Nodup) :
    ((migrateToRelativePaths settings db).articles.map (·.id)).Nodup := by
  rw [migrateToRelativePaths, List.map_map]
  exact hnodup

/-- The migrations keep the file of every article exactly if every article with a file has it
in the directory of its user and a path that is cut rightly. -/
theorem keepsFiles_iff (settings : Settings) (fs : FileSystem) (db : Legacy settings) :
    KeepsFiles settings fs db.toDatabase (runVersionedMigrations settings fs db.toDatabase) ↔
      ∀ article ∈ db.articles, (fs.file (place settings article)).isSome →
        InOwnDirectory settings article ∧ CutRightly settings article := by
  have hnodup : ((migrateToRelativePaths settings db.toDatabase).articles.map (·.id)).Nodup :=
    nodup_migrateToRelativePaths db.nodup
  constructor
  · intro h article harticle hfile
    obtain ⟨content, hcontent⟩ := Option.isSome_iff_exists.mp hfile
    obtain ⟨kept, hkept, hid, hresolve, -⟩ := h article harticle content hcontent
    obtain ⟨hmem, -⟩ := (mem_cleanup_articles hnodup).mp hkept
    have hsame : kept = migrateArticle settings article :=
      Rows.eq_of_nodup hnodup (List.mem_map_of_mem harticle) hmem hid
    rw [hsame] at hresolve
    exact (resolve_migrateArticle_iff (db.absolute article harticle)).mp hresolve
  · intro h article harticle content hcontent
    have hfile : (fs.file (place settings article)).isSome := by rw [hcontent]; rfl
    have hresolve := (resolve_migrateArticle_iff (db.absolute article harticle)).mpr
      (h article harticle hfile)
    refine ⟨migrateArticle settings article, ?_, rfl, hresolve, ?_⟩
    · rw [runVersionedMigrations, mem_cleanup_articles hnodup]
      exact ⟨List.mem_map_of_mem harticle, fun _ ↦ isOrphan_of_resolve hresolve hfile⟩
    · have hread : (getWikiStorage settings (migrateArticle settings article).userId).resolve
          settings (migrateArticle settings article).filePath = .ok (place settings article) :=
        hresolve
      rw [LocalFileStorage.read, hread]
      simp only [bind, Except.bind, hcontent]
      rfl

end Rows

/-- A data directory in normal form. -/
def dataSettings : Settings := ⟨"/data".toList, []⟩

/-- A user of a version with users. -/
def firstUser : UserId := ⟨"u1".toList, by decide⟩

/-- A concept page in the shared layout, and a page in the directory of its user. -/
def bothLayouts : Legacy dataSettings where
  articles := [⟨"a1", firstUser, "/data/wiki/rag/rag.md".toList, .concept⟩,
    ⟨"a2", firstUser, "/data/wiki/u1/llm/intro.md".toList, .source⟩]
  sources := []
  backlinks := []
  articleFts := ["a1", "a2"]
  nodup := by decide
  absolute := by decide
  below := by decide +kernel

/-- The files of the two pages. -/
def bothFiles : FileSystem where
  file := fun p ↦
    if p ∈ bothLayouts.articles.map (place dataSettings) then some "# Page".toList else none
  dir := fun _ ↦ false

/-- The migrations remove a concept page in the shared layout although its file is there. -/
theorem not_keepsFiles :
    ¬ ∀ (settings : Settings) (fs : FileSystem) (db : Legacy settings),
      KeepsFiles settings fs db.toDatabase (runVersionedMigrations settings fs db.toDatabase) := by
  intro h
  have hpage : (⟨"a1", firstUser, "/data/wiki/rag/rag.md".toList, .concept⟩ : Article) ∈
      bothLayouts.articles := List.mem_cons_self
  have hfile : bothFiles.file (place dataSettings
      ⟨"a1", firstUser, "/data/wiki/rag/rag.md".toList, .concept⟩) = some "# Page".toList := by
    decide +kernel
  obtain ⟨kept, hkept, hid, -⟩ := h dataSettings bothFiles bothLayouts _ hpage _ hfile
  have hgone : ∀ article ∈ (runVersionedMigrations dataSettings bothFiles
      bothLayouts.toDatabase).articles, article.id ≠ "a1" := by decide +kernel
  exact hgone kept hkept hid

/-- A page in the directory of its user is looked for in a directory below it. -/
example : (bothLayouts.articles.map (migrateArticle dataSettings)).map (fun article ↦
    (getWikiStorage dataSettings article.userId).root.join article.filePath |>.text) =
      ["/data/wiki/u1/rag/rag.md".toList, "/data/wiki/u1/u1/llm/intro.md".toList] := by
  decide +kernel

end WikiMind.Storage
