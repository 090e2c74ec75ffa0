import WikiMind.Accounts.Deletion
import WikiMind.Storage.Migrations

/-!
# Orphaned concept pages

`_cleanup_orphaned_concept_pages` (`jobs/sweep.py:146`) removes the concept pages of a user
whose file is missing: for each page the links from and to it, then its article. The tables
and foreign keys are those of `models/tables/`. PostgreSQL checks the keys after every
statement; SQLite, opened without `PRAGMA foreign_keys`, does not. The search index has no
foreign key and is left out.
-/

namespace WikiMind.Jobs.OrphanPages

open WikiMind.Base
open WikiMind.Accounts (Table Column)
open WikiMind.Export (PageType)
open WikiMind.Storage (Settings FileSystem UserId getWikiStorage)

/-- A row with its page type and file, which are read of articles. -/
structure Row extends Accounts.Row where
  pageType : PageType
  filePath : List Char

/-- The foreign keys of `models/tables/`. -/
def schema : Schema Table Column Row String where
  key r := r.id
  value column r := r.toRow.value column
  foreignKeys := Accounts.schema.foreignKeys

abbrev Db := Database Table Row

/-- What a run is given: the configuration, the files and the user. -/
structure Run where
  settings : Settings
  fs : FileSystem
  userId : UserId

/-- Whether the file of a page exists; a path the storage refuses has none.
`jobs/sweep.py:168–171`. -/
def Run.fileExists (run : Run) (article : Row) : Bool :=
  let wikiStorage := getWikiStorage run.settings run.userId
  match wikiStorage.fileExists run.settings run.fs article.filePath with
  | .ok isThere => isThere
  | .error _ => false

/-- `sa_delete(Backlink)`: `jobs/sweep.py:176`. -/
def deleteBacklinks (articleId : String) : Delete Table Row :=
  ⟨.backlink, fun r ↦
    r.refs .sourceArticleId = some articleId || r.refs .targetArticleId = some articleId⟩

/-- `sa_delete(Article)`: `jobs/sweep.py:184`. -/
def deleteArticle (articleId : String) : Delete Table Row := ⟨.article, fun r ↦ r.id = articleId⟩

/-- The statements for a page, in order. -/
def statements (articleId : String) : List (Delete Table Row) :=
  [deleteBacklinks articleId, deleteArticle articleId]

/-- The concept pages of the user: `jobs/sweep.py:159–162`. -/
def conceptPages (run : Run) (db : Db) : List Row :=
  (db .article).filter fun r ↦ r.pageType = .concept ∧ r.userId.toList = run.userId.text

/-- The loop's body: `jobs/sweep.py:167–186`. -/
def cleanupPage (server : Server) (run : Run) (db : Db) (article : Row) : Except Exc Db :=
  if run.fileExists article then .ok db
  else (statements article.id).foldlM (schema.executeOn server) db

/-- `_cleanup_orphaned_concept_pages`: `jobs/sweep.py:146`. What it did is committed at its
end. -/
def cleanup (server : Server) (run : Run) (db : Db) : Except Exc Db :=
  (conceptPages run db).foldlM (cleanupPage server run) db

/-- A concept page of the user whose file does not exist. -/
def isOrphan (run : Run) (r : Row) : Bool :=
  r.pageType = .concept && r.userId.toList = run.userId.text && !run.fileExists r

/-- The keys whose parent is an article. -/
def articleKeys : List (ForeignKey Table Column) :=
  schema.foreignKeys.filter (·.parent = .article)

/-- A row refers to an orphan. -/
def refersToOrphan (run : Run) (db : Db) (t : Table) (r : Row) : Bool :=
  articleKeys.any fun fk ↦ fk.child = t &&
    (db .article).any fun p ↦ isOrphan run p && schema.refers fk r p

/-- The orphans and the rows that refer to them are gone, and no other row is. -/
def Cleaned (server : Server) (run : Run) (db : Db) : Prop :=
  ∃ db', cleanup server run db = .ok db' ∧
    ∀ t, db' t = (db t).filter fun r ↦
      !(t = .article && isOrphan run r) && !refersToOrphan run db t r

/-- Only links refer to orphans. -/
def OnlyLinks (run : Run) (db : Db) : Prop :=
  ∀ t, t ≠ .backlink → ∀ r ∈ db t, refersToOrphan run db t r = false

section Statements

variable {server : Server} {run : Run}
variable {db db' : Db} {t : Table} {r : Row} {pre : List (Delete Table Row)}

/-- The orphans of a list of pages. -/
def missing (run : Run) (pages : List Row) : List Row :=
  pages.filter fun p ↦ !run.fileExists p

/-- The statements of a run, one page after the other. -/
def statementsFor (run : Run) (pages : List Row) : List (Delete Table Row) :=
  (missing run pages).flatMap fun p ↦ statements p.id

private theorem mem_missing_conceptPages :
    r ∈ missing run (conceptPages run db) ↔ r ∈ db .article ∧ isOrphan run r = true := by
  unfold missing conceptPages isOrphan
  simp only [List.mem_filter, decide_eq_true_eq, Bool.and_eq_true, and_assoc]

/-- A run over pages is that of the statements for those without file. -/
theorem foldlM_cleanupPage (pages : List Row) :
    pages.foldlM (cleanupPage server run) db =
      (statementsFor run pages).foldlM (schema.executeOn server) db := by
  unfold statementsFor missing
  induction pages generalizing db with
  | nil => rfl
  | cons p pages ih =>
    rw [List.foldlM_cons, List.filter_cons]
    unfold cleanupPage
    cases hp : run.fileExists p with
    | true => exact ih
    | false =>
      rw [Bool.not_false, if_pos rfl, List.flatMap_cons, List.foldlM_append]
      exact bind_congr fun db ↦ ih

/-- A statement of a run is on links or articles. -/
theorem table_of_mem {d : Delete Table Row} {pages : List Row}
    (h : d ∈ statementsFor run pages) : d.table = .backlink ∨ d.table = .article := by
  obtain ⟨p, -, hd⟩ := List.mem_flatMap.mp h
  unfold statements at hd
  simp only [List.mem_cons, List.not_mem_nil, or_false] at hd
  rcases hd with rfl | rfl
  · exact .inl rfl
  · exact .inr rfl

theorem cascading_eq : schema.cascading =
    [⟨.sourceImage, .sourceId, .source, true⟩, ⟨.sourceSpan, .sourceId, .source, true⟩] := rfl

/-- Such a statement removes what it selects. -/
theorem removes_of_mem {d : Delete Table Row} {pages : List Row}
    (h : d ∈ statementsFor run pages) :
    schema.removes db d t r = (decide (t = d.table) && d.selects r) := by
  unfold Schema.removes
  rcases table_of_mem h with h | h <;> simp [cascading_eq, h]

/-- Whether the statements of a run select a row. -/
def selected (run : Run) (pages : List Row) (t : Table) (r : Row) :
    Bool :=
  (statementsFor run pages).any fun d ↦ decide (t = d.table) && d.selects r

private theorem gone_eq {pages : List Row} :
    schema.gone db (statementsFor run pages) t r = selected run pages t r := by
  unfold Schema.gone selected
  rw [Bool.eq_iff_iff, List.any_eq_true, List.any_eq_true]
  apply exists_congr
  intro d
  apply and_congr_right
  intro hd
  rw [removes_of_mem hd]

/-- The statements of a run select the missing pages and the links from and to them. -/
theorem selected_iff {pages : List Row} :
    selected run pages t r = true ↔ ∃ p ∈ missing run pages,
      (t = .article ∧ r.id = p.id) ∨ (t = .backlink ∧
        (r.refs .sourceArticleId = some p.id ∨ r.refs .targetArticleId = some p.id)) := by
  unfold selected statementsFor statements deleteBacklinks deleteArticle
  simp only [List.any_flatMap, List.any_cons, List.any_nil, Bool.or_false, List.any_eq_true,
    Bool.or_eq_true, Bool.and_eq_true, decide_eq_true_eq]
  apply exists_congr
  intro p
  rw [or_comm]

/-- What a run leaves. -/
theorem eq_filter_of_ok {pages : List Row} {s : schema.Store server}
    (h : (statementsFor run pages).foldlM (schema.executeOn server) s.db = .ok db') :
    db' = fun t ↦ (s.db t).filter fun r ↦ !selected run pages t r := by
  cases server with
  | sqlite =>
    rw [Schema.foldlM_executeOn_sqlite] at h
    exact (Except.ok.inj h).symm
  | postgres =>
    obtain ⟨-, rfl⟩ := (Schema.executeAll_eq_ok s.keyed (s.intact rfl)).mp h
    unfold Schema.after
    simp only [gone_eq]

/-- A row that refers to an orphan. -/
theorem refersToOrphan_iff :
    refersToOrphan run db t r = true ↔ ∃ fk ∈ schema.foreignKeys,
      fk.parent = .article ∧ fk.child = t ∧
        ∃ p ∈ db .article, isOrphan run p = true ∧ schema.refers fk r p = true := by
  unfold refersToOrphan articleKeys
  simp only [List.any_eq_true, List.mem_filter, decide_eq_true_eq, Bool.and_eq_true, and_assoc]

/-- The keys of links. -/
theorem mem_foreignKeys_backlink {fk : ForeignKey Table Column} (h : fk ∈ schema.foreignKeys)
    (hparent : fk.parent = .article) (hchild : fk.child = .backlink) :
    fk.column = .sourceArticleId ∨ fk.column = .targetArticleId := by
  have hall : ∀ fk ∈ schema.foreignKeys, fk.parent = .article → fk.child = .backlink →
      fk.column = .sourceArticleId ∨ fk.column = .targetArticleId := by decide
  exact hall fk h hparent hchild

/-- No article refers to an article. -/
theorem refersToOrphan_article : refersToOrphan run db .article r = false := by
  have hnone : ∀ fk ∈ schema.foreignKeys, fk.parent = .article → fk.child ≠ .article := by decide
  rw [← Bool.not_eq_true, refersToOrphan_iff]
  rintro ⟨fk, hfk, hparent, hchild, -⟩
  exact hnone fk hfk hparent hchild

/-- A link refers to an orphan by its source or its target. -/
theorem refersToOrphan_backlink :
    refersToOrphan run db .backlink r = true ↔
      ∃ p ∈ missing run (conceptPages run db),
        r.refs .sourceArticleId = some p.id ∨ r.refs .targetArticleId = some p.id := by
  rw [refersToOrphan_iff]
  constructor
  · rintro ⟨fk, hfk, hparent, hchild, p, hp, horphan, hrefers⟩
    have hvalue : r.toRow.value fk.column = some p.id := of_decide_eq_true hrefers
    refine ⟨p, mem_missing_conceptPages.mpr ⟨hp, horphan⟩, ?_⟩
    rcases mem_foreignKeys_backlink hfk hparent hchild with hcolumn | hcolumn
    · rw [hcolumn] at hvalue
      exact .inl hvalue
    · rw [hcolumn] at hvalue
      exact .inr hvalue
  · rintro ⟨p, hp, hrefs⟩
    obtain ⟨hp, horphan⟩ := mem_missing_conceptPages.mp hp
    rcases hrefs with hrefs | hrefs
    · exact ⟨⟨.backlink, .sourceArticleId, .article, false⟩, by decide, rfl, rfl, p, hp, horphan,
        decide_eq_true hrefs⟩
    · exact ⟨⟨.backlink, .targetArticleId, .article, false⟩, by decide, rfl, rfl, p, hp, horphan,
        decide_eq_true hrefs⟩

theorem eq_of_id_eq (hkeyed : schema.Keyed db) {p : Row} (hr : r ∈ db .article)
    (hp : p ∈ db .article) (hid : r.id = p.id) : r = p := by
  have hnodup : ((db .article).map schema.key).Nodup :=
    hkeyed ⟨.backlink, .sourceArticleId, .article, false⟩ (by decide)
  exact Rows.eq_of_nodup hnodup hp hr hid

/-- The run of a user selects the orphans and the links that refer to them. -/
theorem selected_conceptPages (hkeyed : schema.Keyed db) (hr : r ∈ db t) :
    selected run (conceptPages run db) t r = true ↔
      (t = .article ∧ isOrphan run r = true) ∨
        (t = .backlink ∧ refersToOrphan run db t r = true) := by
  rw [selected_iff]
  constructor
  · rintro ⟨p, hp, ⟨rfl, hid⟩ | ⟨rfl, hrefs⟩⟩
    · obtain ⟨hmem, horphan⟩ := mem_missing_conceptPages.mp hp
      rw [eq_of_id_eq hkeyed hr hmem hid]
      exact .inl ⟨rfl, horphan⟩
    · exact .inr ⟨rfl, refersToOrphan_backlink.mpr ⟨p, hp, hrefs⟩⟩
  · rintro (⟨rfl, horphan⟩ | ⟨rfl, hrefers⟩)
    · exact ⟨r, mem_missing_conceptPages.mpr ⟨hr, horphan⟩, .inl ⟨rfl, rfl⟩⟩
    · obtain ⟨p, hp, hrefs⟩ := refersToOrphan_backlink.mp hrefers
      exact ⟨p, hp, .inr ⟨rfl, hrefs⟩⟩

/-- A run has executed the statement on a page's links before that on its article. -/
theorem backlinks_first {orphans : List Row}
    (hpre : pre <+: orphans.flatMap fun p ↦ statements p.id)
    {d : Delete Table Row} (hd : d ∈ pre) (htable : d.table = .article) :
    ∃ p ∈ orphans, d = deleteArticle p.id ∧ deleteBacklinks p.id ∈ pre := by
  induction orphans generalizing pre with
  | nil =>
    rw [List.flatMap_nil, List.prefix_nil] at hpre
    rw [hpre] at hd
    cases hd
  | cons p orphans ih =>
    rw [List.flatMap_cons] at hpre
    match pre, hpre with
    | [d'], hpre =>
      obtain ⟨rfl, -⟩ := List.cons_prefix_cons.mp hpre
      rw [List.mem_singleton.mp hd] at htable
      cases htable
    | d₁ :: d₂ :: rest, hpre =>
      obtain ⟨rfl, hpre₁⟩ := List.cons_prefix_cons.mp hpre
      obtain ⟨rfl, hpre₂⟩ := List.cons_prefix_cons.mp hpre₁
      rcases List.mem_cons.mp hd with rfl | hd
      · cases htable
      rcases List.mem_cons.mp hd with rfl | hd
      · exact ⟨p, List.mem_cons_self .., rfl, List.mem_cons_self ..⟩
      · obtain ⟨q, hq, heq, hlinks⟩ := ih hpre₂ hd
        exact ⟨q, List.mem_cons_of_mem _ hq, heq,
          List.mem_cons_of_mem _ (List.mem_cons_of_mem _ hlinks)⟩

/-- On PostgreSQL every statement of a run leaves the references intact when only links refer
to orphans. -/
theorem intact_prefix {s : schema.Store .postgres} (hlinks : OnlyLinks run s.db)
    (hpre : pre <+: statementsFor run (conceptPages run s.db)) :
    schema.Intact (schema.after s.db pre) := by
  rw [Schema.intact_after_iff s.keyed (s.intact rfl)]
  intro fk hfk c hc p hp hrefers hgone
  obtain ⟨d, hd, hremoves⟩ := List.any_eq_true.mp hgone
  rw [removes_of_mem (hpre.subset hd), Bool.and_eq_true, decide_eq_true_eq] at hremoves
  obtain ⟨hparent, hselects⟩ := hremoves
  have hchildOf : ∀ fk ∈ schema.foreignKeys, fk.parent ≠ .backlink := by decide
  -- links are no parents, so the row that is gone is an article
  have harticle : d.table = .article := by
    rcases table_of_mem (hpre.subset hd) with h | h
    · exact absurd (hparent.trans h) (hchildOf fk hfk)
    · exact h
  obtain ⟨q, hq, rfl, hlinked⟩ := backlinks_first hpre hd harticle
  obtain ⟨hmem, horphan⟩ := mem_missing_conceptPages.mp hq
  have hid : p.id = q.id := of_decide_eq_true hselects
  have hparent : fk.parent = .article := hparent
  rw [hparent] at hp
  obtain rfl := eq_of_id_eq s.keyed hp hmem hid
  have hrefersTo : refersToOrphan run s.db fk.child c = true :=
    refersToOrphan_iff.mpr ⟨fk, hfk, hparent, rfl, p, hp, horphan, hrefers⟩
  have hchild : fk.child = .backlink := by
    by_contra hne
    rw [hlinks fk.child hne c hc] at hrefersTo
    cases hrefersTo
  have hvalue : c.toRow.value fk.column = some p.id := of_decide_eq_true hrefers
  apply List.any_eq_true.mpr
  refine ⟨_, hlinked, ?_⟩
  rw [removes_of_mem (hpre.subset hlinked), Bool.and_eq_true, decide_eq_true_eq]
  refine ⟨hchild, ?_⟩
  rcases mem_foreignKeys_backlink hfk hparent hchild with hcolumn | hcolumn
  · rw [hcolumn] at hvalue
    simp [deleteBacklinks, show c.refs .sourceArticleId = some p.id from hvalue]
  · rw [hcolumn] at hvalue
    simp [deleteBacklinks, show c.refs .targetArticleId = some p.id from hvalue]

/-- The statements of a run succeed when only links refer to orphans. -/
theorem exists_ok_of_links (s : schema.Store server) (hlinks : OnlyLinks run s.db) :
    ∃ db', (statementsFor run (conceptPages run s.db)).foldlM (schema.executeOn server) s.db =
      .ok db' := by
  cases server with
  | sqlite => exact ⟨_, Schema.foldlM_executeOn_sqlite _⟩
  | postgres =>
    exact ⟨_, (Schema.executeAll_eq_ok s.keyed (s.intact rfl)).mpr
      ⟨fun pre hpre ↦ intact_prefix hlinks hpre, rfl⟩⟩

end Statements

/-- The clean-up removes the orphans and the rows that refer to them, and leaves every other
row, exactly when only links refer to orphans. -/
theorem cleaned_iff {server : Server} (run : Run) (s : schema.Store server) :
    Cleaned server run s.db ↔ OnlyLinks run s.db := by
  unfold Cleaned cleanup
  rw [foldlM_cleanupPage]
  constructor
  · rintro ⟨db', hrun, hdb⟩ t ht r hr
    rw [← Bool.not_eq_true]
    intro hrefers
    -- the row is to go, but no statement selects it
    have hgone : r ∉ db' t := by
      rw [hdb t]
      simp [hrefers]
    rw [eq_filter_of_ok hrun, List.mem_filter, not_and, Bool.not_eq_true,
      Bool.not_eq_false'] at hgone
    rcases (selected_conceptPages s.keyed hr).mp (hgone hr) with ⟨rfl, -⟩ | ⟨hlink, -⟩
    · rw [refersToOrphan_article] at hrefers
      cases hrefers
    · exact ht hlink
  · intro h
    obtain ⟨db', hrun⟩ := exists_ok_of_links s h
    refine ⟨db', hrun, fun t ↦ ?_⟩
    rw [eq_filter_of_ok hrun]
    apply List.filter_congr
    intro r hr
    rw [Bool.eq_iff_iff, Bool.not_eq_true', ← Bool.not_eq_true,
      selected_conceptPages s.keyed hr]
    by_cases ht : t = .backlink
    · simp [ht]
    · simp [ht, h t ht r hr, imp_iff_not_or]

/-- A page of the user, a concept page whose file is gone, and a concept it is about: the
compiler gives every concept page such a row. -/
def linkedPage : Db
  | .user => [⟨⟨"u", "u", fun _ ↦ none⟩, .source, []⟩]
  | .article => [⟨⟨"a", "u", fun _ ↦ none⟩, .concept, "wiki/concepts/a.md".toList⟩]
  | .articleConcept =>
    [⟨⟨"a-graphs", "u", fun column ↦ if column = .articleId then some "a" else none⟩, .source, []⟩]
  | _ => []

/-- A run for that user, without files. -/
def emptyDisk : Run where
  settings := ⟨"/data".toList, []⟩
  fs := ⟨fun _ ↦ none, fun _ ↦ false⟩
  userId := ⟨"u".toList, by decide⟩

/-- The database is sound on either server. -/
def linkedStore (server : Server) : schema.Store server where
  db := linkedPage
  keyed := by decide +kernel
  intact _ := by decide +kernel

/-- PostgreSQL refuses to remove the page, and the run raises; SQLite leaves a row that refers
to no article. -/
theorem linkedPage_not_cleaned :
    ¬ Cleaned .postgres emptyDisk (linkedStore .postgres).db ∧
      cleanup .postgres emptyDisk linkedPage = .error .integrityError ∧
      ¬ Cleaned .sqlite emptyDisk (linkedStore .sqlite).db ∧
      ∃ db', cleanup .sqlite emptyDisk linkedPage = .ok db' ∧ ¬ schema.Intact db' := by
  have hpostgres : cleanup .postgres emptyDisk linkedPage = .error .integrityError := rfl
  refine ⟨?_, hpostgres, ?_, _, rfl, by decide +kernel⟩
  · rintro ⟨db', hok, -⟩
    cases hpostgres.symm.trans hok
  · rintro ⟨db', hok, hdb⟩
    obtain rfl := Except.ok.inj hok
    have hlength := congrArg List.length (hdb .articleConcept)
    revert hlength
    decide +kernel

end WikiMind.Jobs.OrphanPages
