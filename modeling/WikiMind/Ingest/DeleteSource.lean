import WikiMind.Accounts.Deletion
import WikiMind.Storage.Migrations

/-!
# Deletion of a source

`delete_source` (`services/ingest.py:279`) removes the files of a source from the disk and
then its row. The files cannot be brought back; whether the row can go depends on the rows
of other features that refer to it.
-/

namespace WikiMind.Ingest.Deletion

open WikiMind.Base
open WikiMind.Accounts (Table Column)
open WikiMind.Storage (Settings LocalFileStorage)

/-- A row with its file, which is read of sources. -/
structure Row extends Accounts.Row where
  filePath : Option (List Char)

/-- The foreign keys of `models/tables/`. -/
def schema : Schema Table Column Row String where
  key r := r.id
  value column r := r.toRow.value column
  foreignKeys := Accounts.schema.foreignKeys

abbrev Db := Database Table Row

/-- Files with their content, directories, and the files that cannot be unlinked. Every file
lies in a directory. -/
@[ext]
structure Disk where
  files : List (List Name × List Char)
  dirs : List (List Name)
  locked : List (List Name)
  nested : ∀ f ∈ files, f.1.dropLast ∈ dirs

namespace Disk

/-- A file that cannot be unlinked. -/
def isLocked (disk : Disk) (place : List Name) : Bool := disk.locked.contains place

/-- `is_dir()`. -/
def isDir (disk : Disk) (place : List Name) : Bool := disk.dirs.contains place

/-- `unlink(missing_ok=True)` under `suppress(OSError)`. -/
def unlink (disk : Disk) (place : List Name) : Disk :=
  if disk.isLocked place then disk
  else { disk with
    files := disk.files.filter (·.1 ≠ place)
    nested := fun f hf ↦ disk.nested f (List.mem_of_mem_filter hf) }

/-- A place in a directory whose name begins with a text. -/
def isChild (dir : List Name) (start : Name) (place : List Name) : Bool :=
  place.dropLast = dir && place.getLast?.any start.isPrefixOf

/-- `dir.glob(f"{start}*")`. -/
def glob (disk : Disk) (dir : List Name) (start : Name) : List (List Name) :=
  (disk.files.map (·.1) ++ disk.dirs).filter (isChild dir start)

end Disk

/-- `get_raw_storage`: `storage.py:150`. -/
def getRawStorage (settings : Settings) (userId : String) : LocalFileStorage :=
  ⟨if userId = "" then settings.rawDir else settings.rawDir.join userId.toList⟩

/-- The place of the cleaned file, if the source has one and the storage does not refuse its
path: `services/ingest.py:328–330`. -/
def cleanedFile (settings : Settings) (source : Row) : Option (List Name) :=
  match source.filePath with
  | none | some [] => none
  | some path => ((getRawStorage settings source.userId).resolve settings path).toOption

/-- `IngestService._remove_source_files`: `services/ingest.py:317`. -/
def removeSourceFiles (settings : Settings) (disk : Disk) (source : Row) : Disk :=
  let disk := (cleanedFile settings source).elim disk disk.unlink
  match (getRawStorage settings source.userId).resolve settings [] with
  | .error _ => disk
  | .ok rawDir =>
    if disk.isDir rawDir then
      (disk.glob rawDir (source.id.toList ++ ['.'])).foldl Disk.unlink disk
    else disk

/-- `delete(Source)` by its key. -/
def deleteRow (sourceId : String) : Delete Table Row := ⟨.source, fun r ↦ r.id = sourceId⟩

/-- The database and the disk. -/
structure State where
  db : Db
  disk : Disk

/-- `IngestService.delete_source`: `services/ingest.py:279`. The session is rolled back when
the commit fails. -/
def deleteSource (server : Server) (settings : Settings) (s : State) (sourceId userId : String) :
    Except Exc String × State :=
  match (s.db .source).find? (·.id = sourceId) with
  | none => (.error (.notFound "Source not found"), s)
  | some source =>
    if userId ≠ "" ∧ source.userId ≠ userId then (.error (.notFound "Source not found"), s)
    else
      let disk := removeSourceFiles settings s.disk source
      match schema.executeOn server s.db (deleteRow sourceId) with
      | .error e => (.error e, ⟨s.db, disk⟩)
      | .ok db => (.ok sourceId, ⟨db, disk⟩)

/-- The raw files of a source: the cleaned one and those in the raw directory that are named
after the source. -/
def isRawFile (settings : Settings) (source : Row) (place : List Name) : Bool :=
  cleanedFile settings source = some place ||
    Disk.isChild ((getRawStorage settings source.userId).root.resolve settings.cwd)
      (source.id.toList ++ ['.']) place

/-- The source and its raw files are gone, or the call fails and everything is as before. -/
def Atomic (server : Server) (settings : Settings) (s : State) (sourceId userId : String) : Prop :=
  match deleteSource server settings s sourceId userId with
  | (.ok _, s') => (∀ r ∈ s'.db .source, r.id ≠ sourceId) ∧
      ∀ source ∈ s.db .source, source.id = sourceId →
        ∀ f ∈ s'.disk.files, isRawFile settings source f.1 = false
  | (.error _, s') => s' = s

/-- The server checks references and a row refers to the source by a key that does not
cascade. -/
def Refused (server : Server) (db : Db) (sourceId : String) : Prop :=
  server = .postgres ∧ ∃ fk ∈ schema.foreignKeys, fk.parent = .source ∧ fk.cascades = false ∧
    ∃ c ∈ db fk.child, schema.value fk.column c = some sourceId

/-- The raw files can be unlinked if the row can go, and none can if it cannot. -/
def FilesFollow (server : Server) (settings : Settings) (s : State) (source : Row) : Prop :=
  ∀ f ∈ s.disk.files, isRawFile settings source f.1 = true →
    (s.disk.isLocked f.1 = true ↔ Refused server s.db source.id)

section Files

variable {settings : Settings} {disk : Disk} {source : Row} {place : List Name}
variable {places : List (List Name)}

private theorem Disk.locked_unlink : (disk.unlink place).locked = disk.locked := by
  unfold Disk.unlink
  split <;> rfl

private theorem Disk.dirs_unlink : (disk.unlink place).dirs = disk.dirs := by
  unfold Disk.unlink
  split <;> rfl

private theorem Disk.isLocked_unlink : (disk.unlink place).isLocked = disk.isLocked := by
  unfold isLocked
  rw [locked_unlink]

private theorem Disk.files_unlink : (disk.unlink place).files =
    disk.files.filter fun f ↦ !decide (f.1 = place) || disk.isLocked f.1 := by
  unfold Disk.unlink
  split
  · next hlocked =>
    symm
    rw [List.filter_eq_self]
    intro f _
    by_cases heq : f.1 = place
    · simp [heq, hlocked]
    · simp [heq]
  · next hlocked =>
    apply List.filter_congr
    intro f _
    by_cases heq : f.1 = place
    · simp [heq, hlocked]
    · simp [heq]

private theorem Disk.locked_foldl_unlink :
    (places.foldl Disk.unlink disk).locked = disk.locked := by
  induction places generalizing disk with
  | nil => rfl
  | cons place places ih => rw [List.foldl_cons, ih, locked_unlink]

private theorem Disk.dirs_foldl_unlink : (places.foldl Disk.unlink disk).dirs = disk.dirs := by
  induction places generalizing disk with
  | nil => rfl
  | cons place places ih => rw [List.foldl_cons, ih, dirs_unlink]

/-- Unlinking leaves the files at other places and those that are locked. -/
theorem Disk.files_foldl_unlink : (places.foldl Disk.unlink disk).files =
    disk.files.filter fun f ↦ !places.contains f.1 || disk.isLocked f.1 := by
  induction places generalizing disk with
  | nil =>
    symm
    rw [List.foldl_nil, List.filter_eq_self]
    simp
  | cons place places ih =>
    rw [List.foldl_cons, ih, files_unlink, isLocked_unlink, List.filter_filter]
    apply List.filter_congr
    intro f _
    cases hlocked : disk.isLocked f.1 with
    | true => simp
    | false => by_cases heq : f.1 = place <;> simp [heq]

private theorem resolve_nil {storage : LocalFileStorage} :
    storage.resolve settings [] = .ok (storage.root.resolve settings.cwd) := by
  have hjoin : storage.root.join [] = storage.root := by
    have hnil : Path.ofText [] = ⟨[], []⟩ := by decide
    unfold Path.join
    simp only [hnil, if_true, List.append_nil]
  have hself : (storage.root.resolve settings.cwd).isPrefixOf
      (storage.root.resolve settings.cwd) = true :=
    List.isPrefixOf_iff_prefix.mpr (List.prefix_refl _)
  unfold LocalFileStorage.resolve
  simp only [hjoin, hself, if_true]

/-- A file is found by the pattern if its directory is there, and it is. -/
theorem Disk.contains_glob {dir : List Name} {start : Name} {f : List Name × List Char}
    (hf : f ∈ disk.files) : (disk.glob dir start).contains f.1 = isChild dir start f.1 := by
  unfold glob
  rw [Bool.eq_iff_iff, List.contains_iff_mem, List.mem_filter, and_iff_right]
  exact List.mem_append_left _ (List.mem_map_of_mem hf)

private theorem Disk.isDir_of_isChild {dir : List Name} {start : Name} {f : List Name × List Char}
    (hf : f ∈ disk.files) (h : isChild dir start f.1 = true) : disk.isDir dir = true := by
  unfold isChild at h
  rw [Bool.and_eq_true, decide_eq_true_eq] at h
  unfold isDir
  rw [List.contains_iff_mem, ← h.1]
  exact disk.nested f hf

/-- The second half of the removal: the files named after the source. -/
theorem files_removeChildren (dir : List Name) (start : Name) :
    (if disk.isDir dir then (disk.glob dir start).foldl Disk.unlink disk else disk).files =
      disk.files.filter fun f ↦ !Disk.isChild dir start f.1 || disk.isLocked f.1 := by
  split
  · rw [Disk.files_foldl_unlink]
    apply List.filter_congr
    intro f hf
    rw [Disk.contains_glob hf]
  · next hdir =>
    symm
    rw [List.filter_eq_self]
    intro f hf
    cases hchild : Disk.isChild dir start f.1 with
    | false => rfl
    | true => exact absurd (Disk.isDir_of_isChild hf hchild) hdir

/-- The removal leaves the other files and those that are locked. -/
theorem files_removeSourceFiles : (removeSourceFiles settings disk source).files =
    disk.files.filter fun f ↦ !isRawFile settings source f.1 || disk.isLocked f.1 := by
  unfold removeSourceFiles isRawFile
  rw [resolve_nil]
  cases hcleaned : cleanedFile settings source with
  | none =>
    rw [Option.elim_none]
    simp only [files_removeChildren]
    simp
  | some place =>
    rw [Option.elim_some]
    simp only [files_removeChildren, Disk.files_unlink, Disk.isLocked_unlink, List.filter_filter]
    apply List.filter_congr
    intro f _
    cases hlocked : disk.isLocked f.1 with
    | true => simp
    | false =>
      simp only [Option.some.injEq, @eq_comm _ place, Bool.or_false, Bool.not_or]
      exact Bool.and_comm _ _

/-- The removal touches nothing but files. -/
theorem frame_removeSourceFiles : (removeSourceFiles settings disk source).dirs = disk.dirs ∧
    (removeSourceFiles settings disk source).locked = disk.locked := by
  unfold removeSourceFiles
  rw [resolve_nil]
  cases cleanedFile settings source with
  | none =>
    rw [Option.elim_none]
    dsimp only
    split
    · exact ⟨Disk.dirs_foldl_unlink, Disk.locked_foldl_unlink⟩
    · exact ⟨rfl, rfl⟩
  | some place =>
    rw [Option.elim_some]
    dsimp only
    split
    · rw [Disk.dirs_foldl_unlink, Disk.locked_foldl_unlink]
      exact ⟨Disk.dirs_unlink, Disk.locked_unlink⟩
    · exact ⟨Disk.dirs_unlink, Disk.locked_unlink⟩

/-- The disk is as before if all raw files are locked. -/
theorem removeSourceFiles_eq_iff : removeSourceFiles settings disk source = disk ↔
    ∀ f ∈ disk.files, isRawFile settings source f.1 = true → disk.isLocked f.1 = true := by
  have hfiles : (removeSourceFiles settings disk source).files = disk.files ↔
      ∀ f ∈ disk.files, isRawFile settings source f.1 = true → disk.isLocked f.1 = true := by
    rw [files_removeSourceFiles, List.filter_eq_self]
    simp only [Bool.or_eq_true, Bool.not_eq_true', ← Bool.not_eq_true, imp_iff_not_or]
  rw [← hfiles]
  constructor
  · exact congrArg Disk.files
  · intro h
    exact Disk.ext h frame_removeSourceFiles.1 frame_removeSourceFiles.2

/-- No raw file is left if none is locked. -/
theorem no_rawFile_iff : (∀ f ∈ (removeSourceFiles settings disk source).files,
      isRawFile settings source f.1 = false) ↔
    ∀ f ∈ disk.files, isRawFile settings source f.1 = true → disk.isLocked f.1 = false := by
  rw [files_removeSourceFiles]
  simp only [List.mem_filter, Bool.or_eq_true, Bool.not_eq_true', and_imp]
  constructor
  · intro h f hf hraw
    rw [← Bool.not_eq_true]
    intro hlocked
    rw [h f hf (.inr hlocked)] at hraw
    cases hraw
  · intro h f hf hstays
    rw [← Bool.not_eq_true]
    intro hraw
    rcases hstays with hother | hlocked
    · rw [hraw] at hother
      cases hother
    · rw [h f hf hraw] at hlocked
      cases hlocked

end Files

section Rows

variable {server : Server} {sourceId : String} {db : Db} {source : Row}

/-- The statement on a source fails exactly if it is refused. -/
theorem execute_deleteRow_iff (s : schema.Store server) (hsource : source ∈ s.db .source) :
    (∃ db', schema.executeOn server s.db (deleteRow source.id) = .ok db') ↔
      ¬ Refused server s.db source.id := by
  cases server with
  | sqlite =>
    have hnot : ¬ Refused .sqlite s.db source.id := by
      rintro ⟨h, -⟩
      cases h
    exact iff_of_true ⟨_, rfl⟩ hnot
  | postgres =>
    have hleaf : ∀ fk ∈ schema.cascading, fk.parent = Table.source →
        ∀ fk' ∈ schema.foreignKeys, fk'.parent ≠ fk.child := by decide
    have hkept : ∀ fk ∈ schema.foreignKeys, fk.parent = Table.source → fk.cascades = false →
        Table.source ∉ schema.removers fk.child := by decide
    show (∃ db', schema.execute s.db (deleteRow source.id) = .ok db') ↔ _
    rw [Schema.execute_eq_ok_iff s.keyed (s.intact rfl) hleaf hkept]
    unfold Refused
    constructor
    · rintro h ⟨-, fk, hfk, hparent, hcascades, c, hc, hvalue⟩
      have hrefers : schema.refers fk c source = true := decide_eq_true hvalue
      have hselects := h fk hfk hparent hcascades c hc source hsource hrefers
      exact absurd hselects (by simp [deleteRow])
    · intro h fk hfk hparent hcascades c hc p _ hrefers
      rw [← Bool.not_eq_true]
      intro hselects
      have hid : p.id = source.id := of_decide_eq_true hselects
      have hvalue : schema.value fk.column c = some p.id := of_decide_eq_true hrefers
      exact h ⟨rfl, fk, hfk, hparent, hcascades, c, hc, hid ▸ hvalue⟩

/-- Where the statement succeeds, the row is gone. -/
theorem row_gone {db' : Db} (h : schema.executeOn server db (deleteRow sourceId) = .ok db') :
    ∀ r ∈ db' .source, r.id ≠ sourceId := by
  intro r hr
  exact of_decide_eq_false (Schema.not_selects_of_executeOn h hr)

theorem eq_of_id_eq (hkeyed : schema.Keyed db) {p q : Row} (hp : p ∈ db .source)
    (hq : q ∈ db .source) (hid : p.id = q.id) : p = q := by
  have hnodup : ((db .source).map schema.key).Nodup :=
    hkeyed ⟨.articleSource, .sourceId, .source, false⟩ (by decide)
  exact Rows.eq_of_nodup hnodup hq hp hid

end Rows

/-- The deletion is atomic exactly when the source is not found, or is one of another user, or
its files can be unlinked if the row can go and none of them if it cannot. -/
theorem atomic_iff {server : Server} (settings : Settings) (s : schema.Store server) (disk : Disk)
    (sourceId userId : String) :
    Atomic server settings ⟨s.db, disk⟩ sourceId userId ↔
      ∀ source ∈ s.db .source, source.id = sourceId → (userId = "" ∨ source.userId = userId) →
        FilesFollow server settings ⟨s.db, disk⟩ source := by
  unfold Atomic deleteSource
  cases hfind : (s.db .source).find? (·.id = sourceId) with
  | none =>
    have hnone : ∀ p ∈ s.db .source, p.id ≠ sourceId := by
      simpa using List.find?_eq_none.mp hfind
    exact iff_of_true rfl fun p hp hid _ ↦ absurd hid (hnone p hp)
  | some source =>
    have hmem : source ∈ s.db .source := List.mem_of_find?_eq_some hfind
    have hid : source.id = sourceId := by simpa using List.find?_some hfind
    have honly : ∀ p ∈ s.db .source, p.id = sourceId → p = source := fun p hp hpid ↦
      eq_of_id_eq s.keyed hp hmem (hpid.trans hid.symm)
    dsimp only
    by_cases howner : userId ≠ "" ∧ source.userId ≠ userId
    · rw [if_pos howner]
      refine iff_of_true rfl fun p hp hpid hallowed ↦ ?_
      rw [honly p hp hpid] at hallowed
      exact absurd hallowed (not_or.mpr howner)
    rw [if_neg howner]
    have hallowed : userId = "" ∨ source.userId = userId := by
      by_contra h
      exact howner (not_or.mp h)
    -- the source is the only one the right side speaks of
    have hright : (∀ p ∈ s.db .source, p.id = sourceId → (userId = "" ∨ p.userId = userId) →
          FilesFollow server settings ⟨s.db, disk⟩ p) ↔
        FilesFollow server settings ⟨s.db, disk⟩ source := by
      constructor
      · exact fun h ↦ h source hmem hid hallowed
      · intro h p hp hpid _
        rwa [honly p hp hpid]
    rw [hright]
    have hrefused := execute_deleteRow_iff s hmem
    rw [hid] at hrefused
    unfold FilesFollow
    rw [hid]
    cases hexecute : schema.executeOn server s.db (deleteRow sourceId) with
    | error e =>
      have hrefused : Refused server s.db sourceId := by
        by_contra h
        obtain ⟨db', hok⟩ := hrefused.mpr h
        cases hexecute.symm.trans hok
      simp only [hrefused, iff_true]
      rw [← removeSourceFiles_eq_iff, State.mk.injEq, and_iff_right rfl]
    | ok db' =>
      have haccepted : ¬ Refused server s.db sourceId := hrefused.mp ⟨db', hexecute⟩
      simp only [haccepted, iff_false, Bool.not_eq_true]
      rw [← no_rawFile_iff]
      constructor
      · rintro ⟨-, hgone⟩
        exact hgone source hmem hid
      · intro hgone
        refine ⟨row_gone hexecute, fun p hp hpid ↦ ?_⟩
        rw [honly p hp hpid]
        exact hgone

/-- A source with its text file, and an article compiled from it. -/
def compiledStore : schema.Store .postgres where
  db
    | .user => [⟨⟨"u", "u", fun _ ↦ none⟩, none⟩]
    | .article => [⟨⟨"a", "u", fun _ ↦ none⟩, none⟩]
    | .source => [⟨⟨"s", "u", fun _ ↦ none⟩, some "s.txt".toList⟩]
    | .articleSource =>
      [⟨⟨"a-s", "u", fun
        | .articleId => some "a"
        | .sourceId => some "s"
        | _ => none⟩, none⟩]
    | _ => []
  keyed := by decide +kernel
  intact _ := by decide +kernel

/-- The raw directory of the user with that file. -/
def rawDisk : Disk where
  files := [(["data".toList, "raw".toList, "u".toList, "s.txt".toList], "text".toList)]
  dirs := [["data".toList, "raw".toList, "u".toList]]
  locked := []
  nested := by decide

/-- The row cannot go, and its file is gone. -/
theorem compiled_source_loses_file :
    ¬ Atomic .postgres ⟨"/data".toList, []⟩ ⟨compiledStore.db, rawDisk⟩ "s" "u" ∧
      ∃ s', deleteSource .postgres ⟨"/data".toList, []⟩ ⟨compiledStore.db, rawDisk⟩ "s" "u" =
        (.error .integrityError, s') ∧ s'.db = compiledStore.db ∧ s'.disk.files = [] := by
  have hrun : ∃ s',
      deleteSource .postgres ⟨"/data".toList, []⟩ ⟨compiledStore.db, rawDisk⟩ "s" "u" =
        (.error .integrityError, s') ∧ s'.db = compiledStore.db ∧ s'.disk.files = [] :=
    ⟨⟨compiledStore.db, removeSourceFiles ⟨"/data".toList, []⟩ rawDisk
      ⟨⟨"s", "u", fun _ ↦ none⟩, some "s.txt".toList⟩⟩, rfl, rfl, by decide +kernel⟩
  refine ⟨?_, hrun⟩
  obtain ⟨s', hresult, -, hfiles⟩ := hrun
  unfold Atomic
  rw [hresult]
  intro hsame
  have hlength := congrArg (fun s : State ↦ s.disk.files.length) hsame
  rw [hfiles] at hlength
  cases hlength

end WikiMind.Ingest.Deletion
