import WikiMind.Base.Rows

/-!
# Tables with foreign keys

Library for code that deletes rows under enforced foreign keys. A database gives each table
its rows; a schema tells the key of a row and which columns hold keys of other tables. A
delete statement takes the rows it selects and those that reference them by a cascading
key, and fails when a reference is left without its row. Nothing here names the application.
-/

namespace WikiMind.Base

/-- A column whose values are keys of a table; deleting such a row deletes the rows that
reference it when the key cascades. -/
structure ForeignKey (Table Column : Type) where
  child : Table
  column : Column
  parent : Table
  cascades : Bool
  deriving DecidableEq, Repr

/-- The rows of each table. -/
abbrev Database (Table Row : Type) := Table → List Row

/-- The keys of rows and their references. -/
structure Schema (Table Column Row Key : Type) where
  key : Row → Key
  value : Column → Row → Option Key
  foreignKeys : List (ForeignKey Table Column)

/-- A delete statement. -/
structure Delete (Table Row : Type) where
  table : Table
  selects : Row → Bool

/-- Servers: PostgreSQL checks references and cascades, SQLite does neither unless told to. -/
inductive Server where
  | postgres | sqlite
  deriving DecidableEq, Repr

namespace Schema

variable {Table Column Row Key : Type} [DecidableEq Table] [DecidableEq Key]
variable (S : Schema Table Column Row Key)

/-- A row holds the key of another one. -/
def refers (fk : ForeignKey Table Column) (c p : Row) : Bool := S.value fk.column c = some (S.key p)

/-- The keys that cascade. -/
def cascading : List (ForeignKey Table Column) := S.foreignKeys.filter (·.cascades)

/-- Every reference finds its row. -/
def Intact (db : Database Table Row) : Prop :=
  ∀ fk ∈ S.foreignKeys, ∀ c ∈ db fk.child, ∀ k ∈ S.value fk.column c,
    ∃ p ∈ db fk.parent, S.key p = k

instance (db : Database Table Row) : Decidable (S.Intact db) :=
  inferInstanceAs (Decidable (∀ fk ∈ S.foreignKeys, ∀ c ∈ db fk.child,
    ∀ k ∈ S.value fk.column c, ∃ p ∈ db fk.parent, S.key p = k))

/-- The tables that are referenced hold no key twice. -/
def Keyed (db : Database Table Row) : Prop :=
  ∀ fk ∈ S.foreignKeys, ((db fk.parent).map S.key).Nodup

instance (db : Database Table Row) : Decidable (S.Keyed db) :=
  inferInstanceAs (Decidable (∀ fk ∈ S.foreignKeys, ((db fk.parent).map S.key).Nodup))

/-- A statement removes the rows it selects and what references them by a cascading key. -/
def removes (db : Database Table Row) (d : Delete Table Row) (t : Table) (r : Row) : Bool :=
  (t = d.table && d.selects r) ||
    S.cascading.any fun fk ↦ fk.child = t && fk.parent = d.table &&
      (db d.table).any fun p ↦ d.selects p && S.refers fk r p

/-- Execute a statement; it fails when a reference would be left without its row. -/
def execute (db : Database Table Row) (d : Delete Table Row) :
    Except Exc (Database Table Row) :=
  let db' : Database Table Row := fun t ↦ (db t).filter fun r ↦ !S.removes db d t r
  if S.Intact db' then .ok db' else .error .integrityError

/-- Execute statements in order. -/
def executeAll (db : Database Table Row) (ds : List (Delete Table Row)) :
    Except Exc (Database Table Row) :=
  ds.foldlM S.execute db

/-- The rows without those a statement selects. -/
def executeUnchecked (db : Database Table Row) (d : Delete Table Row) : Database Table Row :=
  fun t ↦ (db t).filter fun r ↦ !(t = d.table && d.selects r)

/-- Execute a statement on a server. -/
def executeOn (server : Server) (db : Database Table Row) (d : Delete Table Row) :
    Except Exc (Database Table Row) :=
  match server with
  | .postgres => S.execute db d
  | .sqlite => .ok (executeUnchecked db d)

/-- A database on a server: its keys are unique, and where references are checked they are
intact. -/
structure Store (server : Server) where
  db : Database Table Row
  keyed : S.Keyed db
  intact : server = .postgres → S.Intact db

/-- Some statement removes the row, as the database was at first. -/
def gone (db : Database Table Row) (ds : List (Delete Table Row)) (t : Table) (r : Row) : Bool :=
  ds.any fun d ↦ S.removes db d t r

/-- What the statements leave. -/
def after (db : Database Table Row) (ds : List (Delete Table Row)) : Database Table Row :=
  fun t ↦ (db t).filter fun r ↦ !S.gone db ds t r

/-- The rows a statement removes on a server. -/
def removesOn (server : Server) (db : Database Table Row) (d : Delete Table Row) (t : Table)
    (r : Row) : Bool :=
  match server with
  | .postgres => S.removes db d t r
  | .sqlite => t = d.table && d.selects r

/-- Some statement removes the row on a server. -/
def goneOn (server : Server) (db : Database Table Row) (ds : List (Delete Table Row)) (t : Table)
    (r : Row) : Bool :=
  ds.any fun d ↦ S.removesOn server db d t r

/-- What the statements leave on a server. -/
def afterOn (server : Server) (db : Database Table Row) (ds : List (Delete Table Row)) :
    Database Table Row :=
  fun t ↦ (db t).filter fun r ↦ !S.goneOn server db ds t r

/-- The tables whose statements can remove rows of a table. -/
def removers (t : Table) : List Table :=
  t :: (S.cascading.filter (·.child = t)).map (·.parent)

variable {S} {db : Database Table Row} {ds : List (Delete Table Row)}

private theorem mem_after {t : Table} {r : Row} :
    r ∈ S.after db ds t ↔ r ∈ db t ∧ S.gone db ds t r = false := by
  simp [after]

omit [DecidableEq Table] [DecidableEq Key] in
private theorem mem_of_cascading {fk : ForeignKey Table Column} (h : fk ∈ S.cascading) :
    fk ∈ S.foreignKeys :=
  List.mem_of_mem_filter h

/-- A statement that removes a row is on its table or on one it references. -/
theorem mem_removers_of_removes {d : Delete Table Row} {t : Table} {r : Row}
    (h : S.removes db d t r = true) : d.table ∈ S.removers t := by
  unfold removes at h
  rcases Bool.or_eq_true_iff.mp h with h | h
  · simp only [Bool.and_eq_true, decide_eq_true_eq] at h
    rw [h.1]
    exact List.mem_cons_self ..
  · obtain ⟨fk, hfk, h⟩ := List.any_eq_true.mp h
    simp only [Bool.and_eq_true, decide_eq_true_eq] at h
    obtain ⟨⟨hchild, hparent⟩, -⟩ := h
    apply List.mem_cons_of_mem
    rw [← hparent]
    exact List.mem_map_of_mem (List.mem_filter.mpr ⟨hfk, by simpa using hchild⟩)

/-- While all references are intact, a statement removes what it would have at first. -/
theorem removes_after (hkeyed : S.Keyed db) (hintact : S.Intact (S.after db ds))
    {d : Delete Table Row} {t : Table} {r : Row} (hr : r ∈ S.after db ds t) :
    S.removes (S.after db ds) d t r = S.removes db d t r := by
  unfold removes
  congr 1
  rw [Bool.eq_iff_iff, List.any_eq_true, List.any_eq_true]
  apply exists_congr
  intro fk
  apply and_congr_right
  intro hfk
  simp only [Bool.and_eq_true, decide_eq_true_eq, List.any_eq_true]
  apply and_congr_right
  rintro ⟨rfl, hparent⟩
  constructor
  · rintro ⟨p, hp, hsel⟩
    exact ⟨p, (mem_after.mp hp).1, hsel⟩
  · rintro ⟨p, hp, hsel, hrefers⟩
    rw [← hparent] at hp ⊢
    have hvalue : S.value fk.column r = some (S.key p) := of_decide_eq_true hrefers
    obtain ⟨p', hp', hkey⟩ := hintact fk (mem_of_cascading hfk) r hr (S.key p) hvalue
    have heq : p' = p :=
      Rows.eq_of_nodup (hkeyed fk (mem_of_cascading hfk)) hp (mem_after.mp hp').1 hkey
    exact ⟨p, heq ▸ hp', hsel, hrefers⟩

/-- A statement after others. -/
theorem execute_after (hkeyed : S.Keyed db) (hintact : S.Intact (S.after db ds))
    (d : Delete Table Row) :
    S.execute (S.after db ds) d =
      if S.Intact (S.after db (ds ++ [d])) then .ok (S.after db (ds ++ [d]))
      else .error .integrityError := by
  have hnext : (fun t ↦ (S.after db ds t).filter fun r ↦ !S.removes (S.after db ds) d t r) =
      S.after db (ds ++ [d]) := by
    funext t
    have hcongr : (S.after db ds t).filter (fun r ↦ !S.removes (S.after db ds) d t r) =
        (S.after db ds t).filter fun r ↦ !S.removes db d t r := by
      apply List.filter_congr
      intro r hr
      rw [removes_after hkeyed hintact hr]
    rw [hcongr]
    unfold after
    rw [List.filter_filter]
    apply List.filter_congr
    intro r _
    simp [gone, Bool.and_comm]
  unfold execute
  rw [hnext]

/-- The rest of a list of statements, after those executed before. -/
private theorem executeAll_after (hkeyed : S.Keyed db) (hintact : S.Intact (S.after db ds))
    (rest : List (Delete Table Row)) {db' : Database Table Row} :
    S.executeAll (S.after db ds) rest = .ok db' ↔
      (∀ pre, pre <+: rest → S.Intact (S.after db (ds ++ pre))) ∧
        db' = S.after db (ds ++ rest) := by
  induction rest generalizing ds with
  | nil =>
    have hnil : ∀ pre, pre <+: [] → S.Intact (S.after db (ds ++ pre)) := by
      intro pre hpre
      rw [List.prefix_nil.mp hpre, List.append_nil]
      exact hintact
    rw [and_iff_right hnil, List.append_nil]
    simp only [executeAll, List.foldlM_nil, pure, Except.pure, Except.ok.injEq, eq_comm]
  | cons d rest ih =>
    unfold executeAll
    rw [List.foldlM_cons, execute_after hkeyed hintact, bind_eq_ok]
    constructor
    · rintro ⟨next, hnext, hrest⟩
      split at hnext
      next hintact' =>
        cases hnext
        obtain ⟨hpre, hdb⟩ := (ih hintact').mp hrest
        refine ⟨fun pre hstarts ↦ ?_, by simpa using hdb⟩
        cases pre with
        | nil => simpa using hintact
        | cons d' pre =>
          obtain ⟨rfl, htail⟩ := List.cons_prefix_cons.mp hstarts
          simpa using hpre pre htail
      next => cases hnext
    · rintro ⟨hpre, hdb⟩
      have hintact' : S.Intact (S.after db (ds ++ [d])) := hpre [d] (by simp)
      refine ⟨S.after db (ds ++ [d]), by rw [if_pos hintact'], (ih hintact').mpr ⟨?_, ?_⟩⟩
      · intro pre hstarts
        simpa using hpre (d :: pre) (List.cons_prefix_cons.mpr ⟨rfl, hstarts⟩)
      · simpa using hdb

/-- Statements succeed exactly when each of them leaves every reference intact. -/
theorem executeAll_eq_ok (hkeyed : S.Keyed db) (hintact : S.Intact db)
    {db' : Database Table Row} :
    S.executeAll db ds = .ok db' ↔
      (∀ pre, pre <+: ds → S.Intact (S.after db pre)) ∧ db' = S.after db ds := by
  have hnil : S.after db [] = db := by
    funext t
    simp [after, gone]
  rw [← hnil] at hintact
  have hall : S.executeAll (S.after db []) ds = .ok db' ↔ _ := executeAll_after hkeyed hintact ds
  simpa [hnil] using hall

/-- The references are intact when no row that is left references one that is gone. -/
theorem intact_after_iff (hkeyed : S.Keyed db) (hintact : S.Intact db) :
    S.Intact (S.after db ds) ↔
      ∀ fk ∈ S.foreignKeys, ∀ c ∈ db fk.child, ∀ p ∈ db fk.parent, S.refers fk c p = true →
        S.gone db ds fk.parent p = true → S.gone db ds fk.child c = true := by
  constructor
  · intro h fk hfk c hc p hp hrefers hgone
    by_contra hstays
    rw [Bool.not_eq_true] at hstays
    have hvalue : S.value fk.column c = some (S.key p) := of_decide_eq_true hrefers
    obtain ⟨p', hp', hkey⟩ := h fk hfk c (mem_after.mpr ⟨hc, hstays⟩) (S.key p) hvalue
    rw [mem_after] at hp'
    rw [Rows.eq_of_nodup (hkeyed fk hfk) hp hp'.1 hkey, hgone] at hp'
    cases hp'.2
  · intro h fk hfk c hc k hk
    rw [mem_after] at hc
    obtain ⟨p, hp, hkey⟩ := hintact fk hfk c hc.1 k hk
    refine ⟨p, mem_after.mpr ⟨hp, ?_⟩, hkey⟩
    by_contra hgone
    rw [Bool.not_eq_false] at hgone
    have hrefers : S.refers fk c p = true := by
      unfold refers
      rw [hkey]
      simpa using hk
    rw [h fk hfk c hc.1 p hp hrefers hgone] at hc
    cases hc.2

/-- A single statement succeeds exactly when no reference that does not cascade is to a row it
selects, if no table is referenced that it cascades to and no key that does not cascade has a
table it removes rows of. -/
theorem execute_eq_ok_iff (hkeyed : S.Keyed db) (hintact : S.Intact db) {d : Delete Table Row}
    (hleaf : ∀ fk ∈ S.cascading, fk.parent = d.table → ∀ fk' ∈ S.foreignKeys, fk'.parent ≠ fk.child)
    (hkept : ∀ fk ∈ S.foreignKeys, fk.parent = d.table → fk.cascades = false →
      d.table ∉ S.removers fk.child) :
    (∃ db', S.execute db d = .ok db') ↔
      ∀ fk ∈ S.foreignKeys, fk.parent = d.table → fk.cascades = false →
        ∀ c ∈ db fk.child, ∀ p ∈ db d.table, S.refers fk c p = true → d.selects p = false := by
  have hgone : ∀ t r, S.gone db [d] t r = S.removes db d t r := by
    intro t r
    simp [gone]
  have hok : (∃ db', S.execute db d = .ok db') ↔ S.Intact (S.after db [d]) := by
    have hafter : (fun t ↦ (db t).filter fun r ↦ !S.removes db d t r) = S.after db [d] := by
      unfold after
      simp only [hgone]
    unfold execute
    rw [hafter]
    by_cases h : S.Intact (S.after db [d]) <;> simp [h]
  rw [hok, intact_after_iff hkeyed hintact]
  simp only [hgone]
  constructor
  · intro h fk hfk hparent hcascades c hc p hp hrefers
    rw [← Bool.not_eq_true]
    intro hselects
    have hremoves : S.removes db d fk.parent p = true := by
      unfold removes
      simp [hparent, hselects]
    exact hkept fk hfk hparent hcascades
      (mem_removers_of_removes (h fk hfk c hc p (hparent ▸ hp) hrefers hremoves))
  · intro h fk hfk c hc p hp hrefers hremoves
    have hdirect : fk.parent = d.table ∧ d.selects p = true := by
      rcases Bool.or_eq_true_iff.mp hremoves with hdirect | hcascade
      · simpa using hdirect
      · obtain ⟨fk', hfk', hcascade⟩ := List.any_eq_true.mp hcascade
        simp only [Bool.and_eq_true, decide_eq_true_eq] at hcascade
        exact absurd hcascade.1.1.symm (hleaf fk' hfk' hcascade.1.2 fk hfk)
    obtain ⟨hparent, hselects⟩ := hdirect
    rw [hparent] at hp
    cases hcascades : fk.cascades with
    | false =>
      rw [h fk hfk hparent hcascades c hc p hp hrefers] at hselects
      cases hselects
    | true =>
      apply Bool.or_eq_true_iff.mpr
      right
      apply List.any_eq_true.mpr
      refine ⟨fk, List.mem_filter.mpr ⟨hfk, hcascades⟩, ?_⟩
      rw [Bool.and_eq_true, List.any_eq_true]
      exact ⟨by simp [hparent], p, hp, by simp [hselects, hrefers]⟩

/-- On either server a statement that succeeds leaves no row it selects. -/
theorem not_selects_of_executeOn {server : Server} {d : Delete Table Row}
    {db' : Database Table Row} (h : S.executeOn server db d = .ok db') {r : Row}
    (hr : r ∈ db' d.table) : d.selects r = false := by
  cases server with
  | postgres =>
    have hexecute : S.execute db d = .ok db' := h
    unfold execute at hexecute
    dsimp only at hexecute
    split at hexecute
    · obtain rfl := Except.ok.inj hexecute
      have hstays := (List.mem_filter.mp hr).2
      unfold removes at hstays
      simp only [decide_true, Bool.true_and, Bool.not_or, Bool.and_eq_true] at hstays
      simpa using hstays.1
    · cases hexecute
  | sqlite =>
    obtain rfl := Except.ok.inj h
    simpa using (List.mem_filter.mp hr).2

/-- Where nothing is checked, every statement is executed. -/
theorem foldlM_executeOn_sqlite (ds : List (Delete Table Row)) :
    ds.foldlM (S.executeOn .sqlite) db =
      .ok fun t ↦ (db t).filter fun r ↦ !ds.any fun d ↦ decide (t = d.table) && d.selects r := by
  induction ds generalizing db with
  | nil => simp [pure, Except.pure]
  | cons d ds ih =>
    rw [List.foldlM_cons]
    show ds.foldlM (S.executeOn .sqlite) (executeUnchecked db d) = _
    rw [ih]
    congr 1
    funext t
    unfold executeUnchecked
    rw [List.filter_filter]
    apply List.filter_congr
    intro r _
    rw [List.any_cons, Bool.not_or, Bool.and_comm]

/-- The rows that stay. -/
theorem mem_afterOn {server : Server} {t : Table} {r : Row} :
    r ∈ S.afterOn server db ds t ↔ r ∈ db t ∧ S.goneOn server db ds t r = false := by
  simp [afterOn]

/-- Statements succeed on a server exactly when each of them leaves every reference intact
that the server checks. -/
theorem foldlM_executeOn_eq_ok {server : Server} (s : S.Store server)
    {db' : Database Table Row} :
    ds.foldlM (S.executeOn server) s.db = .ok db' ↔
      (server = .postgres → ∀ pre, pre <+: ds → S.Intact (S.after s.db pre)) ∧
        db' = S.afterOn server s.db ds := by
  obtain ⟨db, hkeyed, hintact⟩ := s
  cases server with
  | postgres =>
    show S.executeAll db ds = .ok db' ↔ _ ∧ db' = S.after db ds
    rw [executeAll_eq_ok hkeyed (hintact rfl), forall_prop_of_true rfl]
  | sqlite =>
    rw [foldlM_executeOn_sqlite, Except.ok.injEq, and_iff_right (nofun), eq_comm]
    rfl

end Schema

end WikiMind.Base
