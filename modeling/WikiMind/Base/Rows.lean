import Mathlib.Data.List.Nodup
import Mathlib.Data.List.Perm.Basic
import Mathlib.Data.List.Sort

/-!
# Table rows and query results

Library for code that reads tables through an ORM. A table is the list of its rows;
`oneOrNone` and `one` follow the documented results of the query methods of those
names, `modify` rewrites the rows a condition selects. Exceptions are `Exc` values.
-/

namespace WikiMind.Base

/-- The exceptions the modelled code raises, catches or lets through. -/
inductive Exc where
  | noResultFound
  | multipleResultsFound
  | integrityError
  | typeError
  | valueError
  | keyError
  | attributeError
  | notFound (detail : String)
  | httpException (status : Nat) (detail : String)
  | quotaExceeded (resource : String) (used limit : Nat)
  | runtimeError (detail : String)
  deriving DecidableEq, Repr

/-- A bind succeeds exactly when both of its parts do. -/
theorem bind_eq_ok {ε α β : Type} {x : Except ε α} {f : α → Except ε β} {b : β} :
    (x >>= f) = .ok b ↔ ∃ a, x = .ok a ∧ f a = .ok b := by
  cases x <;> simp [bind, Except.bind]

/-- A loop over all elements succeeds exactly when it does at each of them. -/
theorem mapM_eq_ok_iff {ε α β : Type} {f : α → Except ε β} {xs : List α} {ys : List β} :
    xs.mapM f = .ok ys ↔ List.Forall₂ (fun x y ↦ f x = .ok y) xs ys := by
  induction xs generalizing ys with
  | nil =>
    rw [List.forall₂_nil_left_iff]
    exact ⟨fun h ↦ by cases h; rfl, fun h ↦ by rw [h]; rfl⟩
  | cons x xs ih =>
    rw [List.mapM_cons]
    constructor
    · intro h
      obtain ⟨y, hy, h⟩ := bind_eq_ok.mp h
      obtain ⟨rest, hrest, h⟩ := bind_eq_ok.mp h
      cases h
      exact .cons hy (ih.mp hrest)
    · intro h
      cases h with
      | cons hy hrest =>
        rw [hy, ih.mpr hrest]
        rfl

/-- A computation raises. -/
def Raises {α : Type} (x : Except Exc α) : Prop := ∃ e, x = .error e

/-- A value raises nothing. -/
@[simp] theorem raises_ok {α : Type} (a : α) : ¬ Raises (.ok a : Except Exc α) := by
  rintro ⟨e, h⟩
  cases h

/-- A value raises nothing. -/
theorem raises_pure {α : Type} (a : α) : Raises (pure a : Except Exc α) ↔ False :=
  iff_of_false (raises_ok a) id

/-- A bind raises exactly when its first part does, or the second, where the second does so
for every value of the first or for none. -/
theorem raises_bind {α β : Type} {x : Except Exc α} {f : α → Except Exc β} {Q : Prop}
    (hf : ∀ a, x = .ok a → (Raises (f a) ↔ Q)) : Raises (x >>= f) ↔ Raises x ∨ Q := by
  cases x with
  | error e =>
    have hleft : Raises (Except.error e : Except Exc α) := ⟨e, rfl⟩
    simp only [hleft, true_or, iff_true]
    exact ⟨e, rfl⟩
  | ok a =>
    rw [or_iff_right (raises_ok a)]
    exact hf a rfl

/-- A loop over all elements raises exactly when it does at one of them. -/
theorem raises_mapM_iff {α β : Type} {xs : List α} {f : α → Except Exc β} :
    Raises (xs.mapM f) ↔ ∃ x ∈ xs, Raises (f x) := by
  induction xs with
  | nil =>
    refine iff_of_false (raises_ok []) ?_
    rintro ⟨x, hx, _⟩
    cases hx
  | cons x xs ih =>
    rw [List.mapM_cons, List.exists_mem_cons_iff, ← ih]
    refine raises_bind fun y _ ↦ ?_
    rw [raises_bind (Q := False) fun _ _ ↦ raises_pure _, or_false]

/-- Whatever the computation raises has the property. -/
def RaisesOnly {α : Type} (P : Exc → Prop) (x : Except Exc α) : Prop := ∀ e, x = .error e → P e

section
variable {α β : Type} {P : Exc → Prop}

/-- A value raises nothing else. -/
theorem raisesOnly_ok (a : α) : RaisesOnly P (.ok a : Except Exc α) := by
  intro e h
  cases h

/-- What two parts raise, one after the other. -/
theorem raisesOnly_bind {x : Except Exc α} {f : α → Except Exc β} (hx : RaisesOnly P x)
    (hf : ∀ a, RaisesOnly P (f a)) : RaisesOnly P (x >>= f) := by
  intro e h
  cases x with
  | error e' =>
    cases h
    exact hx e rfl
  | ok a => exact hf a e h

/-- What a loop raises, its steps do. -/
theorem raisesOnly_mapM {f : α → Except Exc β} (hf : ∀ a, RaisesOnly P (f a)) (xs : List α) :
    RaisesOnly P (xs.mapM f) := by
  induction xs with
  | nil => exact raisesOnly_ok []
  | cons x xs ih =>
    rw [List.mapM_cons]
    exact raisesOnly_bind (hf x) fun _ ↦ raisesOnly_bind ih fun _ ↦ raisesOnly_ok _

/-- What a loop with a state raises, its steps do. -/
theorem raisesOnly_foldlM {f : β → α → Except Exc β} (hf : ∀ b a, RaisesOnly P (f b a))
    (xs : List α) (b : β) : RaisesOnly P (xs.foldlM f b) := by
  induction xs generalizing b with
  | nil => exact raisesOnly_ok b
  | cons x xs ih =>
    rw [List.foldlM_cons]
    exact raisesOnly_bind (hf b x) fun b' ↦ ih b'

end

namespace Rows

variable {α : Type}

/-- How a database answers a query without an order. -/
structure Order (α : Type) where
  select : List α → List α
  perm : ∀ rows, (select rows).Perm rows

/-- The order of the table. -/
def Order.asInserted : Order α := ⟨id, fun _ ↦ .refl _⟩

/-- How a database answers `ORDER BY`, which leaves the order of rows with equal keys open. -/
structure OrderBy (key : α → Nat) extends Order α where
  sorted : ∀ rows, (select rows).Pairwise (key · ≤ key ·)

/-- Rows with equal keys in the order of the table. -/
def OrderBy.stable (key : α → Nat) : OrderBy key where
  select := List.insertionSort (key · ≤ key ·)
  perm := List.perm_insertionSort _
  sorted rows := by
    have := List.pairwise_insertionSort (fun a b : α ↦ key a ≤ key b) rows
    exact this

/-- A loop over the rows of a query in another order has the same results in another order. -/
theorem mapM_perm {ε β : Type} {f : α → Except ε β} {rows rows' : List α} {results : List β}
    (hperm : rows'.Perm rows) (h : rows.mapM f = .ok results) :
    ∃ results', rows'.mapM f = .ok results' ∧ results'.Perm results := by
  obtain ⟨results', hresults, hsame⟩ := List.perm_comp_forall₂ hperm (mapM_eq_ok_iff.mp h)
  exact ⟨results', mapM_eq_ok_iff.mpr hresults, hsame⟩

/-- The only row that meets the condition, `none` if there is none. -/
def oneOrNone (p : α → Bool) (rows : List α) : Except Exc (Option α) :=
  match rows.filter p with
  | [] => .ok none
  | [r] => .ok (some r)
  | _ :: _ :: _ => .error .multipleResultsFound

/-- The only row that meets the condition; no row and several rows both raise. -/
def one (p : α → Bool) (rows : List α) : Except Exc α :=
  match rows.filter p with
  | [] => .error .noResultFound
  | [r] => .ok r
  | _ :: _ :: _ => .error .multipleResultsFound

/-- Rewrite the rows that meet the condition. -/
def modify (p : α → Bool) (f : α → α) (rows : List α) : List α :=
  rows.map fun r ↦ if p r then f r else r

/-- A single result is the whole selection. -/
theorem oneOrNone_eq_some {p : α → Bool} {rows : List α} {r : α} :
    oneOrNone p rows = .ok (some r) ↔ rows.filter p = [r] := by
  unfold oneOrNone
  cases rows.filter p with
  | nil => simp
  | cons x rest => cases rest <;> simp

/-- No result means that no row is selected. -/
theorem oneOrNone_eq_none {p : α → Bool} {rows : List α} :
    oneOrNone p rows = .ok none ↔ rows.filter p = [] := by
  unfold oneOrNone
  cases rows.filter p with
  | nil => simp
  | cons x rest => cases rest <;> simp

/-- `one` succeeds where `oneOrNone` finds a row, with the same row. -/
theorem one_eq_ok {p : α → Bool} {rows : List α} {r : α} :
    one p rows = .ok r ↔ oneOrNone p rows = .ok (some r) := by
  unfold one oneOrNone
  cases rows.filter p with
  | nil => simp
  | cons x rest => cases rest <;> simp

/-- A query for one row raises exactly when there are several. -/
theorem raises_oneOrNone_iff {p : α → Bool} {rows : List α} :
    Raises (oneOrNone p rows) ↔ 1 < (rows.filter p).length := by
  unfold oneOrNone
  split
  next h => simp [h]
  next r h => simp [h]
  next x y rest h => simp [h, Raises]

/-- The row a query returns meets its condition. -/
theorem prop_of_oneOrNone {p : α → Bool} {rows : List α} {r : α}
    (h : oneOrNone p rows = .ok (some r)) : p r = true := by
  have hr : r ∈ rows.filter p := by rw [oneOrNone_eq_some.mp h]; exact List.mem_singleton_self r
  exact (List.mem_filter.mp hr).2

/-- The row a query returns is a row of the table. -/
theorem mem_of_oneOrNone {p : α → Bool} {rows : List α} {r : α}
    (h : oneOrNone p rows = .ok (some r)) : r ∈ rows := by
  have hr : r ∈ rows.filter p := by rw [oneOrNone_eq_some.mp h]; exact List.mem_singleton_self r
  exact (List.mem_filter.mp hr).1

/-- Every row that meets the condition of a single-row query is that row. -/
theorem eq_of_oneOrNone {p : α → Bool} {rows : List α} {r x : α}
    (h : oneOrNone p rows = .ok (some r)) (hx : x ∈ rows) (hp : p x = true) : x = r := by
  have hmem : x ∈ rows.filter p := List.mem_filter.mpr ⟨hx, hp⟩
  rw [oneOrNone_eq_some.mp h] at hmem
  exact List.mem_singleton.mp hmem

/-- A query without result leaves no row that meets its condition. -/
theorem not_of_oneOrNone {p : α → Bool} {rows : List α} {x : α}
    (h : oneOrNone p rows = .ok none) (hx : x ∈ rows) : p x = false := by
  have hnil := oneOrNone_eq_none.mp h
  by_contra hp
  have hmem : x ∈ rows.filter p := List.mem_filter.mpr ⟨hx, by simpa using hp⟩
  simp [hnil] at hmem

private theorem filter_map_of_stable {p : α → Bool} {f : α → α}
    (hp : ∀ r, p (f r) = p r) (rows : List α) :
    (rows.map f).filter p = (rows.filter p).map f := by
  rw [List.filter_map]
  congr 1
  exact List.filter_congr fun r _ ↦ hp r

/-- Where a key has no duplicates, a query by the key of a row finds the row. -/
theorem oneOrNone_of_nodup {κ : Type} [DecidableEq κ] {key : α → κ} {rows : List α} {r : α}
    (hnodup : (rows.map key).Nodup) (hr : r ∈ rows) :
    oneOrNone (fun x ↦ key x = key r) rows = .ok (some r) := by
  rw [oneOrNone_eq_some]
  induction rows with
  | nil => cases hr
  | cons x rest ih =>
    rw [List.map_cons, List.nodup_cons] at hnodup
    obtain ⟨hfresh, hrest⟩ := hnodup
    obtain rfl | hmem := List.mem_cons.mp hr
    · have hnone : rest.filter (fun y ↦ key y = key r) = [] := by
        rw [List.filter_eq_nil_iff]
        intro y hy heq
        exact hfresh (of_decide_eq_true heq ▸ List.mem_map_of_mem hy)
      simp [hnone]
    · have hne : key x ≠ key r := fun heq ↦ hfresh (heq ▸ List.mem_map_of_mem hmem)
      simp [hne, ih hrest hmem]

/-- Where a key has no duplicates, a search by the key of a row finds the row. -/
theorem find?_of_nodup {κ : Type} [DecidableEq κ] {key : α → κ} {rows : List α} {r : α}
    (hnodup : (rows.map key).Nodup) (hr : r ∈ rows) :
    rows.find? (fun x ↦ key x = key r) = some r := by
  rw [← List.head?_filter, oneOrNone_eq_some.mp (oneOrNone_of_nodup hnodup hr)]
  rfl

/-- Where a key has no duplicates, two rows with the same key are one. -/
theorem eq_of_nodup {κ : Type} [DecidableEq κ] {key : α → κ} {rows : List α} {r x : α}
    (hnodup : (rows.map key).Nodup) (hr : r ∈ rows) (hx : x ∈ rows) (heq : key x = key r) :
    x = r :=
  eq_of_oneOrNone (oneOrNone_of_nodup hnodup hr) hx (by simpa using heq)

/-- The only row with a property is the result of its query. -/
theorem oneOrNone_of_unique {p : α → Bool} {rows : List α} {r : α} (hnodup : rows.Nodup)
    (hr : r ∈ rows) (hp : p r = true) (hunique : ∀ x ∈ rows, p x = true → x = r) :
    oneOrNone p rows = .ok (some r) := by
  rw [oneOrNone_eq_some, ← List.perm_singleton, List.perm_ext_iff_of_nodup (hnodup.filter p)
    (List.nodup_singleton r)]
  intro x
  rw [List.mem_filter, List.mem_singleton]
  constructor
  · rintro ⟨hx, hpx⟩
    exact hunique x hx hpx
  · rintro rfl
    exact ⟨hr, hp⟩

/-- A query for rows of which there is one at most does not raise. -/
theorem oneOrNone_ok_of_unique {p : α → Bool} {rows : List α} (hnodup : rows.Nodup)
    (hunique : ∀ x ∈ rows, ∀ y ∈ rows, p x = true → p y = true → x = y) :
    ∃ result, oneOrNone p rows = .ok result := by
  by_cases hany : ∃ r ∈ rows, p r = true
  · obtain ⟨r, hr, hp⟩ := hany
    exact ⟨some r, oneOrNone_of_unique hnodup hr hp fun x hx hpx ↦ hunique x hx r hr hpx hp⟩
  · refine ⟨none, oneOrNone_eq_none.mpr (List.filter_eq_nil_iff.mpr fun x hx hpx ↦ ?_)⟩
    exact hany ⟨x, hx, hpx⟩

/-- A selection does not see the deletion of rows outside of it. -/
theorem filter_delete_other {p q : α → Bool} {rows : List α}
    (hq : ∀ r ∈ rows, p r = true → q r = true) :
    (rows.filter q).filter p = rows.filter p := by
  rw [List.filter_filter]
  apply List.filter_congr
  intro r hr
  by_cases hp : p r = true
  · simp [hp, hq r hr hp]
  · simp [hp]

/-- A key stays unique exactly when a new row has a value of its own there. -/
theorem nodup_map_concat {κ : Type} {key : α → κ} {rows : List α} {r : α} :
    ((rows ++ [r]).map key).Nodup ↔ (rows.map key).Nodup ∧ ∀ x ∈ rows, key x ≠ key r := by
  rw [List.map_append, List.nodup_append, List.map_singleton]
  constructor
  · rintro ⟨hnodup, -, hdisjoint⟩
    exact ⟨hnodup, fun x hx ↦ hdisjoint _ (List.mem_map_of_mem hx) _ (List.mem_singleton_self _)⟩
  · rintro ⟨hnodup, hfresh⟩
    refine ⟨hnodup, List.nodup_singleton _, ?_⟩
    intro k hk k' hk'
    obtain ⟨x, hx, rfl⟩ := List.mem_map.mp hk
    rw [List.mem_singleton.mp hk']
    exact hfresh x hx

/-- Rewriting rows without touching what the query tests rewrites its result. -/
theorem oneOrNone_map {p : α → Bool} {f : α → α} (hp : ∀ r, p (f r) = p r) (rows : List α) :
    oneOrNone p (rows.map f) = (oneOrNone p rows).map (Option.map f) := by
  unfold oneOrNone
  rw [filter_map_of_stable hp]
  cases rows.filter p with
  | nil => rfl
  | cons r rest => cases rest <;> rfl

/-- The same for a query that must find its row. -/
theorem one_map {p : α → Bool} {f : α → α} (hp : ∀ r, p (f r) = p r) (rows : List α) :
    one p (rows.map f) = (one p rows).map f := by
  unfold one
  rw [filter_map_of_stable hp]
  cases rows.filter p with
  | nil => rfl
  | cons r rest => cases rest <;> rfl

/-- A query finds the new version of the row that was rewritten. -/
theorem oneOrNone_modify_self {p : α → Bool} {f : α → α} (hp : ∀ r, p r = true → p (f r) = true)
    {rows : List α} {r : α} (h : oneOrNone p rows = .ok (some r)) :
    oneOrNone p (modify p f rows) = .ok (some (f r)) := by
  have hstable : ∀ x, p (if p x then f x else x) = p x := by
    intro x
    by_cases hx : p x = true
    · simp [hx, hp x hx]
    · simp [hx]
  have hr := prop_of_oneOrNone h
  unfold modify
  rw [oneOrNone_map hstable, h]
  simp [Except.map, hr]

/-- A selection does not see rows rewritten outside of it. -/
theorem filter_modify_other {p q : α → Bool} {f : α → α} {rows : List α}
    (hq : ∀ r ∈ rows, q r = true → p r = false ∧ p (f r) = false) :
    (modify q f rows).filter p = rows.filter p := by
  induction rows with
  | nil => rfl
  | cons x rest ih =>
    have htail : List.filter p (modify q f rest) = List.filter p rest :=
      ih fun r hr ↦ hq r (List.mem_cons_of_mem x hr)
    by_cases hx : q x = true
    · obtain ⟨h₁, h₂⟩ := hq x (List.mem_cons_self ..) hx
      simp only [modify, List.map_cons, hx, if_true, List.filter_cons, h₁, h₂]
      simpa [modify] using htail
    · simp only [modify, List.map_cons, hx, List.filter_cons]
      simp only [modify] at htail
      simp [htail]

/-- A query does not see rows rewritten outside its selection. -/
theorem oneOrNone_modify_other {p q : α → Bool} {f : α → α}
    (hq : ∀ r, q r = true → p r = false ∧ p (f r) = false) (rows : List α) :
    oneOrNone p (modify q f rows) = oneOrNone p rows := by
  unfold oneOrNone
  rw [filter_modify_other fun r _ ↦ hq r]

/-- Two rewrites of one selection in a row. -/
theorem modify_modify {p : α → Bool} {f : α → α} (hp : ∀ r, p r = true → p (f r) = true)
    (g : α → α) (rows : List α) :
    modify p g (modify p f rows) = modify p (g ∘ f) rows := by
  unfold modify
  rw [List.map_map]
  apply List.map_congr_left
  intro r _
  by_cases hr : p r = true
  · simp [hr, hp r hr]
  · simp [hr]

/-- A rewrite that keeps a field of the rows it selects keeps the field of the table. -/
theorem map_modify {β : Type} {key : α → β} {p : α → Bool} {f : α → α} {rows : List α}
    (hkey : ∀ r ∈ rows, p r = true → key (f r) = key r) :
    (modify p f rows).map key = rows.map key := by
  unfold modify
  rw [List.map_map]
  apply List.map_congr_left
  intro r hr
  by_cases hp : p r = true
  · simp [hp, hkey r hr hp]
  · simp [hp]

/-- A rewrite of the row with a key keeps another key unique, if no other row has its new
value there. -/
theorem nodup_modify {κ ι : Type} [DecidableEq ι] {key : α → κ} {id : α → ι} {f : α → α}
    {rows : List α} {r : α} (hids : (rows.map id).Nodup) (hkeys : (rows.map key).Nodup)
    (hr : r ∈ rows) (hfree : ∀ x ∈ rows, id x ≠ id r → key x ≠ key (f r)) :
    ((modify (fun x ↦ id x = id r) f rows).map key).Nodup := by
  have hself : ∀ x ∈ rows, id x = id r → x = r := fun x hx ↦ eq_of_nodup hids hr hx
  unfold modify
  rw [List.map_map]
  refine List.Nodup.map_on ?_ (List.Nodup.of_map id hids)
  intro x hx y hy heq
  simp only [Function.comp_apply, decide_eq_true_eq] at heq
  by_cases hxr : id x = id r
  · by_cases hyr : id y = id r
    · rw [hself x hx hxr, hself y hy hyr]
    · rw [if_pos hxr, if_neg hyr, hself x hx hxr] at heq
      exact absurd heq.symm (hfree y hy hyr)
  · by_cases hyr : id y = id r
    · rw [if_neg hxr, if_pos hyr, hself y hy hyr] at heq
      exact absurd heq (hfree x hx hxr)
    · rw [if_neg hxr, if_neg hyr] at heq
      exact List.inj_on_of_nodup_map hkeys hx hy heq

/-- Membership in a rewritten table. -/
theorem mem_modify {p : α → Bool} {f : α → α} {rows : List α} {x : α} :
    x ∈ modify p f rows ↔
      (∃ r ∈ rows, p r = true ∧ x = f r) ∨ (x ∈ rows ∧ p x = false) := by
  unfold modify
  rw [List.mem_map]
  constructor
  · rintro ⟨r, hr, rfl⟩
    by_cases hp : p r = true
    · left
      exact ⟨r, hr, hp, by simp [hp]⟩
    · right
      simp only [Bool.not_eq_true] at hp
      simp [hp, hr]
  · rintro (⟨r, hr, hp, rfl⟩ | ⟨hx, hp⟩)
    · exact ⟨r, hr, by simp [hp]⟩
    · exact ⟨x, hx, by simp [hp]⟩

/-- What holds of all rows after a rewrite. -/
theorem forall_modify {P : α → Prop} {p : α → Bool} {f : α → α} {rows : List α} :
    (∀ r ∈ modify p f rows, P r) ↔
      (∀ r ∈ rows, p r = true → P (f r)) ∧ ∀ r ∈ rows, p r = false → P r := by
  constructor
  · intro h
    exact ⟨fun r hr hp ↦ h (f r) (mem_modify.mpr (.inl ⟨r, hr, hp, rfl⟩)),
      fun r hr hp ↦ h r (mem_modify.mpr (.inr ⟨hr, hp⟩))⟩
  · rintro ⟨hself, hother⟩ x hx
    rcases mem_modify.mp hx with ⟨r, hr, hp, rfl⟩ | ⟨hr, hp⟩
    · exact hself r hr hp
    · exact hother x hr hp

/-- A rewrite that selects no row changes nothing. -/
theorem modify_eq_self {p : α → Bool} {f : α → α} {rows : List α}
    (h : ∀ r ∈ rows, p r = false) : modify p f rows = rows := by
  unfold modify
  conv_rhs => rw [← List.map_id rows]
  apply List.map_congr_left
  intro r hr
  simp [h r hr]

/-- Rewriting the row with a key moves a count by what the rewrite does to that row. -/
theorem countP_modify {ι : Type} [DecidableEq ι] {id : α → ι} {f : α → α} {rows : List α}
    {r : α} (p : α → Bool) (hids : (rows.map id).Nodup) (hr : r ∈ rows) :
    (modify (fun x ↦ id x = id r) f rows).countP p + (if p r then 1 else 0) =
      rows.countP p + (if p (f r) then 1 else 0) := by
  induction rows with
  | nil => cases hr
  | cons x rest ih =>
    obtain ⟨hfresh, hrest⟩ := List.nodup_cons.mp hids
    have hstep : modify (fun y ↦ id y = id r) f (x :: rest) =
        (if id x = id r then f x else x) :: modify (fun y ↦ id y = id r) f rest := by
      simp [modify]
    rw [hstep, List.countP_cons, List.countP_cons]
    obtain rfl | hmem := List.mem_cons.mp hr
    · have hkeep : modify (fun y ↦ id y = id r) f rest = rest := by
        apply modify_eq_self
        intro y hy
        simp only [decide_eq_false_iff_not]
        exact fun heq ↦ hfresh (heq ▸ List.mem_map_of_mem hy)
      rw [hkeep, if_pos rfl]
      omega
    · have hne : id x ≠ id r := fun heq ↦ hfresh (heq ▸ List.mem_map_of_mem hmem)
      have hind := ih hrest hmem
      rw [if_neg hne]
      omega

/-- Of results that bear the key of their row, those with a key that no row has are none. -/
theorem filter_flatMap_of_not_mem {β κ : Type} [DecidableEq κ] {key : α → κ} {keyOf : β → κ}
    {f : α → List β} (hkey : ∀ r, ∀ b ∈ f r, keyOf b = key r) {rows : List α} {k : κ}
    (hk : k ∉ rows.map key) : (rows.flatMap f).filter (fun b ↦ keyOf b = k) = [] := by
  rw [List.filter_eq_nil_iff]
  intro b hb heq
  obtain ⟨r, hr, hmem⟩ := List.mem_flatMap.mp hb
  exact hk (of_decide_eq_true heq ▸ hkey r b hmem ▸ List.mem_map_of_mem hr)

/-- Where a key has no duplicates, those with the key of a row are the results of the row. -/
theorem filter_flatMap_of_nodup {β κ : Type} [DecidableEq κ] {key : α → κ} {keyOf : β → κ}
    {f : α → List β} (hkey : ∀ r, ∀ b ∈ f r, keyOf b = key r) {rows : List α} {r : α}
    (hnodup : (rows.map key).Nodup) (hr : r ∈ rows) :
    (rows.flatMap f).filter (fun b ↦ keyOf b = key r) = f r := by
  induction rows with
  | nil => cases hr
  | cons x rest ih =>
    obtain ⟨hfresh, hrest⟩ := List.nodup_cons.mp hnodup
    rw [List.flatMap_cons, List.filter_append]
    obtain rfl | hmem := List.mem_cons.mp hr
    · rw [filter_flatMap_of_not_mem hkey hfresh, List.append_nil]
      exact List.filter_eq_self.mpr fun b hb ↦ decide_eq_true (hkey r b hb)
    · rw [ih hrest hmem, List.append_left_eq_self, List.filter_eq_nil_iff]
      intro b hb heq
      have hsame : key x = key r := (hkey x b hb).symm.trans (of_decide_eq_true heq)
      exact hfresh (hsame ▸ List.mem_map_of_mem hmem)

end Rows

end WikiMind.Base
