import WikiMind.Base.Text

/-!
# POSIX paths

Paths as `pathlib` has them: a root of up to two slashes and the parts between slashes,
without empty ones and `.`. Resolving walks along the parts, where `..` goes up, in a file
system without symbolic links. A walk that climbs above its start and then lands somewhere
does so from every start.
-/

namespace WikiMind.Base

/-- The name of a file or a directory. -/
abbrev Name := List Char

/-- A path. -/
structure Path where
  root : List Char
  parts : List Name
  deriving DecidableEq, Repr

/-- The part that goes up. -/
def up : Name := ['.', '.']

/-- A part that counts. -/
def isPart (part : Name) : Bool := part ≠ [] && part ≠ ['.']

/-- The root of a text; exactly two slashes are kept apart from one. -/
def rootOf : List Char → List Char
  | '/' :: '/' :: '/' :: _ => ['/']
  | '/' :: '/' :: _ => ['/', '/']
  | '/' :: _ => ['/']
  | _ => []

namespace Path

/-- `Path(s)`. -/
def ofText (s : List Char) : Path := ⟨rootOf s, (s.splitOn '/').filter isPart⟩

/-- `str(p)`. -/
def text (p : Path) : List Char :=
  if p.root = [] ∧ p.parts = [] then ['.'] else p.root ++ ['/'].intercalate p.parts

/-- `p / s`, which is `s` if that is absolute. -/
def join (p : Path) (s : List Char) : Path :=
  let q := ofText s
  if q.root = [] then ⟨p.root, p.parts ++ q.parts⟩ else q

/-- One part of a walk. -/
def step (place : List Name) (part : Name) : List Name :=
  if part = up then place.dropLast else place ++ [part]

/-- The place that is reached along some parts. -/
def walk (place : List Name) (parts : List Name) : List Name := parts.foldl step place

/-- `p.resolve()`, from the working directory if the path is relative. -/
def resolve (cwd : List Name) (p : Path) : List Name :=
  walk (if p.root = [] then cwd else []) p.parts

/-- One part of a walk from an unknown start: how far it has climbed above the start and where
it has gone from there. -/
def climbStep (state : Nat × List Name) (part : Name) : Nat × List Name :=
  if part = up then
    if state.2 = [] then (state.1 + 1, []) else (state.1, state.2.dropLast)
  else (state.1, state.2 ++ [part])

/-- How far a walk climbs above its start. -/
def climbs (parts : List Name) : Nat := (parts.foldl climbStep (0, [])).1

/-- Where a walk goes from the highest place. -/
def landing (parts : List Name) : List Name := (parts.foldl climbStep (0, [])).2

section Walk

variable {place parts : List Name}

/-- A walk goes on where it stopped. -/
theorem walk_append (place parts more : List Name) :
    walk place (parts ++ more) = walk (walk place parts) more :=
  List.foldl_append

/-- A step down. -/
theorem walk_singleton (place : List Name) {part : Name} (h : part ≠ up) :
    walk place [part] = place ++ [part] := if_neg h

/-- A relative path is resolved from the place it is joined to. -/
theorem resolve_join_of_relative (p : Path) {s : List Char} (h : rootOf s = []) (cwd : List Name) :
    (p.join s).resolve cwd = walk (p.resolve cwd) (ofText s).parts := by
  have hroot : (ofText s).root = [] := h
  simp only [join, hroot, if_true, resolve, walk_append]

/-- An absolute path replaces the one it is joined to. -/
theorem resolve_join_of_absolute (p : Path) {s : List Char} (h : rootOf s ≠ []) (cwd : List Name) :
    (p.join s).resolve cwd = walk [] (ofText s).parts := by
  have hroot : (ofText s).root ≠ [] := h
  simp only [join, hroot, if_false, resolve]

private theorem step_climbStep (place : List Name) (state : Nat × List Name) (part : Name) :
    step (place.take (place.length - state.1) ++ state.2) part =
      place.take (place.length - (climbStep state part).1) ++ (climbStep state part).2 := by
  unfold step climbStep
  split
  · split
    · next hnil =>
      rw [hnil, List.append_nil, List.append_nil, List.dropLast_eq_take, List.take_take,
        List.length_take]
      congr 1
      omega
    · next hne => rw [List.dropLast_append_of_ne_nil hne]
  · rw [List.append_assoc]

/-- A walk leaves the upper part of its start and goes on from there. -/
theorem walk_eq (place parts : List Name) :
    walk place parts = place.take (place.length - climbs parts) ++ landing parts := by
  have hrun : ∀ (parts : List Name) (state : Nat × List Name),
      parts.foldl step (place.take (place.length - state.1) ++ state.2) =
        place.take (place.length - (parts.foldl climbStep state).1) ++
          (parts.foldl climbStep state).2 := by
    intro parts
    induction parts with
    | nil => exact fun _ ↦ rfl
    | cons part parts ih =>
      intro state
      rw [List.foldl_cons, List.foldl_cons, step_climbStep, ih]
  have h := hrun parts (0, [])
  simpa [walk, climbs, landing] using h

/-- From a directory and from one below it, the walk reaches one place exactly if it climbs
above the upper one. -/
theorem walk_concat_eq_iff (name : Name) :
    walk (place ++ [name]) parts = walk place parts ↔ place.length < climbs parts := by
  rw [walk_eq, walk_eq, List.append_cancel_right_eq]
  constructor
  · intro h
    have hlength := congrArg List.length h
    simp only [List.length_take, List.length_append, List.length_singleton] at hlength
    omega
  · intro h
    have h1 : (place ++ [name]).length - climbs parts = 0 := by
      rw [List.length_append, List.length_singleton]
      omega
    have h2 : place.length - climbs parts = 0 := by omega
    rw [h1, h2, List.take_zero, List.take_zero]

/-- From the root and from a directory, the walk reaches one place exactly if it climbs to
the root. -/
theorem walk_nil_eq_iff : walk [] parts = walk place parts ↔ place.length ≤ climbs parts := by
  rw [walk_eq, walk_eq, List.append_cancel_right_eq, List.take_nil]
  constructor
  · intro h
    have hlength := congrArg List.length h
    rw [List.length_nil, List.length_take] at hlength
    omega
  · intro h
    rw [Nat.sub_eq_zero_of_le h, List.take_zero]

end Walk

section Text

/-- The parts of a path are names without a slash. -/
structure Proper (p : Path) : Prop where
  root : p.root ∈ [[], ['/'], ['/', '/']]
  parts : ∀ part ∈ p.parts, '/' ∉ part ∧ isPart part

private theorem rootOf_cases (s : List Char) : rootOf s ∈ [[], ['/'], ['/', '/']] := by
  unfold rootOf
  split
  all_goals simp

/-- A path that is read is proper. -/
theorem proper_ofText (s : List Char) : Proper (ofText s) where
  root := rootOf_cases s
  parts := by
    intro part hpart
    obtain ⟨hmem, hcounts⟩ := List.mem_filter.mp hpart
    exact ⟨not_mem_of_mem_splitOn hmem, hcounts⟩

/-- Joining keeps a path proper. -/
theorem Proper.join {p : Path} (hp : Proper p) (s : List Char) : Proper (p.join s) := by
  dsimp only [Path.join]
  split
  · refine ⟨hp.root, fun part hpart ↦ ?_⟩
    obtain hold | hnew := List.mem_append.mp hpart
    · exact hp.parts part hold
    · exact (proper_ofText s).parts part hnew
  · exact proper_ofText s

/-- A slash at the start gives an empty part. -/
theorem splitOn_slash (s : List Char) : ('/' :: s).splitOn '/' = [] :: s.splitOn '/' := by
  simpa using List.splitOn_append_cons_self_of_not_mem (List.not_mem_nil (a := '/')) s

/-- The root of a text with a root. -/
theorem rootOf_append {root s : List Char} (hroot : root ∈ [[], ['/'], ['/', '/']]) {c : Char}
    (hc : c ≠ '/') : rootOf (root ++ c :: s) = root := by
  simp only [List.mem_cons, List.not_mem_nil, or_false] at hroot
  obtain rfl | rfl | rfl := hroot
  · simp [rootOf, hc]
  · simp [rootOf, hc]
  · simp [rootOf, hc]

private theorem filter_splitOn_append {root : List Char} (hroot : root ∈ [[], ['/'], ['/', '/']])
    (s : List Char) :
    ((root ++ s).splitOn '/').filter isPart = (s.splitOn '/').filter isPart := by
  simp only [List.mem_cons, List.not_mem_nil, or_false] at hroot
  obtain rfl | rfl | rfl := hroot
  · rfl
  · simp [splitOn_slash, isPart]
  · simp [splitOn_slash, isPart]

/-- A single name is a relative path of one part. -/
theorem ofText_name {name : Name} (hslash : '/' ∉ name) (hpart : isPart name) :
    ofText name = ⟨[], [name]⟩ := by
  have hroot : rootOf name = [] := by
    cases name with
    | nil => rfl
    | cons c name =>
      rw [List.mem_cons, not_or] at hslash
      have h := rootOf_append List.mem_cons_self (s := name) (Ne.symm hslash.1)
      simpa using h
  rw [ofText, hroot, List.splitOn_eq_singleton hslash, List.filter_cons_of_pos hpart]
  rfl

/-- Text behind a path and a slash is further parts. -/
theorem Proper.ofText_append {p : Path} (hp : Proper p) (hne : p.parts ≠ []) (s : List Char) :
    ofText (p.text ++ '/' :: s) = ⟨p.root, p.parts ++ (ofText s).parts⟩ := by
  have htext : p.text ++ '/' :: s = p.root ++ (['/'].intercalate p.parts ++ '/' :: s) := by
    rw [text, if_neg fun h ↦ hne h.2, List.append_assoc]
  have hroot : rootOf (p.text ++ '/' :: s) = p.root := by
    obtain ⟨part, parts, hparts⟩ := List.exists_cons_of_ne_nil hne
    obtain ⟨hslash, hpart⟩ := hp.parts part (by rw [hparts]; exact List.mem_cons_self)
    have hnil : part ≠ [] := by
      rintro rfl
      cases hpart
    obtain ⟨c, name, rfl⟩ := List.exists_cons_of_ne_nil hnil
    rw [List.mem_cons, not_or] at hslash
    rw [htext, hparts]
    cases parts with
    | nil => exact rootOf_append hp.root (Ne.symm hslash.1)
    | cons next parts =>
      rw [List.intercalate_cons_cons]
      exact rootOf_append hp.root (Ne.symm hslash.1)
  have hparts : ((p.text ++ '/' :: s).splitOn '/').filter isPart =
      p.parts ++ (s.splitOn '/').filter isPart := by
    rw [htext, filter_splitOn_append hp.root,
      splitOn_intercalate_append hne fun part h ↦ (hp.parts part h).1, List.filter_append,
      List.filter_eq_self.mpr fun part h ↦ (hp.parts part h).2]
  rw [ofText, hroot, hparts, ofText]

end Text

end Path

end WikiMind.Base
