import Mathlib.Data.List.Infix

/-!
# SQL patterns

Library about `ILIKE` patterns. A `%` stands for any text, a `_` for any character, and where
the database has a backslash as escape, the character behind one for itself. Characters are
compared without regard to case, as the database folds it.
-/

namespace WikiMind.Base

/-- How a database reads patterns: whether a backslash escapes, and the case of characters. No
other character has the case of one of the symbols. -/
structure Dialect where
  escapes : Bool
  fold : Char → Char
  fold_symbol : ∀ c d, c = '%' ∨ c = '_' ∨ c = '\\' → fold d = fold c → d = c

namespace Dialect

/-- The parts of a pattern. -/
inductive Token where
  | any
  | one
  | lit (c : Char)
  deriving DecidableEq, Repr

variable (dialect : Dialect)

/-- The parts of a pattern; a backslash at its end stands for nothing. -/
def tokens : List Char → List Token
  | [] => []
  | '\\' :: rest =>
    if dialect.escapes then
      match rest with
      | [] => []
      | c :: rest => .lit c :: tokens rest
    else .lit '\\' :: tokens rest
  | '%' :: rest => .any :: tokens rest
  | '_' :: rest => .one :: tokens rest
  | c :: rest => .lit c :: tokens rest

/-- The text has the parts in a row. -/
def fits : List Token → List Char → Bool
  | [], s => s.isEmpty
  | .any :: ts, s => s.tails.any (fits ts)
  | .one :: _, [] => false
  | .one :: ts, _ :: s => fits ts s
  | .lit _ :: _, [] => false
  | .lit c :: ts, d :: s => dialect.fold c = dialect.fold d && fits ts s

/-- `ILIKE`. -/
def ilike (text pattern : List Char) : Bool := dialect.fits (dialect.tokens pattern) text

/-- The text has the other one in it, up to the case of characters. -/
def Contains (text part : List Char) : Prop := part.map dialect.fold <:+: text.map dialect.fold

/-- No character of the text means something else in a pattern. -/
structure Literal (text : List Char) : Prop where
  any : '%' ∉ text
  one : '_' ∉ text
  escape : dialect.escapes = true → '\\' ∉ text

/-! ### Literal patterns -/

variable {dialect}

/-- The rest of a literal text is literal. -/
theorem Literal.of_cons {c : Char} {text : List Char} (h : dialect.Literal (c :: text)) :
    dialect.Literal text :=
  ⟨fun hmem ↦ h.any (List.mem_cons_of_mem c hmem), fun hmem ↦ h.one (List.mem_cons_of_mem c hmem),
    fun hescapes hmem ↦ h.escape hescapes (List.mem_cons_of_mem c hmem)⟩

/-- A character that is no symbol keeps a text literal. -/
theorem Literal.cons {c : Char} {text : List Char} (h : dialect.Literal text) (hany : c ≠ '%')
    (hone : c ≠ '_') (hescape : dialect.escapes = true → c ≠ '\\') :
    dialect.Literal (c :: text) := by
  constructor
  · simpa [hany.symm] using h.any
  · simpa [hone.symm] using h.one
  · intro hescapes
    simpa [(hescape hescapes).symm] using h.escape hescapes

attribute [local simp] tokens in
/-- The part of a character that is no symbol. -/
theorem tokens_cons {c : Char} (hany : c ≠ '%') (hone : c ≠ '_')
    (hescape : dialect.escapes = true → c ≠ '\\') (rest : List Char) :
    dialect.tokens (c :: rest) = .lit c :: dialect.tokens rest := by
  by_cases hc : c = '\\'
  · subst hc
    have hescapes : ¬ dialect.escapes = true := fun h ↦ hescape h rfl
    cases rest <;> simp [tokens, hescapes]
  · rw [tokens]
    · exact hc
    · exact hany
    · exact hone

/-- A literal text stands in a pattern for its characters. -/
theorem tokens_append {text : List Char} (h : dialect.Literal text) (rest : List Char) :
    dialect.tokens (text ++ rest) = text.map .lit ++ dialect.tokens rest := by
  induction text with
  | nil => rfl
  | cons c text ih =>
    have hany : c ≠ '%' := fun hc ↦ h.any (by simp [hc])
    have hone : c ≠ '_' := fun hc ↦ h.one (by simp [hc])
    have hescape : dialect.escapes = true → c ≠ '\\' :=
      fun hescapes hc ↦ h.escape hescapes (by simp [hc])
    rw [List.cons_append, tokens_cons hany hone hescape, ih h.of_cons]
    rfl

attribute [local simp] fits in
private theorem fits_any_iff {ts : List Token} {s : List Char} :
    dialect.fits (.any :: ts) s = true ↔ ∃ u v, s = u ++ v ∧ dialect.fits ts v = true := by
  rw [fits, List.any_eq_true]
  constructor
  · rintro ⟨v, hv, hfits⟩
    obtain ⟨u, hu⟩ := (List.mem_tails ..).mp hv
    exact ⟨u, v, hu.symm, hfits⟩
  · rintro ⟨u, v, rfl, hfits⟩
    exact ⟨v, (List.mem_tails ..).mpr (List.suffix_append u v), hfits⟩

private theorem fits_lits_iff {text : List Char} {ts : List Token} {s : List Char} :
    dialect.fits (text.map .lit ++ ts) s = true ↔
      ∃ u v, s = u ++ v ∧ u.map dialect.fold = text.map dialect.fold ∧
        dialect.fits ts v = true := by
  induction text generalizing s with
  | nil => simp
  | cons c text ih =>
    cases s with
    | nil => simp [fits]
    | cons d s =>
      rw [List.map_cons, List.cons_append, fits, Bool.and_eq_true, decide_eq_true_eq, ih]
      constructor
      · rintro ⟨hcase, u, v, rfl, hu, hfits⟩
        exact ⟨d :: u, v, rfl, by rw [List.map_cons, List.map_cons, hu, hcase], hfits⟩
      · rintro ⟨u, v, hs, hu, hfits⟩
        cases u with
        | nil => cases hu
        | cons e u =>
          obtain ⟨rfl, rfl⟩ := List.cons.inj hs
          rw [List.map_cons, List.map_cons, List.cons.injEq] at hu
          exact ⟨hu.1.symm, u, v, rfl, hu.2, hfits⟩

/-- A literal text between two `%` is found exactly in the texts that contain it. -/
theorem ilike_iff_contains {part : List Char} (h : dialect.Literal part) (text : List Char) :
    dialect.ilike text ('%' :: (part ++ ['%'])) = true ↔ dialect.Contains text part := by
  have hend : dialect.tokens ['%'] = [.any] := rfl
  have hall : ∀ s, dialect.fits [.any] s = true := fun s ↦
    fits_any_iff.mpr ⟨s, [], (List.append_nil s).symm, rfl⟩
  rw [ilike, tokens, tokens_append h, hend, fits_any_iff]
  simp only [fits_lits_iff, hall, and_true]
  constructor
  · rintro ⟨u, v, rfl, w, z, rfl, hw⟩
    refine ⟨u.map dialect.fold, z.map dialect.fold, ?_⟩
    rw [← hw, List.map_append, List.map_append, List.append_assoc]
  · rintro ⟨x, y, hxy⟩
    obtain ⟨u, rest, rfl, rfl, hrest⟩ := List.map_eq_append_iff.mp
      (hxy.symm.trans (List.append_assoc ..))
    obtain ⟨w, z, rfl, hw, rfl⟩ := List.map_eq_append_iff.mp hrest
    exact ⟨u, w ++ z, rfl, w, z, rfl, hw⟩

/-! ### A text that fits -/

/-- A shortest text for a part. -/
def Token.shortest : Token → List Char
  | .any => []
  | .one => ['x']
  | .lit c => [c]

private theorem fits_shortest (ts : List Token) :
    dialect.fits ts (ts.flatMap Token.shortest) = true := by
  induction ts with
  | nil => rfl
  | cons t ts ih =>
    rw [List.flatMap_cons]
    cases t with
    | any => exact fits_any_iff.mpr ⟨[], _, rfl, ih⟩
    | one => exact ih
    | lit c => simpa [Token.shortest, fits] using ih

variable (dialect) in
/-- A text that fits the pattern of a part. -/
def shortest (part : List Char) : List Char :=
  (dialect.tokens (part ++ ['%'])).flatMap Token.shortest

/-- A text that a pattern matches. -/
theorem ilike_shortest (part : List Char) :
    dialect.ilike (dialect.shortest part) ('%' :: (part ++ ['%'])) = true := by
  rw [ilike, tokens]
  exact fits_any_iff.mpr ⟨[], _, rfl, fits_shortest _⟩

/-- A backslash before the `%` behind the part makes it a character. -/
theorem shortest_backslash (h : dialect.escapes = true) : dialect.shortest ['\\'] = ['%'] := by
  simp [shortest, tokens, h, Token.shortest]

private theorem shortest_escape (h : dialect.escapes = true) (c : Char) (part : List Char) :
    dialect.shortest ('\\' :: c :: part) = c :: dialect.shortest part := by
  simp [shortest, tokens, h, Token.shortest]

private theorem shortest_any (part : List Char) :
    dialect.shortest ('%' :: part) = dialect.shortest part := by
  simp [shortest, tokens, Token.shortest]

private theorem shortest_one (part : List Char) :
    dialect.shortest ('_' :: part) = 'x' :: dialect.shortest part := by
  simp [shortest, tokens, Token.shortest]

private theorem shortest_cons {c : Char} (hany : c ≠ '%') (hone : c ≠ '_')
    (hescape : dialect.escapes = true → c ≠ '\\') (part : List Char) :
    dialect.shortest (c :: part) = c :: dialect.shortest part := by
  rw [shortest, List.cons_append, tokens_cons hany hone hescape]
  rfl

variable (dialect) in
/-- The text that fits a part is no longer than the part, and is the same up to case only if the
part is literal. -/
def Reveals (part : List Char) : Prop :=
  (dialect.shortest part).length ≤ part.length ∧
    ((dialect.shortest part).map dialect.fold = part.map dialect.fold → dialect.Literal part)

private theorem not_of_length_lt {part : List Char} {P : Prop}
    (h : (dialect.shortest part).length < part.length)
    (heq : (dialect.shortest part).map dialect.fold = part.map dialect.fold) : P := by
  have hlength := congrArg List.length heq
  rw [List.length_map, List.length_map] at hlength
  omega

/-- A character that is no escape reveals nothing more. -/
theorem Reveals.cons {c : Char} {part : List Char} (ih : dialect.Reveals part)
    (hescape : dialect.escapes = true → c ≠ '\\') : dialect.Reveals (c :: part) := by
  obtain ⟨hlength, hliteral⟩ := ih
  by_cases hany : c = '%'
  · subst hany
    have hlt : (dialect.shortest ('%' :: part)).length < ('%' :: part).length := by
      rw [shortest_any]
      exact Nat.lt_succ_of_le hlength
    exact ⟨hlt.le, not_of_length_lt hlt⟩
  by_cases hone : c = '_'
  · subst hone
    unfold Reveals
    rw [shortest_one]
    refine ⟨Nat.succ_le_succ hlength, fun heq ↦ ?_⟩
    rw [List.map_cons, List.map_cons, List.cons.injEq] at heq
    exact absurd (dialect.fold_symbol '_' 'x' (.inr (.inl rfl)) heq.1) (by decide)
  · unfold Reveals
    rw [shortest_cons hany hone hescape]
    refine ⟨Nat.succ_le_succ hlength, fun heq ↦ ?_⟩
    rw [List.map_cons, List.map_cons, List.cons.injEq] at heq
    exact (hliteral heq.2).cons hany hone hescape

private theorem reveals (part : List Char) : dialect.Reveals part := by
  have hnil : dialect.Reveals [] :=
    ⟨Nat.le_refl _, fun _ ↦ ⟨List.not_mem_nil, List.not_mem_nil, fun _ ↦ List.not_mem_nil⟩⟩
  induction part using List.twoStepInduction with
  | nil => exact hnil
  | singleton c =>
    by_cases hescape : dialect.escapes = true ∧ c = '\\'
    · obtain ⟨hescapes, rfl⟩ := hescape
      unfold Reveals
      rw [shortest_backslash hescapes]
      refine ⟨Nat.le_refl _, fun heq ↦ ?_⟩
      rw [List.map_singleton, List.map_singleton, List.singleton_inj] at heq
      exact absurd (dialect.fold_symbol '\\' '%' (.inr (.inr rfl)) heq) (by decide)
    · exact hnil.cons fun hescapes hc ↦ hescape ⟨hescapes, hc⟩
  | cons_cons c d part ih ih' =>
    by_cases hescape : dialect.escapes = true ∧ c = '\\'
    · obtain ⟨hescapes, rfl⟩ := hescape
      have hlt : (dialect.shortest ('\\' :: d :: part)).length < ('\\' :: d :: part).length := by
        rw [shortest_escape hescapes]
        exact Nat.succ_lt_succ (Nat.lt_succ_of_le ih.1)
      exact ⟨hlt.le, not_of_length_lt hlt⟩
    · exact (ih' d).cons fun hescapes hc ↦ hescape ⟨hescapes, hc⟩

/-- A part that every text found by it contains is literal. -/
theorem literal_of_contains_shortest {part : List Char}
    (h : dialect.Contains (dialect.shortest part) part) : dialect.Literal part := by
  obtain ⟨hlength, hliteral⟩ := dialect.reveals part
  refine hliteral (List.IsInfix.eq_of_length_le h ?_).symm
  rw [List.length_map, List.length_map]
  exact hlength

end Dialect

end WikiMind.Base
