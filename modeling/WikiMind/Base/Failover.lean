import Mathlib.Data.List.Basic

/-!
# Traced computations and failover

Library for code that acts on the outside world and may raise: a computation is the list
of its effects and its result. `failover` tries candidates in order. A candidate is
skipped, settles the loop, or passes on to the next one.
-/

namespace WikiMind.Base

/-- A computation with the effects it has had when it returns or raises. -/
@[ext]
structure Traced (ω ε α : Type) where
  effects : List ω
  result : Except ε α

namespace Traced

variable {ω ε α β : Type}

/-- Have one effect. -/
def emit (x : ω) : Traced ω ε Unit := ⟨[x], .ok ()⟩

/-- Raise without an effect. -/
def raise (e : ε) : Traced ω ε α := ⟨[], .error e⟩

/-- Have no effect, with the given result. -/
def lift (r : Except ε α) : Traced ω ε α := ⟨[], r⟩

/-- Go on with the value of the first computation, unless it raises. -/
def andThen (x : Traced ω ε α) (f : α → Traced ω ε β) : Traced ω ε β :=
  match x.result with
  | .error e => ⟨x.effects, .error e⟩
  | .ok a => ⟨x.effects ++ (f a).effects, (f a).result⟩

instance : Monad (Traced ω ε) where
  pure a := ⟨[], .ok a⟩
  bind := andThen

@[simp] theorem emit_bind (x : ω) (f : Unit → Traced ω ε β) :
    (emit x >>= f) = ⟨x :: (f ()).effects, (f ()).result⟩ := rfl

@[simp] theorem lift_ok_bind (a : α) (f : α → Traced ω ε β) :
    (lift (.ok a) >>= f : Traced ω ε β) = f a := rfl

/-- A computation that raises has no further effects. -/
theorem bind_of_error {x : Traced ω ε α} {e : ε} (h : x.result = .error e)
    (f : α → Traced ω ε β) : (x >>= f) = ⟨x.effects, .error e⟩ := by
  show andThen x f = _
  simp only [andThen, h]

/-- A computation that returns is followed by the next one. -/
theorem bind_of_ok {x : Traced ω ε α} {a : α} (h : x.result = .ok a)
    (f : α → Traced ω ε β) : (x >>= f) = ⟨x.effects ++ (f a).effects, (f a).result⟩ := by
  show andThen x f = _
  simp only [andThen, h]

/-- The result of two parts, one after the other. -/
theorem result_bind (x : Traced ω ε α) (f : α → Traced ω ε β) :
    (x >>= f).result =
      match x.result with
      | .error e => .error e
      | .ok a => (f a).result := by
  cases h : x.result with
  | error e => rw [bind_of_error h]
  | ok a => rw [bind_of_ok h]

/-- The effects of a computation stay, whatever follows. -/
theorem effects_bind (x : Traced ω ε α) (f : α → Traced ω ε β) :
    ∃ rest, (x >>= f).effects = x.effects ++ rest := by
  cases h : x.result with
  | error e => exact ⟨[], by rw [bind_of_error h, List.append_nil]⟩
  | ok a => exact ⟨(f a).effects, by rw [bind_of_ok h]⟩

/-- An effect that neither part can have does not happen. -/
theorem notMem_effects_bind {x : Traced ω ε α} {f : α → Traced ω ε β} {o : ω}
    (hx : o ∉ x.effects) (hf : ∀ a, o ∉ (f a).effects) : o ∉ (x >>= f).effects := by
  cases h : x.result with
  | error e =>
    rw [bind_of_error h]
    exact hx
  | ok a =>
    rw [bind_of_ok h, List.mem_append, not_or]
    exact ⟨hx, hf a⟩

/-- What the second part has none of is counted in the first part. -/
theorem countP_effects_bind {x : Traced ω ε α} {f : α → Traced ω ε β} {P : ω → Bool}
    (h : ∀ a, (f a).effects.countP P = 0) :
    (x >>= f).effects.countP P = x.effects.countP P := by
  cases hx : x.result with
  | error e => rw [bind_of_error hx]
  | ok a => rw [bind_of_ok hx, List.countP_append, h a, Nat.add_zero]

end Traced

/-- What trying a candidate comes to. -/
inductive Attempt (ε α : Type) where
  | skip
  | settle (r : Except ε α)
  | next (e : ε)

section Failover

variable {κ ω ε α : Type}

/-- Try the candidates in order; `exhausted` turns the last error into the final one. -/
def failover (attempt : κ → List ω × Attempt ε α) (exhausted : Option ε → ε) :
    List κ → Option ε → Traced ω ε α
  | [], last => .raise (exhausted last)
  | c :: cs, last =>
    match (attempt c).2 with
    | .skip =>
      ⟨(attempt c).1 ++ (failover attempt exhausted cs last).effects,
        (failover attempt exhausted cs last).result⟩
    | .settle r => ⟨(attempt c).1, r⟩
    | .next e =>
      ⟨(attempt c).1 ++ (failover attempt exhausted cs (some e)).effects,
        (failover attempt exhausted cs (some e)).result⟩

/-- An attempt that leaves the loop to the next candidate. -/
def Attempt.Passes : Attempt ε α → Prop
  | .skip | .next _ => True
  | .settle _ => False

variable {attempt : κ → List ω × Attempt ε α} {c : κ} (exhausted : Option ε → ε) (cs : List κ)
  (last : Option ε)

/-- A candidate that settles the loop is the last one. -/
theorem failover_of_settle {r : Except ε α} (h : (attempt c).2 = .settle r) :
    failover attempt exhausted (c :: cs) last = ⟨(attempt c).1, r⟩ := by
  simp only [failover, h]

/-- The effects of any other candidate are followed by those of the remaining ones. -/
theorem failover_of_passes (h : (attempt c).2.Passes) :
    ∃ last', failover attempt exhausted (c :: cs) last =
      ⟨(attempt c).1 ++ (failover attempt exhausted cs last').effects,
        (failover attempt exhausted cs last').result⟩ := by
  cases hc : (attempt c).2 with
  | skip => exact ⟨last, by simp only [failover, hc]⟩
  | settle r =>
    rw [hc] at h
    cases h
  | next e => exact ⟨some e, by simp only [failover, hc]⟩

/-- A candidate that passes without an effect leaves the loop to the others. -/
theorem failover_of_silent (hsilent : (attempt c).1 = []) (h : (attempt c).2.Passes) :
    ∃ last', failover attempt exhausted (c :: cs) last = failover attempt exhausted cs last' := by
  rcases failover_of_passes exhausted cs last h with ⟨last', hloop⟩
  exact ⟨last', by rw [hloop, hsilent, List.nil_append]⟩

/-- A candidate settles the loop, or passes it on. -/
theorem failover_cons_cases (attempt : κ → List ω × Attempt ε α) (c : κ) :
    (∃ r, (attempt c).2 = .settle r ∧ ¬ (attempt c).2.Passes ∧
      failover attempt exhausted (c :: cs) last = ⟨(attempt c).1, r⟩) ∨
    (attempt c).2.Passes ∧ ∃ last', failover attempt exhausted (c :: cs) last =
      ⟨(attempt c).1 ++ (failover attempt exhausted cs last').effects,
        (failover attempt exhausted cs last').result⟩ := by
  by_cases hpasses : (attempt c).2.Passes
  · exact .inr ⟨hpasses, failover_of_passes exhausted cs last hpasses⟩
  · cases hc : (attempt c).2 with
    | settle r => exact .inl ⟨r, rfl, id, failover_of_settle exhausted cs last hc⟩
    | skip => exact absurd (hc ▸ trivial) hpasses
    | next e => exact absurd (hc ▸ trivial) hpasses

/-- The effects of the loop begin with those of its first candidate. -/
theorem effects_failover_cons :
    ∃ rest, (failover attempt exhausted (c :: cs) last).effects = (attempt c).1 ++ rest := by
  cases hc : (attempt c).2 with
  | settle r => exact ⟨[], by rw [failover_of_settle exhausted cs last hc, List.append_nil]⟩
  | skip =>
    rcases failover_of_passes exhausted cs last (by rw [hc]; trivial) with ⟨last', hloop⟩
    exact ⟨_, by rw [hloop]⟩
  | next e =>
    rcases failover_of_passes exhausted cs last (by rw [hc]; trivial) with ⟨last', hloop⟩
    exact ⟨_, by rw [hloop]⟩

/-- The candidates that are tried. -/
def tried (attempt : κ → List ω × Attempt ε α) : List κ → List κ
  | [] => []
  | c :: cs =>
    c :: match (attempt c).2 with
      | .settle _ => []
      | .skip | .next _ => tried attempt cs

/-- Only candidates are tried. -/
theorem mem_of_mem_tried {c : κ} {cs : List κ} (h : c ∈ tried attempt cs) : c ∈ cs := by
  induction cs with
  | nil => cases h
  | cons d cs ih =>
    unfold tried at h
    split at h
    · exact List.mem_cons.mpr (.inl (List.mem_singleton.mp h))
    · exact List.mem_cons.mpr ((List.mem_cons.mp h).imp_right ih)
    · exact List.mem_cons.mpr ((List.mem_cons.mp h).imp_right ih)

/-- The loop has the effects of the candidates it tries, in order. -/
theorem effects_failover :
    (failover attempt exhausted cs last).effects =
      (tried attempt cs).flatMap fun c ↦ (attempt c).1 := by
  induction cs generalizing last with
  | nil => rfl
  | cons c cs ih =>
    unfold failover tried
    cases (attempt c).2 with
    | skip => simp [ih]
    | settle r => simp
    | next e => simp [ih]

/-- A loop that returns has tried a candidate that settled it so. -/
theorem exists_settle_of_ok {a : α} (h : (failover attempt exhausted cs last).result = .ok a) :
    ∃ c ∈ tried attempt cs, (attempt c).2 = .settle (.ok a) := by
  induction cs generalizing last with
  | nil => cases h
  | cons c cs ih =>
    unfold failover at h
    unfold tried
    cases hc : (attempt c).2 with
    | settle r =>
      rw [hc] at h
      exact ⟨c, List.mem_cons_self, hc.trans (congrArg Attempt.settle h)⟩
    | skip =>
      rw [hc] at h
      obtain ⟨d, hd, hsettle⟩ := ih last h
      exact ⟨d, List.mem_cons_of_mem _ hd, hsettle⟩
    | next e =>
      rw [hc] at h
      obtain ⟨d, hd, hsettle⟩ := ih (some e) h
      exact ⟨d, List.mem_cons_of_mem _ hd, hsettle⟩

/-- Going down the candidates past those that pass, one with a property comes. -/
def Gets (passes P : κ → Prop) : List κ → Prop
  | [] => False
  | c :: cs => P c ∨ passes c ∧ Gets passes P cs

theorem Gets.mono {passes passes' P P' : κ → Prop} (hpasses : ∀ c, passes c → passes' c)
    (hP : ∀ c, P c → P' c) {cs : List κ} (h : Gets passes P cs) : Gets passes' P' cs := by
  induction cs with
  | nil => exact h
  | cons c cs ih => exact h.imp (hP c) (And.imp (hpasses c) ih)

/-- The loop tries a candidate with a property precisely when one comes. -/
theorem exists_mem_tried_iff {P : κ → Prop} :
    (∃ c ∈ tried attempt cs, P c) ↔ Gets (fun c ↦ (attempt c).2.Passes) P cs := by
  induction cs with
  | nil => simp [tried, Gets]
  | cons c cs ih =>
    unfold tried Gets
    rw [← ih]
    cases (attempt c).2 <;> simp [Attempt.Passes]

/-- Two counts over a list of effect lists, one of them never the larger: they agree if and
only if they agree everywhere. -/
theorem countP_flatMap_eq_iff {P Q : ω → Bool} {f : κ → List ω} {ds : List κ}
    (h : ∀ d ∈ ds, (f d).countP P ≤ (f d).countP Q) :
    (ds.flatMap f).countP P ≤ (ds.flatMap f).countP Q ∧
      ((ds.flatMap f).countP P = (ds.flatMap f).countP Q ↔
        ∀ d ∈ ds, (f d).countP P = (f d).countP Q) := by
  induction ds with
  | nil => simp
  | cons d ds ih =>
    obtain ⟨hhead, htail⟩ := List.forall_mem_cons.mp h
    obtain ⟨hle, hiff⟩ := ih htail
    rw [List.flatMap_cons, List.countP_append, List.countP_append, List.forall_mem_cons, ← hiff]
    omega

/-- Two counts of the effects of a loop, one of them never the larger, agree if and only if
they agree for every candidate tried. -/
theorem countP_failover_eq_iff {P Q : ω → Bool}
    (h : ∀ c ∈ tried attempt cs, (attempt c).1.countP P ≤ (attempt c).1.countP Q) :
    (failover attempt exhausted cs last).effects.countP P =
        (failover attempt exhausted cs last).effects.countP Q ↔
      ∀ c ∈ tried attempt cs, (attempt c).1.countP P = (attempt c).1.countP Q := by
  rw [effects_failover]
  exact (countP_flatMap_eq_iff h).2

/-- An effect that no candidate has is not counted. -/
theorem countP_failover_eq_zero {P : ω → Bool} (h : ∀ c, (attempt c).1.countP P = 0) :
    (failover attempt exhausted cs last).effects.countP P = 0 := by
  rw [effects_failover]
  generalize tried attempt cs = ds
  induction ds with
  | nil => rfl
  | cons d ds ih => rw [List.flatMap_cons, List.countP_append, h d, ih]

end Failover

end WikiMind.Base
