import WikiMind.Base.Rows

/-!
# Computations on a state that may raise

Library for code that writes as it goes and may stop with an exception: what it wrote
before stays. `exec` runs a computation, `Moves` relates the two states of every run of it,
`Returns` what it returns to them, and `Reaches` says which of its named steps may fail; each
has one rule for each way to build a computation. Nothing here names the application.
-/

namespace WikiMind.Base

/-- A computation on a state. After an exception the state is the one it had reached. -/
abbrev Stateful (σ ε α : Type) := ExceptT ε (StateM σ) α

namespace Stateful

variable {σ ε α β γ : Type}

/-- The outcome of a computation from a state, and the state it leaves. -/
def exec (x : Stateful σ ε α) (s : σ) : Except ε α × σ := x.run s

/-- A computation that only returns or raises. -/
def ofExcept : Except ε α → Stateful σ ε α
  | .ok a => pure a
  | .error e => throw e

@[simp] theorem exec_pure (a : α) (s : σ) :
    exec (pure a : Stateful σ ε α) s = (.ok a, s) := rfl

@[simp] theorem exec_throw (e : ε) (s : σ) :
    exec (throw e : Stateful σ ε α) s = (.error e, s) := rfl

@[simp] theorem exec_get (s : σ) : exec (get : Stateful σ ε σ) s = (.ok s, s) := rfl

@[simp] theorem exec_modify (f : σ → σ) (s : σ) :
    exec (modify f : Stateful σ ε PUnit) s = (.ok ⟨⟩, f s) := rfl

@[simp] theorem exec_ofExcept (x : Except ε α) (s : σ) :
    exec (ofExcept x : Stateful σ ε α) s = (x, s) := by
  cases x <;> rfl

/-- The second part runs where the first returned. -/
theorem exec_bind (x : Stateful σ ε α) (f : α → Stateful σ ε β) (s : σ) :
    exec (x >>= f) s =
      match exec x s with
      | (.ok a, t) => exec (f a) t
      | (.error e, t) => (.error e, t) := by
  have hrun : exec (x >>= f) s =
      (ExceptT.bindCont f (exec x s).1 : StateM σ (Except ε β)) (exec x s).2 := rfl
  rw [hrun]
  cases exec x s with
  | mk outcome t => cases outcome <;> rfl

/-- The handler runs in the state of the exception. -/
theorem exec_tryCatch (x : Stateful σ ε α) (handle : ε → Stateful σ ε α) (s : σ) :
    exec (tryCatch x handle) s =
      match exec x s with
      | (.ok a, t) => (.ok a, t)
      | (.error e, t) => exec (handle e) t := by
  have hrun : exec (tryCatch x handle) s =
      (match (exec x s).1 with
        | .ok a => (pure (Except.ok a) : StateM σ (Except ε α))
        | .error e => handle e) (exec x s).2 := rfl
  rw [hrun]
  cases exec x s with
  | mk outcome t => cases outcome <;> rfl

@[simp] theorem exec_map (f : α → β) (x : Stateful σ ε α) (s : σ) :
    exec (f <$> x) s = ((exec x s).1.map f, (exec x s).2) := by
  rw [← bind_pure_comp, exec_bind]
  cases exec x s with
  | mk outcome t => cases outcome <;> rfl

/-- A bind returns exactly when both of its parts do. -/
theorem exec_bind_eq_ok {x : Stateful σ ε α} {f : α → Stateful σ ε β} {s t : σ} {b : β} :
    exec (x >>= f) s = (.ok b, t) ↔
      ∃ a u, exec x s = (.ok a, u) ∧ exec (f a) u = (.ok b, t) := by
  rw [exec_bind]
  cases h : exec x s with
  | mk outcome u =>
    cases outcome with
    | error e => simp
    | ok a => simp

/-- Every run of the computation relates its two states by `R`. -/
def Moves (R : σ → σ → Prop) (x : Stateful σ ε α) : Prop := ∀ s, R s (exec x s).2

/-- What a computation returns, and the states before and after, are related by `Q`. -/
def Returns (x : Stateful σ ε α) (Q : σ → α → σ → Prop) : Prop :=
  ∀ s a t, exec x s = (.ok a, t) → Q s a t

section
variable {R : σ → σ → Prop} {x : Stateful σ ε α} {f : α → Stateful σ ε β}

/-- A value moves nothing. -/
theorem moves_pure [Std.Refl R] (a : α) : Moves R (pure a : Stateful σ ε α) :=
  fun s ↦ Std.Refl.refl s

/-- An exception moves nothing. -/
theorem moves_throw [Std.Refl R] (e : ε) : Moves R (throw e : Stateful σ ε α) :=
  fun s ↦ Std.Refl.refl s

/-- A result moves nothing. -/
theorem moves_ofExcept [Std.Refl R] (y : Except ε α) :
    Moves R (ofExcept y : Stateful σ ε α) := by
  intro s
  rw [exec_ofExcept]
  exact Std.Refl.refl s

/-- A change moves as it does. -/
theorem moves_modify {g : σ → σ} (h : ∀ s, R s (g s)) :
    Moves R (modify g : Stateful σ ε PUnit) := h

/-- The states a returning computation passes are related. -/
theorem Moves.of_exec (h : Moves R x) {s t : σ} {outcome : Except ε α}
    (hx : exec x s = (outcome, t)) : R s t := by
  simpa [hx] using h s

/-- The bind rule from one state. -/
theorem rel_bind [IsTrans σ R] {s : σ} (hx : R s (exec x s).2)
    (hf : ∀ a t, exec x s = (.ok a, t) → R t (exec (f a) t).2) :
    R s (exec (x >>= f) s).2 := by
  rw [exec_bind]
  cases h : exec x s with
  | mk outcome t =>
    rw [h] at hx
    cases outcome with
    | error e => exact hx
    | ok a => exact IsTrans.trans _ _ _ hx (hf a t h)

/-- The bind rule: the second part may use what is known where the first returned. -/
theorem moves_bind_of_returns [IsTrans σ R] {Q : σ → α → σ → Prop} (hx : Moves R x)
    (hQ : Returns x Q) (hf : ∀ s a t, Q s a t → R t (exec (f a) t).2) :
    Moves R (x >>= f) :=
  fun s ↦ rel_bind (hx s) fun a t h ↦ hf s a t (hQ s a t h)

/-- Moves one after the other. -/
theorem moves_bind [IsTrans σ R] (hx : Moves R x) (hf : ∀ a, Moves R (f a)) :
    Moves R (x >>= f) :=
  moves_bind_of_returns (Q := fun _ _ _ ↦ True) hx (fun _ _ _ _ ↦ trivial)
    fun _ a t _ ↦ hf a t

/-- A handler moves on. -/
theorem moves_tryCatch [IsTrans σ R] {handle : ε → Stateful σ ε α} (hx : Moves R x)
    (hh : ∀ e, Moves R (handle e)) : Moves R (tryCatch x handle) := by
  intro s
  rw [exec_tryCatch]
  cases h : exec x s with
  | mk outcome t =>
    cases outcome with
    | error e => exact IsTrans.trans _ _ _ (hx.of_exec h) (hh e t)
    | ok a => exact hx.of_exec h

/-- The loop rule from states with a property that the relation keeps. -/
theorem rel_foldlM [Std.Refl R] [IsTrans σ R] {I : σ → Prop} {g : γ → β → Stateful σ ε γ}
    {bs : List β} (hI : ∀ s t, R s t → I s → I t)
    (h : ∀ b ∈ bs, ∀ c s, I s → R s (exec (g c b) s).2) (c : γ) {s : σ} (hs : I s) :
    R s (exec (bs.foldlM g c) s).2 := by
  induction bs generalizing c s with
  | nil => exact Std.Refl.refl s
  | cons b bs ih =>
    have hhead := h b (List.mem_cons_self ..) c s hs
    rw [List.foldlM_cons, exec_bind]
    cases hb : exec (g c b) s with
    | mk outcome t =>
      rw [hb] at hhead
      cases outcome with
      | error e => exact hhead
      | ok d =>
        have htail := ih (fun b' hb' ↦ h b' (List.mem_cons_of_mem b hb')) d (hI s t hhead hs)
        exact IsTrans.trans _ _ _ hhead htail

/-- A loop moves as its steps do. -/
theorem moves_foldlM [Std.Refl R] [IsTrans σ R] {g : γ → β → Stateful σ ε γ}
    (h : ∀ c b, Moves R (g c b)) (bs : List β) (c : γ) : Moves R (bs.foldlM g c) :=
  fun _ ↦ rel_foldlM (I := fun _ ↦ True) (fun _ _ _ _ ↦ trivial) (fun b _ c s _ ↦ h c b s) c
    trivial

end

/-- The invariant rule of a loop that returns: `J` speaks of the elements done so far, the
accumulator and the state. -/
theorem returns_foldlM {J : List β → γ → σ → Prop} {g : γ → β → Stateful σ ε γ}
    {bs : List β} {c d : γ} {s t : σ} (h₀ : J [] c s)
    (hstep : ∀ done, ∀ b ∈ bs, ∀ c s c' t, J done c s → exec (g c b) s = (.ok c', t) →
      J (done ++ [b]) c' t)
    (h : exec (bs.foldlM g c) s = (.ok d, t)) : J bs d t := by
  induction bs generalizing J c s with
  | nil =>
    cases h
    exact h₀
  | cons b bs ih =>
    rw [List.foldlM_cons] at h
    obtain ⟨c', u, hhead, htail⟩ := exec_bind_eq_ok.mp h
    have hb := hstep [] b (List.mem_cons_self ..) c s c' u h₀ hhead
    refine ih (J := fun done ↦ J (b :: done)) hb ?_ htail
    intro done b' hb' e v e' w hJ hexec
    exact hstep (b :: done) b' (List.mem_cons_of_mem b hb') e v e' w hJ hexec

/-- A step that may fail by name. -/
def reach (fails : ε → Bool) (step : ε) : Stateful σ ε Unit :=
  if fails step then throw step else pure ()

/-- The computation reaches the steps in their order: it raises the first that fails, in a state
of `R`, and returns with `Q` where none does. -/
def Reaches (fails : ε → Bool) (steps : List ε) (x : Stateful σ ε α) (s : σ)
    (Q : α → σ → Prop) (R : ε → σ → Prop) : Prop :=
  match steps.find? fails with
  | some step => ∃ t, exec x s = (.error step, t) ∧ R step t
  | none => ∃ a t, exec x s = (.ok a, t) ∧ Q a t

section
variable {fails : ε → Bool} {step : ε} {steps : List ε} {s : σ} {Q : α → σ → Prop}
  {R : ε → σ → Prop}

/-- What reaches a goal depends on the execution only. -/
theorem Reaches.of_exec {x y : Stateful σ ε α} {t : σ} (h : Reaches fails steps x t Q R)
    (heq : exec y s = exec x t) : Reaches fails steps y s Q R := by
  unfold Reaches
  rw [heq]
  exact h

/-- A change reaches its result. -/
theorem reaches_modify {g : σ → σ} {Q : PUnit → σ → Prop} (h : Q ⟨⟩ (g s)) :
    Reaches fails [] (modify g : Stateful σ ε PUnit) s Q R := ⟨⟨⟩, g s, rfl, h⟩

/-- A step that is reached, and what follows it. -/
theorem reaches_reach_bind {f : Unit → Stateful σ ε α} (hR : R step s)
    (h : Reaches fails steps (f ()) s Q R) :
    Reaches fails (step :: steps) (reach fails step >>= f) s Q R := by
  unfold Reaches reach
  cases hstep : fails step with
  | true =>
    rw [List.find?_cons_of_pos hstep]
    exact ⟨s, rfl, hR⟩
  | false =>
    rw [List.find?_cons_of_neg (by simpa using hstep)]
    exact h

/-- A change, and what follows it. -/
theorem reaches_modify_bind {g : σ → σ} {f : PUnit → Stateful σ ε α}
    (h : Reaches fails steps (f ⟨⟩) (g s) Q R) :
    Reaches fails steps (modify g >>= f) s Q R := h.of_exec rfl

/-- A look at the state, and what follows it. -/
theorem reaches_get_bind {f : σ → Stateful σ ε α} (h : Reaches fails steps (f s) s Q R) :
    Reaches fails steps (get >>= f) s Q R := h.of_exec rfl

end

end Stateful

end WikiMind.Base
