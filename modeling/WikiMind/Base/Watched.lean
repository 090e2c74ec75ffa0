import WikiMind.Base.Stateful

/-!
# Watched computations

A computation beside which a list is kept: at the places where it is looked at, what is seen of
its state is added to the list. Without the list the computation is what it was. Nothing here
names the application.
-/

namespace WikiMind.Base.Stateful

variable {σ ω ε α β γ : Type}

/-- A computation that nobody looks at while it runs. -/
def unwatched (x : Stateful σ ε α) : Stateful (σ × List ω) ε α :=
  fun s ↦ ((exec x s.1).1, ((exec x s.1).2, s.2))

/-- Note what is seen of the state. -/
def look (sees : σ → ω) : Stateful (σ × List ω) ε Unit :=
  modify fun s ↦ (s.1, s.2 ++ [sees s.1])

/-- Without its list the first computation is the second. -/
def Erases (y : Stateful (σ × List ω) ε α) (x : Stateful σ ε α) : Prop :=
  ∀ s, exec x s.1 = ((exec y s).1, (exec y s).2.1)

@[simp] theorem exec_unwatched (x : Stateful σ ε α) (s : σ × List ω) :
    exec (unwatched x) s = ((exec x s.1).1, ((exec x s.1).2, s.2)) := rfl

@[simp] theorem exec_look (sees : σ → ω) (s : σ × List ω) :
    exec (look sees : Stateful (σ × List ω) ε Unit) s = (.ok (), (s.1, s.2 ++ [sees s.1])) := rfl

/-- What is not watched leaves the record. -/
theorem exec_unwatched_eq_ok {x : Stateful σ ε α} {s t : σ × List ω} {a : α}
    (h : exec (unwatched x) s = (.ok a, t)) : exec x s.1 = (.ok a, t.1) ∧ t.2 = s.2 := by
  rw [exec_unwatched] at h
  obtain ⟨houtcome, rfl⟩ := Prod.mk.inj h
  exact ⟨Prod.ext houtcome rfl, rfl⟩

/-- What is not watched, without the record. -/
theorem erases_unwatched (x : Stateful σ ε α) :
    Erases (unwatched x : Stateful (σ × List ω) ε α) x := fun _ ↦ rfl

/-- A value, without the record. -/
theorem erases_pure (a : α) : Erases (pure a : Stateful (σ × List ω) ε α) (pure a) := fun _ ↦ rfl

/-- Looking at the state changes nothing. -/
theorem erases_look_bind {sees : σ → ω} {y : Stateful (σ × List ω) ε α} {x : Stateful σ ε α}
    (h : Erases y x) : Erases (look sees >>= fun _ ↦ y) x :=
  fun s ↦ h (s.1, s.2 ++ [sees s.1])

/-- Parts one after the other, without the record. -/
theorem erases_bind {y : Stateful (σ × List ω) ε α} {x : Stateful σ ε α}
    {g : α → Stateful (σ × List ω) ε β} {f : α → Stateful σ ε β} (h : Erases y x)
    (hg : ∀ a, Erases (g a) (f a)) : Erases (y >>= g) (x >>= f) := by
  intro s
  rw [exec_bind, exec_bind, h s]
  cases hy : exec y s with
  | mk outcome t =>
    cases outcome with
    | error e => rfl
    | ok a => exact hg a t

/-- A loop, without the record. -/
theorem erases_foldlM {g : γ → β → Stateful (σ × List ω) ε γ} {f : γ → β → Stateful σ ε γ}
    (h : ∀ c b, Erases (g c b) (f c b)) (bs : List β) (c : γ) :
    Erases (bs.foldlM g c) (bs.foldlM f c) := by
  induction bs generalizing c with
  | nil => exact erases_pure c
  | cons b bs ih =>
    rw [List.foldlM_cons, List.foldlM_cons]
    exact erases_bind (h c b) ih

end WikiMind.Base.Stateful
