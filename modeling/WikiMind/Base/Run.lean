import Mathlib.Data.List.Basic

/-!
# Runs of a partial step function

Library for whole-run statements. A machine is a step function that may refuse
an event; a run folds a list of events. `Always` states a property of every state
a run reaches and `Guarded` states a condition on every step in its pre-state.
The invariant rules connect the two. Nothing here names the application.
-/

namespace WikiMind.Base

/-- A deterministic labelled transition system; `none` means the event is not enabled. -/
structure Machine (σ ε : Type*) where
  step : σ → ε → Option σ

namespace Machine

variable {σ ε τ : Type*} (m : Machine σ ε)

/-- The machine of a total step function: every event is enabled. -/
def ofFun (f : σ → ε → σ) : Machine σ ε := ⟨fun s e ↦ some (f s e)⟩

/-- Perform the events in order; `none` as soon as one of them is not enabled. -/
def run : σ → List ε → Option σ
  | s, [] => some s
  | s, e :: es => (m.step s e).bind fun t ↦ run t es

/-- `P` holds in the start state and in every state the events reach. -/
def Always (P : σ → Prop) : σ → List ε → Prop
  | s, [] => P s
  | s, e :: es => P s ∧ ∀ t, m.step s e = some t → Always P t es

/-- Every enabled step of the run meets `G` in the state it is taken from. -/
def Guarded (G : σ → ε → Prop) : σ → List ε → Prop
  | _, [] => True
  | s, e :: es => ∀ t, m.step s e = some t → G s e ∧ Guarded G t es

/-- Every enabled step of the run relates its two states by `R`. -/
def Steps (R : σ → ε → σ → Prop) : σ → List ε → Prop
  | _, [] => True
  | s, e :: es => ∀ t, m.step s e = some t → R s e t ∧ Steps R t es

/-- `s` is reachable from `s₀`: some list of events runs from the one to the other. -/
def Reachable (s₀ s : σ) : Prop := ∃ es, m.run s₀ es = some s

@[simp] theorem step_ofFun (f : σ → ε → σ) (s : σ) (e : ε) :
    (ofFun f).step s e = some (f s e) := rfl

@[simp] theorem run_nil (s : σ) : m.run s [] = some s := rfl

@[simp] theorem run_cons (s : σ) (e : ε) (es : List ε) :
    m.run s (e :: es) = (m.step s e).bind fun t ↦ m.run t es := rfl

/-- A run of total steps is a left fold. -/
theorem run_ofFun (f : σ → ε → σ) (s : σ) (es : List ε) :
    (ofFun f).run s es = some (es.foldl f s) := by
  induction es generalizing s with
  | nil => rfl
  | cons e es ih => exact ih (f s e)

/-- A run over an appended list is the second run after the first. -/
theorem run_append (s : σ) (es fs : List ε) :
    m.run s (es ++ fs) = (m.run s es).bind fun t ↦ m.run t fs := by
  induction es generalizing s with
  | nil => rfl
  | cons e es ih =>
    cases h : m.step s e with
    | none => simp [h]
    | some t => simpa [h] using ih t

/-- `Always` speaks of exactly the states reached by the prefixes of the run. -/
theorem always_iff_forall (P : σ → Prop) (s : σ) (es : List ε) :
    m.Always P s es ↔ ∀ pre, pre <+: es → ∀ t, m.run s pre = some t → P t := by
  induction es generalizing s with
  | nil =>
    constructor
    · intro h pre hp t ht
      rw [List.prefix_nil.mp hp] at ht
      cases ht
      exact h
    · intro h
      exact h [] (List.prefix_refl _) s rfl
  | cons e es ih =>
    constructor
    · intro ⟨hs, hnext⟩ pre hp t ht
      cases pre with
      | nil => cases ht; exact hs
      | cons e' pre =>
        obtain ⟨rfl, hp'⟩ := List.cons_prefix_cons.mp hp
        obtain ⟨u, hu, hrun⟩ := Option.bind_eq_some_iff.mp ht
        exact (ih u).mp (hnext u hu) pre hp' t hrun
    · intro h
      refine ⟨h [] (List.nil_prefix) s rfl, fun t ht ↦ (ih t).mpr ?_⟩
      intro pre hp u hu
      apply h (e :: pre) (List.cons_prefix_cons.mpr ⟨rfl, hp⟩) u
      simpa [ht] using hu

/-- A property of every reached state may be weakened. -/
theorem Always.mono {P Q : σ → Prop} (hPQ : ∀ s, P s → Q s) {s : σ} {es : List ε}
    (h : m.Always P s es) : m.Always Q s es := by
  rw [always_iff_forall] at h ⊢
  exact fun pre hp t ht ↦ hPQ t (h pre hp t ht)

/-- The invariant rule: an invariant kept by every guarded step holds in every state
a guarded run reaches. -/
theorem always_of_guarded {I : σ → Prop} {G : σ → ε → Prop}
    (hstep : ∀ s e t, I s → G s e → m.step s e = some t → I t)
    {s : σ} {es : List ε} (h₀ : I s) (hg : m.Guarded G s es) : m.Always I s es := by
  induction es generalizing s with
  | nil => exact h₀
  | cons e es ih =>
    refine ⟨h₀, fun t ht ↦ ?_⟩
    obtain ⟨hG, hrest⟩ := hg t ht
    exact ih (hstep s e t h₀ hG ht) hrest

/-- A condition on the events alone guards every run of such events. -/
theorem guarded_of_forall {G : ε → Prop} {s : σ} {es : List ε} (h : ∀ e ∈ es, G e) :
    m.Guarded (fun _ ↦ G) s es := by
  induction es generalizing s with
  | nil => trivial
  | cons e es ih =>
    intro t _
    exact ⟨h e (List.mem_cons_self ..), ih fun e' he' ↦ h e' (List.mem_cons_of_mem e he')⟩

/-- The step rule: what guarded steps from states with the invariant do, all steps of a
guarded run do. -/
theorem steps_of_guarded {I : σ → Prop} {G : σ → ε → Prop} {R : σ → ε → σ → Prop}
    (hstep : ∀ s e t, I s → G s e → m.step s e = some t → I t ∧ R s e t)
    {s : σ} {es : List ε} (h₀ : I s) (hg : m.Guarded G s es) : m.Steps R s es := by
  induction es generalizing s with
  | nil => trivial
  | cons e es ih =>
    intro t ht
    obtain ⟨hG, hrest⟩ := hg t ht
    obtain ⟨hI, hR⟩ := hstep s e t h₀ hG ht
    exact ⟨hR, ih hI hrest⟩

/-- A guard in the place of another: steps that meet the one from states with the invariant meet
the other. -/
theorem guarded_of_guarded {I : σ → Prop} {G H : σ → ε → Prop}
    (hstep : ∀ s e t, I s → G s e → m.step s e = some t → I t ∧ H s e)
    {s : σ} {es : List ε} (h₀ : I s) (hg : m.Guarded G s es) : m.Guarded H s es := by
  induction es generalizing s with
  | nil => trivial
  | cons e es ih =>
    intro t ht
    obtain ⟨hG, hrest⟩ := hg t ht
    obtain ⟨hI, hH⟩ := hstep s e t h₀ hG ht
    exact ⟨hH, ih hI hrest⟩

/-- The invariant rule without guards. -/
theorem always_of_invariant {I : σ → Prop}
    (hstep : ∀ s e t, I s → m.step s e = some t → I t)
    {s : σ} (es : List ε) (h₀ : I s) : m.Always I s es := by
  induction es generalizing s with
  | nil => exact h₀
  | cons e es ih => exact ⟨h₀, fun t ht ↦ ih (hstep s e t h₀ ht)⟩

/-- The exact form, over a background invariant `W` of every step: if a step from a state
with `I` keeps `I` precisely when the guard holds, then a run keeps it throughout
precisely when all its steps are guarded. -/
theorem always_iff_guarded {W I : σ → Prop} {G : σ → ε → Prop}
    (hW : ∀ s e t, W s → m.step s e = some t → W t)
    (hstep : ∀ s e t, W s → I s → m.step s e = some t → (I t ↔ G s e))
    {s : σ} (h₀ : W s) (es : List ε) : m.Always I s es ↔ I s ∧ m.Guarded G s es := by
  induction es generalizing s with
  | nil => simp [Always, Guarded]
  | cons e es ih =>
    constructor
    · intro ⟨hs, hnext⟩
      refine ⟨hs, fun t ht ↦ ?_⟩
      obtain ⟨hI, hrest⟩ := (ih (hW s e t h₀ ht)).mp (hnext t ht)
      exact ⟨(hstep s e t h₀ hs ht).mp hI, hrest⟩
    · intro ⟨hs, hg⟩
      refine ⟨hs, fun t ht ↦ ?_⟩
      obtain ⟨hG, hrest⟩ := hg t ht
      exact (ih (hW s e t h₀ ht)).mpr ⟨(hstep s e t h₀ hs ht).mpr hG, hrest⟩

/-- The exact form for a property that is no invariant by itself: it follows from a stronger
one, which guarded steps keep, and a step that is not guarded breaks it at once. -/
theorem always_iff_guarded_of {W I P : σ → Prop} {G : σ → ε → Prop}
    (hW : ∀ s e t, W s → m.step s e = some t → W t) (hP : ∀ s, W s → I s → P s)
    (hkeep : ∀ s e t, W s → I s → G s e → m.step s e = some t → I t)
    (hbreak : ∀ s e t, W s → I s → m.step s e = some t → P t → G s e)
    {s : σ} (h₀ : W s) (hI : I s) (es : List ε) : m.Always P s es ↔ m.Guarded G s es := by
  induction es generalizing s with
  | nil => simp [Always, Guarded, hP s h₀ hI]
  | cons e es ih =>
    constructor
    · intro ⟨_, hnext⟩ t ht
      have hPt : P t := by
        cases es with
        | nil => exact hnext t ht
        | cons e' rest => exact (hnext t ht).1
      have hG := hbreak s e t h₀ hI ht hPt
      exact ⟨hG, (ih (hW s e t h₀ ht) (hkeep s e t h₀ hI hG ht)).mp (hnext t ht)⟩
    · intro hg
      refine ⟨hP s h₀ hI, fun t ht ↦ ?_⟩
      obtain ⟨hG, hrest⟩ := hg t ht
      exact (ih (hW s e t h₀ ht) (hkeep s e t h₀ hI hG ht)).mpr hrest

/-- The exact form for steps: if a step relates its states by `R` precisely when the guard
holds, then all steps of a run do precisely when all are guarded. -/
theorem steps_iff_guarded {W : σ → Prop} {G : σ → ε → Prop} {R : σ → ε → σ → Prop}
    (hW : ∀ s e t, W s → m.step s e = some t → W t)
    (hstep : ∀ s e t, W s → m.step s e = some t → (R s e t ↔ G s e))
    {s : σ} (h₀ : W s) (es : List ε) : m.Steps R s es ↔ m.Guarded G s es := by
  induction es generalizing s with
  | nil => simp [Steps, Guarded]
  | cons e es ih =>
    unfold Steps Guarded
    apply forall_congr'
    intro t
    apply forall_congr'
    intro ht
    rw [hstep s e t h₀ ht, ih (hW s e t h₀ ht)]

/-- A guarded run ends in a state with the invariant. -/
theorem invariant_of_guarded {I : σ → Prop} {G : σ → ε → Prop}
    (hstep : ∀ s e t, I s → G s e → m.step s e = some t → I t)
    {s t : σ} {es : List ε} (h₀ : I s) (hg : m.Guarded G s es)
    (hrun : m.run s es = some t) : I t :=
  (m.always_iff_forall I s es).mp (m.always_of_guarded hstep h₀ hg) es
    (List.prefix_refl es) t hrun

/-- An invariant of every step holds in every reachable state. -/
theorem invariant_of_reachable {I : σ → Prop}
    (hstep : ∀ s e t, I s → m.step s e = some t → I t)
    {s t : σ} (h₀ : I s) (hr : m.Reachable s t) : I t := by
  obtain ⟨es, hrun⟩ := hr
  exact (m.always_iff_forall I s es).mp (m.always_of_invariant hstep es h₀) es
    (List.prefix_refl es) t hrun

/-- Guards of an appended run: those of the first part, then those of the second from
the state between them. -/
theorem guarded_append {G : σ → ε → Prop} {s t : σ} {es : List ε} (fs : List ε)
    (hrun : m.run s es = some t) :
    m.Guarded G s (es ++ fs) ↔ m.Guarded G s es ∧ m.Guarded G t fs := by
  induction es generalizing s with
  | nil => cases hrun; simp [Guarded]
  | cons e es ih =>
    obtain ⟨u, hu, hrest⟩ := Option.bind_eq_some_iff.mp hrun
    simp only [List.cons_append, Guarded, hu, Option.some.injEq, forall_eq', ih hrest,
      and_assoc]

instance decidableGuarded (G : σ → ε → Prop) [∀ s e, Decidable (G s e)] :
    ∀ s es, Decidable (m.Guarded G s es)
  | _, [] => .isTrue trivial
  | s, e :: es =>
    match h : m.step s e with
    | none => .isTrue fun t ht ↦ by rw [h] at ht; cases ht
    | some t =>
      have := decidableGuarded G t es
      decidable_of_iff (G s e ∧ m.Guarded G t es)
        (by simp only [Guarded, h, Option.some.injEq, forall_eq'])

instance decidableAlways (P : σ → Prop) [∀ s, Decidable (P s)] :
    ∀ s es, Decidable (m.Always P s es)
  | s, [] => inferInstanceAs (Decidable (P s))
  | s, e :: es =>
    match h : m.step s e with
    | none =>
      decidable_of_iff (P s) (by simp [Always, h])
    | some t =>
      have := decidableAlways P t es
      decidable_of_iff (P s ∧ m.Always P t es)
        (by simp only [Always, h, Option.some.injEq, forall_eq'])

instance decidableSteps (R : σ → ε → σ → Prop) [∀ s e t, Decidable (R s e t)] :
    ∀ s es, Decidable (m.Steps R s es)
  | _, [] => .isTrue trivial
  | s, e :: es =>
    match h : m.step s e with
    | none => .isTrue fun t ht ↦ by rw [h] at ht; cases ht
    | some t =>
      have := decidableSteps R t es
      decidable_of_iff (R s e t ∧ m.Steps R t es)
        (by simp only [Steps, h, Option.some.injEq, forall_eq'])

end Machine

end WikiMind.Base
