import WikiMind.Base.Rows

/-!
# Parties of an interleaving

Library for systems in which parties run the same code side by side. A party has a number,
its data, which never change, and a phase, which its steps move on. `AtMostOne` says that
of the parties that share a key at most one is inside a part of the code; each move keeps
it, or does so under a condition on the other parties. Nothing here names the application.
-/

namespace WikiMind.Base

/-- A party of an interleaving. -/
structure Party (δ φ : Type) where
  id : Nat
  data : δ
  phase : φ
  deriving DecidableEq, Repr

/-- All parties so far. -/
abbrev Parties (δ φ : Type) := List (Party δ φ)

namespace Parties

variable {δ φ κ : Type}

/-- The party of a number. -/
def get? (ps : Parties δ φ) (r : Nat) : Option (Party δ φ) := ps.find? (·.id = r)

/-- A party goes on to a phase. -/
def goto (ps : Parties δ φ) (r : Nat) (phase : φ) : Parties δ φ :=
  Rows.modify (·.id = r) (fun q ↦ { q with phase }) ps

/-- A party enters, unless its number is taken. -/
def enter (ps : Parties δ φ) (r : Nat) (data : δ) (phase : φ) : Option (Parties δ φ) :=
  if (ps.get? r).isSome then none else some (⟨r, data, phase⟩ :: ps)

/-- Every party has a number of its own. -/
def Distinct (ps : Parties δ φ) : Prop := (ps.map Party.id).Nodup

/-- Of the parties that share a key, at most one is inside. -/
def AtMostOne (inside : φ → Bool) (key : δ → κ) (ps : Parties δ φ) : Prop :=
  ∀ q ∈ ps, ∀ q' ∈ ps, inside q.phase = true → inside q'.phase = true →
    key q.data = key q'.data → q.id = q'.id

instance (inside : φ → Bool) (key : δ → κ) [DecidableEq κ] (ps : Parties δ φ) :
    Decidable (ps.AtMostOne inside key) :=
  inferInstanceAs (Decidable (∀ q ∈ ps, ∀ q' ∈ ps, inside q.phase = true →
    inside q'.phase = true → key q.data = key q'.data → q.id = q'.id))

/-- No other party with the key is inside. -/
def Alone (inside : φ → Bool) (key : δ → κ) (ps : Parties δ φ) (q : Party δ φ) : Prop :=
  ∀ q' ∈ ps, q'.id ≠ q.id → key q'.data = key q.data → inside q'.phase = false

instance (inside : φ → Bool) (key : δ → κ) [DecidableEq κ] (ps : Parties δ φ)
    (q : Party δ φ) : Decidable (ps.Alone inside key q) :=
  inferInstanceAs (Decidable (∀ q' ∈ ps, q'.id ≠ q.id → key q'.data = key q.data →
    inside q'.phase = false))

/-- Nobody is there yet. -/
theorem distinct_nil : Distinct ([] : Parties δ φ) := List.nodup_nil

/-- Nobody is inside. -/
theorem atMostOne_nil (inside : φ → Bool) (key : δ → κ) :
    AtMostOne inside key ([] : Parties δ φ) := by
  intro q hq
  cases hq

section
variable {ps qs : Parties δ φ} {r : Nat} {q : Party δ φ} {data : δ} {phase : φ}
  {inside : φ → Bool} {key : δ → κ}

/-- The party of a number. -/
theorem get?_eq_some (hps : ps.Distinct) : ps.get? r = some q ↔ q ∈ ps ∧ q.id = r := by
  unfold get?
  constructor
  · intro h
    exact ⟨List.mem_of_find?_eq_some h, by simpa using List.find?_some h⟩
  · rintro ⟨hq, rfl⟩
    exact Rows.find?_of_nodup hps hq

/-- A step of a party finds it. -/
theorem exists_of_bind {α : Type} {f : Party δ φ → Option α} {a : α} (hps : ps.Distinct)
    (h : (ps.get? r).bind f = some a) : ∃ q ∈ ps, q.id = r ∧ f q = some a := by
  obtain ⟨q, hq, hf⟩ := Option.bind_eq_some_iff.mp h
  obtain ⟨hmem, hid⟩ := (get?_eq_some hps).mp hq
  exact ⟨q, hmem, hid, hf⟩

/-- What holds of all parties after one of them went on. -/
theorem forall_goto {P : Party δ φ → Prop} (hps : ps.Distinct) (hq : q ∈ ps) :
    (∀ q' ∈ ps.goto q.id phase, P q') ↔
      P { q with phase } ∧ ∀ q' ∈ ps, q'.id ≠ q.id → P q' := by
  unfold goto
  rw [Rows.forall_modify]
  constructor
  · rintro ⟨hself, hother⟩
    exact ⟨hself q hq (by simp), fun q' hq' hne ↦ hother q' hq' (by simpa using hne)⟩
  · rintro ⟨hself, hother⟩
    refine ⟨fun q' hq' hid ↦ ?_, fun q' hq' hne ↦ hother q' hq' (by simpa using hne)⟩
    rw [Rows.eq_of_nodup hps hq hq' (by simpa using hid)]
    exact hself

/-- Going on keeps the numbers. -/
theorem distinct_goto (hps : ps.Distinct) : (ps.goto r phase).Distinct := by
  have hids : (ps.goto r phase).map Party.id = ps.map Party.id :=
    Rows.map_modify fun _ _ _ ↦ rfl
  unfold Distinct
  rw [hids]
  exact hps

/-- A party enters with a number of its own. -/
theorem enter_eq_some : ps.enter r data phase = some qs ↔
    (∀ q ∈ ps, q.id ≠ r) ∧ qs = ⟨r, data, phase⟩ :: ps := by
  unfold enter get?
  rw [Option.ite_none_left_eq_some, Option.some.injEq, eq_comm (a := qs)]
  simp [List.find?_isSome]

/-- Entering keeps the numbers distinct. -/
theorem distinct_enter (hps : ps.Distinct) (h : ps.enter r data phase = some qs) :
    qs.Distinct := by
  obtain ⟨hfresh, rfl⟩ := enter_eq_some.mp h
  exact List.nodup_cons.mpr ⟨by simpa using hfresh, hps⟩

/-- A party that enters outside disturbs nobody. -/
theorem atMostOne_enter (h : ps.AtMostOne inside key) (hphase : inside phase = false)
    (henter : ps.enter r data phase = some qs) : qs.AtMostOne inside key := by
  obtain ⟨_, rfl⟩ := enter_eq_some.mp henter
  intro q hq q' hq' hin hin' hkey
  rcases List.mem_cons.mp hq with rfl | hold
  · rw [hphase] at hin
    cases hin
  · rcases List.mem_cons.mp hq' with rfl | hold'
    · rw [hphase] at hin'
      cases hin'
    · exact h q hold q' hold' hin hin' hkey

/-- A party that goes outside disturbs nobody. -/
theorem atMostOne_goto_outside (hps : ps.Distinct) (h : ps.AtMostOne inside key) (hq : q ∈ ps)
    (hphase : inside phase = false) : (ps.goto q.id phase).AtMostOne inside key := by
  unfold AtMostOne
  rw [forall_goto hps hq]
  constructor
  · intro q' _ hin
    rw [hphase] at hin
    cases hin
  · intro a ha _
    rw [forall_goto hps hq]
    constructor
    · intro _ hin
      rw [hphase] at hin
      cases hin
    · exact fun b hb _ ↦ h a ha b hb

/-- A party goes inside, or on within, precisely where no other party of its key is
inside. -/
theorem atMostOne_goto_inside_iff (hps : ps.Distinct) (h : ps.AtMostOne inside key)
    (hq : q ∈ ps) (hphase : inside phase = true) :
    (ps.goto q.id phase).AtMostOne inside key ↔ ps.Alone inside key q := by
  unfold AtMostOne
  rw [forall_goto hps hq]
  simp only [forall_goto hps hq, hphase, true_implies, implies_true, true_and]
  constructor
  · rintro ⟨hself, _⟩ q' hq' hne hkey
    by_contra hin
    exact hne (hself q' hq' hne (by simpa using hin) hkey.symm).symm
  · intro halone
    have hfree (q' : Party δ φ) (hq' : q' ∈ ps) (hne : q'.id ≠ q.id)
        (hin : inside q'.phase = true) (hkey : key q'.data = key q.data) : False := by
      rw [halone q' hq' hne hkey] at hin
      cases hin
    refine ⟨fun q' hq' hne hin hkey ↦ (hfree q' hq' hne hin hkey.symm).elim, ?_⟩
    intro a ha hne
    refine ⟨fun hin hkey ↦ (hfree a ha hne hin hkey).elim, ?_⟩
    exact fun b hb _ ↦ h a ha b hb

/-- A party that is inside is alone. -/
theorem AtMostOne.alone (h : ps.AtMostOne inside key) (hq : q ∈ ps)
    (hin : inside q.phase = true) : ps.Alone inside key q := by
  intro q' hq' hne hkey
  by_contra hin'
  exact hne (h q' hq' q hq (by simpa using hin') hin hkey)

end

end Parties

end WikiMind.Base
