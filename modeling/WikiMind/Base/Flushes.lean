import WikiMind.Base.Preconditions

/-!
# Sessions that a failed flush breaks

Library for a database session beside a storage that takes no part in transactions. The session
holds changes until it commits them. When the changes cannot be flushed, the session rejects every
later operation; changing what it holds is no operation. Nothing here names the application.
-/

namespace WikiMind.Base

/-- What is committed, what the session holds, whether a flush has failed, and the storage. -/
structure UnitOfWork (σ φ : Type) where
  committed : σ
  held : σ
  broken : Bool
  storage : φ

namespace UnitOfWork

variable {σ φ ε α : Type}

/-- A handler on a session that may raise. -/
abbrev Handler (σ φ ε α : Type) := Stateful (UnitOfWork σ φ) ε α

open Stateful

/-- A session that holds no change. -/
def start (committed : σ) (storage : φ) : UnitOfWork σ φ := ⟨committed, committed, false, storage⟩

/-- Change what the session holds. -/
def hold (f : σ → σ) : Handler σ φ ε Unit := modify fun s ↦ { s with held := f s.held }

/-- What the session holds. -/
def held? : Handler σ φ ε σ := do return (← get).held

/-- Change the storage. -/
def store (f : φ → φ) : Handler σ φ ε Unit := modify fun s ↦ { s with storage := f s.storage }

/-- An operation with an outcome; a broken session rejects it. -/
def query (rejected : ε) (outcome : Except ε α) : Handler σ φ ε α := do
  if (← get).broken then throw rejected else Stateful.ofExcept outcome

/-- A flush; if it fails, the session is broken. -/
def flush (rejected : ε) (outcome : Except ε Unit) : Handler σ φ ε Unit := do
  query rejected (.ok ())
  match outcome with
  | .ok () => pure ()
  | .error e => do
    modify fun s ↦ { s with broken := true }
    throw e

/-- Make what the session holds permanent. -/
def commit (rejected : ε) : Handler σ φ ε Unit := do
  query rejected (.ok ())
  modify fun s ↦ { s with committed := s.held }

section Rules

variable {rejected : ε} {E : ε → UnitOfWork σ φ → Prop} {s : UnitOfWork σ φ}

/-- What holds after a change of what the session holds. -/
theorem wp_hold {f : σ → σ} {Q : Unit → UnitOfWork σ φ → Prop} :
    wp (hold f) Q E s ↔ Q () { s with held := f s.held } := Iff.rfl

/-- A query in a broken session is rejected. -/
theorem wp_query {outcome : Except ε α} {Q : α → UnitOfWork σ φ → Prop} :
    wp (query rejected outcome) Q E s ↔
      if s.broken then E rejected s else Ends (Q · s) (E · s) outcome := by
  unfold query
  rw [wp_bind, wp_get]
  split
  · exact wp_throw
  · exact wp_ofExcept

/-- A flush that fails breaks the session. -/
theorem wp_flush {outcome : Except ε Unit} {Q : Unit → UnitOfWork σ φ → Prop} :
    wp (flush rejected outcome) Q E s ↔
      if s.broken then E rejected s
      else Ends (Q · s) (E · { s with broken := true }) outcome := by
  unfold flush
  rw [wp_bind, wp_query]
  cases outcome <;> rfl

/-- A commit stores what the session holds. -/
theorem wp_commit {Q : Unit → UnitOfWork σ φ → Prop} :
    wp (commit rejected) Q E s ↔
      if s.broken then E rejected s else Q () { s with committed := s.held } := by
  unfold commit
  rw [wp_bind, wp_query]
  rfl

end Rules

end UnitOfWork

end WikiMind.Base
