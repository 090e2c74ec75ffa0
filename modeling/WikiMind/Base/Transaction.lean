import WikiMind.Base.Stateful

/-!
# Database sessions

Library for handlers that write in a transaction and commit it. A session has the committed
store and the one its open transaction sees; closing it drops what is not committed. A
handler is `Silent` if it commits nothing. `close_commit_bind` splits a handler at a commit.
Nothing here names the application.
-/

namespace WikiMind.Base

/-- What is committed, and what the open transaction sees. -/
structure Session (σ : Type) where
  committed : σ
  working : σ
  deriving DecidableEq, Repr

namespace Session

variable {σ ε α β : Type}

/-- A new transaction sees what is committed. -/
def start (store : σ) : Session σ := ⟨store, store⟩

/-- A handler on a session that may raise. -/
abbrev Handler (σ ε α : Type) := Stateful (Session σ) ε α

open Stateful

/-- Change what the transaction sees. -/
def write (f : σ → σ) : Handler σ ε Unit := modify fun s ↦ { s with working := f s.working }

/-- What the transaction sees. -/
def read : Handler σ ε σ := do return (← get).working

/-- Make the writes of the transaction permanent. -/
def commit : Handler σ ε Unit := modify fun s ↦ start s.working

/-- Run a handler and close its session: the outcome, and what is committed then. -/
def close (x : Handler σ ε α) (s : Session σ) : Except ε α × σ :=
  ((exec x s).1, (exec x s).2.committed)

/-- Run a handler in a session of its own. -/
def serve (x : Handler σ ε α) (store : σ) : Except ε α × σ := close x (start store)

@[simp] theorem exec_write (f : σ → σ) (s : Session σ) :
    exec (write f : Handler σ ε Unit) s = (.ok (), { s with working := f s.working }) := rfl

@[simp] theorem exec_read (s : Session σ) :
    exec (read : Handler σ ε σ) s = (.ok s.working, s) := rfl

@[simp] theorem exec_commit (s : Session σ) :
    exec (commit : Handler σ ε Unit) s = (.ok (), start s.working) := rfl

/-- The committed store stays. -/
def SameCommitted (s t : Session σ) : Prop := t.committed = s.committed

instance : Std.Refl (SameCommitted (σ := σ)) := ⟨fun _ ↦ rfl⟩

instance : IsTrans (Session σ) SameCommitted := ⟨fun _ _ _ h h' ↦ h'.trans h⟩

/-- A handler that commits nothing. -/
def Silent (x : Handler σ ε α) : Prop := Moves SameCommitted x

/-- A value commits nothing. -/
theorem silent_pure (a : α) : Silent (pure a : Handler σ ε α) := moves_pure a

/-- An exception commits nothing. -/
theorem silent_throw (e : ε) : Silent (throw e : Handler σ ε α) := moves_throw e

/-- A result commits nothing. -/
theorem silent_ofExcept (y : Except ε α) : Silent (Stateful.ofExcept y : Handler σ ε α) :=
  moves_ofExcept y

/-- A write commits nothing. -/
theorem silent_write (f : σ → σ) : Silent (write f : Handler σ ε Unit) := fun _ ↦ rfl

/-- A look commits nothing. -/
theorem silent_read : Silent (read : Handler σ ε σ) := fun _ ↦ rfl

/-- Parts that commit nothing, one after the other. -/
theorem Silent.bind {x : Handler σ ε α} {f : α → Handler σ ε β} (hx : Silent x)
    (hf : ∀ a, Silent (f a)) : Silent (x >>= f) := moves_bind hx hf

/-- A request whose first part returned. -/
theorem close_bind_of_ok {x : Handler σ ε α} {s t : Session σ} {a : α}
    (h : exec x s = (.ok a, t)) (f : α → Handler σ ε β) : close (x >>= f) s = close (f a) t := by
  unfold close
  rw [exec_bind, h]

/-- A request whose first part raised. -/
theorem close_bind_of_error {x : Handler σ ε α} {s t : Session σ} {e : ε}
    (h : exec x s = (.error e, t)) (f : α → Handler σ ε β) :
    close (x >>= f) s = (.error e, t.committed) := by
  unfold close
  rw [exec_bind, h]

/-- A silent handler that raises leaves nothing behind, whatever was to follow it. -/
theorem Silent.close_bind_of_error {x : Handler σ ε α} (hx : Silent x) {s t : Session σ} {e : ε}
    (h : exec x s = (.error e, t)) (f : α → Handler σ ε β) :
    close (x >>= f) s = (.error e, s.committed) := by
  rw [Session.close_bind_of_error h, hx.of_exec h]

/-- After a commit a handler goes on as one of its own, from what is committed. -/
theorem close_commit_bind (f : Unit → Handler σ ε β) (s : Session σ) :
    close (commit >>= f) s = serve (f ()) s.working := close_bind_of_ok (exec_commit s) f

end Session

end WikiMind.Base
