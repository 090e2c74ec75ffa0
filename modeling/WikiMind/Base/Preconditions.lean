import WikiMind.Base.Stateful

/-!
# Weakest preconditions

Library for computations that return or raise: `wp x Q E s` says that from `s` the computation
returns with `Q` or raises with `E`. Each way to build a computation has an equation, so that what
a computation does is read off by rewriting. Nothing here names the application.
-/

namespace WikiMind.Base

/-- What returned has `Q`, and what was raised has `E`. -/
def Ends {ε α : Type} (Q : α → Prop) (E : ε → Prop) : Except ε α → Prop
  | .ok a => Q a
  | .error e => E e

namespace Stateful

variable {σ ε α β : Type} {Q : α → σ → Prop} {E : ε → σ → Prop} {s : σ}

/-- The computation returns with `Q` or raises with `E`. -/
def wp (x : Stateful σ ε α) (Q : α → σ → Prop) (E : ε → σ → Prop) (s : σ) : Prop :=
  Ends (Q · (exec x s).2) (E · (exec x s).2) (exec x s).1

/-- A value changes nothing. -/
theorem wp_pure {a : α} : wp (pure a) Q E s ↔ Q a s := Iff.rfl

/-- An exception changes nothing. -/
theorem wp_throw {e : ε} : wp (throw e) Q E s ↔ E e s := Iff.rfl

/-- A result changes nothing. -/
theorem wp_ofExcept {x : Except ε α} : wp (ofExcept x) Q E s ↔ Ends (Q · s) (E · s) x := by
  unfold wp
  rw [exec_ofExcept]

/-- The state is read. -/
theorem wp_get {Q : σ → σ → Prop} : wp get Q E s ↔ Q s s := Iff.rfl

/-- The rule of sequences. -/
theorem wp_bind {x : Stateful σ ε β} {f : β → Stateful σ ε α} :
    wp (x >>= f) Q E s ↔ wp x (fun b t ↦ wp (f b) Q E t) E s := by
  unfold wp
  rw [exec_bind]
  cases exec x s with
  | mk outcome t => cases outcome <;> rfl

/-- The rule of handlers. -/
theorem wp_tryCatch {x : Stateful σ ε α} {handle : ε → Stateful σ ε α} :
    wp (tryCatch x handle) Q E s ↔ wp x Q (fun e t ↦ wp (handle e) Q E t) s := by
  unfold wp
  rw [exec_tryCatch]
  cases exec x s with
  | mk outcome t => cases outcome <;> rfl

end Stateful

end WikiMind.Base
