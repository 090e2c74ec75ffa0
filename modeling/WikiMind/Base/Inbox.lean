import Mathlib.Data.List.Nodup

/-!
# Receivers that record what they processed

Library for message handlers that keep the keys of the messages they processed in their state
and skip a message whose key is there. Processing may fail, and then leaves the state as it
was. Whatever is delivered, in whatever order and however often, the final state is that of
processing some of the deliveries once each. Nothing here names the application.
-/

namespace WikiMind.Base

/-- A receiver: its messages have keys, processing adds the key of the message to those
recorded in the state. -/
structure Inbox (σ δ κ : Type*) where
  key : δ → κ
  recorded : σ → List κ
  process : σ → δ → Option σ
  recorded_process : ∀ {s d t}, process s d = some t → recorded t = recorded s ++ [key d]

namespace Inbox

variable {σ δ κ : Type*} [DecidableEq κ] (b : Inbox σ δ κ)

/-- Process a message whose key is not recorded; a failure leaves the state. -/
def receive (s : σ) (d : δ) : σ :=
  if b.key d ∈ b.recorded s then s else (b.process s d).getD s

/-- The deliveries that are processed, in order. -/
def processed : σ → List δ → List δ
  | _, [] => []
  | s, d :: ds =>
    if b.key d ∈ b.recorded s then processed s ds
    else
      match b.process s d with
      | none => processed s ds
      | some t => d :: processed t ds

variable {b}

@[simp] theorem processed_nil (s : σ) : b.processed s [] = [] := rfl

private theorem processed_cons (s : σ) (d : δ) (ds : List δ) :
    b.processed s (d :: ds) =
      if b.key d ∈ b.recorded s then b.processed s ds
      else
        match b.process s d with
        | none => b.processed s ds
        | some t => d :: b.processed t ds := rfl

/-- A delivery is skipped or fails, which changes nothing, or it is processed. -/
theorem receive_cases (b : Inbox σ δ κ) (s : σ) (d : δ) :
    (b.receive s d = s ∧ ∀ ds, b.processed s (d :: ds) = b.processed s ds) ∨
      ∃ t, b.key d ∉ b.recorded s ∧ b.process s d = some t ∧ b.receive s d = t ∧
        ∀ ds, b.processed s (d :: ds) = d :: b.processed t ds := by
  simp only [processed_cons, receive]
  by_cases hmem : b.key d ∈ b.recorded s
  · exact .inl ⟨if_pos hmem, fun ds ↦ if_pos hmem⟩
  · cases hprocess : b.process s d with
    | none => exact .inl ⟨by simp [hmem], fun ds ↦ by simp [hmem]⟩
    | some t => exact .inr ⟨t, hmem, rfl, by simp [hmem], fun ds ↦ by simp [hmem]⟩

/-- What is processed was delivered, in that order. -/
theorem processed_sublist (s : σ) (ds : List δ) : (b.processed s ds).Sublist ds := by
  induction ds generalizing s with
  | nil => exact .refl _
  | cons d ds ih =>
    rcases b.receive_cases s d with ⟨-, hskip⟩ | ⟨t, -, -, -, htake⟩
    · rw [hskip]
      exact (ih s).cons d
    · rw [htake]
      exact (ih t).cons_cons d

/-- The deliveries leave the state that processing those processed leaves, without a failure. -/
theorem foldlM_processed (s : σ) (ds : List δ) :
    (b.processed s ds).foldlM b.process s = some (ds.foldl b.receive s) := by
  induction ds generalizing s with
  | nil => rfl
  | cons d ds ih =>
    rw [List.foldl_cons]
    rcases b.receive_cases s d with ⟨hsame, hskip⟩ | ⟨t, -, hprocess, hnext, htake⟩
    · rw [hsame, hskip]
      exact ih s
    · rw [hnext, htake, List.foldlM_cons, hprocess]
      exact ih t

/-- No key is recorded twice, so no two processed deliveries have the same. -/
theorem nodup_recorded_foldl {s : σ} (h : (b.recorded s).Nodup) (ds : List δ) :
    (b.recorded (ds.foldl b.receive s)).Nodup := by
  induction ds generalizing s with
  | nil => exact h
  | cons d ds ih =>
    rw [List.foldl_cons]
    rcases b.receive_cases s d with ⟨hsame, -⟩ | ⟨t, hfresh, hprocess, hnext, -⟩
    · rw [hsame]
      exact ih h
    · rw [hnext]
      apply ih
      rw [b.recorded_process hprocess]
      exact List.nodup_append.mpr ⟨h, List.nodup_singleton _, fun k hk k' hk' heq ↦
        hfresh (List.mem_singleton.mp hk' ▸ heq ▸ hk)⟩

end Inbox

end WikiMind.Base
