import Piercloud.Library.Traces

namespace Runs

variable {σ α β : Type*}

/-- A component of a machine takes a step of its own, or it stays where it is. -/
def advance (step : σ → α → Option σ) (s : σ) : Option α → Option σ
  | none => some s
  | some a => step s a

/-- In a step of the machine a component stays where it is, or it takes the step that it sees. -/
theorem advance_cases {step : σ → α → Option σ} {s t : σ} {view : Option α} (next : advance step s view = some t) :
    (view = none ∧ t = s) ∨ ∃ a, view = some a ∧ step s a = some t := by
  cases view with
  | none => exact Or.inl ⟨rfl, (Option.some.inj next).symm⟩
  | some a => exact Or.inr ⟨a, rfl, next⟩

section Feed

variable {step : σ → α → Option (σ × β)} {s t : σ} {front : List α}

/-- One more input is taken where the others end. -/
theorem feed_snoc {u : σ} {output : β} {a : α} (before : (feed step s front).2 = some t)
    (next : step t a = some (u, output)) :
    feed step s (front ++ [a]) = ((feed step s front).1 ++ [output], some u) := by
  induction front generalizing s with
  | nil =>
      obtain rfl := Option.some.inj before
      exact feed_cons next []
  | cons b front ih =>
      cases first : step s b with
      | none => simp [feed_cons_stopped first] at before
      | some pair =>
          have here : step s b = some (pair.1, pair.2) := first
          rw [feed_cons here] at before
          rw [List.cons_append, feed_cons here, feed_cons here, ih before]
          rfl

/-- One more input ends the machine where it gives no step. -/
theorem feed_snoc_stopped {a : α} (before : (feed step s front).2 = some t) (stopped : step t a = none) :
    feed step s (front ++ [a]) = ((feed step s front).1, none) := by
  induction front generalizing s with
  | nil =>
      obtain rfl := Option.some.inj before
      exact feed_cons_stopped stopped []
  | cons b front ih =>
      cases first : step s b with
      | none => simp [feed_cons_stopped first] at before
      | some pair =>
          have here : step s b = some (pair.1, pair.2) := first
          rw [feed_cons here] at before
          rw [List.cons_append, feed_cons here, feed_cons here, ih before]

end Feed

end Runs
