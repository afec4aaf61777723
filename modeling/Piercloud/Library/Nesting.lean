import Piercloud.Library.Traces

/-
This file follows calls that open handles and close them, where the handle that was opened last is closed first.
-/

namespace Nesting

open Runs

variable {α : Type*}

/-- A call opens a handle or closes one. -/
inductive Bracket (α : Type*) where
  | opened (handle : α)
  | closed (handle : α)
  deriving DecidableEq, Repr

/-- The open handles stand in a stack, and only the first of them may be closed. -/
def step [DecidableEq α] : List α → Bracket α → Option (List α)
  | stack, .opened handle => some (handle :: stack)
  | [], .closed _ => none
  | top :: stack, .closed handle => if top = handle then some stack else none

variable [DecidableEq α]

/-- The calls close what they open except for these handles, and nothing else. -/
def Leaves (calls : List (Bracket α)) (left : List α) : Prop :=
  ∀ stack, run step stack calls = some (left ++ stack)

variable {calls more : List (Bracket α)} {left left' : List α}

theorem Leaves.nil : Leaves ([] : List (Bracket α)) [] := fun _ => rfl

theorem Leaves.single (handle : α) : Leaves [.opened handle] [handle] := fun _ => rfl

/-- What later calls leave stands on the stack of the earlier ones. -/
theorem Leaves.append (first : Leaves calls left) (later : Leaves more left') :
    Leaves (calls ++ more) (left' ++ left) := by
  intro stack
  rw [run_append, first stack, Option.bind_some, later, List.append_assoc]

end Nesting
