import Piercloud.Construction.Client

/-
This file shows which handles the loop of `main` leaves open.
-/

namespace Piercloud.Client

open CLib Socket Loop Runs Nesting Connection

variable {cfg : Config} {statics : Statics} {a : Attempt}

/-- A turn leaves a descriptor open that `CloseConnection` refuses to close. -/
def Attempt.unclosed (a : Attempt) : Option Handle :=
  match serverConnection a.sys a.net with
  | .overrun => none
  | .returned c _ => if c = -1 ∨ 0 < c then none else some (.descriptor c)

end Piercloud.Client
