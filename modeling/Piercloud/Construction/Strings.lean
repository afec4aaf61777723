import Piercloud.Construction.Blocks
import Piercloud.Library.Numeral

/-
This file embeds `chopStr` and `trimStr` of `liblst.c` on blocks of memory. The result is the block of the string behind
the call. A call that stops leaves the block as it was.
-/

namespace Piercloud.Blocks

open CLib Loop Liblst

/-- The newlines are deleted, and then the carriage returns. Each of the two calls has its own outcomes of memory. -/
def chopStr (first second : Block.Allocator) (s : Option Bytes) (fuel : Nat) : Option (Except Stop Bytes) :=
  match s with
  | none => some (.error (.failed EINVAL))
  | some s =>
      match ptReplaceStr first (some s) (some [LF, NUL]) (some [NUL]) fuel with
      | none => none
      | some (.error stop) => some (.error stop)
      | some (.ok t) =>
          match ptReplaceStr second (some t) (some [CR, NUL]) (some [NUL]) fuel with
          | none => none
          | some (.error stop) => some (.error stop)
          | some (.ok t2) => some (access (Block.strcpy s t2 0))

/-- White space at the front is overwritten, and `p` goes behind it. -/
def trimFrontNext (s : Bytes × Nat) : Except Stop (Bytes × Nat ⊕ Bytes × Nat) := do
  let (copy, p) := s
  let c ← access copy[p]?
  if c ≠ NUL ∧ isspace c then
    let copy ← access (Block.poke copy p NUL)
    return .inl (copy, p + 1)
  else return .inr (copy, p)

/-- A place in front of the block is outside of it. -/
def placeAt (e : Int) : Option Nat := if 0 ≤ e then some e.toNat else none

/-- White space at the end is overwritten, and `e` goes to the front. -/
def trimBackNext (s : Bytes × Int) : Except Stop (Bytes × Int ⊕ Bytes) := do
  let (copy, e) := s
  let place ← access (placeAt e)
  let c ← access copy[place]?
  if c ≠ NUL ∧ isspace c then
    let copy ← access (Block.poke copy place NUL)
    return .inl (copy, e - 1)
  else return .inr copy

/-- Each loop passes one byte at a time, so it has a result. -/
def trimFront (copy : Bytes) : Except Stop (Bytes × Nat) :=
  (loop (fun s => settle (trimFrontNext s)) (copy.length + 1) (copy, 0)).getD (.error .outside)

def trimBack (copy : Bytes) (e : Int) : Except Stop Bytes :=
  (loop (fun s => settle (trimBackNext s)) (copy.length + 1) (copy, e)).getD (.error .outside)

def trimStr (allocator : Block.Allocator) (s : Option Bytes) : Except Stop Bytes :=
  match s with
  | none => .error (.failed EINVAL)
  | some s => do
      let string ← access (Block.stringAt s 0)
      let copy ← allocate (Block.malloc allocator 0 (string.length + 1))
      let copy ← access (Block.strcpy copy s 0)
      let (copy, p) ← trimFront copy
      let rest ← access (Block.stringAt copy p)
      let copy ← trimBack copy (p + rest.length - 1)
      access (Block.strcpy s copy p)

end Piercloud.Blocks
