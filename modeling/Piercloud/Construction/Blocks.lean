import Piercloud.Library.Block
import Piercloud.Construction.Transfer

/-
This file embeds `ptReplaceStr` of `liblst.c` on blocks of memory. The version in `Liblst` says which text it gives.
-/

namespace Piercloud.Blocks

open CLib Loop Liblst

/-- An access leaves its block, or the function returns `NULL` and this number is in `errno`. -/
inductive Stop where
  | outside
  | failed (errno : Nat)
  deriving DecidableEq, Repr

section Results

variable {α σ ρ : Type}

def access (found : Option α) : Except Stop α := found.elim (.error .outside) .ok

def allocate (block : Option α) : Except Stop α := block.elim (.error (.failed ENOMEM)) .ok

@[simp] theorem access_some (found : α) : access (some found) = .ok found := rfl

@[simp] theorem allocate_some (block : α) : allocate (some block) = .ok block := rfl

/-- A loop body that stops ends its loop. -/
def settle (next : Except Stop (σ ⊕ ρ)) : σ ⊕ Except Stop ρ :=
  match next with
  | .error stop => .inr (.error stop)
  | .ok (.inl s) => .inl s
  | .ok (.inr r) => .inr (.ok r)

end Results

/-- These are the variables of the loop; `p` is a place in the copy and `next` numbers the next allocation. -/
structure Replacing where
  copy : Bytes
  p : Nat
  rval : Bytes
  next : Nat
  deriving DecidableEq, Repr

/-- An empty search text needs one block; otherwise the copy and an empty result are made. -/
def replaceStart (allocator : Block.Allocator) (string search replace : Bytes) :
    Except Stop (Replacing ⊕ Bytes) := do
  let lenString ← access (Block.stringAt string 0)
  let lenSearch ← access (Block.stringAt search 0)
  let lenReplace ← access (Block.stringAt replace 0)
  if lenSearch.isEmpty then
    let rval ← allocate (Block.malloc allocator 0 (lenString.length + lenReplace.length + 1))
    let rval ← access (Block.poke rval 0 NUL)
    let rval ← access (Block.strcat rval string 0)
    let rval ← access (Block.strcat rval replace 0)
    return .inr rval
  else
    let copy ← allocate (Block.malloc allocator 0 (lenString.length + 1))
    let copy ← access (Block.strcpy copy string 0)
    let rval ← allocate (Block.malloc allocator 1 1)
    let rval ← access (Block.poke rval 0 NUL)
    return .inl ⟨copy, 0, rval, 2⟩

/-- The copy is cut at the match, and the result grows by the piece and the replacement. Behind the last match it grows
by the rest. -/
def replaceNext (allocator : Block.Allocator) (search replace : Bytes) (s : Replacing) :
    Except Stop (Replacing ⊕ Bytes) := do
  let p ← access (Block.stringAt s.copy s.p)
  let needle ← access (Block.stringAt search 0)
  match strstr p needle with
  | some i =>
      let copy ← access (Block.poke s.copy (s.p + i) NUL)
      let rval ← access (Block.stringAt s.rval 0)
      let piece ← access (Block.stringAt copy s.p)
      let more ← access (Block.stringAt replace 0)
      let t ← allocate (Block.realloc allocator s.next s.rval (rval.length + piece.length + more.length + 1))
      let t ← access (Block.strcat t copy s.p)
      let t ← access (Block.strcat t replace 0)
      return .inl ⟨copy, s.p + i + needle.length, t, s.next + 1⟩
  | none =>
      let rval ← access (Block.stringAt s.rval 0)
      let t ← allocate (Block.realloc allocator s.next s.rval (rval.length + p.length + 1))
      let t ← access (Block.strcat t s.copy s.p)
      return .inr t

def replaceStep (allocator : Block.Allocator) (search replace : Bytes) (s : Replacing) :
    Replacing ⊕ Except Stop Bytes :=
  settle (replaceNext allocator search replace s)

/-- A pointer is missing or points to a block. -/
def ptReplaceStr (allocator : Block.Allocator) (string search replace : Option Bytes) (fuel : Nat) :
    Option (Except Stop Bytes) :=
  match string, search, replace with
  | some string, some search, some replace =>
      match settle (replaceStart allocator string search replace) with
      | .inl s => loop (replaceStep allocator search replace) fuel s
      | .inr rval => some rval
  | _, _, _ => some (.error (.failed EINVAL))

end Piercloud.Blocks
