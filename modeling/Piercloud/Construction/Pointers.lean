import Piercloud.Construction.Lists
import Piercloud.Library.Ownership

/-
This file embeds functions of `liblst.c` and of `piercloud-cgi.c` on the memory: each block has an address, and a
function faults when it uses an address whose block has been freed.
-/

namespace Piercloud.Pointers

open CLib Loop Liblst Blocks Piercloud.Lists Ownership Program

/-- A block is an array of pointers or an array of characters. -/
inductive Content where
  | cells (cells : List (Option Nat))
  | chars (bytes : Bytes)
  deriving DecidableEq, Repr

/-- A pointer is `NULL` or points to the start of a block. -/
abbrev Ptr := Option Nat

/-- A string starts at a place in a block. -/
abbrev Text := Nat × Nat

def loadCells (p : Ptr) : Program Content (List Ptr) := do
  match ← load p with
  | .cells cells => pure cells
  | .chars _ => fault

def loadChars (p : Ptr) : Program Content Bytes := do
  match ← load p with
  | .chars bytes => pure bytes
  | .cells _ => fault

/-- The string ends in front of the first NUL. -/
def loadText (text : Text) : Program Content Bytes := do
  let bytes ← loadChars (some text.1)
  get (Block.stringAt bytes text.2)

def cellAt (p : Ptr) (i : Nat) : Program Content Ptr := do
  let cells ← loadCells p
  get cells[i]?

def setCell (p : Ptr) (i : Nat) (q : Ptr) : Program Content Unit := do
  let cells ← loadCells p
  if i < cells.length then store p (.cells (cells.set i q)) else fault

/-- The walk stops at the first `NULL`. -/
def countCells (p : Ptr) : Program Content Nat := do
  let cells ← loadCells p
  get (cells.findIdx? Option.isNone)

/-- The cells that are added are written before they are read. -/
def resized (size : Nat) : Option Content → Content
  | some (.cells cells) => .cells (cells.take size ++ List.replicate (size - cells.length) none)
  | _ => .cells (List.replicate size none)

/-- The string gets memory, and the array gets a cell behind it. -/
def appendAt (lst : Ptr) (i : Nat) (str : Text) (allocs : Allocs) :
    Program Content (Except Nat Nat × Ptr × Allocs) := do
  let s ← loadText str
  let (found, allocs) := allocated allocs
  let copy ← malloc found (.chars (s ++ [NUL]))
  setCell lst i copy
  match copy with
  | none => return (.error ENOMEM, lst, allocs)
  | some _ =>
      let (found, allocs) := allocated allocs
      match ← realloc found lst (resized (i + 2)) with
      | none =>
          free (← cellAt lst i)
          setCell lst i none
          return (.error ENOMEM, lst, allocs)
      | some t =>
          setCell (some t) (i + 1) none
          return (.ok i, some t, allocs)

/-- The result is the number of the new cell, or -1 and the number in `errno`. -/
def lstPush (lst : Ptr) (str : Option Text) (allocs : Allocs) : Program Content (Except Nat Nat × Ptr × Allocs) :=
  match str with
  | none => return (.error EINVAL, lst, allocs)
  | some str => do
      match lst with
      | some _ =>
          let i ← countCells lst
          appendAt lst i str allocs
      | none =>
          let (found, allocs) := allocated allocs
          match ← malloc found (.cells [none]) with
          | none => return (.error ENOMEM, none, allocs)
          | some t => appendAt (some t) 0 str allocs

/-- The string in the next cell is freed. -/
def freeNext (lst : Ptr) (i : Nat) : Program Content (Nat ⊕ Unit) := do
  match ← cellAt lst i with
  | none => return .inr ()
  | some q =>
      free (some q)
      return .inl (i + 1)

def lstFree (lst : Ptr) : Program Content Unit :=
  match lst with
  | none => return ()
  | some _ => do
      let cells ← loadCells lst
      repeatUntil (freeNext lst) (cells.length + 1) 0
      free lst

def mapPush (map : Ptr) (key value : Option Text) (allocs : Allocs) :
    Program Content (Except Nat Nat × Ptr × Allocs) := do
  let (pushed, map, allocs) ← lstPush map key allocs
  match pushed with
  | .error errno => return (.error errno, map, allocs)
  | .ok _ => lstPush map value allocs

/-- These are the variables of the scan; `p` and `b` are places in the copy. -/
structure Splitting where
  p : Nat
  b : Option Nat
  lst : Ptr
  allocs : Allocs

/-- A field is pushed, or the list and the copy are freed. -/
def pushField (t b : Nat) (lst : Ptr) (allocs : Allocs) : Program Content (Option Ptr × Allocs) := do
  let (pushed, lst, allocs) ← lstPush lst (some (t, b)) allocs
  match pushed with
  | .error _ =>
      lstFree lst
      free (some t)
      return (none, allocs)
  | .ok _ => return (some lst, allocs)

/-- A splitter ends the field that has begun, and so does the end of the string. -/
def splitNext (t : Nat) (splitter : UInt8) (s : Splitting) : Program Content (Splitting ⊕ (Ptr × Allocs)) := do
  let bytes ← loadChars (some t)
  let c ← get bytes[s.p]?
  if c = NUL then
    match s.b with
    | none =>
        free (some t)
        return .inr (s.lst, s.allocs)
    | some b =>
        match ← pushField t b s.lst s.allocs with
        | (none, allocs) => return .inr (none, allocs)
        | (some lst, allocs) =>
            free (some t)
            return .inr (lst, allocs)
  else if c = splitter then
    store (some t) (.chars (bytes.set s.p NUL))
    match s.b with
    | none => return .inl { s with p := s.p + 1 }
    | some b =>
        match ← pushField t b s.lst s.allocs with
        | (none, allocs) => return .inr (none, allocs)
        | (some lst, allocs) => return .inl ⟨s.p + 1, none, lst, allocs⟩
  else return .inl { s with p := s.p + 1, b := some (s.b.getD s.p) }

def lstSplitStr (splitter : UInt8) (s : Option Text) (allocs : Allocs) : Program Content (Ptr × Allocs) :=
  match s with
  | none => return (none, allocs)
  | some s => do
      let bytes ← loadText s
      let (found, allocs) := allocated allocs
      match ← malloc found (.chars (bytes ++ [NUL])) with
      | none => return (none, allocs)
      | some t => repeatUntil (splitNext t splitter) (bytes.length + 1) ⟨0, none, none, allocs⟩

end Piercloud.Pointers
