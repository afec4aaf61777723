import Piercloud.Construction.Blocks

/-
This file embeds the lists and the maps of `liblst.c`. A list is an array of pointers that ends with `NULL`, and a map
is a list of keys and values in turn. A pointer to a string stands for the bytes in front of its NUL.
-/

namespace Piercloud.Lists

open CLib Loop Liblst Blocks

/-- The pointer in a cell is `NULL` or points to a string. -/
abbrev Cell := Option Bytes

/-- The pointer to the array is `NULL` or points to its cells. -/
abbrev Lst := Option (List Cell)

/-- The outcomes of the next calls for memory; the calls after them find it. -/
abbrev Allocs := List Bool

def allocated : Allocs → Bool × Allocs
  | [] => (true, [])
  | ok :: rest => (ok, rest)

/-- The walk stops at the first `NULL`. -/
def terminator (cells : List Cell) : Except Stop Nat := access (cells.findIdx? Option.isNone)

def store (cells : List Cell) (i : Nat) (cell : Cell) : Except Stop (List Cell) :=
  access (if i < cells.length then some (cells.set i cell) else none)

/-- The cells that are added are written before they are read. -/
def resize (cells : List Cell) (size : Nat) : List Cell :=
  cells.take size ++ List.replicate (size - cells.length) none

/-- The string gets memory, and the array gets a cell behind it. -/
def appendAt (cells : List Cell) (i : Nat) (str : Bytes) (allocs : Allocs) :
    Except Stop (Except Nat Nat × Lst × Allocs) :=
  match allocated allocs with
  | (false, allocs) => do
      let cells ← store cells i none
      return (.error ENOMEM, some cells, allocs)
  | (true, allocs) => do
      let cells ← store cells i (some (cstr str))
      match allocated allocs with
      | (false, allocs) =>
          let cells ← store cells i none
          return (.error ENOMEM, some cells, allocs)
      | (true, allocs) =>
          let cells ← store (resize cells (i + 2)) (i + 1) none
          return (.ok i, some cells, allocs)

/-- The result is the number of the new cell, or -1 and the number in `errno`. -/
def lstPush (lst : Lst) (str : Option Bytes) (allocs : Allocs) : Except Stop (Except Nat Nat × Lst × Allocs) :=
  match str with
  | none => return (.error EINVAL, lst, allocs)
  | some str =>
      match lst with
      | some cells => do
          let i ← terminator cells
          appendAt cells i str allocs
      | none =>
          match allocated allocs with
          | (false, allocs) => return (.error ENOMEM, none, allocs)
          | (true, allocs) => appendAt [none] 0 str allocs

def lstSize : Lst → Except Stop Nat
  | none => return 0
  | some cells => terminator cells

/-- The result grows by one string after the other. -/
def glueLoop : List Cell → Option Bytes → Allocs → Except Stop (Option Bytes × Allocs)
  | [], _, _ => .error .outside
  | none :: _, rval, allocs => return (rval, allocs)
  | some str :: rest, rval, allocs =>
      match allocated allocs with
      | (false, allocs) => return (none, allocs)
      | (true, allocs) => glueLoop rest (some (rval.getD [] ++ str)) allocs

def lstGlue (lst : Lst) (allocs : Allocs) : Except Stop (Option Bytes × Allocs) :=
  match lst with
  | none => return (none, allocs)
  | some cells => glueLoop cells none allocs

def mapPush (map : Lst) (key value : Option Bytes) (allocs : Allocs) :
    Except Stop (Except Nat Nat × Lst × Allocs) := do
  let (pushed, map, allocs) ← lstPush map key allocs
  match pushed with
  | .error errno => return (.error errno, map, allocs)
  | .ok _ => lstPush map value allocs

/-- The walk goes two cells at a time. -/
def findValue (key : Bytes) : List Cell → Except Stop Cell
  | none :: _ => return none
  | some k :: value :: rest => if k = key then return value else findValue key rest
  | _ => .error .outside

def getMapValue (map : Lst) (key : Option Bytes) : Except Stop (Option Bytes) :=
  match map, key with
  | some cells, some key => do
      let size ← lstSize map
      if size % 2 ≠ 0 then return none else findValue (cstr key) cells
  | _, _ => return none

/-- The result is freed when a value does not find memory. -/
def collectValues (key : Bytes) : List Cell → Lst → Allocs → Except Stop (Lst × Allocs)
  | none :: _, rval, allocs => return (rval, allocs)
  | some k :: value :: rest, rval, allocs =>
      if k = key then do
        let (pushed, rval, allocs) ← lstPush rval value allocs
        match pushed with
        | .error _ => return (none, allocs)
        | .ok _ => collectValues key rest rval allocs
      else collectValues key rest rval allocs
  | _, _, _ => .error .outside

def getMapValues (map : Lst) (key : Option Bytes) (allocs : Allocs) : Except Stop (Lst × Allocs) :=
  match map, key with
  | some cells, some key => do
      let size ← lstSize map
      if size % 2 ≠ 0 then return (none, allocs) else collectValues (cstr key) cells none allocs
  | _, _ => return (none, allocs)

def getConfigValue (map : Lst) (key dval : Option Bytes) : Except Stop (Option Bytes) :=
  match map, key with
  | some _, some _ => do
      let rval ← getMapValue map key
      return rval <|> dval
  | _, _ => return dval

/-- These are the variables of the scan; `p` and `b` are places in the copy. -/
structure Splitting where
  t : Bytes
  p : Nat
  b : Option Nat
  lst : Lst
  allocs : Allocs
  deriving DecidableEq, Repr

/-- A splitter ends the field that has begun, and so does the end of the string. -/
def splitNext (splitter : UInt8) (s : Splitting) : Except Stop (Splitting ⊕ (Lst × Allocs)) := do
  let c ← access s.t[s.p]?
  if c = NUL then
    match s.b with
    | none => return .inr (s.lst, s.allocs)
    | some b =>
        let field ← access (Block.stringAt s.t b)
        let (pushed, lst, allocs) ← lstPush s.lst (some field) s.allocs
        match pushed with
        | .error _ => return .inr (none, allocs)
        | .ok _ => return .inr (lst, allocs)
  else if c = splitter then
    let t ← access (Block.poke s.t s.p NUL)
    match s.b with
    | none => return .inl { s with t := t, p := s.p + 1 }
    | some b =>
        let field ← access (Block.stringAt t b)
        let (pushed, lst, allocs) ← lstPush s.lst (some field) s.allocs
        match pushed with
        | .error _ => return .inr (none, allocs)
        | .ok _ => return .inl ⟨t, s.p + 1, none, lst, allocs⟩
  else return .inl { s with p := s.p + 1, b := some (s.b.getD s.p) }

/-- The scan works on a copy and passes one byte at a time, so it has a result. -/
def lstSplitStr (splitter : UInt8) (s : Option Bytes) (allocs : Allocs) : Option (Except Stop (Lst × Allocs)) :=
  match s with
  | none => some (.ok (none, allocs))
  | some s =>
      match access (Block.stringAt s 0), allocated allocs with
      | .error stop, _ => some (.error stop)
      | .ok _, (false, allocs) => some (.ok (none, allocs))
      | .ok t, (true, allocs) =>
          loop (fun s => settle (splitNext splitter s)) (t.length + 1) ⟨t ++ [NUL], 0, none, none, allocs⟩

end Piercloud.Lists
