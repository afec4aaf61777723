import Piercloud.Construction.Header
import Piercloud.Construction.Paths
import Piercloud.Construction.Pointers

/-
This file embeds the memory of `Pier` of the server's `piercloud-cgi.c`: its lists, its strings and the array that
collects them. A result of `none` is an `ASSERT` that ends the process.
-/

namespace Piercloud.Pointers

open CLib Liblst Piercloud.Lists Ownership Program Cgi

/-- The array collects the address of a variable, not of its string. -/
def gcCollect (gc ptr : Ptr) (allocs : Allocs) : Program Content (Ptr × Allocs) :=
  match ptr with
  | none => return (gc, allocs)
  | some _ => do
      let i ← match gc with
        | none => pure 0
        | some _ => countCells gc
      let (found, allocs) := allocated allocs
      match ← realloc found gc (resized (i + 2)) with
      | none =>
          free (← cellAt gc i)
          setCell gc i none
          return (gc, allocs)
      | some t =>
          setCell (some t) i ptr
          setCell (some t) (i + 1) none
          return (some t, allocs)

/-- The string of the next variable is freed, and the variable keeps its address. -/
def cleanNext (gc : Ptr) (i : Nat) : Program Content (Nat ⊕ Unit) := do
  match ← cellAt gc i with
  | none => return .inr ()
  | some ptr =>
      free (← cellAt (some ptr) 0)
      return .inl (i + 1)

def gcClean (gc : Ptr) : Program Content Unit :=
  match gc with
  | none => return ()
  | some _ => do
      let cells ← loadCells gc
      repeatUntil (cleanNext gc) (cells.length + 1) 0
      free gc

def String (str : Bytes) (allocs : Allocs) : Program Content (Ptr × Allocs) := do
  let (found, allocs) := allocated allocs
  let q ← malloc found (.chars (str ++ [NUL]))
  return (q, allocs)

/-- A variable gets its string, and the array collects the variable. -/
def named (ptr : Nat) (str : Bytes) (gc : Ptr) (allocs : Allocs) : Program Content (Option (Ptr × Allocs)) := do
  let (q, allocs) ← String str allocs
  setCell (some ptr) 0 q
  match q with
  | none => return none
  | some _ =>
      let r ← gcCollect gc (some ptr) allocs
      return some r

/-- The variables of the environment that find memory are in the list. -/
def pushNext (environ : Ptr) : Nat × Ptr × Allocs → Program Content ((Nat × Ptr × Allocs) ⊕ (Ptr × Allocs))
  | (i, lst, allocs) => do
      match ← cellAt environ i with
      | none => return .inr (lst, allocs)
      | some q =>
          let (_, lst, allocs) ← lstPush lst (some (q, 0)) allocs
          return .inl (i + 1, lst, allocs)

def getEnv (environ : Ptr) (allocs : Allocs) : Program Content (Ptr × Allocs) := do
  let cells ← loadCells environ
  repeatUntil (pushNext environ) (cells.length + 1) (0, none, allocs)

/-- The pattern is compiled again for each string, and it is freed behind each string. -/
def egrepNext (regexec : Bytes → Bool) (lst : Ptr) :
    Nat × Ptr × Allocs → Program Content ((Nat × Ptr × Allocs) ⊕ (Ptr × Allocs))
  | (i, newLst, allocs) => do
      match ← cellAt lst i with
      | none => return .inr (newLst, allocs)
      | some q =>
          let (found, allocs) := allocated allocs
          match ← malloc found (.chars []) with
          | none =>
              lstFree newLst
              return .inr (none, allocs)
          | some preg =>
              let str ← loadText (q, 0)
              if regexec str then
                let (pushed, newLst, allocs) ← lstPush newLst (some (q, 0)) allocs
                match pushed with
                | .error _ =>
                    lstFree newLst
                    free (some preg)
                    return .inr (none, allocs)
                | .ok _ =>
                    free (some preg)
                    return .inl (i + 1, newLst, allocs)
              else
                free (some preg)
                return .inl (i + 1, newLst, allocs)

def lstEgrep (regexec : Bytes → Bool) (lst : Ptr) (allocs : Allocs) : Program Content (Ptr × Allocs) :=
  match lst with
  | none => return (none, allocs)
  | some _ => do
      let cells ← loadCells lst
      repeatUntil (egrepNext regexec lst) (cells.length + 1) (0, none, allocs)

/-- The string of the variable gets a copy with the replacement behind it. The result is false when it does not. -/
def replaceStrFormat (string : Nat) (replace : Bytes) (allocs : Allocs) : Program Content (Bool × Allocs) := do
  let (found, allocs) := allocated allocs
  match ← malloc found (.chars (replace ++ [NUL])) with
  | none => return (false, allocs)
  | some r =>
      match ← cellAt (some string) 0 with
      | none =>
          free (some r)
          return (false, allocs)
      | some q =>
          let str ← loadText (q, 0)
          let (found, allocs) := allocated allocs
          match ← malloc found (.chars (str ++ replace ++ [NUL])) with
          | none =>
              free (some r)
              return (false, allocs)
          | some t =>
              free (some q)
              setCell (some string) 0 (some t)
              free (some r)
              return (true, allocs)

/-- The letters are changed up to the NUL. -/
def lowered : Bytes → Option Bytes
  | [] => none
  | c :: rest => if c = NUL then some (c :: rest) else (lowered rest).map (lowerDash c :: ·)

/-- The name ends at its sign, and its letters behind the first one are changed. -/
def cutName (bytes : Bytes) (header1 : Nat) : Option (Bytes × Option Bytes) := do
  let name ← Block.stringAt bytes header1
  match strchr name 61 with
  | none => some (bytes, none)
  | some p =>
      let bytes ← Block.poke bytes (header1 + p) NUL
      let behind ← lowered (bytes.drop (header1 + 1))
      let bytes := bytes.take (header1 + 1) ++ behind
      let first ← Block.stringAt bytes header1
      let second ← Block.stringAt bytes (header1 + p + 1)
      some (bytes, some (first ++ text ": " ++ second ++ NL))

/-- The entry is cut in place, and it gives a row or is skipped. -/
def cutEntry (bytes : Bytes) : Option (Bytes × Option Bytes) := do
  let entry ← Block.stringAt bytes 0
  if strstr entry (text "HTTP_") = some 0 then
    match strchr entry 95 with
    | none => some (bytes, none)
    | some p =>
        let bytes ← Block.poke bytes p NUL
        cutName bytes (p + 1)
  else cutName bytes 0

/-- Each entry of the list adds its row to the string of the variable. -/
def addHeaderNext (header : Nat) (lst : Ptr) :
    Nat × Allocs → Program Content ((Nat × Allocs) ⊕ (Bool × Allocs))
  | (i, allocs) => do
      match ← cellAt lst i with
      | none => return .inr (true, allocs)
      | some q =>
          let bytes ← loadChars (some q)
          let (bytes, row) ← get (cutEntry bytes)
          store (some q) (.chars bytes)
          match row with
          | none => return .inl (i + 1, allocs)
          | some row =>
              match ← replaceStrFormat header row allocs with
              | (false, allocs) => return .inr (false, allocs)
              | (true, allocs) => return .inl (i + 1, allocs)

def addHeader (header : Nat) (lst : Ptr) (allocs : Allocs) : Program Content (Bool × Allocs) := do
  let cells ← loadCells lst
  repeatUntil (addHeaderNext header lst) (cells.length + 1) (0, allocs)

/-- The string that the variable points to is read. -/
def textOf (ptr : Nat) : Program Content Bytes := do
  match ← cellAt (some ptr) 0 with
  | none => fault
  | some q => loadText (q, 0)

/-- These are the strings of the cells in front of the `NULL`. -/
def rowsAt : List Ptr → Program Content (List Bytes)
  | [] => fault
  | none :: _ => return []
  | some q :: cells => do
      let row ← loadText (q, 0)
      let rows ← rowsAt cells
      return row :: rows

/-- The variables of `Pier` that hold strings are at these addresses. -/
structure Locals where
  Rpath : Nat
  Rfifo : Nat
  Wfifo : Nat
  lockName : Nat
  answer : Nat
  header : Nat

/-- These are the outcomes of the calls that open and lock. -/
structure Opened where
  Lfd : Bool
  locked : Bool
  Wfd : Bool
  deriving DecidableEq, Repr

/-- The process ends by an `ASSERT`, or `Pier` returns when it has written its answer or its header. -/
inductive PierEnd where
  | exited
  | refused (answer : Bytes)
  | answered (header : Bytes)
  deriving DecidableEq, Repr

def refusal : Bytes :=
  text "Status: 434 Requested host unavailable" ++ NL ++ NL ++ text "434 Requested host unavailable."

/-- The names of the files are made and collected one after the other. -/
def namedAll : List (Nat × Bytes) → Ptr → Allocs → Program Content (Option (Ptr × Allocs))
  | [], gc, allocs => return some (gc, allocs)
  | (ptr, str) :: names, gc, allocs => do
      match ← named ptr str gc allocs with
      | none => return none
      | some (gc, allocs) => namedAll names gc allocs

def pierNames (l : Locals) (connect : Int) (myPid : Nat) : List (Nat × Bytes) :=
  [(l.Rpath, devicePath connect (text ".0")),
    (l.Rfifo, devicePath connect (text ".0/" ++ signedDecimal myPid)),
    (l.Wfifo, devicePath connect []),
    (l.lockName, devicePath connect (text ".lock"))]

def pierRefuse (l : Locals) (lstEnv gc : Ptr) (allocs : Allocs) : Program Content PierEnd := do
  let (q, allocs) ← String refusal allocs
  setCell (some l.answer) 0 q
  let (gc, _) ← gcCollect gc (some l.answer) allocs
  let answer ← textOf l.answer
  lstFree lstEnv
  gcClean gc
  return .refused answer

/-- This is `regexec` for the pattern that has the mark in front and some byte behind it. -/
def regexec (mark entry : Bytes) : Bool := mark.isPrefixOf entry && decide (mark.length < entry.length)

/-- The rows that match are added; without a list there are none. -/
def addRows (header : Nat) (mark : Bytes) (lstEnv : Ptr) (allocs : Allocs) :
    Program Content (Option (Ptr × Allocs)) := do
  let (lst, allocs) ← lstEgrep (regexec mark) lstEnv allocs
  match lst with
  | none => return some (none, allocs)
  | some _ =>
      match ← addHeader header lst allocs with
      | (false, _) => return none
      | (true, allocs) => return some (lst, allocs)

/-- The header is written, and the path is unlinked in front of the calls that free. -/
def pierAnswer (l : Locals) (environ lstEnv gc : Ptr) (myPid : Nat) (allocs : Allocs) : Program Content PierEnd := do
  match ← named l.header (decimal myPid ++ NL) gc allocs with
  | none => return .exited
  | some (gc, allocs) =>
      let cells ← loadCells environ
      let rows ← rowsAt cells
      match ← replaceStrFormat l.header (requestRow rows) allocs with
      | (false, _) => return .exited
      | (true, allocs) =>
          match ← addRows l.header (text "HTTP_") lstEnv allocs with
          | none => return .exited
          | some (lstHttpEnv, allocs) =>
              match ← addRows l.header (text "CONTENT_") lstEnv allocs with
              | none => return .exited
              | some (lstContentEnv, allocs) =>
                  match ← replaceStrFormat l.header NL allocs with
                  | (false, _) => return .exited
                  | (true, _) =>
                      let header ← textOf l.header
                      let _ ← textOf l.Rfifo
                      lstFree lstEnv
                      lstFree lstHttpEnv
                      lstFree lstContentEnv
                      gcClean gc
                      return .answered header

/-- This is `Pier` in front of the `unlink` of a request that is refused. -/
def pierServe (l : Locals) (environ : Ptr) (connect : Int) (myPid : Nat) (opened : Opened) (allocs : Allocs) :
    Program Content PierEnd := do
  if connect = 0 then return .exited
  else
    let (lstEnv, allocs) ← getEnv environ allocs
    match lstEnv with
    | none => return .exited
    | some _ =>
        match ← namedAll (pierNames l connect myPid) none allocs with
        | none => return .exited
        | some (gc, allocs) =>
            if opened.Lfd = false then pierRefuse l lstEnv gc allocs
            else if opened.locked = false then pierRefuse l lstEnv gc allocs
            else if opened.Wfd = false then pierRefuse l lstEnv gc allocs
            else pierAnswer l environ lstEnv gc myPid allocs

/-- A request that is refused unlinks its path behind the calls that free. -/
def pier (l : Locals) (environ : Ptr) (connect : Int) (myPid : Nat) (opened : Opened) (allocs : Allocs) :
    Program Content PierEnd := do
  match ← pierServe l environ connect myPid opened allocs with
  | .refused answer =>
      let _ ← textOf l.Rfifo
      return .refused answer
  | ended => return ended

end Piercloud.Pointers
