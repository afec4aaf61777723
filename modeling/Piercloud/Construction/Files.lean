import Piercloud.Construction.Lists

/-
This file embeds the functions of `liblst.c` that read files: the whole content at once, and row by row with the text
behind a row in a static variable.
-/

namespace Piercloud.Files

open CLib Loop Liblst Piercloud.Lists Cgi

/-- The reading loops try again after these failures. -/
def Postponed (errno : Nat) : Prop := errno = EINTR ∨ errno = EAGAIN ∨ errno = EWOULDBLOCK

instance (errno : Nat) : Decidable (Postponed errno) := inferInstanceAs (Decidable (_ ∨ _ ∨ _))

/-- A read makes this measure smaller. -/
def unread (reads : List Input) : Nat :=
  (reads.map fun
    | .data piece => piece.length + 1
    | .failed _ => 1).sum

def contentBufSize : Nat := 2048

/-- These are the variables of the loop; `rval` is the block that has been filled. -/
structure Content where
  rval : Option Bytes
  errno : Nat
  reads : List Input
  allocs : Allocs
  deriving DecidableEq, Repr

/-- The block grows by the bytes of each read, and no byte comes at the end. -/
def contentStep (safeErrno : Nat) (s : Content) : Content ⊕ (Option Bytes × Nat) :=
  match read contentBufSize s.reads with
  | (.failed errno, reads) =>
      if Postponed errno then .inl { s with errno := safeErrno, reads := reads } else .inr (none, errno)
  | (.data buf, reads) =>
      if buf.isEmpty then .inr (s.rval.map (· ++ [NUL]), s.errno)
      else
        match allocated s.allocs with
        | (false, _) => .inr (none, ENOMEM)
        | (true, allocs) => .inl { s with rval := some (s.rval.getD [] ++ buf), reads := reads, allocs := allocs }

/-- Each iteration uses up a read, so the loop has a result. It comes with the number in `errno`. -/
def ptGetFileContent (reads : List Input) (safeErrno : Nat) (allocs : Allocs) : Option Bytes × Nat :=
  (loop (contentStep safeErrno) (unread reads + 1) ⟨none, safeErrno, reads, allocs⟩).getD (none, safeErrno)

/-- A path can be opened for these reads or not. The close fails or not. -/
structure Disk where
  opened : Bytes → Except Nat (List Input)
  closed : Option Nat

/-- `printed` is the path that the format and its arguments give, or a pointer is missing. The result is the return
value, the content and the number in `errno`. -/
def getFileContentFormat (disk : Disk) (printed : Option Bytes) (safeErrno : Nat) (allocs : Allocs) :
    Int × Option Bytes × Nat :=
  match printed with
  | none => (-1, none, EINVAL)
  | some printed =>
      match allocated allocs with
      | (false, _) => (-1, none, ENOMEM)
      | (true, allocs) =>
          match disk.opened (cstr printed) with
          | .error errno => (-1, none, errno)
          | .ok reads =>
              match ptGetFileContent reads safeErrno allocs with
              | (none, errno) => (-1, none, errno)
              | (some content, errno) =>
                  match disk.closed with
                  | some errno => (-1, none, errno)
                  | none => (0, some content, errno)

def chunkSize : Nat := 512

def chunkStep (reads : List Input) : List Input ⊕ (Int × Option Bytes × List Input) :=
  match read chunkSize reads with
  | (.failed errno, reads) => if Postponed errno then .inl reads else .inr (-1, none, reads)
  | (.data buf, reads) => .inr (buf.length, if buf.isEmpty then none else some (buf ++ [NUL]), reads)

/-- The next bytes come as a block with a terminator. -/
def readChunkStr (reads : List Input) : Int × Option Bytes × List Input :=
  (loop chunkStep (unread reads + 1) reads).getD (-1, none, reads)

/-- The first line is found and deleted in the text. -/
def cutRest (rest : Bytes) : Option Bytes × Bytes :=
  match strchr rest LF with
  | some p => (some (rest.take p ++ [LF]), ptReplaceStr rest (rest.take p ++ [LF]) [])
  | none => (none, rest)

/-- The row loses its line ends, and the return value counts its terminator. -/
def chopped (data : Bytes) : Int × Option Bytes :=
  let data := cstr (chopStr (data ++ [NUL]))
  (data.length + 1, some data)

/-- The text grows by a chunk until it has a line. At the end of the file the rest is a row. -/
def rowStep : Bytes × List Input → (Bytes × List Input) ⊕ ((Int × Option Bytes) × Option Bytes × List Input)
  | (rest, reads) =>
      match readChunkStr reads with
      | (n, buf, reads) =>
          if 0 < n then
            match buf with
            | none => .inr ((-1, none), none, reads)
            | some buf =>
                match cutRest (ptReplaceStr rest [] (cstr buf)) with
                | (some data, rest) => .inr (chopped data, some rest, reads)
                | (none, rest) => .inl (rest, reads)
          else if n = 0 ∧ rest ≠ [] then .inr (chopped rest, some rest, reads)
          else .inr ((n, none), none, reads)

/-- The result is the return value and the row, and behind it come the static text and the reads that are left. -/
def readFileRow (static : Option Bytes) (reads : List Input) : (Int × Option Bytes) × Option Bytes × List Input :=
  match cutRest (static.getD []) with
  | (some data, rest) => (chopped data, some rest, reads)
  | (none, rest) => (loop rowStep (unread reads + 1) (rest, reads)).getD ((-1, none), none, reads)

/-- This is the loop `while (0 < readFileRow(&buf, fd))`. -/
def rowsStep : Option Bytes × List Input → (Option Bytes × List Input) ⊕ Int
  | (static, reads) =>
      match readFileRow static reads with
      | ((n, _), static, reads) => if 0 < n then .inl (static, reads) else .inr n

/-- The row of the file comes with the static text behind the call. -/
def ptGetFileRowFormat (disk : Disk) (printed : Option Bytes) (static : Option Bytes) :
    Option Bytes × Option Bytes :=
  match printed with
  | none => (none, static)
  | some printed =>
      match disk.opened (cstr printed) with
      | .error _ => (none, static)
      | .ok reads =>
          match readFileRow static reads with
          | ((n, data), static, _) => if n = -1 ∨ disk.closed.isSome then (none, static) else (data, static)

end Piercloud.Files
