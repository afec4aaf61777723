import Piercloud.Construction.Header
import Piercloud.Library.Loop

/-
This file embeds `Write` and `writeToFileFormat` of `liblst.c`, and the copy loops of the server's `piercloud-cgi.c`
that call `Write`.
-/

namespace Piercloud.Liblst

open CLib Loop

def EINTR : Nat := 4

def EAGAIN : Nat := 11

def EWOULDBLOCK : Nat := 11

def ENOMEM : Nat := 12

def EINVAL : Nat := 22

def EPIPE : Nat := 32

theorem EPIPE_real : EPIPE ≠ 0 := by decide

/-- The loops try again after these failures. -/
def Transient (errno : Nat) : Prop := errno = EINTR ∨ errno = EAGAIN ∨ errno = EWOULDBLOCK ∨ errno = EPIPE

instance (errno : Nat) : Decidable (Transient errno) := inferInstanceAs (Decidable (_ ∨ _ ∨ _ ∨ _))

/-- The system takes some bytes of a write, at most those that are asked for, or the write fails. -/
inductive WriteOutcome where
  | took (n : Nat) (positive : 0 < n)
  | failed (errno : Nat) (real : errno ≠ 0)
  deriving DecidableEq, Repr

/-- The attempts to write are numbered over the life of a descriptor. -/
abbrev Sink := Nat → WriteOutcome

/-- These are the variables of the write loop; `delivered` holds what the system took. -/
structure Writing where
  attempt : Nat
  t : Nat
  len : Nat
  errno : Nat
  delivered : Bytes
  deriving DecidableEq, Repr

def Writing.initial (len attempt : Nat) : Writing := ⟨attempt, 0, len, 0, []⟩

/-- A write of no byte ends the loop well, and a failure that is not transient ends it otherwise. -/
def writeStep (sink : Sink) (data : Bytes) (safeErrno : Nat) (s : Writing) : Writing ⊕ Bool × Writing :=
  match sink s.attempt with
  | .took n _ =>
      let n := min n s.len
      if n = 0 then .inr (true, { s with attempt := s.attempt + 1 })
      else
        .inl {
          attempt := s.attempt + 1, t := s.t + n, len := s.len - n, errno := s.errno
          delivered := s.delivered ++ (data.drop s.t).take n }
  | .failed errno _ =>
      if Transient errno then .inl { s with attempt := s.attempt + 1, errno := safeErrno }
      else .inr (false, { s with attempt := s.attempt + 1, errno := errno })

/-- `attempt` is the number of the next attempt. -/
structure Written where
  rval : Int
  errno : Nat
  attempt : Nat
  delivered : Bytes
  deriving DecidableEq, Repr

def write (sink : Sink) (data : Bytes) (safeErrno attempt fuel : Nat) : Option Written :=
  (loop (writeStep sink data safeErrno) fuel (.initial data.length attempt)).map fun (done, s) =>
    if done then ⟨s.t, safeErrno, s.attempt, s.delivered⟩ else ⟨0, s.errno, s.attempt, s.delivered⟩

/-- `printed` is what the format and its arguments give, or no format is given. -/
def writeToFileFormat (sink : Sink) (printed : Option Bytes) (memory : Bool) (safeErrno attempt fuel : Nat) :
    Option Written :=
  match printed with
  | none => some ⟨-1, EINVAL, attempt, []⟩
  | some printed =>
      if memory then
        let buf := cstr printed
        (loop (writeStep sink buf safeErrno) fuel (.initial buf.length attempt)).map fun (done, s) =>
          if done then ⟨0, safeErrno, s.attempt, s.delivered⟩ else ⟨-1, s.errno, s.attempt, s.delivered⟩
      else some ⟨-1, ENOMEM, attempt, []⟩

end Piercloud.Liblst

namespace Piercloud.Cgi

open CLib Loop Liblst

/-- The standard input or a FIFO gives a piece, or a read fails. -/
inductive Input where
  | data (piece : Bytes)
  | failed (errno : Nat)
  deriving DecidableEq, Repr

/-- A piece longer than the buffer leaves its tail for the next read, and no byte comes at the end. -/
def read (size : Nat) : List Input → Input × List Input
  | [] => (.data [], [])
  | .failed errno :: rest => (.failed errno, rest)
  | .data piece :: rest =>
      if piece.length ≤ size then (.data piece, rest) else (.data (piece.take size), .data (piece.drop size) :: rest)

/-- A copy loop is left at the end of its input or at a failing read, or an `ASSERT` of it fires. -/
inductive CopyEnding where
  | left
  | exited
  deriving DecidableEq, Repr

structure Copying where
  reads : List Input
  attempt : Nat
  delivered : Bytes
  deriving DecidableEq, Repr

/-- A transient failure of `read` is tried again. The result of an iteration is missing while its `Write` goes on. -/
def copyStep (size : Nat) (sink : Sink) (fuel : Nat) (s : Copying) : Copying ⊕ Option (CopyEnding × Copying) :=
  match read size s.reads with
  | (.failed errno, reads) =>
      if Transient errno then .inl { s with reads := reads } else .inr (some (.left, { s with reads := reads }))
  | (.data buf, reads) =>
      if buf.isEmpty then .inr (some (.left, { s with reads := reads }))
      else
        match write sink buf 0 s.attempt fuel with
        | none => .inr none
        | some n =>
            let s := { reads := reads, attempt := n.attempt, delivered := s.delivered ++ n.delivered }
            if n.errno ≠ 0 then .inr (some (.exited, s)) else .inl s

def copy (size : Nat) (sink : Sink) (reads : List Input) (fuel : Nat) : Option (CopyEnding × Copying) :=
  (loop (copyStep size sink fuel) fuel ⟨reads, 0, []⟩).join

/-- `Respond` copies its input into the FIFO of the process that waits. -/
def respondCopy : Sink → List Input → Nat → Option (CopyEnding × Copying) := copy pipeBuf

/-- `Connect` copies the FIFO of the requests to its output. One byte of its buffer stays free. -/
def connectCopy : Sink → List Input → Nat → Option (CopyEnding × Copying) := copy (pipeBuf - 1)

/-- `Pier` copies its input into the FIFO of the requests. -/
def pierRequestCopy : Sink → List Input → Nat → Option (CopyEnding × Copying) := copy pipeBuf

/-- `Pier` copies the FIFO of the response to its output. -/
def pierResponseCopy : Sink → List Input → Nat → Option (CopyEnding × Copying) := copy pipeBuf

end Piercloud.Cgi
