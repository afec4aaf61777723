import Piercloud.Construction.Transfer

/-
This file embeds `AtomIO` and `GetSockRow` of the client's `connection.c`, with the socket below them.
-/

namespace Piercloud.Connection

open CLib Liblst Loop

/-- More bytes may arrive while a call waits for them, or the call fails. -/
inductive Arrival where
  | ready (more : Nat)
  | failed (errno : Nat)
  deriving DecidableEq, Repr

/-- The peer sends what has arrived and what is coming, and then it closes. A call finds everything there and every
write takes its bytes whole when the outcomes are used up. -/
structure World where
  arrived : Bytes
  coming : Bytes
  arrivals : List Arrival
  writes : List WriteOutcome
  sent : Bytes
  allocs : List Bool
  closed : List Int
  deriving DecidableEq, Repr

/-- These bytes are still to be read. -/
def World.stream (w : World) : Bytes := w.arrived ++ w.coming

/-- A call waits for the first byte when none is there. -/
def World.arrive (w : World) : Option Nat × World :=
  match w.arrivals with
  | [] => (none, { w with arrived := w.arrived ++ w.coming, coming := [] })
  | .failed errno :: rest => (some errno, { w with arrivals := rest })
  | .ready more :: rest =>
      let more := if w.arrived.isEmpty then max more 1 else more
      (none, {
        w with arrived := w.arrived ++ w.coming.take more, coming := w.coming.drop more, arrivals := rest })

/-- A peek leaves the bytes in the socket. The result is the number of an error or the bytes. -/
def recv (size : Nat) (peek : Bool) (w : World) : Except Nat Bytes × World :=
  match w.arrive with
  | (some errno, w) => (.error errno, w)
  | (none, w) => (.ok (w.arrived.take size), if peek then w else { w with arrived := w.arrived.drop size })

/-- The result is the number of an error or the number of bytes that are taken. -/
def write (buf : Bytes) (w : World) : Except Nat Nat × World :=
  match w.writes with
  | [] => (.ok buf.length, { w with sent := w.sent ++ buf })
  | .took n _ :: rest => (.ok (min n buf.length), { w with writes := rest, sent := w.sent ++ buf.take n })
  | .failed errno _ :: rest => (.error errno, { w with writes := rest })

def malloc (w : World) : Bool × World :=
  match w.allocs with
  | [] => (true, w)
  | ok :: rest => (ok, { w with allocs := rest })

section AtomIo

variable {σ : Type}

/-- The function is asked to go on at a place for a number of bytes. A transient failure is tried again, and the other
ones give zero. -/
def atomIoStep (f : Nat → Nat → σ → Except Nat Nat × σ) (n : Nat) : Nat × σ → (Nat × σ) ⊕ (Nat × σ)
  | (pos, s) =>
      if pos < n then
        match f pos (n - pos) s with
        | (.error errno, s) => if errno = EINTR ∨ errno = EAGAIN then .inl (pos, s) else .inr (0, s)
        | (.ok 0, s) => .inr (pos, s)
        | (.ok (res + 1), s) => .inl (pos + (res + 1), s)
      else .inr (pos, s)

def atomIo (f : Nat → Nat → σ → Except Nat Nat × σ) (n fuel : Nat) (s : σ) : Option (Nat × σ) :=
  loop (atomIoStep f n) fuel (0, s)

end AtomIo

/-- The bytes take the places from `pos` on. -/
def store (buf : Bytes) (pos : Nat) (bytes : Bytes) : Bytes := buf.take pos ++ bytes ++ buf.drop (pos + bytes.length)

def readAt (pos count : Nat) : Bytes × World → Except Nat Nat × Bytes × World
  | (buf, w) =>
      match recv count false w with
      | (.error errno, w) => (.error errno, buf, w)
      | (.ok bytes, w) => (.ok bytes.length, store buf pos bytes, w)

def writeAt (pos count : Nat) : Bytes × World → Except Nat Nat × Bytes × World
  | (buf, w) =>
      match write ((buf.drop pos).take count) w with
      | (res, w) => (res, buf, w)

/-- Each iteration uses up an outcome or moves some bytes, so the loop always has a result. -/
def atomRead (n : Nat) (buf : Bytes) (w : World) : Nat × Bytes × World :=
  (atomIo readAt n (n + w.arrivals.length + 1) (buf, w)).getD (0, buf, w)

def atomWrite (n : Nat) (buf : Bytes) (w : World) : Nat × Bytes × World :=
  (atomIo writeAt n (n + w.writes.length + 1) (buf, w)).getD (0, buf, w)

/-- The row gets the bytes at its end, or it is freed. -/
def appendRow (row : Option Bytes) (buf : Bytes) (w : World) : Option Bytes × World :=
  match malloc w with
  | (true, w) => (some (row.getD [] ++ buf), w)
  | (false, w) => (none, w)

def rowBufSize : Nat := 256

/-- A peek looks for a newline, and then the bytes up to it or all of them are taken. -/
def getSockRowStep : Option Bytes × World → (Option Bytes × World) ⊕ (Option Bytes × World)
  | (row, w) =>
      match recv (rowBufSize - 1) true w with
      | (.error _, w) => .inr (row, w)
      | (.ok buf, w) =>
          if buf.isEmpty then .inr (row, w)
          else
            match strchr buf LF with
            | some p =>
                match recv (p + 1) false w with
                | (.error _, w) => .inr (none, w)
                | (.ok buf, w) => if buf.isEmpty then .inr (none, w) else .inr (appendRow row buf w)
            | none =>
                match recv (rowBufSize - 1) false w with
                | (.error _, w) => .inr (none, w)
                | (.ok buf, w) =>
                    if buf.isEmpty then .inr (none, w)
                    else
                      match appendRow row buf w with
                      | (none, w) => .inr (none, w)
                      | (some row, w) => .inl (some row, w)

/-- Each iteration takes some bytes, so the loop always has a result. -/
def getSockRow (w : World) : Option Bytes × World :=
  (loop getSockRowStep (w.stream.length + 1) (none, w)).getD (none, w)

end Piercloud.Connection
