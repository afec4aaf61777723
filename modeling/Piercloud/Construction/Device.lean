import Mathlib.Logic.Function.Basic
import Piercloud.Construction.Header
import Piercloud.Library.Fifo

/-
This file embeds the processes of one device in `piercloud-cgi.c`: any number of `Connect` processes read the
FIFO, and any number of `Pier` processes write into it. No process is killed and no `ASSERT` fires.
-/

namespace Piercloud.Cgi

open CLib

/-- These are the points of `Connect`: before `creat`, before `mkfifo`, before `open`, in `select`, in the read
loop, and before `close`. -/
inductive ConnectPoint where
  | start
  | created
  | closed
  | selecting
  | reading
  | closing
  deriving DecidableEq, Repr

/-- These are the points of `Pier`: before the lock file is opened, before `lockf`, before the FIFO is opened,
between its writes, before the response has ended, and before the unlock. A refused process has answered 434. -/
inductive PierPoint where
  | start
  | lockOpened
  | locked
  | writing
  | waiting
  | answered
  | done
  | refused
  deriving DecidableEq, Repr

/-- Each byte in the FIFO is marked with its writer. The last three fields record the order of the locks, what
was written, and which process read it. -/
structure Device (κ π : Type*) where
  lockFile : Bool
  fifoFile : Bool
  fifo : Fifo κ π (π × UInt8)
  owner : Option π
  connect : κ → ConnectPoint
  pier : π → PierPoint
  count : π → Nat
  lockOrder : List π
  written : List (π × UInt8)
  readLog : List (κ × π × UInt8)

/-- The names are those of the system calls. A `Pier` is refused when one of its three opening calls fails. -/
inductive Action (κ π : Type*) where
  | creat (k : κ)
  | mkfifo (k : κ)
  | openRead (k : κ)
  | timeout (k : κ)
  | ready (k : κ)
  | read (k : κ) (n : Nat)
  | again (k : κ)
  | eof (k : κ)
  | closeRead (k : κ)
  | openLock (p : π)
  | lock (p : π)
  | openWrite (p : π)
  | refuse (p : π)
  | write (p : π) (n : Nat)
  | closeWrite (p : π)
  | answer (p : π)
  | unlock (p : π)
  deriving DecidableEq, Repr

namespace Device

variable {κ π : Type*}

def initial : Device κ π where
  lockFile := false
  fifoFile := false
  fifo := Fifo.empty
  owner := none
  connect := fun _ => .start
  pier := fun _ => .start
  count := fun _ => 0
  lockOrder := []
  written := []
  readLog := []

/-- These are the bytes that one `Connect` forwarded to its client. -/
def forwarded [DecidableEq κ] (s : Device κ π) (k : κ) : List (π × UInt8) :=
  (s.readLog.filter fun entry => entry.1 = k).map Prod.snd

section Step

variable [DecidableEq κ] [DecidableEq π] (input : π → PierInput)

/-- The next bytes of a request are marked with their writer. -/
def nextBytes (s : Device κ π) (p : π) (n : Nat) : List (π × UInt8) :=
  (((pierBytes (input p)).drop (s.count p)).take n).map fun b => (p, b)

/-- One `write` may take only a part of the buffer. -/
def putBytes (s : Device κ π) (p : π) (n : Nat) : Device κ π where
  __ := s
  fifo := s.fifo.push (nextBytes input s p n)
  written := s.written ++ nextBytes input s p n
  count := Function.update s.count p (s.count p + n)

def setConnect (s : Device κ π) (k : κ) (point : ConnectPoint) : Device κ π :=
  { s with connect := Function.update s.connect k point }

def setPier (s : Device κ π) (p : π) (point : PierPoint) : Device κ π :=
  { s with pier := Function.update s.pier p point }

/-- A write blocks or repeats while no reader is there, and `lockf` blocks while the lock is held. -/
def Enabled (s : Device κ π) : Action κ π → Prop
  | .creat k => s.connect k = .start
  | .mkfifo k => s.connect k = .created
  | .openRead k => s.connect k = .closed
  | .timeout k => s.connect k = .selecting
  | .ready k => s.connect k = .selecting ∧ (s.fifo.content ≠ [] ∨ s.fifo.writers = ∅)
  | .read k n => s.connect k = .reading ∧ 0 < n ∧ n ≤ pipeBuf - 1 ∧ n ≤ s.fifo.content.length
  | .again k => s.connect k = .reading ∧ s.fifo.content = [] ∧ s.fifo.writers ≠ ∅
  | .eof k => s.connect k = .reading ∧ s.fifo.content = [] ∧ s.fifo.writers = ∅
  | .closeRead k => s.connect k = .closing
  | .openLock p => s.pier p = .start ∧ s.lockFile = true
  | .lock p => s.pier p = .lockOpened ∧ s.owner = none
  | .openWrite p => s.pier p = .locked ∧ s.fifoFile = true ∧ s.fifo.readers ≠ ∅
  | .refuse p => s.pier p = .start ∨ s.pier p = .lockOpened ∨ s.pier p = .locked
  | .write p n => s.pier p = .writing ∧ 0 < n ∧ s.count p + n ≤ (pierBytes (input p)).length ∧
      s.fifo.readers ≠ ∅
  | .closeWrite p => s.pier p = .writing ∧ s.count p = (pierBytes (input p)).length
  | .answer p => s.pier p = .waiting
  | .unlock p => s.pier p = .answered

/-- A process that ends gives up its lock. -/
def release (s : Device κ π) (p : π) : Device κ π :=
  if s.owner = some p then { s with owner := none } else s

omit [DecidableEq κ] in
@[simp] theorem release_eq (s : Device κ π) (p : π) :
    s.release p = { s with owner := if s.owner = some p then none else s.owner } := by
  unfold release
  split <;> rfl

def effect (s : Device κ π) : Action κ π → Device κ π
  | .creat k => { s.setConnect k .created with lockFile := true }
  | .mkfifo k => { s.setConnect k .closed with fifoFile := true }
  | .openRead k => { s.setConnect k .selecting with fifo := s.fifo.openRead k }
  | .timeout k => s.setConnect k .closing
  | .ready k => s.setConnect k .reading
  | .read k n => { s with
      fifo := s.fifo.pull n
      readLog := s.readLog ++ (s.fifo.content.take n).map fun b => (k, b) }
  | .again _ => s
  | .eof k => s.setConnect k .closing
  | .closeRead k => { s.setConnect k .closed with fifo := s.fifo.closeRead k }
  | .openLock p => s.setPier p .lockOpened
  | .lock p => { s.setPier p .locked with owner := some p, lockOrder := s.lockOrder ++ [p] }
  | .openWrite p => { s.setPier p .writing with fifo := s.fifo.openWrite p }
  | .refuse p => (s.setPier p .refused).release p
  | .write p n => putBytes input s p n
  | .closeWrite p => { s.setPier p .waiting with fifo := s.fifo.closeWrite p }
  | .answer p => s.setPier p .answered
  | .unlock p => (s.setPier p .done).release p

instance (s : Device κ π) : ∀ a : Action κ π, Decidable (Enabled input s a)
  | .creat _ => inferInstanceAs (Decidable (_ = _))
  | .mkfifo _ => inferInstanceAs (Decidable (_ = _))
  | .openRead _ => inferInstanceAs (Decidable (_ = _))
  | .timeout _ => inferInstanceAs (Decidable (_ = _))
  | .ready _ => inferInstanceAs (Decidable (_ = _ ∧ (_ ≠ _ ∨ _ = _)))
  | .read _ _ => inferInstanceAs (Decidable (_ = _ ∧ _ < _ ∧ _ ≤ _ ∧ _ ≤ _))
  | .again _ => inferInstanceAs (Decidable (_ = _ ∧ _ = _ ∧ _ ≠ _))
  | .eof _ => inferInstanceAs (Decidable (_ = _ ∧ _ = _ ∧ _ = _))
  | .closeRead _ => inferInstanceAs (Decidable (_ = _))
  | .openLock _ => inferInstanceAs (Decidable (_ = _ ∧ _ = _))
  | .lock _ => inferInstanceAs (Decidable (_ = _ ∧ _ = _))
  | .openWrite _ => inferInstanceAs (Decidable (_ = _ ∧ _ = _ ∧ _ ≠ _))
  | .refuse _ => inferInstanceAs (Decidable (_ = _ ∨ _ = _ ∨ _ = _))
  | .write _ _ => inferInstanceAs (Decidable (_ = _ ∧ _ < _ ∧ _ ≤ _ ∧ _ ≠ _))
  | .closeWrite _ => inferInstanceAs (Decidable (_ = _ ∧ _ = _))
  | .answer _ => inferInstanceAs (Decidable (_ = _))
  | .unlock _ => inferInstanceAs (Decidable (_ = _))

def step (s : Device κ π) (a : Action κ π) : Option (Device κ π) :=
  if Enabled input s a then some (effect input s a) else none

theorem step_eq_some {s t : Device κ π} {a : Action κ π} :
    step input s a = some t ↔ Enabled input s a ∧ effect input s a = t := by
  unfold step
  split <;> simp_all

end Step

end Device

end Piercloud.Cgi
