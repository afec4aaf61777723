import Mathlib.Logic.Function.Basic
import Piercloud.Library.CString
import Piercloud.Library.Fifo

/-
This file embeds how `Pier` and `Respond` of `piercloud-cgi.c` pass a response through the FIFO whose path is
made of the device and the pid. The client forks one child for each request, and the child's `Respond` carries
the response to this request.
-/

namespace Piercloud.Cgi

open CLib

/-- These are the points of `Pier`: before it starts, behind `MkFifo`, behind `lockf`, behind its last write,
in `open`, in the read loop, and before `close`, the unlock and `unlink`. -/
inductive WaitPoint where
  | idle
  | made
  | locked
  | asked
  | opening
  | reading
  | closing
  | closed
  | unlocked
  | ended
  | refused
  | killed
  deriving DecidableEq, Repr

/-- These are the points of `Respond`: before its request is whole, before `open`, in `open`, between its
writes, and behind `close`. It fails without the path or without a reader, and it is stuck when the path is
removed under it. -/
inductive RespondPoint where
  | idle
  | pending
  | opening
  | writing
  | closed
  | failed
  | stuck
  deriving DecidableEq, Repr

/-- A run of `Pier` has a device and a pid, and its request has a response. -/
structure Setup (ι δ : Type*) where
  device : ι → δ
  pid : ι → Nat
  response : ι → Bytes

/-- The path is shared by all runs with the same device and pid. -/
def Setup.path {ι δ : Type*} (setup : Setup ι δ) (i : ι) : δ × Nat := (setup.device i, setup.pid i)

/-- A live run has its pid in the process table. `met` says that a writer has called `open` since the run
waits for one, and `found` says the same of a response and its reader. -/
structure Exchange (ι δ : Type*) where
  pier : ι → WaitPoint
  respond : ι → RespondPoint
  process : Nat → Option ι
  owner : δ → Option ι
  file : δ × Nat → Bool
  fifo : δ × Nat → Fifo ι ι UInt8
  met : ι → Bool
  found : ι → Bool
  count : ι → Nat
  copied : ι → Bytes

/-- The names are those of the system calls. `opened` and `writable` are their returns from `open`. -/
inductive Move (ι : Type*) where
  | start (i : ι)
  | lock (i : ι)
  | refuse (i : ι) (removed : Bool)
  | ask (i : ι)
  | openRead (i : ι)
  | opened (i : ι)
  | take (i : ι) (n : Nat)
  | eof (i : ι)
  | closeRead (i : ι)
  | unlock (i : ι)
  | unlink (i : ι)
  | kill (i : ι)
  | openWrite (r : ι)
  | noPath (r : ι)
  | writable (r : ι)
  | put (r : ι) (n : Nat)
  | broken (r : ι)
  | closeWrite (r : ι)
  deriving DecidableEq, Repr

/-- The run has started and has not ended. -/
def WaitPoint.alive : WaitPoint → Bool
  | .idle => false
  | .ended => false
  | .refused => false
  | .killed => false
  | _ => true

namespace Exchange

variable {ι δ : Type*}

def initial : Exchange ι δ where
  pier := fun _ => .idle
  respond := fun _ => .idle
  process := fun _ => none
  owner := fun _ => none
  file := fun _ => false
  fifo := fun _ => Fifo.empty
  met := fun _ => false
  found := fun _ => false
  count := fun _ => 0
  copied := fun _ => []

section Step

variable [DecidableEq ι] [DecidableEq δ] (setup : Setup ι δ)

def pipe (s : Exchange ι δ) (i : ι) : Fifo ι ι UInt8 := s.fifo (setup.path i)

def setPier (s : Exchange ι δ) (i : ι) (point : WaitPoint) : Exchange ι δ :=
  { s with pier := Function.update s.pier i point }

def setRespond (s : Exchange ι δ) (r : ι) (point : RespondPoint) : Exchange ι δ :=
  { s with respond := Function.update s.respond r point }

def setPipe (s : Exchange ι δ) (i : ι) (f : Fifo ι ι UInt8) : Exchange ι δ :=
  { s with fifo := Function.update s.fifo (setup.path i) f }

/-- A process that ends gives up its pid and its lock. -/
def exit (s : Exchange ι δ) (i : ι) (point : WaitPoint) : Exchange ι δ where
  __ := s.setPier i point
  process := Function.update s.process (setup.pid i) none
  owner := if s.owner (setup.device i) = some i then Function.update s.owner (setup.device i) none else s.owner

/-- The name goes away, and the processes at the FIFO stay without a partner. -/
def unlinkPath (s : Exchange ι δ) (i : ι) : Exchange ι δ where
  __ := s.setPipe setup i Fifo.empty
  file := Function.update s.file (setup.path i) false
  respond := fun r => if r ∈ (s.pipe setup i).writers then .stuck else s.respond r

/-- Both calls of `open` block until the other end has called it. -/
def Enabled (s : Exchange ι δ) : Move ι → Prop
  | .start i => s.pier i = .idle ∧ s.process (setup.pid i) = none
  | .lock i => s.pier i = .made ∧ s.owner (setup.device i) = none
  | .refuse i _ => s.pier i = .made ∨ s.pier i = .locked
  | .ask i => s.pier i = .locked
  | .openRead i => s.pier i = .asked
  | .opened i => s.pier i = .opening ∧ s.met i = true
  | .take i n => s.pier i = .reading ∧ 0 < n ∧ n ≤ (s.pipe setup i).content.length
  | .eof i => s.pier i = .reading ∧ (s.pipe setup i).content = [] ∧ (s.pipe setup i).writers = ∅
  | .closeRead i => s.pier i = .closing
  | .unlock i => s.pier i = .closed
  | .unlink i => s.pier i = .unlocked
  | .kill i => (s.pier i).alive = true
  | .openWrite r => s.respond r = .pending ∧ s.file (setup.path r) = true
  | .noPath r => s.respond r = .pending ∧ s.file (setup.path r) = false
  | .writable r => s.respond r = .opening ∧ s.found r = true
  | .put r n => s.respond r = .writing ∧ 0 < n ∧ s.count r + n ≤ (setup.response r).length ∧
      (s.pipe setup r).readers ≠ ∅
  | .broken r => s.respond r = .writing ∧ (s.pipe setup r).readers = ∅
  | .closeWrite r => s.respond r = .writing ∧ s.count r = (setup.response r).length

/-- `MkFifo` accepts a FIFO that is already there. A refused `Pier` frees the path before `unlink` reads it, so
the name may stay. -/
def effect (s : Exchange ι δ) : Move ι → Exchange ι δ
  | .start i => { s.setPier i .made with
      process := Function.update s.process (setup.pid i) (some i)
      file := Function.update s.file (setup.path i) true }
  | .lock i => { s.setPier i .locked with owner := Function.update s.owner (setup.device i) (some i) }
  | .refuse i removed => (if removed then s.unlinkPath setup i else s).exit setup i .refused
  | .ask i => (s.setPier i .asked).setRespond i .pending
  | .openRead i => { (s.setPier i .opening).setPipe setup i ((s.pipe setup i).openRead i) with
      met := Function.update s.met i (decide ((s.pipe setup i).writers ≠ ∅))
      found := fun r => if r ∈ (s.pipe setup i).writers then true else s.found r }
  | .opened i => s.setPier i .reading
  | .take i n => { s.setPipe setup i ((s.pipe setup i).pull n) with
      copied := Function.update s.copied i (s.copied i ++ (s.pipe setup i).content.take n) }
  | .eof i => s.setPier i .closing
  | .closeRead i => (s.setPier i .closed).setPipe setup i ((s.pipe setup i).closeRead i)
  | .unlock i => { s.setPier i .unlocked with
      owner := if s.owner (setup.device i) = some i then Function.update s.owner (setup.device i) none
        else s.owner }
  | .unlink i => (s.unlinkPath setup i).exit setup i .ended
  | .kill i => (s.setPipe setup i ((s.pipe setup i).closeRead i)).exit setup i .killed
  | .openWrite r => { (s.setRespond r .opening).setPipe setup r ((s.pipe setup r).openWrite r) with
      met := fun i => if i ∈ (s.pipe setup r).readers then true else s.met i
      found := Function.update s.found r (decide ((s.pipe setup r).readers ≠ ∅)) }
  | .noPath r => s.setRespond r .failed
  | .writable r => s.setRespond r .writing
  | .put r n => { s.setPipe setup r ((s.pipe setup r).push (((setup.response r).drop (s.count r)).take n)) with
      count := Function.update s.count r (s.count r + n) }
  | .broken r => (s.setRespond r .failed).setPipe setup r ((s.pipe setup r).closeWrite r)
  | .closeWrite r => (s.setRespond r .closed).setPipe setup r ((s.pipe setup r).closeWrite r)

instance (s : Exchange ι δ) : ∀ a : Move ι, Decidable (Enabled setup s a)
  | .start _ => inferInstanceAs (Decidable (_ = _ ∧ _ = _))
  | .lock _ => inferInstanceAs (Decidable (_ = _ ∧ _ = _))
  | .refuse _ _ => inferInstanceAs (Decidable (_ = _ ∨ _ = _))
  | .ask _ => inferInstanceAs (Decidable (_ = _))
  | .openRead _ => inferInstanceAs (Decidable (_ = _))
  | .opened _ => inferInstanceAs (Decidable (_ = _ ∧ _ = _))
  | .take _ _ => inferInstanceAs (Decidable (_ = _ ∧ _ < _ ∧ _ ≤ _))
  | .eof _ => inferInstanceAs (Decidable (_ = _ ∧ _ = _ ∧ _ = _))
  | .closeRead _ => inferInstanceAs (Decidable (_ = _))
  | .unlock _ => inferInstanceAs (Decidable (_ = _))
  | .unlink _ => inferInstanceAs (Decidable (_ = _))
  | .kill _ => inferInstanceAs (Decidable (_ = _))
  | .openWrite _ => inferInstanceAs (Decidable (_ = _ ∧ _ = _))
  | .noPath _ => inferInstanceAs (Decidable (_ = _ ∧ _ = _))
  | .writable _ => inferInstanceAs (Decidable (_ = _ ∧ _ = _))
  | .put _ _ => inferInstanceAs (Decidable (_ = _ ∧ _ < _ ∧ _ ≤ _ ∧ _ ≠ _))
  | .broken _ => inferInstanceAs (Decidable (_ = _ ∧ _ = _))
  | .closeWrite _ => inferInstanceAs (Decidable (_ = _ ∧ _ = _))

def step (s : Exchange ι δ) (a : Move ι) : Option (Exchange ι δ) :=
  if Enabled setup s a then some (effect setup s a) else none

theorem step_eq_some {s t : Exchange ι δ} {a : Move ι} :
    step setup s a = some t ↔ Enabled setup s a ∧ effect setup s a = t := by
  unfold step
  split <;> simp_all

end Step

end Exchange

end Piercloud.Cgi
