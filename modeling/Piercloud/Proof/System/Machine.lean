import Piercloud.Library.Product
import Piercloud.Proof.Answer.Unkilled
import Piercloud.Proof.System.Delivery

/-
This file puts the parties of one device together: the processes of `piercloud-cgi.c`, the HTTP streams of the
`Connect` processes, the clients that read them, and the children that the clients fork. No process is killed.
-/

namespace Piercloud

open CLib Cgi Client Runs

/-- A stream holds the writes that its client has not received. A client that an `ASSERT` has ended has no state. The
children in the list have not started their `Respond`. -/
structure System (κ π : Type*) where
  device : Device κ π
  exchange : Exchange π Unit
  stream : κ → List Bytes
  received : κ → List Bytes
  client : κ → Option State
  children : List Dispatch

/-- The names are those of the system calls. `ask` is the last write of a request. `reply` and `noPath` start the
`Respond` of a child, which opens the FIFO of its response or does not find it. -/
inductive Event (κ π : Type*) where
  | connect (a : Action κ π)
  | start (p : π)
  | openLock (p : π)
  | lock (p : π)
  | refuse (p : π) (removed : Bool)
  | openWrite (p : π)
  | write (p : π) (n : Nat)
  | ask (p : π) (n : Nat)
  | closeWrite (p : π)
  | openRead (p : π)
  | opened (p : π)
  | take (p : π) (n : Nat)
  | eof (p : π)
  | closeRead (p : π)
  | unlock (p : π)
  | unlink (p : π)
  | receive (k : κ)
  | reply (child : Dispatch) (p : π)
  | noPath (child : Dispatch) (p : π)
  | writable (p : π)
  | put (p : π) (n : Nat)
  | broken (p : π)
  | closeReply (p : π)
  deriving DecidableEq, Repr

namespace Event

variable {κ π : Type*}

/-- This is what the event does at the lock and at the FIFO of the requests. -/
def action : Event κ π → Option (Action κ π)
  | .connect a => some a
  | .openLock p => some (.openLock p)
  | .lock p => some (.lock p)
  | .refuse p _ => some (.refuse p)
  | .openWrite p => some (.openWrite p)
  | .write p n => some (.write p n)
  | .ask p n => some (.write p n)
  | .closeWrite p => some (.closeWrite p)
  | .closeRead p => some (.answer p)
  | .unlock p => some (.unlock p)
  | _ => none

/-- This is what the event does at the FIFO of the response. -/
def move : Event κ π → Option (Move π)
  | .start p => some (.start p)
  | .lock p => some (.lock p)
  | .refuse p removed => some (.refuse p removed)
  | .ask p _ => some (.ask p)
  | .openRead p => some (.openRead p)
  | .opened p => some (.opened p)
  | .take p n => some (.take p n)
  | .eof p => some (.eof p)
  | .closeRead p => some (.closeRead p)
  | .unlock p => some (.unlock p)
  | .unlink p => some (.unlink p)
  | .reply _ p => some (.openWrite p)
  | .noPath _ p => some (.noPath p)
  | .writable p => some (.writable p)
  | .put p n => some (.put p n)
  | .broken p => some (.broken p)
  | .closeReply p => some (.closeWrite p)
  | _ => none

end Event

/-- The action is one of `Connect`. -/
def Cgi.Action.connects {κ π : Type*} : Action κ π → Bool
  | .creat _ | .mkfifo _ | .openRead _ | .timeout _ | .ready _ | .read _ _ | .again _ | .eof _ | .closeRead _ => true
  | .openLock _ | .lock _ | .openWrite _ | .refuse _ | .write _ _ | .closeWrite _ | .answer _ | .unlock _ => false

namespace System

variable {κ π : Type*}

def initial : System κ π where
  device := Device.initial
  exchange := Exchange.initial
  stream := fun _ => []
  received := fun _ => []
  client := fun _ => some (sessionStart Statics.initial)
  children := []

section Step

variable [DecidableEq κ] [DecidableEq π] (cfg : Config) (requests : π → CgiRequest) (answers : π → Bytes)

/-- The child that is forked for a request carries the answer to it. -/
def setup : Setup π Unit where
  device := fun _ => ()
  pid := fun p => (requests p).input.pid
  response := answers

/-- These are the orders of the calls of one process. A child finds the path of its response by the pid. -/
def Ready (s : System κ π) : Event κ π → Prop
  | .connect a => a.connects = true
  | .openLock p => s.exchange.pier p = .made
  | .write p n => s.device.count p + n < (pierBytes (requests p).input).length
  | .ask p n => s.device.count p + n = (pierBytes (requests p).input).length
  | .openRead p => s.device.pier p = .waiting
  | .receive k => s.stream k ≠ [] ∧ (s.client k).isSome
  | .reply child p | .noPath child p => child ∈ s.children ∧ child.pid = (requests p).input.pid
  | _ => True

/-- The client passes a write to `Chunk`, unless it is a ping. An `ASSERT` of `Chunk` ends the client. -/
def passes (c : State) (payload : Bytes) : Option State × Option Dispatch :=
  if payload = pingBytes then (some c, none)
  else
    match chunk cfg c payload with
    | none => (none, none)
    | some (c, output) => (some c, output)

/-- The client receives the next write of its `Connect`. -/
def receive (s : System κ π) (k : κ) : System κ π :=
  match s.stream k, s.client k with
  | payload :: rest, some c =>
      { s with
        stream := Function.update s.stream k rest
        received := Function.update s.received k (s.received k ++ [payload])
        client := Function.update s.client k (passes cfg c payload).1
        children := s.children ++ (passes cfg c payload).2.toList }
  | _, _ => s

/-- The writes of `Connect` go into its stream, and a child whose `Respond` has started is no longer in the list. -/
def effect (s : System κ π) (e : Event κ π) (device : Device κ π) (exchange : Exchange π Unit) : System κ π where
  device := device
  exchange := exchange
  stream := fun k => s.stream k ++
    ((e.action.bind (Device.connectWrite k s.device)).map ConnectWrite.bytes).toList
  received := s.received
  client := s.client
  children :=
    match e with
    | .reply child _ | .noPath child _ => s.children.erase child
    | _ => s.children

instance (s : System κ π) : ∀ e : Event κ π, Decidable (Ready requests s e)
  | .connect _ => inferInstanceAs (Decidable (_ = _))
  | .openLock _ => inferInstanceAs (Decidable (_ = _))
  | .write _ _ => inferInstanceAs (Decidable (_ < _))
  | .ask _ _ => inferInstanceAs (Decidable (_ = _))
  | .openRead _ => inferInstanceAs (Decidable (_ = _))
  | .receive _ => inferInstanceAs (Decidable (_ ≠ _ ∧ _))
  | .reply _ _ | .noPath _ _ => inferInstanceAs (Decidable (_ ∈ _ ∧ _ = _))
  | .start _ | .lock _ | .refuse _ _ | .openWrite _ | .closeWrite _ | .opened _ | .take _ _ | .eof _ | .closeRead _
  | .unlock _ | .unlink _ | .writable _ | .put _ _ | .broken _ | .closeReply _ => isTrue trivial

def step (s : System κ π) (e : Event κ π) : Option (System κ π) :=
  if Ready requests s e then
    match e with
    | .receive k => some (receive cfg s k)
    | e =>
        (advance (Device.step (Device.inputs requests)) s.device e.action).bind fun device =>
          (advance (Exchange.step (setup requests answers)) s.exchange e.move).map fun exchange =>
            effect s e device exchange
  else none

end Step

end System

end Piercloud
