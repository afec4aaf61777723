import Piercloud.Construction.Authorization
import Piercloud.Construction.Connection
import Piercloud.Library.Nesting

/-
This file embeds the loop of the client's `main`, with the macros of `sslwrapper.h`.
-/

namespace Piercloud.Client

open CLib Socket Loop Nesting Connection

/-- The results of the calls of OpenSSL around a session. `shutdown` gives the result of each attempt. -/
structure Tls where
  context : Bool
  ssl : Bool
  setFd : Int
  connect : Int
  shutdown : Nat → Int

/-- The code between the two macros runs behind these calls. -/
def Tls.Established (tls : Tls) : Prop :=
  tls.context = true ∧ tls.ssl = true ∧ tls.setFd = 1 ∧ tls.connect = 1

instance (tls : Tls) : Decidable tls.Established := inferInstanceAs (Decidable (_ ∧ _ ∧ _ ∧ _))

/-- What has to be closed at the end of a session. -/
inductive Handle where
  | descriptor (c : Int)
  | context
  | ssl
  deriving DecidableEq, Repr

/-- The surroundings of one turn of the loop of `main`. Its variable `soc` is not initialised. -/
structure Attempt where
  sys : Connection.System
  net : Connection.World
  tls : Tls
  soc : SocketT
  gateway : Gateway
  world : Socket.World

/-- `main` and `Chunk` call `Connection` with these arguments. -/
def serverConnection (sys : Connection.System) (net : Connection.World) : Exit :=
  connection sys (some (text "piercloud.com")) (atoi (text "443")) none net

/-- An accepted answer leaves this socket for `doReadFromServer`. -/
def Attempt.tunnel (a : Attempt) (cfg : Config) : Option (SocketT × Socket.World) :=
  match initSocket a.soc 0 true a.world with
  | (r, soc, world) =>
      if r = -1 then none
      else
        (authorization a.gateway cfg.gId soc world).bind fun result =>
          if result.rval = 1 then some (result.soc, result.world) else none

/-- This code stands between the two macros. -/
def Attempt.session (a : Attempt) (cfg : Config) (statics : Statics) : Session :=
  match a.tunnel cfg with
  | none => .ended statics .returned
  | some (soc, world) => doReadFromServer cfg statics soc world

/-- The descriptors that `CloseConnection` closes. -/
def closing (sys : Connection.System) (c : Int) (net : Connection.World) : List (Bracket Handle) :=
  ((closeConnection sys c net).2.closed.drop net.closed.length).map fun c => .closed (.descriptor c)

end Piercloud.Client
