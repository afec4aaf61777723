import Piercloud.Construction.Request
import Piercloud.Construction.Socket

/-
This file embeds `doReadFromServer` of the client's `piercloud.c`.
-/

namespace Piercloud.Client

open CLib Liblst Socket

/-- The wrapper gives a row only for a call that did not fail. -/
def getRowFromSocket (soc : SocketT) (world : World) : Option Bytes × SocketT × World :=
  match Socket.getRowFromSocket soc world with
  | (r, row, soc, world) => if r = -1 then (none, soc, world) else (row, soc, world)

/-- A session returns, exits in an `ASSERT`, or uses freed memory. -/
inductive Ending where
  | returned
  | exited
  | undefined
  deriving DecidableEq, Repr

/-- `passed` records the chunks that were passed to `Chunk`, and `dispatched` what it forked for. -/
structure Session where
  passed : List Bytes
  dispatched : List Dispatch
  statics : Statics
  ending : Ending
  deriving DecidableEq, Repr

def Session.ended (statics : Statics) (ending : Ending) : Session := ⟨[], [], statics, ending⟩

/-- A session passed this chunk first. -/
def Session.after (data : Bytes) (output : Option Dispatch) (session : Session) : Session :=
  { session with passed := data :: session.passed, dispatched := output.toList ++ session.dispatched }

/-- One iteration of the loop ends the session, goes on to the next one, or has data for `Chunk`. -/
inductive Input where
  | ended (ending : Ending)
  | skipped
  | data (bytes : Bytes)
  deriving DecidableEq, Repr

/-- The row gives the size of the data. A failing read may leave the pointer to the freed row, and a single
`0` is a ping. -/
def readInput (soc : SocketT) (world : World) : Input × SocketT × World :=
  match getRowFromSocket soc world with
  | (none, soc, world) => (.ended .returned, soc, world)
  | (some row, soc, world) =>
      let data := cstr (chopStr (row ++ [NUL]))
      if data.isEmpty then (.skipped, soc, world)
      else
        let len := toSize (strtol data 16)
        match getBufFromSocket .freed soc (toSigned len) world with
        | (_, .null, soc, world) => (.ended .returned, soc, world)
        | (_, .freed, soc, world) => (.ended .undefined, soc, world)
        | (_, .block memory, soc, world) =>
            if memory.head? = some 48 ∧ len = 1 then (.skipped, soc, world)
            else (.data (memory.take len), soc, world)

def doReadLoop (cfg : Config) : Nat → State → SocketT → World → Session
  | 0, s, _, _ => Session.ended s.statics .returned
  | fuel + 1, s, soc, world =>
      match readInput soc world with
      | (.ended ending, _, _) => Session.ended s.statics ending
      | (.skipped, soc, world) => doReadLoop cfg fuel s soc world
      | (.data bytes, soc, world) =>
          match chunk cfg s bytes with
          | none => { Session.ended s.statics .exited with passed := [bytes] }
          | some (s, output) => (doReadLoop cfg fuel s soc world).after bytes output

/-- Each iteration takes at least one byte, so the fuel never runs out. -/
def doReadFromServer (cfg : Config) (statics : Statics) (soc : SocketT) (world : World) : Session :=
  if !soc.fn then Session.ended statics .returned
  else doReadLoop cfg (world.size + soc.bufLen + 2) (sessionStart statics) soc world

end Piercloud.Client
