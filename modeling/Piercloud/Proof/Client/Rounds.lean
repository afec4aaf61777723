import Piercloud.Proof.Client.Accepted
import Piercloud.Proof.Connection.Handshake
import Piercloud.Proof.Parser.Ahead
import Piercloud.Proof.Parser.Draining

/-
This file follows the requests of the tunnel into a client that connects again and again.
-/

namespace Piercloud.Client

open CLib Socket Loop Wire Runs Connection

variable {cfg : Config} {statics : Statics} {a : Attempt}

/-- The parser is in front of a pid line. -/
def Statics.Clear (statics : Statics) : Prop := statics.inHeader = false ∧ statics.inData = false

/-- The connection is not lost between the header block of a request and the end of its body. -/
def BodiesWhole (requests : List Request) (lost : Bytes) : Prop :=
  ∀ before r after, requests = before ++ r :: after →
    ¬ ((after.flatMap Request.encode).length < lost.length ∧
      lost.length ≤ (r.body ++ after.flatMap Request.encode).length)

/-- The server grants this attempt a session. Its answer has no body, and the first chunk of the tunnel may come with
it. The tunnel carries requests until the connection is lost. -/
structure Granted where
  attempt : Attempt
  head : AnswerHead
  lead : Option HttpChunk
  chunks : List HttpChunk
  opening : List ReadOutcome
  requests : List Request
  lost : Bytes
  connected : ∃ c net, serverConnection attempt.sys attempt.net = .returned c net ∧ c ≠ -1
  established : attempt.tls.Established
  sends : attempt.gateway.Sends
  approved : head.Approved
  bare : head.announced = 0
  plenty : Plenty attempt.world
  reads : attempt.world.reads = opening ++ chunks.flatMap HttpChunk.outcomes
  delivers : Delivers opening (responseText head.lines (lead.elim [] HttpChunk.bytes))
  sizes : ∀ c ∈ lead.toList ++ chunks, c.payload ≠ [] ∧ c.payload.length < 2 ^ 63
  stream : (piecesOf (lead.toList ++ chunks)).flatten ++ lost = requests.flatMap Request.encode
  whole : BodiesWhole requests lost

def Granted.pieces (g : Granted) : List Bytes := piecesOf (g.lead.toList ++ g.chunks)

/-- The attempt ends in front of its session. -/
def Attempt.Fails (a : Attempt) (cfg : Config) : Prop :=
  (∃ net, serverConnection a.sys a.net = .returned (-1) net) ∨ ¬ a.tls.Established ∨ a.tunnel cfg = none

/-- One round of the client fails or has a session. -/
inductive Round (cfg : Config) where
  | failed (attempt : Attempt) (fails : attempt.Fails cfg)
  | granted (session : Granted)

def Round.attempt : Round cfg → Attempt
  | .failed attempt _ => attempt
  | .granted session => session.attempt

def Round.requests : Round cfg → List Request
  | .failed _ _ => []
  | .granted session => session.requests

/-- The requests that are complete in what came. -/
def Round.complete : Round cfg → List Request
  | .failed _ _ => []
  | .granted session => session.requests.take (completeCount session.requests session.pieces.flatten.length)

/-- When the connection is lost in front of a request or in its header block, the parser is in front of a pid line. -/
theorem Ahead.clear {s : State} {done left : List Request} {lost : Bytes} (ahead : Ahead cfg s left lost)
    (whole : BodiesWhole (done ++ left) lost) : s.statics.Clear := by
  rcases ahead with ⟨pending, idle, -⟩ | ⟨r, later, pending, rfl, -, short, stream⟩
  · exact ⟨idle.inHeader, idle.inData⟩
  · have sizes := congrArg List.length stream
    have outside := whole done r later rfl
    simp only [List.length_append] at sizes outside
    omega

end Piercloud.Client
