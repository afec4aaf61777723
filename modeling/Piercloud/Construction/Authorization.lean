import Piercloud.Construction.Session
import Piercloud.Library.Loop

/-
This file embeds `authorization.c`, which asks the server for the tunnel and announces a response to it.
-/

namespace Piercloud.Client

open CLib Liblst Socket Loop

def CRLF : Bytes := [CR, LF]

/-- This is `TMPL_AUTH_HEADER`. -/
def authHeader (get : Bytes) : Bytes :=
  text "GET /" ++ cstr get ++ text " HTTP/1.1" ++ CRLF ++ text "Host: piercloud.com" ++ CRLF ++ CRLF

/-- This is `TMPL_AUTH_HEADER2`. -/
def authHeader2 (get : Bytes) (length : Nat) : Bytes :=
  text "PUT /" ++ cstr get ++ text " HTTP/1.1" ++ CRLF ++ text "Host: piercloud.com" ++ CRLF ++
    text "Content-Length: " ++ signedDecimal (toSigned length) ++ CRLF ++ CRLF

/-- The surroundings of a request give the credentials, the memory for its header, and the result of `SSL_write`. -/
structure Gateway where
  basicRow : Bool
  memory : Bool
  written : Int
  deriving DecidableEq, Repr

/-- The header is sent, or one of the three steps fails. -/
def Gateway.Sends (gateway : Gateway) : Prop :=
  gateway.basicRow = true ∧ gateway.memory = true ∧ 0 < gateway.written

instance (gateway : Gateway) : Decidable gateway.Sends := inferInstanceAs (Decidable (_ ∧ _ ∧ _))

/-- The mark may stand anywhere in the row, but the number is read behind as many bytes as the mark has. -/
def lengthInside (contentLen : Nat) (buf : Bytes) : Nat :=
  if (strcasestr buf contentLengthMark).isSome then toSize (atoll (buf.drop contentLengthMark.length))
  else contentLen

/-- The first row has three words, the second has a `200` inside, and the third an `OK` in any case. A row without a
word leaves the result as it is. -/
def judgedRow (rval : Int) (buf : Bytes) : Int :=
  match lstSplitStr 32 buf with
  | [] => rval
  | [_, code, reason] =>
      if (strcasestr code (text "200")).isSome ∧ (strcasestr reason (text "OK")).isSome then 1 else 0
  | _ => 0

/-- These are the variables of the row loop of `Authorization`. -/
structure Judging where
  i : Nat
  contentLen : Nat
  rval : Int
  soc : SocketT
  world : World
  deriving DecidableEq, Repr

/-- A missing row and an empty one end the loop; only the empty one is counted. -/
def authStep (s : Judging) : Judging ⊕ Judging :=
  match Socket.getRowFromSocket s.soc s.world with
  | (r, row, soc, world) =>
      if r = -1 then .inr { s with soc := soc, world := world }
      else
        let buf := cstr (chopStr (row.getD [] ++ [NUL]))
        if buf.isEmpty then .inr { s with i := s.i + 1, soc := soc, world := world }
        else
          .inl {
            i := s.i + 1, contentLen := lengthInside s.contentLen buf
            rval := if s.i + 1 = 1 then judgedRow s.rval buf else s.rval, soc := soc, world := world }

def authRows (soc : SocketT) (world : World) : Option Judging :=
  loop authStep (world.size + soc.bufLen + 2) ⟨0, 0, -1, soc, world⟩

/-- `sent` holds what `SSL_write` took. -/
structure Authorized where
  rval : Int
  sent : Bytes
  soc : SocketT
  world : World
  deriving DecidableEq, Repr

/-- The body is taken and dropped. A failing read of it does not change the result. -/
def takeAnswer (sent : Bytes) (s : Judging) : Authorized :=
  if s.i = 0 then ⟨-1, sent, s.soc, s.world⟩
  else if s.contentLen = 0 then ⟨s.rval, sent, s.soc, s.world⟩
  else
    match getBufFromSocket .null s.soc (toSigned s.contentLen) s.world with
    | (_, _, soc, world) => ⟨s.rval, sent, soc, world⟩

/-- Each iteration of the loop takes at least one byte, so there is always a result. -/
def authorization (gateway : Gateway) (get : Bytes) (soc : SocketT) (world : World) : Option Authorized :=
  if gateway.Sends then (authRows soc world).map (takeAnswer (authHeader get)) else some ⟨-1, [], soc, world⟩

/-- The result is zero when the header is sent. -/
def respondHeader (gateway : Gateway) (get : Bytes) (length : Nat) : Int × Bytes :=
  if gateway.Sends then (0, authHeader2 get length) else (-1, [])

/-- The child names the request that it answers. -/
def respondUri (cfg : Config) (pid : Int) : Bytes := cstr cfg.gId ++ text "/" ++ signedDecimal pid

end Piercloud.Client
