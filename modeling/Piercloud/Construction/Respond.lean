import Piercloud.Construction.Session
import Piercloud.Library.Loop

/-
This file embeds `getLocalHostRespond` of the client's `piercloud.c`, which hands a request to the local server and
reads the response. Here `increaseBuffer` may get a pointer that holds less than the announced length.
-/

namespace Piercloud.Client

open CLib Liblst Socket Loop

/-- The child reaches the local server or not, and its C library refuses blocks of `limit` bytes or more. The short
strings that a row needs are always allocated. -/
structure LocalHost where
  c : Int
  writeFails : Bool
  limit : Nat
  bounded : limit ≤ 2 ^ 63

/-- A block takes `len` old bytes, `chunkLen` new ones and maybe a terminator. -/
structure Growth where
  len : Nat
  chunkLen : Nat
  terminator : Nat
  deriving DecidableEq, Repr

/-- These are the bytes that are written into the block. -/
def Growth.needed (g : Growth) : Nat := g.len + g.chunkLen + g.terminator

/-- The size of the block is computed as a `size_t`. -/
def Growth.size (g : Growth) : Nat := g.needed % 2 ^ 64

/-- The copy reads that many bytes from the pointer, if they are there. -/
def memcpy (source : Pointer) (count : Nat) : Option Bytes :=
  if count = 0 then some []
  else
    match source with
    | .null => none
    | .freed => none
    | .block memory => if count ≤ memory.length then some (memory.take count) else none

/-- A refused block makes an `ASSERT` fire. A block that is too small, and a source that is, are overrun. -/
def Growth.copy (limit : Nat) (g : Growth) (chunk : Pointer) : Except Ending Bytes :=
  if limit ≤ g.size then .error .exited
  else if g.size < g.needed then .error .undefined
  else
    match memcpy chunk g.chunkLen with
    | none => .error .undefined
    | some bytes => .ok bytes

/-- The old block is followed by the copied bytes and a terminator. -/
def grownBuffer (b : Buffer) (bytes : Bytes) (chunkLen : Nat) : Buffer where
  buf := some (b.bytes ++ bytes ++ [NUL])
  len := b.len + chunkLen

/-- This is `increaseBuffer` for a chunk at a pointer. -/
def increaseBufferFrom (limit : Nat) (b : Buffer) (chunk : Pointer) (chunkLen : Nat) : Except Ending Buffer :=
  (Growth.copy limit ⟨b.len, chunkLen, 1⟩ chunk).map fun bytes => grownBuffer b bytes chunkLen

def statusMark : Bytes := text "HTTP/1.1 "

def chunkedMark : Bytes := text "Transfer-Encoding: chunked"

/-- A line that starts with the mark, in any case, has the exact mark replaced everywhere. -/
def statusLine (data : Bytes) : Bytes :=
  if strcasestr data statusMark = some 0 then replaceStrFormat data statusMark (text "Status: ") else data

/-- These are the variables of the header loop. -/
structure Rows where
  header : Bytes
  chunked : Bool
  contentLen : Nat
  data : Pointer
  soc : SocketT
  world : World
  deriving DecidableEq, Repr

/-- One iteration appends a line to the header. A missing row and an empty one end the loop, and a freed row stays in
`data`. -/
def rowStep (s : Rows) : Rows ⊕ Rows :=
  match getRowFromSocket s.soc s.world with
  | (none, soc, world) => .inr { s with data := .null, soc := soc, world := world }
  | (some row, soc, world) =>
      let data := cstr (chopStr (row ++ [NUL]))
      if data.isEmpty then .inr { s with data := .freed, soc := soc, world := world }
      else
        let data := statusLine data
        let contentLen := contentLength s.contentLen data
        if strcasestr data chunkedMark = some 0 then
          .inl {
            header := replaceStrFormat s.header [] (text "Content-Length: 0" ++ [LF])
            chunked := true, contentLen := contentLen, data := .freed, soc := soc, world := world }
        else
          .inl {
            header := replaceStrFormat s.header [] (data ++ [LF])
            chunked := s.chunked, contentLen := contentLen, data := .freed, soc := soc, world := world }

def localLocation : Bytes := text "Location: http://localhost/"

def deviceLocation (cfg : Config) : Bytes := text "Location: http://" ++ cstr cfg.gId ++ text ".piercloud.com/"

/-- A row of a chunked body is missing, empty, or gives the size of a chunk. -/
inductive SizeRow where
  | missing
  | blank
  | size (chunkLen : Nat)
  deriving DecidableEq, Repr

def sizeRow (soc : SocketT) (world : World) : SizeRow × SocketT × World :=
  match getRowFromSocket soc world with
  | (none, soc, world) => (.missing, soc, world)
  | (some row, soc, world) =>
      let data := cstr (chopStr (row ++ [NUL]))
      if data.isEmpty then (.blank, soc, world) else (.size (toSize (strtol data 16)), soc, world)

/-- These are the variables of the chunk loop; `content_len` is the length of `content`. `growths` records the blocks
whose size comes from a text. -/
structure Content where
  content : Bytes
  growths : List Growth
  soc : SocketT
  world : World
  deriving DecidableEq, Repr

/-- One iteration appends a chunk to the content. The result of the counted read is ignored. -/
def chunkStep (limit : Nat) (s : Content) : Content ⊕ (Ending × Content) :=
  match sizeRow s.soc s.world with
  | (.missing, soc, world) => .inr (.returned, { s with soc := soc, world := world })
  | (.blank, soc, world) => .inl { s with soc := soc, world := world }
  | (.size chunkLen, soc, world) =>
      if chunkLen = 0 then .inr (.returned, { s with soc := soc, world := world })
      else
        match getBufFromSocket .null soc (toSigned chunkLen) world with
        | (_, data, soc, world) =>
            let growth : Growth := ⟨s.content.length, chunkLen, 0⟩
            match growth.copy limit data with
            | .error ending =>
                .inr (ending, { s with growths := s.growths ++ [growth], soc := soc, world := world })
            | .ok bytes => .inl ⟨s.content ++ bytes, s.growths ++ [growth], soc, world⟩

/-- `header` is the text that is put in front of the body, and `body` holds the bytes that were copied from the
response behind it. -/
structure Relay where
  ending : Ending
  rval : Int
  request : Buffer
  respond : Buffer
  header : Bytes
  body : Bytes
  growths : List Growth
  world : World

/-- An `ASSERT` fires before anything is relayed. -/
def Relay.exited (request respond : Buffer) (world : World) : Relay where
  ending := .exited
  rval := 0
  request := request
  respond := respond
  header := []
  body := []
  growths := []
  world := world

/-- The appended lines only make the header longer, so one test stands for the assertions about it. -/
def appendHeader (limit : Nat) (respond : Buffer) (header : Bytes) : Except Ending Buffer :=
  if limit ≤ header.length + 1 then .error .exited
  else increaseBufferFrom limit respond (.block (header ++ [NUL])) header.length

/-- The body is as long as the header said, and the result of the counted read is ignored. -/
def relayPlain (limit : Nat) (request respond : Buffer) (rows : Rows) (header : Bytes) : Relay :=
  let header := replaceStrFormat header [] [LF]
  match appendHeader limit respond header with
  | .error ending => { Relay.exited request respond rows.world with ending := ending, header := header }
  | .ok respond =>
      match getBufFromSocket rows.data rows.soc (toSigned rows.contentLen) rows.world with
      | (_, data, _, world) =>
          let growth : Growth := ⟨respond.len, rows.contentLen, 1⟩
          match growth.copy limit data with
          | .error ending => ⟨ending, 0, request, respond, header, [], [growth], world⟩
          | .ok body =>
              ⟨.returned, 0, request, grownBuffer respond body rows.contentLen, header, body, [growth], world⟩

/-- The content behind the chunk loop is relayed with its length. -/
def relayContent (limit : Nat) (request respond : Buffer) (header : Bytes) (s : Content) : Relay :=
  let header := replaceStrFormat header (text "Content-Length: 0") (contentLengthMark ++ decimal s.content.length)
  let header := replaceStrFormat header [] [LF]
  match appendHeader limit respond header with
  | .error ending => ⟨ending, 0, request, respond, header, s.content, s.growths, s.world⟩
  | .ok respond =>
      let growth : Growth := ⟨respond.len, s.content.length, 1⟩
      match growth.copy limit (.block s.content) with
      | .error ending => ⟨ending, 0, request, respond, header, s.content, s.growths ++ [growth], s.world⟩
      | .ok body =>
          let respond := grownBuffer respond body s.content.length
          ⟨.returned, 0, request, respond, header, body, s.growths ++ [growth], s.world⟩

def relayChunked (limit : Nat) (request respond : Buffer) (rows : Rows) (header : Bytes) : Option Relay :=
  match loop (chunkStep limit) (rows.world.size + rows.soc.bufLen + 2) ⟨[], [], rows.soc, rows.world⟩ with
  | none => none
  | some (.returned, s) => some (relayContent limit request respond header s)
  | some (ending, s) => some ⟨ending, 0, request, respond, header, s.content, s.growths, s.world⟩

def headerRows (soc : SocketT) (world : World) : Option Rows :=
  loop rowStep (world.size + soc.bufLen + 2) ⟨[], false, 0, .null, soc, world⟩

/-- A redirection to the local server becomes one to the device. -/
def redirected (cfg : Config) (header : Bytes) : Bytes := replaceStrFormat header localLocation (deviceLocation cfg)

/-- What follows the header loop depends on the body. -/
def relayRows (cfg : Config) (limit : Nat) (request respond : Buffer) (rows : Rows) : Option Relay :=
  let header := redirected cfg rows.header
  if rows.chunked then relayChunked limit request respond rows header
  else some (relayPlain limit request respond rows header)

/-- Each iteration of the two loops takes at least one byte, so there is always a result. -/
def getLocalHostRespond (cfg : Config) (host : LocalHost) (request respond : Buffer) (world : World) : Option Relay :=
  if host.c = -1 then some { Relay.exited request respond world with ending := .returned, rval := -1 }
  else if host.writeFails then some (Relay.exited request respond world)
  else
    let request := cutBuf request request.len
    match initSocket ⟨0, false, none, 0⟩ host.c false world with
    | (r, soc, world) =>
        if r = -1 then some (Relay.exited request respond world)
        else
          match headerRows soc world with
          | none => none
          | some rows => relayRows cfg host.limit request respond rows

theorem Growth.size_eq {limit : Nat} (bounded : limit ≤ 2 ^ 63) {g : Growth} (fits : g.needed < limit) :
    g.size = g.needed :=
  Nat.mod_eq_of_lt (by omega)

theorem memcpy_block {memory : Bytes} {count : Nat} (within : count ≤ memory.length) :
    memcpy (.block memory) count = some (memory.take count) := by
  by_cases nothing : count = 0
  · simp [memcpy, nothing]
  · simp [memcpy, nothing, within]

/-- A copy into a block that fits needs nothing but its source. -/
theorem Growth.copy_ok {limit : Nat} (bounded : limit ≤ 2 ^ 63) {g : Growth} (fits : g.needed < limit)
    {chunk : Pointer} {bytes : Bytes} (copied : memcpy chunk g.chunkLen = some bytes) :
    g.copy limit chunk = .ok bytes := by
  have size := Growth.size_eq bounded fits
  rw [copy, if_neg (by omega), if_neg (by omega), copied]

theorem Growth.copy_block {limit : Nat} (bounded : limit ≤ 2 ^ 63) {g : Growth} (fits : g.needed < limit)
    {memory : Bytes} (within : g.chunkLen ≤ memory.length) :
    g.copy limit (.block memory) = .ok (memory.take g.chunkLen) :=
  Growth.copy_ok bounded fits (memcpy_block within)

/-- On a whole source that fits the pointer version is the plain one. -/
theorem increaseBufferFrom_block {limit : Nat} (bounded : limit ≤ 2 ^ 63) (b : Buffer) {memory : Bytes} {count : Nat}
    (within : count ≤ memory.length) (fits : b.len + count + 1 < limit) :
    increaseBufferFrom limit b (.block memory) count = .ok (increaseBuffer b memory count) := by
  rw [increaseBufferFrom, Growth.copy_block bounded (show Growth.needed ⟨b.len, count, 1⟩ < limit from fits) within]
  rfl

end Piercloud.Client
