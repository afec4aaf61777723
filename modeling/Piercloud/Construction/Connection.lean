import Piercloud.Construction.Transport
import Piercloud.Library.Numeral

/-
This file embeds `Connection` and `SocksConnection` of the client's `connection.c`.
-/

namespace Piercloud.Connection

open CLib Liblst Loop

/-- These bytes of a `sockaddr` hold its family. -/
def familyOf (sockaddr : Bytes) : Nat := (sockaddr.getD 0 0).toNat + 256 * (sockaddr.getD 1 0).toNat

/-- The resolver gives an address of some family. -/
structure Sockaddr where
  bytes : Bytes
  named : familyOf bytes ≠ 0

/-- The names are resolved outside, and the calls that make a socket succeed or fail. -/
structure System where
  gethostbyname : Bytes → Option Bytes
  getaddrinfo : Bytes → Bytes → Option Sockaddr
  socket : Int
  setsockopt : Nat → Bool
  connect : Bytes → Bytes → Bool
  close : Bool

inductive ProxyType where
  | HTTPS
  | HTTP
  | SOCKS4
  | SOCKS5
  deriving DecidableEq, Repr

/-- This is `proxy_t`. -/
structure Proxy where
  type : ProxyType
  addr : Option Bytes
  port : Nat
  user : Option Bytes
  pass : Option Bytes
  deriving DecidableEq, Repr

/-- The function returns, or it writes outside of its buffer. -/
inductive Exit where
  | returned (rval : Int) (world : World)
  | overrun
  deriving DecidableEq, Repr

/-- The machine is little-endian, so both conversions swap the two bytes of a port. -/
def swap16 (value : Nat) : Nat := value % 256 * 256 + value / 256 % 256

/-- The argument becomes a `uint16_t`. -/
def htons (port : Int) : Nat := swap16 (port % 2 ^ 16).toNat

def ntohs (port : Int) : Nat := swap16 (port % 2 ^ 16).toNat

/-- These are the bytes of a `uint16_t` in memory. -/
def memory16 (value : Nat) : Bytes := [UInt8.ofNat (value % 256), UInt8.ofNat (value / 256)]

/-- An unsigned number becomes an `int`. -/
def toInt (value : Nat) : Int := (value : Int).bmod (2 ^ 32)

def closeConnection (sys : System) (c : Int) (w : World) : Int × World :=
  if c ≤ 0 then (-1, w)
  else (if sys.close then 0 else -1, { w with closed := w.closed ++ [c] })

/-- This part of a `sockaddr_in` is filled. -/
structure SockaddrIn where
  sinPort : Bytes
  sinAddr : Bytes
  deriving DecidableEq, Repr

def prepareSockaddr (sys : System) (addr : Bytes) (port : Int) : Option SockaddrIn :=
  (sys.gethostbyname (cstr addr)).map fun h => ⟨memory16 (htons port), h.take 4⟩

def storageSize : Nat := 128

/-- The port is printed into six bytes, and the address is copied into a `sockaddr_storage`. -/
def getAddrInfo (sys : System) (host : Bytes) (port : Int) : Option Bytes :=
  match sys.getaddrinfo (cstr host) ((signedDecimal port).take 5) with
  | none => none
  | some res =>
      if storageSize < res.bytes.length then none
      else some (store (List.replicate storageSize 0) 0 res.bytes)

def SO_KEEPALIVE : Nat := 9

def TCP_KEEPIDLE : Nat := 4

def setsockopt (sys : System) : Int :=
  if ¬ sys.setsockopt SO_KEEPALIVE then -1 else if ¬ sys.setsockopt TCP_KEEPIDLE then -1 else 0

/-- This is `Connection` without a proxy. -/
def plainConnection (sys : System) (addr : Option Bytes) (port : Int) (w : World) : Int × World :=
  match addr with
  | none => (-1, w)
  | some addr =>
      if port ≤ 0 then (-1, w)
      else
        match prepareSockaddr sys addr port with
        | none => (-1, w)
        | some servaddr =>
            if sys.socket = -1 then (-1, w)
            else if setsockopt sys = -1 then (-1, { w with closed := w.closed ++ [sys.socket] })
            else if ¬ sys.connect servaddr.sinAddr servaddr.sinPort then
              (-1, { w with closed := w.closed ++ [sys.socket] })
            else (sys.socket, w)

section Socks

variable (sys : System) (proxyfd : Int)

/-- The exits of `SocksConnection` that fail close the descriptor first. -/
def failing (w : World) : Exit := .returned (-1) (closeConnection sys proxyfd w).2

def maxHttpBuf : Nat := 1024

/-- The brackets never appear, because a colon in the name is refused before. -/
def httpRequest (addr : Bytes) (port : Int) : Bytes :=
  if (strchr addr 58).isSome then
    text "CONNECT [" ++ cstr addr ++ text "]:" ++ decimal (ntohs port) ++ text " HTTP/1.0\r\n\r\n"
  else text "CONNECT " ++ cstr addr ++ text ":" ++ decimal (ntohs port) ++ text " HTTP/1.0\r\n\r\n"

/-- Only the first row is judged. The rows end with an empty one. -/
def httpRowStep : Nat × World → (Nat × World) ⊕ Exit
  | (r, w) =>
      match getSockRow w with
      | (none, w) => .inr (failing sys proxyfd w)
      | (some row, w) =>
          if r = 0 ∧ row.take 12 ≠ text "HTTP/1.0 200" then .inr (failing sys proxyfd w)
          else if row.headD NUL = NUL ∨ row.headD NUL = CR then .inr (.returned proxyfd w)
          else .inl (r + 1, w)

/-- Each row takes some bytes, so the loop always has a result. -/
def httpRows (w : World) : Exit :=
  (loop (httpRowStep sys proxyfd) (w.stream.length + 1) (0, w)).getD .overrun

def httpConnect (addr : Bytes) (port : Int) (w : World) : Exit :=
  if (cstr addr).any fun c => c ∈ text "\r\n\t []:" then failing sys proxyfd w
  else
    let request := httpRequest addr port
    if maxHttpBuf ≤ request.length then failing sys proxyfd w
    else
      let buf := store (List.replicate maxHttpBuf 0) 0 request
      let wlen := strlen buf
      match atomWrite wlen buf w with
      | (n, _, w) => if n ≠ wlen then failing sys proxyfd w else httpRows sys proxyfd w

def socks4RequestLength : Nat := 9

def socks4RespondLength : Nat := 8

def socks4Connect (addr : Bytes) (port : Int) (w : World) : Exit :=
  match prepareSockaddr sys addr port with
  | none => failing sys proxyfd w
  | some servaddr =>
      let buf := store (List.replicate socks4RequestLength 0) 0 [4, 1]
      let buf := store buf 2 servaddr.sinPort
      let buf := store buf 4 servaddr.sinAddr
      let buf := store buf 8 [0]
      match atomWrite socks4RequestLength buf w with
      | (n, buf, w) =>
          if n ≠ socks4RequestLength then failing sys proxyfd w
          else
            match atomRead socks4RespondLength buf w with
            | (n, buf, w) =>
                if n ≠ socks4RespondLength then failing sys proxyfd w
                else if buf.getD 1 0 ≠ 90 then failing sys proxyfd w
                else .returned proxyfd w

def socks5BufferLength : Nat := 513

/-- The client offers no authentication and the login, and the server answers with its choice. -/
def socks5Hello (w : World) : Except Exit (Bytes × World) :=
  let buf := store (List.replicate socks5BufferLength 0) 0 [5, 2, 0, 2]
  match atomWrite 4 buf w with
  | (n, buf, w) =>
      if n ≠ 4 then .error (failing sys proxyfd w)
      else
        match atomRead 2 buf w with
        | (n, buf, w) =>
            if n ≠ 2 then .error (failing sys proxyfd w)
            else if buf.getD 0 0 ≠ 5 then .error (failing sys proxyfd w)
            else .ok (buf, w)

/-- There is no result when a byte would lie outside of the buffer. -/
def storeInside (buf : Bytes) (pos : Nat) (bytes : Bytes) : Option Bytes :=
  if pos + bytes.length ≤ buf.length then some (store buf pos bytes) else none

/-- The length of the string is cut to an `int`, and a negative one is a huge `size_t`. -/
def copyInside (buf : Bytes) (pos : Nat) (string : Bytes) : Option Bytes :=
  if toInt string.length < 0 then none else storeInside buf pos (string.take (toInt string.length).toNat)

/-- A login without one of its parts is empty. -/
def Proxy.login (proxy : Proxy) : Bytes × Bytes :=
  match proxy.user, proxy.pass with
  | some user, some pass => (cstr user, cstr pass)
  | _, _ => ([], [])

/-- The lengths take one byte each, but the strings are copied in full. `len` is an `unsigned int`. -/
def loginRequest (user pass buf : Bytes) : Option (Bytes × Nat) :=
  (storeInside buf 0 [1, UInt8.ofNat user.length]).bind fun buf =>
    (copyInside buf 2 user).bind fun buf =>
      let len := (2 + user.length) % 2 ^ 32
      (storeInside buf len [UInt8.ofNat pass.length]).bind fun buf =>
        let len := (len + 1) % 2 ^ 32
        (copyInside buf len pass).map fun buf => (buf, (len + pass.length) % 2 ^ 32)

def socks5Login (proxy : Proxy) (buf : Bytes) (w : World) : Except Exit (Bytes × World) :=
  match loginRequest proxy.login.1 proxy.login.2 buf with
  | none => .error .overrun
  | some (buf, len) =>
      match atomWrite len buf w with
      | (n, buf, w) =>
          if n ≠ len then .error (failing sys proxyfd w)
          else
            match atomRead 2 buf w with
            | (n, buf, w) =>
                if n ≠ 2 then .error (failing sys proxyfd w)
                else if buf.getD 0 0 ≠ 5 then .error (failing sys proxyfd w)
                else if buf.getD 1 0 ≠ 0 then .error (failing sys proxyfd w)
                else .ok (buf, w)

/-- The method that is not supported is logged, and the function goes on. -/
def socks5Method (proxy : Proxy) (buf : Bytes) (w : World) : Except Exit (Bytes × World) :=
  if buf.getD 1 0 = 0 then .ok (buf, w)
  else if buf.getD 1 0 = 1 then .ok (buf, w)
  else if buf.getD 1 0 = 2 then socks5Login sys proxyfd proxy buf w
  else .error (failing sys proxyfd w)

def AF_INET : Nat := 2

def AF_INET6 : Nat := 10

/-- The address stands in the buffer in one of three layouts. The result has the length of the request. -/
def socks5Address (addr : Bytes) (servaddr buf : Bytes) (w : World) : Except Exit (Bytes × Nat) :=
  if familyOf servaddr = 0 then
    let hlen := toInt (cstr addr).length
    if 255 < hlen then .error (failing sys proxyfd w)
    else if hlen < 0 then .error .overrun
    else
      let buf := store buf 0 [5, 1, 0, 3, UInt8.ofNat hlen.toNat]
      let buf := store buf 5 ((cstr addr).take hlen.toNat)
      .ok (store buf (5 + hlen.toNat) ((servaddr.drop 2).take 2), 7 + hlen.toNat)
  else if familyOf servaddr = AF_INET then
    let buf := store buf 0 [5, 1, 0, 1]
    let buf := store buf 4 ((servaddr.drop 4).take 4)
    .ok (store buf 8 ((servaddr.drop 2).take 2), 10)
  else if familyOf servaddr = AF_INET6 then
    let buf := store buf 0 [5, 1, 0, 4]
    let buf := store buf 4 ((servaddr.drop 8).take 16)
    .ok (store buf 20 ((servaddr.drop 2).take 2), 22)
  else .error (failing sys proxyfd w)

def socks5Request (addr : Bytes) (port : Int) (buf : Bytes) (w : World) : Except Exit (Bytes × World) :=
  match getAddrInfo sys addr port with
  | none => .error (failing sys proxyfd w)
  | some servaddr =>
      (socks5Address sys proxyfd addr servaddr buf w).bind fun (buf, wlen) =>
        match atomWrite wlen buf w with
        | (n, buf, w) => if n ≠ wlen then .error (failing sys proxyfd w) else .ok (buf, w)

/-- The rest of an address of another type counts as empty. -/
def replyLength (buf : Bytes) : Nat :=
  if buf.getD 3 0 = 1 then 3 + 2
  else if buf.getD 3 0 = 3 then (buf.getD 4 0).toNat + 2
  else if buf.getD 3 0 = 4 then 15 + 2
  else 0

def socks5Reply (buf : Bytes) (w : World) : Exit :=
  match atomRead 5 buf w with
  | (n, buf, w) =>
      if n ≠ 5 then failing sys proxyfd w
      else if buf.getD 0 0 ≠ 5 then failing sys proxyfd w
      else if buf.getD 1 0 ≠ 0 then failing sys proxyfd w
      else
        match atomRead (replyLength buf) buf w with
        | (m, _, w) => if m ≠ replyLength buf then failing sys proxyfd w else .returned proxyfd w

def socks5Connect (addr : Bytes) (port : Int) (proxy : Proxy) (w : World) : Exit :=
  let run := do
    let (buf, w) ← socks5Hello sys proxyfd w
    let (buf, w) ← socks5Method sys proxyfd proxy buf w
    socks5Request sys proxyfd addr port buf w
  match run with
  | .error exit => exit
  | .ok (buf, w) => socks5Reply sys proxyfd buf w

end Socks

def socksConnection (sys : System) (addr : Bytes) (port : Int) (proxy : Proxy) (w : World) : Exit :=
  match plainConnection sys proxy.addr (toInt proxy.port) w with
  | (proxyfd, w) =>
      if proxyfd < 0 then .returned proxyfd w
      else
        match proxy.type with
        | .HTTP => httpConnect sys proxyfd addr port w
        | .SOCKS4 => socks4Connect sys proxyfd addr port w
        | .SOCKS5 => socks5Connect sys proxyfd addr port proxy w
        | .HTTPS => failing sys proxyfd w

def connection (sys : System) (addr : Option Bytes) (port : Int) (proxy : Option Proxy) (w : World) : Exit :=
  match addr, proxy with
  | some host, some proxy =>
      if port ≤ 0 then .returned (-1) w
      else if proxy.type = .HTTP ∨ proxy.type = .SOCKS4 ∨ proxy.type = .SOCKS5 then
        socksConnection sys host port proxy w
      else
        match plainConnection sys addr port w with
        | (rval, w) => .returned rval w
  | _, _ =>
      match plainConnection sys addr port w with
      | (rval, w) => .returned rval w

end Piercloud.Connection
