import Piercloud.Construction.Buffer

/-
This file embeds `getConnectionRequest` and `Chunk` of the client's `piercloud.c`. A result of `none` is
an `ASSERT` that fires: the process exits.
-/

namespace Piercloud.Client

open CLib Liblst

/-- The client's arguments, and the encoder that the OpenSSL library provides. Its result is null only
when an allocation fails. -/
structure Config where
  gId : Bytes
  gLogin : Bytes
  gPasswd : Bytes
  aBase64Encode : Bytes → Bytes

/-- These are the static variables of `getConnectionRequest`. -/
structure Statics where
  inHeader : Bool
  inData : Bool
  pid : Int
  contentLen : Nat
  deriving DecidableEq, Repr

def Statics.initial : Statics := ⟨false, false, 0, 0⟩

def ptBasicRow (cfg : Config) (login pass : Bytes) : Bytes :=
  cstr (cfg.aBase64Encode (cstr login ++ text ":" ++ cstr pass))

/-- This is the text that every line is searched for. -/
def hostLine (cfg : Config) : Bytes := text "Host: " ++ cstr cfg.gId ++ text ".piercloud.com"

/-- This is the text that takes its place. -/
def localHostLines (cfg : Config) : Bytes :=
  text "Host: localhost" ++ [LF] ++ text "Authorization: Basic " ++ ptBasicRow cfg cfg.gLogin cfg.gPasswd

def rewriteHost (cfg : Config) (header : Bytes) : Bytes :=
  replaceStrFormat header (hostLine cfg) (localHostLines cfg)

def contentLengthMark : Bytes := text "Content-Length: "

/-- A line that starts with the mark, in any case, sets the length. -/
def contentLength (contentLen : Nat) (header : Bytes) : Nat :=
  if strcasestr header contentLengthMark = some 0 then
    toSize (atoll (header.drop contentLengthMark.length))
  else contentLen

/-- The header loop appends each line to the output. An inner `some pid` is the return from inside the
loop. -/
def headerLoop (cfg : Config) : Nat → Statics → Buffer → Buffer →
    Option (Option Int × Statics × Buffer × Buffer)
  | 0, _, _, _ => none
  | fuel + 1, statics, buf, outBuf =>
      if !statics.inHeader then some (none, statics, buf, outBuf)
      else
        match getLineBuffer buf with
        | (none, _) => none
        | (some line, buf) =>
            let header := rewriteHost cfg line
            let statics := { statics with contentLen := contentLength statics.contentLen header }
            let outBuf := increaseBuffer outBuf header header.length
            let outBuf := increaseBuffer outBuf [LF] 1
            if header.isEmpty then
              if statics.contentLen ≠ 0 then
                headerLoop cfg fuel { statics with inHeader := false, inData := true } buf outBuf
              else some (some statics.pid, { statics with inHeader := false }, buf, outBuf)
            else headerLoop cfg fuel statics buf outBuf

/-- The pid line starts a message. -/
def startMessage (statics : Statics) (buf : Buffer) : Option (Statics × Buffer) :=
  if !statics.inHeader && !statics.inData then
    match getLineBuffer buf with
    | (none, _) => none
    | (some strpid, buf) =>
        some ({ statics with inHeader := true, contentLen := 0, pid := atoi strpid }, buf)
  else some (statics, buf)

/-- The body is taken only when it is complete. -/
def takeBody (statics : Statics) (buf outBuf : Buffer) : Int × Statics × Buffer × Buffer :=
  if statics.inData && decide (statics.contentLen ≤ buf.len) then
    (statics.pid, { statics with inData := false }, cutBuf buf statics.contentLen,
      increaseBuffer outBuf buf.memory statics.contentLen)
  else (0, statics, buf, outBuf)

/-- The result is the pid of a complete message, and zero while one is incomplete. -/
def getConnectionRequest (cfg : Config) (statics : Statics) (buf outBuf : Buffer) :
    Option (Int × Statics × Buffer × Buffer) :=
  match startMessage statics buf with
  | none => none
  | some (statics, buf) =>
      match headerLoop cfg (buf.len + 2) statics buf outBuf with
      | none => none
      | some (some pid, statics, buf, outBuf) => some (pid, statics, buf, outBuf)
      | some (none, statics, buf, outBuf) => some (takeBody statics buf outBuf)

/-- A forked child answers this request. -/
structure Dispatch where
  pid : Int
  request : Bytes
  deriving DecidableEq, Repr

/-- The statics outlive a session; the two buffers belong to one `doReadFromServer` run. -/
structure State where
  statics : Statics
  buf : Buffer
  request : Buffer
  deriving DecidableEq, Repr

/-- This is the state in which `doReadFromServer` starts to read. -/
def sessionStart (statics : Statics) : State := ⟨statics, Buffer.cleared, Buffer.cleared⟩

/-- A positive pid forks a child for the request and clears it. -/
def chunk (cfg : Config) (s : State) (data : Bytes) : Option (State × Option Dispatch) :=
  if data.isEmpty then some (s, none)
  else
    match getConnectionRequest cfg s.statics (increaseBuffer s.buf data data.length) s.request with
    | none => none
    | some (pid, statics, buf, request) =>
        if 0 < pid then some (⟨statics, buf, Buffer.cleared⟩, some ⟨pid, request.bytes⟩)
        else some (⟨statics, buf, request⟩, none)

end Piercloud.Client
