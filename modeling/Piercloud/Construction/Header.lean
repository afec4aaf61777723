import Piercloud.Construction.Liblst
import Piercloud.Library.Numeral

/-
This file embeds what `Pier` of the server's `piercloud-cgi.c` writes for one request.
-/

namespace Piercloud.Cgi

open CLib Liblst

def NL : Bytes := [CR, LF]

def pipeBuf : Nat := 4096

/-- One CGI process answers one request of a browser. The copy loop ends at the first empty or failing
read of the standard input. -/
structure PierInput where
  pid : Nat
  environ : List Bytes
  stdin : Bytes
  deriving DecidableEq, Repr

/-- The value stands behind the name and its equals sign. -/
def getenv (environ : List Bytes) (name : Bytes) : Option Bytes :=
  (environ.find? fun entry => (name ++ text "=").isPrefixOf entry).map fun entry =>
    entry.drop (name.length + 1)

def lowerDash (c : UInt8) : UInt8 := if tolower c = 95 then 45 else tolower c

/-- The first byte of a name keeps its case. The loop over an empty name runs on into the value. -/
def headerRow (header1 header2 : Bytes) : Bytes :=
  match header1 with
  | [] => text ": " ++ header2.map lowerDash ++ NL
  | first :: rest => first :: rest.map lowerDash ++ text ": " ++ header2 ++ NL

/-- A skipped entry adds no row. -/
def addHeaderRow (header entry : Bytes) : Bytes :=
  let header1 :=
    if strstr entry (text "HTTP_") = some 0 then (strchr entry 95).map fun p => entry.drop (p + 1)
    else some entry
  match header1 with
  | none => header
  | some header1 =>
      match strchr header1 61 with
      | none => header
      | some p => replaceStrFormat header [] (headerRow (header1.take p) (header1.drop (p + 1)))

def addHeader (header : Bytes) (lst : List Bytes) : Bytes := lst.foldl addHeaderRow header

/-- A missing variable is printed as a default, and a missing URI as the C library prints a null pointer. -/
def requestRow (environ : List Bytes) : Bytes :=
  (getenv environ (text "REQUEST_METHOD")).getD (text "GET") ++ text " " ++
    (getenv environ (text "REQUEST_URI")).getD (text "(null)") ++ text " " ++
    (getenv environ (text "SERVER_PROTOCOL")).getD (text "HTTP/1.1") ++ NL

def pierHeader (input : PierInput) : Bytes :=
  let header := decimal input.pid ++ NL
  let header := replaceStrFormat header [] (requestRow input.environ)
  let header := addHeader header (lstEgrep input.environ (text "HTTP_"))
  let header := addHeader header (lstEgrep input.environ (text "CONTENT_"))
  replaceStrFormat header [] NL

/-- The header is one write, and each read of the standard input is one more. -/
def pierBytes (input : PierInput) : Bytes := pierHeader input ++ input.stdin

/-- An entry adds its row behind the header. -/
theorem addHeaderRow_append (header entry : Bytes) :
    addHeaderRow header entry = header ++ addHeaderRow [] entry := by
  rw [addHeaderRow, addHeaderRow]
  split
  · simp
  · split <;> simp

theorem addHeader_append (header : Bytes) (lst : List Bytes) :
    addHeader header lst = header ++ lst.flatMap (addHeaderRow []) := by
  induction lst generalizing header with
  | nil => simp [addHeader]
  | cons entry lst ih =>
      rw [addHeader, List.foldl_cons, ← addHeader, ih, addHeaderRow_append, List.flatMap_cons,
        List.append_assoc]

/-- The header is the pid row, the request row, the rows of the two lists and an empty row. -/
theorem pierHeader_eq (input : PierInput) : pierHeader input =
    decimal input.pid ++ NL ++ requestRow input.environ ++
      (lstEgrep input.environ (text "HTTP_")).flatMap (addHeaderRow []) ++
      (lstEgrep input.environ (text "CONTENT_")).flatMap (addHeaderRow []) ++ NL := by
  simp only [pierHeader, replaceStrFormat_empty, addHeader_append]

end Piercloud.Cgi
