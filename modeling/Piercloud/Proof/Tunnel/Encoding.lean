import Piercloud.Construction.Header
import Piercloud.Construction.Wire

/-
This file shows that the server writes each well-formed CGI request in the wire format.
-/

namespace Piercloud.Cgi

open CLib Liblst Client Wire

/-- These bytes would end a line or a C string. -/
def Plain (bytes : Bytes) : Prop := NUL ∉ bytes ∧ CR ∉ bytes ∧ LF ∉ bytes

def isLetter (c : UInt8) : Bool := (65 ≤ c && c ≤ 90) || (97 ≤ c && c ≤ 122)

def isWordByte (c : UInt8) : Bool := isLetter c || (48 ≤ c && c ≤ 57) || c == 95

/-- The name of an entry is a word of letters, digits and underscores. -/
structure Entry where
  name : Bytes
  value : Bytes
  named : name ≠ []
  word : ∀ c ∈ name, isWordByte c = true
  plain : Plain value

/-- The name in the header line keeps its first byte. -/
def headerName : Bytes → Bytes
  | [] => []
  | first :: rest => first :: rest.map lowerDash

/-- This is the header line of a name and a value, without its line end. -/
def headerLine (name value : Bytes) : Bytes := headerName name ++ text ": " ++ value

def Entry.httpVariable (e : Entry) : Bytes := text "HTTP_" ++ e.name ++ text "=" ++ e.value

def Entry.contentVariable (e : Entry) : Bytes := text "CONTENT_" ++ e.name ++ text "=" ++ e.value

/-- The name and the value of each header line, in the order of the lines. -/
def headerFields (http content : List Entry) : List (Bytes × Bytes) :=
  http.map (fun e => (e.name, e.value)) ++ content.map fun e => (text "CONTENT_" ++ e.name, e.value)

/-- The name yields a `Content-length` line, in any letter case. -/
def yieldsContentLength (name : Bytes) : Bool := (headerName name).map tolower == text "content-length"

/-- These are the values of the `Content-length` lines. -/
def contentLengths (fields : List (Bytes × Bytes)) : List Bytes :=
  (fields.filter fun field => yieldsContentLength field.1).map Prod.snd

/-- A CGI request has plain texts, and its last `Content-length` line announces its body. A block of memory
is smaller than 2^63 bytes. -/
structure CgiRequest where
  input : PierInput
  method : Bytes
  uri : Bytes
  protocol : Bytes
  http : List Entry
  content : List Entry
  pidPositive : 0 < input.pid
  pidFits : input.pid < 2 ^ 31
  requestMethod : getenv input.environ (text "REQUEST_METHOD") = some method
  requestUri : getenv input.environ (text "REQUEST_URI") = some uri
  serverProtocol : getenv input.environ (text "SERVER_PROTOCOL") = some protocol
  httpVariables : lstEgrep input.environ (text "HTTP_") = http.map Entry.httpVariable
  contentVariables : lstEgrep input.environ (text "CONTENT_") = content.map Entry.contentVariable
  methodWord : method ≠ [] ∧ ∀ c ∈ method, isLetter c = true
  uriPlain : Plain uri
  protocolPlain : Plain protocol
  bodyFits : input.stdin.length < 2 ^ 63
  announced : (contentLengths (headerFields http content)).getLast? =
    if input.stdin = [] then none else some (decimal input.stdin.length)

def CgiRequest.requestLine (r : CgiRequest) : Bytes :=
  r.method ++ text " " ++ r.uri ++ text " " ++ r.protocol

def CgiRequest.headers (r : CgiRequest) : List Bytes :=
  (headerFields r.http r.content).map fun field => headerLine field.1 field.2

/-- A byte of a word is neither a line end, nor an equals sign, nor a colon, and it does not become a colon. -/
theorem wordByte_plain (c : UInt8) (word : isWordByte c = true) :
    (c ≠ NUL ∧ c ≠ CR ∧ c ≠ LF ∧ c ≠ 61 ∧ tolower c ≠ 58) ∧ tolower (lowerDash c) ≠ 58 := by
  have table : ∀ n < 256, isWordByte (UInt8.ofNat n) = true →
      (UInt8.ofNat n ≠ NUL ∧ UInt8.ofNat n ≠ CR ∧ UInt8.ofNat n ≠ LF ∧ UInt8.ofNat n ≠ 61 ∧
        tolower (UInt8.ofNat n) ≠ 58) ∧ tolower (lowerDash (UInt8.ofNat n)) ≠ 58 := by
    decide +kernel
  have entry := table c.toNat c.toNat_lt
  rw [UInt8.ofNat_toNat] at entry
  exact entry word

/-- Every letter stays a letter in lower case, and no letter ends a word of the mark. -/
theorem letter_plain (c : UInt8) (letter : isLetter c = true) :
    isLetter (tolower c) = true ∧ c ≠ NUL ∧ c ≠ CR ∧ c ≠ LF := by
  have table : ∀ n < 256, isLetter (UInt8.ofNat n) = true → isLetter (tolower (UInt8.ofNat n)) = true ∧
      UInt8.ofNat n ≠ NUL ∧ UInt8.ofNat n ≠ CR ∧ UInt8.ofNat n ≠ LF := by
    decide +kernel
  have entry := table c.toNat c.toNat_lt
  rw [UInt8.ofNat_toNat] at entry
  exact entry letter

theorem Plain.append {a b : Bytes} (first : Plain a) (second : Plain b) : Plain (a ++ b) := by
  simp only [Plain, List.mem_append, not_or] at *
  tauto

/-- No byte becomes a line end in lower case. -/
theorem lowerDash_plain (c : UInt8) (plain : c ≠ NUL ∧ c ≠ CR ∧ c ≠ LF) :
    lowerDash c ≠ NUL ∧ lowerDash c ≠ CR ∧ lowerDash c ≠ LF := by
  have table : ∀ n < 256, (UInt8.ofNat n ≠ NUL ∧ UInt8.ofNat n ≠ CR ∧ UInt8.ofNat n ≠ LF) →
      lowerDash (UInt8.ofNat n) ≠ NUL ∧ lowerDash (UInt8.ofNat n) ≠ CR ∧ lowerDash (UInt8.ofNat n) ≠ LF := by
    decide +kernel
  have entry := table c.toNat c.toNat_lt
  rw [UInt8.ofNat_toNat] at entry
  exact entry plain

theorem plain_iff {bytes : Bytes} : Plain bytes ↔ ∀ c ∈ bytes, c ≠ NUL ∧ c ≠ CR ∧ c ≠ LF := by
  constructor
  · rintro ⟨noTerminator, noReturn, noNewline⟩ c member
    exact ⟨fun same => noTerminator (same ▸ member), fun same => noReturn (same ▸ member),
      fun same => noNewline (same ▸ member)⟩
  · intro all
    exact ⟨fun member => (all NUL member).1 rfl, fun member => (all CR member).2.1 rfl,
      fun member => (all LF member).2.2 rfl⟩

theorem word_plain {name : Bytes} (word : ∀ c ∈ name, isWordByte c = true) : Plain name := by
  rw [plain_iff]
  intro c member
  obtain ⟨⟨noTerminator, noReturn, noNewline, -⟩, -⟩ := wordByte_plain c (word c member)
  exact ⟨noTerminator, noReturn, noNewline⟩

/-- The bytes of a name stay plain in the header line. -/
theorem headerName_plain {name : Bytes} (plain : Plain name) : Plain (headerName name) := by
  cases name with
  | nil => exact plain
  | cons first rest =>
      rw [plain_iff] at plain ⊢
      intro c member
      rcases List.mem_cons.mp member with rfl | tail
      · exact plain c (by simp)
      · obtain ⟨b, inside, rfl⟩ := List.mem_map.mp tail
        exact lowerDash_plain b (plain b (by simp [inside]))

theorem headerLine_clean {name value : Bytes} (named : Plain name) (plain : Plain value) :
    Clean (headerLine name value) := by
  have separator : Plain (text ": ") := by simp only [Plain]; decide
  exact ⟨by simp [headerLine, text], ((headerName_plain named).append separator).append plain⟩

/-- No colon stands in front of the separator. -/
theorem headerName_noColon {name : Bytes} (word : ∀ c ∈ name, isWordByte c = true) :
    58 ∉ (headerName name).map tolower := by
  cases name with
  | nil => simp [headerName]
  | cons first rest =>
      intro member
      simp only [headerName, List.map_cons, List.map_map, List.mem_cons, List.mem_map] at member
      rcases member with head | ⟨b, inside, tail⟩
      · exact (wordByte_plain first (word first (by simp))).1.2.2.2.2 head.symm
      · exact (wordByte_plain b (word b (by simp [inside]))).2 tail

/-- A header line sets the length exactly when its name yields a `Content-length` line. -/
theorem contentLength_headerLine {name : Bytes} (word : ∀ c ∈ name, isWordByte c = true) (n : Nat)
    (value : Bytes) : contentLength n (headerLine name value) =
      if yieldsContentLength name then toSize (atoll value) else n := by
  have marked : strcasestr (headerLine name value) contentLengthMark = some 0 ↔
      (headerName name).map tolower = text "content-length" := by
    rw [strcasestr_zero_iff, headerLine, show contentLengthMark.map tolower =
      text "content-length" ++ 58 :: [32] by decide]
    constructor
    · rintro ⟨tail, same⟩
      have aligned : text "content-length" ++ 58 :: (32 :: tail) =
          (headerName name).map tolower ++ 58 :: (32 :: value.map tolower) := by
        simpa [text, tolower] using same
      exact (split_unique (by decide) (headerName_noColon word) aligned).1.symm
    · intro same
      exact ⟨value.map tolower, by simp [same, text, tolower]⟩
  by_cases yields : (headerName name).map tolower = text "content-length"
  · have length : contentLengthMark.length = (headerName name ++ text ": ").length := by
      have sizes := congrArg List.length yields
      rw [List.length_map] at sizes
      rw [List.length_append, sizes]
      rfl
    rw [contentLength, if_pos (marked.mpr yields), length, headerLine, List.drop_left]
    simp [yieldsContentLength, yields]
  · rw [contentLength, if_neg (fun mark => yields (marked.mp mark))]
    simp [yieldsContentLength, yields]

/-- The last line that sets the length wins. -/
theorem contentLength_headers {fields : List (Bytes × Bytes)}
    (words : ∀ field ∈ fields, ∀ c ∈ field.1, isWordByte c = true) (n : Nat) :
    (fields.map fun field => headerLine field.1 field.2).foldl contentLength n =
      (contentLengths fields).getLast?.elim n fun value => toSize (atoll value) := by
  induction fields generalizing n with
  | nil => rfl
  | cons field fields ih =>
      rw [List.map_cons, List.foldl_cons, contentLength_headerLine (words field (by simp)),
        ih fun other member => words other (by simp [member])]
      by_cases yields : yieldsContentLength field.1
      · have found : contentLengths (field :: fields) = field.2 :: contentLengths fields := by
          simp [contentLengths, yields]
        rw [found, List.getLast?_cons, if_pos yields]
        cases (contentLengths fields).getLast? <;> rfl
      · simp [contentLengths, yields]

/-- The equals sign splits a name of word bytes from its value. -/
theorem strchr_equals {name : Bytes} (word : ∀ c ∈ name, isWordByte c = true) (value : Bytes) :
    strchr (name ++ text "=" ++ value) 61 = some name.length := by
  have noEquals : 61 ∉ name := fun member => (wordByte_plain 61 (word 61 member)).1.2.2.2.1 rfl
  have noTerminator : NUL ∉ name := fun member => (wordByte_plain NUL (word NUL member)).1.1 rfl
  have split : name ++ text "=" ++ value = name ++ 61 :: value := by simp [text]
  rw [split, strchr_split noEquals noTerminator (by decide)]

theorem headerRow_line {name : Bytes} (real : name ≠ []) (value : Bytes) :
    headerRow name value = printLine (headerLine name value) := by
  obtain ⟨first, rest, rfl⟩ := List.exists_cons_of_ne_nil real
  simp [headerRow, headerLine, headerName, printLine, NL]

/-- An `HTTP_` variable loses its mark in the header line. -/
theorem addHeaderRow_variable {name : Bytes} (real : name ≠ []) (word : ∀ c ∈ name, isWordByte c = true)
    (value : Bytes) :
    addHeaderRow [] (text "HTTP_" ++ name ++ text "=" ++ value) = printLine (headerLine name value) := by
  have marked : strstr (text "HTTP_" ++ name ++ text "=" ++ value) (text "HTTP_") = some 0 := by
    rw [strstr_zero_iff, List.append_assoc, List.append_assoc]
    exact List.prefix_append _ _
  have behind : strchr (text "HTTP_" ++ name ++ text "=" ++ value) 95 = some 4 := by
    have split : text "HTTP_" ++ name ++ text "=" ++ value = text "HTTP" ++ 95 :: (name ++ text "=" ++ value) := by
      simp [text]
    have noMark : 95 ∉ text "HTTP" ∧ NUL ∉ text "HTTP" := by decide
    rw [split, strchr_split noMark.1 noMark.2 (by decide)]
    rfl
  have dropped : (text "HTTP_" ++ name ++ text "=" ++ value).drop (4 + 1) = name ++ text "=" ++ value := by
    simp [text]
  have tail : (name ++ text "=" ++ value).drop (name.length + 1) = value := by
    rw [← List.drop_drop]
    simp [text]
  simp only [addHeaderRow, marked, behind, if_true, Option.map_some, dropped, strchr_equals word, tail,
    replaceStrFormat_empty, List.nil_append]
  rw [List.append_assoc, List.take_left, headerRow_line real]

theorem addHeaderRow_http (e : Entry) :
    addHeaderRow [] e.httpVariable = printLine (headerLine e.name e.value) :=
  addHeaderRow_variable e.named e.word e.value

/-- A `CONTENT_` variable keeps its mark in the header line. -/
theorem addHeaderRow_content (e : Entry) :
    addHeaderRow [] e.contentVariable = printLine (headerLine (text "CONTENT_" ++ e.name) e.value) := by
  have word : ∀ c ∈ text "CONTENT_" ++ e.name, isWordByte c = true := by
    intro c member
    rcases List.mem_append.mp member with mark | name
    · have all : ∀ c ∈ text "CONTENT_", isWordByte c = true := by decide +kernel
      exact all c mark
    · exact e.word c name
  have unmarked : ¬ strstr e.contentVariable (text "HTTP_") = some 0 := by
    rw [strstr_zero_iff, Entry.contentVariable]
    rintro ⟨tail, same⟩
    simp [text] at same
  have tail : (text "CONTENT_" ++ e.name ++ text "=" ++ e.value).drop ((text "CONTENT_" ++ e.name).length + 1) =
      e.value := by
    rw [← List.drop_drop, List.append_assoc, List.drop_left]
    rfl
  have front : (text "CONTENT_" ++ e.name ++ text "=" ++ e.value).take (text "CONTENT_" ++ e.name).length =
      text "CONTENT_" ++ e.name := by
    rw [List.append_assoc, List.take_left]
  have real : text "CONTENT_" ++ e.name ≠ [] := by simp [text]
  rw [addHeaderRow, if_neg unmarked]
  simp only [Entry.contentVariable, strchr_equals word, tail, front, replaceStrFormat_empty, List.nil_append]
  exact headerRow_line real e.value

namespace CgiRequest

variable (r : CgiRequest)

/-- Each field of a header line has a name of word bytes and a plain value. -/
theorem fields_plain : ∀ field ∈ headerFields r.http r.content,
    (∀ c ∈ field.1, isWordByte c = true) ∧ Plain field.2 := by
  have mark : ∀ c ∈ text "CONTENT_", isWordByte c = true := by decide +kernel
  intro field member
  rcases List.mem_append.mp member with http | content
  · obtain ⟨e, -, rfl⟩ := List.mem_map.mp http
    exact ⟨e.word, e.plain⟩
  · obtain ⟨e, -, rfl⟩ := List.mem_map.mp content
    refine ⟨fun c inside => ?_, e.plain⟩
    exact (List.mem_append.mp inside).elim (mark c) (e.word c)

theorem requestLine_clean : Clean r.requestLine := by
  obtain ⟨⟨c, rest, method⟩, letters⟩ := And.imp_left List.exists_cons_of_ne_nil r.methodWord
  have plain : Plain r.method :=
    ⟨fun member => (letter_plain NUL (letters NUL member)).2.1 rfl,
      fun member => (letter_plain CR (letters CR member)).2.2.1 rfl,
      fun member => (letter_plain LF (letters LF member)).2.2.2 rfl⟩
  have space : Plain (text " ") := by simp only [Plain]; decide
  exact ⟨by simp [requestLine, method],
    (((plain.append space).append r.uriPlain).append space).append r.protocolPlain⟩

/-- A method of letters ends with a space, and the first word of the mark ends with a dash. -/
theorem requestLine_noMark : strcasestr r.requestLine contentLengthMark ≠ some 0 := by
  rw [Ne, strcasestr_zero_iff, show contentLengthMark.map tolower =
    text "content" ++ 45 :: text "length: " by decide]
  rintro ⟨tail, same⟩
  have aligned : text "content" ++ 45 :: (text "length: " ++ tail) =
      r.method.map tolower ++ 32 :: ((r.uri ++ text " " ++ r.protocol).map tolower) := by
    simpa [requestLine, text, tolower] using same
  have letters : ∀ c ∈ r.method.map tolower, isLetter c = true := by
    intro c member
    obtain ⟨b, inside, rfl⟩ := List.mem_map.mp member
    exact (letter_plain b (r.methodWord.2 b inside)).1
  have separators := (span_unique (by decide +kernel) letters (by decide) (by decide) aligned).2
  simp at separators

theorem headers_announced : r.headers.foldl contentLength 0 = r.input.stdin.length := by
  rw [headers, contentLength_headers fun field member => (r.fields_plain field member).1, r.announced]
  by_cases empty : r.input.stdin = []
  · simp [empty]
  · rw [if_neg empty]
    exact toSize_atoll_decimal r.bodyFits

/-- This is the request that the server puts on the wire. -/
def wire : Request where
  pid := r.input.pid
  requestLine := r.requestLine
  headers := r.headers
  body := r.input.stdin
  pidPositive := r.pidPositive
  pidFits := r.pidFits
  clean := by
    intro line member
    rcases List.mem_cons.mp member with rfl | inside
    · exact r.requestLine_clean
    · obtain ⟨field, listed, rfl⟩ := List.mem_map.mp inside
      obtain ⟨word, plain⟩ := r.fields_plain field listed
      exact headerLine_clean (word_plain word) plain
  noMark := r.requestLine_noMark
  announced := r.headers_announced

/-- The server writes the header block of this request. -/
theorem pierHeader_wire : pierHeader r.input = r.wire.headerBlock := by
  have http : (r.http.map Entry.httpVariable).flatMap (addHeaderRow []) =
      r.http.flatMap fun e => printLine (headerLine e.name e.value) := by
    simp only [List.flatMap_map, addHeaderRow_http]
  have content : (r.content.map Entry.contentVariable).flatMap (addHeaderRow []) =
      r.content.flatMap fun e => printLine (headerLine (text "CONTENT_" ++ e.name) e.value) := by
    simp only [List.flatMap_map, addHeaderRow_content]
  have row : requestRow r.input.environ = printLine r.requestLine := by
    simp [requestRow, r.requestMethod, r.requestUri, r.serverProtocol, requestLine, printLine, NL]
  rw [pierHeader_eq, r.httpVariables, r.contentVariables, http, content, row]
  simp [Request.headerBlock, Request.lines, wire, headers, headerFields, printLine, NL, List.flatMap_map]

theorem pierBytes_wire : pierBytes r.input = r.wire.encode := by
  rw [pierBytes, pierHeader_wire, Request.encode]
  rfl

end CgiRequest

end Piercloud.Cgi
