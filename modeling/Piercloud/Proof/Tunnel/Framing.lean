import Piercloud.Proof.Parser.Survival
import Piercloud.Proof.Tunnel.Encoding

/-
This file compares how the client frames the same request under two sets of browser headers.
-/

namespace Piercloud.Cgi

open CLib Liblst Client Wire

/-- This is the request row without its line end. -/
def requestText (environ : List Bytes) : Bytes :=
  (getenv environ (text "REQUEST_METHOD")).getD (text "GET") ++ text " " ++
    (getenv environ (text "REQUEST_URI")).getD (text "(null)") ++ text " " ++
    (getenv environ (text "SERVER_PROTOCOL")).getD (text "HTTP/1.1")

/-- A `CONTENT_` variable with an equals sign has a header line. -/
def contentLine (entry : Bytes) : Option Bytes :=
  (strchr entry 61).map fun p => headerLine (entry.take p) (entry.drop (p + 1))

/-- These are the lines between the pid line and the empty line. -/
def printedLines (environ : List Bytes) (http : List Entry) : List Bytes :=
  requestText environ :: ((http.map fun e => headerLine e.name e.value) ++
    (lstEgrep environ (text "CONTENT_")).filterMap contentLine)

/-- The variable is printed as a line that sets the length of the body. -/
def SetsLength (entry : Bytes) : Prop :=
  ∃ line ∈ contentLine entry, strcasestr line contentLengthMark = some 0

/-- The last browser header that is printed as a `Content-length` line sets the length. -/
def announcedLength (start : Nat) (http : List Entry) : Nat :=
  (contentLengths (http.map fun e => (e.name, e.value))).getLast?.elim start fun value => toSize (atoll value)

/-- These are the number of bytes that the parser takes behind the empty line, and its state behind them. -/
def framing (cfg : Config) (s : State) (input : PierInput) : Option (Nat × Statics) :=
  (getConnectionRequest cfg s.statics (increaseBuffer s.buf (pierBytes input) (pierBytes input).length)
    s.request).map fun (_, statics, buf, _) => (input.stdin.length - buf.len, statics)

/-- The equals sign stands behind the mark of the variable. -/
theorem contentLine_split {entry : Bytes} {p : Nat} (marked : text "CONTENT_" <+: entry)
    (found : strchr entry 61 = some p) :
    ∃ name value, entry = name ++ 61 :: value ∧ p = name.length ∧ name ≠ [] := by
  obtain ⟨name, value, split, index, -, -⟩ := strchr_some found
  refine ⟨name, value, split, index, ?_⟩
  rintro rfl
  obtain ⟨rest, same⟩ := marked
  rw [split] at same
  simp [text] at same

theorem addHeaderRow_contentLine {entry : Bytes} (marked : text "CONTENT_" <+: entry) :
    addHeaderRow [] entry = (contentLine entry).elim [] printLine := by
  have unmarked : ¬ strstr entry (text "HTTP_") = some 0 := by
    rw [strstr_zero_iff]
    intro other
    have same := (List.prefix_of_prefix_length_le other marked (by decide))
    exact absurd same (by decide)
  rw [addHeaderRow, if_neg unmarked, contentLine]
  cases found : strchr entry 61 with
  | none => simp [found]
  | some p =>
      obtain ⟨name, value, rfl, rfl, real⟩ := contentLine_split marked found
      simp only [found, List.take_left', replaceStrFormat_empty, List.nil_append, Option.map_some,
        Option.elim_some]
      exact headerRow_line real _

/-- The line of a plain variable is a clean line. -/
theorem contentLine_clean {entry line : Bytes} (plain : Plain entry)
    (printed : contentLine entry = some line) : Clean line := by
  rw [contentLine, Option.map_eq_some_iff] at printed
  obtain ⟨p, found, rfl⟩ := printed
  rw [plain_iff] at plain
  apply headerLine_clean
  · exact plain_iff.mpr fun c member => plain c (List.mem_of_mem_take member)
  · exact plain_iff.mpr fun c member => plain c (List.mem_of_mem_drop member)

theorem requestRow_printed (environ : List Bytes) : requestRow environ = printLine (requestText environ) := by
  simp [requestRow, requestText, printLine, NL]

/-- The rows of the `CONTENT_` variables are printed lines. -/
theorem contentRows_lines (environ : List Bytes) :
    (lstEgrep environ (text "CONTENT_")).flatMap (addHeaderRow []) =
      ((lstEgrep environ (text "CONTENT_")).filterMap contentLine).flatMap printLine := by
  have marked : ∀ entry ∈ lstEgrep environ (text "CONTENT_"), text "CONTENT_" <+: entry := by
    intro entry member
    rw [lstEgrep, List.mem_filter, Bool.and_eq_true, List.isPrefixOf_iff_prefix] at member
    exact member.2.1
  generalize lstEgrep environ (text "CONTENT_") = entries at marked
  induction entries with
  | nil => rfl
  | cons entry entries ih =>
      rw [List.flatMap_cons, addHeaderRow_contentLine (marked entry (by simp)),
        ih fun other member => marked other (by simp [member]), List.filterMap_cons]
      cases contentLine entry <;> simp

/-- The server writes a block of printed lines. -/
theorem pierHeader_lines {input : PierInput} {http : List Entry}
    (browserHeaders : lstEgrep input.environ (text "HTTP_") = http.map Entry.httpVariable) :
    pierHeader input = (decimal input.pid :: printedLines input.environ http).flatMap printLine ++ [CR, LF] := by
  have browser : (http.map Entry.httpVariable).flatMap (addHeaderRow []) =
      (http.map fun e => headerLine e.name e.value).flatMap printLine := by
    simp only [List.flatMap_map, addHeaderRow_http]
  rw [pierHeader_eq, browserHeaders, browser, contentRows_lines, requestRow_printed]
  simp [printedLines, printLine, NL]

theorem printedLines_clean {environ : List Bytes} {http : List Entry} (request : Plain (requestText environ))
    (plain : ∀ entry ∈ lstEgrep environ (text "CONTENT_"), Plain entry) :
    ∀ line ∈ printedLines environ http, Clean line := by
  intro line member
  rcases List.mem_cons.mp member with rfl | inside
  · exact ⟨by simp [requestText, text], request⟩
  · rcases List.mem_append.mp inside with browser | content
    · obtain ⟨e, -, rfl⟩ := List.mem_map.mp browser
      exact headerLine_clean (word_plain e.word) e.plain
    · obtain ⟨entry, listed, printed⟩ := List.mem_filterMap.mp content
      exact contentLine_clean (plain entry listed) printed

/-- Behind a line that sets the length, the length before it does not matter. -/
theorem foldl_contentLength (lines : List Bytes) (n m : Nat) :
    lines.foldl contentLength n = n ∧ lines.foldl contentLength m = m ∧
        (∀ line ∈ lines, strcasestr line contentLengthMark ≠ some 0) ∨
      lines.foldl contentLength n = lines.foldl contentLength m ∧
        ∃ line ∈ lines, strcasestr line contentLengthMark = some 0 := by
  induction lines generalizing n m with
  | nil => simp
  | cons line lines ih =>
      rw [List.foldl_cons, List.foldl_cons]
      by_cases sets : strcasestr line contentLengthMark = some 0
      · right
        rw [contentLength, contentLength, if_pos sets, if_pos sets]
        exact ⟨rfl, line, by simp, sets⟩
      · rw [contentLength, contentLength, if_neg sets, if_neg sets]
        simpa [sets] using ih n m

/-- The browser headers matter only when no `CONTENT_` variable sets the length. -/
theorem printedLines_announced (environ : List Bytes) (http http' : List Entry) :
    (printedLines environ http).foldl contentLength 0 = (printedLines environ http').foldl contentLength 0 ↔
      (∃ entry ∈ lstEgrep environ (text "CONTENT_"), SetsLength entry) ∨
        announcedLength (contentLength 0 (requestText environ)) http =
          announcedLength (contentLength 0 (requestText environ)) http' := by
  have browser : ∀ (es : List Entry) n,
      (es.map fun e => headerLine e.name e.value).foldl contentLength n = announcedLength n es := by
    intro es n
    have words : ∀ field ∈ es.map fun e => (e.name, e.value), ∀ c ∈ field.1, isWordByte c = true := by
      intro field member
      obtain ⟨e, -, rfl⟩ := List.mem_map.mp member
      exact e.word
    simpa [announcedLength, List.map_map, Function.comp_def] using contentLength_headers words n
  have sets : (∃ line ∈ (lstEgrep environ (text "CONTENT_")).filterMap contentLine,
      strcasestr line contentLengthMark = some 0) ↔ ∃ entry ∈ lstEgrep environ (text "CONTENT_"), SetsLength entry := by
    simp only [List.mem_filterMap, SetsLength, Option.mem_def]
    constructor
    · rintro ⟨line, ⟨entry, listed, printed⟩, set⟩
      exact ⟨entry, listed, line, printed, set⟩
    · rintro ⟨entry, listed, line, printed, set⟩
      exact ⟨line, ⟨entry, listed, printed⟩, set⟩
  simp only [printedLines, List.foldl_cons, List.foldl_append, browser]
  rcases foldl_contentLength ((lstEgrep environ (text "CONTENT_")).filterMap contentLine)
      (announcedLength (contentLength 0 (requestText environ)) http)
      (announcedLength (contentLength 0 (requestText environ)) http') with ⟨first, second, unset⟩ | ⟨same, set⟩
  · have none : ¬ ∃ entry ∈ lstEgrep environ (text "CONTENT_"), SetsLength entry := by
      rw [← sets]
      rintro ⟨line, member, set⟩
      exact unset line member set
    rw [first, second]
    simp [none]
  · simp [same, sets.mp set]

/-- The parser takes the announced number of bytes, or waits for them. -/
theorem framing_eq (cfg : Config) {s : State} {input : PierInput} {http : List Entry} (idle : Idle s [])
    (browserHeaders : lstEgrep input.environ (text "HTTP_") = http.map Entry.httpVariable)
    (clean : ∀ line ∈ printedLines input.environ http, Clean line) {n : Nat}
    (announced : (printedLines input.environ http).foldl contentLength 0 = n) :
    framing cfg s input = some (if n ≤ input.stdin.length then n else 0,
      ⟨false, decide (input.stdin.length < n), atoi (decimal input.pid), n⟩) := by
  have stream : pierBytes input = (decimal input.pid :: printedLines input.environ http).flatMap printLine ++
      ([CR, LF] ++ input.stdin) := by
    rw [pierBytes, pierHeader_lines browserHeaders, List.append_assoc]
  have allClean : ∀ line ∈ decimal input.pid :: printedLines input.environ http, Clean line := by
    intro line member
    rcases List.mem_cons.mp member with rfl | inside
    · exact decimal_clean input.pid
    · exact clean line inside
  have grown : (increaseBuffer s.buf (pierBytes input) (pierBytes input).length).Holds
      ((printedHead _ _ allClean).bytes ++ input.stdin) := by
    rw [printedHead_bytes, List.append_assoc, ← stream]
    exact increaseBuffer_holds idle.buf (pierBytes input)
  obtain ⟨buf, out, parsed, kept, appended⟩ := getConnectionRequest_head cfg _ idle.inHeader idle.inData
    idle.request grown
  rw [framing, parsed, printedHead_announced, printedHead_pid, announced]
  by_cases empty : n = 0
  · simp [empty, kept.1]
  · rw [if_neg empty]
    by_cases within : n ≤ input.stdin.length
    · have split : input.stdin = input.stdin.take n ++ input.stdin.drop n := (List.take_append_drop _ _).symm
      rw [split] at kept
      have reading : (⟨false, true, atoi (decimal input.pid), n⟩ : Statics).inData = true := rfl
      obtain ⟨buf', out', taken, kept', -⟩ := takeBody_complete reading (by simp [within]) kept appended
      have left : input.stdin.length - buf'.len = n := by
        rw [kept'.1, List.length_drop]
        omega
      have complete : decide (input.stdin.length < n) = false := by simpa using within
      simp [taken, left, within, complete]
    · have waits : takeBody ⟨false, true, atoi (decimal input.pid), n⟩ buf out = _ :=
        takeBody_waits out kept (not_le.mp within)
      have waiting : input.stdin.length < n := not_le.mp within
      simp [waits, kept.1, within, waiting]

/-- The browser headers do not change the framing exactly when a `CONTENT_` variable sets the length, or the
last length that the browser headers announce is the same. -/
theorem framing_agrees_iff (cfg : Config) (a b : PierInput) (http http' : List Entry) (s : State) (idle : Idle s [])
    (samePid : a.pid = b.pid) (sameBody : a.stdin = b.stdin)
    (sameMethod : getenv a.environ (text "REQUEST_METHOD") = getenv b.environ (text "REQUEST_METHOD"))
    (sameUri : getenv a.environ (text "REQUEST_URI") = getenv b.environ (text "REQUEST_URI"))
    (sameProtocol : getenv a.environ (text "SERVER_PROTOCOL") = getenv b.environ (text "SERVER_PROTOCOL"))
    (sameContent : lstEgrep a.environ (text "CONTENT_") = lstEgrep b.environ (text "CONTENT_"))
    (browserHeaders : lstEgrep a.environ (text "HTTP_") = http.map Entry.httpVariable)
    (browserHeaders' : lstEgrep b.environ (text "HTTP_") = http'.map Entry.httpVariable)
    (request : Plain (requestText a.environ))
    (plain : ∀ entry ∈ lstEgrep a.environ (text "CONTENT_"), Plain entry) :
    framing cfg s a = framing cfg s b ↔
      (∃ entry ∈ lstEgrep a.environ (text "CONTENT_"), SetsLength entry) ∨
        announcedLength (contentLength 0 (requestText a.environ)) http =
          announcedLength (contentLength 0 (requestText a.environ)) http' := by
  have sameRequest : requestText a.environ = requestText b.environ := by
    rw [requestText, requestText, sameMethod, sameUri, sameProtocol]
  have sameLines : ∀ es, printedLines a.environ es = printedLines b.environ es := by
    intro es
    rw [printedLines, printedLines, sameRequest, sameContent]
  have clean : ∀ es, ∀ line ∈ printedLines a.environ es, Clean line := fun es => printedLines_clean request plain
  rw [← printedLines_announced, framing_eq cfg idle browserHeaders (clean http) rfl,
    framing_eq cfg idle browserHeaders' (sameLines http' ▸ clean http') (by rw [← sameLines]), samePid, sameBody]
  constructor
  · intro same
    exact congrArg (fun result : Nat × Statics => result.2.contentLen) (Option.some.inj same)
  · intro same
    rw [same]

/-- This request has the given entries beside its request line. -/
def framedInput (entries : List Bytes) : PierInput :=
  ⟨12, [text "REQUEST_METHOD=POST", text "REQUEST_URI=/x", text "SERVER_PROTOCOL=HTTP/1.1"] ++ entries, text "abc"⟩

/-- A browser can choose this header. -/
def lengthEntry (value : Bytes) (plain : Plain value) : Entry :=
  ⟨text "CONTENT_LENGTH", value, by decide, by decide +kernel, plain⟩

/-- The server's own variable stands behind the browser's header. -/
def trustedInput : PierInput := framedInput [text "HTTP_CONTENT_LENGTH=2", text "CONTENT_LENGTH=3"]

theorem framing_agrees_iff_trusted :
    framing sampleConfig (sessionStart Statics.initial) trustedInput =
        framing sampleConfig (sessionStart Statics.initial) (framedInput [text "CONTENT_LENGTH=3"]) ↔
      (∃ entry ∈ lstEgrep trustedInput.environ (text "CONTENT_"), SetsLength entry) ∨
        announcedLength (contentLength 0 (requestText trustedInput.environ))
            [lengthEntry (text "2") (by simp only [Plain]; decide)] =
          announcedLength (contentLength 0 (requestText trustedInput.environ)) [] :=
  framing_agrees_iff sampleConfig trustedInput (framedInput [text "CONTENT_LENGTH=3"])
    [lengthEntry (text "2") (by simp only [Plain]; decide)] [] (sessionStart Statics.initial)
    (sessionStart_idle rfl rfl) rfl rfl (by decide) (by decide) (by decide) (by decide) (by decide) (by decide)
    (by simp only [Plain]; decide) (by simp only [Plain]; decide)

/-- Without a `CONTENT_LENGTH` variable a browser header makes the client take bytes as a body. -/
theorem browser_sets_framing : ∃ (cfg : Config) (a b : PierInput) (http http' : List Entry) (s : State),
    Idle s [] ∧ a.pid = b.pid ∧ a.stdin = b.stdin ∧
      getenv a.environ (text "REQUEST_METHOD") = getenv b.environ (text "REQUEST_METHOD") ∧
      getenv a.environ (text "REQUEST_URI") = getenv b.environ (text "REQUEST_URI") ∧
      getenv a.environ (text "SERVER_PROTOCOL") = getenv b.environ (text "SERVER_PROTOCOL") ∧
      lstEgrep a.environ (text "CONTENT_") = lstEgrep b.environ (text "CONTENT_") ∧
      lstEgrep a.environ (text "HTTP_") = http.map Entry.httpVariable ∧
      lstEgrep b.environ (text "HTTP_") = http'.map Entry.httpVariable ∧
      framing cfg s a = some (3, ⟨false, false, 12, 3⟩) ∧ framing cfg s b = some (0, ⟨false, false, 12, 0⟩) :=
  ⟨sampleConfig, framedInput [text "HTTP_CONTENT_LENGTH=3"], framedInput [],
    [lengthEntry (text "3") (by simp only [Plain]; decide)], [], sessionStart Statics.initial,
    sessionStart_idle rfl rfl, rfl, rfl, by decide, by decide, by decide, by decide, by decide, by decide,
    by decide +kernel, by decide +kernel⟩

end Piercloud.Cgi
