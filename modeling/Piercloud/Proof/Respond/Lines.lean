import Piercloud.Construction.Wire
import Piercloud.Proof.Respond.Received
import Piercloud.Proof.Socket.Delivery

/-
This file follows the header loop over the lines of a response, wherever the reads split them.
-/

namespace Piercloud.Client

open CLib Liblst Socket Loop Wire Replace

/-- A line starts with a mark in any case. -/
def Starts (mark line : Bytes) : Prop := mark.map tolower <+: line.map tolower

instance (mark line : Bytes) : Decidable (Starts mark line) := inferInstanceAs (Decidable (_ <+: _))

theorem strcasestr_starts (line mark : Bytes) : strcasestr line mark = some 0 ↔ Starts mark line :=
  strcasestr_zero_iff _ _

/-- A response has header lines, an empty line and a body. -/
def responseText (lines : List Bytes) (body : Bytes) : Bytes := lines.flatMap printLine ++ [CR, LF] ++ body

/-- This is the line that the loop appends for a line of the response. -/
def emittedLine (line : Bytes) : Bytes :=
  if strcasestr line chunkedMark = some 0 then text "Content-Length: 0" else statusLine line

/-- These are the variables of the loop behind some lines. -/
structure Emitted (start : Rows) (lines : List Bytes) (s : Rows) : Prop where
  header : s.header = start.header ++ lines.flatMap fun line => emittedLine line ++ [LF]
  chunked : s.chunked = (start.chunked || lines.any fun line => decide (strcasestr line chunkedMark = some 0))
  contentLen : s.contentLen = lines.foldl contentLength start.contentLen

theorem statusLine_eq (line : Bytes) : statusLine line =
    if strcasestr line statusMark = some 0 then replaceAll statusMark (text "Status: ") line else line := by
  rw [statusLine, replaceStrFormat, ptReplaceStr_eq_replaceAll (by decide)]

/-- A replaced line starts with an `h` or an `s`, before and after. -/
theorem statusLine_cases (line : Bytes) : statusLine line = line ∨
    ∀ mark : Bytes, (∃ c ∈ mark.head?, tolower c ≠ 104 ∧ tolower c ≠ 115) →
      strcasestr line mark ≠ some 0 ∧ strcasestr (statusLine line) mark ≠ some 0 := by
  rw [statusLine_eq]
  by_cases marked : strcasestr line statusMark = some 0
  · right
    rw [if_pos marked]
    have heads : ∀ bytes : Bytes, (∃ d ∈ bytes.head?, tolower d = 104 ∨ tolower d = 115) → ∀ mark : Bytes,
        (∃ c ∈ mark.head?, tolower c ≠ 104 ∧ tolower c ≠ 115) → strcasestr bytes mark ≠ some 0 := by
      rintro bytes ⟨d, head, letter⟩ mark ⟨c, first, other⟩ found
      obtain ⟨bytes, rfl⟩ : ∃ rest, bytes = d :: rest := ⟨bytes.tail, List.eq_cons_of_mem_head? head⟩
      obtain ⟨mark, rfl⟩ : ∃ rest, mark = c :: rest := ⟨mark.tail, List.eq_cons_of_mem_head? first⟩
      rw [strcasestr_zero_iff, List.map_cons, List.map_cons, List.cons_prefix_cons] at found
      exact letter.elim (found.1 ▸ other.1) (found.1 ▸ other.2)
    obtain ⟨d, rest, rfl, letter⟩ : ∃ d rest, line = d :: rest ∧ tolower d = 104 := by
      rw [strcasestr_zero_iff] at marked
      cases line with
      | nil => simp [statusMark, text] at marked
      | cons d rest => exact ⟨d, rest, rfl, ((List.cons_prefix_cons).mp marked).1.symm.trans (by decide)⟩
    refine fun mark other => ⟨heads _ ⟨d, rfl, Or.inl letter⟩ mark other, heads _ ?_ mark other⟩
    by_cases front : statusMark <+: d :: rest
    · obtain ⟨tail, same⟩ := front
      rw [← same, replaceAll_needle (by decide)]
      exact ⟨83, rfl, by decide⟩
    · rw [replaceAll_cons front]
      exact ⟨d, rfl, Or.inl letter⟩
  · exact Or.inl (if_neg marked)

/-- The replacement moves no mark to the start of a line and none away from it. -/
theorem statusLine_mark {mark : Bytes} (other : ∃ c ∈ mark.head?, tolower c ≠ 104 ∧ tolower c ≠ 115) (line : Bytes) :
    strcasestr (statusLine line) mark = some 0 ↔ strcasestr line mark = some 0 := by
  rcases statusLine_cases line with same | unmarked
  · rw [same]
  · exact iff_of_false (unmarked mark other).2 (unmarked mark other).1

theorem contentLength_statusLine (n : Nat) (line : Bytes) :
    contentLength n (statusLine line) = contentLength n line := by
  rcases statusLine_cases line with same | unmarked
  · rw [same]
  · obtain ⟨before, after⟩ := unmarked contentLengthMark ⟨67, by decide, by decide⟩
    rw [contentLength, contentLength, if_neg before, if_neg after]

/-- One line is appended. -/
theorem rowStep_line {s : Rows} {front back line rest : Bytes} {outcomes behind : List ReadOutcome}
    (reading : Reading s.soc s.world front back outcomes behind) (split : front ++ back = printLine line ++ rest)
    (clean : Clean line) :
    ∃ t front' back' outcomes', rowStep s = .inl t ∧ Emitted s [line] t ∧ rest = front' ++ back' ∧
      Reading t.soc t.world front' back' outcomes' behind := by
  obtain ⟨real, noEnd, noReturn, noNewline⟩ := clean
  have row : front ++ back = (line ++ [CR]) ++ LF :: rest := by simpa [printLine] using split
  obtain ⟨next, world', front', back', outcomes', read, tail, later⟩ := getRowFromSocket_line reading row
    (by simpa using ⟨noNewline, by decide⟩) (by simpa using ⟨noEnd, by decide⟩)
  have some : ¬ line.isEmpty = true := by simpa using real
  have chunked := @statusLine_mark chunkedMark ⟨84, by decide, by decide⟩ line
  simp only [rowStep, read, cstr_chopStr_line noEnd noReturn noNewline, if_neg some, chunked,
    contentLength_statusLine]
  by_cases marked : strcasestr line chunkedMark = Option.some 0
  · rw [if_pos marked]
    exact ⟨_, front', back', outcomes', rfl, ⟨by simp [emittedLine, marked], by simp [marked], rfl⟩, tail, later⟩
  · rw [if_neg marked]
    exact ⟨_, front', back', outcomes', rfl, ⟨by simp [emittedLine, marked], by simp [marked], rfl⟩, tail, later⟩

/-- The empty line ends the loop. -/
theorem rowStep_blank {s : Rows} {front back rest : Bytes} {outcomes behind : List ReadOutcome}
    (reading : Reading s.soc s.world front back outcomes behind) (split : front ++ back = [CR, LF] ++ rest) :
    ∃ next world' front' back' outcomes', rowStep s = .inr { s with data := .freed, soc := next, world := world' } ∧
      rest = front' ++ back' ∧ Reading next world' front' back' outcomes' behind := by
  obtain ⟨next, world', front', back', outcomes', read, tail, later⟩ :=
    getRowFromSocket_line reading (show front ++ back = [CR] ++ LF :: rest from split) (by decide) (by decide)
  have blank : (cstr (chopStr ([CR] ++ [NUL]))).isEmpty = true := by decide
  exact ⟨next, world', front', back', outcomes', by simp only [rowStep, read, if_pos blank], tail, later⟩

theorem Emitted.trans {s t u : Rows} {line : Bytes} {lines : List Bytes} (first : Emitted s [line] t)
    (later : Emitted t lines u) : Emitted s (line :: lines) u where
  header := by rw [later.header, first.header]; simp
  chunked := by rw [later.chunked, first.chunked]; simp [Bool.or_assoc]
  contentLen := by rw [later.contentLen, first.contentLen]; rfl

/-- The loop appends the lines in order, and the body comes behind it. -/
theorem rowStep_lines {lines : List Bytes} (clean : ∀ line ∈ lines, Clean line) {s : Rows} {front back body : Bytes}
    {outcomes behind : List ReadOutcome} (reading : Reading s.soc s.world front back outcomes behind)
    (split : front ++ back = responseText lines body) :
    ∃ t front' back' outcomes', Ends rowStep s t ∧ Emitted s lines t ∧ body = front' ++ back' ∧
      Reading t.soc t.world front' back' outcomes' behind := by
  induction lines generalizing s front back outcomes with
  | nil =>
      obtain ⟨next, world', front', back', outcomes', ends, tail, later⟩ :=
        rowStep_blank reading (by simpa [responseText] using split)
      exact ⟨_, front', back', outcomes', .last ends, ⟨by simp, by simp, rfl⟩, tail, later⟩
  | cons line lines ih =>
      have lineFirst : front ++ back = printLine line ++ responseText lines body := by
        rw [split]
        simp [responseText]
      obtain ⟨t, front₁, back₁, outcomes₁, goesOn, first, tail, later⟩ :=
        rowStep_line reading lineFirst (clean line (by simp))
      obtain ⟨u, front₂, back₂, outcomes₂, ends, emitted, tail', last⟩ :=
        ih (fun other member => clean other (by simp [member])) later tail.symm
      exact ⟨u, front₂, back₂, outcomes₂, .next goesOn ends, first.trans emitted, tail', last⟩

/-- The local server sends some bytes in non-empty pieces to a child that has reached it, and every allocation of a
row succeeds. What the reads give behind these bytes is left open. -/
structure Responding (host : LocalHost) (world : World) (bytes : Bytes) (behind : List ReadOutcome) : Prop where
  connected : 0 < host.c
  written : host.writeFails = false
  plenty : Plenty world
  reads : ∃ outcomes, world.reads = outcomes ++ behind ∧ Delivers outcomes bytes

/-- The header loop of a response gives its lines and leaves its body to the rest of the run. -/
theorem getLocalHostRespond_lines (cfg : Config) {host : LocalHost} (request : Buffer) {world : World}
    {lines : List Bytes} {body : Bytes} {behind : List ReadOutcome}
    (responding : Responding host world (responseText lines body) behind) (clean : ∀ line ∈ lines, Clean line) :
    ∃ rows consumed front back outcomes, getLocalHostRespond cfg host request Buffer.cleared world =
        relayRows cfg host.limit (cutBuf request request.len) Buffer.cleared rows ∧
      rows.header = lines.flatMap (fun line => emittedLine line ++ [LF]) ∧
      rows.chunked = lines.any (fun line => decide (strcasestr line chunkedMark = some 0)) ∧
      rows.contentLen = lines.foldl contentLength 0 ∧ Listed rows consumed ∧
      (∀ holds, AtBody host world holds → holds rows) ∧
      body = front ++ back ∧ Reading rows.soc rows.world front back outcomes behind := by
  obtain ⟨connected, written, plenty, outcomes, reads, delivers⟩ := responding
  have opened : Opened host world ⟨host.c, false, some [NUL], 0⟩ world :=
    ⟨by omega, written, by simp [initSocket, connected, malloc_plenty plenty]⟩
  have reading : Reading ⟨host.c, false, some [NUL], 0⟩ world [] (responseText lines body) outcomes behind :=
    ⟨⟨rfl, rfl⟩, plenty, reads, delivers⟩
  obtain ⟨rows, front, back, outcomes', ends, emitted, tail, later⟩ :=
    @rowStep_lines lines clean ⟨[], false, 0, .null, _, world⟩ _ _ _ _ _ reading (List.nil_append _)
  have listed : Listed ⟨[], false, 0, .null, ⟨host.c, false, some [NUL], 0⟩, world⟩ world.received :=
    ⟨reading.holds.fed (by simp), by simp, by simp⟩
  obtain ⟨rows', consumed, found, listed'⟩ := headerLoop_result listed (held_fuel _ world)
  obtain rfl := ends.unique (ends_of_loop found)
  rcases getLocalHostRespond_cases cfg host request world with ⟨closed, -⟩ | ⟨soc, start, opened', -, -, relays⟩
  · exact absurd opened (closed _ _)
  · obtain ⟨rfl, rfl⟩ := opened.unique opened'
    exact ⟨rows, consumed, front, back, outcomes', relays rows found, by simpa using emitted.header,
      by simpa using emitted.chunked, emitted.contentLen, listed',
      fun holds known => known _ _ rows opened found, tail, later⟩

end Piercloud.Client
