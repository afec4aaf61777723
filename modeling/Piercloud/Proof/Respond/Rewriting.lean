import Piercloud.Proof.Respond.Announced

/-
This file tells when the header of a relayed response has exactly one output line for each line of the response.
-/

namespace Piercloud.Client

open CLib Liblst Socket Loop Wire Replace

/-- Only the start of a line is rewritten, and a line that announces chunks becomes the length of the body. -/
def rewrittenLine (cfg : Config) (n : Nat) (line : Bytes) : Bytes :=
  if Starts chunkedMark line then contentLengthMark ++ decimal n
  else if Starts statusMark line then text "Status: " ++ line.drop statusMark.length
  else if localLocation <+: line then deviceLocation cfg ++ line.drop localLocation.length
  else line

/-- These are the output lines of a response in front of its empty line. -/
def rewrittenHeader (cfg : Config) (n : Nat) (lines : List Bytes) : Bytes :=
  lines.flatMap fun line => rewrittenLine cfg n line ++ [LF]

/-- The replacements touch nothing but the start of the line. The length is put into a line only if it is `patched`. -/
def LineKept (cfg : Config) (patched : Prop) (line : Bytes) : Prop :=
  Starts chunkedMark line ∨
    (Starts statusMark line → statusMark <+: line ∧ ¬ statusMark <:+: line.drop statusMark.length) ∧
      ¬ localLocation <:+: line.drop 1 ∧
      (patched → ¬ zeroLength <:+: line ∧ (localLocation <+: line → ¬ zeroLength <:+: cstr cfg.gId))

/-- In front of a decoded body the length takes the place of a zero. -/
def lengthPatched (chunked : Bool) (n : Nat) (line : Bytes) : Bytes :=
  if chunked then replaceAll zeroLength (contentLengthMark ++ decimal n) line else line

/-- This is what becomes of a line of the response. -/
def outputLine (cfg : Config) (chunked : Bool) (n : Nat) (line : Bytes) : Bytes :=
  lengthPatched chunked n (replaceAll localLocation (deviceLocation cfg) (emittedLine line))

section Patched

variable (chunked : Bool) (n : Nat)

theorem lengthPatched_front {front : Bytes} (absent : (67 : UInt8) ∉ front) (rest : Bytes) :
    lengthPatched chunked n (front ++ rest) = front ++ lengthPatched chunked n rest := by
  unfold lengthPatched
  split
  · exact replaceAll_front (by decide) absent _ _
  · rfl

theorem lengthPatched_eq_self_iff (line : Bytes) :
    lengthPatched chunked n line = line ↔ (chunked = true ∧ n ≠ 0 → ¬ zeroLength <:+: line) := by
  unfold lengthPatched
  cases chunked with
  | false => simp
  | true =>
      have longer : zeroLength.length ≤ (contentLengthMark ++ decimal n).length := by
        have digits := List.length_pos_of_ne_nil (decimal_ne_nil n)
        rw [zeroLength_eq]
        simp only [List.length_append, List.length_singleton]
        omega
      have zero : contentLengthMark ++ decimal n = zeroLength ↔ n = 0 := by
        rw [zeroLength_eq, List.append_cancel_left_eq]
        exact ⟨fun same => (decimal_zero_cons same).1, fun nothing => by rw [nothing]; decide⟩
      rw [if_pos rfl, replaceAll_eq_self_iff (by decide) longer, zero]
      by_cases nothing : n = 0 <;> simp [nothing]

/-- Only digits are lost. -/
theorem count_lengthPatched {c : UInt8} (letter : c ≠ 48) (line : Bytes) :
    line.count c ≤ (lengthPatched chunked n line).count c := by
  unfold lengthPatched
  split
  · refine count_replaceAll (by decide) ?_ line
    rw [zeroLength_eq, List.count_append, List.count_append, List.count_singleton, if_neg (by simpa using letter.symm)]
    omega
  · exact le_refl _

end Patched

theorem deviceLocation_letters (cfg : Config) : localLocation.count 117 < (deviceLocation cfg).count 117 := by
  have device : (deviceLocation cfg).count 117 = (cstr cfg.gId).count 117 + 1 := by
    rw [deviceLocation_eq, List.count_append, List.count_append,
      show (text "Location: http://").count 117 = 0 by decide, show (text ".piercloud.com/").count 117 = 1 by decide]
    omega
  rw [device, show localLocation.count 117 = 0 by decide]
  omega

/-- A redirection and a patch that keep the number of one letter keep the text. -/
theorem redirected_rare (cfg : Config) (chunked : Bool) (n : Nat) {front rest text : Bytes}
    (same : lengthPatched chunked n (front ++ replaceAll localLocation (deviceLocation cfg) rest) = front ++ text)
    (rare : text.count 117 ≤ rest.count 117) : ¬ localLocation <:+: rest := by
  intro inside
  have more := count_replaceAll_lt (by decide) (deviceLocation_letters cfg) inside
  have patched := count_lengthPatched chunked n (show (117 : UInt8) ≠ 48 by decide)
    (front ++ replaceAll localLocation (deviceLocation cfg) rest)
  rw [same, List.count_append, List.count_append] at patched
  omega

theorem patched_redirected_eq_iff (cfg : Config) (chunked : Bool) (n : Nat) (line : Bytes) :
    lengthPatched chunked n (replaceAll localLocation (deviceLocation cfg) line) = line ↔
      ¬ localLocation <:+: line ∧ (chunked = true ∧ n ≠ 0 → ¬ zeroLength <:+: line) := by
  constructor
  · intro same
    have absent : ¬ localLocation <:+: line := @redirected_rare cfg chunked n [] line line same (le_refl _)
    rw [replaceAll_absent absent, lengthPatched_eq_self_iff] at same
    exact ⟨absent, same⟩
  · rintro ⟨absent, unpatched⟩
    rw [replaceAll_absent absent]
    exact (lengthPatched_eq_self_iff chunked n line).mpr unpatched

/-- A status line with the exact mark. -/
theorem outputLine_status (cfg : Config) (chunked : Bool) (n : Nat) (rest : Bytes) :
    outputLine cfg chunked n (statusMark ++ rest) = text "Status: " ++ rest ↔
      ¬ statusMark <:+: rest ∧ ¬ localLocation <:+: rest ∧ (chunked = true ∧ n ≠ 0 → ¬ zeroLength <:+: rest) := by
  have marked : Starts statusMark (statusMark ++ rest) := by
    rw [Starts, List.map_append]
    exact List.prefix_append _ _
  have unchunked : ¬ Starts chunkedMark (statusMark ++ rest) := by
    intro start
    rw [Starts, List.map_append] at start
    obtain ⟨tail, same⟩ := start
    have heads := congrArg List.head? same
    simp [statusMark, chunkedMark, text, tolower] at heads
  rw [outputLine, emittedLine, if_neg (by rwa [strcasestr_starts]), statusLine_eq,
    if_pos ((strcasestr_starts _ _).mpr marked), replaceAll_needle (by decide),
    replaceAll_front (show localLocation.head? = some 76 by decide) (by decide),
    lengthPatched_front chunked n (by decide), List.append_cancel_left_eq]
  by_cases inside : statusMark <:+: rest
  · refine iff_of_false (fun same => ?_) (fun kept => kept.1 inside)
    have letters := count_replaceAll_lt (c := 117) (by decide)
      (show statusMark.count 117 < (text "Status: ").count 117 by decide) inside
    have redirected := count_replaceAll (by decide) (deviceLocation_letters cfg).le
      (replaceAll statusMark (text "Status: ") rest)
    have patched := count_lengthPatched chunked n (show (117 : UInt8) ≠ 48 by decide)
      (replaceAll localLocation (deviceLocation cfg) (replaceAll statusMark (text "Status: ") rest))
    rw [same] at patched
    omega
  · rw [replaceAll_absent inside, patched_redirected_eq_iff]
    simp [inside]

/-- A patch goes in front of the last dot of the device's name, or behind it. -/
theorem zeroLength_device_iff (cfg : Config) (rest : Bytes) :
    zeroLength <:+: deviceLocation cfg ++ rest ↔ zeroLength <:+: cstr cfg.gId ∨ zeroLength <:+: rest := by
  have head : zeroLength.head? = some 67 := by decide
  have dotted : deviceLocation cfg ++ rest =
      text "Location: http://" ++ cstr cfg.gId ++ 46 :: (text "piercloud.com/" ++ rest) := by
    rw [deviceLocation_eq, show text ".piercloud.com/" = 46 :: text "piercloud.com/" by decide]
    simp
  rw [dotted, infix_cut_iff (by decide), infix_front_iff head (by decide), infix_front_iff head (by decide)]

/-- A redirection at the start of a line. -/
theorem outputLine_location (cfg : Config) (chunked : Bool) (n : Nat) (rest : Bytes) :
    outputLine cfg chunked n (localLocation ++ rest) = deviceLocation cfg ++ rest ↔
      ¬ localLocation <:+: rest ∧
        (chunked = true ∧ n ≠ 0 → ¬ zeroLength <:+: cstr cfg.gId ∧ ¬ zeroLength <:+: rest) := by
  have unmarked : ∀ mark : Bytes, (∃ c ∈ mark.head?, tolower c ≠ 108) →
      ¬ strcasestr (localLocation ++ rest) mark = some 0 := by
    rintro mark ⟨c, head, other⟩ start
    rw [strcasestr_zero_iff, List.map_append] at start
    obtain ⟨mark, rfl⟩ : ∃ rest, mark = c :: rest := ⟨mark.tail, List.eq_cons_of_mem_head? head⟩
    obtain ⟨tail, same⟩ := start
    have heads := congrArg List.head? same
    simp only [List.map_cons, List.cons_append, List.head?_cons, List.head?_append] at heads
    rw [show (localLocation.map tolower).head? = some 108 by decide] at heads
    exact other (Option.some.inj heads)
  rw [outputLine, emittedLine, if_neg (unmarked _ ⟨84, by decide, by decide⟩), statusLine_eq,
    if_neg (unmarked _ ⟨72, by decide, by decide⟩), replaceAll_needle (by decide)]
  by_cases inside : localLocation <:+: rest
  · exact iff_of_false (fun same => redirected_rare cfg chunked n same (le_refl _) inside) (fun kept => kept.1 inside)
  · rw [replaceAll_absent inside, lengthPatched_eq_self_iff, zeroLength_device_iff, not_or, and_iff_right inside]

/-- A line that the loop copies. -/
theorem outputLine_plain (cfg : Config) (chunked : Bool) (n : Nat) {line : Bytes}
    (unchunked : ¬ Starts chunkedMark line) (unmarked : ¬ Starts statusMark line) :
    outputLine cfg chunked n line = line ↔
      ¬ localLocation <:+: line ∧ (chunked = true ∧ n ≠ 0 → ¬ zeroLength <:+: line) := by
  rw [outputLine, emittedLine, if_neg (by rwa [strcasestr_starts]), statusLine_eq, if_neg (by rwa [strcasestr_starts]),
    patched_redirected_eq_iff]

/-- A status line whose mark is not the exact one keeps its first letter. -/
theorem outputLine_case (cfg : Config) (chunked : Bool) (n : Nat) {line : Bytes} (marked : Starts statusMark line)
    (inexact : ¬ statusMark <+: line) (rest : Bytes) : outputLine cfg chunked n line ≠ text "Status: " ++ rest := by
  obtain ⟨c, line, rfl, letter⟩ : ∃ c tail, line = c :: tail ∧ tolower c = 104 := by
    cases line with
    | nil => simp [Starts, statusMark, text] at marked
    | cons c tail => exact ⟨c, tail, rfl, ((List.cons_prefix_cons).mp marked).1.symm.trans (by decide)⟩
  have unchunked : ¬ Starts chunkedMark (c :: line) := by
    intro start
    have first := ((List.cons_prefix_cons).mp start).1
    rw [letter] at first
    exact absurd first (by decide)
  have first : ∀ d : UInt8, tolower d ≠ 104 → d ≠ c := fun d other same => other (same ▸ letter)
  have alone : ∀ d : UInt8, tolower d ≠ 104 → d ∉ [c] := fun d other => by simpa using first d other
  rw [outputLine, emittedLine, if_neg (by rwa [strcasestr_starts]), statusLine_eq,
    if_pos ((strcasestr_starts _ _).mpr marked), replaceAll_cons inexact, ← List.singleton_append,
    replaceAll_front (show localLocation.head? = some 76 by decide) (alone 76 (by decide)),
    lengthPatched_front chunked n (alone 67 (by decide))]
  intro same
  have heads := congrArg List.head? same
  rw [List.singleton_append, List.head?_cons, List.head?_append,
    show (text "Status: ").head? = some 83 by decide] at heads
  exact first 83 (by decide) (Option.some.inj heads).symm

/-- A line has its one output line exactly when it is kept. -/
theorem outputLine_eq_iff (cfg : Config) {chunked : Bool} (n : Nat) {line : Bytes}
    (known : Starts chunkedMark line → chunked = true) :
    outputLine cfg chunked n line = rewrittenLine cfg n line ↔ LineKept cfg (chunked = true ∧ n ≠ 0) line := by
  by_cases marked : Starts chunkedMark line
  · have zero : outputLine cfg chunked n line = contentLengthMark ++ decimal n := by
      rw [outputLine, emittedLine, if_pos ((strcasestr_starts _ _).mpr marked), replaceAll_absent (by decide),
        lengthPatched, if_pos (known marked)]
      exact (replaceAll_needle (by decide) _ []).trans (List.append_nil _)
    rw [rewrittenLine, if_pos marked, zero]
    exact iff_of_true rfl (Or.inl marked)
  · rw [rewrittenLine, if_neg marked, LineKept, or_iff_right marked]
    by_cases status : Starts statusMark line
    · rw [if_pos status]
      by_cases exactMark : statusMark <+: line
      · obtain ⟨rest, rfl⟩ := exactMark
        have location : localLocation <:+: (statusMark ++ rest).drop 1 ↔ localLocation <:+: rest := by
          rw [List.drop_append_of_le_length (by decide)]
          exact infix_front_iff (show localLocation.head? = some 76 by decide) (by decide) rest
        have zero : zeroLength <:+: statusMark ++ rest ↔ zeroLength <:+: rest :=
          infix_front_iff (show zeroLength.head? = some 67 by decide) (by decide) rest
        have unlocated : ¬ localLocation <+: statusMark ++ rest := by
          rintro ⟨tail, same⟩
          have heads := congrArg List.head? same
          rw [List.head?_append, List.head?_append, show localLocation.head? = some 76 by decide,
            show statusMark.head? = some 72 by decide] at heads
          simp at heads
        rw [List.drop_left, outputLine_status, location, zero]
        simp [status, unlocated]
      · exact iff_of_false (outputLine_case cfg chunked n status exactMark _) (fun kept => exactMark (kept.1 status).1)
    · rw [if_neg status]
      by_cases location : localLocation <+: line
      · obtain ⟨rest, rfl⟩ := location
        have inside : localLocation <:+: (localLocation ++ rest).drop 1 ↔ localLocation <:+: rest := by
          rw [List.drop_append_of_le_length (by decide)]
          exact infix_front_iff (show localLocation.head? = some 76 by decide) (by decide) rest
        have zero : zeroLength <:+: localLocation ++ rest ↔ zeroLength <:+: rest :=
          infix_front_iff (show zeroLength.head? = some 67 by decide) (by decide) rest
        rw [if_pos (List.prefix_append _ _), List.drop_left, outputLine_location, inside, zero]
        simp [status, and_comm]
      · have inside : localLocation <:+: line ↔ localLocation <:+: line.drop 1 := by
          cases line with
          | nil => simp
          | cons c tail => rw [List.infix_cons_iff, or_iff_right location, List.drop_one, List.tail_cons]
        rw [if_neg location, outputLine_plain cfg chunked n marked status, inside]
        simp [status, location]

theorem relayPlain_header (limit : Nat) (request : Buffer) (rows : Rows) (header : Bytes) :
    (relayPlain limit request Buffer.cleared rows header).header = header ++ [LF] := by
  rw [relayPlain]
  simp only [replaceStrFormat_empty]
  cases appendHeader limit Buffer.cleared (header ++ [LF]) with
  | error ending => rfl
  | ok respond =>
      simp only
      split <;> rfl

/-- A copy of a whole block gives the block. -/
theorem Growth.copy_whole {limit len : Nat} {terminator : Nat} {memory bytes : Bytes}
    (copied : Growth.copy limit ⟨len, memory.length, terminator⟩ (.block memory) = .ok bytes) : bytes = memory := by
  rw [copy, memcpy_block (le_refl _), List.take_length] at copied
  split at copied
  · contradiction
  · split at copied
    · contradiction
    · exact (Except.ok.inj copied).symm

theorem relayContent_body (limit : Nat) (request : Buffer) (header : Bytes) (s : Content) :
    (relayContent limit request Buffer.cleared header s).body = s.content := by
  rw [relayContent]
  split
  · rfl
  · simp only
    split
    · rfl
    · rename_i copied
      exact Growth.copy_whole copied

theorem relayContent_header (limit : Nat) (request : Buffer) (header : Bytes) (s : Content) :
    (relayContent limit request Buffer.cleared header s).header =
      replaceAll zeroLength (contentLengthMark ++ decimal s.content.length) header ++ [LF] := by
  rw [relayContent]
  simp only [replaceStrFormat, ptReplaceStr_eq_replaceAll (show text "Content-Length: 0" ≠ [] by decide)]
  split
  · rfl
  · split <;> rfl

/-- What is relayed in front of the body is the redirected header, with the length of a decoded body. -/
theorem relayRows_header (cfg : Config) (limit : Nat) (request : Buffer) {rows : Rows} {relay : Relay}
    (found : relayRows cfg limit request Buffer.cleared rows = some relay) (returned : relay.ending = .returned) :
    relay.header = lengthPatched rows.chunked relay.body.length (redirected cfg rows.header) ++ [LF] := by
  rw [relayRows] at found
  cases chunked : rows.chunked with
  | false =>
      rw [chunked, if_neg (by simp)] at found
      obtain rfl := Option.some.inj found
      exact relayPlain_header limit request rows _
  | true =>
      rw [chunked, if_pos rfl, relayChunked] at found
      split at found
      · contradiction
      · obtain rfl := Option.some.inj found
        rw [relayContent_header, relayContent_body, lengthPatched, if_pos rfl]
      · rename_i ended _
        obtain rfl := Option.some.inj found
        exact absurd returned ended

/-- The redirection and the patch go line by line. -/
theorem lengthPatched_lines (cfg : Config) (chunked : Bool) (n : Nat) (lines : List Bytes) :
    lengthPatched chunked n (redirected cfg (lines.flatMap fun line => emittedLine line ++ [LF])) =
      lines.flatMap fun line => outputLine cfg chunked n line ++ [LF] := by
  have listed : lines.flatMap (fun line => emittedLine line ++ [LF]) = (lines.map emittedLine).flatMap (· ++ [LF]) := by
    rw [List.flatMap_map]
  rw [redirected, replaceStrFormat, ptReplaceStr_eq_replaceAll (by decide), listed,
    replaceAll_lines (by decide) (by decide), lengthPatched]
  cases chunked with
  | false =>
      rw [if_neg (by simp), List.map_map, List.flatMap_map]
      rfl
  | true =>
      rw [if_pos rfl, replaceAll_lines (by decide) (by decide), List.map_map, List.map_map, List.flatMap_map]
      rfl

/-- No output line has fewer line ends than the wanted one. -/
theorem count_outputLine (cfg : Config) (chunked : Bool) (n : Nat) {line : Bytes} (clean : Clean line) :
    (rewrittenLine cfg n line).count LF ≤ (outputLine cfg chunked n line).count LF := by
  obtain ⟨-, -, -, absent⟩ := clean
  have none : ∀ k, (line.drop k).count LF = 0 := fun k =>
    List.count_eq_zero.mpr fun member => absent (List.mem_of_mem_drop member)
  have patched := count_lengthPatched chunked n (show LF ≠ 48 by decide)
    (replaceAll localLocation (deviceLocation cfg) (emittedLine line))
  rw [rewrittenLine, outputLine]
  split
  · have digits : (decimal n).count LF = 0 := List.count_eq_zero.mpr (decimal_clean n).2.2.2
    rw [List.count_append, digits, show contentLengthMark.count LF = 0 by decide]
    exact Nat.zero_le _
  · rename_i unchunked
    split
    · rw [List.count_append, none, show (text "Status: ").count LF = 0 by decide]
      exact Nat.zero_le _
    · rename_i unmarked
      have emitted : emittedLine line = line := by
        rw [emittedLine, if_neg (by rwa [strcasestr_starts]), statusLine_eq, if_neg (by rwa [strcasestr_starts])]
      split
      · rename_i location
        obtain ⟨rest, rfl⟩ := location
        have tail := none localLocation.length
        rw [List.drop_left] at tail ⊢
        rw [emitted, replaceAll_needle (by decide), List.count_append] at patched
        rw [List.count_append, tail, emitted, replaceAll_needle (by decide)]
        exact le_trans (Nat.le_add_right _ _) patched
      · rw [List.count_eq_zero.mpr absent]
        exact Nat.zero_le _

/-- A relayed response has the wanted header exactly when each of its lines is kept. -/
theorem lines_rewritten_iff (cfg : Config) (host : LocalHost) (request : Buffer) (world : World) (lines : List Bytes)
    (body : Bytes) (behind : List ReadOutcome) (responding : Responding host world (responseText lines body) behind)
    (clean : ∀ line ∈ lines, Clean line) (n : Nat) (relay : Relay)
    (found : getLocalHostRespond cfg host request Buffer.cleared world = some relay)
    (returned : relay.ending = .returned) (length : relay.body.length = n) :
    relay.respond.Holds (rewrittenHeader cfg n lines ++ [LF] ++ relay.body) ↔
      ∀ line ∈ lines, LineKept cfg ((∃ other ∈ lines, Starts chunkedMark other) ∧ n ≠ 0) line := by
  obtain ⟨rows, consumed, front, back, outcomes, relays, header, chunked, -, listed, -⟩ :=
    getLocalHostRespond_lines cfg request responding clean
  rw [relays] at found
  have some : rows.chunked = true ↔ ∃ other ∈ lines, Starts chunkedMark other := by
    rw [chunked, List.any_eq_true]
    simp only [strcasestr_starts, decide_eq_true_eq]
  have emitted := relayRows_header cfg host.limit (cutBuf request request.len) found returned
  rw [header, lengthPatched_lines, length] at emitted
  obtain ⟨relay', found', sound, -⟩ := relayRows_result cfg host.bounded (cutBuf request request.len) listed
  obtain rfl : relay' = relay := Option.some.inj (found'.symm.trans found)
  have holds := sound.respond returned
  have same : relay'.respond.Holds (rewrittenHeader cfg n lines ++ [LF] ++ relay'.body) ↔
      relay'.header = rewrittenHeader cfg n lines ++ [LF] := by
    constructor
    · exact fun other => List.append_cancel_right (holds.bytes_eq.symm.trans other.bytes_eq)
    · exact fun equal => equal ▸ holds
  rw [same, emitted, List.append_cancel_right_eq, rewrittenHeader,
    flatMap_lines_eq_iff fun line member => count_outputLine cfg rows.chunked n (clean line member)]
  refine forall₂_congr fun line member => ?_
  rw [outputLine_eq_iff cfg n fun marked => some.mpr ⟨line, member, marked⟩, some]

/-- A redirection with a short body, in two pieces. -/
def locatedReads : List ReadOutcome :=
  [.data (text "HTTP/1.1 301 Moved\r\nLocation: http://localhost/a\r\nContent-"), .again,
    .data (text "Length: 2\r\n\r\nok")]

def locatedLines : List Bytes :=
  [text "HTTP/1.1 301 Moved", text "Location: http://localhost/a", text "Content-Length: 2"]

/-- A line of a decoded response ends with the text that gets the length. -/
def patchedReads : List ReadOutcome :=
  [.data (text "X-Original-Content-Length: 0\r\nTransfer-Encoding: chunked\r\n\r\n2\r\n"),
    .data (text "hi\r\n0\r\n\r\n")]

def patchedLines : List Bytes := [text "X-Original-Content-Length: 0", text "Transfer-Encoding: chunked"]

/-- A redirection is relayed line by line. -/
theorem lines_rewritten_iff_sample :
    ∃ relay,
      getLocalHostRespond deviceConfig localHost Buffer.cleared Buffer.cleared ⟨locatedReads, [], []⟩ = some relay ∧
      (relay.respond.Holds (rewrittenHeader deviceConfig 2 locatedLines ++ [LF] ++ relay.body) ↔
        ∀ line ∈ locatedLines,
          LineKept deviceConfig ((∃ other ∈ locatedLines, Starts chunkedMark other) ∧ 2 ≠ 0) line) := by
  have result : (getLocalHostRespond deviceConfig localHost Buffer.cleared Buffer.cleared ⟨locatedReads, [], []⟩).map
      (fun relay => (relay.ending, relay.body.length)) = some (.returned, 2) := by decide +kernel
  obtain ⟨relay, found, same⟩ := Option.map_eq_some_iff.mp result
  obtain ⟨returned, length⟩ := Prod.mk.inj same
  exact ⟨relay, found, lines_rewritten_iff deviceConfig localHost Buffer.cleared ⟨locatedReads, [], []⟩
    locatedLines (text "ok") []
    ⟨by decide, rfl, rfl, locatedReads, rfl, .data (by decide) (.again (.data (by decide) .nil))⟩
    (by simp only [Clean]; decide) 2 relay found returned length⟩

/-- A line of its own gets the length of the decoded body. -/
theorem other_line_patched : ∃ (cfg : Config) (host : LocalHost) (request : Buffer) (world : World)
    (lines : List Bytes) (body : Bytes) (relay : Relay), Responding host world (responseText lines body) [] ∧
      (∀ line ∈ lines, Clean line) ∧ getLocalHostRespond cfg host request Buffer.cleared world = some relay ∧
      relay.ending = .returned ∧ relay.body = text "hi" ∧
      ¬ relay.respond.Holds (rewrittenHeader cfg 2 lines ++ [LF] ++ relay.body) := by
  have result : (getLocalHostRespond deviceConfig localHost Buffer.cleared Buffer.cleared ⟨patchedReads, [], []⟩).map
      (fun relay => (relay.ending, relay.body, relay.respond.bytes)) =
        some (.returned, text "hi", text "X-Original-Content-Length: 2\nContent-Length: 2\n\nhi") := by decide +kernel
  obtain ⟨relay, found, same⟩ := Option.map_eq_some_iff.mp result
  simp only [Prod.mk.injEq] at same
  obtain ⟨returned, body, bytes⟩ := same
  have responding : Responding localHost ⟨patchedReads, [], []⟩
      (responseText patchedLines (text "2\r\nhi\r\n0\r\n\r\n")) [] :=
    ⟨by decide, rfl, rfl, patchedReads, rfl, .data (by decide) (.data (by decide) .nil)⟩
  refine ⟨deviceConfig, localHost, Buffer.cleared, _, patchedLines, _, relay, responding, by simp only [Clean]; decide,
    found, returned, body, ?_⟩
  intro holds
  have other := holds.bytes_eq
  rw [bytes, body] at other
  revert other
  decide

end Piercloud.Client
