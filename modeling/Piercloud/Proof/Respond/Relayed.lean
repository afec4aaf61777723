import Piercloud.Proof.Respond.Lines

/-
This file shows that a response with a length is relayed exactly, wherever the reads split it.
-/

namespace Piercloud.Client

open CLib Liblst Socket Loop Wire Replace

/-- This is the number behind the last line start `Content-Length: `, or zero. -/
def announced (lines : List Bytes) : Int :=
  (lines.filter fun line => Starts contentLengthMark line).getLast?.elim 0 fun line =>
    atoll (line.drop contentLengthMark.length)

/-- The status mark is replaced in a line that starts with it. -/
def relayedLine (line : Bytes) : Bytes :=
  if Starts statusMark line then replaceAll statusMark (text "Status: ") line else line

/-- The lines end with a newline alone, each redirection goes to the device, and the empty line follows. -/
def relayedHeader (cfg : Config) (lines : List Bytes) : Bytes :=
  replaceAll localLocation (deviceLocation cfg) (lines.flatMap fun line => relayedLine line ++ [LF]) ++ [LF]

theorem emittedLine_eq {line : Bytes} (unchunked : ¬ Starts chunkedMark line) :
    emittedLine line = relayedLine line := by
  rw [emittedLine, statusLine_eq, relayedLine]
  simp only [strcasestr_starts, if_neg unchunked]

/-- The last line that sets the length decides. -/
theorem foldl_contentLength_announced (lines : List Bytes) :
    lines.foldl contentLength 0 = toSize (announced lines) := by
  induction lines using List.reverseRecOn with
  | nil => rfl
  | append_singleton lines line ih =>
      rw [List.foldl_append, List.foldl_cons, List.foldl_nil, contentLength, announced, List.filter_append]
      simp only [strcasestr_starts]
      by_cases marked : Starts contentLengthMark line
      · rw [if_pos marked]
        simp [marked]
      · rw [if_neg marked, ih, announced]
        simp [marked]

theorem announced_lt (lines : List Bytes) : announced lines < 2 ^ 63 := by
  rw [announced]
  cases (lines.filter fun line => Starts contentLengthMark line).getLast? with
  | none => decide
  | some line => exact strtol_lt _ _

theorem redirected_eq (cfg : Config) (header : Bytes) :
    redirected cfg header = replaceAll localLocation (deviceLocation cfg) header :=
  ptReplaceStr_eq_replaceAll (show localLocation ≠ [] by decide) header (deviceLocation cfg)

/-- The counted copy takes the first bytes of the body, whether they have come or not. -/
theorem relayPlain_delivered {limit : Nat} (bounded : limit ≤ 2 ^ 63) (request : Buffer) {rows : Rows}
    {header front back : Bytes} {outcomes behind : List ReadOutcome}
    (reading : Reading rows.soc rows.world front back outcomes behind)
    (within : rows.contentLen ≤ (front ++ back).length) (granted : header.length + 1 + rows.contentLen + 1 < limit) :
    (relayPlain limit request Buffer.cleared rows header).ending = .returned ∧
      (relayPlain limit request Buffer.cleared rows header).rval = 0 ∧
      (relayPlain limit request Buffer.cleared rows header).respond.Holds
        (header ++ [LF] ++ (front ++ back).take rows.contentLen) := by
  rcases appendHeader_cleared bounded (header ++ [LF]) with ⟨refused, -⟩ | ⟨-, respond, appended, holds⟩
  · simp only [List.length_append, List.length_singleton] at refused
    omega
  · have length : respond.len = header.length + 1 := by simpa using holds.1
    obtain ⟨r, data, next, world', read, copied⟩ : ∃ r data next world',
        getBufFromSocket rows.data rows.soc (toSigned rows.contentLen) rows.world = (r, data, next, world') ∧
          memcpy data rows.contentLen = some ((front ++ back).take rows.contentLen) := by
      rcases Nat.eq_zero_or_pos rows.contentLen with nothing | positive
      · obtain ⟨r, done⟩ := getBufFromSocket_refused rows.data
          (Or.inl (show toSigned rows.contentLen ≤ 0 by rw [nothing]; decide)) rows.world
        exact ⟨r, .null, rows.soc, rows.world, done, by rw [nothing]; rfl⟩
      · obtain ⟨r, memory, next, world', back', outcomes', read, bytes, -⟩ :=
          getBufFromSocket_reading rows.data reading positive within
        have covers : rows.contentLen ≤ memory.length := by
          have sizes := congrArg List.length bytes
          rw [List.length_take, List.length_take] at sizes
          omega
        refine ⟨r, .block memory, next, world', ?_, by rw [memcpy_block covers, bytes]⟩
        rw [toSigned_of_lt (by omega), read]
    have grown := grownBuffer_holds holds ((front ++ back).take rows.contentLen)
    rw [List.length_take, Nat.min_eq_left within] at grown
    have fits : Growth.needed ⟨respond.len, rows.contentLen, 1⟩ < limit :=
      show respond.len + rows.contentLen + 1 < limit by omega
    simp only [relayPlain, replaceStrFormat_empty, appended, read, Growth.copy_ok bounded fits copied, true_and]
    exact grown

/-- A response with a length is relayed as its lines and exactly as many bytes of its body as it announces. -/
theorem content_length_relayed (cfg : Config) (host : LocalHost) (request : Buffer) (world : World)
    (lines : List Bytes) (body : Bytes) (behind : List ReadOutcome)
    (responding : Responding host world (responseText lines body) behind) (clean : ∀ line ∈ lines, Clean line)
    (unchunked : ∀ line ∈ lines, ¬ Starts chunkedMark line) (counted : 0 ≤ announced lines)
    (whole : (announced lines).toNat ≤ body.length)
    (granted : (relayedHeader cfg lines ++ body.take (announced lines).toNat).length + 1 < host.limit) :
    ∃ relay, getLocalHostRespond cfg host request Buffer.cleared world = some relay ∧ relay.ending = .returned ∧
      relay.rval = 0 ∧ relay.respond.Holds (relayedHeader cfg lines ++ body.take (announced lines).toNat) := by
  obtain ⟨rows, consumed, front, back, outcomes, relays, header, chunked, contentLen, -, -, rfl, reading⟩ :=
    getLocalHostRespond_lines cfg request responding clean
  have notChunked : rows.chunked = false := by
    rw [chunked, List.any_eq_false]
    intro line member
    simpa [strcasestr_starts] using unchunked line member
  have emitted : redirected cfg rows.header ++ [LF] = relayedHeader cfg lines := by
    rw [redirected_eq, header, relayedHeader]
    congr 2
    exact List.flatMap_congr fun line member => by rw [emittedLine_eq (unchunked line member)]
  have length : rows.contentLen = (announced lines).toNat := by
    have small := announced_lt lines
    rw [contentLen, foldl_contentLength_announced, toSize_of_nonneg counted (by omega)]
  have sizes := congrArg List.length emitted
  rw [List.length_append, List.length_singleton] at sizes
  rw [List.length_append, List.length_take, Nat.min_eq_left whole] at granted
  obtain ⟨ending, rval, holds⟩ := relayPlain_delivered host.bounded (cutBuf request request.len) reading
    (length ▸ whole) (show (redirected cfg rows.header).length + 1 + rows.contentLen + 1 < host.limit by omega)
  rw [emitted, length] at holds
  exact ⟨_, by rw [relays, relayRows, if_neg (by simp [notChunked])], ending, rval, holds⟩

/-- A redirection with a short body, in two pieces. -/
def redirection : List ReadOutcome :=
  [.data (text "HTTP/1.1 302 Found\r\nLocation: http://localhost/in\r\nContent-"), .again,
    .data (text "Length: 2\r\n\r\nokay")]

def redirectionLines : List Bytes :=
  [text "HTTP/1.1 302 Found", text "Location: http://localhost/in", text "Content-Length: 2"]

theorem content_length_relayed_sample :
    ∃ relay,
      getLocalHostRespond deviceConfig localHost Buffer.cleared Buffer.cleared ⟨redirection, [], []⟩ = some relay ∧
      relay.ending = .returned ∧ relay.rval = 0 ∧
      relay.respond.Holds (relayedHeader deviceConfig redirectionLines ++
        (text "okay").take (announced redirectionLines).toNat) :=
  content_length_relayed deviceConfig localHost Buffer.cleared _ redirectionLines (text "okay") []
    ⟨by decide, rfl, rfl, redirection, rfl, .data (by decide) (.again (.data (by decide) .nil))⟩
    (by simp only [Clean]; decide) (by decide) (by decide) (by decide) (by decide)

end Piercloud.Client
