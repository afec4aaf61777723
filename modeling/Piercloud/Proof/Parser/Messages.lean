import Piercloud.Proof.Parser.Steps

/-
This file gives the messages that the parser finds in arbitrary bytes, and what one chunk does to the message
at hand.
-/

namespace Piercloud.Client

open CLib Liblst Wire

/-- A header block is a pid line, header lines and an empty line, each up to its newline. -/
structure Head where
  first : Bytes
  raws : List Bytes
  blank : Bytes
  firstEnds : LF ∉ first
  lines : ∀ raw ∈ raws, LF ∉ raw ∧ lineText raw ≠ []
  blankEnds : LF ∉ blank
  empty : lineText blank = []

namespace Head

def pid (h : Head) : Int := atoi (lineText h.first)

def announced (h : Head) : Nat := (h.raws.map lineText).foldl contentLength 0

def bytes (h : Head) : Bytes := h.first ++ LF :: (h.raws.flatMap (· ++ [LF]) ++ (h.blank ++ [LF]))

def rendered (cfg : Config) (h : Head) : Bytes := renderedHeader cfg (h.raws.map lineText)

end Head

/-- A message has as many bytes behind its header block as the block announces. -/
structure Message where
  head : Head
  body : Bytes
  whole : body.length = head.announced

def Message.bytes (m : Message) : Bytes := m.head.bytes ++ m.body

/-- This is the request that is made from the message alone. -/
def Message.request (cfg : Config) (m : Message) : Bytes := m.head.rendered cfg ++ m.body

/-- Between two messages the request buffer holds what the earlier ones left in it. -/
structure Between (s : State) (stale pending : Bytes) : Prop where
  inHeader : s.statics.inHeader = false
  inData : s.statics.inData = false
  buf : s.buf.Holds pending
  request : s.request.Holds stale

/-- Behind a header block the parser waits for the body of its message. -/
structure InBody (cfg : Config) (s : State) (h : Head) (stale pending : Bytes) : Prop where
  inHeader : s.statics.inHeader = false
  inData : s.statics.inData = true
  pid : s.statics.pid = h.pid
  contentLen : s.statics.contentLen = h.announced
  buf : s.buf.Holds pending
  request : s.request.Holds (stale ++ h.rendered cfg)

/-- The parser has seen the front of a message, which is still buffered or parsed up to its body. -/
def Reached (cfg : Config) (s : State) (h : Head) (stale seen : Bytes) : Prop :=
  Between s stale seen ∨ ∃ pending, seen = h.bytes ++ pending ∧ InBody cfg s h stale pending

/-- The parser reads a whole header block and goes on to the body. -/
theorem getConnectionRequest_head (cfg : Config) (h : Head) {statics : Statics} {buf out : Buffer}
    {rest stale : Bytes} (inHeader : statics.inHeader = false) (inData : statics.inData = false)
    (outHolds : out.Holds stale) (holds : buf.Holds (h.bytes ++ rest)) :
    ∃ buf' out', getConnectionRequest cfg statics buf out = some
        (if h.announced = 0 then (h.pid, ⟨false, false, h.pid, 0⟩, buf', out')
        else takeBody ⟨false, true, h.pid, h.announced⟩ buf' out') ∧
      buf'.Holds rest ∧ out'.Holds (stale ++ h.rendered cfg) := by
  have split : h.bytes ++ rest =
      h.first ++ LF :: (h.raws.flatMap (· ++ [LF]) ++ (h.blank ++ LF :: rest)) := by simp [Head.bytes]
  obtain ⟨buf₁, started, kept⟩ := startMessage_line inHeader inData h.firstEnds (split ▸ holds)
  obtain ⟨buf₂, out₂, parsed, kept', appended⟩ :=
    headerLoop_block cfg (atoi (lineText h.first)) h.lines h.blankEnds h.empty kept outHolds
  refine ⟨buf₂, out₂, ?_, kept', appended⟩
  simp only [getConnectionRequest, started, parsed, Head.announced, Head.pid]
  by_cases noBody : (h.raws.map lineText).foldl contentLength 0 = 0 <;> simp [noBody]

/-- In the body mode the parser goes straight to the body. -/
theorem getConnectionRequest_body (cfg : Config) {statics : Statics} (buf out : Buffer)
    (inHeader : statics.inHeader = false) (inData : statics.inData = true) :
    getConnectionRequest cfg statics buf out = some (takeBody statics buf out) := by
  simp [getConnectionRequest, startMessage, headerLoop, inHeader, inData]

/-- A positive pid hands the request over, and any other result keeps it. -/
theorem chunk_finishes {cfg : Config} {s : State} {data rest bytes : Bytes} {pid : Int} {statics : Statics}
    {buf out : Buffer} (real : data ≠ [])
    (parsed : getConnectionRequest cfg s.statics (increaseBuffer s.buf data data.length) s.request =
      some (pid, statics, buf, out))
    (inHeader : statics.inHeader = false) (inData : statics.inData = false) (holds : buf.Holds rest)
    (request : out.Holds bytes) :
    ∃ t output, chunk cfg s data = some (t, output) ∧
      (0 < pid → output = some ⟨pid, bytes⟩ ∧ Between t [] rest) ∧
      (¬ 0 < pid → output = none ∧ Between t bytes rest) := by
  have nonempty : data.isEmpty = false := by simpa using real
  by_cases positive : 0 < pid
  · refine ⟨⟨statics, buf, Buffer.cleared⟩, some ⟨pid, bytes⟩, ?_, fun _ => ⟨rfl, inHeader, inData, holds,
      Buffer.cleared_holds⟩, fun negative => absurd positive negative⟩
    simp [chunk, nonempty, parsed, positive, request.bytes_eq]
  · refine ⟨⟨statics, buf, out⟩, none, ?_, fun other => absurd other positive, fun _ => ⟨rfl, inHeader, inData, holds,
      request⟩⟩
    simp [chunk, nonempty, parsed, positive]

/-- The chunk that brings the last byte of a message hands it over behind the stale bytes, or leaves it there. -/
theorem chunk_message (cfg : Config) {s : State} (m : Message) {stale seen data rest : Bytes}
    (reached : Reached cfg s m.head stale seen) (real : data ≠ []) (split : seen ++ data = m.bytes ++ rest) :
    ∃ t output, chunk cfg s data = some (t, output) ∧
      (0 < m.head.pid → output = some ⟨m.head.pid, stale ++ m.request cfg⟩ ∧ Between t [] rest) ∧
      (¬ 0 < m.head.pid → output = none ∧ Between t (stale ++ m.request cfg) rest) := by
  rcases reached with between | ⟨pending, rfl, body⟩
  · have grown := increaseBuffer_holds between.buf data
    rw [split, Message.bytes, List.append_assoc] at grown
    obtain ⟨buf', out', parsed, kept, appended⟩ := getConnectionRequest_head cfg m.head between.inHeader
      between.inData between.request grown
    by_cases empty : m.head.announced = 0
    · have noBody : m.body = [] := List.eq_nil_of_length_eq_zero (m.whole.trans empty)
      rw [if_pos empty] at parsed
      rw [noBody, List.nil_append] at kept
      rw [Message.request, noBody, List.append_nil]
      exact chunk_finishes real parsed rfl rfl kept appended
    · have reading : (⟨false, true, m.head.pid, m.head.announced⟩ : Statics).inData = true := rfl
      obtain ⟨buf₂, out₂, taken, kept', appended'⟩ := takeBody_complete reading m.whole.symm kept appended
      rw [if_neg empty, taken] at parsed
      rw [List.append_assoc] at appended'
      exact chunk_finishes real parsed rfl rfl kept' appended'
  · have grown := increaseBuffer_holds body.buf data
    have behind : pending ++ data = m.body ++ rest := by
      simpa [Message.bytes] using split
    rw [behind] at grown
    obtain ⟨buf₂, out₂, taken, kept, appended⟩ := takeBody_complete body.inData (body.contentLen.trans m.whole.symm)
      grown body.request
    have parsed := getConnectionRequest_body cfg (increaseBuffer s.buf data data.length) s.request body.inHeader
      body.inData
    rw [taken, body.pid] at parsed
    rw [List.append_assoc] at appended
    exact chunk_finishes real parsed body.inHeader rfl kept appended

/-- A chunk that ends inside the body of a message dispatches nothing. -/
theorem chunk_inBody (cfg : Config) {s : State} {h : Head} {stale seen data more : Bytes}
    (reached : Reached cfg s h stale seen) (real : data ≠ []) (split : seen ++ data = h.bytes ++ more)
    (short : more.length < h.announced) :
    ∃ t, chunk cfg s data = some (t, none) ∧ InBody cfg t h stale more := by
  have nonempty : data.isEmpty = false := by simpa using real
  have counted : h.announced ≠ 0 := by omega
  rcases reached with between | ⟨pending, rfl, body⟩
  · have grown := increaseBuffer_holds between.buf data
    rw [split] at grown
    obtain ⟨buf', out', parsed, kept, appended⟩ := getConnectionRequest_head cfg h between.inHeader
      between.inData between.request grown
    have waits : takeBody ⟨false, true, h.pid, h.announced⟩ buf' out' = _ := takeBody_waits out' kept short
    refine ⟨⟨⟨false, true, h.pid, h.announced⟩, buf', out'⟩, ?_, rfl, rfl, rfl, rfl, kept, appended⟩
    simp [chunk, nonempty, parsed, counted, waits]
  · have grown := increaseBuffer_holds body.buf data
    have behind : pending ++ data = more := by simpa using split
    rw [behind] at grown
    have waits := takeBody_waits s.request grown (body.contentLen ▸ short)
    have parsed := getConnectionRequest_body cfg (increaseBuffer s.buf data data.length) s.request body.inHeader
      body.inData
    rw [waits] at parsed
    refine ⟨⟨s.statics, increaseBuffer s.buf data data.length, s.request⟩, ?_, body.inHeader, body.inData, body.pid,
      body.contentLen, grown, body.request⟩
    simp [chunk, nonempty, parsed]

/-- The header loop gets to its end only behind a whole header block. -/
theorem headerLoop_found {cfg : Config} {fuel : Nat} {statics : Statics} {buf out : Buffer} {bytes done : Bytes}
    (reading : statics.inHeader = true) (holds : buf.Holds bytes) (outHolds : out.Holds done)
    (found : (headerLoop cfg fuel statics buf out).isSome) :
    ∃ (raws : List Bytes) (blank rest : Bytes), bytes = raws.flatMap (· ++ [LF]) ++ (blank ++ LF :: rest) ∧
      (∀ raw ∈ raws, LF ∉ raw ∧ lineText raw ≠ []) ∧ LF ∉ blank ∧ lineText blank = [] := by
  induction fuel generalizing statics buf out bytes done with
  | zero => simp [headerLoop] at found
  | succ fuel ih =>
      obtain missing | ⟨raw, rest, rfl, absent⟩ := split_first bytes LF
      · simp [headerLoop, reading, getLineBuffer_none holds missing] at found
      · by_cases blank : lineText raw = []
        · exact ⟨[], raw, rest, rfl, by simp, absent, blank⟩
        · obtain ⟨buf', out', step, kept, appended⟩ := headerLoop_line cfg fuel reading holds outHolds absent blank
          have stillReading :
              { statics with contentLen := contentLength statics.contentLen (lineText raw) }.inHeader = true := reading
          rw [step] at found
          obtain ⟨raws, last, behind, rfl, lines, lastEnds, empty⟩ := ih stillReading kept appended found
          refine ⟨raw :: raws, last, behind, by simp, ?_, lastEnds, empty⟩
          rintro other (_ | ⟨_, member⟩)
          · exact ⟨absent, blank⟩
          · exact lines other member

/-- Between two messages a chunk that does not make the client exit brings a whole header block. -/
theorem chunk_found {cfg : Config} {s : State} {stale pending data : Bytes} (between : Between s stale pending)
    (real : data ≠ []) (survives : (chunk cfg s data).isSome) :
    ∃ (h : Head) (more : Bytes), pending ++ data = h.bytes ++ more := by
  have nonempty : data.isEmpty = false := by simpa using real
  have grown := increaseBuffer_holds between.buf data
  obtain missing | ⟨first, rest, split, absent⟩ := split_first (pending ++ data) LF
  · have stopped : startMessage s.statics (increaseBuffer s.buf data data.length) = none := by
      simp [startMessage, between.inHeader, between.inData, getLineBuffer_none grown missing]
    simp [chunk, nonempty, getConnectionRequest, stopped] at survives
  · obtain ⟨buf', started, kept⟩ := startMessage_line between.inHeader between.inData absent (split ▸ grown)
    have reading : (⟨true, false, atoi (lineText first), 0⟩ : Statics).inHeader = true := rfl
    have found : (headerLoop cfg (buf'.len + 2) ⟨true, false, atoi (lineText first), 0⟩ buf' s.request).isSome := by
      cases looped : headerLoop cfg (buf'.len + 2) ⟨true, false, atoi (lineText first), 0⟩ buf' s.request with
      | none => simp [chunk, nonempty, getConnectionRequest, started, looped] at survives
      | some result => rfl
    obtain ⟨raws, blank, more, rfl, lines, blankEnds, empty⟩ := headerLoop_found reading kept between.request found
    exact ⟨⟨first, raws, blank, absent, lines, blankEnds, empty⟩, more, by simp [split, Head.bytes]⟩

/-- Printed lines make a header block. -/
def printedHead (first : Bytes) (lines : List Bytes) (clean : ∀ line ∈ first :: lines, Clean line) : Head where
  first := first ++ [CR]
  raws := lines.map (· ++ [CR])
  blank := [CR]
  firstEnds := by simpa using ⟨(clean first (by simp)).2.2.2, by decide⟩
  lines := by
    intro raw member
    obtain ⟨line, listed, rfl⟩ := List.mem_map.mp member
    obtain ⟨real, noTerminator, noReturn, absent⟩ := clean line (by simp [listed])
    exact ⟨by simpa using ⟨absent, by decide⟩, by rwa [lineText_printed noTerminator noReturn]⟩
  blankEnds := by decide
  empty := by decide

section Printed

variable {first : Bytes} {lines : List Bytes} (clean : ∀ line ∈ first :: lines, Clean line)

theorem printedHead_texts : (printedHead first lines clean).raws.map lineText = lines := by
  rw [printedHead, List.map_map]
  conv_rhs => rw [← List.map_id lines]
  apply List.map_congr_left
  intro line member
  obtain ⟨-, noTerminator, noReturn, -⟩ := clean line (by simp [member])
  exact lineText_printed noTerminator noReturn

theorem printedHead_pid : (printedHead first lines clean).pid = atoi first := by
  obtain ⟨-, noTerminator, noReturn, -⟩ := clean first (by simp)
  rw [Head.pid, printedHead, lineText_printed noTerminator noReturn]

theorem printedHead_announced : (printedHead first lines clean).announced = lines.foldl contentLength 0 := by
  rw [Head.announced, printedHead_texts]

theorem printedHead_rendered (cfg : Config) :
    (printedHead first lines clean).rendered cfg = renderedHeader cfg lines := by
  rw [Head.rendered, printedHead_texts]

theorem printedHead_bytes :
    (printedHead first lines clean).bytes = (first :: lines).flatMap printLine ++ [CR, LF] := by
  have printed : printLine = fun line => line ++ [CR, LF] := rfl
  simp [Head.bytes, printedHead, List.flatMap_map, printed]

end Printed

end Piercloud.Client
