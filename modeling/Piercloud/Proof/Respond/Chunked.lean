import Piercloud.Proof.Respond.Announced

/-
This file tells when a chunked body is decoded whole.
-/

namespace Piercloud.Client

open CLib Liblst Socket Loop Wire

/-- A chunk has its size in hexadecimal digits, and at least one byte. -/
structure BodyChunk where
  digits : Bytes
  payload : Bytes
  real : payload ≠ []
  numeral : digits ≠ []
  hex : ∀ c ∈ digits, digitValue c < 16
  size : digitsValue 16 digits = payload.length

def BodyChunk.encode (c : BodyChunk) : Bytes := c.digits ++ [CR, LF] ++ c.payload ++ [CR, LF]

/-- The size zero and an empty line end a body. -/
def lastChunk : Bytes := [48, CR, LF, CR, LF]

def bodyText (chunks : List BodyChunk) : Bytes := chunks.flatMap BodyChunk.encode ++ lastChunk

def payloads (chunks : List BodyChunk) : Bytes := chunks.flatMap BodyChunk.payload

/-- When the bytes of a chunk are read, no byte of the next size has come yet, or nothing but the end of the body is
left. -/
def Aligned (s : Content) : Prop :=
  match sizeRow s.soc s.world with
  | (.size chunkLen, soc, world) => chunkLen = 0 ∨ soc.bufLen ≤ chunkLen + 2 ∨
      soc.bufLen + (coming world.reads).length ≤ chunkLen + (CR :: LF :: lastChunk).length
  | _ => True

/-- A row with at most a carriage return is blank. -/
theorem sizeRow_blank {soc : SocketT} {world : World} {front back row rest : Bytes}
    {outcomes behind : List ReadOutcome} (reading : Reading soc world front back outcomes behind)
    (split : front ++ back = row ++ LF :: rest) (blank : row = [] ∨ row = [CR]) :
    ∃ next world' front' back' outcomes', sizeRow soc world = (.blank, next, world') ∧ rest = front' ++ back' ∧
      Reading next world' front' back' outcomes' behind := by
  have plain : LF ∉ row ∧ NUL ∉ row ∧ (cstr (chopStr (row ++ [NUL]))).isEmpty = true := by
    rcases blank with rfl | rfl <;> decide
  obtain ⟨next, world', front', back', outcomes', read, tail, later⟩ :=
    getRowFromSocket_line reading split plain.1 plain.2.1
  exact ⟨next, world', front', back', outcomes', by simp only [sizeRow, read, if_pos plain.2.2], tail, later⟩

/-- A row of hexadecimal digits gives their number. -/
theorem sizeRow_size {soc : SocketT} {world : World} {front back digits rest : Bytes}
    {outcomes behind : List ReadOutcome} (reading : Reading soc world front back outcomes behind)
    (split : front ++ back = digits ++ [CR, LF] ++ rest) (numeral : digits ≠ [])
    (hex : ∀ c ∈ digits, digitValue c < 16) (fits : digitsValue 16 digits < 2 ^ 63) :
    ∃ next world' front' back' outcomes', sizeRow soc world = (.size (digitsValue 16 digits), next, world') ∧
      rest = front' ++ back' ∧ Reading next world' front' back' outcomes' behind := by
  have noNewline : LF ∉ digits := hexDigits_absent hex (by decide)
  have noReturn : CR ∉ digits := hexDigits_absent hex (by decide)
  have noEnd : NUL ∉ digits := hexDigits_absent hex (by decide)
  obtain ⟨next, world', front', back', outcomes', read, tail, later⟩ :=
    getRowFromSocket_line reading (show front ++ back = (digits ++ [CR]) ++ LF :: rest by simpa using split)
      (by simpa using ⟨noNewline, by decide⟩) (by simpa using ⟨noEnd, by decide⟩)
  refine ⟨next, world', front', back', outcomes', ?_, tail, later⟩
  simp only [sizeRow, read, cstr_chopStr_line noEnd noReturn noNewline, toSize_strtol_hex numeral hex fits]
  rw [if_neg (by simpa using numeral)]

theorem chunkStep_blank (limit : Nat) {s : Content} {soc : SocketT} {world : World}
    (row : sizeRow s.soc s.world = (.blank, soc, world)) :
    chunkStep limit s = .inl { s with soc := soc, world := world } := by
  simp only [chunkStep, row]

/-- A suffix of the end is empty, or has a blank row, or is the whole last chunk. -/
theorem end_cases {tail : Bytes} (edge : tail <:+ CR :: LF :: lastChunk) : tail = [] ∨ tail = lastChunk ∨
    ∃ row rest, tail = row ++ LF :: rest ∧ (row = [] ∨ row = [CR]) ∧ rest <:+ CR :: LF :: lastChunk := by
  simp only [lastChunk, List.suffix_cons_iff, List.suffix_nil] at edge
  rcases edge with rfl | rfl | rfl | rfl | rfl | rfl | rfl | rfl
  · exact Or.inr (Or.inr ⟨[CR], lastChunk, rfl, Or.inr rfl, by decide⟩)
  · exact Or.inr (Or.inr ⟨[], lastChunk, rfl, Or.inl rfl, by decide⟩)
  · exact Or.inr (Or.inl rfl)
  · exact Or.inr (Or.inr ⟨[CR], [CR, LF], rfl, Or.inr rfl, by decide⟩)
  · exact Or.inr (Or.inr ⟨[], [CR, LF], rfl, Or.inl rfl, by decide⟩)
  · exact Or.inr (Or.inr ⟨[CR], [], rfl, Or.inr rfl, by decide⟩)
  · exact Or.inr (Or.inr ⟨[], [], rfl, Or.inl rfl, by decide⟩)
  · exact Or.inl rfl

/-- The loop ends behind any part of the end of a body, and it collects nothing there. -/
theorem ends_last (limit : Nat) {s : Content} {front back : Bytes} {outcomes : List ReadOutcome}
    (reading : Reading s.soc s.world front back outcomes []) (edge : front ++ back <:+ CR :: LF :: lastChunk) :
    ∃ t, Ends (chunkStep limit) s (.returned, t) ∧ t.content = s.content := by
  induction h : (front ++ back).length using Nat.strong_induction_on generalizing s front back outcomes with
  | _ n ih =>
      rcases end_cases edge with nothing | last | ⟨row, rest, split, blank, later⟩
      · obtain ⟨rfl, rfl⟩ := List.append_eq_nil_iff.mp nothing
        obtain ⟨next, world', closed⟩ := getRowFromSocket_drained reading
        exact ⟨{ s with soc := next, world := world' }, .last (by simp only [chunkStep, sizeRow, closed]), rfl⟩
      · obtain ⟨next, world', front', back', outcomes', row, -, -⟩ := @sizeRow_size _ _ _ _ [48] [CR, LF] _ _ reading
          (by rw [last]; rfl) (by simp) (List.forall_mem_singleton.mpr (by decide)) (by decide)
        have zero : digitsValue 16 [48] = 0 := by decide
        exact ⟨{ s with soc := next, world := world' }, .last (by simp only [chunkStep, row, zero, if_true]), rfl⟩
      · obtain ⟨next, world', front', back', outcomes', read, tail, reading'⟩ := sizeRow_blank reading split blank
        have shorter : (front' ++ back').length < n := by
          rw [← h, split, tail]
          simp only [List.length_append, List.length_cons]
          omega
        obtain ⟨t, ends, same⟩ :=
          @ih _ shorter { s with soc := next, world := world' } _ _ _ reading' (tail ▸ later) rfl
        exact ⟨t, .next (chunkStep_blank limit read) ends, same⟩

/-- A chunk is collected, and what the buffer has behind it is gone. -/
theorem chunkStep_chunk {limit : Nat} (bounded : limit ≤ 2 ^ 63) (c : BodyChunk) {s : Content}
    {front back rest : Bytes} {outcomes : List ReadOutcome} (reading : Reading s.soc s.world front back outcomes [])
    (split : front ++ back = c.encode ++ rest) (granted : s.content.length + c.payload.length < limit) :
    ∃ t soc world front' back' outcomes', sizeRow s.soc s.world = (.size c.payload.length, soc, world) ∧
      soc.bufLen = front'.length ∧ coming world.reads = back' ∧ front' ++ back' = c.payload ++ ([CR, LF] ++ rest) ∧
      chunkStep limit s = .inl t ∧ t.content = s.content ++ c.payload ∧
      Reading t.soc t.world [] (([CR, LF] ++ rest).drop (front'.length - c.payload.length)) outcomes' [] := by
  have small : c.payload.length < 2 ^ 63 := by omega
  obtain ⟨soc, world, front', back', outcomes₁, row, tail, reading₁⟩ := sizeRow_size reading
    (show front ++ back = c.digits ++ [CR, LF] ++ (c.payload ++ ([CR, LF] ++ rest)) by simp [split, BodyChunk.encode])
    c.numeral c.hex (c.size ▸ small)
  rw [c.size] at row
  have within : c.payload.length ≤ (front' ++ back').length := by simp [← tail]
  obtain ⟨r, memory, next, world', back₂, outcomes₂, read, bytes, left, reading₂⟩ :=
    getBufFromSocket_reading .null reading₁ (List.length_pos_of_ne_nil c.real) within
  rw [← tail, List.take_left] at bytes
  have covers : c.payload.length ≤ memory.length := by
    have sizes := congrArg List.length bytes
    rw [List.length_take] at sizes
    omega
  have behind : back₂ = ([CR, LF] ++ rest).drop (front'.length - c.payload.length) := by
    rw [left, ← tail, List.drop_append, List.drop_eq_nil_of_le (le_max_left _ _), List.nil_append]
    congr 1
    omega
  have counted : c.payload.length ≠ 0 := by simpa using c.real
  have copied := Growth.copy_block bounded
    (show Growth.needed ⟨s.content.length, c.payload.length, 0⟩ < limit from granted) covers
  rw [bytes] at copied
  refine ⟨⟨s.content ++ c.payload, s.growths ++ [⟨s.content.length, c.payload.length, 0⟩], next, world'⟩, soc, world,
    front', back', outcomes₂, row, reading₁.holds.2, ?_, tail.symm, ?_, rfl, behind ▸ reading₂⟩
  · rw [reading₁.reads, List.append_nil, reading₁.delivers.coming_eq]
  · simp only [chunkStep, row, if_neg counted, toSigned_of_lt small, read, copied]

/-- A chunk that is read from its size on is collected, if what stands behind it is. -/
theorem ends_chunk {limit : Nat} (bounded : limit ≤ 2 ^ 63) (c : BodyChunk) {chunks : List BodyChunk}
    (behind : ∀ {s : Content} {front back pending : Bytes} {outcomes : List ReadOutcome},
      Reading s.soc s.world front back outcomes [] → front ++ back = pending ++ bodyText chunks →
      pending <:+ [CR, LF] → (∀ u, Visits (chunkStep limit) s u → Aligned u) →
      (s.content ++ payloads chunks).length < limit →
      ∃ t, Ends (chunkStep limit) s (.returned, t) ∧ t.content = s.content ++ payloads chunks)
    {s : Content} {front back : Bytes} {outcomes : List ReadOutcome}
    (reading : Reading s.soc s.world front back outcomes []) (split : front ++ back = bodyText (c :: chunks))
    (aligned : ∀ u, Visits (chunkStep limit) s u → Aligned u)
    (granted : (s.content ++ payloads (c :: chunks)).length < limit) :
    ∃ t, Ends (chunkStep limit) s (.returned, t) ∧ t.content = s.content ++ payloads (c :: chunks) := by
  have sizes : (s.content ++ payloads (c :: chunks)).length =
      s.content.length + c.payload.length + (payloads chunks).length := by
    simp [payloads, Nat.add_assoc]
  obtain ⟨t, soc, world, front', back', outcomes', row, buffered, reads, tail, goesOn, collected, later⟩ :=
    chunkStep_chunk bounded c reading
      (show front ++ back = c.encode ++ bodyText chunks by simp [split, bodyText]) (by omega)
  have here := aligned s .here
  have total := congrArg List.length tail
  simp only [List.length_append] at total
  simp only [Aligned, row, buffered, reads] at here
  obtain ⟨u, ends, rest⟩ : ∃ u, Ends (chunkStep limit) t (.returned, u) ∧
      u.content = t.content ++ payloads chunks := by
    have visited : ∀ u, Visits (chunkStep limit) t u → Aligned u :=
      fun u visits => aligned u (.next goesOn visits)
    have granted' : (t.content ++ payloads chunks).length < limit := by
      rw [collected, List.length_append, List.length_append]
      omega
    rcases here with nothing | early | last
    · exact absurd nothing (by simpa using c.real)
    -- Only a part of the line end is gone.
    · have part : ([CR, LF] ++ bodyText chunks).drop (front'.length - c.payload.length) =
          [CR, LF].drop (front'.length - c.payload.length) ++ bodyText chunks :=
        List.drop_append_of_le_length (show front'.length - c.payload.length ≤ 2 by omega)
      exact behind later part (List.drop_suffix _ _) visited granted'
    -- Nothing but the end of the body is gone.
    · obtain rfl : chunks = [] := by
        cases chunks with
        | nil => rfl
        | cons d chunks =>
            have numeral := List.length_pos_of_ne_nil d.numeral
            simp only [bodyText, List.flatMap_cons, BodyChunk.encode, lastChunk, List.length_append,
              List.length_cons, List.length_nil] at total last
            omega
      have tail : [] ++ ([CR, LF] ++ bodyText []).drop (front'.length - c.payload.length) <:+
          CR :: LF :: lastChunk := List.drop_suffix _ _
      simpa [payloads] using ends_last limit later tail
  refine ⟨u, .next goesOn ends, ?_⟩
  rw [rest, collected]
  simp [payloads]

/-- The rest of a line end is empty or a blank line. -/
theorem edge_cases {pending : Bytes} (edge : pending <:+ [CR, LF]) :
    pending = [] ∨ ∃ row, (row = [] ∨ row = [CR]) ∧ pending = row ++ [LF] := by
  simp only [List.suffix_cons_iff, List.suffix_nil] at edge
  rcases edge with rfl | rfl | rfl
  · exact Or.inr ⟨[CR], Or.inr rfl, rfl⟩
  · exact Or.inr ⟨[], Or.inl rfl, rfl⟩
  · exact Or.inl rfl

/-- Wherever the reads split them, aligned chunks are collected whole. -/
theorem ends_chunks {limit : Nat} (bounded : limit ≤ 2 ^ 63) {chunks : List BodyChunk} {s : Content}
    {front back pending : Bytes} {outcomes : List ReadOutcome}
    (reading : Reading s.soc s.world front back outcomes []) (split : front ++ back = pending ++ bodyText chunks)
    (edge : pending <:+ [CR, LF]) (aligned : ∀ u, Visits (chunkStep limit) s u → Aligned u)
    (granted : (s.content ++ payloads chunks).length < limit) :
    ∃ t, Ends (chunkStep limit) s (.returned, t) ∧ t.content = s.content ++ payloads chunks := by
  induction chunks generalizing s front back pending outcomes with
  | nil =>
      have whole : front ++ back <:+ CR :: LF :: lastChunk := by
        obtain ⟨lost, same⟩ := edge
        rw [split]
        exact ⟨lost, by rw [← List.append_assoc, same]; rfl⟩
      simpa [payloads] using ends_last limit reading whole
  | cons c chunks ih =>
      rcases edge_cases edge with rfl | ⟨blank, kind, rfl⟩
      · exact ends_chunk bounded c ih reading split aligned granted
      · rw [List.append_assoc, List.singleton_append] at split
        obtain ⟨next, world', front', back', outcomes', row, tail, later⟩ := sizeRow_blank reading split kind
        have goesOn := chunkStep_blank limit row
        obtain ⟨t, ends, collected⟩ := ends_chunk (s := { s with soc := next, world := world' }) bounded c ih later
          tail.symm (fun u visits => aligned u (.next goesOn visits)) granted
        exact ⟨t, .next goesOn ends, collected⟩

/-- A granted header and a granted content are relayed. -/
theorem relayContent_granted {limit : Nat} (bounded : limit ≤ 2 ^ 63) (request : Buffer) {header final : Bytes}
    {s : Content} (printed : replaceStrFormat (replaceStrFormat header (text "Content-Length: 0")
      (contentLengthMark ++ decimal s.content.length)) [] [LF] = final)
    (granted : (final ++ s.content).length + 1 < limit) :
    (relayContent limit request Buffer.cleared header s).ending = .returned ∧
      (relayContent limit request Buffer.cleared header s).header = final ∧
      (relayContent limit request Buffer.cleared header s).body = s.content := by
  rw [List.length_append] at granted
  simp only [relayContent, printed]
  rcases appendHeader_cleared bounded final with ⟨refused, -⟩ | ⟨-, respond, appended, holds⟩
  · omega
  · have fits : Growth.needed ⟨respond.len, s.content.length, 1⟩ < limit :=
      show respond.len + s.content.length + 1 < limit by rw [holds.1]; omega
    have copied := Growth.copy_block bounded fits (le_refl s.content.length)
    simp only [appended, copied, List.take_length]
    exact ⟨trivial, trivial, trivial⟩

/-- Every counted read of the chunk loop is aligned. -/
def ChunksAligned (host : LocalHost) (world : World) : Prop :=
  AtBody host world fun rows => ∀ s, Visits (chunkStep host.limit) ⟨[], [], rows.soc, rows.world⟩ s → Aligned s

/-- While no byte of a next chunk is lost, the chunks are decoded whole, and the header announces their length exactly
when no line of the response gives another one. -/
theorem chunked_decoded_iff (cfg : Config) (host : LocalHost) (request : Buffer) (world : World)
    (lines : List Bytes) (chunks : List BodyChunk)
    (responding : Responding host world (responseText lines (bodyText chunks)) [])
    (clean : ∀ line ∈ lines, Clean line) (chunked : ∃ line ∈ lines, Starts chunkedMark line) (oneLine : LF ∉ cfg.gId)
    (granted : (chunkedHeader cfg lines (payloads chunks).length ++ payloads chunks).length + 1 < host.limit)
    (aligned : ChunksAligned host world) :
    ∃ relay, getLocalHostRespond cfg host request Buffer.cleared world = some relay ∧
      ((relay.ending = .returned ∧ relay.body = payloads chunks ∧
          relay.respond.Holds (relay.header ++ payloads chunks) ∧
          Announces relay.header (payloads chunks).length) ↔
        ∀ line ∈ lines, Starts contentLengthMark line → Agrees (payloads chunks).length line) := by
  obtain ⟨rows, consumed, front, back, outcomes, relays, header, isChunked, -, listed, known, tail, reading⟩ :=
    getLocalHostRespond_lines cfg request responding clean
  have marked : rows.chunked = true := by
    obtain ⟨line, member, start⟩ := chunked
    rw [isChunked, List.any_eq_true]
    exact ⟨line, member, by simpa [strcasestr_starts] using start⟩
  have collected : Collected ⟨[], [], rows.soc, rows.world⟩ consumed :=
    ⟨listed.fed, List.nil_sublist _, by simp, by simp⟩
  obtain ⟨ending, t, consumed', found, after, -⟩ := chunkLoop_result host.bounded collected
    (held_fuel rows.soc rows.world)
  obtain ⟨u, ends, content⟩ := @ends_chunks host.limit host.bounded chunks ⟨[], [], rows.soc, rows.world⟩
    front back [] outcomes reading tail.symm List.nil_suffix (known _ aligned)
    (by simp only [List.length_append, List.nil_append] at granted ⊢; omega)
  obtain ⟨rfl, rfl⟩ := Prod.mk.inj ((ends_of_loop found).unique ends)
  rw [List.nil_append] at content
  have printed := chunkedHeader_eq cfg lines (payloads chunks).length
  rw [← header, ← content] at printed
  rw [← content] at granted ⊢
  obtain ⟨returned, final, body⟩ := relayContent_granted host.bounded (cutBuf request request.len) printed granted
  obtain ⟨sound, -⟩ :=
    relayContent_result host.bounded (cutBuf request request.len) (redirected cfg rows.header) after
  refine ⟨relayContent host.limit (cutBuf request request.len) Buffer.cleared (redirected cfg rows.header) t, ?_, ?_⟩
  · simp only [relays, relayRows, marked, if_true, relayChunked, found]
  · rw [final, ← chunkedHeader_announces_iff oneLine clean chunked]
    refine ⟨fun whole => whole.2.2.2, fun announces => ⟨returned, body, ?_, announces⟩⟩
    have holds := sound.respond returned
    rwa [final, body] at holds

/-- Two chunks. The bytes of the first one come in different pieces, and the second one comes with its size. -/
def slowChunks : List BodyChunk :=
  [⟨[50], text "hi", by decide, by decide, List.forall_mem_singleton.mpr (by decide), by decide⟩,
    ⟨[49], text "!", by decide, by decide, List.forall_mem_singleton.mpr (by decide), by decide⟩]

def slowReads : List ReadOutcome :=
  [.data (text "Transfer-Encoding: chunked\r\n\r\n2\r\n"), .data (text "h"), .data (text "i\r\n"),
    .data (text "1\r\n!"), .data (text "\r\n0\r\n\r\n")]

def slowRows : Rows where
  header := text "Content-Length: 0\n"
  chunked := true
  contentLen := 0
  data := .freed
  soc := ⟨5, false, some (text "2\r\n" ++ [NUL]), 3⟩
  world := ⟨slowReads.drop 1, [], text "Transfer-Encoding: chunked\r\n\r\n2\r\n"⟩

/-- This is the state behind so many iterations. -/
def slowState : Nat → Content
  | 0 => ⟨[], [], slowRows.soc, slowRows.world⟩
  | i + 1 => (chunkStep localHost.limit (slowState i)).elim id Prod.snd

theorem aligned_of_blank {s : Content} (blank : (sizeRow s.soc s.world).1 = .blank) : Aligned s := by
  rw [Aligned]
  split
  · simp_all
  · trivial

theorem aligned_of_size {s : Content} {chunkLen : Nat} (sized : (sizeRow s.soc s.world).1 = .size chunkLen)
    (short : (sizeRow s.soc s.world).2.1.bufLen ≤ chunkLen + 2) : Aligned s := by
  rw [Aligned]
  split
  · rename_i other soc world row
    rw [row] at sized short
    obtain rfl : other = chunkLen := by simpa using sized
    exact Or.inr (Or.inl short)
  · trivial

/-- The iterations take a size with its chunk, or the line end behind a chunk, and the last one finds the size zero. -/
theorem slow_aligned : ChunksAligned localHost ⟨slowReads, [], []⟩ := by
  intro soc start rows opened found
  have reached : Opened localHost ⟨slowReads, [], []⟩ ⟨5, false, some [NUL], 0⟩ ⟨slowReads, [], []⟩ :=
    ⟨by decide, rfl, by decide⟩
  obtain ⟨rfl, rfl⟩ := reached.unique opened
  have expected : headerRows ⟨5, false, some [NUL], 0⟩ ⟨slowReads, [], []⟩ = some slowRows := by decide +kernel
  obtain rfl := Option.some.inj (expected.symm.trans found)
  have goesOn : ∀ i < 4, chunkStep localHost.limit (slowState i) = .inl (slowState (i + 1)) := by decide +kernel
  obtain ⟨r, stops⟩ : ∃ r, chunkStep localHost.limit (slowState 4) = .inr r := ⟨_, rfl⟩
  change ∀ s, Visits (chunkStep localHost.limit) (slowState 0) s → Aligned s
  simp only [visits_next (goesOn 0 (by decide)), visits_next (goesOn 1 (by decide)),
    visits_next (goesOn 2 (by decide)), visits_next (goesOn 3 (by decide)), visits_last stops]
  rintro s (rfl | rfl | rfl | rfl | rfl)
  · exact @aligned_of_size _ 2 (by decide +kernel) (by decide +kernel)
  · exact aligned_of_blank (by decide +kernel)
  · exact @aligned_of_size _ 1 (by decide +kernel) (by decide +kernel)
  · exact aligned_of_blank (by decide +kernel)
  · exact @aligned_of_size _ 0 (by decide +kernel) (by decide +kernel)

theorem chunked_decoded_iff_sample :
    ∃ relay,
      getLocalHostRespond deviceConfig localHost Buffer.cleared Buffer.cleared ⟨slowReads, [], []⟩ = some relay ∧
      ((relay.ending = .returned ∧ relay.body = payloads slowChunks ∧
          relay.respond.Holds (relay.header ++ payloads slowChunks) ∧
          Announces relay.header (payloads slowChunks).length) ↔
        ∀ line ∈ [text "Transfer-Encoding: chunked"], Starts contentLengthMark line →
          Agrees (payloads slowChunks).length line) :=
  chunked_decoded_iff deviceConfig localHost Buffer.cleared _ [text "Transfer-Encoding: chunked"] slowChunks
    ⟨by decide, rfl, rfl, slowReads, rfl, .data (by decide) (.data (by decide) (.data (by decide) (.data (by decide)
      (.data (by decide) .nil))))⟩
    (by simp only [Clean]; decide) ⟨_, List.mem_singleton_self _, by decide⟩ (by decide) (by decide) slow_aligned

def byteChunk (c : UInt8) : BodyChunk :=
  ⟨[49], [c], by simp, by decide, List.forall_mem_singleton.mpr (by decide), show digitsValue 16 [49] = 1 by decide⟩

/-- Two chunks that come in one piece: the second one is lost, and the length is that of the first one. -/
theorem chunk_lost : ∃ (cfg : Config) (host : LocalHost) (request : Buffer) (world : World) (lines : List Bytes)
    (chunks : List BodyChunk), Responding host world (responseText lines (bodyText chunks)) [] ∧
      (∀ line ∈ lines, Clean line) ∧ (∃ line ∈ lines, Starts chunkedMark line) ∧ payloads chunks = text "ok" ∧
      (getLocalHostRespond cfg host request Buffer.cleared world).map (fun relay =>
        (relay.ending, relay.header, relay.body)) = some (.returned, text "Content-Length: 1\n\n", text "o") :=
  ⟨deviceConfig, localHost, Buffer.cleared,
    ⟨[.data (text "Transfer-Encoding: chunked\r\n\r\n1\r\no\r\n1\r\nk\r\n0\r\n\r\n")], [], []⟩,
    [text "Transfer-Encoding: chunked"], [byteChunk 111, byteChunk 107],
    ⟨by decide, rfl, rfl, _, rfl, .single (by decide)⟩, by simp only [Clean]; decide,
    ⟨_, List.mem_singleton_self _, by decide⟩, by decide, by decide +kernel⟩

end Piercloud.Client
