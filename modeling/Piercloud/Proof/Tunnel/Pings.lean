import Piercloud.Construction.Header
import Piercloud.Construction.Session
import Piercloud.Proof.Parser.Survival
import Piercloud.Proof.Socket.Delivery

/-
This file follows the writes of `Connect` through the HTTP chunks of the tunnel into `Chunk`.
-/

namespace Piercloud.Client

open CLib Liblst Cgi Socket Runs

/-- `Connect` forwards each read of the FIFO, and it pings when its `select` times out. -/
inductive ConnectWrite where
  | data (bytes : Bytes)
  | ping
  deriving DecidableEq, Repr

def pingBytes : Bytes := text "0"

def ConnectWrite.bytes : ConnectWrite → Bytes
  | .data bytes => bytes
  | .ping => pingBytes

/-- These are the bytes that the write took from the FIFO. -/
def ConnectWrite.fifoBytes : ConnectWrite → Option Bytes
  | .data bytes => some bytes
  | .ping => none

/-- The web server sends one write as one HTTP chunk: the size in hexadecimal, the bytes, and a line end behind
each. The client's reads receive the chunk whole. -/
structure HttpChunk where
  payload : Bytes
  digits : Bytes
  outcomes : List ReadOutcome
  sized : digits ≠ [] ∧ (∀ c ∈ digits, digitValue c < 16) ∧ digitsValue 16 digits = payload.length
  delivered : Delivers outcomes (digits ++ [CR, LF] ++ payload ++ [CR, LF])

def HttpChunk.bytes (c : HttpChunk) : Bytes := c.digits ++ [CR, LF] ++ c.payload ++ [CR, LF]

/-- The session passes these pieces one after another, and it exits at a piece that `Chunk` does not survive. -/
def passAll (cfg : Config) : State → List Bytes → Session
  | s, [] => Session.ended s.statics .returned
  | s, bytes :: rest =>
      match Client.chunk cfg s bytes with
      | none => { Session.ended s.statics .exited with passed := [bytes] }
      | some (t, output) => (passAll cfg t rest).after bytes output

theorem passAll_passed (cfg : Config) (s : State) (pieces : List Bytes) :
    (passAll cfg s pieces).passed = taken (silent (chunk cfg)) s pieces := by
  induction pieces generalizing s with
  | nil => rfl
  | cons bytes rest ih =>
      rw [passAll, taken, silent]
      cases chunk cfg s bytes with
      | none => rfl
      | some result => simpa [Session.after] using ih result.1

/-- The line end behind the bytes of a chunk is an empty row, or the end of one. -/
theorem readInput_blank {soc : SocketT} {world : World} {pending : Bytes} {outcomes behind : List ReadOutcome}
    (reading : Reading soc world [] pending outcomes behind) (edge : pending <:+ [CR, LF])
    (real : pending ≠ []) :
    ∃ next world' outcomes', readInput soc world = (.skipped, next, world') ∧
      Reading next world' [] [] outcomes' behind := by
  obtain ⟨row, split, short⟩ : ∃ row, pending = row ++ LF :: [] ∧ (row = [] ∨ row = [CR]) := by
    simp only [List.suffix_cons_iff, List.suffix_nil] at edge
    rcases edge with rfl | rfl | rfl
    · exact ⟨[CR], rfl, Or.inr rfl⟩
    · exact ⟨[], rfl, Or.inl rfl⟩
    · exact absurd rfl real
  have plain : LF ∉ row ∧ NUL ∉ row ∧ cstr (chopStr (row ++ [NUL])) = [] := by
    rcases short with rfl | rfl <;> decide
  obtain ⟨next, world', front, back, outcomes', read, tail, later⟩ :=
    getRowFromSocket_line reading ((List.nil_append _).trans split) plain.1 plain.2.1
  obtain ⟨rfl, rfl⟩ := List.append_eq_nil_iff.mp tail.symm
  refine ⟨next, world', outcomes', ?_, later⟩
  simp only [readInput, read, plain.2.2, List.isEmpty_nil, if_true]

/-- The row of a chunk gives its size. -/
theorem HttpChunk.row_size (c : HttpChunk) (fits : c.payload.length < 2 ^ 63) :
    LF ∉ c.digits ++ [CR] ∧ NUL ∉ c.digits ++ [CR] ∧ cstr (chopStr (c.digits ++ [CR] ++ [NUL])) = c.digits ∧
      toSize (strtol c.digits 16) = c.payload.length := by
  obtain ⟨real, digits, value⟩ := c.sized
  have noNewline : LF ∉ c.digits := hexDigits_absent digits (by decide)
  have noReturn : CR ∉ c.digits := hexDigits_absent digits (by decide)
  have noEnd : NUL ∉ c.digits := hexDigits_absent digits (by decide)
  have absent : LF ∉ c.digits ++ [CR] := by simpa using ⟨noNewline, by decide⟩
  have clean : NUL ∉ c.digits ++ [CR] := by simpa using ⟨noEnd, by decide⟩
  refine ⟨absent, clean, cstr_chopStr_line noEnd noReturn noNewline, ?_⟩
  rw [← value, toSize_strtol_hex real digits (value ▸ fits)]

/-- The test for a ping sees the first byte of the block and the size alone. -/
theorem ping_iff {memory payload : Bytes} (bytes : memory.take payload.length = payload) :
    memory.head? = some 48 ∧ payload.length = 1 ↔ payload = pingBytes := by
  constructor
  · rintro ⟨head, single⟩
    rw [← bytes, single]
    cases memory <;> simp_all [pingBytes, text]
  · rintro rfl
    refine ⟨?_, rfl⟩
    cases memory <;> simp_all [pingBytes, text]

/-- A chunk gives its bytes to `Chunk`, or it is taken for a ping. -/
theorem readInput_chunk (c : HttpChunk) (real : c.payload ≠ []) (fits : c.payload.length < 2 ^ 63)
    {soc : SocketT} {world : World} {front back : Bytes} {outcomes behind : List ReadOutcome}
    (reading : Reading soc world front back outcomes behind) (whole : front ++ back = c.bytes) :
    ∃ next world' pending outcomes', readInput soc world =
        (if c.payload = pingBytes then .skipped else .data c.payload, next, world') ∧
      pending <:+ [CR, LF] ∧ Reading next world' [] pending outcomes' behind := by
  obtain ⟨absent, clean, digits, size⟩ := c.row_size fits
  have split : front ++ back = (c.digits ++ [CR]) ++ LF :: (c.payload ++ [CR, LF]) := by
    rw [whole, HttpChunk.bytes]
    simp
  obtain ⟨after, world₁, front, back, outcomes₁, row, same, later⟩ :=
    getRowFromSocket_line reading split absent clean
  have within : c.payload.length ≤ (front ++ back).length := by simp [← same]
  obtain ⟨r, memory, next, world₂, pending, outcomes₂, read, bytes, rest, last⟩ :=
    getBufFromSocket_reading .freed later (List.length_pos_of_ne_nil real) within
  rw [← same, List.take_left] at bytes
  have left : (front ++ back).drop c.payload.length = [CR, LF] := by rw [← same, List.drop_left]
  have edge : pending <:+ [CR, LF] := by
    rw [rest, ← Nat.add_sub_cancel' (le_max_left c.payload.length front.length), ← List.drop_drop, left]
    exact List.drop_suffix _ _
  refine ⟨next, world₂, pending, outcomes₂, ?_, edge, last⟩
  have sized : ¬ c.digits.isEmpty = true := by simpa using c.sized.1
  simp only [readInput, row, digits, if_neg sized, size, toSigned_of_lt fits, read, ping_iff bytes, bytes]
  split <;> rfl

/-- These are the pieces that the chunks bring for `Chunk`. -/
def piecesOf (chunks : List HttpChunk) : List Bytes := (chunks.map HttpChunk.payload).filter (· ≠ pingBytes)

/-- The session goes on behind a chunk that has come whole. -/
theorem doReadLoop_chunk (cfg : Config) (c : HttpChunk) (real : c.payload ≠ []) (fits : c.payload.length < 2 ^ 63)
    {soc : SocketT} {world : World} {front back : Bytes} {outcomes behind : List ReadOutcome}
    (reading : Reading soc world front back outcomes behind) (whole : front ++ back = c.bytes) :
    ∃ next world' pending outcomes', pending <:+ [CR, LF] ∧ Reading next world' [] pending outcomes' behind ∧
      ∀ fuel s chunks, (∀ t, doReadLoop cfg fuel t next world' = passAll cfg t (piecesOf chunks)) →
        doReadLoop cfg (fuel + 1) s soc world = passAll cfg s (piecesOf (c :: chunks)) := by
  obtain ⟨next, world', pending, outcomes', input, edge, later⟩ := readInput_chunk c real fits reading whole
  refine ⟨next, world', pending, outcomes', edge, later, fun fuel s chunks behind => ?_⟩
  rw [doReadLoop, input, piecesOf, List.map_cons]
  by_cases ping : c.payload = pingBytes
  · rw [if_pos ping, List.filter_cons_of_neg (by simpa using ping)]
    exact behind s
  · rw [if_neg ping, List.filter_cons_of_pos (by simpa using ping), passAll]
    dsimp only
    cases chunk cfg s c.payload with
    | none => rfl
    | some result => exact congrArg (Session.after c.payload result.2) (behind result.1)

/-- What is left of one chunk stands in front of the next one. -/
theorem reading_next {soc : SocketT} {world : World} {chunk : HttpChunk} {outcomes behind : List ReadOutcome}
    (reading : Reading soc world [] [] outcomes (chunk.outcomes ++ behind)) :
    Reading soc world [] chunk.bytes (outcomes ++ chunk.outcomes) behind where
  holds := reading.holds
  plenty := reading.plenty
  reads := by rw [reading.reads, List.append_assoc]
  delivers := reading.delivers.append chunk.delivered

/-- The session passes the chunks that are no ping, up to the one that makes the client exit. -/
theorem doReadLoop_passes (cfg : Config) {chunks : List HttpChunk} {fuel : Nat} {s : State} {soc : SocketT}
    {world : World} {pending : Bytes} {outcomes : List ReadOutcome} (enough : 2 * chunks.length + 2 ≤ fuel)
    (reading : Reading soc world [] pending outcomes (chunks.flatMap HttpChunk.outcomes))
    (edge : pending <:+ [CR, LF])
    (sizes : ∀ c ∈ chunks, c.payload ≠ [] ∧ c.payload.length < 2 ^ 63) :
    doReadLoop cfg fuel s soc world = passAll cfg s (piecesOf chunks) := by
  induction chunks generalizing fuel s soc world pending outcomes with
  | nil =>
      have ends : ∀ fuel soc world outcomes, Reading soc world [] [] outcomes [] →
          doReadLoop cfg (fuel + 1) s soc world = passAll cfg s (piecesOf []) := by
        intro fuel soc world outcomes reading
        obtain ⟨next, world', closed⟩ := getRowFromSocket_drained reading
        simp only [doReadLoop, readInput, closed]
        rfl
      obtain ⟨fuel, rfl⟩ : ∃ more, fuel = more + 2 := ⟨fuel - 2, by simp at enough; omega⟩
      by_cases empty : pending = []
      · subst empty
        exact ends (fuel + 1) soc world outcomes reading
      · obtain ⟨next, world', outcomes', input, later⟩ := readInput_blank reading edge empty
        rw [doReadLoop, input]
        exact ends fuel next world' outcomes' later
  | cons c chunks ih =>
      obtain ⟨real, fits⟩ := sizes c (by simp)
      have others : ∀ c ∈ chunks, c.payload ≠ [] ∧ c.payload.length < 2 ^ 63 :=
        fun other member => sizes other (by simp [member])
      have reads : ∀ fuel soc world outcomes, 2 * chunks.length + 2 ≤ fuel →
          Reading soc world [] [] outcomes ((c :: chunks).flatMap HttpChunk.outcomes) →
          doReadLoop cfg (fuel + 1) s soc world = passAll cfg s (piecesOf (c :: chunks)) := by
        intro fuel soc world outcomes enough reading
        obtain ⟨next, world', pending, outcomes', edge, later, goesOn⟩ :=
          doReadLoop_chunk cfg c real fits (reading_next reading) (List.nil_append _)
        exact goesOn fuel s chunks fun t => ih enough later edge others
      rw [List.length_cons] at enough
      obtain ⟨fuel, rfl⟩ : ∃ more, fuel = more + 2 := ⟨fuel - 2, by omega⟩
      by_cases empty : pending = []
      · subst empty
        exact reads (fuel + 1) soc world outcomes (by omega) reading
      · obtain ⟨next, world', outcomes', input, later⟩ := readInput_blank reading edge empty
        rw [doReadLoop, input]
        exact reads fuel next world' outcomes' (by omega) later

/-- Pieces with some bytes cannot be left out of their concatenation. -/
theorem sublist_flatten_eq {kept pieces : List Bytes} (sub : kept.Sublist pieces)
    (real : ∀ piece ∈ pieces, piece ≠ []) (same : kept.flatten = pieces.flatten) : kept = pieces := by
  induction sub with
  | slnil => rfl
  | @cons kept pieces piece sub ih =>
      have shorter := sub.flatten.length_le
      have longer := List.length_pos_of_ne_nil (real piece (by simp))
      have sizes := congrArg List.length same
      rw [List.flatten_cons, List.length_append] at sizes
      omega
  | @cons_cons kept pieces piece sub ih =>
      rw [ih (fun other member => real other (by simp [member])) (by simpa using same)]

/-- The measure of the outcomes covers two iterations for each chunk. -/
theorem chunks_length_le (chunks : List HttpChunk) :
    2 * chunks.length ≤ ((chunks.flatMap HttpChunk.outcomes).map ReadOutcome.weight).sum := by
  induction chunks with
  | nil => simp
  | cons c chunks ih =>
      have first := c.delivered.length_le
      simp only [List.length_append, List.length_cons] at first
      simp only [List.length_cons, List.flatMap_cons, List.map_append, List.sum_append]
      omega

theorem doReadFromServer_passed (cfg : Config) (statics : Statics) {soc : SocketT} {world : World}
    {chunks : List HttpChunk} (fresh : Holds soc []) (ssl : soc.fn = true) (plenty : Plenty world)
    (stream : world.reads = chunks.flatMap HttpChunk.outcomes)
    (sizes : ∀ c ∈ chunks, c.payload ≠ [] ∧ c.payload.length < 2 ^ 63) :
    (doReadFromServer cfg statics soc world).passed =
      taken (silent (chunk cfg)) (sessionStart statics)
        ((chunks.map HttpChunk.payload).filter (· ≠ pingBytes)) := by
  have enough : 2 * chunks.length + 2 ≤ world.size + soc.bufLen + 2 := by
    have covered := chunks_length_le chunks
    rw [World.size, stream]
    omega
  have reading : Reading soc world [] [] [] (chunks.flatMap HttpChunk.outcomes) :=
    ⟨fresh, plenty, stream, .nil⟩
  rw [doReadFromServer, ssl, Bool.not_true, if_neg Bool.false_ne_true,
    doReadLoop_passes cfg enough reading List.nil_suffix sizes, passAll_passed, piecesOf]

/-- Behind the filter the pings are gone. -/
theorem filter_writes (writes : List ConnectWrite) :
    (writes.map ConnectWrite.bytes).filter (· ≠ pingBytes) =
      (writes.filterMap ConnectWrite.fifoBytes).filter (· ≠ pingBytes) := by
  induction writes with
  | nil => rfl
  | cons write writes ih =>
      cases write with
      | ping =>
          have skipped : ConnectWrite.ping.fifoBytes = none := rfl
          rw [List.filterMap_cons_none skipped, ← ih]
          rfl
      | data bytes =>
          simp only [List.map_cons, ConnectWrite.bytes, List.filterMap_cons, ConnectWrite.fifoBytes,
            List.filter_cons, ih]

/-- The session passes on exactly the bytes of the FIFO if and only if no read of the FIFO gave a single `0`
and the client does not exit before the last read. -/
theorem pings_transparent_iff (cfg : Config) (statics : Statics) (soc : SocketT) (world : World)
    (chunks : List HttpChunk) (writes : List ConnectWrite) (fresh : Holds soc []) (ssl : soc.fn = true)
    (plenty : Plenty world) (stream : world.reads = chunks.flatMap HttpChunk.outcomes)
    (carried : chunks.map HttpChunk.payload = writes.map ConnectWrite.bytes)
    (sizes : ∀ bytes, .data bytes ∈ writes → 1 ≤ bytes.length ∧ bytes.length ≤ pipeBuf - 1) :
    (doReadFromServer cfg statics soc world).passed.flatten =
        (writes.filterMap ConnectWrite.fifoBytes).flatten ↔
      (∀ bytes, .data bytes ∈ writes → bytes ≠ pingBytes) ∧
        (run (silent (chunk cfg)) (sessionStart statics)
          (writes.filterMap ConnectWrite.fifoBytes).dropLast).isSome := by
  have bounds : ∀ c ∈ chunks, c.payload ≠ [] ∧ c.payload.length < 2 ^ 63 := by
    intro c member
    have listed : c.payload ∈ writes.map ConnectWrite.bytes := carried ▸ List.mem_map_of_mem member
    obtain ⟨write, sent, same⟩ := List.mem_map.mp listed
    rw [← same]
    cases write with
    | ping => decide
    | data bytes =>
        have size := sizes bytes sent
        simp only [pipeBuf] at size
        exact ⟨List.ne_nil_of_length_pos size.1, by rw [ConnectWrite.bytes]; omega⟩
  rw [doReadFromServer_passed cfg statics fresh ssl plenty stream bounds, carried, filter_writes]
  have reads : ∀ bytes, bytes ∈ writes.filterMap ConnectWrite.fifoBytes ↔ .data bytes ∈ writes := by
    intro bytes
    rw [List.mem_filterMap]
    constructor
    · rintro ⟨write, sent, same⟩
      cases write with
      | ping => contradiction
      | data other => exact Option.some.inj same ▸ sent
    · exact fun sent => ⟨_, sent, rfl⟩
  simp only [← reads] at sizes ⊢
  generalize writes.filterMap ConnectWrite.fifoBytes = pieces at sizes
  have real : ∀ piece ∈ pieces, piece ≠ [] := fun piece member => List.ne_nil_of_length_pos (sizes piece member).1
  constructor
  · intro same
    have sub : (taken (silent (chunk cfg)) (sessionStart statics) (pieces.filter (· ≠ pingBytes))).Sublist pieces :=
      (taken_front _ _).sublist.trans List.filter_sublist
    have all := sublist_flatten_eq sub real same
    have whole : pieces.filter (· ≠ pingBytes) = pieces := by
      have longer : pieces.length ≤ (pieces.filter (· ≠ pingBytes)).length :=
        calc pieces.length = (taken _ _ (pieces.filter (· ≠ pingBytes))).length := by rw [all]
          _ ≤ _ := (taken_front _ _).length_le
      exact List.filter_sublist.eq_of_length_le longer
    rw [whole] at all
    exact ⟨fun piece member => by simpa using List.filter_eq_self.mp whole piece member,
      (taken_eq_iff _ _).mp all⟩
  · rintro ⟨noPing, survives⟩
    have whole : pieces.filter (· ≠ pingBytes) = pieces :=
      List.filter_eq_self.mpr fun piece member => by simpa using noPing piece member
    rw [whole, (taken_eq_iff _ _).mpr survives]

/-- One read receives this chunk. -/
def wholeChunk (digits payload : Bytes) (sized : digits ≠ [] ∧ (∀ c ∈ digits, digitValue c < 16) ∧
    digitsValue 16 digits = payload.length) : HttpChunk where
  payload := payload
  digits := digits
  outcomes := [.data (digits ++ [CR, LF] ++ payload ++ [CR, LF])]
  sized := sized
  delivered := by
    have line : digits ++ [CR, LF] ++ payload ++ [CR, LF] ≠ [] := by simp
    simpa using Delivers.data line .nil

/-- The stream carries the start of a request, a ping, and the last byte of its body. -/
def sampleChunks (last : UInt8) : List HttpChunk :=
  [wholeChunk (text "44") (sampleRequest.headerBlock ++ text "ab") (by decide +kernel),
    wholeChunk (text "1") pingBytes (by decide +kernel),
    wholeChunk (text "1") [last] ⟨by decide, by decide +kernel, rfl⟩]

def sampleSocket : SocketT := ⟨0, true, some [NUL], 0⟩

def sampleWorld (last : UInt8) : World := ⟨(sampleChunks last).flatMap HttpChunk.outcomes, [], []⟩

def sampleWrites (last : UInt8) : List ConnectWrite :=
  [.data (sampleRequest.headerBlock ++ text "ab"), .ping, .data [last]]

theorem sampleWrites_sizes (last : UInt8) : ∀ bytes, .data bytes ∈ sampleWrites last →
    1 ≤ bytes.length ∧ bytes.length ≤ pipeBuf - 1 := by
  have length : (sampleRequest.headerBlock ++ text "ab").length = 68 := by decide
  intro bytes member
  simp only [sampleWrites, List.mem_cons, ConnectWrite.data.injEq, reduceCtorEq, List.not_mem_nil, or_false,
    false_or] at member
  rcases member with rfl | rfl
  · rw [length]
    decide
  · simp [pipeBuf]

theorem pings_transparent_iff_sample :
    (doReadFromServer sampleConfig Statics.initial sampleSocket (sampleWorld 99)).passed.flatten =
        ((sampleWrites 99).filterMap ConnectWrite.fifoBytes).flatten ↔
      (∀ bytes, .data bytes ∈ sampleWrites 99 → bytes ≠ pingBytes) ∧
        (run (silent (chunk sampleConfig)) (sessionStart Statics.initial)
          ((sampleWrites 99).filterMap ConnectWrite.fifoBytes).dropLast).isSome :=
  pings_transparent_iff sampleConfig Statics.initial sampleSocket (sampleWorld 99) (sampleChunks 99)
    (sampleWrites 99) ⟨rfl, rfl⟩ rfl rfl rfl rfl (sampleWrites_sizes 99)

/-- A body whose last byte is read alone from the FIFO loses a final `0`. -/
theorem pings_swallow_data : ∃ (cfg : Config) (statics : Statics) (soc : SocketT) (world : World)
    (chunks : List HttpChunk) (writes : List ConnectWrite), Holds soc [] ∧ soc.fn = true ∧ Plenty world ∧
      world.reads = chunks.flatMap HttpChunk.outcomes ∧
      chunks.map HttpChunk.payload = writes.map ConnectWrite.bytes ∧
      (∀ bytes, .data bytes ∈ writes → 1 ≤ bytes.length ∧ bytes.length ≤ pipeBuf - 1) ∧
      (doReadFromServer cfg statics soc world).passed.flatten ≠
        (writes.filterMap ConnectWrite.fifoBytes).flatten :=
  ⟨sampleConfig, Statics.initial, sampleSocket, sampleWorld 48, sampleChunks 48, sampleWrites 48,
    ⟨rfl, rfl⟩, rfl, rfl, rfl, rfl, sampleWrites_sizes 48, by decide +kernel⟩

end Piercloud.Client
