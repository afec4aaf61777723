import Piercloud.Construction.Session
import Piercloud.Proof.Socket.Outcomes

namespace Piercloud.Socket

open CLib

/-- The underlying reads give exactly these bytes, in non-empty pieces and with repeated attempts. -/
inductive Delivers : List ReadOutcome → Bytes → Prop where
  | nil : Delivers [] []
  | again {outcomes : List ReadOutcome} {bytes : Bytes} (later : Delivers outcomes bytes) :
      Delivers (.again :: outcomes) bytes
  | data {outcomes : List ReadOutcome} {bytes piece : Bytes} (real : piece ≠ [])
      (later : Delivers outcomes bytes) : Delivers (.data piece :: outcomes) (piece ++ bytes)

theorem Delivers.single {piece : Bytes} (real : piece ≠ []) : Delivers [.data piece] piece := by
  simpa using Delivers.data real .nil

/-- Each byte counts in the measure of the outcomes. -/
theorem Delivers.length_le {outcomes : List ReadOutcome} {bytes : Bytes} (delivers : Delivers outcomes bytes) :
    bytes.length ≤ (outcomes.map ReadOutcome.weight).sum := by
  induction delivers with
  | nil => simp
  | again _ ih =>
      simp only [List.map_cons, List.sum_cons]
      omega
  | data _ _ ih =>
      simp only [List.length_append, List.map_cons, List.sum_cons, ReadOutcome.weight]
      omega

theorem Delivers.append {first second : List ReadOutcome} {a b : Bytes} (front : Delivers first a)
    (behind : Delivers second b) : Delivers (first ++ second) (a ++ b) := by
  induction front with
  | nil => exact behind
  | again _ ih => exact .again ih
  | data real _ ih =>
      rw [List.append_assoc]
      exact .data real ih

theorem Delivers.coming_eq {outcomes : List ReadOutcome} {bytes : Bytes} (delivers : Delivers outcomes bytes) :
    coming outcomes = bytes := by
  induction delivers with
  | nil => rfl
  | again _ ih => exact ih
  | data real _ ih => rw [coming, if_neg (by simpa using real), ih]

/-- A read stays inside the outcomes that still deliver bytes. -/
theorem receive_delivered {outcomes : List ReadOutcome} {bytes : Bytes} (delivers : Delivers outcomes bytes)
    (real : bytes ≠ []) {size : Nat} (positive : 0 < size) (behind : List ReadOutcome) :
    ∃ piece rest bytes', receive size (outcomes ++ behind) = (some piece, rest ++ behind) ∧ piece ≠ [] ∧
      piece.length ≤ size ∧ bytes = piece ++ bytes' ∧ Delivers rest bytes' ∧
      (rest.map ReadOutcome.weight).sum < (outcomes.map ReadOutcome.weight).sum := by
  induction delivers with
  | nil => exact absurd rfl real
  | again _ ih =>
      obtain ⟨piece, rest, bytes', read, more, short, split, later, smaller⟩ := ih real
      refine ⟨piece, rest, bytes', read, more, short, split, later, ?_⟩
      simp only [List.map_cons, List.sum_cons]
      omega
  | @data outcomes bytes piece some later ih =>
      by_cases fits : piece.length ≤ size
      · refine ⟨piece, outcomes, bytes, by simp [receive, fits], some, fits, rfl, later, ?_⟩
        simp only [List.map_cons, List.sum_cons, ReadOutcome.weight]
        omega
      · have tail : piece.drop size ≠ [] := by
          rw [Ne, List.drop_eq_nil_iff]
          omega
        have head : piece.take size ≠ [] := by
          rw [Ne, List.take_eq_nil_iff]
          exact not_or_intro (by omega) some
        refine ⟨piece.take size, .data (piece.drop size) :: outcomes, piece.drop size ++ bytes,
          by simp [receive, fits], head, List.length_take_le _ _, ?_, .data tail later, ?_⟩
        · rw [← List.append_assoc, List.take_append_drop]
        · simp only [List.map_cons, List.sum_cons, ReadOutcome.weight, List.length_drop]
          omega

/-- The read that brings the byte number `need` brings this many bytes behind it. Each read of a row asks for as many
bytes as a buffer has. -/
def surplus (need : Nat) : List ReadOutcome → Nat
  | [] => 0
  | .again :: rest => surplus need rest
  | .failed :: _ => 0
  | .data piece :: rest =>
      if need ≤ piece.length then
        min piece.length ((need + readBufSize - 1) / readBufSize * readBufSize) - need
      else surplus (need - piece.length) rest

theorem receive_surplus {reads rest : List ReadOutcome} {piece : Bytes} {need : Nat} (positive : 0 < need)
    (read : receive readBufSize reads = (some piece, rest)) :
    surplus need reads = if need ≤ piece.length then piece.length - need else surplus (need - piece.length) rest := by
  have size : readBufSize = 512 := rfl
  induction reads with
  | nil =>
      obtain ⟨rfl, rfl⟩ : piece = [] ∧ rest = [] := by simpa [receive] using read.symm
      exact (if_neg (not_le.mpr positive)).symm
  | cons outcome reads ih =>
      cases outcome with
      | again => exact ih read
      | failed => simp [receive] at read
      | data whole =>
          rw [receive] at read
          split at read
          · obtain ⟨rfl, rfl⟩ : whole = piece ∧ reads = rest := by simpa using read
            rw [surplus, size]
            split
            · omega
            · rfl
          · rename_i long
            obtain ⟨rfl, rfl⟩ : whole.take readBufSize = piece ∧
                .data (whole.drop readBufSize) :: reads = rest := by simpa using read
            -- The tail of a long piece is read later, in the same steps.
            rw [size] at long
            have taken : min 512 whole.length = 512 := by omega
            rw [surplus, surplus, List.length_take, List.length_drop, size, taken]
            by_cases first : need ≤ 512
            · rw [if_pos first, if_pos (by omega)]
              omega
            · rw [if_neg first]
              by_cases inside : need ≤ whole.length
              · rw [if_pos inside, if_pos (by omega)]
                omega
              · rw [if_neg inside, if_neg (by omega),
                  show need - 512 - (whole.length - 512) = need - whole.length by omega]

/-- When the next `need` bytes are taken as rows, the buffer has this many bytes behind them. -/
def heldBehind (need : Nat) (soc : SocketT) (world : World) : Nat :=
  if need ≤ (held soc).length then (held soc).length - need else surplus (need - (held soc).length) world.reads

/-- A read that is needed for a row changes nothing about that. -/
theorem increaseSoc_heldBehind {soc after : SocketT} {world next : World} {bytes : Bytes} {r : Int}
    (holds : Holds soc bytes) (plenty : Plenty world) (read : increaseSoc soc readBufSize world = (r, after, next))
    (success : 0 < r) {need : Nat} (short : bytes.length < need) :
    heldBehind need soc world = heldBehind need after next := by
  obtain ⟨r', next', failed, negative⟩ | ⟨piece, after', next', received, -, grown, holds', -⟩ :=
    increaseSoc_cases readBufSize holds plenty
  · rw [failed, Prod.mk.injEq] at read
    omega
  · obtain ⟨-, rfl, rfl⟩ : _ ∧ after' = after ∧ next' = next := by simpa using grown.symm.trans read
    rw [heldBehind, heldBehind, holds.held_eq, holds'.held_eq, if_neg (not_le.mpr short),
      receive_surplus (Nat.sub_pos_of_lt short) received, List.length_append]
    by_cases come : need ≤ bytes.length + piece.length
    · rw [if_pos (by omega), if_pos come]
      omega
    · rw [if_neg (by omega), if_neg come, Nat.sub_sub]

/-- A row that is cut off is needed no longer. -/
theorem heldBehind_row {soc next : SocketT} {world : World} {row rest : Bytes} (holds : Holds soc (row ++ LF :: rest))
    (kept : Holds next rest) {need : Nat} (whole : row.length < need) :
    heldBehind need soc world = heldBehind (need - (row.length + 1)) next world := by
  rw [heldBehind, heldBehind, holds.held_eq, kept.held_eq, List.length_append, List.length_cons]
  by_cases inside : need ≤ row.length + (rest.length + 1)
  · rw [if_pos inside, if_pos (by omega)]
    omega
  · have left : need - (row.length + (rest.length + 1)) = need - (row.length + 1) - rest.length := by omega
    rw [if_neg inside, if_neg (by omega), left]

/-- A socket has received the front of some bytes, and the next outcomes deliver the back of them. -/
structure Reading (soc : SocketT) (world : World) (front back : Bytes) (outcomes behind : List ReadOutcome) :
    Prop where
  holds : Holds soc front
  plenty : Plenty world
  reads : world.reads = outcomes ++ behind
  delivers : Delivers outcomes back

/-- No outcome is left that delivers a byte, so the peer has closed. -/
theorem receive_drained {outcomes : List ReadOutcome} (delivers : Delivers outcomes []) (size : Nat) :
    receive size outcomes = (some [], []) := by
  generalize none' : ([] : Bytes) = bytes at delivers
  induction delivers with
  | nil => simp [receive]
  | again _ ih => exact ih none'
  | data real _ _ => exact absurd (List.append_eq_nil_iff.mp none'.symm).1 real

/-- A read moves a piece of the coming bytes into the buffer. -/
theorem increaseSoc_reading {soc : SocketT} {world : World} {front back : Bytes}
    {outcomes behind : List ReadOutcome} (reading : Reading soc world front back outcomes behind)
    (real : back ≠ []) {size : Nat} (positive : 0 < size) :
    ∃ piece back' outcomes' after next, increaseSoc soc size world = ((piece.length : Int), after, next) ∧
      piece ≠ [] ∧ piece.length ≤ size ∧ back = piece ++ back' ∧
      Reading after next (front ++ piece) back' outcomes' behind ∧
      (outcomes'.map ReadOutcome.weight).sum < (outcomes.map ReadOutcome.weight).sum := by
  obtain ⟨⟨memory, length⟩, plenty, reads, delivers⟩ := reading
  obtain ⟨piece, rest, back', read, more, short, split, later, smaller⟩ :=
    receive_delivered delivers real positive behind
  have grown : Plenty { world with reads := rest ++ behind, received := world.received ++ piece } := plenty
  refine ⟨piece, back', rest, { soc with
      buf := some (front ++ piece ++ [NUL])
      bufLen := soc.bufLen + piece.length },
    { world with reads := rest ++ behind, received := world.received ++ piece }, ?_, more, short, split,
    ⟨⟨rfl, by simp [length]⟩, grown, rfl, later⟩, smaller⟩
  simp [increaseSoc, memory, malloc_plenty plenty, reads, read, more, malloc_plenty grown, length]

/-- A front without a newline ends inside of the first row. -/
theorem front_le_row {front back row rest : Bytes} (split : front ++ back = row ++ LF :: rest) (missing : LF ∉ front) :
    front.length ≤ row.length := by
  rcases List.append_eq_append_iff.mp split with ⟨more, rfl, -⟩ | ⟨more, rfl, tail⟩
  · simp
  · cases more with
    | nil => simp
    | cons c more =>
        obtain ⟨rfl, -⟩ := List.cons.inj tail
        exact absurd (by simp) missing

/-- The row loop reads on until the first newline has come. -/
theorem getRowLoop_reading {fuel : Nat} {r : Int} {soc : SocketT} {world : World} {front back row rest : Bytes}
    {outcomes behind : List ReadOutcome} (reading : Reading soc world front back outcomes behind)
    (split : front ++ back = row ++ LF :: rest) (absent : LF ∉ row) (clean : NUL ∉ row) (start : 0 ≤ r)
    (enough : (outcomes.map ReadOutcome.weight).sum < fuel) :
    ∃ r' next world' front' back' outcomes', getRowLoop fuel r soc world = (r', some row, next, world') ∧
      0 ≤ r' ∧ rest = front' ++ back' ∧ Reading next world' front' back' outcomes' behind ∧
      ∀ need > row.length, heldBehind need soc world = heldBehind (need - (row.length + 1)) next world' := by
  induction fuel generalizing r soc world front back outcomes with
  | zero => omega
  | succ fuel ih =>
      obtain missing | ⟨row', front', same, first⟩ := split_first front LF
      · have real : back ≠ [] := by
          rintro rfl
          rw [List.append_nil] at split
          exact missing (by simp [split])
        have string : strchr (front ++ [NUL]) LF = none := by
          rw [strchr_append_terminator, strchr]
          exact findIdx_none fun member => missing (mem_of_mem_cstr member)
        have waits : getRowAndCut soc world = (none, soc, world) := getRowAndCut_none reading.holds.1 string
        obtain ⟨piece, back', outcomes', after, next, read, more, -, same, later, smaller⟩ :=
          increaseSoc_reading reading real (show 0 < readBufSize by decide)
        have goesOn : ¬ ((piece.length : Int) ≤ 0) := by
          have := List.length_pos_of_ne_nil more
          omega
        obtain ⟨r', next', world', front', back'', outcomes'', found, success, tail, last, kept⟩ :=
          ih later (by rw [List.append_assoc, ← same, split]) (Int.natCast_nonneg piece.length) (by omega)
        have inside := front_le_row split missing
        refine ⟨r', next', world', front', back'', outcomes'', ?_, success, tail, last, fun need whole => ?_⟩
        · simp only [getRowLoop, waits, read, if_neg goesOn]
          exact found
        · rw [increaseSoc_heldBehind reading.holds reading.plenty read (by omega) (show front.length < need by omega),
            kept need whole]
      · have aligned : row' ++ LF :: (front' ++ back) = row ++ LF :: rest := by
          rw [← split, same]
          simp
        obtain ⟨rfl, tails⟩ := split_unique first absent aligned
        obtain ⟨next, cut, kept⟩ := getRowAndCut_row (same ▸ reading.holds) reading.plenty first clean
        refine ⟨r, next, world, front', back, outcomes, ?_, start, tails.symm,
          ⟨kept, reading.plenty, reading.reads, reading.delivers⟩, fun need whole => ?_⟩
        · simp only [getRowLoop, cut]
        · exact heldBehind_row (same ▸ reading.holds) kept whole

theorem getRowFromSocket_reading {soc : SocketT} {world : World} {front back row rest : Bytes}
    {outcomes behind : List ReadOutcome} (reading : Reading soc world front back outcomes behind)
    (split : front ++ back = row ++ LF :: rest) (absent : LF ∉ row) (clean : NUL ∉ row) :
    ∃ r next world' front' back' outcomes', getRowFromSocket soc world = (r, some row, next, world') ∧
      0 ≤ r ∧ rest = front' ++ back' ∧ Reading next world' front' back' outcomes' behind ∧
      ∀ need > row.length, heldBehind need soc world = heldBehind (need - (row.length + 1)) next world' := by
  have enough : (outcomes.map ReadOutcome.weight).sum < world.size + 1 := by
    rw [World.size, reading.reads, List.map_append, List.sum_append]
    omega
  obtain ⟨r, found⟩ := getRowLoop_reading reading split absent clean (le_refl 0) enough
  refine ⟨r, ?_⟩
  simpa only [getRowFromSocket, reading.holds.1, Option.isNone_some, Bool.false_eq_true, if_false] using found

/-- The counted loop reads on until enough bytes have come. -/
theorem getBufLoop_reading {fuel size : Nat} {soc : SocketT} {world : World} {front back : Bytes}
    {outcomes behind : List ReadOutcome} (reading : Reading soc world front back outcomes behind)
    (within : size ≤ (front ++ back).length) (enough : (outcomes.map ReadOutcome.weight).sum < fuel) :
    ∃ next world' front' back' outcomes', getBufLoop fuel soc size world = ((front'.length : Int), next, world') ∧
      front'.length = max size front.length ∧ front ++ back = front' ++ back' ∧
      Reading next world' front' back' outcomes' behind := by
  induction fuel generalizing soc world front back outcomes with
  | zero => omega
  | succ fuel ih =>
      have length := reading.holds.2
      by_cases short : soc.bufLen < size
      · have real : back ≠ [] := by
          rintro rfl
          simp only [List.append_nil] at within
          omega
        obtain ⟨piece, back', outcomes', after, next, read, more, fits, same, later, smaller⟩ :=
          increaseSoc_reading reading real (show 0 < size - soc.bufLen by omega)
        have goesOn : ¬ ((piece.length : Int) ≤ 0) := by
          have := List.length_pos_of_ne_nil more
          omega
        have regrouped : front ++ back = front ++ piece ++ back' := by rw [same, List.append_assoc]
        simp only [getBufLoop, short, if_true, read, if_neg goesOn]
        have grown : max size (front ++ piece).length = max size front.length := by
          rw [List.length_append]
          omega
        rw [regrouped] at within ⊢
        rw [← grown]
        exact ih later within (by omega)
      · refine ⟨soc, world, front, back, outcomes, ?_, by omega, rfl, reading⟩
        rw [getBufLoop, if_neg short, length]

/-- A counted read takes its bytes, and whatever else the buffer has is gone. -/
theorem getBufFromSocket_reading {size : Nat} {soc : SocketT} {world : World} {front back : Bytes}
    {outcomes behind : List ReadOutcome} (buf : Pointer) (reading : Reading soc world front back outcomes behind)
    (positive : 0 < size) (within : size ≤ (front ++ back).length) :
    ∃ r memory next world' back' outcomes', getBufFromSocket buf soc size world =
        (r, .block memory, next, world') ∧ memory.take size = (front ++ back).take size ∧
      back' = (front ++ back).drop (max size front.length) ∧ Reading next world' [] back' outcomes' behind := by
  have enough : (outcomes.map ReadOutcome.weight).sum < world.size + 1 := by
    rw [World.size, reading.reads, List.map_append, List.sum_append]
    omega
  obtain ⟨after, world', front', back', outcomes', loop, grown, same, later⟩ :=
    getBufLoop_reading reading within enough
  have covers : size ≤ front'.length := by omega
  have count : ¬ ((size : Int) < 0) := by omega
  have counted : size ≠ 0 := by omega
  have goesOn : front' ≠ [] := by
    rintro rfl
    simp only [List.length_nil] at covers
    omega
  have whole : (front' ++ [NUL]).take front'.length = front' := List.take_left
  refine ⟨front'.length, (front' ++ [NUL]).set size NUL, { after with buf := some [NUL], bufLen := 0 }, world',
    back', outcomes', ?_, ?_, ?_, ⟨rfl, rfl⟩, later.plenty, later.reads, later.delivers⟩
  · simp [getBufFromSocket, reading.holds.1, count, counted, loop, goesOn, malloc_plenty later.plenty,
      later.holds.1, later.holds.2, whole]
  · rw [List.take_set_of_le (le_refl size), List.take_append_of_le_length covers, same,
      List.take_append_of_le_length covers]
  · rw [same, ← grown, List.drop_left]

end Piercloud.Socket

namespace Piercloud.Client

open CLib Socket

/-- The wrapper gives the row that has come or that the reads deliver. -/
theorem getRowFromSocket_line {soc : SocketT} {world : World} {front back row rest : Bytes}
    {outcomes behind : List ReadOutcome} (reading : Reading soc world front back outcomes behind)
    (split : front ++ back = row ++ LF :: rest) (absent : LF ∉ row) (clean : NUL ∉ row) :
    ∃ next world' front' back' outcomes', getRowFromSocket soc world = (some row, next, world') ∧
      rest = front' ++ back' ∧ Reading next world' front' back' outcomes' behind := by
  obtain ⟨r, next, world', front', back', outcomes', read, success, tail, later, -⟩ :=
    getRowFromSocket_reading reading split absent clean
  have notFailed : r ≠ -1 := by omega
  exact ⟨next, world', front', back', outcomes', by simp [getRowFromSocket, read, notFailed], tail, later⟩

/-- At the end of the stream the wrapper gives no row. -/
theorem getRowFromSocket_drained {soc : SocketT} {world : World} {outcomes : List ReadOutcome}
    (reading : Reading soc world [] [] outcomes []) : ∃ next world',
      getRowFromSocket soc world = (none, next, world') := by
  have memory : soc.buf = some [NUL] := reading.holds.1
  have reads : world.reads = outcomes := by simpa using reading.reads
  refine ⟨soc.released, { world with reads := [], received := world.received ++ [] }, ?_⟩
  have waits : getRowAndCut soc world = (none, soc, world) := getRowAndCut_none memory (by decide)
  have read : increaseSoc soc readBufSize world =
      (0, soc, { world with reads := [], received := world.received ++ [] }) := by
    simp [increaseSoc, memory, malloc_plenty reading.plenty, reads, receive_drained reading.delivers]
  simp [getRowFromSocket, Socket.getRowFromSocket, memory, getRowLoop, waits, read]

end Piercloud.Client
