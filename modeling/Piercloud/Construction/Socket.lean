import Piercloud.Library.Numeral

/-
This file embeds `socket.c`. The surroundings of a call give the result of each underlying read and of
each allocation, so every function here is total and deterministic.
-/

namespace Piercloud.Socket

open CLib

/-- One underlying read gives a piece, fails for now, or fails. An empty piece is the end of the stream. -/
inductive ReadOutcome where
  | data (piece : Bytes)
  | again
  | failed
  deriving DecidableEq, Repr

/-- The allocations succeed when their list is used up. `received` records what the reads gave. -/
structure World where
  reads : List ReadOutcome
  allocs : List Bool
  received : Bytes
  deriving DecidableEq, Repr

/-- This is `Socket_t`; `fn` says whether an SSL handle is set. -/
structure SocketT where
  sd : Int
  fn : Bool
  buf : Option Bytes
  bufLen : Nat
  deriving DecidableEq, Repr

/-- A pointer of a caller is null, points to freed memory, or points to a block. -/
inductive Pointer where
  | null
  | freed
  | block (memory : Bytes)
  deriving DecidableEq, Repr

/-- The failing exits of the readers free the buffer. -/
def SocketT.released (soc : SocketT) : SocketT := { soc with buf := none, bufLen := 0 }

def ReadOutcome.weight : ReadOutcome → Nat
  | .data piece => piece.length + 1
  | .again => 1
  | .failed => 1

/-- Each read that gives data makes this measure smaller. -/
def World.size (world : World) : Nat := (world.reads.map ReadOutcome.weight).sum

def malloc (world : World) : Bool × World :=
  match world.allocs with
  | [] => (true, world)
  | ok :: rest => (ok, { world with allocs := rest })

/-- The loop around `read` and `SSL_read` repeats a transient failure. A piece longer than the request
leaves its tail for the next read, and the peer has closed when no outcome is left. -/
def receive (size : Nat) : List ReadOutcome → Option Bytes × List ReadOutcome
  | [] => (some [], [])
  | .again :: rest => receive size rest
  | .failed :: rest => (none, rest)
  | .data piece :: rest =>
      if piece.length ≤ size then (some piece, rest)
      else (some (piece.take size), .data (piece.drop size) :: rest)

def readBufSize : Nat := 512

/-- The row ends at the first newline of the C string, and the tail stays in the buffer. -/
def getRowAndCut (soc : SocketT) (world : World) : Option Bytes × SocketT × World :=
  match soc.buf with
  | none => (none, soc, world)
  | some memory =>
      match strchr memory LF with
      | none => (none, soc, world)
      | some tail =>
          let cut := memory.set tail NUL
          match malloc world with
          | (false, world) => (none, { soc with buf := some (cut.set tail LF) }, world)
          | (true, world) =>
              let rval := cstr cut
              let newBufLen := sizeSub (sizeSub soc.bufLen rval.length) 1
              match malloc world with
              -- The newline is not put back on this exit.
              | (false, world) => (none, { soc with buf := some cut }, world)
              | (true, world) =>
                  (some rval, { soc with
                    buf := some ((cut.drop (tail + 1)).take newBufLen ++ [NUL])
                    bufLen := newBufLen }, world)

/-- One successful read grows the buffer and gives the number of new bytes. -/
def increaseSoc (soc : SocketT) (size : Nat) (world : World) : Int × SocketT × World :=
  match soc.buf with
  | none => (-1, soc, world)
  | some memory =>
      match malloc world with
      | (false, world) => (-1, soc, world)
      | (true, world) =>
          match receive size world.reads with
          | (none, reads) => (-1, soc, { world with reads := reads })
          | (some piece, reads) =>
              let world := { world with reads := reads, received := world.received ++ piece }
              if piece.isEmpty then (0, soc, world)
              else
                match malloc world with
                | (false, world) => (-1, soc, world)
                | (true, world) =>
                    (piece.length, { soc with
                      buf := some (memory.take soc.bufLen ++ piece ++ [NUL])
                      bufLen := soc.bufLen + piece.length }, world)

/-- The loop alternates the cut and the read until a row is complete. -/
def getRowLoop : Nat → Int → SocketT → World → Int × Option Bytes × SocketT × World
  | 0, _, soc, world => (-1, none, soc, world)
  | fuel + 1, r, soc, world =>
      match getRowAndCut soc world with
      | (some row, soc, world) => (r, some row, soc, world)
      | (none, soc, world) =>
          match increaseSoc soc readBufSize world with
          | (r, soc, world) =>
              if r ≤ 0 then (-1, none, soc.released, world)
              else getRowLoop fuel r soc world

/-- The row is null on every failing exit. -/
def getRowFromSocket (soc : SocketT) (world : World) : Int × Option Bytes × SocketT × World :=
  if soc.buf.isNone then (-1, none, soc, world)
  else getRowLoop (world.size + 1) 0 soc world

/-- The loop reads until the buffer holds the requested number of bytes. -/
def getBufLoop : Nat → SocketT → Nat → World → Int × SocketT × World
  | 0, soc, _, world => (-1, soc, world)
  | fuel + 1, soc, size, world =>
      if soc.bufLen < size then
        match increaseSoc soc (size - soc.bufLen) world with
        | (r, soc, world) => if r ≤ 0 then (r, soc, world) else getBufLoop fuel soc size world
      else (soc.bufLen, soc, world)

/-- The caller's pointer changes only on some of the exits. -/
def getBufFromSocket (buf : Pointer) (soc : SocketT) (size : Int) (world : World) :
    Int × Pointer × SocketT × World :=
  if size < 0 ∨ soc.buf.isNone then (-1, .null, soc, world)
  else if size = 0 then (0, .null, soc, world)
  else
    match getBufLoop (world.size + 1) soc size.toNat world with
    | (r, soc, world) =>
        if r ≤ 0 then (r, buf, soc.released, world)
        else
          match malloc world with
          | (false, world) => (-1, .null, soc.released, world)
          | (true, world) =>
              -- The block takes the whole buffer; its last byte is not written by the copy.
              let block := (soc.buf.getD []).take soc.bufLen ++ [NUL]
              match malloc world with
              | (false, world) => (-1, .block block, soc.released, world)
              | (true, world) =>
                  (r, .block (block.set size.toNat NUL), { soc with buf := some [NUL], bufLen := 0 }, world)

/-- A positive descriptor takes precedence over the SSL handle. -/
def initSocket (soc : SocketT) (sd : Int) (ssl : Bool) (world : World) : Int × SocketT × World :=
  if 0 < sd ∨ ssl then
    let soc := if 0 < sd then { soc with sd := sd, fn := false } else { soc with sd := 0, fn := true }
    match malloc world with
    | (false, world) => (-1, { soc with buf := none, bufLen := 0 }, world)
    | (true, world) => (0, { soc with buf := some [NUL], bufLen := 0 }, world)
  else (-1, soc, world)

def freeSocket (soc : SocketT) : SocketT := { soc with fn := false, buf := none, bufLen := 0 }

/-- The buffer of a socket holds the given bytes and a terminator. -/
def Holds (soc : SocketT) (bytes : Bytes) : Prop :=
  soc.buf = some (bytes ++ [NUL]) ∧ soc.bufLen = bytes.length

/-- These are the bytes that the buffer of a socket holds. -/
def held (soc : SocketT) : Bytes := (soc.buf.getD []).take soc.bufLen

theorem Holds.held_eq {soc : SocketT} {bytes : Bytes} (holds : Holds soc bytes) : held soc = bytes := by
  simp [held, holds.1, holds.2]

/-- No allocation fails from here on. -/
def Plenty (world : World) : Prop := world.allocs = []

theorem malloc_plenty {world : World} (plenty : Plenty world) : malloc world = (true, world) := by
  rw [malloc, show world.allocs = [] from plenty]

/-- The cut gives the first row and keeps the bytes behind its newline. -/
theorem getRowAndCut_row {soc : SocketT} {world : World} {row rest : Bytes}
    (holds : Holds soc (row ++ LF :: rest)) (plenty : Plenty world) (absent : LF ∉ row)
    (clean : NUL ∉ row) :
    ∃ next, getRowAndCut soc world = (some row, next, world) ∧ Holds next rest := by
  obtain ⟨memory, length⟩ := holds
  have split : row ++ LF :: rest ++ [NUL] = row ++ LF :: (rest ++ [NUL]) := by simp
  have cut : (row ++ LF :: (rest ++ [NUL])).set row.length NUL = row ++ NUL :: (rest ++ [NUL]) := by
    simp
  have rval : cstr (row ++ NUL :: (rest ++ [NUL])) = row := cstr_append_nul clean _
  have left : sizeSub (sizeSub soc.bufLen row.length) 1 = rest.length := by
    rw [sizeSub_of_le (by rw [length]; simp), sizeSub_of_le (by rw [length]; simp)]
    rw [length]
    simp only [List.length_append, List.length_cons]
    omega
  have tail : ((row ++ NUL :: (rest ++ [NUL])).drop (row.length + 1)).take rest.length = rest := by
    rw [← List.drop_drop]
    simp
  refine ⟨{ soc with buf := some (rest ++ [NUL]), bufLen := rest.length }, ?_, rfl, rfl⟩
  simp only [getRowAndCut, memory, split, strchr_split absent clean (by decide), malloc_plenty plenty, cut,
    rval, left, tail]

/-- Without a newline in its C string the buffer does not change. -/
theorem getRowAndCut_none {soc : SocketT} {world : World} {memory : Bytes} (block : soc.buf = some memory)
    (absent : strchr memory LF = none) : getRowAndCut soc world = (none, soc, world) := by
  simp only [getRowAndCut, block, absent]

/-- The cut succeeds exactly when a row without NUL is complete. -/
theorem getRowAndCut_cases {soc : SocketT} {world : World} {bytes : Bytes} (holds : Holds soc bytes)
    (plenty : Plenty world) :
    getRowAndCut soc world = (none, soc, world) ∨
      ∃ row rest next, bytes = row ++ LF :: rest ∧ LF ∉ row ∧ NUL ∉ row ∧
        getRowAndCut soc world = (some row, next, world) ∧ Holds next rest := by
  have string : strchr (bytes ++ [NUL]) LF = strchr bytes LF := strchr_append_terminator bytes [] LF
  cases found : strchr bytes LF with
  | none => exact Or.inl (getRowAndCut_none holds.1 (string.trans found))
  | some index =>
      obtain ⟨row, rest, split, -, absent, clean⟩ := strchr_some found
      obtain ⟨next, cut, kept⟩ := getRowAndCut_row (split ▸ holds) plenty absent clean
      exact Or.inr ⟨row, rest, next, split, absent, clean, cut, kept⟩

/-- A read with memory at hand fails or appends a piece to the buffer. -/
theorem increaseSoc_cases {soc : SocketT} {world : World} {bytes : Bytes} (size : Nat)
    (holds : Holds soc bytes) (plenty : Plenty world) :
    (∃ r next, increaseSoc soc size world = (r, soc, next) ∧ r ≤ 0) ∨
      ∃ piece after next, receive size world.reads = (some piece, next.reads) ∧ piece ≠ [] ∧
        increaseSoc soc size world = ((piece.length : Int), after, next) ∧
        Holds after (bytes ++ piece) ∧ next.received = world.received ++ piece ∧ Plenty next := by
  obtain ⟨memory, length⟩ := holds
  simp only [increaseSoc, memory, malloc_plenty plenty]
  rcases outcome : receive size world.reads with ⟨_ | piece, reads⟩
  · exact Or.inl ⟨-1, { world with reads := reads }, rfl, by decide⟩
  · by_cases blank : piece = []
    · subst blank
      exact Or.inl ⟨0, _, rfl, le_refl _⟩
    · right
      have later : Plenty { world with reads := reads, received := world.received ++ piece } := plenty
      refine ⟨piece, { soc with
        buf := some (bytes ++ piece ++ [NUL])
        bufLen := soc.bufLen + piece.length },
        { world with reads := reads, received := world.received ++ piece }, rfl, blank, ?_, ?_, rfl, later⟩
      · simp [blank, malloc_plenty later, length]
      · simp [Holds, length]

end Piercloud.Socket
