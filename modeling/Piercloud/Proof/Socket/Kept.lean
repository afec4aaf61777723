import Piercloud.Proof.Socket.Rows

/-
This file shows what holds of a socket between any calls of its four functions.
-/

namespace Piercloud.Socket

open CLib

/-- A socket has no buffer and no length, or its buffer holds some bytes and a terminator. -/
def Kept (soc : SocketT) : Prop := soc.buf = none ∧ soc.bufLen = 0 ∨ ∃ bytes, Holds soc bytes

/-- The two subtractions behind a newline stay above zero. -/
def NoWrap (soc : SocketT) : Prop := ∀ memory tail, soc.buf = some memory → strchr memory LF = some tail →
  (cstr (memory.set tail NUL)).length + 1 ≤ soc.bufLen

/-- A row read calls `GetRowAndCut` in these states. -/
inductive CutAt : SocketT → World → SocketT → World → Prop where
  | here {soc : SocketT} {world : World} : CutAt soc world soc world
  | later {soc next after soc' : SocketT} {world w w' world' : World} {r : Int}
      (cut : getRowAndCut soc world = (none, next, w)) (grown : increaseSoc next readBufSize w = (r, after, w'))
      (positive : 0 < r) (behind : CutAt after w' soc' world') : CutAt soc world soc' world'

theorem kept_released (soc : SocketT) : Kept soc.released := Or.inl ⟨rfl, rfl⟩

section Steps

variable {soc : SocketT} {world : World} {bytes : Bytes}

theorem Holds.noWrap (holds : Holds soc bytes) : NoWrap soc := by
  intro memory tail block found
  obtain rfl : bytes ++ [NUL] = memory := Option.some.inj (holds.1.symm.trans block)
  rw [strchr_append_terminator] at found
  obtain ⟨row, rest, rfl, rfl, -, clean⟩ := strchr_some found
  have cut : (row ++ LF :: rest ++ [NUL]).set row.length NUL = row ++ NUL :: (rest ++ [NUL]) := by simp
  rw [cut, cstr_append_nul clean, holds.2]
  simp only [List.length_append, List.length_cons]
  omega

/-- Behind every exit of the cut the buffer holds some bytes. -/
theorem getRowAndCut_holds (holds : Holds soc bytes) (world : World) :
    ∃ row next w bytes', getRowAndCut soc world = (row, next, w) ∧ Holds next bytes' := by
  obtain ⟨-, waits⟩ | ⟨row, rest, rfl, -, -, ⟨-, denied⟩ | ⟨-, spoilt⟩ | ⟨-, after, cut, kept⟩⟩ :=
    getRowAndCut_exits holds world
  · exact ⟨_, _, _, bytes, waits, holds⟩
  · exact ⟨_, _, _, _, denied, holds⟩
  · refine ⟨_, _, _, row ++ NUL :: rest, spoilt, rfl, ?_⟩
    rw [holds.2]
    simp
  · exact ⟨_, _, _, rest, cut, kept⟩

/-- A read leaves the bytes alone or appends to them. -/
theorem increaseSoc_holds (holds : Holds soc bytes) {size : Nat} (positive : 0 < size) (world : World) :
    ∃ r next w more, increaseSoc soc size world = (r, next, w) ∧ Holds next (bytes ++ more) := by
  obtain ⟨r, w, stuck, -⟩ | ⟨piece, w, read, -⟩ := increaseSoc_outcome holds.1 positive world
  · exact ⟨r, soc, w, [], stuck, by simpa using holds⟩
  · exact ⟨_, _, w, piece, read, holds.grown holds.1 piece⟩

/-- In front of every cut the buffer holds some bytes. -/
theorem CutAt.holds {soc' : SocketT} {world' : World} (cutAt : CutAt soc world soc' world') (holds : Holds soc bytes) :
    ∃ bytes', Holds soc' bytes' := by
  induction cutAt generalizing bytes with
  | here => exact ⟨bytes, holds⟩
  | later cut grown _ _ ih =>
      obtain ⟨_, next, w, bytes', cut', kept⟩ := getRowAndCut_holds holds _
      obtain ⟨-, rfl, rfl⟩ := by simpa using cut.symm.trans cut'
      obtain ⟨_, after, w', more, grown', kept'⟩ := increaseSoc_holds kept (show 0 < readBufSize by decide) _
      obtain ⟨-, rfl, rfl⟩ := by simpa using grown.symm.trans grown'
      exact ih kept'

/-- A cut without a buffer is the only one. -/
theorem CutAt.gone {soc' : SocketT} {world' : World} (cutAt : CutAt soc world soc' world') (none : soc.buf = none) :
    soc'.buf = .none := by
  induction cutAt with
  | here => exact none
  | later cut grown positive _ _ =>
      simp only [getRowAndCut, none, Prod.mk.injEq, true_and] at cut
      obtain ⟨rfl, rfl⟩ := cut
      simp only [increaseSoc, none, Prod.mk.injEq] at grown
      omega

/-- The induction is on the fuel. A failing exit frees the buffer. -/
theorem getRowLoop_kept (fuel : Nat) (r : Int) (holds : Holds soc bytes) (world : World) :
    Kept (getRowLoop fuel r soc world).2.2.1 := by
  induction fuel generalizing r soc world bytes with
  | zero => exact Or.inr ⟨bytes, holds⟩
  | succ fuel ih =>
      obtain ⟨row, next, w, bytes', cut, kept⟩ := getRowAndCut_holds holds world
      obtain ⟨r', after, w', more, grown, kept'⟩ := increaseSoc_holds kept (show 0 < readBufSize by decide) w
      rw [getRowLoop, cut]
      cases row with
      | some row => exact Or.inr ⟨bytes', kept⟩
      | none =>
          simp only [grown]
          split
          · exact kept_released after
          · exact ih r' kept' w'

theorem getBufLoop_kept (fuel size : Nat) (holds : Holds soc bytes) (world : World) :
    ∃ r next w bytes', getBufLoop fuel soc size world = (r, next, w) ∧ Holds next bytes' := by
  induction fuel generalizing soc world bytes with
  | zero => exact ⟨_, _, _, bytes, rfl, holds⟩
  | succ fuel ih =>
      rw [getBufLoop]
      split
      · rename_i less
        obtain ⟨r, after, w, more, grown, kept⟩ := increaseSoc_holds holds (Nat.sub_pos_of_lt less) world
        simp only [grown]
        split
        · exact ⟨_, _, _, _, rfl, kept⟩
        · exact ih kept w
      · exact ⟨_, _, _, bytes, rfl, holds⟩

/-- Without a buffer a row read fails at once. -/
theorem getRowFromSocket_gone (none : soc.buf = none) (world : World) :
    getRowFromSocket soc world = (-1, .none, soc, world) := by
  rw [getRowFromSocket, none]
  rfl

theorem getBufFromSocket_gone (none : soc.buf = none) (buf : Pointer) (size : Int) (world : World) :
    getBufFromSocket buf soc size world = (-1, .null, soc, world) := by
  have refused : size < 0 ∨ soc.buf.isNone := Or.inr (by simp [none])
  rw [getBufFromSocket, if_pos refused]

theorem getRowFromSocket_kept (kept : Kept soc) (world : World) : Kept (getRowFromSocket soc world).2.2.1 := by
  rcases kept with ⟨none, empty⟩ | ⟨bytes, holds⟩
  · rw [getRowFromSocket_gone none]
    exact Or.inl ⟨none, empty⟩
  · rw [getRowFromSocket, holds.1]
    exact getRowLoop_kept _ _ holds world

theorem getBufFromSocket_kept (kept : Kept soc) (buf : Pointer) (size : Int) (world : World) :
    Kept (getBufFromSocket buf soc size world).2.2.1 := by
  rcases kept with ⟨none, empty⟩ | ⟨bytes, holds⟩
  · rw [getBufFromSocket_gone none]
    exact Or.inl ⟨none, empty⟩
  · have same : Kept soc := Or.inr ⟨bytes, holds⟩
    rw [getBufFromSocket]
    split
    · exact same
    split
    · exact same
    obtain ⟨r, next, w, bytes', done, -⟩ := getBufLoop_kept (world.size + 1) size.toNat holds world
    simp only [done, malloc_eq]
    split
    · exact kept_released next
    split
    · exact kept_released next
    split
    · exact kept_released next
    · exact Or.inr ⟨[], rfl, rfl⟩

/-- A successful `InitSocket` gives an empty buffer. -/
theorem initSocket_opened {soc' : SocketT} {world' : World} {sd : Int} {ssl : Bool}
    (ready : initSocket soc sd ssl world = (0, soc', world')) : Holds soc' [] := by
  simp only [initSocket, malloc_eq] at ready
  split at ready
  · split at ready
    · simp at ready
    · obtain ⟨-, rfl, -⟩ := Prod.mk.injEq .. ▸ ready
      exact ⟨rfl, rfl⟩
  · simp at ready

theorem initSocket_kept (kept : Kept soc) (sd : Int) (ssl : Bool) (world : World) :
    Kept (initSocket soc sd ssl world).2.1 := by
  rw [initSocket]
  split
  · simp only [malloc_eq]
    split
    · exact Or.inl ⟨rfl, rfl⟩
    · exact Or.inr ⟨[], rfl, rfl⟩
  · exact kept

end Steps

/-- The four functions of `socket.c`, with their arguments. -/
inductive Command where
  | init (sd : Int) (ssl : Bool)
  | row
  | buf (buf : Pointer) (size : Int)
  | free
  deriving DecidableEq, Repr

def perform (s : SocketT × World) : Command → SocketT × World
  | .init sd ssl => (initSocket s.1 sd ssl s.2).2
  | .row => (getRowFromSocket s.1 s.2).2.2
  | .buf buf size => (getBufFromSocket buf s.1 size s.2).2.2
  | .free => (freeSocket s.1, s.2)

def Opens : Command → Prop
  | .init _ _ => True
  | _ => False

/-- Every call keeps the socket. -/
theorem perform_kept {s : SocketT × World} (kept : Kept s.1) (c : Command) : Kept (perform s c).1 := by
  cases c with
  | init sd ssl => exact initSocket_kept kept sd ssl s.2
  | row => exact getRowFromSocket_kept kept s.2
  | buf buf size => exact getBufFromSocket_kept kept buf size s.2
  | free => exact Or.inl ⟨rfl, rfl⟩

theorem performed_kept {s : SocketT × World} (kept : Kept s.1) (commands : List Command) :
    Kept (commands.foldl perform s).1 := by
  induction commands generalizing s with
  | nil => exact kept
  | cons c commands ih => exact ih (perform_kept kept c)

/-- Without a buffer every call but `InitSocket` leaves the world alone and gives no buffer. -/
theorem perform_gone {s : SocketT × World} (none : s.1.buf = none) {c : Command} (later : ¬ Opens c) :
    (perform s c).1.buf = .none ∧ (perform s c).2 = s.2 := by
  cases c with
  | init sd ssl => exact absurd trivial later
  | row =>
      rw [perform, getRowFromSocket_gone none]
      exact ⟨none, rfl⟩
  | buf buf size =>
      rw [perform, getBufFromSocket_gone none]
      exact ⟨none, rfl⟩
  | free => exact ⟨rfl, rfl⟩

theorem performed_gone {s : SocketT × World} (none : s.1.buf = none) {later : List Command}
    (all : ∀ c ∈ later, ¬ Opens c) : (later.foldl perform s).1.buf = .none ∧ (later.foldl perform s).2 = s.2 := by
  induction later generalizing s with
  | nil => exact ⟨none, rfl⟩
  | cons c later ih =>
      obtain ⟨gone, same⟩ := perform_gone none (all c (by simp))
      rw [List.foldl_cons, ← same]
      exact ih gone fun other member => all other (by simp [member])

/-- Behind any calls the socket is kept, a row read does not wrap a length, and without a buffer both reads fail
without reading until the next `InitSocket`. -/
theorem socket_kept {soc soc' : SocketT} {world world' : World} {sd : Int} {ssl : Bool}
    (ready : initSocket soc sd ssl world = (0, soc', world')) (commands : List Command) {s : SocketT × World}
    (reached : commands.foldl perform (soc', world') = s) :
    (s.1.buf = none ∧ s.1.bufLen = 0 ∨ ∃ bytes, s.1.buf = some (bytes ++ [NUL]) ∧ s.1.bufLen = bytes.length) ∧
      (∀ cut w, CutAt s.1 s.2 cut w → NoWrap cut) ∧
      (s.1.buf = none → ∀ (later : List Command) (t : SocketT × World), (∀ c ∈ later, ¬ Opens c) →
        later.foldl perform s = t → t.2 = s.2 ∧ getRowFromSocket t.1 t.2 = (-1, none, t.1, t.2) ∧
        ∀ buf size, getBufFromSocket buf t.1 size t.2 = (-1, .null, t.1, t.2)) := by
  have start : Kept soc' := Or.inr ⟨[], initSocket_opened ready⟩
  have kept : Kept s.1 := reached ▸ performed_kept start commands
  refine ⟨kept, ?_, ?_⟩
  · intro cut w cutAt
    rcases kept with ⟨none, -⟩ | ⟨bytes, holds⟩
    · intro memory tail block
      rw [cutAt.gone none] at block
      contradiction
    · obtain ⟨bytes', holds'⟩ := cutAt.holds holds
      exact holds'.noWrap
  · intro none later t all run
    subst run
    obtain ⟨gone, same⟩ := performed_gone none all
    exact ⟨same, getRowFromSocket_gone gone _, fun buf size => getBufFromSocket_gone gone buf size _⟩

/-- The row leaves one byte behind, and the read of three bytes fails at the end of the stream. -/
theorem socket_kept_end :
    initSocket ⟨0, false, none, 0⟩ 5 false ⟨[.data [97, LF, 98]], [], []⟩ =
        (0, ⟨5, false, some [NUL], 0⟩, ⟨[.data [97, LF, 98]], [], []⟩) ∧
      [Command.row, .buf .null 3].foldl perform (⟨5, false, some [NUL], 0⟩, ⟨[.data [97, LF, 98]], [], []⟩) =
        (⟨5, false, none, 0⟩, ⟨[], [], [97, LF, 98]⟩) ∧
      getRowFromSocket ⟨5, false, none, 0⟩ ⟨[], [], [97, LF, 98]⟩ =
        (-1, none, ⟨5, false, none, 0⟩, ⟨[], [], [97, LF, 98]⟩) := by
  have ready : initSocket ⟨0, false, none, 0⟩ 5 false ⟨[.data [97, LF, 98]], [], []⟩ =
      (0, ⟨5, false, some [NUL], 0⟩, ⟨[.data [97, LF, 98]], [], []⟩) := by decide
  have reached : [Command.row, .buf .null 3].foldl perform
      (⟨5, false, some [NUL], 0⟩, ⟨[.data [97, LF, 98]], [], []⟩) =
      (⟨5, false, none, 0⟩, ⟨[], [], [97, LF, 98]⟩) := by decide
  have behind := (socket_kept ready _ reached).2.2 rfl [] _ (by simp) rfl
  exact ⟨ready, reached, behind.2.1⟩

end Piercloud.Socket
