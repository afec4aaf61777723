import Piercloud.Proof.Socket.Kept

/-
This file shows when a row read can repeat a cut that failed.
-/

namespace Piercloud.Socket

open CLib

/-- A newline is found, its row is copied, and the memory for the bytes behind it is missing. -/
def Spoilt (soc : SocketT) (world : World) : Prop :=
  (∃ memory tail, soc.buf = some memory ∧ strchr memory LF = some tail) ∧ world.allocs.take 2 = [true, false]

/-- A cut that fails leaves the buffer alone. -/
def Restored (soc : SocketT) (world : World) : Prop := ∀ next w, getRowAndCut soc world = (none, next, w) →
  next.buf = soc.buf ∧ next.bufLen = soc.bufLen

/-- Every failing cut of a row read leaves the buffer alone, and a cut with memory gives the row that a first cut with
memory gives. -/
structure Undone (soc : SocketT) (world : World) : Prop where
  intact : ∀ soc' world', CutAt soc world soc' world' → Restored soc' world'
  retried : ∀ soc' world' row, CutAt soc world soc' world' → false ∉ world'.allocs.take 2 →
    (getRowAndCut soc { world with allocs := [] }).1 = some row → (getRowAndCut soc' world').1 = some row

section Cuts

variable {soc : SocketT} {world : World}

theorem Holds.newline {row rest : Bytes} (holds : Holds soc (row ++ LF :: rest)) (absent : LF ∉ row)
    (clean : NUL ∉ row) : ∃ memory tail, soc.buf = some memory ∧ strchr memory LF = some tail := by
  refine ⟨_, row.length, holds.1, ?_⟩
  rw [strchr_append_terminator, strchr_split absent clean (by decide)]

/-- A failing cut leaves the socket alone unless it is spoilt. -/
theorem getRowAndCut_undone {bytes : Bytes} (holds : Holds soc bytes) {next : SocketT} {w : World}
    (cut : getRowAndCut soc world = (none, next, w)) (safe : ¬ Spoilt soc world) : next = soc := by
  obtain ⟨-, waits⟩ | ⟨row, rest, rfl, absent, clean, ⟨-, denied⟩ | ⟨missing, -⟩ | ⟨-, after, done, -⟩⟩ :=
    getRowAndCut_exits holds world
  · exact (Prod.mk.inj (Prod.mk.inj (waits.symm.trans cut)).2).1.symm
  · exact (Prod.mk.inj (Prod.mk.inj (denied.symm.trans cut)).2).1.symm
  · exact absurd ⟨holds.newline absent clean, missing⟩ safe
  · rw [done] at cut
    simp at cut

/-- A spoilt cut fails and takes the newline out of the buffer. -/
theorem getRowAndCut_spoilt {bytes : Bytes} (holds : Holds soc bytes) (spoilt : Spoilt soc world) :
    ∃ next w, getRowAndCut soc world = (none, next, w) ∧ next.buf ≠ soc.buf := by
  obtain ⟨⟨memory, tail, block, found⟩, missing⟩ := spoilt
  obtain rfl : bytes ++ [NUL] = memory := Option.some.inj (holds.1.symm.trans block)
  rw [strchr_append_terminator] at found
  obtain ⟨absent, -⟩ | ⟨row, rest, rfl, -, -, ⟨denied, -⟩ | ⟨-, cut⟩ | ⟨granted, -⟩⟩ := getRowAndCut_exits holds world
  · rw [absent] at found
    contradiction
  · rw [((take_two_spoilt _).mp missing).1] at denied
    contradiction
  · refine ⟨_, _, cut, ?_⟩
    rw [holds.1]
    simp [NUL, LF]
  · simp [missing] at granted

theorem restored_iff {bytes : Bytes} (holds : Holds soc bytes) : Restored soc world ↔ ¬ Spoilt soc world := by
  constructor
  · intro restored spoilt
    obtain ⟨next, w, cut, changed⟩ := getRowAndCut_spoilt holds spoilt
    exact changed (restored next w cut).1
  · intro safe next w cut
    rw [getRowAndCut_undone holds cut safe]
    exact ⟨rfl, rfl⟩

/-- A cut with memory gives a row exactly when it stands at the front of the buffer. -/
theorem getRowAndCut_row_iff {bytes row : Bytes} (holds : Holds soc bytes) (granted : false ∉ world.allocs.take 2) :
    (getRowAndCut soc world).1 = some row ↔ ∃ rest, bytes = row ++ LF :: rest ∧ LF ∉ row ∧ NUL ∉ row := by
  obtain ⟨none, waits⟩ | ⟨row', rest, rfl, absent, clean, ⟨denied, -⟩ | ⟨missing, -⟩ | ⟨-, after, cut, -⟩⟩ :=
    getRowAndCut_exits holds world
  · rw [waits]
    apply iff_of_false (by simp)
    rintro ⟨rest, rfl, absent, clean⟩
    rw [strchr_split absent clean (by decide)] at none
    contradiction
  · exact absurd ((false_mem_take_two _).mpr (Or.inl denied)) granted
  · simp [missing] at granted
  · rw [cut]
    constructor
    · intro same
      obtain rfl := Option.some.inj same
      exact ⟨rest, rfl, absent, clean⟩
    · rintro ⟨rest', split, absent', -⟩
      exact congrArg some (split_unique absent absent' split).1

/-- Without a spoilt cut the buffer in front of each cut begins with the bytes in front of the first one. -/
theorem CutAt.grows {bytes : Bytes} {soc' : SocketT} {world' : World} (cutAt : CutAt soc world soc' world')
    (holds : Holds soc bytes) (safe : ∀ s w, CutAt soc world s w → ¬ Spoilt s w) :
    ∃ more, Holds soc' (bytes ++ more) := by
  induction cutAt generalizing bytes with
  | here => exact ⟨[], by simpa using holds⟩
  | later cut grown positive _ ih =>
      obtain rfl := getRowAndCut_undone holds cut (safe _ _ .here)
      obtain ⟨_, after, w', piece, grown', kept⟩ := increaseSoc_holds holds (show 0 < readBufSize by decide) _
      obtain ⟨-, rfl, rfl⟩ := by simpa using grown.symm.trans grown'
      obtain ⟨more, holds'⟩ := ih kept fun s w behind => safe s w (.later cut grown positive behind)
      exact ⟨piece ++ more, by simpa using holds'⟩

end Cuts

/-- A failing cut leaves the buffer alone if and only if it is not spoilt, and the failing cuts of a row read can be
repeated if and only if none of them is. -/
theorem getRowAndCut_undone_iff {soc : SocketT} {bytes : Bytes} (holds : Holds soc bytes) (world : World) :
    (Restored soc world ↔ ¬ Spoilt soc world) ∧
      (Undone soc world ↔ ∀ soc' world', CutAt soc world soc' world' → ¬ Spoilt soc' world') := by
  refine ⟨restored_iff holds, ?_⟩
  have each {soc' : SocketT} {world' : World} (cutAt : CutAt soc world soc' world') :
      Restored soc' world' ↔ ¬ Spoilt soc' world' := by
    obtain ⟨bytes', holds'⟩ := cutAt.holds holds
    exact restored_iff holds'
  constructor
  · intro undone soc' world' cutAt
    exact (each cutAt).mp (undone.intact soc' world' cutAt)
  · intro safe
    constructor
    · intro soc' world' cutAt
      exact (each cutAt).mpr (safe soc' world' cutAt)
    · intro soc' world' row cutAt plenty first
      obtain ⟨rest, rfl, absent, clean⟩ := (getRowAndCut_row_iff holds (by simp)).mp first
      obtain ⟨more, holds'⟩ := cutAt.grows holds safe
      rw [List.append_assoc, List.cons_append] at holds'
      exact (getRowAndCut_row_iff holds' plenty).mpr ⟨rest ++ more, rfl, absent, clean⟩

/-- The first cut fails in front of the copy, and a cut behind the next byte can be repeated. -/
theorem getRowAndCut_undone_copy :
    Undone ⟨5, false, some [97, LF, 98, NUL], 3⟩ ⟨[.data [99]], [false], []⟩ := by
  refine (getRowAndCut_undone_iff (show Holds _ [97, LF, 98] from ⟨rfl, rfl⟩) _).2.mpr ?_
  have failed : getRowAndCut ⟨5, false, some [97, LF, 98, NUL], 3⟩ ⟨[.data [99]], [false], []⟩ =
      (none, ⟨5, false, some [97, LF, 98, NUL], 3⟩, ⟨[.data [99]], [], []⟩) := by decide
  have read : increaseSoc ⟨5, false, some [97, LF, 98, NUL], 3⟩ readBufSize ⟨[.data [99]], [], []⟩ =
      (1, ⟨5, false, some [97, LF, 98, 99, NUL], 4⟩, ⟨[], [], [99]⟩) := by decide
  have row : (getRowAndCut ⟨5, false, some [97, LF, 98, 99, NUL], 4⟩ ⟨[], [], [99]⟩).1 = some [97] := by decide
  intro soc' world' cutAt spoilt
  cases cutAt with
  | here => exact absurd spoilt.2 (by decide)
  | later cut grown positive behind =>
      obtain ⟨-, rfl, rfl⟩ := by simpa only [Prod.mk.injEq] using failed.symm.trans cut
      obtain ⟨-, rfl, rfl⟩ := by simpa only [Prod.mk.injEq] using read.symm.trans grown
      cases behind with
      | here => exact absurd spoilt.2 (by decide)
      | later cut' =>
          rw [cut'] at row
          contradiction

/-- The second allocation fails, so the newline stays overwritten, and the row does not come back. -/
theorem getRowAndCut_undone_lost :
    getRowAndCut ⟨5, false, some [97, LF, 98, NUL], 3⟩ ⟨[.data [LF]], [true, false], []⟩ =
        (none, ⟨5, false, some [97, NUL, 98, NUL], 3⟩, ⟨[.data [LF]], [], []⟩) ∧
      (getRowAndCut ⟨5, false, some [97, LF, 98, NUL], 3⟩ ⟨[.data [LF]], [], []⟩).1 = some [97] ∧
      getRowFromSocket ⟨5, false, some [97, LF, 98, NUL], 3⟩ ⟨[.data [LF]], [true, false], []⟩ =
        (-1, none, ⟨5, false, none, 0⟩, ⟨[], [], [LF]⟩) ∧
      ¬ Undone ⟨5, false, some [97, LF, 98, NUL], 3⟩ ⟨[.data [LF]], [true, false], []⟩ := by
  have failed : getRowAndCut ⟨5, false, some [97, LF, 98, NUL], 3⟩ ⟨[.data [LF]], [true, false], []⟩ =
      (none, ⟨5, false, some [97, NUL, 98, NUL], 3⟩, ⟨[.data [LF]], [], []⟩) := by decide
  refine ⟨failed, by decide, by decide, ?_⟩
  intro undone
  have same := (undone.intact _ _ .here _ _ failed).1
  exact absurd same (by decide)

end Piercloud.Socket
