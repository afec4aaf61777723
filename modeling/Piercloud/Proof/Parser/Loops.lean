import Piercloud.Construction.Session
import Piercloud.Proof.Socket.Loops

/-
This file shows that the header loop and the session end by themselves: more fuel changes nothing.
-/

namespace Piercloud.Client

open CLib Liblst Socket

/-- A line takes at least its newline off the buffer. -/
theorem getLineBuffer_shorter {b next : Buffer} {line : Bytes} (found : getLineBuffer b = (some line, next)) :
    next.len < b.len := by
  unfold getLineBuffer at found
  cases index : memchr b.memory LF b.len with
  | none => simp [index] at found
  | some n =>
      have inside : n < b.len := by
        obtain ⟨bound, -⟩ := List.findIdx?_eq_some_iff_getElem.mp index
        rw [List.length_take] at bound
        omega
      simp only [index, Prod.mk.injEq] at found
      rw [← found.2, cutBuf, sizeSub_of_le inside]
      exact Nat.sub_lt (by omega) (by omega)

/-- The fuel of the header loop never runs out, so it stops only in its `ASSERT`. -/
theorem headerLoop_enough (cfg : Config) {fuel fuel' : Nat} {statics : Statics} {buf out : Buffer}
    (enough : buf.len < fuel) (enough' : buf.len < fuel') :
    headerLoop cfg fuel statics buf out = headerLoop cfg fuel' statics buf out := by
  induction fuel generalizing fuel' statics buf out with
  | zero => omega
  | succ fuel ih =>
      obtain ⟨fuel', rfl⟩ : ∃ n, fuel' = n + 1 := ⟨fuel' - 1, by omega⟩
      simp only [headerLoop]
      split
      · rfl
      · rcases found : getLineBuffer buf with ⟨_ | line, next⟩
        · rfl
        · have shorter := getLineBuffer_shorter found
          simp only
          split
          · split
            · exact ih (by omega) (by omega)
            · rfl
          · exact ih (by omega) (by omega)

/-- With memory at hand a block is the result of a successful call for at least one byte. -/
theorem getBufFromSocket_positive {soc soc' : SocketT} {size r : Int} {world world' : World} {bytes memory : Bytes}
    (holds : Holds soc bytes) (plenty : Plenty world)
    (done : getBufFromSocket .freed soc size world = (r, .block memory, soc', world')) : 0 < size ∧ 0 < r := by
  simp only [getBufFromSocket, holds.1, Option.isNone_some, Bool.false_eq_true, or_false] at done
  split at done
  · simp at done
  · split at done
    · simp at done
    · rename_i notNegative notZero
      refine ⟨by omega, ?_⟩
      rcases loop : getBufLoop (world.size + 1) soc size.toNat world with ⟨r', after, next⟩
      simp only [loop] at done
      split at done
      · simp at done
      · rename_i goesOn
        obtain ⟨-, -, -, enough, -⟩ := getBufLoop_bytes holds plenty loop (not_le.mp goesOn)
        simp only [malloc_plenty enough, Prod.mk.injEq] at done
        omega

/-- A row of the wrapper is a row of the call. -/
theorem getRowFromSocket_some {soc soc' : SocketT} {world world' : World} {line : Bytes}
    (row : getRowFromSocket soc world = (some line, soc', world')) :
    ∃ r, Socket.getRowFromSocket soc world = (r, some line, soc', world') := by
  unfold getRowFromSocket at row
  rcases call : Socket.getRowFromSocket soc world with ⟨r, line', after, between⟩
  simp only [call] at row
  split at row
  · simp at row
  · obtain ⟨rfl, rfl, rfl⟩ := by simpa only [Prod.mk.injEq] using row
    exact ⟨r, rfl⟩

/-- A row takes at least its newline. -/
theorem getRowFromSocket_shorter {soc soc' : SocketT} {world world' : World} {bytes line : Bytes}
    (holds : Holds soc bytes) (plenty : Plenty world)
    (row : getRowFromSocket soc world = (some line, soc', world')) :
    ∃ rest, Holds soc' rest ∧ Plenty world' ∧ world'.size + rest.length < world.size + bytes.length := by
  obtain ⟨r, called⟩ := getRowFromSocket_some row
  obtain ⟨fresh, rest, received, split, kept, enough⟩ := getRowFromSocket_row holds plenty called
  refine ⟨rest, kept, enough, ?_⟩
  have spent := getRowFromSocket_spends soc world
  rw [called] at spent
  have sizes := congrArg List.length split
  simp only [World.budget, received, List.length_append, List.length_cons] at spent sizes
  omega

/-- A block takes the whole buffer. -/
theorem getBufFromSocket_shorter {soc soc' : SocketT} {size r : Int} {world world' : World} {bytes memory : Bytes}
    (holds : Holds soc bytes) (plenty : Plenty world)
    (taken : getBufFromSocket .freed soc size world = (r, .block memory, soc', world')) :
    Holds soc' [] ∧ Plenty world' ∧ world'.size ≤ world.size + bytes.length := by
  obtain ⟨counted, positive⟩ := getBufFromSocket_positive holds plenty taken
  obtain ⟨size, rfl⟩ := Int.eq_ofNat_of_zero_le counted.le
  obtain ⟨fresh, received, kept, enough, -⟩ := getBufFromSocket_block holds plenty taken positive
  refine ⟨kept, enough, ?_⟩
  have spent := getBufFromSocket_spends .freed soc size world
  rw [taken] at spent
  simp only [World.budget, received, List.length_append] at spent
  omega

/-- An iteration that goes on takes at least one byte. -/
theorem readInput_spends {soc soc' : SocketT} {world world' : World} {bytes : Bytes} {input : Input}
    (holds : Holds soc bytes) (plenty : Plenty world) (read : readInput soc world = (input, soc', world'))
    (goesOn : ∀ ending, input ≠ .ended ending) :
    ∃ bytes', Holds soc' bytes' ∧ Plenty world' ∧
      world'.size + bytes'.length < world.size + bytes.length := by
  unfold readInput at read
  rcases row : getRowFromSocket soc world with ⟨_ | line, soc₁, world₁⟩
  · simp only [row, Prod.mk.injEq] at read
    exact absurd read.1.symm (goesOn _)
  · obtain ⟨rest, kept, enough, smaller⟩ := getRowFromSocket_shorter holds plenty row
    simp only [row] at read
    split at read
    · obtain ⟨-, rfl, rfl⟩ := by simpa only [Prod.mk.injEq] using read
      exact ⟨rest, kept, enough, smaller⟩
    · generalize toSize (strtol (cstr (chopStr (line ++ [NUL]))) 16) = len at read
      rcases taken : getBufFromSocket .freed soc₁ (toSigned len) world₁ with ⟨r, _ | _ | memory, soc₂, world₂⟩
      · simp only [taken, Prod.mk.injEq] at read
        exact absurd read.1.symm (goesOn _)
      · simp only [taken, Prod.mk.injEq] at read
        exact absurd read.1.symm (goesOn _)
      · obtain ⟨kept', enough', fewer⟩ := getBufFromSocket_shorter kept enough taken
        have last : soc₂ = soc' ∧ world₂ = world' := by
          simp only [taken] at read
          split at read
          · exact Prod.mk.inj (Prod.mk.inj read).2
          · exact Prod.mk.inj (Prod.mk.inj read).2
        obtain ⟨rfl, rfl⟩ := last
        exact ⟨[], kept', enough', by rw [List.length_nil]; omega⟩

/-- The fuel of a session never runs out. -/
theorem doReadLoop_enough (cfg : Config) {fuel fuel' : Nat} {s : State} {soc : SocketT} {world : World}
    {bytes : Bytes} (holds : Holds soc bytes) (plenty : Plenty world)
    (enough : world.size + bytes.length < fuel) (enough' : world.size + bytes.length < fuel') :
    doReadLoop cfg fuel s soc world = doReadLoop cfg fuel' s soc world := by
  induction fuel generalizing fuel' s soc world bytes with
  | zero => omega
  | succ fuel ih =>
      obtain ⟨fuel', rfl⟩ : ∃ n, fuel' = n + 1 := ⟨fuel' - 1, by omega⟩
      simp only [doReadLoop]
      rcases read : readInput soc world with ⟨input, soc', world'⟩
      cases input with
      | ended ending => rfl
      | skipped =>
          obtain ⟨bytes', holds', plenty', smaller⟩ := readInput_spends holds plenty read (by simp)
          exact ih holds' plenty' (by omega) (by omega)
      | data data =>
          obtain ⟨bytes', holds', plenty', smaller⟩ := readInput_spends holds plenty read (by simp)
          simp only
          rcases chunk cfg s data with _ | ⟨next, output⟩
          · rfl
          · simp only
            rw [ih holds' plenty' (by omega) (show world'.size + bytes'.length < fuel' by omega)]

end Piercloud.Client
