import Piercloud.Proof.Socket.Conservation

/-
This file shows that the loops of `socket.c` end by themselves: more fuel changes nothing.
-/

namespace Piercloud.Socket

open CLib

/-- The bytes that the reads have given and the size of the coming outcomes never grow together. -/
def World.budget (world : World) : Nat := world.size + world.received.length

/-- An allocation changes only the list of the allocations. -/
theorem malloc_world (world : World) : ∃ ok allocs, malloc world = (ok, { world with allocs := allocs }) := by
  unfold malloc
  split
  · exact ⟨true, world.allocs, rfl⟩
  · exact ⟨_, _, rfl⟩

/-- A read takes its bytes out of the outcomes. -/
theorem receive_size (size : Nat) (reads : List ReadOutcome) :
    (((receive size reads).2.map ReadOutcome.weight).sum + ((receive size reads).1.getD []).length) ≤
      (reads.map ReadOutcome.weight).sum := by
  induction reads with
  | nil => simp [receive]
  | cons outcome reads ih =>
      cases outcome with
      | again =>
          simp only [receive, List.map_cons, List.sum_cons]
          omega
      | failed => simp [receive]
      | data whole =>
          simp only [receive]
          split
          · simp only [Option.getD_some, List.map_cons, List.sum_cons, ReadOutcome.weight]
            omega
          · simp only [Option.getD_some, List.map_cons, List.sum_cons, ReadOutcome.weight, List.length_take,
              List.length_drop]
            omega

/-- A read spends what it gives. -/
theorem increaseSoc_spends (soc : SocketT) (size : Nat) (world : World) :
    (increaseSoc soc size world).2.2.budget ≤ world.budget ∧
      (0 < (increaseSoc soc size world).1 → (increaseSoc soc size world).2.2.size < world.size) := by
  have failure : ¬ (0 : Int) < -1 := by decide
  unfold increaseSoc
  cases soc.buf with
  | none => exact ⟨le_refl _, fun grown => absurd grown failure⟩
  | some memory =>
      obtain ⟨ok, allocs, first⟩ := malloc_world world
      simp only [first]
      cases ok with
      | false => exact ⟨le_refl _, fun grown => absurd grown failure⟩
      | true =>
          have spent := receive_size size world.reads
          rcases read : receive size world.reads with ⟨_ | piece, reads⟩
          · rw [read] at spent
            simp only [Option.getD_none, List.length_nil] at spent
            simp only [read]
            exact ⟨by simp only [World.budget, World.size]; omega, fun grown => absurd grown failure⟩
          · rw [read, Option.getD_some] at spent
            simp only at spent
            simp only [read]
            split
            · exact ⟨by simp only [World.budget, World.size, List.length_append]; omega,
                fun grown => absurd grown (lt_irrefl 0)⟩
            · rename_i real
              have more : 0 < piece.length := by
                rw [List.length_pos_iff]
                simpa using real
              obtain ⟨ok', allocs', second⟩ := malloc_world
                { reads := reads, allocs := allocs, received := world.received ++ piece }
              simp only [second]
              cases ok' <;> simp only [World.budget, World.size, List.length_append] <;> omega

/-- The cut takes nothing from the outcomes. -/
theorem getRowAndCut_world (soc : SocketT) (world : World) :
    ∃ row after allocs, getRowAndCut soc world = (row, after, { world with allocs := allocs }) := by
  unfold getRowAndCut
  split
  · exact ⟨_, _, world.allocs, rfl⟩
  · split
    · exact ⟨_, _, world.allocs, rfl⟩
    · obtain ⟨ok, allocs, first⟩ := malloc_world world
      simp only [first]
      cases ok with
      | false => exact ⟨_, _, _, rfl⟩
      | true =>
          obtain ⟨ok', allocs', second⟩ := malloc_world { world with allocs := allocs }
          simp only [second]
          cases ok' with
          | false => exact ⟨_, _, _, rfl⟩
          | true => exact ⟨_, _, _, rfl⟩

/-- The fuel of the row loop never runs out. -/
theorem getRowLoop_enough {fuel fuel' : Nat} {r : Int} {soc : SocketT} {world : World}
    (enough : world.size < fuel) (enough' : world.size < fuel') :
    getRowLoop fuel r soc world = getRowLoop fuel' r soc world := by
  induction fuel generalizing fuel' r soc world with
  | zero => omega
  | succ fuel ih =>
      obtain ⟨fuel', rfl⟩ : ∃ n, fuel' = n + 1 := ⟨fuel' - 1, by omega⟩
      obtain ⟨row, after, allocs, cut⟩ := getRowAndCut_world soc world
      simp only [getRowLoop, cut]
      cases row with
      | some row => rfl
      | none =>
          simp only
          split
          · rfl
          · rename_i goesOn
            have smaller := (increaseSoc_spends after readBufSize { world with allocs := allocs }).2
              (not_le.mp goesOn)
            exact ih (smaller.trans_le (Nat.le_of_lt_succ enough)) (smaller.trans_le (Nat.le_of_lt_succ enough'))

/-- The fuel of the counted loop never runs out. -/
theorem getBufLoop_enough {fuel fuel' size : Nat} {soc : SocketT} {world : World} (enough : world.size < fuel)
    (enough' : world.size < fuel') : getBufLoop fuel soc size world = getBufLoop fuel' soc size world := by
  induction fuel generalizing fuel' soc world with
  | zero => omega
  | succ fuel ih =>
      obtain ⟨fuel', rfl⟩ : ∃ n, fuel' = n + 1 := ⟨fuel' - 1, by omega⟩
      simp only [getBufLoop]
      split
      · split
        · rfl
        · rename_i goesOn
          have smaller := (increaseSoc_spends soc (size - soc.bufLen) world).2 (not_le.mp goesOn)
          exact ih (smaller.trans_le (Nat.le_of_lt_succ enough)) (smaller.trans_le (Nat.le_of_lt_succ enough'))
      · rfl

/-- The row loop spends what it reads. -/
theorem getRowLoop_spends (fuel : Nat) (r : Int) (soc : SocketT) (world : World) :
    (getRowLoop fuel r soc world).2.2.2.budget ≤ world.budget := by
  induction fuel generalizing r soc world with
  | zero => exact le_refl _
  | succ fuel ih =>
      obtain ⟨row, after, allocs, cut⟩ := getRowAndCut_world soc world
      have spent := (increaseSoc_spends after readBufSize { world with allocs := allocs }).1
      simp only [getRowLoop, cut]
      cases row with
      | some row => exact le_refl _
      | none =>
          simp only
          split
          · exact spent
          · exact (ih _ _ _).trans spent

theorem getBufLoop_spends (fuel : Nat) (soc : SocketT) (size : Nat) (world : World) :
    (getBufLoop fuel soc size world).2.2.budget ≤ world.budget := by
  induction fuel generalizing soc world with
  | zero => exact le_refl _
  | succ fuel ih =>
      have spent := (increaseSoc_spends soc (size - soc.bufLen) world).1
      simp only [getBufLoop]
      split
      · split
        · exact spent
        · exact (ih _ _).trans spent
      · exact le_refl _

theorem getRowFromSocket_spends (soc : SocketT) (world : World) :
    (getRowFromSocket soc world).2.2.2.budget ≤ world.budget := by
  unfold getRowFromSocket
  split
  · exact le_refl _
  · exact getRowLoop_spends _ _ _ _

theorem getBufFromSocket_spends (buf : Pointer) (soc : SocketT) (size : Int) (world : World) :
    (getBufFromSocket buf soc size world).2.2.2.budget ≤ world.budget := by
  unfold getBufFromSocket
  split
  · exact le_refl _
  · split
    · exact le_refl _
    · have spent := getBufLoop_spends (world.size + 1) soc size.toNat world
      rcases loop : getBufLoop (world.size + 1) soc size.toNat world with ⟨r, after, next⟩
      rw [loop] at spent
      simp only
      split
      · exact spent
      · obtain ⟨ok, allocs, first⟩ := malloc_world next
        simp only [first]
        cases ok with
        | false => exact spent
        | true =>
            obtain ⟨ok', allocs', second⟩ := malloc_world { next with allocs := allocs }
            simp only [second]
            cases ok' with
            | false => exact spent
            | true => exact spent

end Piercloud.Socket
