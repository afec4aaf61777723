import Piercloud.Proof.Socket.Outcomes

/-
This file gives the result of a row read for arbitrary outcomes of the reads and of the allocations.
-/

namespace Piercloud.Socket

open CLib

/-- A newline that was not put back hides all the later ones. -/
def Stuck (soc : SocketT) : Prop :=
  ∃ front rest, soc.buf = some (front ++ NUL :: rest) ∧ LF ∉ front ∧ front.length < soc.bufLen

/-- The cut finds no newline, or its memory is missing in front of the copy of the row or behind it, or it gives the
row. -/
theorem getRowAndCut_exits {soc : SocketT} {bytes : Bytes} (holds : Holds soc bytes) (world : World) :
    (strchr bytes LF = none ∧ getRowAndCut soc world = (none, soc, world)) ∨
      ∃ row rest, bytes = row ++ LF :: rest ∧ LF ∉ row ∧ NUL ∉ row ∧
        ((world.allocs.head?.getD true = false ∧
            getRowAndCut soc world = (none, soc, { world with allocs := world.allocs.tail })) ∨
          (world.allocs.take 2 = [true, false] ∧
            getRowAndCut soc world = (none, { soc with buf := some (row ++ NUL :: rest ++ [NUL]) },
              { world with allocs := world.allocs.tail.tail })) ∨
          false ∉ world.allocs.take 2 ∧
            ∃ after, getRowAndCut soc world = (some row, after, { world with allocs := world.allocs.tail.tail }) ∧
              Holds after rest) := by
  obtain ⟨sd, fn, buf, bufLen⟩ := soc
  obtain ⟨rfl, rfl⟩ : buf = some (bytes ++ [NUL]) ∧ bufLen = bytes.length := holds
  have string : strchr (bytes ++ [NUL]) LF = strchr bytes LF := strchr_append_terminator bytes [] LF
  cases found : strchr bytes LF with
  | none => exact Or.inl ⟨rfl, getRowAndCut_none rfl (string.trans found)⟩
  | some index =>
      obtain ⟨row, rest, rfl, rfl, absent, clean⟩ := strchr_some found
      have cut : (row ++ LF :: rest ++ [NUL]).set row.length NUL = row ++ NUL :: rest ++ [NUL] := by simp
      have back : (row ++ NUL :: rest ++ [NUL]).set row.length LF = row ++ LF :: rest ++ [NUL] := by simp
      have rval : cstr (row ++ NUL :: rest ++ [NUL]) = row := by
        rw [List.append_assoc, List.cons_append, cstr_append_nul clean]
      have left : sizeSub (sizeSub (row ++ LF :: rest).length row.length) 1 = rest.length := by
        rw [sizeSub_of_le (by simp), sizeSub_of_le (by simp)]
        simp
      have tail : ((row ++ NUL :: rest ++ [NUL]).drop (row.length + 1)).take rest.length = rest := by
        rw [← List.drop_drop]
        simp
      refine Or.inr ⟨row, rest, rfl, absent, clean, ?_⟩
      simp only [getRowAndCut, string, found, malloc_eq, cut, back, rval, left, tail]
      cases first : world.allocs.head?.getD true with
      | false => exact Or.inl ⟨rfl, rfl⟩
      | true =>
          right
          dsimp only
          cases second : world.allocs.tail.head?.getD true with
          | false => exact Or.inl ⟨(take_two_spoilt _).mpr ⟨first, second⟩, rfl⟩
          | true =>
              have granted : false ∉ world.allocs.take 2 := by
                rw [false_mem_take_two, first, second]
                simp
              exact Or.inr ⟨granted, _, rfl, rfl, rfl⟩

/-- The cut gives a row, or leaves the buffer as it is, or gets stuck. -/
theorem getRowAndCut_outcome {soc : SocketT} {bytes : Bytes} (holds : Holds soc bytes) (world : World) :
    (∃ after allocs, getRowAndCut soc world = (none, after, { world with allocs := allocs }) ∧
        (after = soc ∨ Stuck after)) ∨
      ∃ row rest after allocs, getRowAndCut soc world = (some row, after, { world with allocs := allocs }) ∧
        bytes = row ++ LF :: rest ∧ LF ∉ row ∧ NUL ∉ row ∧ Holds after rest := by
  obtain ⟨-, waits⟩ | ⟨row, rest, split, absent, clean, ⟨-, denied⟩ | ⟨-, spoilt⟩ | ⟨-, after, cut, kept⟩⟩ :=
    getRowAndCut_exits holds world
  · exact Or.inl ⟨soc, world.allocs, waits, Or.inl rfl⟩
  · exact Or.inl ⟨soc, _, denied, Or.inl rfl⟩
  · refine Or.inl ⟨_, _, spoilt, Or.inr ⟨row, rest ++ [NUL], by simp, absent, ?_⟩⟩
    simp only [holds.2, split, List.length_append, List.length_cons]
    omega
  · exact Or.inr ⟨row, rest, after, _, cut, split, absent, clean, kept⟩

theorem Stuck.cut {soc : SocketT} (stuck : Stuck soc) (world : World) :
    getRowAndCut soc world = (none, soc, world) := by
  obtain ⟨front, rest, memory, absent, -⟩ := stuck
  apply getRowAndCut_none memory
  rw [strchr_append_terminator, strchr]
  exact findIdx_none fun member => absent (mem_of_mem_cstr member)

/-- A stuck buffer gives no row any more. -/
theorem getRowLoop_stuck {fuel : Nat} {r : Int} {soc : SocketT} {world : World} (stuck : Stuck soc)
    (enough : world.size < fuel) : ∃ next world', getRowLoop fuel r soc world = (-1, none, next, world') ∧
      next.buf = none ∧ world.received <+: world'.received := by
  induction fuel generalizing r soc world with
  | zero => omega
  | succ fuel ih =>
      rw [getRowLoop, stuck.cut]
      obtain ⟨front, rest, memory, absent, short⟩ := stuck
      rcases increaseSoc_outcome memory (show 0 < readBufSize by decide) world with
        ⟨r', next, read, failed, received, -⟩ | ⟨piece, next, read, real, received, smaller, -, -⟩
      · simp only [read, if_pos failed]
        exact ⟨_, _, rfl, rfl, received⟩
      · have more := List.length_pos_of_ne_nil real
        have goesOn : ¬ ((piece.length : Int) ≤ 0) := by omega
        simp only [read, if_neg goesOn]
        have kept : Stuck { soc with
            buf := some ((front ++ NUL :: rest).take soc.bufLen ++ piece ++ [NUL])
            bufLen := soc.bufLen + piece.length } := by
          obtain ⟨more, same⟩ : ∃ more, (front ++ NUL :: rest).take soc.bufLen = front ++ NUL :: more := by
            refine ⟨rest.take (soc.bufLen - front.length - 1), ?_⟩
            rw [List.take_append, List.take_of_length_le short.le, show soc.bufLen - front.length =
              (soc.bufLen - front.length - 1) + 1 by omega, List.take_succ_cons, Nat.add_sub_cancel]
          exact ⟨front, more ++ (piece ++ [NUL]), by simp [same], absent, by simp only; omega⟩
        obtain ⟨last, world', loop, gone, grown⟩ := @ih (piece.length : Int) _ _ kept (show next.size < fuel by omega)
        exact ⟨last, world', loop, gone, (received ▸ List.prefix_append _ _).trans grown⟩

/-- The row loop takes the first row off the bytes that have come, or frees the buffer. -/
theorem getRowLoop_outcome {fuel : Nat} {r : Int} {soc : SocketT} {world : World} {bytes : Bytes}
    (holds : Holds soc bytes) (start : 0 ≤ r) (enough : world.size < fuel) :
    (∃ next world', getRowLoop fuel r soc world = (-1, none, next, world') ∧ next.buf = none ∧
        world.received <+: world'.received) ∨
      ∃ r' row rest fresh next world', getRowLoop fuel r soc world = (r', some row, next, world') ∧ 0 ≤ r' ∧
        Holds next rest ∧ bytes ++ fresh = row ++ LF :: rest ∧ LF ∉ row ∧ NUL ∉ row ∧
        world'.received = world.received ++ fresh := by
  induction fuel generalizing r soc world bytes with
  | zero => omega
  | succ fuel ih =>
      rcases getRowAndCut_outcome holds world with
        ⟨after, allocs, cut, rfl | stuck⟩ | ⟨row, rest, after, allocs, cut, split, absent, clean, kept⟩
      · simp only [getRowLoop, cut]
        rcases increaseSoc_outcome holds.1 (show 0 < readBufSize by decide) { world with allocs := allocs } with
          ⟨r', next, read, failed, received, -⟩ | ⟨piece, next, read, real, received, smaller, -, -⟩
        · simp only [read, if_pos failed]
          exact Or.inl ⟨_, _, rfl, rfl, received⟩
        · have more := List.length_pos_of_ne_nil real
          have goesOn : ¬ ((piece.length : Int) ≤ 0) := by omega
          simp only [read, if_neg goesOn]
          rcases @ih (piece.length : Int) _ _ _ (holds.grown holds.1 piece) (by omega) (show next.size < fuel from by
              have : next.size < world.size := smaller
              omega) with
            ⟨last, world', loop, gone, later⟩ |
            ⟨r', row, rest, fresh, last, world', loop, success, kept, split, absent, clean, later⟩
          · exact Or.inl ⟨last, world', loop, gone, (received ▸ List.prefix_append _ _).trans later⟩
          · refine Or.inr ⟨r', row, rest, piece ++ fresh, last, world', loop, success, kept, ?_, absent, clean, ?_⟩
            · rw [← split, List.append_assoc]
            · rw [later, received, List.append_assoc]
      -- The iteration goes on as one that starts on the stuck buffer.
      · have same : getRowLoop (fuel + 1) r soc world =
            getRowLoop (fuel + 1) r after { world with allocs := allocs } := by
          simp only [getRowLoop, cut, stuck.cut]
        rw [same]
        exact Or.inl (getRowLoop_stuck stuck enough)
      · simp only [getRowLoop, cut]
        exact Or.inr ⟨r, row, rest, [], after, _, rfl, start, kept, by simpa using split, absent, clean, by simp⟩

/-- A row read keeps the socket formed, and a row that it gives is taken off the bytes that have come. -/
theorem getRowFromSocket_outcome {soc : SocketT} (formed : Formed soc) (world : World) :
    (∃ next world', getRowFromSocket soc world = (-1, none, next, world') ∧ next.buf = none ∧
        world.received <+: world'.received) ∨
      ∃ r row rest bytes fresh next world', getRowFromSocket soc world = (r, some row, next, world') ∧ 0 ≤ r ∧
        Holds soc bytes ∧ Holds next rest ∧ bytes ++ fresh = row ++ LF :: rest ∧ LF ∉ row ∧ NUL ∉ row ∧
        world'.received = world.received ++ fresh := by
  rcases formed with none | ⟨bytes, holds⟩
  · exact Or.inl ⟨soc, world, by simp [getRowFromSocket, none], none, List.prefix_refl _⟩
  · have present : soc.buf.isNone = false := by simp [holds.1]
    simp only [getRowFromSocket, present, Bool.false_eq_true, if_false]
    rcases getRowLoop_outcome holds (le_refl 0) (Nat.lt_succ_self world.size) with failed |
        ⟨r, row, rest, fresh, next, world', loop, success, kept, split, absent, clean, received⟩
    · exact Or.inl failed
    · exact Or.inr ⟨r, row, rest, bytes, fresh, next, world', loop, success, holds, kept, split, absent, clean,
        received⟩

/-- The received bytes behind the consumed ones are those in the buffer. -/
structure Fed (soc : SocketT) (world : World) (consumed : Bytes) : Prop where
  formed : Formed soc
  received : consumed ++ held soc = world.received

theorem Holds.fed {soc : SocketT} {world : World} {bytes consumed : Bytes} (holds : Holds soc bytes)
    (received : consumed ++ bytes = world.received) : Fed soc world consumed :=
  ⟨Or.inr ⟨bytes, holds⟩, holds.held_eq ▸ received⟩

/-- Behind a failing exit everything that has come is consumed. -/
theorem fed_released {soc : SocketT} {world world' : World} {consumed : Bytes} (fed : Fed soc world consumed)
    {next : SocketT} (gone : next.buf = none) (received : world.received <+: world'.received) :
    Fed next world' world'.received ∧ consumed <+: world'.received := by
  have nothing : held next = [] := by simp [held, gone]
  refine ⟨⟨Or.inl gone, by simp [nothing]⟩, ?_⟩
  rw [← fed.received] at received
  exact (List.prefix_append _ _).trans received

/-- A row is consumed together with its newline, and it makes the coming bytes fewer. -/
theorem getRowFromSocket_fed {soc : SocketT} {world : World} {consumed : Bytes} (fed : Fed soc world consumed) :
    (∃ next world' consumed', getRowFromSocket soc world = (-1, none, next, world') ∧ Fed next world' consumed' ∧
        consumed <+: consumed') ∨
      ∃ r row next world', getRowFromSocket soc world = (r, some row, next, world') ∧ 0 ≤ r ∧
        Fed next world' (consumed ++ (row ++ [LF])) ∧
        world'.size + (held next).length < world.size + (held soc).length := by
  have spent := getRowFromSocket_spends soc world
  rcases getRowFromSocket_outcome fed.formed world with ⟨next, world', read, gone, received⟩ |
      ⟨r, row, rest, bytes, fresh, next, world', read, success, holds, kept, split, -, -, received⟩
  · obtain ⟨later, longer⟩ := fed_released fed gone received
    exact Or.inl ⟨next, world', world'.received, read, later, longer⟩
  · have before := fed.received
    rw [holds.held_eq] at before
    refine Or.inr ⟨r, row, next, world', read, success, kept.fed ?_, ?_⟩
    · rw [received, ← before, List.append_assoc consumed bytes, split]
      simp
    · rw [read] at spent
      have sizes := congrArg List.length split
      simp only [World.budget, received, List.length_append, List.length_cons] at spent sizes
      rw [kept.held_eq, holds.held_eq]
      omega

/-- A counted read that obtains its bytes gives a block with bytes that are consumed. Any other one leaves no
block. -/
theorem getBufFromSocket_fed {buf : Pointer} (noBlock : ∀ memory, buf ≠ .block memory) {soc : SocketT} {world : World}
    {consumed : Bytes} (fed : Fed soc world consumed) (size : Int) :
    ∃ r data next world' consumed', getBufFromSocket buf soc size world = (r, data, next, world') ∧
      Fed next world' consumed' ∧ consumed <+: consumed' ∧
      world'.size + (held next).length ≤ world.size + (held soc).length ∧
      (Obtains soc size world ∧ (∃ memory, data = .block memory ∧ size.toNat ≤ memory.length ∧
          consumed ++ memory.take size.toNat <+: consumed') ∨
        ¬ Obtains soc size world ∧ ∀ memory, data ≠ .block memory) := by
  have spent := getBufFromSocket_spends buf soc size world
  by_cases refused : size ≤ 0 ∨ soc.buf = none
  · obtain ⟨r, done⟩ := getBufFromSocket_refused buf refused world
    exact ⟨r, .null, soc, world, consumed, done, fed, List.prefix_refl _, le_refl _,
      Or.inr ⟨not_obtains refused world, by simp⟩⟩
  · push Not at refused
    obtain ⟨bytes, holds⟩ := fed.formed.resolve_left refused.2
    have before := fed.received
    rw [holds.held_eq] at before
    have shrinks : ∀ {next : SocketT} {world' : World}, held next = [] → world.received <+: world'.received →
        world'.budget ≤ world.budget → world'.size + (held next).length ≤ world.size + (held soc).length := by
      intro next world' nothing received spent
      have longer := received.length_le
      simp only [World.budget] at spent
      rw [nothing, List.length_nil]
      omega
    rcases getBufFromSocket_supply buf world holds refused.1 with ⟨dry, r, next, world', done, gone, received⟩ |
        ⟨left, r, next, world', supplies, head, done, gone, received⟩ |
        ⟨left, fresh, memory, r, next, world', supplies, head, done, formed, nothing, received, -, covers, front⟩
    · obtain ⟨later, longer⟩ := fed_released fed gone received
      exact ⟨r, buf, next, world', _, done, later, longer,
        shrinks (by simp [held, gone]) received (by simpa [done] using spent), Or.inr ⟨not_obtains_dry dry, noBlock⟩⟩
    · obtain ⟨later, longer⟩ := fed_released fed gone received
      exact ⟨r, .null, next, world', _, done, later, longer,
        shrinks (by simp [held, gone]) received (by simpa [done] using spent),
        Or.inr ⟨not_obtains_denied supplies head, by simp⟩⟩
    · have all : world'.received = consumed ++ (bytes ++ fresh) := by
        rw [received, ← before, List.append_assoc]
      have size : size.toNat ≤ memory.length := by
        have sizes := congrArg List.length front
        rw [List.length_take, List.length_take] at sizes
        omega
      refine ⟨r, .block memory, next, world', world'.received, done, ⟨formed, by simp [nothing]⟩,
        all ▸ List.prefix_append _ _,
        shrinks nothing (received ▸ List.prefix_append _ _) (by simpa [done] using spent),
        Or.inl ⟨⟨refused.1, refused.2, left, supplies, head⟩, memory, rfl, size, ?_⟩⟩
      rw [front, all]
      exact (List.prefix_append_right_inj consumed).mpr (List.take_prefix _ _)

end Piercloud.Socket
