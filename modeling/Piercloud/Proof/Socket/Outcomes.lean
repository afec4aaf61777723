import Piercloud.Construction.Session
import Piercloud.Proof.Socket.Loops

/-
This file gives the result of a counted read for arbitrary outcomes of the reads and of the allocations.
-/

namespace Piercloud.Socket

open CLib

/-- These are the bytes in front of the end of the stream and of the first error. -/
def coming : List ReadOutcome → Bytes
  | [] => []
  | .again :: rest => coming rest
  | .failed :: _ => []
  | .data piece :: rest => if piece.isEmpty then [] else piece ++ coming rest

/-- The reads supply the missing bytes with two allocations for each piece, or they do not. The result is the list
of the allocations that are left. -/
def supply : List ReadOutcome → Nat → List Bool → Option (List Bool)
  | _, 0, allocs => some allocs
  | [], _ + 1, _ => none
  | .again :: rest, need + 1, allocs => supply rest (need + 1) allocs
  | .failed :: _, _ + 1, _ => none
  | .data piece :: rest, need + 1, allocs =>
      if piece.isEmpty ∨ false ∈ allocs.take 2 then none
      else supply rest (need + 1 - piece.length) (allocs.drop 2)

/-- These are the allocations that a counted read leaves for the block of its caller. -/
def supplied (soc : SocketT) (size : Int) (world : World) : Option (List Bool) :=
  supply world.reads (size.toNat - soc.bufLen) world.allocs

/-- The requested bytes come, and there is a block for them. -/
def Obtains (soc : SocketT) (size : Int) (world : World) : Prop :=
  0 < size ∧ soc.buf ≠ none ∧ ∃ left ∈ supplied soc size world, left.head? ≠ some false

/-- A socket has no buffer, or its buffer holds some bytes. -/
def Formed (soc : SocketT) : Prop := soc.buf = none ∨ ∃ bytes, Holds soc bytes

@[simp] theorem supply_zero (reads : List ReadOutcome) (allocs : List Bool) :
    supply reads 0 allocs = some allocs := by
  cases reads <;> rfl

/-- One read gives nothing and supplies nothing, or it gives a piece. -/
theorem receive_supply {need : Nat} (positive : 0 < need) (reads : List ReadOutcome) :
    (((receive need reads).1 = none ∨ (receive need reads).1 = some []) ∧ coming reads = [] ∧
        ∀ allocs, supply reads need allocs = none) ∨
      ∃ piece rest, receive need reads = (some piece, rest) ∧ piece ≠ [] ∧ coming reads = piece ++ coming rest ∧
        ∀ allocs, supply reads need allocs =
          if false ∈ allocs.take 2 then none else supply rest (need - piece.length) (allocs.drop 2) := by
  obtain ⟨need, rfl⟩ : ∃ n, need = n + 1 := ⟨need - 1, by omega⟩
  induction reads with
  | nil => exact Or.inl ⟨Or.inr rfl, rfl, fun _ => rfl⟩
  | cons outcome reads ih =>
      cases outcome with
      | again => simpa only [receive, coming, supply] using ih
      | failed => exact Or.inl ⟨Or.inl rfl, rfl, fun _ => rfl⟩
      | data piece =>
          by_cases ended : piece = []
          · subst ended
            exact Or.inl ⟨Or.inr rfl, rfl, fun _ => rfl⟩
          · right
            by_cases fits : piece.length ≤ need + 1
            · refine ⟨piece, reads, by simp [receive, fits], ended, by simp [coming, ended], ?_⟩
              intro allocs
              simp [supply, ended]
            · have head : piece.take (need + 1) ≠ [] := by simpa using ended
              have tail : piece.drop (need + 1) ≠ [] := by
                rw [Ne, List.drop_eq_nil_iff]
                exact fits
              refine ⟨piece.take (need + 1), .data (piece.drop (need + 1)) :: reads, by simp [receive, fits], head,
                ?_, ?_⟩
              · simp [coming, ended, tail, ← List.append_assoc]
              · intro allocs
                have nothing : need + 1 - piece.length = 0 := by omega
                have all : need + 1 - (piece.take (need + 1)).length = 0 := by
                  rw [List.length_take]
                  omega
                rw [all, supply_zero, supply, nothing, supply_zero]
                simp [ended]

theorem malloc_eq (world : World) :
    malloc world = (world.allocs.head?.getD true, { world with allocs := world.allocs.tail }) := by
  obtain ⟨reads, allocs, received⟩ := world
  cases allocs <;> rfl

theorem false_mem_take_two (allocs : List Bool) :
    false ∈ allocs.take 2 ↔ allocs.head?.getD true = false ∨ allocs.tail.head?.getD true = false := by
  rcases allocs with _ | ⟨first, _ | ⟨second, allocs⟩⟩ <;> simp

theorem take_two_spoilt (allocs : List Bool) :
    allocs.take 2 = [true, false] ↔ allocs.head?.getD true = true ∧ allocs.tail.head?.getD true = false := by
  rcases allocs with _ | ⟨first, _ | ⟨second, allocs⟩⟩ <;> simp

/-- A read fails without supplies and leaves the socket alone, or it appends a piece to the buffer. -/
theorem increaseSoc_outcome {soc : SocketT} {memory : Bytes} (block : soc.buf = some memory) {size : Nat}
    (positive : 0 < size) (world : World) :
    (∃ r next, increaseSoc soc size world = (r, soc, next) ∧ r ≤ 0 ∧ world.received <+: next.received ∧
        supply world.reads size world.allocs = none) ∨
      ∃ piece next, increaseSoc soc size world = ((piece.length : Int),
          { soc with
            buf := some (memory.take soc.bufLen ++ piece ++ [NUL])
            bufLen := soc.bufLen + piece.length }, next) ∧
        piece ≠ [] ∧ next.received = world.received ++ piece ∧ next.size < world.size ∧
        coming world.reads = piece ++ coming next.reads ∧
        supply world.reads size world.allocs = supply next.reads (size - piece.length) next.allocs := by
  have spent := (increaseSoc_spends soc size world).2
  simp only [increaseSoc, block, malloc_eq] at spent ⊢
  cases first : world.allocs.head?.getD true with
  | false =>
      refine Or.inl ⟨-1, _, rfl, by decide, List.prefix_refl _, ?_⟩
      have refused : false ∈ world.allocs.take 2 := (false_mem_take_two _).mpr (Or.inl first)
      rcases receive_supply positive world.reads with ⟨-, -, dry⟩ | ⟨piece, rest, -, -, -, supplies⟩
      · exact dry _
      · rw [supplies, if_pos refused]
  | true =>
      simp only [first] at spent
      rcases receive_supply positive world.reads with ⟨nothing, -, dry⟩ | ⟨piece, rest, read, real, gives, supplies⟩
      · left
        rcases outcome : receive size world.reads with ⟨result, rest⟩
        rw [outcome] at nothing
        rcases nothing with rfl | rfl
        · simp only [outcome]
          exact ⟨-1, _, rfl, by decide, List.prefix_refl _, dry _⟩
        · simp only [outcome]
          refine ⟨0, _, rfl, le_refl 0, ?_, dry _⟩
          exact List.prefix_append _ _
      · have nonempty : piece.isEmpty = false := by simpa using real
        simp only [read, nonempty, Bool.false_eq_true, if_false] at spent ⊢
        cases second : world.allocs.tail.head?.getD true with
        | false =>
            have refused : false ∈ world.allocs.take 2 := (false_mem_take_two _).mpr (Or.inr second)
            refine Or.inl ⟨-1, _, rfl, by decide, ?_, by rw [supplies, if_pos refused]⟩
            exact List.prefix_append _ _
        | true =>
            simp only [second] at spent
            have more := List.length_pos_of_ne_nil real
            have granted : ¬ false ∈ world.allocs.take 2 := by
              rw [false_mem_take_two, first, second]
              simp
            refine Or.inr ⟨piece, _, rfl, real, rfl, spent (by omega), gives, ?_⟩
            rw [supplies, if_neg granted]
            simp [← List.drop_one]

theorem Holds.grown {soc : SocketT} {memory bytes : Bytes} (holds : Holds soc bytes) (block : soc.buf = some memory)
    (piece : Bytes) : Holds { soc with
      buf := some (memory.take soc.bufLen ++ piece ++ [NUL])
      bufLen := soc.bufLen + piece.length } (bytes ++ piece) := by
  obtain rfl : bytes ++ [NUL] = memory := Option.some.inj (holds.1.symm.trans block)
  simp [Holds, holds.2]

/-- The loop gets to the requested size exactly when the missing bytes are supplied. -/
theorem getBufLoop_supply {fuel size : Nat} {soc : SocketT} {world : World} {bytes : Bytes} (holds : Holds soc bytes)
    (enough : world.size < fuel) :
    (supply world.reads (size - bytes.length) world.allocs = none ∧
        ∃ r next world', getBufLoop fuel soc size world = (r, next, world') ∧ r ≤ 0 ∧
          world.received <+: world'.received) ∨
      ∃ fresh next world', supply world.reads (size - bytes.length) world.allocs = some world'.allocs ∧
        getBufLoop fuel soc size world = (((bytes ++ fresh).length : Int), next, world') ∧
        Holds next (bytes ++ fresh) ∧ world'.received = world.received ++ fresh ∧
        coming world.reads = fresh ++ coming world'.reads ∧ size ≤ (bytes ++ fresh).length := by
  induction fuel generalizing soc world bytes with
  | zero => omega
  | succ fuel ih =>
      rw [getBufLoop, holds.2]
      by_cases short : bytes.length < size
      · rw [if_pos short]
        rcases increaseSoc_outcome holds.1 (show 0 < size - bytes.length by omega) world with
          ⟨r, next, read, failed, gained, dry⟩ | ⟨piece, next, read, real, gained, smaller, gives, supplies⟩
        · exact Or.inl ⟨dry, r, soc, next, by simp [read, failed], failed, gained⟩
        · have more := List.length_pos_of_ne_nil real
          have goesOn : ¬ ((piece.length : Int) ≤ 0) := by omega
          have missing : size - bytes.length - piece.length = size - (bytes ++ piece).length := by
            rw [List.length_append]
            omega
          rw [supplies, missing]
          simp only [read, if_neg goesOn]
          rcases ih (holds.grown holds.1 piece) (show next.size < fuel by omega) with
            ⟨dry, r, last, world', loop, failed, received⟩ |
            ⟨fresh, last, world', left, loop, held, received, later, covers⟩
          · exact Or.inl ⟨dry, r, last, world', loop, failed, (gained ▸ List.prefix_append _ _).trans received⟩
          · refine Or.inr ⟨piece ++ fresh, last, world', left, by simpa using loop, by simpa using held, ?_, ?_,
              by simpa using covers⟩
            · rw [received, gained, List.append_assoc]
            · rw [gives, later, List.append_assoc]
      · rw [if_neg short]
        have nothing : size - bytes.length = 0 := by omega
        refine Or.inr ⟨[], soc, world, by rw [nothing, supply_zero], by simp, by simpa using holds, by simp, by simp,
          by simpa using not_lt.mp short⟩

/-- Without supplies the caller's pointer stays. With them it is null or a block that starts with the bytes. -/
theorem getBufFromSocket_supply (buf : Pointer) {soc : SocketT} (world : World) {bytes : Bytes} {size : Int}
    (holds : Holds soc bytes) (positive : 0 < size) :
    (supplied soc size world = none ∧
        ∃ r next world', getBufFromSocket buf soc size world = (r, buf, next, world') ∧ next.buf = none ∧
          world.received <+: world'.received) ∨
      (∃ left r next world', supplied soc size world = some left ∧ left.head? = some false ∧
        getBufFromSocket buf soc size world = (r, .null, next, world') ∧ next.buf = none ∧
        world.received <+: world'.received) ∨
      ∃ left fresh memory r next world', supplied soc size world = some left ∧ left.head? ≠ some false ∧
        getBufFromSocket buf soc size world = (r, .block memory, next, world') ∧ Formed next ∧ held next = [] ∧
        world'.received = world.received ++ fresh ∧ coming world.reads = fresh ++ coming world'.reads ∧
        size.toNat ≤ (bytes ++ fresh).length ∧ memory.take size.toNat = (bytes ++ fresh).take size.toNat := by
  have count : ¬ size < 0 := by omega
  have counted : size ≠ 0 := by omega
  simp only [getBufFromSocket, supplied, holds.1, holds.2, Option.isNone_some, Bool.false_eq_true, count, counted,
    or_self, if_false]
  rcases @getBufLoop_supply _ size.toNat _ _ _ holds (Nat.lt_succ_self world.size) with
    ⟨dry, r, next, world', loop, failed, received⟩ | ⟨fresh, next, world', left, loop, held, received, later, covers⟩
  · rw [loop]
    simp only [if_pos failed]
    exact Or.inl ⟨dry, _, _, _, rfl, rfl, received⟩
  · have goesOn : ¬ (((bytes ++ fresh).length : Int) ≤ 0) := by omega
    have whole : (bytes ++ fresh ++ [NUL]).take (bytes ++ fresh).length = bytes ++ fresh := List.take_left
    have front : ((bytes ++ fresh ++ [NUL]).set size.toNat NUL).take size.toNat =
        (bytes ++ fresh).take size.toNat := by
      rw [List.take_set_of_le (le_refl _), List.take_append_of_le_length covers]
    right
    rw [loop]
    simp only [if_neg goesOn, malloc_eq, held.1, held.2, Option.getD_some, whole]
    cases first : world'.allocs.head?.getD true with
    | false =>
        have refused : world'.allocs.head? = some false := by
          cases head : world'.allocs.head? <;> simp_all
        refine Or.inl ⟨_, _, _, { world' with allocs := world'.allocs.tail }, left, refused, rfl, rfl, ?_⟩
        exact received ▸ List.prefix_append _ _
    | true =>
        have granted : world'.allocs.head? ≠ some false := by
          intro refused
          simp [refused] at first
        right
        dsimp only
        cases second : world'.allocs.tail.head?.getD true with
        | false =>
            refine ⟨_, fresh, _, _, _, { world' with allocs := world'.allocs.tail.tail }, left, granted, rfl, ?_,
              ?_, received, later, covers, ?_⟩
            · exact Or.inl rfl
            · rfl
            · rw [List.take_append_of_le_length covers]
        | true =>
            refine ⟨_, fresh, _, _, _, { world' with allocs := world'.allocs.tail.tail }, left, granted, rfl, ?_,
              ?_, received, later, covers, front⟩
            · exact Or.inr ⟨[], rfl, rfl⟩
            · rfl

/-- Refused arguments give a null pointer and change nothing. -/
theorem getBufFromSocket_refused (buf : Pointer) {soc : SocketT} {size : Int} (refused : size ≤ 0 ∨ soc.buf = none)
    (world : World) : ∃ r, getBufFromSocket buf soc size world = (r, .null, soc, world) := by
  rw [getBufFromSocket]
  split
  · exact ⟨_, rfl⟩
  · rename_i accepted
    have zero : size = 0 := by
      rcases refused with small | none
      · omega
      · simp [none] at accepted
    rw [if_pos zero]
    exact ⟨_, rfl⟩

theorem not_obtains {soc : SocketT} {size : Int} (refused : size ≤ 0 ∨ soc.buf = none) (world : World) :
    ¬ Obtains soc size world := by
  rintro ⟨positive, some, -⟩
  exact refused.elim (fun small => absurd positive (not_lt.mpr small)) some

theorem not_obtains_dry {soc : SocketT} {size : Int} {world : World} (dry : supplied soc size world = none) :
    ¬ Obtains soc size world := by
  rintro ⟨-, -, left, supplies, -⟩
  simp [dry] at supplies

theorem not_obtains_denied {soc : SocketT} {size : Int} {world : World} {left : List Bool}
    (supplies : supplied soc size world = some left) (denied : left.head? = some false) : ¬ Obtains soc size world := by
  rintro ⟨-, -, left', supplies', granted⟩
  rw [supplies, Option.mem_some_iff] at supplies'
  exact granted (supplies' ▸ denied)

/-- A failed read leaves a null pointer and a successful one a block with the bytes, exactly when the pointer was null
before, or the arguments are refused, or the reads and allocations supply the bytes that the buffer lacks. -/
theorem failed_read_visible_iff (buf : Pointer) (soc : SocketT) (size : Int) (world : World) (formed : Formed soc) :
    ((¬ Obtains soc size world → (getBufFromSocket buf soc size world).2.1 = .null) ∧
        (Obtains soc size world → ∃ memory, (getBufFromSocket buf soc size world).2.1 = .block memory ∧
          size.toNat ≤ (held soc ++ coming world.reads).length ∧
          memory.take size.toNat = (held soc ++ coming world.reads).take size.toNat)) ↔
      buf = .null ∨ size ≤ 0 ∨ soc.buf = none ∨ supplied soc size world ≠ none := by
  by_cases refused : size ≤ 0 ∨ soc.buf = none
  · obtain ⟨r, null⟩ := getBufFromSocket_refused buf refused world
    simp only [null, not_obtains refused world, not_false_iff, forall_true_left, false_implies, and_self, true_iff]
    exact Or.inr (refused.imp_right Or.inl)
  · push Not at refused
    obtain ⟨positive, some⟩ := refused
    obtain ⟨bytes, holds⟩ := formed.resolve_left some
    have asked : ¬ size ≤ 0 := not_le.mpr positive
    rw [holds.held_eq]
    rcases getBufFromSocket_supply buf world holds positive with ⟨dry, r, next, world', done, -, -⟩ |
        ⟨left, r, next, world', supplies, head, done, -, -⟩ |
        ⟨left, fresh, memory, r, next, world', supplies, head, done, -, -, -, later, covers, front⟩
    · simp [done, not_obtains_dry dry, dry, asked, some]
    · simp [done, not_obtains_denied supplies head, supplies]
    · have obtains : Obtains soc size world := ⟨positive, some, left, supplies, head⟩
      have whole : (held soc ++ coming world.reads).take size.toNat = (bytes ++ fresh).take size.toNat := by
        rw [holds.held_eq, later, ← List.append_assoc, List.take_append_of_le_length covers]
      rw [holds.held_eq] at whole
      have enough : size.toNat ≤ (bytes ++ coming world.reads).length := by
        rw [later, ← List.append_assoc, List.length_append]
        omega
      constructor
      · exact fun _ => Or.inr (Or.inr (Or.inr (by simp [supplies])))
      · exact fun _ => ⟨fun never => absurd obtains never, fun _ =>
          ⟨memory, by rw [done], enough, front.trans whole.symm⟩⟩

/-- An SSL socket with an empty buffer. -/
def emptySocket : SocketT := ⟨0, true, some [NUL], 0⟩

theorem failed_read_visible_iff_sample :
    ((¬ Obtains emptySocket 3 ⟨[.data (text "abcd")], [], []⟩ →
          (getBufFromSocket .freed emptySocket 3 ⟨[.data (text "abcd")], [], []⟩).2.1 = .null) ∧
        (Obtains emptySocket 3 ⟨[.data (text "abcd")], [], []⟩ → ∃ memory,
          (getBufFromSocket .freed emptySocket 3 ⟨[.data (text "abcd")], [], []⟩).2.1 = .block memory ∧
          Int.toNat 3 ≤ (held emptySocket ++ coming [.data (text "abcd")]).length ∧
          memory.take (Int.toNat 3) = (held emptySocket ++ coming [.data (text "abcd")]).take (Int.toNat 3))) ↔
      Pointer.freed = .null ∨ (3 : Int) ≤ 0 ∨ emptySocket.buf = none ∨
        supplied emptySocket 3 ⟨[.data (text "abcd")], [], []⟩ ≠ none :=
  failed_read_visible_iff .freed emptySocket 3 ⟨[.data (text "abcd")], [], []⟩ (Or.inr ⟨[], rfl, rfl⟩)

/-- At the end of the stream the pointer to the freed row stays, and the session goes on to use it. -/
theorem failed_read_hidden : ∃ (soc : SocketT) (size : Int) (world : World), Formed soc ∧ ¬ Obtains soc size world ∧
    (getBufFromSocket .freed soc size world).2.1 = .freed ∧
    (Client.readInput soc ⟨[.data (text "3\r\n")], [], []⟩).1 = .ended .undefined :=
  ⟨emptySocket, 3, ⟨[], [], []⟩, Or.inr ⟨[], rfl, rfl⟩, fun ⟨_, _, left, supplies, _⟩ => by
    have dry : supplied emptySocket 3 ⟨[], [], []⟩ = none := by decide
    simp [dry] at supplies, by decide, by decide +kernel⟩

end Piercloud.Socket
