import Piercloud.Proof.Connection.Exchange

/-
This file shows what `AtomIO` transfers for an arbitrary function that it calls.
-/

namespace Piercloud.Connection

open CLib Liblst Loop

/-- A call asks for a number of bytes at a place of the buffer. -/
structure Call where
  pos : Nat
  count : Nat
  res : Except Nat Nat

/-- These places are transferred. -/
def Call.places (call : Call) : List Nat :=
  match call.res with
  | .ok res => List.range' call.pos res
  | .error _ => []

section Pieces

variable {σ : Type} (f : Nat → Nat → σ → Except Nat Nat × σ) (n : Nat)

/-- The calls are written down. -/
def traced (pos count : Nat) : List Call × σ → Except Nat Nat × List Call × σ
  | (calls, s) =>
      match f pos count s with
      | (res, s) => (res, calls ++ [⟨pos, count, res⟩], s)

/-- The next call fails for now. -/
def Interrupted (state : Nat × σ) : Prop :=
  ∃ errno s', f state.1 (n - state.1) state.2 = (.error errno, s') ∧ Retried errno

/-- No run is interrupted for ever. -/
def Settles (s : σ) : Prop :=
  ∀ run : Nat → Nat × σ, run 0 = (0, s) → (∀ i, atomIoStep f n (run i) = .inl (run (i + 1))) →
    ∃ m, ∀ i ≥ m, ¬ Interrupted f n (run i)

variable {f n}

/-- Writing the calls down does not change the iteration. -/
theorem atomIoStep_traced (state : Nat × List Call × σ) :
    atomIoStep f n (state.1, state.2.2) =
      (atomIoStep (traced f) n state).map (fun t => (t.1, t.2.2)) (fun t => (t.1, t.2.2)) := by
  obtain ⟨pos, calls, s⟩ := state
  simp only [atomIoStep, traced]
  split
  · rcases f pos (n - pos) s with ⟨errno | _ | res, s'⟩
    · simp only
      split <;> rfl
    · rfl
    · rfl
  · rfl

theorem Bounded.traced (bounded : Bounded f) : Bounded (traced f) := by
  rintro pos count ⟨calls, s⟩ res ⟨calls', s'⟩ call
  obtain ⟨done, -⟩ := Prod.mk.inj call
  exact bounded pos count s res (f pos count s).2 (Prod.ext done rfl)

/-- The positions of a run that goes on for ever stay inside the buffer. -/
theorem forever_within (bounded : Bounded f) {run : Nat → Nat × σ} (start : (run 0).1 = 0)
    (goesOn : ∀ i, atomIoStep f n (run i) = .inl (run (i + 1))) (i : Nat) : (run i).1 ≤ n := by
  induction i with
  | zero => omega
  | succ i ih => exact (follows_any.next bounded ih trivial (goesOn i)).1

/-- A call that is not interrupted moves the position. -/
theorem forever_moves (bounded : Bounded f) {run : Nat → Nat × σ} (start : (run 0).1 = 0)
    (goesOn : ∀ i, atomIoStep f n (run i) = .inl (run (i + 1))) {i : Nat} (calm : ¬ Interrupted f n (run i)) :
    (run i).1 < (run (i + 1)).1 := by
  obtain ⟨-, -, ⟨errno, call, retried, -⟩ | ⟨res, -, positive, moved⟩⟩ :=
    follows_any.next bounded (forever_within bounded start goesOn i) trivial (goesOn i)
  · exact absurd ⟨errno, _, call, retried⟩ calm
  · omega

/-- The positions cannot grow for ever, so the loop ends. -/
theorem atomIo_ends (bounded : Bounded f) {s : σ} (settles : Settles f n s) :
    ∃ r, Ends (atomIoStep f n) (0, s) r := by
  obtain ends | ⟨run, start, goesOn⟩ := ends_or_forever (atomIoStep f n) (0, s)
  · exact ends
  obtain ⟨m, calm⟩ := settles run start goesOn
  have first : (run 0).1 = 0 := by rw [start]
  have grows (i : Nat) : i ≤ (run (m + i)).1 := by
    induction i with
    | zero => omega
    | succ i ih =>
        have more := forever_moves bounded first goesOn (calm (m + i) (by omega))
        rw [← Nat.add_assoc]
        omega
  have far := grows (n + 1)
  have near := forever_within bounded first goesOn (m + (n + 1))
  omega

/-- The calls behind one another transfer the places up to the position, and each of them stays inside the buffer. -/
def InOrder (n pos : Nat) (calls : List Call) : Prop :=
  calls.flatMap Call.places = List.range pos ∧ ∀ call ∈ calls, call.pos + call.count ≤ n

/-- The next call goes on at the position. -/
theorem InOrder.call {pos : Nat} {calls : List Call} (inOrder : InOrder n pos calls) (within : pos ≤ n)
    (res : Except Nat Nat) (moved : Nat) (places : (Call.mk pos (n - pos) res).places = List.range' pos moved) :
    InOrder n (pos + moved) (calls ++ [⟨pos, n - pos, res⟩]) := by
  constructor
  · rw [List.flatMap_append, List.flatMap_singleton, inOrder.1, places, List.range_eq_range', List.range_eq_range',
      ← List.range'_append_1, Nat.zero_add]
  · intro call member
    rcases List.mem_append.mp member with earlier | last
    · exact inOrder.2 call earlier
    · rw [List.mem_singleton.mp last]
      simp only
      omega

theorem traced_calls {pos count : Nat} {state state' : List Call × σ} {res : Except Nat Nat}
    (call : traced f pos count state = (res, state')) : state'.1 = state.1 ++ [⟨pos, count, res⟩] := by
  obtain ⟨rfl, rfl⟩ := Prod.mk.inj call
  rfl

theorem traced_last {pos count : Nat} {state : List Call × σ} {res : Except Nat Nat} {calls : List Call} {s' : σ}
    (call : traced f pos count state = (res, calls, s')) : calls.getLast? = some ⟨pos, count, res⟩ := by
  have written : calls = state.1 ++ [⟨pos, count, res⟩] := traced_calls call
  rw [written, List.getLast?_concat]

/-- The position of the traced loop says which places are transferred. -/
theorem traced_follows (n : Nat) : Follows (traced f) n fun pos state => InOrder n pos state.1 where
  fails pos state errno state' inOrder less call := by
    rw [traced_calls call]
    exact inOrder.call less.le (.error errno) 0 rfl
  moves pos state res state' inOrder less call := by
    rw [traced_calls call]
    exact inOrder.call less.le (.ok res) res rfl

/-- The loop stops at this call: it is at the end of the stream, or it fails for good. -/
def StopsAt (r : Nat) (call : Call) : Prop :=
  call.res = .ok 0 ∧ r = call.pos ∨ ∃ errno, call.res = .error errno ∧ ¬ Retried errno ∧ r = 0

/-- The traced loop ends together with the loop. -/
theorem atomIo_traced (bounded : Bounded f) {s : σ} (settles : Settles f n s) :
    ∃ m r calls s', Ends (atomIoStep (traced f) n) (0, [], s) (r, calls, s') ∧
      ∀ fuel ≥ m, atomIo f n fuel s = some (r, s') ∧ atomIo (traced f) n fuel ([], s) = some (r, calls, s') := by
  let project : Nat × List Call × σ → Nat × σ := fun t => (t.1, t.2.2)
  have same (fuel : Nat) : atomIo f n fuel s = (atomIo (traced f) n fuel ([], s)).map project :=
    loop_map project project atomIoStep_traced fuel (0, [], s)
  obtain ⟨result, ends⟩ := atomIo_ends bounded settles
  obtain ⟨m, found⟩ := ends.eventually
  have projected := (same m).symm.trans (found m (le_refl m))
  obtain ⟨⟨r, calls, s'⟩, found', -⟩ := Option.map_eq_some_iff.mp projected
  have ends' := ends_of_loop found'
  obtain ⟨m', later⟩ := ends'.eventually
  refine ⟨m', r, calls, s', ends', ?_⟩
  intro fuel enough
  have traced : atomIo (traced f) n fuel ([], s) = some (r, calls, s') := later fuel enough
  exact ⟨by rw [same, traced]; rfl, traced⟩

end Pieces

/-- The loop has a result, which is the full count if and only if the calls transfer every place once and in order. A
smaller result comes from the last call, and no call leaves the buffer. -/
theorem atomIo_transfers {σ : Type} {f : Nat → Nat → σ → Except Nat Nat × σ} {n : Nat} {s : σ}
    (bounded : Bounded f) (settles : Settles f n s) :
    ∃ m r calls s', (∀ fuel ≥ m, atomIo f n fuel s = some (r, s') ∧
        atomIo (traced f) n fuel ([], s) = some (r, calls, s')) ∧
      (r = n ↔ calls.flatMap Call.places = List.range n) ∧
      (r ≠ n → r < n ∧ ∃ call, calls.getLast? = some call ∧ StopsAt r call) ∧
      ∀ call ∈ calls, call.pos + call.count ≤ n := by
  obtain ⟨m, r, calls, s', ends, results⟩ := atomIo_traced bounded settles
  obtain ⟨pos, ⟨places, inside⟩, outcome⟩ := (traced_follows n).result bounded.traced ⟨rfl, by simp⟩ ends
  have full : (r = n ↔ pos = n) ∧ r ≤ n := by
    obtain ⟨rfl, rfl⟩ | ⟨less, last, -, ⟨errno, -, -, rfl⟩ | ⟨-, rfl⟩⟩ := outcome <;> omega
  refine ⟨m, r, calls, s', results, ?_, fun less => ⟨by omega, ?_⟩, inside⟩
  · rw [places, full.1]
    constructor
    · exact congrArg List.range
    · intro same
      simpa using congrArg List.length same
  · obtain ⟨-, whole⟩ | ⟨-, last, -, stopped⟩ := outcome
    · exact absurd whole less
    · rcases stopped with ⟨errno, call, hard, zero⟩ | ⟨call, short⟩
      · exact ⟨_, traced_last call, Or.inr ⟨errno, rfl, hard, zero⟩⟩
      · exact ⟨_, traced_last call, Or.inl ⟨rfl, short⟩⟩

/-- Two bytes come in two pieces with an interrupted call between them. -/
theorem atomIo_transfers_pieces :
    ∃ m r calls s', (∀ fuel ≥ m,
        atomIo readAt 2 fuel ([0, 0], ⟨[], [1, 2, 3], [.ready 1, .failed EINTR, .ready 1], [], [], [], []⟩) =
          some (r, s') ∧
        atomIo (traced readAt) 2 fuel
            ([], [0, 0], ⟨[], [1, 2, 3], [.ready 1, .failed EINTR, .ready 1], [], [], [], []⟩) =
          some (r, calls, s')) ∧
      (r = 2 ↔ calls.flatMap Call.places = List.range 2) ∧
      (r ≠ 2 → r < 2 ∧ ∃ call, calls.getLast? = some call ∧ StopsAt r call) ∧
      ∀ call ∈ calls, call.pos + call.count ≤ 2 := by
  apply atomIo_transfers readAt_bounded
  intro run start goesOn
  have found : loop (atomIoStep readAt 2) 4
      (0, [0, 0], ⟨[], [1, 2, 3], [.ready 1, .failed EINTR, .ready 1], [], [], [], []⟩) =
      some (2, [1, 2], ⟨[], [3], [], [], [], [], []⟩) := by decide
  exact ((ends_of_loop found).not_forever start goesOn).elim

end Piercloud.Connection
