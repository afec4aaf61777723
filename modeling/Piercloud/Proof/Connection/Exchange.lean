import Piercloud.Construction.Transport

/-
This file says what the reads and writes of the client take from the peer and give to it.
-/

namespace Piercloud.Connection

open CLib Liblst Loop

/-- Between the two worlds these bytes are read and those are written, and no descriptor is closed. -/
structure Exchange (w : World) (got put : Bytes) (w' : World) : Prop where
  stream : w.stream = got ++ w'.stream
  sent : w'.sent = w.sent ++ put
  closed : w'.closed = w.closed
  arrivals : w'.arrivals <:+ w.arrivals
  writes : w'.writes <:+ w.writes

theorem Exchange.refl (w : World) : Exchange w [] [] w :=
  ⟨rfl, (List.append_nil _).symm, rfl, List.suffix_refl _, List.suffix_refl _⟩

theorem Exchange.trans {w w' w'' : World} {got got' put put' : Bytes} (first : Exchange w got put w')
    (second : Exchange w' got' put' w'') : Exchange w (got ++ got') (put ++ put') w'' where
  stream := by rw [first.stream, second.stream, List.append_assoc]
  sent := by rw [second.sent, first.sent, List.append_assoc]
  closed := second.closed.trans first.closed
  arrivals := second.arrivals.trans first.arrivals
  writes := second.writes.trans first.writes

/-- Nothing is written by a read. -/
theorem Exchange.andRead {w w' w'' : World} {got got' put : Bytes} (first : Exchange w got put w')
    (second : Exchange w' got' [] w'') : Exchange w (got ++ got') put w'' := by
  simpa using first.trans second

/-- Nothing is read by a write. -/
theorem Exchange.andWrite {w w' w'' : World} {got put put' : Bytes} (first : Exchange w got put w')
    (second : Exchange w' [] put' w'') : Exchange w got (put ++ put') w'' := by
  simpa using first.trans second

/-- A failing call of these is tried again by `AtomIO`. -/
def Retried (errno : Nat) : Prop := errno = EINTR ∨ errno = EAGAIN

instance (errno : Nat) : Decidable (Retried errno) := inferInstanceAs (Decidable (_ ∨ _))

/-- No read fails for good. -/
def Calm (w : World) : Prop := ∀ errno, .failed errno ∈ w.arrivals → Retried errno

/-- No write fails for good. -/
def Willing (w : World) : Prop := ∀ errno real, .failed errno real ∈ w.writes → Retried errno

theorem Exchange.calm {w w' : World} {got put : Bytes} (exchange : Exchange w got put w') (calm : Calm w) : Calm w' :=
  fun errno member => calm errno (exchange.arrivals.subset member)

theorem Exchange.willing {w w' : World} {got put : Bytes} (exchange : Exchange w got put w') (willing : Willing w) :
    Willing w' :=
  fun errno real member => willing errno real (exchange.writes.subset member)

section AtomIo

variable {σ : Type} (f : Nat → Nat → σ → Except Nat Nat × σ) (n : Nat)

/-- The result is at most the count. -/
def Bounded : Prop := ∀ pos count s res s', f pos count s = (.ok res, s') → res ≤ count

/-- Every call of the loop keeps a relation between the position and the state. -/
structure Follows (keeps : Nat → σ → Prop) : Prop where
  fails : ∀ pos s errno s', keeps pos s → pos < n → f pos (n - pos) s = (.error errno, s') → keeps pos s'
  moves : ∀ pos s res s', keeps pos s → pos < n → f pos (n - pos) s = (.ok res, s') → keeps (pos + res) s'

/-- A failing call uses something up, and no call adds to it. -/
structure Spends (supply : σ → Nat) : Prop where
  fails : ∀ pos count s errno s', f pos count s = (.error errno, s') → supply s' < supply s
  moves : ∀ pos count s res s', f pos count s = (.ok res, s') → supply s' ≤ supply s

variable {f n} {keeps : Nat → σ → Prop} {supply : σ → Nat}

theorem follows_any : Follows f n fun _ _ => True :=
  ⟨fun _ _ _ _ _ _ _ => trivial, fun _ _ _ _ _ _ _ => trivial⟩

/-- An iteration is done, fails, is at the end of the stream, or transfers some bytes. -/
theorem atomIoStep_cases (bounded : Bounded f) {pos : Nat} (within : pos ≤ n) (s : σ) :
    pos = n ∧ atomIoStep f n (pos, s) = .inr (n, s) ∨
      (∃ errno s', pos < n ∧ f pos (n - pos) s = (.error errno, s') ∧
        atomIoStep f n (pos, s) = if Retried errno then .inl (pos, s') else .inr (0, s')) ∨
      (∃ s', pos < n ∧ f pos (n - pos) s = (.ok 0, s') ∧ atomIoStep f n (pos, s) = .inr (pos, s')) ∨
      ∃ res s', 0 < res ∧ pos + res ≤ n ∧ f pos (n - pos) s = (.ok res, s') ∧
        atomIoStep f n (pos, s) = .inl (pos + res, s') := by
  by_cases less : pos < n
  · right
    rcases call : f pos (n - pos) s with ⟨errno | _ | res, s'⟩
    · left
      refine ⟨errno, s', less, rfl, ?_⟩
      simp only [atomIoStep, less, if_true, call]
      rfl
    · right; left
      refine ⟨s', less, rfl, ?_⟩
      simp only [atomIoStep, less, if_true, call]
    · right; right
      have fits := bounded pos (n - pos) s (res + 1) s' call
      refine ⟨res + 1, s', by omega, by omega, rfl, ?_⟩
      simp only [atomIoStep, less, if_true, call]
  · left
    obtain rfl : pos = n := by omega
    exact ⟨rfl, by simp only [atomIoStep, less, if_false]⟩

/-- An iteration that goes on keeps the relation inside the count. A retry stays where it is, and another one moves. -/
theorem Follows.next (follows : Follows f n keeps) (bounded : Bounded f) {state state' : Nat × σ}
    (within : state.1 ≤ n) (start : keeps state.1 state.2) (step : atomIoStep f n state = .inl state') :
    state'.1 ≤ n ∧ keeps state'.1 state'.2 ∧
      ((∃ errno, f state.1 (n - state.1) state.2 = (.error errno, state'.2) ∧ Retried errno ∧ state'.1 = state.1) ∨
        ∃ res, f state.1 (n - state.1) state.2 = (.ok res, state'.2) ∧ 0 < res ∧ state'.1 = state.1 + res) := by
  obtain ⟨pos, s⟩ := state
  obtain ⟨-, done⟩ | ⟨errno, t, less, call, fails⟩ | ⟨t, -, -, ends⟩ | ⟨res, t, positive, fits, call, moves⟩ :=
    atomIoStep_cases bounded within s
  · simp [step] at done
  · rw [step] at fails
    split at fails
    · rename_i retried
      obtain rfl := Sum.inl.inj fails
      exact ⟨within, follows.fails pos s errno t start less call, Or.inl ⟨errno, call, retried, rfl⟩⟩
    · contradiction
  · simp [step] at ends
  · obtain rfl := Sum.inl.inj (step.symm.trans moves)
    exact ⟨fits, follows.moves pos s res t start (by omega) call, Or.inr ⟨res, call, positive, rfl⟩⟩

/-- The loop ends behind the last byte, or in a call that fails for good or is at the end of the stream. -/
theorem Follows.result (follows : Follows f n keeps) (bounded : Bounded f) {s s' : σ} {r : Nat} (start : keeps 0 s)
    (ends : Ends (atomIoStep f n) (0, s) (r, s')) :
    ∃ pos, keeps pos s' ∧ (pos = n ∧ r = n ∨ pos < n ∧ ∃ last, keeps pos last ∧
      ((∃ errno, f pos (n - pos) last = (.error errno, s') ∧ ¬ Retried errno ∧ r = 0) ∨
        f pos (n - pos) last = (.ok 0, s') ∧ r = pos)) := by
  let inside : Nat × σ → Prop := fun state => state.1 ≤ n ∧ keeps state.1 state.2
  have kept (state state' : Nat × σ) (before : inside state) (step : atomIoStep f n state = .inl state') :
      inside state' :=
    (follows.next bounded before.1 before.2 step).imp_right And.left
  obtain ⟨⟨pos, last⟩, ⟨within, keep⟩, stops⟩ := ends.invariant kept ⟨Nat.zero_le n, start⟩
  refine ⟨pos, ?_⟩
  obtain ⟨full, done⟩ | ⟨errno, t, less, call, fails⟩ | ⟨t, less, call, ended⟩ | ⟨res, t, -, -, -, moves⟩ :=
    atomIoStep_cases bounded within last
  · obtain ⟨rfl, rfl⟩ := Prod.mk.inj (Sum.inr.inj (stops.symm.trans done))
    exact ⟨keep, Or.inl ⟨full, rfl⟩⟩
  · rw [stops] at fails
    split at fails
    · contradiction
    · rename_i hard
      obtain ⟨rfl, rfl⟩ := Prod.mk.inj (Sum.inr.inj fails)
      exact ⟨follows.fails pos last errno s' keep less call,
        Or.inr ⟨less, last, keep, Or.inl ⟨errno, call, hard, rfl⟩⟩⟩
  · obtain ⟨rfl, rfl⟩ := Prod.mk.inj (Sum.inr.inj (stops.symm.trans ended))
    exact ⟨follows.moves r last 0 s' keep less call, Or.inr ⟨less, last, keep, Or.inr ⟨call, rfl⟩⟩⟩
  · simp [stops] at moves

/-- A loop whose failing calls use something up has a result. -/
theorem Spends.ends (spends : Spends f supply) (bounded : Bounded f) {s : σ} {fuel : Nat}
    (enough : n + supply s < fuel) :
    ∃ r s', atomIo f n fuel s = some (r, s') ∧ Ends (atomIoStep f n) (0, s) (r, s') := by
  have kept (state state' : Nat × σ) (within : state.1 ≤ n) (step : atomIoStep f n state = .inl state') :
      state'.1 ≤ n ∧ n - state'.1 + supply state'.2 < n - state.1 + supply state.2 := by
    obtain ⟨within', -, ⟨errno, call, -, same⟩ | ⟨res, call, positive, moved⟩⟩ :=
      follows_any.next bounded within trivial step
    · have less := spends.fails _ _ _ _ _ call
      omega
    · have less := spends.moves _ _ _ _ _ call
      omega
  obtain ⟨⟨r, s'⟩, found⟩ := Option.isSome_iff_exists.mp
    (loop_isSome (fun state : Nat × σ => n - state.1 + supply state.2) kept (Nat.zero_le n)
      (show n - (0, s).1 + supply (0, s).2 < fuel by simpa using enough))
  exact ⟨r, s', found, ends_of_loop found⟩

end AtomIo

/-- A call fails, or it sees some bytes unless the stream has ended. -/
theorem arrive_cases (w : World) :
    (∃ errno v, w.arrive = (some errno, v) ∧ Exchange w [] [] v ∧ .failed errno ∈ w.arrivals ∧
        v.arrivals.length < w.arrivals.length) ∨
      ∃ v, w.arrive = (none, v) ∧ Exchange w [] [] v ∧ (v.arrived = [] → v.coming = []) := by
  cases outcomes : w.arrivals with
  | nil =>
      right
      refine ⟨{ w with arrived := w.arrived ++ w.coming, coming := [] }, by rw [World.arrive, outcomes], ?_,
        fun _ => rfl⟩
      exact ⟨by simp [World.stream], by simp, rfl, List.suffix_refl _, List.suffix_refl _⟩
  | cons outcome rest =>
      cases outcome with
      | failed errno =>
          left
          refine ⟨errno, { w with arrivals := rest }, by rw [World.arrive, outcomes], ?_, by simp, by simp⟩
          exact ⟨rfl, by simp, rfl, by simp [outcomes], List.suffix_refl _⟩
      | ready more =>
          right
          refine ⟨_, by rw [World.arrive, outcomes], ?_, ?_⟩
          · exact ⟨by simp [World.stream], by simp, rfl, by simp [outcomes], List.suffix_refl _⟩
          · intro empty
            obtain ⟨here, none⟩ := List.append_eq_nil_iff.mp empty
            simp only [here, List.isEmpty_nil, if_true, List.take_eq_nil_iff] at none ⊢
            rcases none with none | none
            · omega
            · simp [none]

/-- A receiving call fails, or it gives a front of the stream. A peek takes nothing. -/
theorem recv_cases (size : Nat) (peek : Bool) (w : World) :
    (∃ errno w', recv size peek w = (.error errno, w') ∧ Exchange w [] [] w' ∧ .failed errno ∈ w.arrivals ∧
        w'.arrivals.length < w.arrivals.length) ∨
      ∃ bytes w', recv size peek w = (.ok bytes, w') ∧ Exchange w (if peek then [] else bytes) [] w' ∧
        bytes <+: w.stream ∧ bytes.length ≤ size ∧ (bytes = [] → size = 0 ∨ w.stream = []) := by
  obtain ⟨errno, v, found, failure⟩ | ⟨v, found, arrived, some⟩ := arrive_cases w
  · exact Or.inl ⟨errno, v, by rw [recv, found], failure⟩
  · right
    have whole : w.stream = v.arrived ++ v.coming := arrived.stream
    refine ⟨v.arrived.take size, _, by rw [recv, found], ?_, ?_, List.length_take_le _ _, ?_⟩
    · cases peek with
      | true => exact arrived
      | false =>
          refine ⟨?_, arrived.sent, arrived.closed, arrived.arrivals, arrived.writes⟩
          rw [whole, World.stream, if_neg Bool.false_ne_true, if_neg Bool.false_ne_true, ← List.append_assoc,
            List.take_append_drop]
    · rw [whole]
      exact (List.take_prefix _ _).trans (List.prefix_append _ _)
    · intro empty
      rcases List.take_eq_nil_iff.mp empty with none | empty
      · exact Or.inl none
      · exact Or.inr (by rw [whole, empty, some empty]; rfl)

@[simp] theorem store_nil (buf : Bytes) : store buf 0 [] = buf := by simp [store]

/-- The places fill up from the front. -/
theorem store_store (buf bytes more : Bytes) :
    store (store buf 0 bytes) bytes.length more = store buf 0 (bytes ++ more) := by
  simp [store, List.drop_append]

theorem length_storeAt {buf bytes : Bytes} {pos : Nat} (within : pos + bytes.length ≤ buf.length) :
    (store buf pos bytes).length = buf.length := by
  simp only [store, List.length_append, List.length_take, List.length_drop]
  omega

theorem length_store {buf bytes : Bytes} (within : bytes.length ≤ buf.length) :
    (store buf 0 bytes).length = buf.length :=
  length_storeAt (by omega)

theorem readAt_cases (pos count : Nat) (b : Bytes) (w : World) :
    (∃ errno w', readAt pos count (b, w) = (.error errno, b, w') ∧ Exchange w [] [] w' ∧ .failed errno ∈ w.arrivals ∧
        w'.arrivals.length < w.arrivals.length) ∨
      ∃ bytes w', readAt pos count (b, w) = (.ok bytes.length, store b pos bytes, w') ∧ Exchange w bytes [] w' ∧
        bytes.length ≤ count ∧ (bytes = [] → count = 0 ∨ w.stream = []) := by
  obtain ⟨errno, w', found, failure⟩ | ⟨bytes, w', found, exchange, -, size, some⟩ := recv_cases count false w
  · exact Or.inl ⟨errno, w', by simp only [readAt, found], failure⟩
  · exact Or.inr ⟨bytes, w', by simp only [readAt, found], exchange, size, some⟩

theorem readAt_bounded : Bounded readAt := by
  intro pos count state res state' call
  obtain ⟨b, w⟩ := state
  obtain ⟨errno, w', found, -⟩ | ⟨bytes, w', found, -, size, -⟩ := readAt_cases pos count b w
  · simp [found] at call
  · simp only [found, Prod.mk.injEq, Except.ok.injEq] at call
    omega

/-- The bytes that are read stand at the front of the buffer. -/
theorem readAt_follows (n : Nat) (buf : Bytes) (w : World) :
    Follows readAt n fun pos s => ∃ bytes, pos = bytes.length ∧ s.1 = store buf 0 bytes ∧ Exchange w bytes [] s.2 where
  fails pos s errno s' := by
    rintro ⟨bytes, rfl, front, exchange⟩ - call
    obtain ⟨b, v⟩ := s
    obtain ⟨errno', v', found, later, -⟩ | ⟨more, v', found, -⟩ := readAt_cases bytes.length (n - bytes.length) b v
    · obtain ⟨-, rfl⟩ := Prod.mk.inj (call.symm.trans found)
      exact ⟨bytes, rfl, front, by simpa using exchange.trans later⟩
    · simp [call] at found
  moves pos s res s' := by
    rintro ⟨bytes, rfl, front, exchange⟩ - call
    obtain ⟨b, v⟩ := s
    obtain rfl : b = store buf 0 bytes := front
    obtain ⟨errno', v', found, -⟩ | ⟨more, v', found, later, -⟩ :=
      readAt_cases bytes.length (n - bytes.length) (store buf 0 bytes) v
    · simp [call] at found
    · obtain ⟨size, rfl⟩ := Prod.mk.inj (call.symm.trans found)
      obtain rfl := Except.ok.inj size
      exact ⟨bytes ++ more, by simp, store_store buf bytes more, exchange.trans later⟩

theorem readAt_spends : Spends readAt fun s => s.2.arrivals.length where
  fails pos count s errno s' call := by
    obtain ⟨errno', v', found, -, -, shorter⟩ | ⟨bytes, v', found, -⟩ := readAt_cases pos count s.1 s.2
    · obtain ⟨-, rfl⟩ := Prod.mk.inj (call.symm.trans found)
      exact shorter
    · simp [call] at found
  moves pos count s res s' call := by
    obtain ⟨errno', v', found, -⟩ | ⟨bytes, v', found, exchange, -⟩ := readAt_cases pos count s.1 s.2
    · simp [call] at found
    · obtain ⟨-, rfl⟩ := Prod.mk.inj (call.symm.trans found)
      exact exchange.arrivals.length_le

/-- The bytes of a read stand at the front of the buffer, and they are all there when the count is full. -/
theorem atomRead_spec (n : Nat) (buf : Bytes) (w : World) :
    ∃ r bytes w', atomRead n buf w = (r, store buf 0 bytes, w') ∧ Exchange w bytes [] w' ∧ bytes.length ≤ n ∧
      (r = n → bytes.length = n) ∧ (Calm w → n ≤ w.stream.length → r = n) := by
  obtain ⟨r, ⟨b', w'⟩, found, ends⟩ := readAt_spends.ends readAt_bounded (s := (buf, w))
    (show n + w.arrivals.length < n + w.arrivals.length + 1 by omega)
  have result : atomRead n buf w = (r, b', w') := by
    rw [atomRead, found, Option.getD_some]
  obtain ⟨pos, ⟨bytes, size, front, exchange⟩, outcome⟩ :=
    (readAt_follows n buf w).result readAt_bounded ⟨[], rfl, by simp, .refl w⟩ ends
  refine ⟨r, bytes, w', by rw [result, ← front], exchange, ?_⟩
  obtain ⟨rfl, rfl⟩ | ⟨less, ⟨b, v⟩, ⟨earlier, size', -, before⟩, ⟨errno, call, hard, rfl⟩ | ⟨call, rfl⟩⟩ := outcome
  · exact ⟨size.ge, fun _ => size.symm, fun _ _ => rfl⟩
  · refine ⟨by omega, by omega, fun calm => ?_⟩
    obtain ⟨errno', v', found, -, member, -⟩ | ⟨more, v', found, -⟩ := readAt_cases pos (n - pos) b v
    · obtain ⟨same, -⟩ := Prod.mk.inj (call.symm.trans found)
      obtain rfl := Except.error.inj same
      exact absurd (before.calm calm errno member) hard
    · simp [call] at found
  · refine ⟨by omega, by omega, fun _ enough => ?_⟩
    obtain ⟨errno', v', found, -⟩ | ⟨more, v', found, -, -, some⟩ := readAt_cases r (n - r) b v
    · simp [call] at found
    · obtain ⟨none, -⟩ := Prod.mk.inj (call.symm.trans found)
      have nothing : more = [] := List.eq_nil_of_length_eq_zero (Except.ok.inj none).symm
      have ended : v.stream = [] := (some nothing).resolve_left (by omega)
      rw [before.stream, ended, List.append_nil] at enough
      omega

/-- A writing call fails, or it takes some of its bytes. -/
theorem write_cases (buf : Bytes) (w : World) :
    (∃ errno real w', write buf w = (.error errno, w') ∧ Exchange w [] [] w' ∧ .failed errno real ∈ w.writes ∧
        w'.writes.length < w.writes.length) ∨
      ∃ k w', write buf w = (.ok k, w') ∧ (buf ≠ [] → 0 < k) ∧ k ≤ buf.length ∧ Exchange w [] (buf.take k) w' := by
  cases outcomes : w.writes with
  | nil =>
      right
      refine ⟨buf.length, { w with sent := w.sent ++ buf }, by rw [write, outcomes], List.length_pos_iff.mpr, le_rfl,
        ?_⟩
      exact ⟨rfl, by simp, rfl, List.suffix_refl _, List.suffix_refl _⟩
  | cons outcome rest =>
      cases outcome with
      | took n positive =>
          right
          refine ⟨min n buf.length, { w with writes := rest, sent := w.sent ++ buf.take n }, by rw [write, outcomes],
            fun some => ?_, Nat.min_le_right _ _, ?_⟩
          · have longer := List.length_pos_iff.mpr some
            omega
          · exact ⟨rfl, by simp [List.take_eq_take_min], rfl, List.suffix_refl _, by simp [outcomes]⟩
      | failed errno real =>
          left
          refine ⟨errno, real, { w with writes := rest }, by rw [write, outcomes], ?_, by simp, by simp⟩
          exact ⟨rfl, by simp, rfl, List.suffix_refl _, by simp [outcomes]⟩

theorem writeAt_cases (pos count : Nat) (b : Bytes) (w : World) :
    (∃ errno real w', writeAt pos count (b, w) = (.error errno, b, w') ∧ Exchange w [] [] w' ∧
        .failed errno real ∈ w.writes ∧ w'.writes.length < w.writes.length) ∨
      ∃ k w', writeAt pos count (b, w) = (.ok k, b, w') ∧ ((b.drop pos).take count ≠ [] → 0 < k) ∧ k ≤ count ∧
        Exchange w [] ((b.drop pos).take k) w' := by
  obtain ⟨errno, real, w', found, failure⟩ | ⟨k, w', found, positive, size, exchange⟩ :=
    write_cases ((b.drop pos).take count) w
  · exact Or.inl ⟨errno, real, w', by simp only [writeAt, found], failure⟩
  · have fits := size.trans (List.length_take_le _ _)
    rw [List.take_take, Nat.min_eq_left fits] at exchange
    exact Or.inr ⟨k, w', by simp only [writeAt, found], positive, fits, exchange⟩

theorem writeAt_bounded : Bounded writeAt := by
  intro pos count state res state' call
  obtain ⟨errno, real, w', found, -⟩ | ⟨k, w', found, -, size, -⟩ := writeAt_cases pos count state.1 state.2
  · simp [call] at found
  · obtain ⟨same, -⟩ := Prod.mk.inj (call.symm.trans found)
    exact Except.ok.inj same ▸ size

theorem writeAt_spends : Spends writeAt fun s => s.2.writes.length where
  fails pos count s errno s' call := by
    obtain ⟨errno', real, v', found, -, -, shorter⟩ | ⟨k, v', found, -⟩ := writeAt_cases pos count s.1 s.2
    · obtain ⟨-, rfl⟩ := Prod.mk.inj (call.symm.trans found)
      exact shorter
    · simp [call] at found
  moves pos count s res s' call := by
    obtain ⟨errno', real, v', found, -⟩ | ⟨k, v', found, -, -, exchange⟩ := writeAt_cases pos count s.1 s.2
    · simp [call] at found
    · obtain ⟨-, rfl⟩ := Prod.mk.inj (call.symm.trans found)
      exact exchange.writes.length_le

/-- The front of the buffer up to the position is written. -/
theorem writeAt_follows (n : Nat) (buf : Bytes) (w : World) :
    Follows writeAt n fun pos s => s.1 = buf ∧ Exchange w [] (buf.take pos) s.2 where
  fails pos s errno s' := by
    rintro ⟨same, exchange⟩ - call
    obtain ⟨errno', real, v', found, later, -⟩ | ⟨k, v', found, -⟩ := writeAt_cases pos (n - pos) s.1 s.2
    · obtain ⟨-, rfl⟩ := Prod.mk.inj (call.symm.trans found)
      exact ⟨same, by simpa using exchange.trans later⟩
    · simp [call] at found
  moves pos s res s' := by
    rintro ⟨same, exchange⟩ - call
    obtain ⟨errno', real, v', found, -⟩ | ⟨k, v', found, -, -, later⟩ := writeAt_cases pos (n - pos) s.1 s.2
    · simp [call] at found
    · obtain ⟨size, rfl⟩ := Prod.mk.inj (call.symm.trans found)
      obtain rfl := Except.ok.inj size
      rw [same] at later
      refine ⟨same, ?_⟩
      rw [List.take_add]
      exact exchange.trans later

/-- The front of the buffer is written, and all of it when the count is full. -/
theorem atomWrite_spec {n : Nat} {buf : Bytes} (room : n ≤ buf.length) (w : World) :
    ∃ r k w', atomWrite n buf w = (r, buf, w') ∧ Exchange w [] (buf.take k) w' ∧ (r = n → k = n) ∧
      (Willing w → r = n) := by
  obtain ⟨r, ⟨b', w'⟩, found, ends⟩ := writeAt_spends.ends writeAt_bounded (s := (buf, w))
    (show n + w.writes.length < n + w.writes.length + 1 by omega)
  have result : atomWrite n buf w = (r, b', w') := by
    rw [atomWrite, found, Option.getD_some]
  have start : buf = buf ∧ Exchange w [] (buf.take 0) w := ⟨rfl, .refl w⟩
  obtain ⟨pos, ⟨rfl, exchange⟩, outcome⟩ := (writeAt_follows n buf w).result writeAt_bounded start ends
  refine ⟨r, pos, w', result, exchange, ?_⟩
  obtain ⟨rfl, rfl⟩ | ⟨less, ⟨b, v⟩, ⟨same, before⟩, ⟨errno, call, hard, rfl⟩ | ⟨call, rfl⟩⟩ := outcome
  · exact ⟨fun _ => rfl, fun _ => rfl⟩
  · refine ⟨by omega, fun willing => ?_⟩
    obtain ⟨errno', real, v', found, -, member, -⟩ | ⟨k, v', found, -⟩ := writeAt_cases pos (n - pos) b v
    · obtain ⟨same, -⟩ := Prod.mk.inj (call.symm.trans found)
      obtain rfl := Except.error.inj same
      exact absurd (before.willing willing errno real member) hard
    · simp [call] at found
  · refine ⟨id, fun _ => ?_⟩
    -- A write that takes nothing does not happen in front of the last byte.
    obtain ⟨errno', real, v', found, -⟩ | ⟨k, v', found, positive, -⟩ := writeAt_cases r (n - r) b v
    · simp [call] at found
    · have some : (b.drop r).take (n - r) ≠ [] := by
        have long : n ≤ b.length := (show b = b' from same) ▸ room
        rw [← List.length_pos_iff, List.length_take, List.length_drop]
        omega
      obtain ⟨none, -⟩ := Prod.mk.inj (call.symm.trans found)
      exact absurd (positive some) (Except.ok.inj none ▸ lt_irrefl 0)

/-- A read comes short, or the bytes stand at the front of the buffer. -/
theorem atomRead_cases (n : Nat) (buf : Bytes) (w : World) :
    (∃ r b got w', atomRead n buf w = (r, b, w') ∧ r ≠ n ∧ Exchange w got [] w' ∧
        (Calm w → w.stream.length < n)) ∨
      ∃ bytes w', atomRead n buf w = (n, store buf 0 bytes, w') ∧ bytes.length = n ∧ Exchange w bytes [] w' := by
  obtain ⟨r, bytes, w', found, exchange, -, full, enough⟩ := atomRead_spec n buf w
  by_cases whole : r = n
  · subst whole
    exact Or.inr ⟨bytes, w', found, full rfl, exchange⟩
  · refine Or.inl ⟨r, _, bytes, w', found, whole, exchange, fun calm => ?_⟩
    by_contra long
    exact whole (enough calm (by omega))

/-- A write comes short, or the front of the buffer is written. -/
theorem atomWrite_cases {n : Nat} {buf : Bytes} (room : n ≤ buf.length) (w : World) :
    (∃ r put w', atomWrite n buf w = (r, buf, w') ∧ r ≠ n ∧ Exchange w [] put w' ∧ ¬ Willing w) ∨
      ∃ w', atomWrite n buf w = (n, buf, w') ∧ Exchange w [] (buf.take n) w' := by
  obtain ⟨r, k, w', found, exchange, full, enough⟩ := atomWrite_spec room w
  by_cases whole : r = n
  · obtain rfl := full whole
    exact Or.inr ⟨w', whole ▸ found, exchange⟩
  · exact Or.inl ⟨r, _, w', found, whole, exchange, fun willing => whole (enough willing)⟩

/-- The memory for the bytes is there, or the row is lost. -/
theorem appendRow_cases (row : Option Bytes) (buf : Bytes) (w : World) :
    ∃ w', Exchange w [] [] w' ∧
      (appendRow row buf w = (none, w') ∨ appendRow row buf w = (some (row.getD [] ++ buf), w')) := by
  have same : ∀ rest, Exchange w [] [] { w with allocs := rest } := fun rest =>
    ⟨rfl, by simp, rfl, List.suffix_refl _, List.suffix_refl _⟩
  cases outcomes : w.allocs with
  | nil => exact ⟨w, .refl w, Or.inr (by simp only [appendRow, malloc, outcomes])⟩
  | cons ok rest =>
      refine ⟨{ w with allocs := rest }, same rest, ?_⟩
      cases ok with
      | true => exact Or.inr (by simp only [appendRow, malloc, outcomes])
      | false => exact Or.inl (by simp only [appendRow, malloc, outcomes])

/-- The bytes that were seen do not come, or they go to the end of the row, or there is no memory for them. -/
theorem takeRow_cases (size : Nat) (row : Option Bytes) (w : World) :
    ∃ got w', Exchange w got [] w' ∧
      ((∃ errno, recv size false w = (.error errno, w')) ∨ recv size false w = (.ok [], w') ∨
        got ≠ [] ∧ ∃ v, recv size false w = (.ok got, v) ∧
          (appendRow row got v = (none, w') ∨ appendRow row got v = (some (row.getD [] ++ got), w'))) := by
  obtain ⟨errno, v, taken, exchange, -⟩ | ⟨bytes, v, taken, exchange, -⟩ := recv_cases size false w
  · exact ⟨[], v, exchange, Or.inl ⟨errno, taken⟩⟩
  rw [if_neg Bool.false_ne_true] at exchange
  by_cases none : bytes = []
  · subst none
    exact ⟨[], v, exchange, Or.inr (Or.inl taken)⟩
  · obtain ⟨w', last, outcome⟩ := appendRow_cases row bytes v
    exact ⟨bytes, w', by simpa using exchange.trans last, Or.inr (Or.inr ⟨none, v, taken, outcome⟩)⟩

/-- An iteration ends with the row that it has, loses it, or makes it longer. -/
theorem getSockRowStep_cases (row : Option Bytes) (w : World) :
    ∃ got w', Exchange w got [] w' ∧
      (getSockRowStep (row, w) = .inr (row, w') ∧ got = [] ∨ getSockRowStep (row, w) = .inr (none, w') ∨
        got ≠ [] ∧ ∃ longer, getSockRowStep (row, w) = .inr (some longer, w') ∨
          getSockRowStep (row, w) = .inl (some longer, w')) := by
  obtain ⟨errno, v, peeked, exchange, -⟩ | ⟨buf, v, peeked, exchange, -⟩ := recv_cases (rowBufSize - 1) true w
  · exact ⟨[], v, exchange, Or.inl ⟨by simp only [getSockRowStep, peeked], rfl⟩⟩
  rw [if_pos rfl] at exchange
  by_cases empty : buf.isEmpty
  · exact ⟨[], v, exchange, Or.inl ⟨by simp only [getSockRowStep, peeked, empty, if_true], rfl⟩⟩
  cases found : strchr buf LF with
  | some p =>
      obtain ⟨got, w', later, ⟨errno, taken⟩ | taken | ⟨real, v', taken, lost | longer⟩⟩ := takeRow_cases (p + 1) row v
      · exact ⟨got, w', exchange.trans later, Or.inr (Or.inl (by simp [getSockRowStep, peeked, empty, found, taken]))⟩
      · exact ⟨got, w', exchange.trans later, Or.inr (Or.inl (by simp [getSockRowStep, peeked, empty, found, taken]))⟩
      · refine ⟨got, w', exchange.trans later, Or.inr (Or.inl ?_)⟩
        simp [getSockRowStep, peeked, empty, found, taken, real, lost]
      · refine ⟨got, w', exchange.trans later, Or.inr (Or.inr ⟨real, row.getD [] ++ got, Or.inl ?_⟩)⟩
        simp [getSockRowStep, peeked, empty, found, taken, real, longer]
  | none =>
      obtain ⟨got, w', later, ⟨errno, taken⟩ | taken | ⟨real, v', taken, lost | longer⟩⟩ :=
        takeRow_cases (rowBufSize - 1) row v
      · exact ⟨got, w', exchange.trans later, Or.inr (Or.inl (by simp [getSockRowStep, peeked, empty, found, taken]))⟩
      · exact ⟨got, w', exchange.trans later, Or.inr (Or.inl (by simp [getSockRowStep, peeked, empty, found, taken]))⟩
      · refine ⟨got, w', exchange.trans later, Or.inr (Or.inl ?_)⟩
        simp [getSockRowStep, peeked, empty, found, taken, real, lost]
      · refine ⟨got, w', exchange.trans later, Or.inr (Or.inr ⟨real, row.getD [] ++ got, Or.inr ?_⟩)⟩
        simp [getSockRowStep, peeked, empty, found, taken, real, longer]

/-- A row that is there has taken some bytes from the socket. -/
theorem getSockRow_spec (w : World) :
    ∃ row got w', getSockRow w = (row, w') ∧ Exchange w got [] w' ∧ (row.isSome → got ≠ []) := by
  let keeps : Option Bytes × World → Prop := fun s => ∃ got, Exchange w got [] s.2 ∧ (s.1.isSome → got ≠ [])
  have start : keeps (none, w) := ⟨[], .refl w, by simp⟩
  have kept : ∀ s t, keeps s → getSockRowStep s = .inl t → keeps t ∧ t.2.stream.length < s.2.stream.length := by
    rintro ⟨row, v⟩ t ⟨got, exchange, -⟩ step
    obtain ⟨more, v', later, ⟨stops, -⟩ | stops | ⟨real, longer, stops | goesOn⟩⟩ := getSockRowStep_cases row v
    · simp [stops] at step
    · simp [stops] at step
    · simp [stops] at step
    · obtain rfl := Sum.inl.inj (goesOn.symm.trans step)
      have positive := List.length_pos_iff.mpr real
      refine ⟨⟨got ++ more, exchange.trans later, fun _ => by simp [real]⟩, ?_⟩
      simp only [later.stream, List.length_append]
      omega
  obtain ⟨⟨row, w'⟩, ⟨row', v⟩, found, ⟨got, exchange, some⟩, last⟩ :=
    loop_result (fun s => s.2.stream.length) kept start (Nat.lt_succ_self w.stream.length)
  refine ⟨row, ?_⟩
  have result : getSockRow w = (row, w') := by
    rw [getSockRow, found, Option.getD_some]
  obtain ⟨more, v', later, ⟨stops, rfl⟩ | stops | ⟨real, longer, stops | goesOn⟩⟩ := getSockRowStep_cases row' v
  · obtain ⟨rfl, rfl⟩ := Prod.mk.inj (Sum.inr.inj (stops.symm.trans last))
    exact ⟨got, v', result, by simpa using exchange.trans later, some⟩
  · obtain ⟨rfl, rfl⟩ := Prod.mk.inj (Sum.inr.inj (stops.symm.trans last))
    exact ⟨got ++ more, v', result, exchange.trans later, by simp⟩
  · obtain ⟨rfl, rfl⟩ := Prod.mk.inj (Sum.inr.inj (stops.symm.trans last))
    exact ⟨got ++ more, v', result, exchange.trans later, fun _ => by simp [real]⟩
  · simp [goesOn] at last

end Piercloud.Connection
