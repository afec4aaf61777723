import Piercloud.Proof.Connection.Exchange

/-
This file says when `GetSockRow` takes exactly one row from the socket. It looks at the bytes that have arrived, and a
second call takes them. More bytes may have arrived in between.
-/

namespace Piercloud.Connection

open CLib Liblst Loop

/-- No call on the socket fails, and there is memory. -/
structure Ready (w : World) : Prop where
  memory : w.allocs = []
  flows : ∀ errno, .failed errno ∉ w.arrivals

/-- The newline is seen at the end of the row, or a window without it is taken before it arrives. -/
inductive InTime : Bytes → World → Prop where
  | seen {row bytes : Bytes} {w v : World} (peeked : recv (rowBufSize - 1) true w = (.ok bytes, v))
      (within : row.length < bytes.length) (clean : NUL ∉ row) : InTime row w
  | short {row bytes piece : Bytes} {w v v' : World} (peeked : recv (rowBufSize - 1) true w = (.ok bytes, v))
      (taken : recv (rowBufSize - 1) false v = (.ok piece, v')) (later : InTime row v') : InTime (piece ++ row) w

/-- Nothing that has arrived is lost before it is taken. -/
theorem arrive_grows {w v : World} (found : w.arrive = (none, v)) :
    ∃ more, v.arrived = w.arrived ++ more ∧ v.allocs = w.allocs := by
  cases outcomes : w.arrivals with
  | nil =>
      simp only [World.arrive, outcomes, Prod.mk.injEq, true_and] at found
      exact ⟨w.coming, by simp [← found]⟩
  | cons outcome rest =>
      cases outcome with
      | failed errno => simp [World.arrive, outcomes] at found
      | ready more =>
          simp only [World.arrive, outcomes, Prod.mk.injEq, true_and] at found
          exact ⟨_, by rw [← found], by rw [← found]⟩

section Calls

variable {w v : World} {bytes : Bytes} {size : Nat}

theorem Ready.exchange (ready : Ready w) {got : Bytes} (exchange : Exchange w got [] v) (same : v.allocs = w.allocs) :
    Ready v :=
  ⟨same.trans ready.memory, fun errno member => ready.flows errno (exchange.arrivals.subset member)⟩

/-- A call gives some of the bytes to come, or there are none. -/
theorem recv_ready (ready : Ready w) (size : Nat) (peek : Bool) :
    ∃ bytes v, recv size peek w = (.ok bytes, v) ∧ Exchange w (if peek then [] else bytes) [] v ∧ Ready v ∧
      bytes <+: w.stream ∧ bytes.length ≤ size ∧ (bytes = [] → size = 0 ∨ w.stream = []) := by
  obtain ⟨errno, v, -, -, member, -⟩ | ⟨bytes, v, found, exchange, shape⟩ := recv_cases size peek w
  · exact absurd member (ready.flows errno)
  · refine ⟨bytes, v, found, exchange, ready.exchange exchange ?_, shape⟩
    cases arrived : w.arrive with
    | mk failure u =>
        rw [recv, arrived] at found
        cases failure with
        | some errno => simp at found
        | none =>
            obtain ⟨more, -, same⟩ := arrive_grows arrived
            rw [← same, ← (Prod.mk.inj found).2]
            split <;> rfl

/-- What a call has seen is there for the next one. -/
theorem recv_seen (peeked : recv size true w = (.ok bytes, v)) (ready : Ready v) {n : Nat} (within : n ≤ bytes.length) :
    ∃ v', recv n false v = (.ok (bytes.take n), v') := by
  cases arrived : w.arrive with
  | mk failure u =>
      rw [recv, arrived] at peeked
      cases failure with
      | some errno => simp at peeked
      | none =>
          simp only [if_true, Prod.mk.injEq, Except.ok.injEq] at peeked
          obtain ⟨rfl, rfl⟩ := peeked
          obtain ⟨errno, u', -, -, member, -⟩ | ⟨u', found, -⟩ := arrive_cases u
          · exact absurd member (ready.flows errno)
          · obtain ⟨more, grown, -⟩ := arrive_grows found
            rw [List.length_take] at within
            refine ⟨{ u' with arrived := u'.arrived.drop n }, ?_⟩
            have front : u'.arrived.take n = (u.arrived.take size).take n := by
              rw [grown, List.take_take, Nat.min_eq_left (by omega), List.take_append_of_le_length (by omega)]
            simp only [recv, found, front, Bool.false_eq_true, if_false]

end Calls

/-- An iteration finds the end of the stream, or it takes bytes: up to the newline that it sees, or a window. -/
theorem getSockRowStep_ready {w : World} (ready : Ready w) (acc : Option Bytes) :
    (w.stream = [] ∧ ∃ v, getSockRowStep (acc, w) = .inr (acc, v) ∧ v.stream = []) ∨
      ∃ bytes v got v', recv (rowBufSize - 1) true w = (.ok bytes, v) ∧ bytes <+: w.stream ∧ got ≠ [] ∧
        Exchange w got [] v' ∧ Ready v' ∧
        ((∃ front tail, bytes = front ++ LF :: tail ∧ LF ∉ front ∧ NUL ∉ front ∧ got = front ++ [LF] ∧
            getSockRowStep (acc, w) = .inr (some (acc.getD [] ++ got), v')) ∨
          strchr bytes LF = none ∧ recv (rowBufSize - 1) false v = (.ok got, v') ∧
            getSockRowStep (acc, w) = .inl (some (acc.getD [] ++ got), v')) := by
  obtain ⟨bytes, v, peeked, seen, ready', front, -, last⟩ := recv_ready ready (rowBufSize - 1) true
  rw [if_pos rfl] at seen
  by_cases empty : bytes = []
  · have ended : w.stream = [] := (last empty).resolve_left (by decide)
    refine Or.inl ⟨ended, v, by simp [getSockRowStep, peeked, empty], ?_⟩
    simpa [ended] using seen.stream.symm
  · right
    have visible : bytes.isEmpty = false := by simpa using empty
    have appended : ∀ {v' : World} (got : Bytes), Ready v' →
        appendRow acc got v' = (some (acc.getD [] ++ got), v') := by
      intro v' got ready
      simp only [appendRow, malloc, ready.memory]
    cases found : strchr bytes LF with
    | some p =>
        obtain ⟨row, tail, rfl, rfl, absent, clean⟩ := strchr_some found
        obtain ⟨v', taken⟩ := recv_seen peeked ready' (n := row.length + 1) (by simp)
        have got : (row ++ LF :: tail).take (row.length + 1) = row ++ [LF] := by
          simp [List.take_append]
        rw [got] at taken
        obtain ⟨got', v'', taken', exchange, ready'', -⟩ := recv_ready ready' (row.length + 1) false
        obtain ⟨same, rfl⟩ := Prod.mk.inj (taken.symm.trans taken')
        obtain rfl := Except.ok.inj same
        refine ⟨_, v, row ++ [LF], v', peeked, front, by simp, seen.trans exchange, ready'', Or.inl ?_⟩
        refine ⟨row, tail, rfl, absent, clean, rfl, ?_⟩
        simp only [getSockRowStep, peeked, visible, found, taken, appended _ ready'', Bool.false_eq_true, if_false]
        simp
    | none =>
        obtain ⟨got, v', taken, exchange, ready'', -, -, real⟩ := recv_ready ready' (rowBufSize - 1) false
        have real : got ≠ [] := by
          intro none
          rcases real none with absurd | ended
          · exact (by decide : rowBufSize - 1 ≠ 0) absurd
          · rw [seen.stream, ended] at front
            exact empty (List.prefix_nil.mp front)
        refine ⟨_, v, got, v', peeked, front, real, seen.trans exchange, ready'', Or.inr ⟨found, taken, ?_⟩⟩
        simp only [getSockRowStep, peeked, visible, found, taken, appended _ ready'', Bool.false_eq_true, if_false]
        simp [real]

/-- The calls leave nothing in the socket that comes in front of what they have read, and they read something. -/
theorem sockRow_shrinks (fuel : Nat) {w : World} (ready : Ready w) (acc : Option Bytes)
    (enough : w.stream.length < fuel) :
    ∃ row w', loop getSockRowStep fuel (acc, w) = some (row, w') ∧
      (w.stream = [] ∧ row = acc ∧ w'.stream = [] ∨ w'.stream.length < w.stream.length) := by
  induction fuel generalizing acc w with
  | zero => omega
  | succ fuel ih =>
      rw [loop]
      obtain ⟨ended, v, stops, nothing⟩ | ⟨bytes, v, got, v', -, -, real, exchange, ready', step⟩ :=
        getSockRowStep_ready ready acc
      · exact ⟨acc, v, by rw [stops], Or.inl ⟨ended, rfl, nothing⟩⟩
      have shorter : v'.stream.length < w.stream.length := by
        have positive := List.length_pos_iff.mpr real
        simp only [exchange.stream, List.length_append]
        omega
      obtain ⟨front, tail, -, -, -, -, stops⟩ | ⟨-, -, goesOn⟩ := step
      · exact ⟨_, v', by rw [stops], Or.inr shorter⟩
      · obtain ⟨row, w', found, ⟨ended, -, nothing⟩ | later⟩ := ih ready' (some (acc.getD [] ++ got)) (by omega)
        · refine ⟨row, w', by rw [goesOn]; exact found, Or.inr ?_⟩
          rw [nothing]
          exact Nat.lt_of_le_of_lt (Nat.zero_le _) shorter
        · exact ⟨row, w', by rw [goesOn]; exact found, Or.inr (later.trans shorter)⟩

/-- Behind a window in which the newline is not seen, the rest of the row has to be in time. -/
theorem InTime.window_iff {w v v' : World} {bytes got row rest : Bytes}
    (peeked : recv (rowBufSize - 1) true w = (.ok bytes, v)) (hidden : strchr bytes LF = none)
    (taken : recv (rowBufSize - 1) false v = (.ok got, v')) (front : bytes <+: row ++ LF :: rest) (absent : LF ∉ row) :
    InTime row w ↔ ∃ row', row = got ++ row' ∧ InTime row' v' := by
  constructor
  · intro inTime
    cases inTime with
    | seen peeked' within clean =>
        obtain ⟨same, -⟩ := Prod.mk.inj (peeked.symm.trans peeked')
        obtain rfl := Except.ok.inj same
        obtain ⟨tail, rfl⟩ : row ++ [LF] <+: bytes := by
          apply List.prefix_of_prefix_length_le _ front (by simpa using within)
          exact ⟨rest, by simp⟩
        rw [List.append_assoc, List.singleton_append, strchr_split absent clean (by decide)] at hidden
        contradiction
    | short peeked' taken' later =>
        obtain ⟨-, rfl⟩ := Prod.mk.inj (peeked.symm.trans peeked')
        obtain ⟨same, rfl⟩ := Prod.mk.inj (taken.symm.trans taken')
        obtain rfl := Except.ok.inj same
        exact ⟨_, rfl, later⟩
  · rintro ⟨row', rfl, later⟩
    exact .short peeked taken later

/-- A window that is taken with the newline and bytes behind it leaves the row only if nothing else follows. -/
theorem sockRow_overrun (fuel : Nat) {v : World} (ready : Ready v) (acc : Option Bytes) (row more : Bytes)
    (enough : v.stream.length < fuel) :
    ∃ got w', loop getSockRowStep fuel (some (acc.getD [] ++ (row ++ LF :: more)), v) = some (got, w') ∧
      (got = some (acc.getD [] ++ row ++ [LF]) ∧ w'.stream = more ++ v.stream ↔ more ++ v.stream = []) := by
  obtain ⟨got, w', found, outcome⟩ := sockRow_shrinks fuel ready (some (acc.getD [] ++ (row ++ LF :: more))) enough
  refine ⟨got, w', found, ?_⟩
  rcases outcome with ⟨ended, rfl, nothing⟩ | less
  · cases more with
    | nil => simp [ended, nothing]
    | cons d more => simp
  · constructor
    · rintro ⟨-, same⟩
      simp only [same, List.length_append] at less
      omega
    · intro none
      obtain ⟨-, none⟩ := List.append_eq_nil_iff.mp none
      simp [none] at less

/-- The induction is on the iterations. A window that ends behind the newline leaves the row only if nothing follows. -/
theorem sockRow_exact (fuel : Nat) {w : World} (ready : Ready w) (acc : Option Bytes) {row rest : Bytes}
    (stream : w.stream = row ++ LF :: rest) (absent : LF ∉ row) (enough : w.stream.length < fuel) :
    ∃ got w', loop getSockRowStep fuel (acc, w) = some (got, w') ∧
      (got = some (acc.getD [] ++ row ++ [LF]) ∧ w'.stream = rest ↔ rest = [] ∨ InTime row w) := by
  induction fuel generalizing acc w row with
  | zero => omega
  | succ fuel ih =>
      rw [loop]
      obtain ⟨ended, -⟩ | ⟨bytes, v, got, v', peeked, front, real, exchange, ready', step⟩ :=
        getSockRowStep_ready ready acc
      · simp [ended] at stream
      have split : got ++ v'.stream = row ++ LF :: rest := by rw [← exchange.stream, stream]
      obtain ⟨seen, tail, rfl, absent', clean, rfl, stops⟩ | ⟨hidden, taken, goesOn⟩ := step
      · rw [List.append_assoc] at split
        obtain ⟨rfl, rfl⟩ := split_unique absent' absent split
        refine ⟨_, v', by rw [stops], iff_of_true ⟨by simp, rfl⟩ (Or.inr (.seen peeked (by simp) clean))⟩
      · have shorter : v'.stream.length < fuel := by
          have positive := List.length_pos_iff.mpr real
          simp only [exchange.stream, List.length_append] at enough
          omega
        rw [stream] at front
        rw [InTime.window_iff peeked hidden taken front absent]
        by_cases within : got.length ≤ row.length
        · obtain ⟨row', rfl, behind⟩ := append_cut split.symm within
          obtain ⟨final, w', found, exact⟩ := ih ready' (some (acc.getD [] ++ got)) behind.symm
            (fun member => absent (by simp [member])) shorter
          refine ⟨final, w', by rw [goesOn]; exact found, ?_⟩
          rw [Option.getD_some] at exact
          rw [← List.append_assoc (acc.getD []), exact]
          simp
        · obtain ⟨more, rfl, behind⟩ := append_cut split (by omega)
          have moreThanRow : ¬ ∃ row', row = row ++ more ++ row' ∧ InTime row' v' := by
            rintro ⟨row', same, -⟩
            have sizes := congrArg List.length same
            simp only [List.length_append] at sizes within
            omega
          obtain ⟨d, more, rfl⟩ : ∃ d tail, more = d :: tail := by
            apply List.exists_cons_of_ne_nil
            rintro rfl
            simp at within
          simp only [List.cons_append, List.cons.injEq] at behind
          obtain ⟨rfl, rfl⟩ := behind
          obtain ⟨final, w', found, exact⟩ := sockRow_overrun fuel ready' acc row more shorter
          exact ⟨final, w', by rw [goesOn]; exact found, by rw [or_iff_left moreThanRow]; exact exact⟩

/-- `GetSockRow` takes the row and its newline and nothing else exactly when nothing follows the row or the newline
is seen in time. -/
theorem getSockRow_exact_iff {w : World} (ready : Ready w) {row rest : Bytes} (stream : w.stream = row ++ LF :: rest)
    (absent : LF ∉ row) :
    (getSockRow w).1 = some (row ++ [LF]) ∧ (getSockRow w).2.stream = rest ↔ rest = [] ∨ InTime row w := by
  obtain ⟨got, w', found, exact⟩ := sockRow_exact _ ready none stream absent (Nat.lt_succ_self _)
  have result : getSockRow w = (got, w') := by
    rw [getSockRow, found, Option.getD_some]
  rw [result]
  simpa using exact

/-- The row comes in three pieces, and the last of them brings bytes behind it. -/
def slowPeer : World :=
  ⟨[], text "abcd\nHELLO", [.ready 2, .ready 0, .ready 5, .ready 3], [], [], [], []⟩

theorem getSockRow_exact_slowPeer : (getSockRow slowPeer).1 = some (text "abcd\n") ∧
    (getSockRow slowPeer).2.stream = text "HELLO" := by
  have ready : Ready slowPeer := ⟨rfl, by simp [slowPeer]⟩
  have inTime : InTime (text "ab" ++ text "cd") slowPeer := .short rfl rfl (.seen rfl (by decide) (by decide))
  have stream : slowPeer.stream = text "abcd" ++ LF :: text "HELLO" := by decide
  exact (getSockRow_exact_iff ready stream (by decide)).mpr (Or.inr inTime)

/-- The newline arrives behind the look at the first bytes, together with what follows it. -/
def hastyPeer : World := ⟨[], text "abc\nHELLO", [.ready 2, .ready 7], [], [], [], []⟩

theorem getSockRow_hastyPeer : Ready hastyPeer ∧ hastyPeer.stream = text "abc" ++ LF :: text "HELLO" ∧
    getSockRow hastyPeer = (some (text "abc\nHELLO"), ⟨[], [], [], [], [], [], []⟩) ∧
    ¬ ((getSockRow hastyPeer).1 = some (text "abc" ++ [LF]) ∧ (getSockRow hastyPeer).2.stream = text "HELLO") :=
  ⟨⟨rfl, by simp [hastyPeer]⟩, by decide, by decide, by decide⟩

end Piercloud.Connection
