import Piercloud.Construction.Transfer

/-
This file shows that `Write` delivers all of its data, and that the copy loops deliver all of their input.
-/

namespace Piercloud.Liblst

open CLib Loop

def WriteOutcome.Took : WriteOutcome → Prop
  | .took _ _ => True
  | .failed _ _ => False

/-- The loop gives up after this outcome. -/
def WriteOutcome.Hard : WriteOutcome → Prop
  | .took _ _ => False
  | .failed errno _ => ¬ Transient errno

/-- What is delivered is the front of the data, and `len` counts the rest. -/
structure Kept (data : Bytes) (s : Writing) : Prop where
  delivered : s.delivered = data.take s.t
  rest : s.t + s.len = data.length

theorem Kept.initial (data : Bytes) (attempt : Nat) : Kept data (.initial data.length attempt) :=
  ⟨by simp [Writing.initial], by simp [Writing.initial]⟩

/-- Nothing is missing when no byte is left. -/
theorem Kept.whole {data : Bytes} {s : Writing} (kept : Kept data s) (done : s.len = 0) :
    s.delivered = data ∧ s.t = data.length := by
  have all : s.t = data.length := by
    have rest := kept.rest
    omega
  exact ⟨by rw [kept.delivered, all, List.take_length], all⟩

/-- This is the state behind a write of `n` bytes. -/
def Writing.advanced (data : Bytes) (s : Writing) (n : Nat) : Writing :=
  ⟨s.attempt + 1, s.t + n, s.len - n, s.errno, s.delivered ++ (data.drop s.t).take n⟩

theorem Kept.advanced {data : Bytes} {s : Writing} (kept : Kept data s) {n : Nat} (within : n ≤ s.len) :
    Kept data (s.advanced data n) where
  delivered := by
    simp only [Writing.advanced, kept.delivered]
    exact List.take_add.symm
  rest := by
    have rest := kept.rest
    simp only [Writing.advanced]
    omega

section Step

variable {sink : Sink} {data : Bytes} {safeErrno : Nat} {s : Writing}

theorem writeStep_done {n : Nat} {positive : 0 < n} (outcome : sink s.attempt = .took n positive)
    (done : s.len = 0) :
    writeStep sink data safeErrno s = .inr (true, { s with attempt := s.attempt + 1 }) := by
  simp only [writeStep, outcome, done, Nat.min_zero, if_true]

theorem writeStep_took {n : Nat} {positive : 0 < n} (outcome : sink s.attempt = .took n positive)
    (some : 0 < s.len) :
    writeStep sink data safeErrno s = .inl (s.advanced data (min n s.len)) := by
  have moved : ¬ min n s.len = 0 := by omega
  simp only [writeStep, outcome, if_neg moved, Writing.advanced]

theorem writeStep_transient {errno : Nat} {real : errno ≠ 0} (outcome : sink s.attempt = .failed errno real)
    (transient : Transient errno) :
    writeStep sink data safeErrno s = .inl { s with attempt := s.attempt + 1, errno := safeErrno } := by
  simp only [writeStep, outcome, if_pos transient]

theorem writeStep_hard {errno : Nat} {real : errno ≠ 0} (outcome : sink s.attempt = .failed errno real)
    (hard : ¬ Transient errno) :
    writeStep sink data safeErrno s = .inr (false, { s with attempt := s.attempt + 1, errno := errno }) := by
  simp only [writeStep, outcome, if_neg hard]

end Step

/-- The system takes these bytes of the data in the next attempts, each of which goes on behind the one before it. -/
def takenBytes (sink : Sink) : Nat → Nat → Bytes → Bytes
  | _, 0, _ => []
  | attempt, count + 1, data =>
      match sink attempt with
      | .took n _ => data.take n ++ takenBytes sink (attempt + 1) count (data.drop n)
      | .failed _ _ => takenBytes sink (attempt + 1) count data

section Taken

variable {sink : Sink} {data : Bytes} {safeErrno : Nat} {s : Writing}

theorem takenBytes_took {n : Nat} {positive : 0 < n} (outcome : sink s.attempt = .took n positive) (count : Nat) :
    takenBytes sink s.attempt (count + 1) data =
      data.take n ++ takenBytes sink (s.attempt + 1) count (data.drop n) := by
  simp only [takenBytes, outcome]

theorem takenBytes_failed {errno : Nat} {real : errno ≠ 0} (outcome : sink s.attempt = .failed errno real)
    (count : Nat) : takenBytes sink s.attempt (count + 1) data = takenBytes sink (s.attempt + 1) count data := by
  simp only [takenBytes, outcome]

/-- The loop delivers what the system takes in its attempts. -/
theorem writeLoop_takenBytes {result : Bool × Writing} (ends : Ends (writeStep sink data safeErrno) s result)
    (kept : Kept data s) : ∃ count, result.2.attempt = s.attempt + count ∧
      result.2.delivered = s.delivered ++ takenBytes sink s.attempt count (data.drop s.t) := by
  induction ends with
  | @last s result stops =>
      refine ⟨1, ?_⟩
      cases outcome : sink s.attempt with
      | failed errno real =>
          rw [takenBytes_failed outcome, takenBytes, List.append_nil]
          by_cases transient : Transient errno
          · simp [writeStep_transient outcome transient] at stops
          · rw [writeStep_hard outcome transient] at stops
            obtain rfl := Sum.inr.inj stops
            exact ⟨rfl, rfl⟩
      | took n positive =>
          by_cases done : s.len = 0
          · rw [writeStep_done outcome done] at stops
            obtain rfl := Sum.inr.inj stops
            have behind : data.drop s.t = [] := by
              have rest := kept.rest
              rw [List.drop_eq_nil_iff]
              omega
            rw [takenBytes_took outcome, behind, takenBytes]
            simp
          · simp [writeStep_took outcome (Nat.pos_of_ne_zero done)] at stops
  | @next s t result goesOn later ih =>
      cases outcome : sink s.attempt with
      | failed errno real =>
          by_cases transient : Transient errno
          · rw [writeStep_transient outcome transient] at goesOn
            obtain rfl := Sum.inl.inj goesOn
            obtain ⟨count, attempts, delivered⟩ := ih ⟨kept.delivered, kept.rest⟩
            refine ⟨count + 1, ?_, ?_⟩
            · rw [attempts]
              simp only
              omega
            · rw [takenBytes_failed outcome]
              exact delivered
          · simp [writeStep_hard outcome transient] at goesOn
      | took n positive =>
          by_cases done : s.len = 0
          · simp [writeStep_done outcome done] at goesOn
          · rw [writeStep_took outcome (Nat.pos_of_ne_zero done)] at goesOn
            obtain rfl := Sum.inl.inj goesOn
            obtain ⟨count, attempts, delivered⟩ := ih (kept.advanced (Nat.min_le_right n s.len))
            -- An outcome may be larger than what is left.
            have left : (data.drop s.t).length = s.len := by
              have rest := kept.rest
              rw [List.length_drop]
              omega
            have piece : (data.drop s.t).take n = (data.drop s.t).take (min n s.len) := by
              rw [List.take_eq_take_min, left]
            have behind : (data.drop s.t).drop n = data.drop (s.t + min n s.len) := by
              rw [List.drop_eq_drop_min, left, List.drop_drop]
            refine ⟨count + 1, ?_, ?_⟩
            · rw [attempts, Writing.advanced]
              simp only
              omega
            · rw [delivered, takenBytes_took outcome, piece, behind, ← List.append_assoc]
              rfl

end Taken

/-- Every failure is transient, and behind each attempt comes one that takes bytes. -/
structure Relays (sink : Sink) : Prop where
  soft : ∀ i, ¬ (sink i).Hard
  progress : ∀ i, ∃ j ≥ i, (sink j).Took

/-- The outer induction is on the bytes that are left, and the inner one on the failures in a row. -/
theorem writeLoop_delivers {sink : Sink} (relays : Relays sink) (data : Bytes) (safeErrno : Nat) (len : Nat) :
    ∀ s : Writing, Kept data s → s.len = len →
      ∃ t, Ends (writeStep sink data safeErrno) s (true, t) ∧ Kept data t ∧ t.len = 0 := by
  induction len using Nat.strong_induction_on with
  | _ len smaller =>
      have taken : ∀ s : Writing, Kept data s → s.len = len → (sink s.attempt).Took →
          ∃ t, Ends (writeStep sink data safeErrno) s (true, t) ∧ Kept data t ∧ t.len = 0 := by
        intro s kept left took
        cases outcome : sink s.attempt with
        | failed errno real => simp [outcome, WriteOutcome.Took] at took
        | took n positive =>
            by_cases done : s.len = 0
            · exact ⟨_, .last (writeStep_done outcome done), ⟨kept.delivered, kept.rest⟩, done⟩
            · obtain ⟨t, ends, finished⟩ := smaller (s.len - min n s.len) (by omega) _
                (kept.advanced (Nat.min_le_right n s.len)) rfl
              exact ⟨t, .next (writeStep_took outcome (by omega)) ends, finished⟩
      have waits : ∀ wait, ∀ s : Writing, Kept data s → s.len = len → (sink (s.attempt + wait)).Took →
          ∃ t, Ends (writeStep sink data safeErrno) s (true, t) ∧ Kept data t ∧ t.len = 0 := by
        intro wait
        induction wait with
        | zero => exact taken
        | succ wait ih =>
            intro s kept left took
            cases outcome : sink s.attempt with
            | took n positive => exact taken s kept left (by rw [outcome]; trivial)
            | failed errno real =>
                have transient : Transient errno := by
                  have soft := relays.soft s.attempt
                  rw [outcome] at soft
                  exact not_not.mp soft
                rw [← Nat.add_assoc, Nat.add_right_comm] at took
                obtain ⟨t, ends, finished⟩ := ih { s with attempt := s.attempt + 1, errno := safeErrno }
                  ⟨kept.delivered, kept.rest⟩ left took
                exact ⟨t, .next (writeStep_transient outcome transient) ends, finished⟩
      intro s kept left
      obtain ⟨j, later, took⟩ := relays.progress s.attempt
      exact waits (j - s.attempt) s kept left (by rwa [Nat.add_sub_cancel' later])

/-- `Write` returns the length of its data, which the system takes in its attempts, and `errno` is what it was. -/
theorem write_delivers {sink : Sink} (relays : Relays sink) (data : Bytes) (safeErrno attempt : Nat) :
    ∃ n count, takenBytes sink attempt count data = data ∧ ∀ fuel ≥ n,
      write sink data safeErrno attempt fuel = some ⟨data.length, safeErrno, attempt + count, data⟩ := by
  obtain ⟨t, ends, kept, done⟩ := writeLoop_delivers relays data safeErrno data.length _ (Kept.initial data attempt) rfl
  obtain ⟨n, found⟩ := ends.eventually
  obtain ⟨delivered, whole⟩ := kept.whole done
  obtain ⟨count, attempts, taken⟩ := writeLoop_takenBytes ends (Kept.initial data attempt)
  have last : t.attempt = attempt + count := attempts
  refine ⟨n, count, taken.symm.trans delivered, fun fuel enough => ?_⟩
  simp only [write, found fuel enough, Option.map_some, if_true, delivered, whole, last]

end Piercloud.Liblst

namespace Piercloud.Cgi

open CLib Loop Liblst

def Input.bytes : Input → Bytes
  | .data piece => piece
  | .failed _ => []

/-- A read gives some bytes or fails for now. -/
def Input.Flows : Input → Prop
  | .data piece => piece ≠ []
  | .failed errno => Transient errno

instance : DecidablePred Input.Flows
  | .data piece => inferInstanceAs (Decidable (piece ≠ []))
  | .failed errno => inferInstanceAs (Decidable (Transient errno))

/-- These are the bytes that come before the end. -/
def arriving (reads : List Input) : Bytes := reads.flatMap Input.bytes

/-- A read makes this measure smaller. -/
def inputSize (reads : List Input) : Nat := (reads.map fun input => input.bytes.length + 1).sum

/-- A read of data gives some of the bytes to come, and what is left comes as before. -/
theorem read_data {size : Nat} (room : 0 < size) {comes : Input → Prop}
    (pieces : ∀ piece, comes (.data piece) ↔ piece ≠ []) {piece : Bytes} {rest : List Input}
    (all : ∀ input ∈ .data piece :: rest, comes input) :
    ∃ buf reads, read size (.data piece :: rest) = (.data buf, reads) ∧ buf ≠ [] ∧ buf.length ≤ size ∧
      arriving (.data piece :: rest) = buf ++ arriving reads ∧ (∀ input ∈ reads, comes input) ∧
      inputSize reads < inputSize (.data piece :: rest) := by
  have some : piece ≠ [] := (pieces piece).mp (all (.data piece) (by simp))
  have later : ∀ input ∈ rest, comes input := fun input member => all input (by simp [member])
  rw [read]
  split
  · rename_i short
    exact ⟨piece, rest, rfl, some, short, by simp [arriving, Input.bytes], later, by simp [inputSize]⟩
  · rename_i long
    have tail : piece.drop size ≠ [] := by simpa using long
    have whole : arriving (.data piece :: rest) = piece.take size ++ arriving (.data (piece.drop size) :: rest) := by
      simp only [arriving, List.flatMap_cons, Input.bytes, ← List.append_assoc, List.take_append_drop]
    refine ⟨_, _, rfl, by simpa using ⟨by omega, some⟩, List.length_take_le _ _, whole, ?_, ?_⟩
    · rintro input (_ | ⟨_, member⟩)
      · exact (pieces _).mpr tail
      · exact later input member
    · simp only [inputSize, List.map_cons, List.sum_cons, Input.bytes, List.length_drop]
      omega

/-- The system takes the pieces one behind the other, and each of them in some attempts of its own. -/
def TakenInTurn (sink : Sink) : Nat → List Bytes → Nat → Prop
  | attempt, [], next => next = attempt
  | attempt, piece :: pieces, next =>
      ∃ count, takenBytes sink attempt count piece = piece ∧ TakenInTurn sink (attempt + count) pieces next

/-- The induction is on what is still to come, and each iteration delivers the bytes that it reads. -/
theorem copyLoop_delivers {sink : Sink} (relays : Relays sink) {size : Nat} (room : 0 < size) (reads : List Input)
    (flows : ∀ input ∈ reads, Input.Flows input) (attempt : Nat) (delivered : Bytes) :
    ∃ n next pieces, pieces.flatten = arriving reads ∧ TakenInTurn sink attempt pieces next ∧
      ∀ inner ≥ n, ∀ fuel ≥ n, loop (copyStep size sink inner) fuel ⟨reads, attempt, delivered⟩ =
        some (some (.left, ⟨[], next, delivered ++ arriving reads⟩)) := by
  induction smaller : inputSize reads using Nat.strong_induction_on generalizing reads attempt delivered with
  | _ measure ih =>
      subst smaller
      rcases reads with _ | ⟨input, rest⟩
      · refine ⟨1, attempt, [], rfl, rfl, fun inner _ fuel enough => ?_⟩
        obtain ⟨fuel, rfl⟩ := Nat.exists_eq_add_of_le' enough
        simp [loop, copyStep, read, arriving]
      · cases input with
        | failed errno =>
            have transient : Transient errno := flows (.failed errno) (by simp)
            obtain ⟨n, next, pieces, whole, taken, later⟩ := ih (inputSize rest) (by simp [inputSize]) rest
              (fun input member => flows input (by simp [member])) attempt delivered rfl
            refine ⟨n + 1, next, pieces, whole, taken, fun inner enough fuel enough' => ?_⟩
            obtain ⟨fuel, rfl⟩ := Nat.exists_eq_add_of_le' (show 1 ≤ fuel by omega)
            have step : copyStep size sink inner ⟨.failed errno :: rest, attempt, delivered⟩ =
                .inl ⟨rest, attempt, delivered⟩ := by
              simp only [copyStep, read, if_pos transient]
            rw [loop, step]
            exact later inner (by omega) fuel (by omega)
        | data piece =>
            obtain ⟨buf, reads, taken, some, -, split, flows', shrinks⟩ := read_data room (fun piece => Iff.rfl) flows
            obtain ⟨n, count, all, written⟩ := write_delivers relays buf 0 attempt
            obtain ⟨m, last, pieces, whole, turns, later⟩ :=
              ih (inputSize reads) shrinks reads flows' (attempt + count) (delivered ++ buf) rfl
            refine ⟨max n m + 1, last, buf :: pieces, by rw [List.flatten_cons, whole, split], ⟨count, all, turns⟩,
              fun inner enough fuel enough' => ?_⟩
            obtain ⟨fuel, rfl⟩ := Nat.exists_eq_add_of_le' (show 1 ≤ fuel by omega)
            have step : copyStep size sink inner ⟨.data piece :: rest, attempt, delivered⟩ =
                .inl ⟨reads, attempt + count, delivered ++ buf⟩ := by
              have full : buf.isEmpty = false := by simpa using some
              simp [copyStep, taken, full, written inner (by omega)]
            rw [loop, step, split, ← List.append_assoc]
            exact later inner (by omega) fuel (by omega)

theorem copy_delivers {sink : Sink} (relays : Relays sink) (size : Nat) (room : 0 < size) {reads : List Input}
    (flows : ∀ input ∈ reads, Input.Flows input) :
    ∃ n next pieces, pieces.flatten = arriving reads ∧ TakenInTurn sink 0 pieces next ∧
      ∀ fuel ≥ n, copy size sink reads fuel = some (.left, ⟨[], next, arriving reads⟩) := by
  obtain ⟨n, next, pieces, whole, turns, found⟩ := copyLoop_delivers relays room reads flows 0 []
  refine ⟨n, next, pieces, whole, turns, fun fuel enough => ?_⟩
  rw [copy, found fuel enough fuel enough, Option.join_some, List.nil_append]

/-- Each `Write` takes its data whole and leaves `errno` alone, and each copy loop is the identity on bytes. What is
delivered is what the system takes in the attempts. -/
theorem relay_is_identity {sink : Sink} (relays : Relays sink) {reads : List Input}
    (flows : ∀ input ∈ reads, Input.Flows input) :
    (∀ (data : Bytes) (safeErrno attempt : Nat), ∃ n count, takenBytes sink attempt count data = data ∧
        ∀ fuel ≥ n, write sink data safeErrno attempt fuel = some ⟨data.length, safeErrno, attempt + count, data⟩) ∧
      ∀ copyLoop ∈ [pierRequestCopy, pierResponseCopy, respondCopy, connectCopy], ∃ n next pieces,
        pieces.flatten = arriving reads ∧ TakenInTurn sink 0 pieces next ∧
          ∀ fuel ≥ n, copyLoop sink reads fuel = some (.left, ⟨[], next, arriving reads⟩) := by
  refine ⟨write_delivers relays, ?_⟩
  have plain := copy_delivers relays pipeBuf (by decide) flows
  have shorter := copy_delivers relays (pipeBuf - 1) (by decide) flows
  intro copyLoop member
  simp only [List.mem_cons, List.not_mem_nil, or_false] at member
  rcases member with rfl | rfl | rfl | rfl
  · exact plain
  · exact plain
  · exact plain
  · exact shorter

/-- Every second attempt fails for now, and the others take at most three bytes. -/
def slowSink : Sink := fun i => if i % 2 = 0 then .failed EPIPE EPIPE_real else .took 3 (by decide)

theorem slowSink_relays : Relays slowSink where
  soft := by
    intro i
    rw [slowSink]
    split
    · exact not_not.mpr (by decide)
    · exact id
  progress := by
    intro i
    refine ⟨2 * i + 1, by omega, ?_⟩
    rw [slowSink, if_neg (by omega)]
    trivial

theorem relay_is_identity_slow : ∃ n next pieces, pieces.flatten = text "hello world" ∧
    TakenInTurn slowSink 0 pieces next ∧ ∀ fuel ≥ n,
      connectCopy slowSink [.data (text "hello"), .failed EINTR, .data (text " world")] fuel =
        some (.left, ⟨[], next, text "hello world"⟩) :=
  have flows : ∀ input ∈ [.data (text "hello"), .failed EINTR, .data (text " world")], Input.Flows input := by decide
  (relay_is_identity slowSink_relays flows).2 connectCopy (by simp)

end Piercloud.Cgi
