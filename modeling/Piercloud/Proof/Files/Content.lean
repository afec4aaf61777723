import Piercloud.Construction.Files
import Piercloud.Proof.Transfer.Copying

/-
This file shows for which strings a file that is written and read again has the string as its content.
-/

namespace Piercloud.Files

open CLib Loop Liblst Piercloud.Lists Cgi

/-- A read gives some bytes or fails for now. -/
def Comes : Input → Prop
  | .data piece => piece ≠ []
  | .failed errno => Postponed errno

instance : DecidablePred Comes
  | .data piece => inferInstanceAs (Decidable (piece ≠ []))
  | .failed errno => inferInstanceAs (Decidable (Postponed errno))

theorem unread_eq (reads : List Input) : unread reads = inputSize reads := by
  unfold unread inputSize
  congr 1
  apply List.map_congr_left
  intro input member
  cases input <;> rfl

/-- A read of a file that comes fails for now, or it gives some of its bytes. -/
theorem read_comes {size : Nat} (room : 0 < size) {input : Input} {rest : List Input}
    (comes : ∀ other ∈ input :: rest, Comes other) :
    (∃ errno, read size (input :: rest) = (.failed errno, rest) ∧ Postponed errno ∧
        arriving (input :: rest) = arriving rest ∧ (∀ other ∈ rest, Comes other) ∧
        unread rest < unread (input :: rest)) ∨
      ∃ buf reads, read size (input :: rest) = (.data buf, reads) ∧ buf ≠ [] ∧ buf.length ≤ size ∧
        arriving (input :: rest) = buf ++ arriving reads ∧ (∀ other ∈ reads, Comes other) ∧
        unread reads < unread (input :: rest) := by
  cases input with
  | failed errno =>
      have postponed : Comes (.failed errno) := comes _ (by simp)
      exact Or.inl ⟨errno, rfl, postponed, rfl, fun other member => comes other (by simp [member]), by simp [unread]⟩
  | data piece =>
      rw [unread_eq (.data piece :: rest)]
      obtain ⟨buf, reads, taken, some, short, split, later, shrinks⟩ := read_data room (fun piece => Iff.rfl) comes
      exact Or.inr ⟨buf, reads, taken, some, short, split, later, by rwa [unread_eq]⟩

/-- The induction is on the reads that are left, and the block has the bytes of those before. -/
theorem contentLoop_gathers (safeErrno : Nat) (fuel : Nat) {reads : List Input} (comes : ∀ input ∈ reads, Comes input)
    (rval : Option Bytes) (enough : unread reads < fuel) :
    loop (contentStep safeErrno) fuel ⟨rval, safeErrno, reads, []⟩ =
      some (if rval.isSome ∨ arriving reads ≠ [] then some (rval.getD [] ++ arriving reads ++ [NUL]) else none,
        safeErrno) := by
  induction fuel generalizing reads rval with
  | zero => omega
  | succ fuel ih =>
      rw [loop]
      cases reads with
      | nil => cases rval <;> simp [contentStep, Cgi.read, arriving]
      | cons input rest =>
          obtain ⟨errno, taken, postponed, same, later, shrinks⟩ |
              ⟨buf, reads, taken, some, -, split, later, shrinks⟩ :=
            read_comes (show 0 < contentBufSize by decide) comes
          · have step : contentStep safeErrno ⟨rval, safeErrno, input :: rest, []⟩ =
                .inl ⟨rval, safeErrno, rest, []⟩ := by
              simp only [contentStep, taken, if_pos postponed]
            rw [step, same]
            exact ih later rval (by omega)
          · have visible : buf.isEmpty = false := by simpa using some
            have step : contentStep safeErrno ⟨rval, safeErrno, input :: rest, []⟩ =
                .inl ⟨Option.some (rval.getD [] ++ buf), safeErrno, reads, []⟩ := by
              simp only [contentStep, taken, visible, allocated, Bool.false_eq_true, if_false]
            rw [step, split]
            refine (ih later _ (by omega)).trans ?_
            simp [some]

/-- The content of a file is its bytes and a terminator. An empty file has none. -/
theorem ptGetFileContent_gathers {reads : List Input} (comes : ∀ input ∈ reads, Comes input) (safeErrno : Nat) :
    ptGetFileContent reads safeErrno [] =
      (if arriving reads = [] then none else some (arriving reads ++ [NUL]), safeErrno) := by
  rw [ptGetFileContent, contentLoop_gathers safeErrno _ comes none (Nat.lt_succ_self _)]
  by_cases empty : arriving reads = [] <;> simp [empty]

/-- The write succeeds, and every way to read what it has delivered succeeds and gives the string. -/
def ReadsBack (sink : Sink) (path s : Bytes) (safeErrno attempt : Nat) : Prop :=
  ∃ n w, (∀ fuel ≥ n, writeToFileFormat sink (some s) true safeErrno attempt fuel = some w) ∧ w.rval = 0 ∧
    ∀ reads, (∀ input ∈ reads, Comes input) → arriving reads = w.delivered → ∃ content errno,
      getFileContentFormat ⟨fun _ => .ok reads, none⟩ (some path) safeErrno [] = (0, some content, errno) ∧
        cstr content = s

/-- The string is delivered whole. -/
theorem writeToFileFormat_delivers {sink : Sink} (relays : Relays sink) {s : Bytes} (clean : NUL ∉ s)
    (safeErrno attempt : Nat) : ∃ n next, ∀ fuel ≥ n,
      writeToFileFormat sink (some s) true safeErrno attempt fuel = some ⟨0, safeErrno, next, s⟩ := by
  obtain ⟨t, ends, kept, done⟩ := writeLoop_delivers relays s safeErrno s.length _ (Kept.initial s attempt) rfl
  obtain ⟨n, found⟩ := ends.eventually
  refine ⟨n, t.attempt, fun fuel enough => ?_⟩
  simp only [writeToFileFormat, if_true, cstr_eq_self clean, found fuel enough, Option.map_some, (kept.whole done).1]

/-- An empty file does not read back. -/
theorem ReadsBack.real {sink : Sink} (relays : Relays sink) {path s : Bytes} (clean : NUL ∉ s)
    {safeErrno attempt : Nat} (back : ReadsBack sink path s safeErrno attempt) : s ≠ [] := by
  rintro rfl
  obtain ⟨n, next, written⟩ := writeToFileFormat_delivers relays clean safeErrno attempt
  obtain ⟨m, w, found, -, later⟩ := back
  have same := (written (max n m) (le_max_left n m)).symm.trans (found (max n m) (le_max_right n m))
  obtain rfl := Option.some.inj same
  obtain ⟨content, errno, result, -⟩ := later [] (by simp) rfl
  simp [getFileContentFormat, allocated, ptGetFileContent_gathers, arriving] at result

/-- A file reads back exactly when the string is not empty. -/
theorem readsBack_iff {sink : Sink} (relays : Relays sink) (path : Bytes) {s : Bytes} (clean : NUL ∉ s)
    (safeErrno attempt : Nat) : ReadsBack sink path s safeErrno attempt ↔ s ≠ [] := by
  constructor
  · exact ReadsBack.real relays clean
  · intro real
    obtain ⟨n, next, written⟩ := writeToFileFormat_delivers relays clean safeErrno attempt
    refine ⟨n, _, written, rfl, fun reads comes delivered => ⟨s ++ [NUL], safeErrno, ?_, cstr_append_nul clean []⟩⟩
    change arriving reads = s at delivered
    simp only [getFileContentFormat, allocated, ptGetFileContent_gathers comes, delivered, if_neg real]

theorem readsBack_slow : ReadsBack slowSink (text "name") (text "hello world") 0 0 :=
  (readsBack_iff slowSink_relays (text "name") (by decide) 0 0).mpr (by decide)

/-- The write of the empty string succeeds, and the read of the empty file gives -1 and leaves `errno` alone. -/
theorem readsBack_empty : writeToFileFormat slowSink (some []) true 0 0 2 = some ⟨0, 0, 2, []⟩ ∧
    getFileContentFormat ⟨fun _ => .ok [], none⟩ (some (text "name")) 0 [] = (-1, none, 0) ∧
    ¬ ReadsBack slowSink (text "name") [] 0 0 :=
  ⟨rfl, rfl, fun back => back.real slowSink_relays (by simp) rfl⟩

end Piercloud.Files
