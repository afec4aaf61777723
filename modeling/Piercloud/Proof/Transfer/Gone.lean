import Piercloud.Proof.Transfer.Copying
import Mathlib.Algebra.BigOperators.Group.Finset.Basic

/-
This file says when the write loops end although the reader is gone.
-/

namespace Piercloud.Liblst

open CLib Loop

def WriteOutcome.amount : WriteOutcome → Nat
  | .took n _ => n
  | .failed _ _ => 0

/-- The first `i` attempts would take this many bytes. -/
def accepted (sink : Sink) (i : Nat) : Nat := ∑ j ∈ Finset.range i, (sink j).amount

/-- The attempt fails for good, or it succeeds when nothing is left to write. -/
def Concludes (sink : Sink) (len i : Nat) : Prop :=
  (sink i).Hard ∨ (sink i).Took ∧ len ≤ accepted sink i

/-- This holds in front of each attempt. -/
structure Reached (sink : Sink) (data : Bytes) (s : Writing) : Prop extends Kept data s where
  advance : s.t = min data.length (accepted sink s.attempt)

theorem accepted_took {sink : Sink} {i n : Nat} {positive : 0 < n} (outcome : sink i = .took n positive) :
    accepted sink (i + 1) = accepted sink i + n := by
  rw [accepted, Finset.sum_range_succ, outcome]
  rfl

theorem accepted_failed {sink : Sink} {i errno : Nat} {real : errno ≠ 0} (outcome : sink i = .failed errno real) :
    accepted sink (i + 1) = accepted sink i := by
  rw [accepted, Finset.sum_range_succ, outcome]
  rfl

theorem Reached.initial (sink : Sink) (data : Bytes) : Reached sink data (.initial data.length 0) :=
  ⟨Kept.initial data 0, by simp [Writing.initial, accepted]⟩

section Step

variable {sink : Sink} {data : Bytes} {safeErrno : Nat} {s : Writing}

theorem writeStep_reached (reached : Reached sink data s) {t : Writing}
    (step : writeStep sink data safeErrno s = .inl t) : Reached sink data t ∧ t.attempt = s.attempt + 1 := by
  have advance := reached.advance
  have rest := reached.rest
  cases outcome : sink s.attempt with
  | took n positive =>
      by_cases done : s.len = 0
      · simp [writeStep_done outcome done] at step
      · rw [writeStep_took outcome (by omega)] at step
        obtain rfl := Sum.inl.inj step
        refine ⟨⟨reached.toKept.advanced (Nat.min_le_right n s.len), ?_⟩, rfl⟩
        simp only [Writing.advanced, accepted_took outcome]
        omega
  | failed errno real =>
      by_cases transient : Transient errno
      · rw [writeStep_transient outcome transient] at step
        obtain rfl := Sum.inl.inj step
        exact ⟨⟨⟨reached.delivered, rest⟩, by rw [accepted_failed outcome, advance]⟩, rfl⟩
      · simp [writeStep_hard outcome transient] at step

theorem writeStep_concludes (safeErrno : Nat) (reached : Reached sink data s) :
    (∃ r, writeStep sink data safeErrno s = .inr r) ↔ Concludes sink data.length s.attempt := by
  have advance := reached.advance
  have rest := reached.rest
  cases outcome : sink s.attempt with
  | took n positive =>
      simp only [Concludes, outcome, WriteOutcome.Hard, WriteOutcome.Took, false_or, true_and]
      by_cases done : s.len = 0
      · exact iff_of_true ⟨_, writeStep_done outcome done⟩ (by omega)
      · refine iff_of_false ?_ (by omega)
        rintro ⟨r, ends⟩
        simp [writeStep_took outcome (show 0 < s.len by omega)] at ends
  | failed errno real =>
      simp only [Concludes, outcome, WriteOutcome.Hard, WriteOutcome.Took, false_and, or_false]
      by_cases transient : Transient errno
      · refine iff_of_false ?_ (not_not.mpr transient)
        rintro ⟨r, ends⟩
        simp [writeStep_transient outcome transient] at ends
      · exact iff_of_true ⟨_, writeStep_hard outcome transient⟩ transient

/-- The loop ends with its data delivered or with the number of the failure. -/
theorem writeStep_result (kept : Kept data s) {done : Bool} {t : Writing}
    (step : writeStep sink data safeErrno s = .inr (done, t)) :
    done = true ∧ t.delivered = data ∨ done = false ∧ t.errno ≠ 0 := by
  cases outcome : sink s.attempt with
  | took n positive =>
      by_cases empty : s.len = 0
      · rw [writeStep_done outcome empty] at step
        obtain ⟨rfl, rfl⟩ := Prod.mk.inj (Sum.inr.inj step)
        exact Or.inl ⟨rfl, (kept.whole empty).1⟩
      · simp [writeStep_took outcome (show 0 < s.len by omega)] at step
  | failed errno real =>
      by_cases transient : Transient errno
      · simp [writeStep_transient outcome transient] at step
      · rw [writeStep_hard outcome transient] at step
        obtain ⟨rfl, rfl⟩ := Prod.mk.inj (Sum.inr.inj step)
        exact Or.inr ⟨rfl, real⟩

end Step

/-- The induction is on the number of attempts up to the one that concludes. -/
theorem writeLoop_ends {sink : Sink} {data : Bytes} (safeErrno : Nat) {i : Nat}
    (concludes : Concludes sink data.length i) (wait : Nat) :
    ∀ s : Writing, Reached sink data s → s.attempt + wait = i → ∃ r, Ends (writeStep sink data safeErrno) s r := by
  induction wait with
  | zero =>
      intro s reached here
      rw [Nat.add_zero] at here
      obtain ⟨r, stops⟩ := (writeStep_concludes safeErrno reached).mpr (here ▸ concludes)
      exact ⟨r, .last stops⟩
  | succ wait ih =>
      intro s reached later
      cases step : writeStep sink data safeErrno s with
      | inl t =>
          obtain ⟨reached', next⟩ := writeStep_reached reached step
          obtain ⟨r, ends⟩ := ih t reached' (by omega)
          exact ⟨r, .next step ends⟩
      | inr r => exact ⟨r, .last step⟩

/-- The call returns, and it has delivered all of its data or tells that it failed. -/
def EndsReporting (call : Nat → Option Written) (data : Bytes) (failure : Written → Prop) : Prop :=
  ∃ fuel r, call fuel = some r ∧ (r.delivered = data ∨ failure r)

/-- Both functions run the same loop, and they tell its end in their own way. -/
theorem endsReporting_iff {sink : Sink} {data : Bytes} {safeErrno : Nat} {call : Nat → Option Written}
    {failure : Written → Prop} (result : Bool × Writing → Written)
    (runs : ∀ fuel, call fuel =
      (loop (writeStep sink data safeErrno) fuel (.initial data.length 0)).map result)
    (well : ∀ t, (result (true, t)).delivered = t.delivered)
    (badly : ∀ t, t.errno ≠ 0 → failure (result (false, t))) :
    EndsReporting call data failure ↔ ∃ i, Concludes sink data.length i := by
  have kept : ∀ s t, Reached sink data s → writeStep sink data safeErrno s = .inl t → Reached sink data t :=
    fun s t reached step => (writeStep_reached reached step).1
  constructor
  · rintro ⟨fuel, r, returned, -⟩
    rw [runs] at returned
    obtain ⟨last, found, -⟩ := Option.map_eq_some_iff.mp returned
    obtain ⟨s, reached, stops⟩ := (ends_of_loop found).invariant kept (Reached.initial sink data)
    exact ⟨s.attempt, (writeStep_concludes safeErrno reached).mp ⟨last, stops⟩⟩
  · rintro ⟨i, concludes⟩
    obtain ⟨⟨done, t⟩, ends⟩ := writeLoop_ends safeErrno concludes i _ (Reached.initial sink data) (Nat.zero_add i)
    obtain ⟨s, reached, stops⟩ := ends.invariant kept (Reached.initial sink data)
    obtain ⟨n, found⟩ := ends.eventually
    refine ⟨n, result (done, t), by rw [runs, found n le_rfl, Option.map_some], ?_⟩
    rcases writeStep_result reached.toKept stops with ⟨rfl, whole⟩ | ⟨rfl, named⟩
    · exact Or.inl ((well t).trans whole)
    · exact Or.inr (badly t named)

/-- A failure of a gone reader concludes nothing. -/
theorem concludes_before {sink : Sink} {k : Nat} (gone : ∀ i ≥ k, sink i = .failed EPIPE (by decide)) (len : Nat) :
    (∃ i, Concludes sink len i) ↔ ∃ i < k, Concludes sink len i := by
  constructor
  · rintro ⟨i, concludes⟩
    refine ⟨i, ?_, concludes⟩
    by_contra late
    rw [Concludes, gone i (by omega)] at concludes
    rcases concludes with hard | ⟨took, -⟩
    · exact hard (by decide)
    · exact took
  · rintro ⟨i, -, concludes⟩
    exact ⟨i, concludes⟩

/-- `Write` tells a failure through `errno`. -/
def WriteReports (sink : Sink) (data : Bytes) (safeErrno : Nat) : Prop :=
  EndsReporting (write sink data safeErrno 0) data fun r => r.rval = 0 ∧ r.errno ≠ 0

/-- `writeToFileFormat` tells a failure through its result. -/
def FormatReports (sink : Sink) (printed : Bytes) (memory : Bool) (safeErrno : Nat) : Prop :=
  EndsReporting (writeToFileFormat sink (some printed) memory safeErrno 0) (cstr printed) fun r => r.rval = -1

theorem writeReports_iff (sink : Sink) (data : Bytes) (safeErrno : Nat) :
    WriteReports sink data safeErrno ↔ ∃ i, Concludes sink data.length i :=
  endsReporting_iff _ (fun _ => rfl) (fun _ => rfl) fun _ named => ⟨rfl, named⟩

theorem formatReports_iff (sink : Sink) (printed : Bytes) (memory : Bool) (safeErrno : Nat) :
    FormatReports sink printed memory safeErrno ↔
      (memory = true → ∃ i, Concludes sink (cstr printed).length i) := by
  cases memory with
  | false => exact iff_of_true ⟨0, _, rfl, Or.inr rfl⟩ (by simp)
  | true =>
      have ends : FormatReports sink printed true safeErrno ↔ ∃ i, Concludes sink (cstr printed).length i :=
        endsReporting_iff _ (fun _ => rfl) (fun _ => rfl) fun _ _ => rfl
      exact ends.trans ⟨fun concluded _ => concluded, fun concluded => concluded rfl⟩

/-- A write to a reader that is gone ends exactly when an attempt before that concludes it. -/
theorem gone_reader_reported_iff {sink : Sink} {k : Nat} (gone : ∀ i ≥ k, sink i = .failed EPIPE (by decide))
    (data printed : Bytes) (memory : Bool) (safeErrno : Nat) :
    (WriteReports sink data safeErrno ↔ ∃ i < k, Concludes sink data.length i) ∧
      (FormatReports sink printed memory safeErrno ↔
        (memory = true → ∃ i < k, Concludes sink (cstr printed).length i)) := by
  rw [← concludes_before gone, ← concludes_before gone]
  exact ⟨writeReports_iff sink data safeErrno, formatReports_iff sink printed memory safeErrno⟩

/-- The reader is gone from the start. -/
def goneSink : Sink := fun _ => .failed EPIPE EPIPE_real

/-- The reader takes four bytes in two attempts, and then it is gone. -/
def leavingSink : Sink := fun i => if i < 3 then .took 2 (by decide) else .failed EPIPE EPIPE_real

theorem gone_reader_reported_iff_leaving :
    (WriteReports leavingSink (text "ping") 0 ↔ ∃ i < 3, Concludes leavingSink (text "ping").length i) ∧
      (FormatReports leavingSink (text "a longer text") true 0 ↔
        (true = true → ∃ i < 3, Concludes leavingSink (cstr (text "a longer text")).length i)) :=
  gone_reader_reported_iff (fun i late => if_neg (by omega)) (text "ping") (text "a longer text") true 0

/-- A ping to a reader that is gone is tried again for ever. -/
theorem ping_never_ends : (∀ i ≥ 0, goneSink i = .failed EPIPE (by decide)) ∧
    (∀ fuel, write goneSink (text "0") 0 0 fuel = none) ∧ ¬ WriteReports goneSink (text "0") 0 ∧
    ∀ fuel, writeToFileFormat goneSink (some (text "0")) true 0 0 fuel = none := by
  have never : ∀ (data : Bytes) fuel s, loop (writeStep goneSink data 0) fuel s = none := by
    intro data fuel
    induction fuel with
    | zero => exact fun _ => rfl
    | succ fuel ih =>
        intro s
        rw [loop, writeStep_transient rfl (by decide)]
        exact ih _
  have written : ∀ fuel, write goneSink (text "0") 0 0 fuel = none := by
    intro fuel
    rw [write, never, Option.map_none]
  refine ⟨fun _ _ => rfl, written, ?_, ?_⟩
  · rintro ⟨fuel, r, returned, -⟩
    simp [written fuel] at returned
  · intro fuel
    simp only [writeToFileFormat, if_true, never, Option.map_none]

end Piercloud.Liblst
