import Piercloud.Library.Progress
import Piercloud.Proof.Answer.Unkilled

/-
This file shows that every live `Pier` can still be answered while none is killed.
-/

namespace Piercloud.Cgi

open CLib Runs

/-- These are the steps of `Pier` that are left behind its lock. -/
def WaitPoint.left : WaitPoint → Nat
  | .locked => 7
  | .asked => 6
  | .opening => 5
  | .reading => 4
  | .closing => 3
  | .closed => 2
  | .unlocked => 1
  | _ => 0

/-- These are the steps of `Respond` that are left, apart from its writes. -/
def RespondPoint.left : RespondPoint → Nat
  | .idle => 4
  | .pending => 3
  | .opening => 2
  | .writing => 1
  | _ => 0

namespace Exchange

variable {ι δ : Type*} [DecidableEq ι] [DecidableEq δ] {setup : Setup ι δ} {s t : Exchange ι δ} {a : Move ι}

/-- These are the steps that one run needs, where a step moves one byte. -/
def remaining (setup : Setup ι δ) (s : Exchange ι δ) (i : ι) : Nat :=
  (s.pier i).left + (s.respond i).left + ((setup.response i).length - s.count i) +
    ((setup.response i).length - (s.copied i).length)

/-- A move of another run leaves a run and what it has copied. -/
theorem step_elsewhere (next : step setup s a = some t) {j : ι} (elsewhere : j ≠ a.run) :
    t.pier j = s.pier j ∧ t.copied j = s.copied j := by
  obtain ⟨-, rfl⟩ := (step_eq_some setup).mp next
  cases a with
  | refuse i removed => cases removed <;> simp_all [effect, exit, setPier, unlinkPath, setPipe, Move.run]
  | start i | lock i | ask i | openRead i | opened i | take i n | eof i | closeRead i | unlock i | unlink i | kill i
  | openWrite r | noPath r | writable r | put r n | broken r | closeWrite r =>
      simp_all [effect, exit, setPier, setRespond, unlinkPath, setPipe, Move.run]

/-- This move of a run kills nobody, takes no lock and brings the run closer to its end. -/
structure Serves (setup : Setup ι δ) (s : Exchange ι δ) (i : ι) (a : Move ι) : Prop where
  own : a.run = i
  spares : Spares s a
  unlocked : ∀ j, a ≠ .lock j
  enabled : Enabled setup s a
  closer : remaining setup (effect setup s a) i < remaining setup s i
  late : (effect setup s a).pier i = .ended ∨ ((effect setup s a).pier i).left ≠ 0

/-- While `Pier` waits in `open`, one of the two calls of `open` can go on. -/
theorem Unkilled.serves_opening (unkilled : Unkilled setup s) {i : ι} (here : s.pier i = .opening) :
    ∃ a, Serves setup s i a := by
  have waits : (s.pier i).waits = true := by rw [here]; rfl
  have answering := unkilled.answering i
  cases met : s.met i with
  | true =>
      refine ⟨.opened i, rfl, trivial, by simp, ⟨here, met⟩, ?_, Or.inr ?_⟩
      · simp [remaining, effect, setPier, here, WaitPoint.left]
      · simp [effect, setPier, WaitPoint.left]
  | false =>
      have expects := WaitPoint.expects_of_waits waits
      have pending : s.respond i = .pending := by
        have absent : (s.respond i).present = false := by
          by_contra present
          rw [answering.meets waits (by simpa using present)] at met
          contradiction
        have begun := answering.begun expects
        obtain ⟨unfailed, unstuck⟩ := answering.never
        generalize s.respond i = point at absent begun unfailed unstuck
        cases point <;> first | rfl | contradiction
      have file := answering.file (WaitPoint.alive_of_expects expects)
      refine ⟨.openWrite i, rfl, trivial, by simp, ⟨pending, file⟩, ?_, Or.inr ?_⟩
      · simp [remaining, effect, setRespond, setPipe, pending, RespondPoint.left]
      · simp [effect, setRespond, setPipe, here, WaitPoint.left]

/-- While `Pier` reads, it has bytes to take, or `Respond` goes on, or the response has ended. -/
theorem Unkilled.serves_reading (unkilled : Unkilled setup s) {i : ι} (here : s.pier i = .reading) :
    ∃ a, Serves setup s i a := by
  have waits : (s.pier i).waits = true := by rw [here]; rfl
  have answering := unkilled.answering i
  have sound := unkilled.sound i
  have balance := congrArg List.length (sound.balance waits)
  have member : i ∈ (s.pipe setup i).readers := unkilled.placed.reader waits
  simp only [List.length_append, List.length_take] at balance
  by_cases content : (s.pipe setup i).content = []
  · have present := sound.met waits (sound.reading here)
    cases point : s.respond i with
    | opening =>
        refine ⟨.writable i, rfl, trivial, by simp, ⟨point, answering.finds waits point⟩, ?_, Or.inr ?_⟩
        · simp [remaining, effect, setRespond, point, RespondPoint.left]
        · simp [effect, setRespond, here, WaitPoint.left]
    | writing =>
        by_cases rest : s.count i < (setup.response i).length
        · refine ⟨.put i ((setup.response i).length - s.count i), rfl, trivial, by simp,
            ⟨point, by omega, by omega, Finset.ne_empty_of_mem member⟩, ?_, Or.inr ?_⟩
          · simp only [remaining, effect, setPipe, Function.update_self]
            omega
          · simp [effect, setPipe, here, WaitPoint.left]
        · have all : s.count i = (setup.response i).length := le_antisymm (unkilled.within i) (not_lt.mp rest)
          refine ⟨.closeWrite i, rfl, trivial, by simp, ⟨point, all⟩, ?_, Or.inr ?_⟩
          · simp [remaining, effect, setRespond, setPipe, point, RespondPoint.left]
          · simp [effect, setRespond, setPipe, here, WaitPoint.left]
    | closed =>
        have alone : (s.pipe setup i).writers = ∅ := by
          rw [Finset.eq_empty_iff_forall_notMem]
          intro r other
          have mine := sound.own waits r other
          subst mine
          have holds := ((unkilled.placed.writers _ r).mp other).2
          rw [point] at holds
          contradiction
        refine ⟨.eof i, rfl, trivial, by simp, ⟨here, content, alone⟩, ?_, Or.inr ?_⟩
        · simp [remaining, effect, setPier, here, WaitPoint.left]
        · simp [effect, setPier, WaitPoint.left]
    | idle | pending | failed | stuck => rw [point] at present; contradiction
  · have some := List.length_pos_of_ne_nil content
    refine ⟨.take i (s.pipe setup i).content.length, rfl, trivial, by simp, ⟨here, some, le_rfl⟩, ?_, Or.inr ?_⟩
    · simp only [remaining, effect, setPipe, Function.update_self, List.length_append, List.take_length]
      omega
    · simp [effect, setPipe, here, WaitPoint.left]

/-- Behind its lock a run can always go on. -/
theorem Unkilled.serves (unkilled : Unkilled setup s) {i : ι} (late : (s.pier i).left ≠ 0) :
    ∃ a, Serves setup s i a := by
  cases here : s.pier i with
  | locked =>
      have idle : s.respond i = .idle := unkilled.placed.unasked i (by rw [here]; rfl)
      refine ⟨.ask i, rfl, trivial, by simp, here, ?_, Or.inr ?_⟩
      · simp [remaining, effect, setPier, setRespond, here, idle, WaitPoint.left, RespondPoint.left]
      · simp [effect, setPier, setRespond, WaitPoint.left]
  | asked =>
      refine ⟨.openRead i, rfl, trivial, by simp, here, ?_, Or.inr ?_⟩
      · simp [remaining, effect, setPier, setPipe, here, WaitPoint.left]
      · simp [effect, setPier, setPipe, WaitPoint.left]
  | opening => exact unkilled.serves_opening here
  | reading => exact unkilled.serves_reading here
  | closing =>
      refine ⟨.closeRead i, rfl, trivial, by simp, here, ?_, Or.inr ?_⟩
      · simp [remaining, effect, setPier, setPipe, here, WaitPoint.left]
      · simp [effect, setPier, setPipe, WaitPoint.left]
  | closed =>
      refine ⟨.unlock i, rfl, trivial, by simp, here, ?_, Or.inr ?_⟩
      · simp [remaining, effect, setPier, here, WaitPoint.left]
      · simp [effect, setPier, WaitPoint.left]
  | unlocked =>
      have same : (s.unlinkPath setup i).respond i = s.respond i :=
        unlinkPath_respond unkilled.placed (unkilled.answering i) (by rw [here]; rfl) (by rw [here]; rfl)
      refine ⟨.unlink i, rfl, trivial, by simp, here, ?_, Or.inl ?_⟩
      · have count : (s.unlinkPath setup i).count = s.count := rfl
        have copied : (s.unlinkPath setup i).copied = s.copied := rfl
        simp [remaining, effect, exit, setPier, here, same, count, copied, WaitPoint.left]
      · simp [effect, exit, setPier]
  | idle | made | ended | refused | killed => simp [here, WaitPoint.left] at late

/-- A move that takes no lock can only free one. -/
theorem step_owner (next : step setup s a = some t) (unlocked : ∀ j, a ≠ .lock j) (d : δ) (j : ι)
    (holder : t.owner d = some j) : s.owner d = some j := by
  obtain ⟨-, rfl⟩ := (step_eq_some setup).mp next
  cases a with
  | lock i => exact absurd rfl (unlocked i)
  | refuse i removed => cases removed <;> exact owner_freed holder
  | unlock i | unlink i | kill i => exact owner_freed holder
  | start i | ask i | openRead i | opened i | take i n | eof i | closeRead i | openWrite r | noPath r | writable r
  | put r n | broken r | closeWrite r => exact holder

/-- The other runs are where they were, and no lock has been taken. -/
structure Beside (s t : Exchange ι δ) (i : ι) : Prop where
  pier : ∀ j, j ≠ i → t.pier j = s.pier j
  copied : ∀ j, j ≠ i → t.copied j = s.copied j
  owner : ∀ d j, t.owner d = some j → s.owner d = some j

/-- Behind its lock a run can be brought to its end while the other ones stay where they are. -/
theorem Unkilled.finishes (unkilled : Unkilled setup s) {i : ι} (late : (s.pier i).left ≠ 0) :
    Leads (step setup) Spares s fun t => (Unkilled setup t ∧ Beside s t i) ∧ t.pier i = .ended := by
  have progress : ∀ u : Exchange ι δ, (Unkilled setup u ∧ Beside s u i) ∧ (u.pier i = .ended ∨ (u.pier i).left ≠ 0) →
      ¬ u.pier i = .ended → ∃ a v, Spares u a ∧ step setup u a = some v ∧
        ((Unkilled setup v ∧ Beside s v i) ∧ (v.pier i = .ended ∨ (v.pier i).left ≠ 0)) ∧
        remaining setup v i < remaining setup u i := by
    rintro u ⟨⟨here, beside⟩, point⟩ going
    obtain ⟨a, serves⟩ := here.serves (point.resolve_left going)
    have next : step setup u a = some (effect setup u a) := (step_eq_some setup).mpr ⟨serves.enabled, rfl⟩
    refine ⟨a, _, serves.spares, next, ⟨⟨unkilled_step here serves.spares next, ?_⟩, serves.late⟩, serves.closer⟩
    have elsewhere : ∀ j, j ≠ i → _ := fun j other => step_elsewhere next (serves.own.symm ▸ other : j ≠ a.run)
    constructor
    · exact fun j other => (elsewhere j other).1.trans (beside.pier j other)
    · exact fun j other => (elsewhere j other).2.trans (beside.copied j other)
    · exact fun d j holder => beside.owner d j (step_owner next serves.unlocked d j holder)
  have start : (Unkilled setup s ∧ Beside s s i) ∧ (s.pier i = .ended ∨ (s.pier i).left ≠ 0) :=
    ⟨⟨unkilled, fun _ _ => rfl, fun _ _ => rfl, fun _ _ => id⟩, Or.inr late⟩
  exact (Leads.of_measure (fun u => remaining setup u i) progress start).mono fun t ⟨⟨kept, _⟩, ended⟩ => ⟨kept, ended⟩

omit [DecidableEq ι] [DecidableEq δ] in
theorem left_of_locks {point : WaitPoint} (locks : point.locks = true) : point.left ≠ 0 := by
  cases point <;> first | decide | contradiction

/-- A run has ended, and the other ones have not moved, or they have ended as well. -/
def Ended (setup : Setup ι δ) (s t : Exchange ι δ) (i : ι) : Prop :=
  Unkilled setup t ∧ t.pier i = .ended ∧ ∀ j, t.pier j = s.pier j ∨ t.pier j = .ended

omit [DecidableEq ι] [DecidableEq δ] in
theorem Beside.ended {i : ι} (beside : Beside s t i) (kept : Unkilled setup t) (ended : t.pier i = .ended) :
    Ended setup s t i := by
  refine ⟨kept, ended, fun j => ?_⟩
  by_cases same : j = i
  · exact Or.inr (same ▸ ended)
  · exact Or.inl (beside.pier j same)

/-- A run at the lock goes through it when it is free. -/
theorem Unkilled.acquires (unkilled : Unkilled setup s) {i : ι} (here : s.pier i = .made)
    (free : s.owner (setup.device i) = none) : Leads (step setup) Spares s fun t => Ended setup s t i := by
  have next : step setup s (.lock i) = some (effect setup s (.lock i)) :=
    (step_eq_some setup).mpr ⟨⟨here, free⟩, rfl⟩
  have spares : Spares s (.lock i) := trivial
  have locked : (effect setup s (.lock i)).pier i = .locked := setPier_pier s i _
  have late : ((effect setup s (.lock i)).pier i).left ≠ 0 := by rw [locked]; decide
  have later := (unkilled_step unkilled spares next).finishes late
  apply Leads.next spares next
  refine later.mono fun t ⟨⟨kept, beside⟩, ended⟩ => ⟨kept, ended, fun j => ?_⟩
  by_cases same : j = i
  · exact Or.inr (same ▸ ended)
  · exact Or.inl ((beside.pier j same).trans (step_elsewhere next same).1)

/-- A live run can be brought to its end. The run in front of it at the lock, if there is one, ends first. -/
theorem Unkilled.answers (unkilled : Unkilled setup s) {i : ι} (live : (s.pier i).alive = true) :
    Leads (step setup) Spares s fun t => Ended setup s t i := by
  by_cases here : s.pier i = .made
  · cases owner : s.owner (setup.device i) with
    | none => exact unkilled.acquires here owner
    | some j =>
        have locks := (unkilled.owned _ j owner).2
        refine (unkilled.finishes (left_of_locks locks)).trans fun t ⟨⟨kept, beside⟩, ended⟩ => ?_
        have other : i ≠ j := by
          rintro rfl
          rw [here] at locks
          contradiction
        have waiting : t.pier i = .made := (beside.pier i other).trans here
        have free : t.owner (setup.device i) = none := by
          cases holder : t.owner (setup.device i) with
          | none => rfl
          | some k =>
              obtain rfl : j = k := Option.some.inj (owner.symm.trans (beside.owner _ k holder))
              have held := (kept.owned _ j holder).2
              rw [ended] at held
              contradiction
        refine (kept.acquires waiting free).mono fun u ⟨last, done, others⟩ => ⟨last, done, fun k => ?_⟩
        rcases others k with same | finished
        · exact ((beside.ended kept ended).2.2 k).imp (same.trans ·) (same.trans ·)
        · exact Or.inr finished
  · have late : (s.pier i).left ≠ 0 := by
      generalize s.pier i = point at live here
      cases point <;> first | decide | contradiction
    exact (unkilled.finishes late).mono fun t ⟨⟨kept, beside⟩, ended⟩ => beside.ended kept ended

/-- Each of these runs is live or has ended with its response. -/
def Served (setup : Setup ι δ) (browsers : List ι) (s : Exchange ι δ) : Prop :=
  Unkilled setup s ∧ ∀ i : { i // i ∈ browsers }, (s.pier i).alive = true ∨ s.pier i = .ended

/-- One more run can be brought to its end. -/
theorem Served.serve {browsers : List ι} (served : Served setup browsers s) (i : { i // i ∈ browsers }) :
    Leads (step setup) Spares s fun t => (Served setup browsers t ∧ t.pier i = .ended) ∧
      ∀ j : { i // i ∈ browsers }, s.pier j = .ended → t.pier j = .ended := by
  obtain ⟨unkilled, points⟩ := served
  rcases points i with live | done
  · refine (unkilled.answers live).mono fun t ⟨kept, ended, others⟩ => ⟨⟨⟨kept, fun j => ?_⟩, ended⟩, fun j old => ?_⟩
    · rcases others j with same | last
      · exact same ▸ points j
      · exact Or.inr last
    · exact (others j).elim (·.trans old) id
  · exact Leads.here ⟨⟨⟨unkilled, points⟩, done⟩, fun _ => id⟩

/-- While no `Pier` is killed, all the browsers that wait can still be answered: from every reachable state some
further run brings each of them the whole response to its own request. -/
theorem browsers_can_be_answered (setup : Setup ι δ) (moves : List (Move ι)) (s : Exchange ι δ)
    (reached : run (step setup) initial moves = some s) (spared : Along (step setup) Spares initial moves)
    (browsers : List ι) (live : ∀ i ∈ browsers, (s.pier i).alive = true) :
    ∃ more t, Along (step setup) Spares s more ∧ run (step setup) s more = some t ∧
      ∀ i ∈ browsers, t.pier i = .ended ∧ t.copied i = setup.response i := by
  have start : Served setup browsers s :=
    ⟨unkilled_run unkilled_initial spared reached, fun i => Or.inl (live i i.2)⟩
  obtain ⟨more, t, along, reached', ⟨kept, -⟩, ended⟩ :=
    Leads.forall_list (fun _ served i => served.serve i) start browsers.attach
  refine ⟨more, t, along, reached', fun i member => ?_⟩
  have done : t.pier i = .ended := ended ⟨i, member⟩ (List.mem_attach _ _)
  exact ⟨done, (kept.sound i).whole (by rw [done]; rfl)⟩

/-- The second browser of the device waits at the lock. -/
def queuedRun : List (Move Bool) :=
  [.start true, .lock true, .start false, .ask true, .openRead true, .openWrite true, .opened true]

def queuedSetup : Setup Bool Unit := { sampleSetup with pid := fun i => if i then 7 else 8 }

def queuedState : Exchange Bool Unit := (run (step queuedSetup) initial queuedRun).get (by decide +kernel)

theorem browsers_can_be_answered_queued :
    ∃ more t, Along (step queuedSetup) Spares queuedState more ∧ run (step queuedSetup) queuedState more = some t ∧
      ∀ i ∈ [true, false], t.pier i = .ended ∧ t.copied i = queuedSetup.response i :=
  browsers_can_be_answered queuedSetup queuedRun queuedState (Option.some_get _).symm (by decide +kernel)
    [true, false] (by decide +kernel)

end Exchange

end Piercloud.Cgi
