import Piercloud.Construction.Answer
import Piercloud.Library.Runs

/-
This file follows the processes of `Pier` and `Respond` at the FIFOs of their paths.
-/

namespace Piercloud.Cgi

open CLib Runs

/-- The request has not been written. -/
def WaitPoint.unasked : WaitPoint → Bool
  | .idle => true
  | .made => true
  | .locked => true
  | _ => false

/-- The FIFO is not open yet. -/
def WaitPoint.early : WaitPoint → Bool
  | .asked => true
  | point => point.unasked

def WaitPoint.waits : WaitPoint → Bool
  | .opening => true
  | .reading => true
  | _ => false

/-- The process has the FIFO open. -/
def WaitPoint.holds : WaitPoint → Bool
  | .closing => true
  | point => point.waits

/-- The process has read the end of the response. -/
def WaitPoint.answered : WaitPoint → Bool
  | .closing => true
  | .closed => true
  | .unlocked => true
  | .ended => true
  | _ => false

/-- The response has the FIFO open. -/
def RespondPoint.holds : RespondPoint → Bool
  | .opening => true
  | .writing => true
  | _ => false

def RespondPoint.present : RespondPoint → Bool
  | .closed => true
  | point => point.holds

namespace WaitPoint

variable {point : WaitPoint}

theorem alive_of_holds (holds : point.holds = true) : point.alive = true := by
  cases point <;> first | rfl | contradiction

theorem holds_of_waits (waits : point.waits = true) : point.holds = true := by
  cases point <;> first | rfl | contradiction

theorem alive_of_asked (early : point.early = true) (asked : ¬ point.unasked = true) : point.alive = true := by
  cases point <;> first | rfl | contradiction

theorem not_holds_of_ended (ended : point.alive = false) : point.holds = false := by
  cases point <;> first | rfl | contradiction

theorem not_holds_of_early (early : point.early = true) : point.holds = false := by
  cases point <;> first | rfl | contradiction

theorem not_answered_of_early (early : point.early = true) : point.answered = false := by
  cases point <;> first | rfl | contradiction

theorem not_early_of_waits (waits : point.waits = true) : point.early = false := by
  cases point <;> first | rfl | contradiction

theorem not_answered_of_waits (waits : point.waits = true) : point.answered = false := by
  cases point <;> first | rfl | contradiction

theorem not_waits_of_early (early : point.early = true) : point.waits = false := by
  cases point <;> first | rfl | contradiction

/-- A run that is refused is live and has no FIFO open. -/
theorem live_of_refuse (here : point = .made ∨ point = .locked) : point.alive = true ∧ point.holds = false := by
  rcases here with rfl | rfl
  · exact ⟨rfl, rfl⟩
  · exact ⟨rfl, rfl⟩

end WaitPoint

namespace RespondPoint

variable {point : RespondPoint}

theorem present_of_holds (holds : point.holds = true) : point.present = true := by
  cases point <;> first | rfl | contradiction

theorem closed_of_present (present : point.present = true) (gone : ¬ point.holds = true) : point = .closed := by
  cases point <;> first | rfl | contradiction

end RespondPoint

/-- This is the run whose process moves. -/
def Move.run {ι : Type*} : Move ι → ι
  | .start i | .lock i | .refuse i _ | .ask i | .openRead i | .opened i | .take i _ | .eof i | .closeRead i
  | .unlock i | .unlink i | .kill i | .openWrite i | .noPath i | .writable i | .put i _ | .broken i
  | .closeWrite i => i

namespace Exchange

variable {ι δ : Type*} (setup : Setup ι δ)

/-- Every live run has its pid, and the descriptors of every FIFO are those of the processes at it. -/
structure Placed (s : Exchange ι δ) : Prop where
  process : ∀ i, (s.pier i).alive = true → s.process (setup.pid i) = some i
  unasked : ∀ i, (s.pier i).unasked = true → s.respond i = .idle
  readers : ∀ k i, i ∈ (s.fifo k).readers ↔ setup.path i = k ∧ (s.pier i).holds = true
  writers : ∀ k r, r ∈ (s.fifo k).writers ↔ setup.path r = k ∧ (s.respond r).holds = true

variable {setup} {s t : Exchange ι δ} {a : Move ι}

theorem placed_initial : Placed setup (initial : Exchange ι δ) where
  process := by simp [initial, WaitPoint.alive]
  unasked := fun _ _ => rfl
  readers := by simp [initial, Fifo.empty, WaitPoint.holds, WaitPoint.waits]
  writers := by simp [initial, Fifo.empty, RespondPoint.holds]

theorem Placed.same {i j : ι} (placed : Placed setup s) (first : (s.pier i).alive = true)
    (second : (s.pier j).alive = true) (path : setup.path i = setup.path j) : i = j := by
  have pid : setup.pid i = setup.pid j := congrArg Prod.snd path
  have process := placed.process i first
  rw [pid, placed.process j second] at process
  exact (Option.some.inj process).symm

/-- A run that waits has a path of its own. -/
theorem Placed.apart {i j : ι} (placed : Placed setup s) (live : (s.pier i).alive = true) (elsewhere : j ≠ i)
    (waits : (s.pier j).waits = true) : setup.path j ≠ setup.path i :=
  fun same => elsewhere (placed.same (WaitPoint.alive_of_holds (WaitPoint.holds_of_waits waits)) live same)

/-- A run that waits has its FIFO open. -/
theorem Placed.reader {i : ι} (placed : Placed setup s) (waits : (s.pier i).waits = true) :
    i ∈ (s.fifo (setup.path i)).readers :=
  (placed.readers _ i).mpr ⟨rfl, WaitPoint.holds_of_waits waits⟩

/-- The response to another run that has not opened its FIFO is not at this one. -/
theorem Placed.absent {i j : ι} (placed : Placed setup s) (live : (s.pier i).alive = true) (elsewhere : j ≠ i)
    (early : (s.pier j).early = true) : j ∉ (s.pipe setup i).writers := by
  intro member
  obtain ⟨same, holds⟩ := (placed.writers _ j).mp member
  by_cases unasked : (s.pier j).unasked = true
  · rw [placed.unasked j unasked] at holds
    contradiction
  · exact elsewhere (placed.same (WaitPoint.alive_of_asked early unasked) live same)

/-- Nobody reads at the path of a run that has asked and has not opened its FIFO. -/
theorem Placed.unread {r : ι} (placed : Placed setup s) (early : (s.pier r).early = true)
    (asked : s.respond r ≠ .idle) : (s.pipe setup r).readers = ∅ := by
  have live : (s.pier r).alive = true := WaitPoint.alive_of_asked early (mt (placed.unasked r) asked)
  rw [Finset.eq_empty_iff_forall_notMem]
  intro j member
  obtain ⟨same, holds⟩ := (placed.readers _ j).mp member
  rw [placed.same (WaitPoint.alive_of_holds holds) live same, WaitPoint.not_holds_of_early early] at holds
  contradiction

section Step

variable [DecidableEq ι] [DecidableEq δ]

omit [DecidableEq δ] in
theorem setPier_pier (s : Exchange ι δ) (i : ι) (point : WaitPoint) : (s.setPier i point).pier i = point :=
  Function.update_self _ _ _

/-- A step of one run changes only its own FIFO, and there only its own descriptors. -/
theorem Placed.moves (placed : Placed setup s) (x : ι)
    (pier : ∀ j, j ≠ x → t.pier j = s.pier j)
    (respond : ∀ r, r ≠ x → t.respond r = s.respond r)
    (fifo : ∀ k, k ≠ setup.path x → t.fifo k = s.fifo k)
    (process : ∀ j, (t.pier j).alive = true → t.process (setup.pid j) = some j)
    (unasked : (t.pier x).unasked = true → t.respond x = .idle)
    (readers : ∀ j, j ∈ (t.pipe setup x).readers ↔
      if j = x then (t.pier x).holds = true else j ∈ (s.pipe setup x).readers)
    (writers : ∀ r, r ∈ (t.pipe setup x).writers ↔
      if r = x then (t.respond x).holds = true else r ∈ (s.pipe setup x).writers) : Placed setup t where
  process := process
  unasked := by
    intro j
    by_cases here : j = x
    · rw [here]
      exact unasked
    · rw [pier j here, respond j here]
      exact placed.unasked j
  readers := by
    intro k j
    by_cases there : k = setup.path x
    · rw [there]
      refine (readers j).trans ?_
      split
      case isTrue here => simp [here]
      case isFalse here => rw [pier j here]; exact placed.readers _ j
    · rw [fifo k there, placed.readers k j]
      by_cases here : j = x
      · simp [here, Ne.symm there]
      · rw [pier j here]
  writers := by
    intro k r
    by_cases there : k = setup.path x
    · rw [there]
      refine (writers r).trans ?_
      split
      case isTrue here => simp [here]
      case isFalse here => rw [respond r here]; exact placed.writers _ r
    · rw [fifo k there, placed.writers k r]
      by_cases here : r = x
      · simp [here, Ne.symm there]
      · rw [respond r here]

omit [DecidableEq δ] in
/-- A live run that moves keeps its pid. -/
theorem Placed.turned (placed : Placed setup s) {i : ι} {point : WaitPoint} (live : (s.pier i).alive = true)
    (j : ι) (alive : (Function.update s.pier i point j).alive = true) :
    s.process (setup.pid j) = some j := by
  by_cases here : j = i
  · subst here
    exact placed.process j live
  · rw [Function.update_of_ne here] at alive
    exact placed.process j alive

omit [DecidableEq δ] in
/-- The end of a run frees only its own pid. -/
theorem Placed.frees (placed : Placed setup s) {i : ι} {point : WaitPoint} (live : (s.pier i).alive = true)
    (ended : point.alive = false) (j : ι) (alive : (Function.update s.pier i point j).alive = true) :
    Function.update s.process (setup.pid i) none (setup.pid j) = some j := by
  have elsewhere : j ≠ i := by
    rintro rfl
    rw [Function.update_self, ended] at alive
    contradiction
  rw [Function.update_of_ne elsewhere] at alive
  have process := placed.process j alive
  have apart : setup.pid j ≠ setup.pid i := by
    intro same
    rw [same, placed.process i live] at process
    exact elsewhere (Option.some.inj process).symm
  rw [Function.update_of_ne apart]
  exact process

/-- A run opens or closes its end of the FIFO. -/
theorem Placed.reads (placed : Placed setup s) {i : ι} {point : WaitPoint} {f : Fifo ι ι UInt8}
    (pier : t.pier = Function.update s.pier i point) (respond : t.respond = s.respond)
    (fifo : t.fifo = Function.update s.fifo (setup.path i) f)
    (process : ∀ j, (t.pier j).alive = true → t.process (setup.pid j) = some j) (asked : point.unasked = false)
    (readers : ∀ j, j ∈ f.readers ↔ if j = i then point.holds = true else j ∈ (s.pipe setup i).readers)
    (writers : f.writers = (s.pipe setup i).writers) : Placed setup t := by
  have here : t.pier i = point := by rw [pier, Function.update_self]
  have there : t.pipe setup i = f := by rw [pipe, fifo, Function.update_self]
  apply placed.moves i
  · intro j elsewhere
    rw [pier, Function.update_of_ne elsewhere]
  · intro r _
    rw [respond]
  · intro k elsewhere
    rw [fifo, Function.update_of_ne elsewhere]
  · exact process
  · rw [here, asked]
    exact fun unasked => absurd unasked Bool.false_ne_true
  · rw [here, there]
    exact readers
  · intro r
    rw [there, writers, respond]
    split
    case isTrue same =>
      rw [same]
      exact (placed.writers _ i).trans (and_iff_right rfl)
    case isFalse => rfl

/-- A response opens or closes its end of the FIFO. -/
theorem Placed.writes (placed : Placed setup s) {r : ι} {point : RespondPoint} {f : Fifo ι ι UInt8}
    (respond : t.respond = Function.update s.respond r point) (pier : t.pier = s.pier)
    (process : t.process = s.process) (fifo : t.fifo = Function.update s.fifo (setup.path r) f)
    (asked : s.respond r ≠ .idle) (readers : f.readers = (s.pipe setup r).readers)
    (writers : ∀ w, w ∈ f.writers ↔ if w = r then point.holds = true else w ∈ (s.pipe setup r).writers) :
    Placed setup t := by
  have here : t.respond r = point := by rw [respond, Function.update_self]
  have there : t.pipe setup r = f := by rw [pipe, fifo, Function.update_self]
  apply placed.moves r
  · intro j _
    rw [pier]
  · intro w elsewhere
    rw [respond, Function.update_of_ne elsewhere]
  · intro k elsewhere
    rw [fifo, Function.update_of_ne elsewhere]
  · rw [pier, process]
    exact placed.process
  · rw [pier]
    exact fun unasked => absurd (placed.unasked r unasked) asked
  · intro j
    rw [there, readers, pier]
    split
    case isTrue same =>
      rw [same]
      exact (placed.readers _ r).trans (and_iff_right rfl)
    case isFalse => rfl
  · rw [here, there]
    exact writers

/-- A run that has closed the FIFO can end. -/
theorem Placed.exits (placed : Placed setup s) {i : ι} {point : WaitPoint} (live : (s.pier i).alive = true)
    (closed : (s.pier i).holds = false) (ended : point.alive = false) (asked : point.unasked = false) :
    Placed setup (s.exit setup i point) := by
  have outside := WaitPoint.not_holds_of_ended ended
  have same : s.fifo = Function.update s.fifo (setup.path i) (s.pipe setup i) := by
    rw [pipe, Function.update_eq_self]
  refine placed.reads rfl rfl same (placed.frees live ended) asked (fun j => ?_) rfl
  split
  case isTrue here =>
    rw [here, outside]
    exact (placed.readers _ i).trans (by simp [closed])
  case isFalse => rfl

/-- Nobody reads at a path whose run has closed the FIFO. -/
theorem Placed.unlinks (placed : Placed setup s) {i : ι} (live : (s.pier i).alive = true)
    (closed : (s.pier i).holds = false) : Placed setup (s.unlinkPath setup i) where
  process := placed.process
  unasked := by
    intro r unasked
    have idle := placed.unasked r unasked
    have absent : r ∉ (s.pipe setup i).writers := by
      intro member
      have holds := ((placed.writers _ r).mp member).2
      rw [idle] at holds
      contradiction
    simp [unlinkPath, setPipe, absent, idle]
  readers := by
    intro k j
    by_cases there : k = setup.path i
    · subst there
      suffices setup.path j = setup.path i → (s.pier j).holds = false by
        simpa [unlinkPath, setPipe, Fifo.empty] using this
      intro path
      by_contra holds
      rw [Bool.not_eq_false] at holds
      rw [placed.same (WaitPoint.alive_of_holds holds) live path, closed] at holds
      contradiction
    · simpa [unlinkPath, setPipe, there] using placed.readers k j
  writers := by
    intro k r
    by_cases there : k = setup.path i
    · subst there
      suffices setup.path r = setup.path i →
          (if r ∈ (s.pipe setup i).writers then RespondPoint.stuck else s.respond r).holds = false by
        simpa [unlinkPath, setPipe, Fifo.empty] using this
      intro path
      split
      case isTrue => rfl
      case isFalse absent =>
        rw [← Bool.not_eq_true]
        exact fun holds => absent ((placed.writers _ r).mpr ⟨path, holds⟩)
    · have outside : setup.path r = k → r ∉ (s.pipe setup i).writers := by
        intro path member
        exact there (path.symm.trans ((placed.writers _ r).mp member).1)
      suffices setup.path r = k →
          ((if r ∈ (s.pipe setup i).writers then RespondPoint.stuck else s.respond r).holds = true ↔
            (s.respond r).holds = true) by
        simpa [unlinkPath, setPipe, there, placed.writers k r] using fun path => (this path).symm
      intro path
      rw [if_neg (outside path)]

omit [DecidableEq δ] in
/-- A run moves on without a change at its FIFO. -/
theorem Placed.turns (placed : Placed setup s) {i : ι} {point : WaitPoint}
    (pier : t.pier = Function.update s.pier i point) (respond : t.respond = s.respond)
    (process : t.process = s.process) (fifo : t.fifo = s.fifo) (live : (s.pier i).alive = true)
    (holds : point.holds = (s.pier i).holds) (asked : point.unasked = true → (s.pier i).unasked = true) :
    Placed setup t where
  process := by
    rw [pier, process]
    exact placed.turned live
  unasked := by
    intro j unasked
    rw [respond]
    rw [pier] at unasked
    by_cases here : j = i
    · subst here
      rw [Function.update_self] at unasked
      exact placed.unasked j (asked unasked)
    · rw [Function.update_of_ne here] at unasked
      exact placed.unasked j unasked
  readers := by
    intro k j
    rw [fifo, pier, placed.readers k j]
    by_cases here : j = i
    · subst here
      rw [Function.update_self, holds]
    · rw [Function.update_of_ne here]
  writers := by
    intro k r
    rw [fifo, respond, placed.writers k r]

omit [DecidableEq δ] in
/-- A response moves on without a change at its FIFO. -/
theorem Placed.answers (placed : Placed setup s) {r : ι} {point : RespondPoint}
    (respond : t.respond = Function.update s.respond r point) (pier : t.pier = s.pier)
    (process : t.process = s.process) (fifo : t.fifo = s.fifo) (holds : point.holds = (s.respond r).holds)
    (asked : s.respond r ≠ .idle) : Placed setup t where
  process := by
    rw [pier, process]
    exact placed.process
  unasked := by
    intro j unasked
    rw [pier] at unasked
    have idle := placed.unasked j unasked
    have elsewhere : j ≠ r := by
      rintro rfl
      exact asked idle
    rw [respond, Function.update_of_ne elsewhere]
    exact idle
  readers := by
    intro k j
    rw [fifo, pier, placed.readers k j]
  writers := by
    intro k j
    rw [fifo, respond, placed.writers k j]
    by_cases here : j = r
    · subst here
      rw [Function.update_self, holds]
    · rw [Function.update_of_ne here]

omit [DecidableEq ι] in
/-- Bytes pass without a change of a descriptor. -/
theorem Placed.pours (placed : Placed setup s) {i : ι} {f : Fifo ι ι UInt8} (pier : t.pier = s.pier)
    (respond : t.respond = s.respond) (process : t.process = s.process)
    (fifo : t.fifo = Function.update s.fifo (setup.path i) f) (readers : f.readers = (s.pipe setup i).readers)
    (writers : f.writers = (s.pipe setup i).writers) : Placed setup t where
  process := by
    rw [pier, process]
    exact placed.process
  unasked := by
    rw [pier, respond]
    exact placed.unasked
  readers := by
    intro k j
    rw [pier, ← placed.readers k j, fifo]
    by_cases there : k = setup.path i
    · rw [there, Function.update_self, readers, pipe]
    · rw [Function.update_of_ne there]
  writers := by
    intro k r
    rw [respond, ← placed.writers k r, fifo]
    by_cases there : k = setup.path i
    · rw [there, Function.update_self, writers, pipe]
    · rw [Function.update_of_ne there]

/-- No live run has the pid of a run that starts. -/
theorem Placed.starts (placed : Placed setup s) {i : ι} (here : s.pier i = .idle)
    (free : s.process (setup.pid i) = none) : Placed setup (effect setup s (.start i)) where
  process := by
    intro j
    change (Function.update s.pier i .made j).alive = true →
      Function.update s.process (setup.pid i) (some i) (setup.pid j) = some j
    by_cases same : j = i
    · subst same
      exact fun _ => Function.update_self _ _ _
    · rw [Function.update_of_ne same]
      intro alive
      have process := placed.process j alive
      have apart : setup.pid j ≠ setup.pid i := by
        intro pid
        rw [pid, free] at process
        contradiction
      rw [Function.update_of_ne apart]
      exact process
  unasked := by
    intro j
    change (Function.update s.pier i .made j).unasked = true → s.respond j = .idle
    by_cases same : j = i
    · subst same
      exact fun _ => placed.unasked j (by rw [here]; rfl)
    · rw [Function.update_of_ne same]
      exact placed.unasked j
  readers := by
    intro k j
    change j ∈ (s.fifo k).readers ↔ _ ∧ (Function.update s.pier i .made j).holds = true
    rw [placed.readers k j]
    by_cases same : j = i
    · subst same
      rw [Function.update_self, here]
      rfl
    · rw [Function.update_of_ne same]
  writers := placed.writers

/-- The response to a request that has just been written has no FIFO open. -/
theorem Placed.asks (placed : Placed setup s) {i : ι} (here : s.pier i = .locked) :
    Placed setup (effect setup s (.ask i)) := by
  have idle := placed.unasked i (by rw [here]; rfl)
  apply placed.moves i
  · exact fun j elsewhere => Function.update_of_ne elsewhere _ _
  · exact fun r elsewhere => Function.update_of_ne elsewhere _ _
  · exact fun _ _ => rfl
  · exact placed.turned (by rw [here]; rfl)
  · simp [effect, setPier, setRespond, WaitPoint.unasked]
  · intro j
    have closed := placed.readers (setup.path i) i
    by_cases same : j = i
    · simpa [same, here, effect, setPier, setRespond, pipe, WaitPoint.holds, WaitPoint.waits] using closed
    · simp [same, effect, setPier, setRespond, pipe]
  · intro r
    have closed := placed.writers (setup.path i) i
    by_cases same : r = i
    · simpa [same, idle, effect, setPier, setRespond, pipe, RespondPoint.holds] using closed
    · simp [same, effect, setPier, setRespond, pipe]

/-- A step keeps the processes and the descriptors together. -/
theorem placed_step (placed : Placed setup s) (next : step setup s a = some t) : Placed setup t := by
  obtain ⟨enabled, rfl⟩ := (step_eq_some setup).mp next
  cases a with
  | lock i =>
      have here := enabled.1
      exact placed.turns rfl rfl rfl rfl (by rw [here]; rfl) (by rw [here]; rfl) fun _ => by rw [here]; rfl
  | opened i =>
      have here := enabled.1
      exact placed.turns rfl rfl rfl rfl (by rw [here]; rfl) (by rw [here]; rfl) (by simp [WaitPoint.unasked])
  | eof i =>
      have here := enabled.1
      exact placed.turns rfl rfl rfl rfl (by rw [here]; rfl) (by rw [here]; rfl) (by simp [WaitPoint.unasked])
  | unlock i =>
      have here : s.pier i = .closed := enabled
      exact placed.turns rfl rfl rfl rfl (by rw [here]; rfl) (by rw [here]; rfl) (by simp [WaitPoint.unasked])
  | take i n => exact placed.pours rfl rfl rfl rfl rfl rfl
  | put r n => exact placed.pours rfl rfl rfl rfl rfl rfl
  | noPath r =>
      have here := enabled.1
      exact placed.answers rfl rfl rfl rfl (by rw [here]; rfl) (by simp [here])
  | writable r =>
      have here := enabled.1
      exact placed.answers rfl rfl rfl rfl (by rw [here]; rfl) (by simp [here])
  | refuse i removed =>
      obtain ⟨live, closed⟩ := WaitPoint.live_of_refuse enabled
      cases removed with
      | false => exact placed.exits live closed rfl rfl
      | true => exact (placed.unlinks live closed).exits live closed rfl rfl
  | unlink i =>
      have here : s.pier i = .unlocked := enabled
      have live : (s.pier i).alive = true := by rw [here]; rfl
      have closed : (s.pier i).holds = false := by rw [here]; rfl
      exact (placed.unlinks live closed).exits live closed rfl rfl
  | start i => exact placed.starts enabled.1 enabled.2
  | ask i => exact placed.asks enabled
  | openRead i =>
      have here : s.pier i = .asked := enabled
      refine placed.reads rfl rfl rfl (placed.turned (by rw [here]; rfl)) rfl (fun j => ?_) rfl
      by_cases same : j = i <;> simp [same, Fifo.openRead, WaitPoint.holds, WaitPoint.waits]
  | closeRead i =>
      have here : s.pier i = .closing := enabled
      refine placed.reads rfl rfl rfl (placed.turned (by rw [here]; rfl)) rfl (fun j => ?_)
        (Fifo.closeRead_writers _ i)
      by_cases same : j = i <;> simp [same, WaitPoint.holds, WaitPoint.waits]
  | kill i =>
      refine placed.reads rfl rfl rfl (placed.frees enabled rfl) rfl (fun j => ?_) (Fifo.closeRead_writers _ i)
      by_cases same : j = i <;> simp [same, WaitPoint.holds, WaitPoint.waits]
  | openWrite r =>
      have here := enabled.1
      refine placed.writes rfl rfl rfl rfl (by simp [here]) rfl fun w => ?_
      by_cases same : w = r <;> simp [same, Fifo.openWrite, RespondPoint.holds]
  | broken r =>
      have here := enabled.1
      refine placed.writes rfl rfl rfl rfl (by simp [here]) (Fifo.closeWrite_readers _ r) fun w => ?_
      by_cases same : w = r <;> simp [same, RespondPoint.holds]
  | closeWrite r =>
      have here := enabled.1
      refine placed.writes rfl rfl rfl rfl (by simp [here]) (Fifo.closeWrite_readers _ r) fun w => ?_
      by_cases same : w = r <;> simp [same, RespondPoint.holds]

end Step

end Exchange

end Piercloud.Cgi
