import Piercloud.Construction.Device
import Piercloud.Library.Runs

/-
This file shows that the lock keeps the requests of one device apart in its FIFO.
-/

namespace Piercloud.Cgi

open CLib Runs

/-- The process is between its lock and its unlock. -/
def PierPoint.inside : PierPoint → Bool
  | .locked => true
  | .writing => true
  | .waiting => true
  | .answered => true
  | _ => false

/-- The process has opened the FIFO. -/
def PierPoint.opened : PierPoint → Bool
  | .writing => true
  | .waiting => true
  | .answered => true
  | .done => true
  | _ => false

/-- The process has written its whole request. -/
def PierPoint.wrote : PierPoint → Bool
  | .waiting => true
  | .answered => true
  | .done => true
  | _ => false

def PierPoint.ended : PierPoint → Bool
  | .done => true
  | .refused => true
  | _ => false

namespace Device

variable {κ π : Type*} (input : π → PierInput)

/-- These are the marked bytes that a process has written so far. -/
def share (s : Device κ π) (p : π) : List (π × UInt8) :=
  ((pierBytes (input p)).take (s.count p)).map fun b => (p, b)

/-- The owner of the lock is the one process inside it. The processes wrote in lock order, and all but the
owner have ended. -/
structure Ordered (s : Device κ π) : Prop where
  owner : ∀ p, (s.pier p).inside = true ↔ s.owner = some p
  unopened : ∀ p, (s.pier p).opened = false → s.count p = 0
  whole : ∀ p, (s.pier p).wrote = true → s.count p = (pierBytes (input p)).length
  order : s.written = s.lockOrder.flatMap (share input s)
  finished : ∃ earlier, s.lockOrder = earlier ++ s.owner.toList ∧ ∀ q ∈ earlier, (s.pier q).ended = true

variable {input} {s : Device κ π}

theorem ordered_initial : Ordered input (initial : Device κ π) where
  owner := by simp [initial, PierPoint.inside]
  unopened := fun _ _ => rfl
  whole := by simp [initial, PierPoint.wrote]
  order := rfl
  finished := ⟨[], rfl, by simp⟩

/-- The order depends on the side of the writers alone. -/
theorem Ordered.frame {t : Device κ π} (ordered : Ordered input s) (pier : t.pier = s.pier)
    (owner : t.owner = s.owner) (count : t.count = s.count) (order : t.lockOrder = s.lockOrder)
    (written : t.written = s.written) : Ordered input t := by
  obtain ⟨owner', unopened, whole, order', finished⟩ := ordered
  have shares : share input t = share input s := by
    funext p
    rw [share, share, count]
  constructor
  · rwa [pier, owner]
  · rwa [pier, count]
  · rwa [pier, count]
  · rw [written, order, shares, order']
  · rwa [order, owner, pier]

/-- A process that has not ended is not among the earlier ones. -/
theorem other_ended {p q : π} (ended : (s.pier q).ended = true) (running : (s.pier p).ended = false) :
    q ≠ p := by
  rintro rfl
  simp [ended] at running

variable [DecidableEq π]

/-- A process moves on without taking or leaving the lock. -/
theorem Ordered.move {p : π} {point : PierPoint} (ordered : Ordered input s)
    (running : (s.pier p).ended = false) (same : point.inside = (s.pier p).inside)
    (unopened : point.opened = false → s.count p = 0)
    (whole : point.wrote = true → s.count p = (pierBytes (input p)).length) :
    Ordered input (s.setPier p point) where
  owner := by
    intro q
    change _ ↔ s.owner = some q
    rw [← ordered.owner q]
    by_cases here : q = p
    · subst here
      simp [setPier, same]
    · simp [setPier, here]
  unopened := by
    intro q
    by_cases here : q = p
    · subst here
      simpa [setPier] using unopened
    · simpa [setPier, here] using ordered.unopened q
  whole := by
    intro q
    by_cases here : q = p
    · subst here
      simpa [setPier] using whole
    · simpa [setPier, here] using ordered.whole q
  order := ordered.order
  finished := by
    obtain ⟨earlier, split, ended⟩ := ordered.finished
    refine ⟨earlier, split, fun q member => ?_⟩
    simpa [setPier, other_ended (ended q member) running] using ended q member

/-- A process takes the free lock before it has written anything. -/
theorem Ordered.acquire {p : π} (ordered : Ordered input s) (here : s.pier p = .lockOpened)
    (free : s.owner = none) :
    Ordered input { s.setPier p .locked with owner := some p, lockOrder := s.lockOrder ++ [p] } := by
  have nobody : ∀ q, (s.pier q).inside = false := by
    intro q
    have absent := ordered.owner q
    rw [free] at absent
    simpa using absent
  have empty : s.count p = 0 := ordered.unopened p (by rw [here]; rfl)
  constructor
  · intro q
    by_cases same : q = p
    · subst same
      simp [setPier, PierPoint.inside]
    · simp [setPier, same, nobody q, Ne.symm same]
  · intro q
    by_cases same : q = p
    · subst same
      exact fun _ => empty
    · simpa [setPier, same] using ordered.unopened q
  · intro q
    by_cases same : q = p
    · subst same
      simp [setPier, PierPoint.wrote]
    · simpa [setPier, same] using ordered.whole q
  · rw [List.flatMap_append, List.flatMap_singleton]
    change s.written = s.lockOrder.flatMap (share input s) ++ share input s p
    rw [ordered.order, share, empty]
    simp
  · obtain ⟨earlier, split, ended⟩ := ordered.finished
    refine ⟨earlier, by simpa [free] using split, fun q member => ?_⟩
    have running : (s.pier p).ended = false := by rw [here]; rfl
    simpa [setPier, other_ended (ended q member) running] using ended q member

/-- The owner ends and gives up the lock. -/
theorem Ordered.leave {p : π} {point : PierPoint} (ordered : Ordered input s)
    (holder : (s.pier p).inside = true) (ends : point.ended = true) (outside : point.inside = false)
    (unopened : point.opened = false → s.count p = 0)
    (whole : point.wrote = true → s.count p = (pierBytes (input p)).length) :
    Ordered input ((s.setPier p point).release p) := by
  have owned := (ordered.owner p).mp holder
  rw [release_eq]
  constructor
  · intro q
    by_cases same : q = p
    · subst same
      simp [setPier, outside, owned]
    · have other : (s.pier q).inside = false := by
        have absent := ordered.owner q
        rw [owned] at absent
        simpa [Ne.symm same] using absent
      simp [setPier, same, other, owned]
  · intro q
    by_cases same : q = p
    · subst same
      simpa [setPier] using unopened
    · simpa [setPier, same] using ordered.unopened q
  · intro q
    by_cases same : q = p
    · subst same
      simpa [setPier] using whole
    · simpa [setPier, same] using ordered.whole q
  · exact ordered.order
  · obtain ⟨earlier, split, ended⟩ := ordered.finished
    refine ⟨earlier ++ [p], by simpa [setPier, owned] using split, fun q member => ?_⟩
    by_cases same : q = p
    · subst same
      simpa [setPier] using ends
    · have before : q ∈ earlier := by simpa [same] using member
      simpa [setPier, same] using ended q before

/-- A write appends the next bytes of the owner's request. -/
theorem Ordered.append {p : π} (ordered : Ordered input s) (here : s.pier p = .writing) (n : Nat) :
    Ordered input (putBytes input s p n) where
  owner := ordered.owner
  unopened := by
    intro q closed
    have other : q ≠ p := by
      rintro rfl
      simp [putBytes, here, PierPoint.opened] at closed
    simpa [putBytes, other] using ordered.unopened q closed
  whole := by
    intro q wrote
    have other : q ≠ p := by
      rintro rfl
      simp [putBytes, here, PierPoint.wrote] at wrote
    simpa [putBytes, other] using ordered.whole q wrote
  order := by
    obtain ⟨earlier, split, ended⟩ := ordered.finished
    have owned : s.owner = some p := (ordered.owner p).mp (by rw [here]; rfl)
    have running : (s.pier p).ended = false := by rw [here]; rfl
    have before : earlier.flatMap (share input (putBytes input s p n)) = earlier.flatMap (share input s) := by
      apply List.flatMap_congr
      intro q member
      simp [share, putBytes, other_ended (ended q member) running]
    have grown : share input (putBytes input s p n) p = share input s p ++ nextBytes input s p n := by
      simp [share, nextBytes, putBytes, List.take_add]
    change s.written ++ _ = s.lockOrder.flatMap _
    rw [ordered.order, split, owned, List.flatMap_append, List.flatMap_append, before]
    simp [grown]
  finished := ordered.finished

variable [DecidableEq κ]

/-- Each step keeps the order. -/
theorem ordered_step {t : Device κ π} {a : Action κ π} (ordered : Ordered input s)
    (next : step input s a = some t) : Ordered input t := by
  obtain ⟨enabled, rfl⟩ := (step_eq_some input).mp next
  cases a with
  | creat | mkfifo | openRead | timeout | ready | read | eof | closeRead =>
      exact ordered.frame rfl rfl rfl rfl rfl
  | again => exact ordered
  | openLock p =>
      have here : s.pier p = .start := enabled.1
      exact ordered.move (by rw [here]; rfl) (by rw [here]; rfl)
        (fun _ => ordered.unopened p (by rw [here]; rfl)) (by simp [PierPoint.wrote])
  | lock p => exact ordered.acquire enabled.1 enabled.2
  | openWrite p =>
      have here : s.pier p = .locked := enabled.1
      have moved : Ordered input (s.setPier p .writing) :=
        ordered.move (by rw [here]; rfl) (by rw [here]; rfl) (by simp [PierPoint.opened])
          (by simp [PierPoint.wrote])
      exact moved.frame rfl rfl rfl rfl rfl
  | refuse p =>
      have unopened : s.count p = 0 := by
        apply ordered.unopened
        rcases enabled with here | here | here <;> rw [here] <;> rfl
      by_cases holder : (s.pier p).inside = true
      · exact ordered.leave holder rfl rfl (fun _ => unopened) (by simp [PierPoint.wrote])
      · have free : s.owner ≠ some p := fun owned => holder ((ordered.owner p).mpr owned)
        have running : (s.pier p).ended = false := by
          rcases enabled with here | here | here <;> rw [here] <;> rfl
        have moved : Ordered input (s.setPier p .refused) :=
          ordered.move running (by simpa [PierPoint.inside] using holder) (fun _ => unopened)
            (by simp [PierPoint.wrote])
        apply moved.frame <;> simp [effect, setPier, free]
  | write p n => exact ordered.append enabled.1 n
  | closeWrite p =>
      have here : s.pier p = .writing := enabled.1
      have moved : Ordered input (s.setPier p .waiting) :=
        ordered.move (by rw [here]; rfl) (by rw [here]; rfl) (by simp [PierPoint.opened]) fun _ => enabled.2
      exact moved.frame rfl rfl rfl rfl rfl
  | answer p =>
      have here : s.pier p = .waiting := enabled
      exact ordered.move (by rw [here]; rfl) (by rw [here]; rfl) (by simp [PierPoint.opened])
        fun _ => ordered.whole p (by rw [here]; rfl)
  | unlock p =>
      have here : s.pier p = .answered := enabled
      exact ordered.leave (by rw [here]; rfl) rfl rfl (by simp [PierPoint.opened])
        fun _ => ordered.whole p (by rw [here]; rfl)

theorem ordered_run {actions : List (Action κ π)} (reached : run (step input) initial actions = some s) :
    Ordered input s :=
  invariant (fun _ _ _ ordered next => ordered_step ordered next) ordered_initial reached

omit [DecidableEq κ] [DecidableEq π] in
theorem share_bytes (p : π) : (share input s p).map Prod.snd = (pierBytes (input p)).take (s.count p) := by
  simp [share, Function.comp_def]

omit [DecidableEq κ] [DecidableEq π] in
/-- The processes that have ended wrote whole requests or nothing. -/
theorem Ordered.whole_requests (ordered : Ordered input s) {earlier : List π}
    (ended : ∀ q ∈ earlier, (s.pier q).ended = true) :
    (earlier.flatMap (share input s)).map Prod.snd =
      (earlier.filter fun q => s.pier q = .done).flatMap fun q => pierBytes (input q) := by
  induction earlier with
  | nil => rfl
  | cons q earlier ih =>
      have later := ih fun other member => ended other (by simp [member])
      have last := ended q (by simp)
      rw [List.flatMap_cons, List.map_append, later, share_bytes]
      cases point : s.pier q with
      | done =>
          have all := ordered.whole q (by rw [point]; rfl)
          rw [List.filter_cons_of_pos (by simp [point]), List.flatMap_cons, all, List.take_length]
      | refused =>
          have nothing := ordered.unopened q (by rw [point]; rfl)
          rw [List.filter_cons_of_neg (by simp [point]), nothing]
          rfl
      | start | lockOpened | locked | writing | waiting | answered => simp [point, PierPoint.ended] at last

/-- In every reachable state at most one process is between its lock and its unlock, and the bytes written so
far are whole requests, in lock order, and a prefix of that process's request. -/
theorem requests_never_interleave (input : π → PierInput) (actions : List (Action κ π)) (s : Device κ π)
    (reached : run (step input) initial actions = some s) :
    (∀ p q, (s.pier p).inside = true → (s.pier q).inside = true → p = q) ∧
      ∃ part, s.written.map Prod.snd =
          ((s.lockOrder.filter fun p => s.pier p = .done).flatMap fun p => pierBytes (input p)) ++ part ∧
        (∀ p, (s.pier p).inside = true → part <+: pierBytes (input p)) ∧
        ((∀ p, (s.pier p).inside = false) → part = []) := by
  have ordered : Ordered input s := ordered_run reached
  obtain ⟨earlier, split, ended⟩ := ordered.finished
  constructor
  · intro p q first second
    have same := (ordered.owner p).mp first
    rw [(ordered.owner q).mp second] at same
    exact (Option.some.inj same).symm
  · have written := congrArg (List.map Prod.snd) ordered.order
    rw [split, List.flatMap_append, List.map_append, ordered.whole_requests ended] at written
    refine ⟨(s.owner.toList.flatMap (share input s)).map Prod.snd, ?_, ?_, ?_⟩
    · have nobody : s.owner.toList.filter (fun p => s.pier p = .done) = [] := by
        rw [List.filter_eq_nil_iff]
        intro p member
        have inside := (ordered.owner p).mpr (by simpa using member)
        intro done
        rw [of_decide_eq_true done] at inside
        contradiction
      rw [written, split, List.filter_append, nobody, List.append_nil]
    · intro p inside
      rw [(ordered.owner p).mp inside]
      simp only [Option.toList_some, List.flatMap_singleton, share_bytes]
      exact List.take_prefix _ _
    · intro outside
      have free : s.owner = none := by
        cases owned : s.owner with
        | none => rfl
        | some p =>
            have inside := (ordered.owner p).mpr owned
            rw [outside p] at inside
            contradiction
      rw [free]
      rfl

/-- Both processes send the smallest request. -/
def sampleInput (p : Bool) : PierInput := ⟨if p then 12 else 11, [], []⟩

/-- The second process waits for the lock until the first one has its response. -/
def orderedRun : List (Action Unit Bool) :=
  [.creat (), .mkfifo (), .openLock true, .openLock false, .lock true, .openRead (), .openWrite true,
    .write true 27, .ready (), .read () 20, .closeWrite true, .read () 7, .answer true, .eof (), .unlock true,
    .closeRead (), .openRead (), .lock false, .openWrite false, .write false 5]

def orderedState : Device Unit Bool := (run (step sampleInput) initial orderedRun).get (by decide +kernel)

theorem requests_never_interleave_ordered :
    (∀ p q, (orderedState.pier p).inside = true → (orderedState.pier q).inside = true → p = q) ∧
      ∃ part, orderedState.written.map Prod.snd = ((orderedState.lockOrder.filter fun p =>
          orderedState.pier p = .done).flatMap fun p => pierBytes (sampleInput p)) ++ part ∧
        (∀ p, (orderedState.pier p).inside = true → part <+: pierBytes (sampleInput p)) ∧
        ((∀ p, (orderedState.pier p).inside = false) → part = []) :=
  requests_never_interleave sampleInput orderedRun orderedState (Option.some_get _).symm

end Device

end Piercloud.Cgi
