import Piercloud.Proof.Device.Loss

/-
This file shows when a request goes whole to one of many `Connect` processes.
-/

namespace Piercloud.Cgi.Device

open CLib Runs

variable {κ π : Type*}

/-- No other `Connect` is in its read loop when one enters it. -/
def ReadsAlone (s : Device κ π) : Action κ π → Prop
  | .ready _ => ∀ k, s.connect k ≠ .reading
  | _ => True

instance [Fintype κ] (s : Device κ π) : ∀ a : Action κ π, Decidable (ReadsAlone s a)
  | .ready _ => inferInstanceAs (Decidable (∀ _, _ ≠ _))
  | .creat _ | .mkfifo _ | .openRead _ | .timeout _ | .read _ _ | .again _ | .eof _ | .closeRead _ | .openLock _
  | .lock _ | .openWrite _ | .refuse _ | .write _ _ | .closeWrite _ | .answer _ | .unlock _ => isTrue trivial

/-- This `Connect` has read a byte of the request. -/
def Forwards (s : Device κ π) (k : κ) (p : π) : Prop := ∃ b, (k, p, b) ∈ s.readLog

/-- Bytes of this request are in the FIFO or can still come into it. -/
def Active (s : Device κ π) (p : π) : Prop := s.pier p = .writing ∨ ∃ b, (p, b) ∈ s.fifo.content

def leftBytes [DecidableEq π] (s : Device κ π) (p : π) : Bytes :=
  (s.fifo.content.filter fun b => b.1 = p).map Prod.snd

def forwardedBytes [DecidableEq κ] [DecidableEq π] (s : Device κ π) (k : κ) (p : π) : Bytes :=
  ((s.forwarded k).filter fun b => b.1 = p).map Prod.snd

/-- The bytes of each process stand in the FIFO in the order of its request. -/
def Shares [DecidableEq π] (input : π → PierInput) (s : Device κ π) : Prop :=
  ∀ p, s.written.filter (fun b => b.1 = p) = share input s p

/-- At most one `Connect` is in its read loop, and a `Connect` that has read a part of an active request stays
in it. -/
structure Exclusive (s : Device κ π) : Prop where
  conserved : Conserved s
  alone : ∀ k k', s.connect k = .reading → s.connect k' = .reading → k = k'
  writers : ∀ p, p ∈ s.fifo.writers ↔ s.pier p = .writing
  stays : ∀ k p, Forwards s k p → Active s p → s.connect k = .reading
  single : ∀ k k' p, Forwards s k p → Forwards s k' p → k = k'

variable {input : π → PierInput} {s t : Device κ π} {a : Action κ π}

theorem exclusive_initial : Exclusive (initial : Device κ π) where
  conserved := rfl
  alone := by simp [initial]
  writers := by simp [initial, Fifo.empty]
  stays := by simp [initial, Forwards]
  single := by simp [initial, Forwards]

theorem shares_initial [DecidableEq π] : Shares input (initial : Device κ π) := fun p => by simp [initial, share]

/-- A `Connect` that leaves its read loop leaves no active request behind. -/
theorem Exclusive.connect_moves [DecidableEq κ] (exclusive : Exclusive s) (conserved : Conserved t) {k : κ}
    {point : ConnectPoint} (moved : t.connect = Function.update s.connect k point) (pier : t.pier = s.pier)
    (readLog : t.readLog = s.readLog) (writers : t.fifo.writers = s.fifo.writers)
    (content : ∀ b ∈ t.fifo.content, b ∈ s.fifo.content)
    (leaves : s.connect k = .reading → ∀ p, ¬ Active s p)
    (enters : point = .reading → ∀ k', s.connect k' ≠ .reading) : Exclusive t := by
  have active : ∀ p, Active t p → Active s p := by
    rintro p (writing | ⟨b, left⟩)
    · exact Or.inl (pier ▸ writing)
    · exact Or.inr ⟨b, content _ left⟩
  constructor
  · exact conserved
  · intro k₁ k₂ first second
    rw [moved] at first second
    by_cases here : k₁ = k <;> by_cases here' : k₂ = k
    · rw [here, here']
    · rw [here, Function.update_self] at first
      rw [Function.update_of_ne here'] at second
      exact absurd second (enters first k₂)
    · rw [Function.update_of_ne here] at first
      rw [here', Function.update_self] at second
      exact absurd first (enters second k₁)
    · rw [Function.update_of_ne here] at first
      rw [Function.update_of_ne here'] at second
      exact exclusive.alone k₁ k₂ first second
  · intro p
    rw [writers, pier]
    exact exclusive.writers p
  · intro k' p forwards now
    have before : s.connect k' = .reading :=
      exclusive.stays k' p (by rwa [Forwards, readLog] at forwards) (active p now)
    by_cases here : k' = k
    · exact absurd (active p now) (leaves (here ▸ before) p)
    · rw [moved, Function.update_of_ne here]
      exact before
  · intro k₁ k₂ p first second
    rw [Forwards, readLog] at first second
    exact exclusive.single k₁ k₂ p first second

/-- A process that starts to write has no byte in the log yet. -/
theorem Exclusive.pier_side (exclusive : Exclusive s) (conserved : Conserved t) (connect : t.connect = s.connect)
    (readLog : t.readLog = s.readLog) (writers : ∀ p, p ∈ t.fifo.writers ↔ t.pier p = .writing)
    (active : ∀ p, Active t p → Active s p ∨ ∀ k, ¬ Forwards s k p) : Exclusive t := by
  constructor
  · exact conserved
  · rw [connect]
    exact exclusive.alone
  · exact writers
  · intro k p forwards now
    rw [Forwards, readLog] at forwards
    rw [connect]
    rcases active p now with before | untouched
    · exact exclusive.stays k p forwards before
    · exact absurd forwards (untouched k)
  · intro k₁ k₂ p first second
    rw [Forwards, readLog] at first second
    exact exclusive.single k₁ k₂ p first second

/-- One process opens the FIFO for writing, or leaves it, or moves outside of it. -/
theorem Exclusive.pier_turns [DecidableEq π] (exclusive : Exclusive s) (conserved : Conserved t) {p : π}
    {point : PierPoint} (pier : t.pier = Function.update s.pier p point) (connect : t.connect = s.connect)
    (readLog : t.readLog = s.readLog)
    (writers : ∀ q, q ∈ t.fifo.writers ↔ q = p ∧ point = .writing ∨ q ≠ p ∧ q ∈ s.fifo.writers)
    (content : ∀ b ∈ t.fifo.content, b ∈ s.fifo.content) (fresh : point = .writing → ∀ k, ¬ Forwards s k p) :
    Exclusive t := by
  apply exclusive.pier_side conserved connect readLog
  · intro q
    rw [writers, pier]
    by_cases same : q = p
    · subst same
      simp
    · simp [same, exclusive.writers]
  · rintro q (writing | ⟨b, left⟩)
    · rw [pier] at writing
      by_cases same : q = p
      · subst same
        exact Or.inr (fresh (by simpa using writing))
      · exact Or.inl (Or.inl (by simpa [same] using writing))
    · exact Or.inl (Or.inr ⟨b, content _ left⟩)

/-- Outside the open FIFO a process moves freely. -/
theorem Exclusive.pier_moves [DecidableEq π] (exclusive : Exclusive s) (conserved : Conserved t) {p : π}
    {point : PierPoint} (pier : t.pier = Function.update s.pier p point) (connect : t.connect = s.connect)
    (readLog : t.readLog = s.readLog) (fifo : t.fifo = s.fifo) (before : s.pier p ≠ .writing)
    (after : point ≠ .writing) : Exclusive t := by
  have outside : p ∉ s.fifo.writers := fun member => before ((exclusive.writers p).mp member)
  apply exclusive.pier_turns conserved pier connect readLog
  · intro q
    rw [fifo]
    by_cases same : q = p
    · subst same
      simp [outside, after]
    · simp [same]
  · rw [fifo]
    exact fun b member => member
  · exact fun writing => absurd writing after

section Step

variable [DecidableEq κ] [DecidableEq π]

omit [DecidableEq κ] [DecidableEq π] in
theorem nextBytes_writer {p : π} {n : Nat} {b : π × UInt8} (member : b ∈ nextBytes input s p n) : b.1 = p := by
  obtain ⟨byte, -, rfl⟩ := List.mem_map.mp member
  rfl

theorem shares_step (shares : Shares input s) (next : step input s a = some t) : Shares input t := by
  obtain ⟨-, rfl⟩ := (step_eq_some input).mp next
  have quiet : ∀ u : Device κ π, u.written = s.written → u.count = s.count → Shares input u := by
    intro u written count p
    rw [written, shares p, share, share, count]
  cases a with
  | write q n =>
      intro p
      change (s.written ++ nextBytes input s q n).filter _ = _
      rw [List.filter_append, shares p]
      by_cases same : p = q
      · subst same
        have all : (nextBytes input s p n).filter (fun b => b.1 = p) = nextBytes input s p n := by
          rw [List.filter_eq_self]
          exact fun b member => by simpa using nextBytes_writer member
        rw [all]
        simp [effect, putBytes, share, nextBytes, List.take_add]
      · have others : (nextBytes input s q n).filter (fun b => b.1 = p) = [] := by
          rw [List.filter_eq_nil_iff]
          intro b member
          simpa [nextBytes_writer member] using Ne.symm same
        simp [others, effect, putBytes, share, same]
  | refuse p | unlock p => apply quiet <;> simp [effect, setPier]
  | creat k | mkfifo k | openRead k | timeout k | ready k | read k n | again k | eof k | closeRead k | openLock p
  | lock p | openWrite p | closeWrite p | answer p => exact quiet _ rfl rfl

omit [DecidableEq κ] [DecidableEq π] in
/-- A read takes bytes of active requests alone, and their earlier bytes went to the same `Connect`. -/
theorem Exclusive.reads (exclusive : Exclusive s) {k : κ} {n : Nat} (conserved : Conserved t)
    (here : s.connect k = .reading) (connect : t.connect = s.connect) (pier : t.pier = s.pier)
    (readLog : t.readLog = s.readLog ++ (s.fifo.content.take n).map fun b => (k, b))
    (fifo : t.fifo = s.fifo.pull n) : Exclusive t := by
  have active : ∀ p, Active t p → Active s p := by
    rintro p (writing | ⟨b, left⟩)
    · exact Or.inl (pier ▸ writing)
    · rw [fifo] at left
      exact Or.inr ⟨b, List.mem_of_mem_drop left⟩
  have forwards : ∀ k' p, Forwards t k' p → Forwards s k' p ∨ k' = k ∧ Active s p := by
    rintro k' p ⟨b, entry⟩
    rw [readLog, List.mem_append] at entry
    rcases entry with old | new
    · exact Or.inl ⟨b, old⟩
    · obtain ⟨byte, taken, same⟩ := List.mem_map.mp new
      obtain ⟨rfl, rfl⟩ := Prod.mk.inj same
      exact Or.inr ⟨rfl, Or.inr ⟨b, List.mem_of_mem_take taken⟩⟩
  constructor
  · exact conserved
  · rw [connect]
    exact exclusive.alone
  · rw [fifo, pier]
    exact exclusive.writers
  · intro k' p now coming
    rw [connect]
    rcases forwards k' p now with old | ⟨rfl, -⟩
    · exact exclusive.stays k' p old (active p coming)
    · exact here
  · intro k₁ k₂ p first second
    rcases forwards k₁ p first with old | ⟨rfl, live⟩ <;> rcases forwards k₂ p second with old' | ⟨rfl, live'⟩
    · exact exclusive.single k₁ k₂ p old old'
    · exact exclusive.alone k₁ _ (exclusive.stays k₁ p old live') here
    · exact exclusive.alone _ k₂ here (exclusive.stays k₂ p old' live)
    · rfl

omit [DecidableEq κ] in
/-- A process that has written nothing is in no log. -/
theorem untouched (shares : Shares input s) (conserved : Conserved s) {p : π} (nothing : s.count p = 0) (k : κ) :
    ¬ Forwards s k p := by
  rintro ⟨b, entry⟩
  have written : (p, b) ∈ s.written.filter fun b => b.1 = p := by
    rw [List.mem_filter, ← conserved, List.mem_append]
    exact ⟨Or.inl (List.mem_map.mpr ⟨_, entry, rfl⟩), by simp⟩
  rw [shares p, share, nothing] at written
  simp at written

/-- A guarded step keeps the reading exclusive. -/
theorem exclusive_step (exclusive : Exclusive s) (ordered : Ordered input s) (shares : Shares input s)
    (keeps : KeepsContent s a) (alone : ReadsAlone s a) (next : step input s a = some t) : Exclusive t := by
  have conserved := conserved_step exclusive.conserved keeps next
  obtain ⟨enabled, rfl⟩ := (step_eq_some input).mp next
  -- Outside the read loop a `Connect` has nothing to leave behind.
  have idle : ∀ {k : κ} {point : ConnectPoint}, s.connect k = point → point ≠ .reading →
      s.connect k = .reading → ∀ p, ¬ Active s p :=
    fun here other reading => absurd (here ▸ reading) other
  cases a with
  | creat k | mkfifo k | openRead k | timeout k =>
      exact exclusive.connect_moves conserved rfl rfl rfl rfl (fun _ same => same)
        (idle enabled (by decide)) (by simp)
  | ready k =>
      exact exclusive.connect_moves conserved rfl rfl rfl rfl (fun _ same => same)
        (idle enabled.1 (by decide)) fun _ => alone
  | read k n => exact exclusive.reads conserved enabled.1 rfl rfl rfl rfl
  | again k => exact exclusive
  | eof k =>
      obtain ⟨-, empty, closed⟩ := enabled
      apply exclusive.connect_moves conserved rfl rfl rfl rfl (fun _ same => same) _ (by simp)
      rintro - p (writing | ⟨b, left⟩)
      · have member := (exclusive.writers p).mpr writing
        simp [closed] at member
      · simp [empty] at left
  | closeRead k =>
      apply exclusive.connect_moves conserved rfl rfl rfl (Fifo.closeRead_writers _ _) _
        (idle enabled (by decide)) (by simp)
      intro b member
      simp only [effect, Fifo.closeRead_content] at member
      split at member
      · contradiction
      · exact member
  | openLock p | lock p =>
      exact exclusive.pier_moves conserved rfl rfl rfl rfl (by simp [enabled.1]) (by decide)
  | refuse p =>
      have outside : s.pier p ≠ .writing := by
        rcases enabled with here | here | here <;> simp [here]
      have closed : PierPoint.refused ≠ .writing := by decide
      apply exclusive.pier_moves conserved _ _ _ _ outside closed <;> simp [effect, setPier]
  | answer p =>
      have here : s.pier p = .waiting := enabled
      exact exclusive.pier_moves conserved rfl rfl rfl rfl (by simp [here]) (by decide)
  | unlock p =>
      have here : s.pier p = .answered := enabled
      have outside : s.pier p ≠ .writing := by simp [here]
      have closed : PierPoint.done ≠ .writing := by decide
      apply exclusive.pier_moves conserved _ _ _ _ outside closed <;> simp [effect, setPier]
  | openWrite p =>
      have nothing : s.count p = 0 := ordered.unopened p (by rw [enabled.1]; rfl)
      apply exclusive.pier_turns conserved rfl rfl rfl
      · intro q
        by_cases same : q = p <;> simp [effect, Fifo.openWrite, same]
      · exact fun _ member => member
      · exact fun _ => untouched shares exclusive.conserved nothing
  | write p n =>
      apply exclusive.pier_side conserved rfl rfl exclusive.writers
      rintro q (writing | ⟨b, left⟩)
      · exact Or.inl (Or.inl writing)
      · rcases List.mem_append.mp left with old | new
        · exact Or.inl (Or.inr ⟨b, old⟩)
        · obtain rfl : q = p := nextBytes_writer new
          exact Or.inl (Or.inl enabled.1)
  | closeWrite p =>
      apply exclusive.pier_turns conserved rfl rfl rfl
      · intro q
        by_cases same : q = p <;> simp [effect, same]
      · intro b member
        simp only [effect, Fifo.closeWrite_content] at member
        split at member
        · contradiction
        · exact member
      · simp

/-- A guarded run keeps the reading exclusive. -/
theorem exclusive_run {actions : List (Action κ π)} (reached : run (step input) initial actions = some s)
    (guarded : Along (step input) (fun s a => KeepsContent s a ∧ ReadsAlone s a) initial actions) :
    Exclusive s ∧ Ordered input s ∧ Shares input s := by
  have kept : ∀ (s : Device κ π) a t, Exclusive s ∧ Ordered input s ∧ Shares input s →
      KeepsContent s a ∧ ReadsAlone s a → step input s a = some t →
      Exclusive t ∧ Ordered input t ∧ Shares input t :=
    fun s a t good guard next => ⟨exclusive_step good.1 good.2.1 good.2.2 guard.1 guard.2 next,
      ordered_step good.2.1 next, shares_step good.2.2 next⟩
  exact invariant_along kept ⟨exclusive_initial, ordered_initial, shares_initial⟩ guarded reached

omit [DecidableEq κ] in
/-- What was read of a request and what is left of it in the FIFO is what was written of it. -/
theorem written_split (shares : Shares input s) (conserved : Conserved s) (p : π) :
    ((s.readLog.filter fun entry => entry.2.1 = p).map fun entry => entry.2.2) ++ s.leftBytes p =
      (pierBytes (input p)).take (s.count p) := by
  have written := congrArg (List.map Prod.snd) (shares p)
  rw [← conserved, List.filter_append, List.map_append, share_bytes, List.filter_map, List.map_map] at written
  exact written

/-- The only `Connect` that read bytes of a request forwarded all that was read. -/
theorem forwardedBytes_single {k : κ} {p : π} (single : ∀ k', Forwards s k' p → k' = k) :
    s.forwardedBytes k p = (s.readLog.filter fun entry => entry.2.1 = p).map fun entry => entry.2.2 := by
  have same : (s.readLog.filter fun entry => entry.1 = k).filter (fun entry => entry.2.1 = p) =
      s.readLog.filter fun entry => entry.2.1 = p := by
    rw [List.filter_filter]
    apply List.filter_congr
    intro entry member
    by_cases here : entry.2.1 = p
    · have reader := single entry.1 ⟨entry.2.2, here ▸ member⟩
      simp [here, reader]
    · simp [here]
  rw [forwardedBytes, forwarded, List.filter_map, List.map_map, ← same]
  rfl

/-- If a `Connect` enters its read loop only while no other one is in it, and no byte is discarded, then a
completely written request is whole in the FIFO, or one `Connect` alone forwards it in order. -/
theorem request_goes_to_one_connect (input : π → PierInput) (actions : List (Action κ π)) (s : Device κ π)
    (reached : run (step input) initial actions = some s)
    (kept : Along (step input) KeepsContent initial actions)
    (alone : Along (step input) ReadsAlone initial actions) (p : π) (wrote : (s.pier p).wrote = true) :
    ((∀ k, ¬ s.Forwards k p) ∧ s.leftBytes p = pierBytes (input p)) ∨
      ∃ k, (∀ k', s.Forwards k' p → k' = k) ∧ s.forwardedBytes k p ++ s.leftBytes p = pierBytes (input p) := by
  obtain ⟨exclusive, ordered, shares⟩ := exclusive_run reached (along_and kept alone)
  have split := written_split shares exclusive.conserved p
  rw [ordered.whole p wrote, List.take_length] at split
  by_cases touched : ∃ k, s.Forwards k p
  · obtain ⟨k, forwards⟩ := touched
    have single : ∀ k', s.Forwards k' p → k' = k := fun k' other => exclusive.single k' k p other forwards
    exact Or.inr ⟨k, single, by rw [forwardedBytes_single single, split]⟩
  · have untouched : ∀ k, ¬ s.Forwards k p := fun k forwards => touched ⟨k, forwards⟩
    have unread : s.readLog.filter (fun entry => entry.2.1 = p) = [] := by
      rw [List.filter_eq_nil_iff]
      intro entry member here
      exact untouched entry.1 ⟨entry.2.2, of_decide_eq_true here ▸ member⟩
    rw [unread] at split
    exact Or.inl ⟨untouched, split⟩

end Step

/-- The first session reads the whole request, and the second one opens the FIFO behind it. -/
def turnsRun : List (Action Bool Bool) :=
  [.creat true, .mkfifo true, .creat false, .mkfifo false, .openRead true, .openRead false, .openLock true,
    .lock true, .openWrite true, .write true 10, .ready true, .read true 4, .write true 17, .closeWrite true,
    .read true 20]

def turnsState : Device Bool Bool := (run (step sampleInput) initial turnsRun).get (by decide +kernel)

theorem request_goes_to_one_connect_turns :
    ((∀ k, ¬ turnsState.Forwards k true) ∧ turnsState.leftBytes true = pierBytes (sampleInput true)) ∨
      ∃ k, (∀ k', turnsState.Forwards k' true → k' = k) ∧
        turnsState.forwardedBytes k true ++ turnsState.leftBytes true = pierBytes (sampleInput true) :=
  request_goes_to_one_connect sampleInput turnsRun turnsState (Option.some_get _).symm (by decide +kernel)
    (by decide +kernel) true (by decide +kernel)

/-- Two sessions enter their read loops for one request, and each forwards a part of it. -/
def splitRun : List (Action Bool Bool) :=
  [.creat true, .mkfifo true, .creat false, .mkfifo false, .openRead true, .openRead false, .openLock true,
    .lock true, .openWrite true, .write true 10, .ready true, .ready false, .read true 4, .read false 6,
    .write true 17, .closeWrite true, .read false 17]

def splitState : Device Bool Bool := (run (step sampleInput) initial splitRun).get (by decide +kernel)

/-- A request can go to two sessions. -/
theorem request_goes_to_two_connects : ∃ (actions : List (Action Bool Bool)) (s : Device Bool Bool) (p : Bool),
    run (step sampleInput) initial actions = some s ∧ Along (step sampleInput) KeepsContent initial actions ∧
      (s.pier p).wrote = true ∧ s.leftBytes p = [] ∧ ∀ k, s.forwardedBytes k p ≠ pierBytes (sampleInput p) :=
  ⟨splitRun, splitState, true, (Option.some_get _).symm, by decide +kernel, by decide +kernel, by decide +kernel,
    by decide +kernel⟩

end Piercloud.Cgi.Device
