import Piercloud.Proof.Answer.Places

/-
This file shows when the response that a `Pier` copies to its browser is the one to its own request.
-/

namespace Piercloud.Cgi.Exchange

open CLib Runs

variable {ι δ : Type*} (setup : Setup ι δ)

/-- What this run has copied and what is left in its FIFO is what its own response has written. -/
structure Sound (s : Exchange ι δ) (i : ι) : Prop where
  early : (s.pier i).early = true → s.copied i = [] ∧ s.count i = 0 ∧ s.found i = false
  unwritten : (s.pier i).early = true → s.respond i ≠ .writing ∧ s.respond i ≠ .closed
  own : (s.pier i).waits = true → ∀ r ∈ (s.pipe setup i).writers, r = i
  balance : (s.pier i).waits = true →
    s.copied i ++ (s.pipe setup i).content = (setup.response i).take (s.count i)
  met : (s.pier i).waits = true → s.met i = true → (s.respond i).present = true
  reading : s.pier i = .reading → s.met i = true
  closed : s.respond i = .closed → s.count i = (setup.response i).length
  whole : (s.pier i).answered = true → s.copied i = setup.response i
  front : s.copied i <+: setup.response i

variable {setup} {s t : Exchange ι δ} {a : Move ι}

theorem sound_initial (i : ι) : Sound setup (initial : Exchange ι δ) i := by
  constructor <;> simp [initial, WaitPoint.waits, WaitPoint.answered]

/-- A step elsewhere changes nothing that this run depends on. -/
theorem Sound.frame {i : ι} (sound : Sound setup s i) (pier : t.pier i = s.pier i)
    (respond : t.respond i = s.respond i) (count : t.count i = s.count i) (copied : t.copied i = s.copied i)
    (found : (s.pier i).early = true → t.found i = s.found i)
    (met : (s.pier i).waits = true → t.met i = s.met i)
    (pipe : (s.pier i).waits = true → t.pipe setup i = s.pipe setup i) : Sound setup t i := by
  constructor
  · rw [pier, copied, count]
    intro early
    rw [found early]
    exact sound.early early
  · rw [pier, respond]
    exact sound.unwritten
  · rw [pier]
    intro waits
    rw [pipe waits]
    exact sound.own waits
  · rw [pier, copied, count]
    intro waits
    rw [pipe waits]
    exact sound.balance waits
  · rw [pier, respond]
    intro waits
    rw [met waits]
    exact sound.met waits
  · rw [pier]
    intro reading
    rw [met (by rw [reading]; rfl)]
    exact sound.reading reading
  · rw [respond, count]
    exact sound.closed
  · rw [pier, copied]
    exact sound.whole
  · rw [copied]
    exact sound.front

/-- Before it opens the FIFO a run moves freely. -/
theorem Sound.advances {i : ι} (sound : Sound setup s i) (before : (s.pier i).early = true)
    (after : (t.pier i).early = true) (unwritten : t.respond i ≠ .writing ∧ t.respond i ≠ .closed)
    (copied : t.copied i = s.copied i) (count : t.count i = s.count i) (found : t.found i = s.found i) :
    Sound setup t i := by
  have waits := WaitPoint.not_waits_of_early after
  have answered := WaitPoint.not_answered_of_early after
  constructor
  · rw [copied, count, found]
    exact fun _ => sound.early before
  · exact fun _ => unwritten
  · simp [waits]
  · simp [waits]
  · simp [waits]
  · intro reading
    rw [reading] at after
    contradiction
  · exact fun closed => absurd closed unwritten.2
  · simp [answered]
  · rw [copied]
    exact sound.front

/-- A run that waits at the FIFO keeps its balance. -/
theorem Sound.of_waits {i : ι} (waits : (t.pier i).waits = true)
    (own : ∀ r ∈ (t.pipe setup i).writers, r = i)
    (balance : t.copied i ++ (t.pipe setup i).content = (setup.response i).take (t.count i))
    (met : t.met i = true → (t.respond i).present = true) (reading : t.pier i = .reading → t.met i = true)
    (closed : t.respond i = .closed → t.count i = (setup.response i).length) : Sound setup t i := by
  have early := WaitPoint.not_early_of_waits waits
  have answered := WaitPoint.not_answered_of_waits waits
  constructor
  · simp [early]
  · simp [early]
  · exact fun _ => own
  · exact fun _ => balance
  · exact fun _ => met
  · exact reading
  · exact closed
  · simp [answered]
  · exact (List.prefix_append _ _).trans (balance ▸ List.take_prefix _ _)

/-- A run that does not wait at the FIFO only keeps what it has copied. -/
theorem Sound.rests {i : ι} (sound : Sound setup s i) (early : (t.pier i).early = false)
    (waits : (t.pier i).waits = false) (copied : t.copied i = s.copied i)
    (closed : t.respond i = .closed → t.count i = (setup.response i).length)
    (whole : (t.pier i).answered = true → s.copied i = setup.response i) : Sound setup t i where
  early := by simp [early]
  unwritten := by simp [early]
  own := by simp [waits]
  balance := by simp [waits]
  met := by simp [waits]
  reading := by
    intro reading
    rw [reading] at waits
    contradiction
  closed := closed
  whole := by rwa [copied]
  front := by
    rw [copied]
    exact sound.front

/-- A run that does not read any more keeps what it has copied. -/
theorem Sound.leaves {i : ι} {point : WaitPoint} (sound : Sound setup s i) (pier : t.pier i = point)
    (early : point.early = false) (waits : point.waits = false) (copied : t.copied i = s.copied i)
    (count : t.count i = s.count i) (respond : t.respond i = .closed → s.respond i = .closed)
    (answered : point.answered = true → (s.pier i).answered = true) : Sound setup t i := by
  apply Sound.rests sound
  · rw [pier, early]
  · rw [pier, waits]
  · exact copied
  · rw [count]
    exact fun closed => sound.closed (respond closed)
  · rw [pier]
    exact fun now => sound.whole (answered now)

/-- A response moves at the FIFO of its own run. -/
theorem Sound.responds {r : ι} (sound : Sound setup s r) (pier : t.pier r = s.pier r)
    (copied : t.copied r = s.copied r)
    (early : (s.pier r).early = true →
      t.count r = 0 ∧ t.found r = false ∧ t.respond r ≠ .writing ∧ t.respond r ≠ .closed)
    (waits : (s.pier r).waits = true → (∀ w ∈ (t.pipe setup r).writers, w = r) ∧
      s.copied r ++ (t.pipe setup r).content = (setup.response r).take (t.count r) ∧
      (t.met r = true → (t.respond r).present = true))
    (reading : s.pier r = .reading → t.met r = true)
    (closed : t.respond r = .closed → t.count r = (setup.response r).length) : Sound setup t r where
  early := by
    rw [pier, copied]
    intro before
    exact ⟨(sound.early before).1, (early before).1, (early before).2.1⟩
  unwritten := by
    rw [pier]
    exact fun before => (early before).2.2
  own := by
    rw [pier]
    exact fun here => (waits here).1
  balance := by
    rw [pier, copied]
    exact fun here => (waits here).2.1
  met := by
    rw [pier]
    exact fun here => (waits here).2.2
  reading := by rwa [pier]
  closed := closed
  whole := by
    rw [pier, copied]
    exact sound.whole
  front := by
    rw [copied]
    exact sound.front

/-- No other response has the FIFO of a run that waits. -/
theorem Sound.alone {j r : ι} (placed : Placed setup s) (sound : Sound setup s j) (elsewhere : j ≠ r)
    (holds : (s.respond r).holds = true) (waits : (s.pier j).waits = true) : setup.path j ≠ setup.path r := by
  intro same
  have member : r ∈ (s.pipe setup j).writers := (placed.writers _ r).mpr ⟨same.symm, holds⟩
  exact elsewhere (sound.own waits r member).symm

section Step

variable [DecidableEq ι] [DecidableEq δ]

/-- A `Pier` opens a FIFO that holds nothing of another response, and no other response opens it while the
`Pier` waits there. -/
def MeetsOwn (setup : Setup ι δ) (s : Exchange ι δ) : Move ι → Prop
  | .openRead i => (s.pipe setup i).content = [] ∧ ∀ r ∈ (s.pipe setup i).writers, r = i
  | .openWrite r => ∀ i ∈ (s.pipe setup r).readers, (s.pier i).waits = true → i = r
  | _ => True

instance (setup : Setup ι δ) (s : Exchange ι δ) : ∀ a : Move ι, Decidable (MeetsOwn setup s a)
  | .openRead _ => inferInstanceAs (Decidable (_ = _ ∧ ∀ _ ∈ _, _))
  | .openWrite _ => inferInstanceAs (Decidable (∀ _ ∈ _, _))
  | .start _ | .lock _ | .refuse _ _ | .ask _ | .opened _ | .take _ _ | .eof _ | .closeRead _ | .unlock _
  | .unlink _ | .kill _ | .noPath _ | .writable _ | .put _ _ | .broken _ | .closeWrite _ => isTrue trivial

/-- The exit of another run changes nothing here. -/
theorem Sound.exits {i j : ι} {point : WaitPoint} (sound : Sound setup s j) (elsewhere : j ≠ i) :
    Sound setup (s.exit setup i point) j := by
  apply sound.frame <;> simp [exit, setPier, pipe, elsewhere]

/-- Another run that removes its path takes no FIFO from a run that waits. -/
theorem Sound.unlinks {i j : ι} (placed : Placed setup s) (sound : Sound setup s j) (elsewhere : j ≠ i)
    (live : (s.pier i).alive = true) : Sound setup (s.unlinkPath setup i) j := by
  by_cases member : j ∈ (s.pipe setup i).writers
  · apply Sound.rests sound
    · rw [← Bool.not_eq_true]
      exact fun early => placed.absent live elsewhere early member
    · rw [← Bool.not_eq_true]
      exact fun waits => placed.apart live elsewhere waits ((placed.writers _ j).mp member).1
    · rfl
    · simp [unlinkPath, member]
    · exact sound.whole
  · apply Sound.frame sound
    · rfl
    · simp [unlinkPath, member]
    · rfl
    · rfl
    · exact fun _ => rfl
    · exact fun _ => rfl
    · intro waits
      simp [unlinkPath, setPipe, pipe, placed.apart live elsewhere waits]

/-- A step keeps the other runs sound. -/
theorem sound_elsewhere {j : ι} (placed : Placed setup s) (sound : Sound setup s j) (own : MeetsOwn setup s a)
    (elsewhere : j ≠ a.run) (next : step setup s a = some t) : Sound setup t j := by
  obtain ⟨enabled, rfl⟩ := (step_eq_some setup).mp next
  cases a with
  | refuse i removed =>
      have live := (WaitPoint.live_of_refuse enabled).1
      cases removed with
      | false => exact sound.exits elsewhere
      | true => exact (sound.unlinks placed elsewhere live).exits elsewhere
  | unlink i =>
      have here : s.pier i = .unlocked := enabled
      have live : (s.pier i).alive = true := by rw [here]; rfl
      exact (sound.unlinks placed elsewhere live).exits elsewhere
  | start i => apply Sound.frame sound <;> simp_all [effect, setPier, pipe, Move.run]
  | lock i | ask i | openRead i | opened i | take i n | eof i | closeRead i | unlock i | kill i =>
      simp only [Enabled] at enabled
      simp only [Move.run] at elsewhere
      have live : (s.pier i).alive = true := by grind [WaitPoint.alive]
      have apart := placed.apart live elsewhere
      have absent : (s.pier j).early = true → j ∉ (s.fifo (setup.path i)).writers :=
        placed.absent live elsewhere
      apply Sound.frame sound <;>
        simp +contextual [effect, setPier, setRespond, setPipe, pipe, exit, elsewhere, apart, absent]
  | openWrite r =>
      have apart : (s.pier j).waits = true → setup.path j ≠ setup.path r := by
        intro waits same
        have member : j ∈ (s.pipe setup r).readers := by
          rw [pipe, ← same]
          exact placed.reader waits
        exact elsewhere (own j member waits)
      have outside : (s.pier j).waits = true → j ∉ (s.fifo (setup.path r)).readers :=
        fun waits member => apart waits ((placed.readers _ j).mp member).1
      simp only [Move.run] at elsewhere
      apply Sound.frame sound <;>
        simp +contextual [effect, setRespond, setPipe, pipe, elsewhere, apart, outside]
  | noPath r | writable r =>
      simp only [Move.run] at elsewhere
      apply Sound.frame sound <;> simp [effect, setRespond, pipe, elsewhere]
  | put r n | broken r | closeWrite r =>
      simp only [Move.run] at elsewhere
      have apart := sound.alone placed elsewhere (by rw [enabled.1]; rfl)
      apply Sound.frame sound <;> simp +contextual [effect, setRespond, setPipe, pipe, elsewhere, apart]

/-- The run opens an empty FIFO that no other response has. -/
theorem Sound.openRead {i : ι} (sound : Sound setup s i) (here : s.pier i = .asked)
    (own : MeetsOwn setup s (.openRead i)) (placed : Placed setup s) :
    Sound setup (effect setup s (.openRead i)) i := by
  have before : (s.pier i).early = true := by rw [here]; rfl
  obtain ⟨copied, count, -⟩ := sound.early before
  have empty : (s.fifo (setup.path i)).content = [] := own.1
  apply Sound.of_waits
  · simp [effect, setPier, setPipe, WaitPoint.waits]
  · simpa [effect, setPier, setPipe, pipe, Fifo.openRead] using own.2
  · simp [effect, setPier, setPipe, pipe, Fifo.openRead, empty, copied, count]
  · intro met
    have written : (s.pipe setup i).writers ≠ ∅ := by simpa [effect] using met
    obtain ⟨r, member⟩ := Finset.nonempty_iff_ne_empty.mpr written
    have mine := own.2 r member
    subst mine
    exact RespondPoint.present_of_holds ((placed.writers _ r).mp member).2
  · simp [effect, setPier, setPipe]
  · exact sound.closed

theorem Sound.opened {i : ι} (sound : Sound setup s i) (here : s.pier i = .opening) (met : s.met i = true) :
    Sound setup (effect setup s (.opened i)) i := by
  have waits : (s.pier i).waits = true := by rw [here]; rfl
  apply Sound.of_waits
  · simp [effect, setPier, WaitPoint.waits]
  · exact sound.own waits
  · exact sound.balance waits
  · exact sound.met waits
  · exact fun _ => met
  · exact sound.closed

/-- A read moves bytes from the FIFO to the browser. -/
theorem Sound.take {i : ι} {n : Nat} (sound : Sound setup s i) (here : s.pier i = .reading) :
    Sound setup (effect setup s (.take i n)) i := by
  have waits : (s.pier i).waits = true := by rw [here]; rfl
  apply Sound.of_waits
  · exact waits
  · simpa [effect, setPipe, pipe, Fifo.pull] using sound.own waits
  · have balance := sound.balance waits
    simp only [pipe] at balance
    simp [effect, setPipe, pipe, Fifo.pull, balance]
  · exact sound.met waits
  · exact sound.reading
  · exact sound.closed

/-- At the end of the FIFO the own response is closed, and all of it has been read. -/
theorem Sound.eof {i : ι} (sound : Sound setup s i) (placed : Placed setup s) (here : s.pier i = .reading)
    (empty : (s.pipe setup i).content = []) (alone : (s.pipe setup i).writers = ∅) :
    Sound setup (effect setup s (.eof i)) i := by
  have waits : (s.pier i).waits = true := by rw [here]; rfl
  have present := sound.met waits (sound.reading here)
  have gone : ¬ (s.respond i).holds = true := by
    intro holds
    have member : i ∈ (s.pipe setup i).writers := (placed.writers _ i).mpr ⟨rfl, holds⟩
    simp [alone] at member
  have closed := RespondPoint.closed_of_present present gone
  have whole : s.copied i = setup.response i := by
    have balance := sound.balance waits
    rw [empty, sound.closed closed] at balance
    simpa using balance
  apply Sound.rests sound
  · simp [effect, setPier, WaitPoint.early, WaitPoint.unasked]
  · simp [effect, setPier, WaitPoint.waits]
  · rfl
  · exact sound.closed
  · exact fun _ => whole

theorem Sound.openWrite {r : ι} (sound : Sound setup s r) (placed : Placed setup s)
    (here : s.respond r = .pending) : Sound setup (effect setup s (.openWrite r)) r := by
  apply Sound.responds sound
  · rfl
  · rfl
  · intro early
    have unread := placed.unread early (by simp [here])
    rw [pipe] at unread
    simp [effect, setRespond, setPipe, pipe, unread, (sound.early early).2.1]
  · intro waits
    have own := sound.own waits
    have balance := sound.balance waits
    rw [pipe] at own balance
    have present : RespondPoint.opening.present = true := rfl
    simpa [effect, setRespond, setPipe, pipe, Fifo.openWrite, balance, present] using own
  · intro reading
    have waits : (s.pier r).waits = true := by rw [reading]; rfl
    simp [effect, setRespond, setPipe, pipe, placed.reader waits]
  · simp [effect, setRespond, setPipe]

theorem Sound.noPath {r : ι} (sound : Sound setup s r) (here : s.respond r = .pending) :
    Sound setup (effect setup s (.noPath r)) r := by
  apply Sound.responds sound
  · rfl
  · rfl
  · intro early
    simp [effect, setRespond, sound.early early]
  · intro waits
    have met := sound.met waits
    rw [here] at met
    exact ⟨sound.own waits, sound.balance waits, fun reached => absurd (met reached) Bool.false_ne_true⟩
  · exact sound.reading
  · simp [effect, setRespond]

theorem Sound.writable {r : ι} (sound : Sound setup s r) (found : s.found r = true) :
    Sound setup (effect setup s (.writable r)) r := by
  apply Sound.responds sound
  · rfl
  · rfl
  · intro early
    simp [(sound.early early).2.2] at found
  · intro waits
    refine ⟨sound.own waits, sound.balance waits, fun _ => ?_⟩
    simp [effect, setRespond, RespondPoint.present, RespondPoint.holds]
  · exact sound.reading
  · simp [effect, setRespond]

/-- A write moves the next bytes of the own response into the FIFO. -/
theorem Sound.put {r : ι} {n : Nat} (sound : Sound setup s r) (here : s.respond r = .writing) :
    Sound setup (effect setup s (.put r n)) r := by
  apply Sound.responds sound
  · rfl
  · rfl
  · exact fun early => absurd here (sound.unwritten early).1
  · intro waits
    have balance := sound.balance waits
    rw [pipe] at balance
    refine ⟨?_, ?_, sound.met waits⟩
    · simpa [effect, setPipe, pipe, Fifo.push] using sound.own waits
    · simp [effect, setPipe, pipe, Fifo.push, ← List.append_assoc, balance, List.take_add]
  · exact sound.reading
  · simp [effect, setPipe, here]

theorem Sound.broken {r : ι} (sound : Sound setup s r) (placed : Placed setup s) (here : s.respond r = .writing)
    (unread : (s.pipe setup r).readers = ∅) : Sound setup (effect setup s (.broken r)) r := by
  have outside : (s.pier r).waits = true → False := by
    intro waits
    have member : r ∈ (s.pipe setup r).readers := placed.reader waits
    simp [unread] at member
  apply Sound.responds sound
  · rfl
  · rfl
  · exact fun early => absurd here (sound.unwritten early).1
  · exact fun waits => (outside waits).elim
  · exact sound.reading
  · simp [effect, setRespond, setPipe]

/-- A response closes behind its last byte, and its run keeps the FIFO. -/
theorem Sound.closeWrite {r : ι} (sound : Sound setup s r) (placed : Placed setup s)
    (here : s.respond r = .writing) (all : s.count r = (setup.response r).length) :
    Sound setup (effect setup s (.closeWrite r)) r := by
  apply Sound.responds sound
  · rfl
  · rfl
  · exact fun early => absurd here (sound.unwritten early).1
  · intro waits
    have member := placed.reader waits
    have held : ¬ ((s.fifo (setup.path r)).dropWrite r).Unheld := by
      intro unheld
      have unread : (s.fifo (setup.path r)).readers = ∅ := unheld.1
      simp [unread] at member
    have own := sound.own waits
    have balance := sound.balance waits
    rw [pipe] at own balance
    refine ⟨?_, ?_, ?_⟩
    · simp only [effect, setRespond, setPipe, pipe, Function.update_self, Fifo.closeWrite_writers]
      exact fun w left => own w (Finset.mem_of_mem_erase left)
    · simpa [effect, setRespond, setPipe, pipe, Fifo.closeWrite_content, held] using balance
    · simp [effect, setRespond, setPipe, RespondPoint.present]
  · exact sound.reading
  · exact fun _ => all

theorem unlinkPath_closed {i r : ι} (closed : (s.unlinkPath setup i).respond r = .closed) :
    s.respond r = .closed := by
  simp only [unlinkPath] at closed
  split at closed
  · contradiction
  · exact closed

/-- A step keeps the run that takes it sound. -/
theorem sound_here (placed : Placed setup s) (sound : Sound setup s a.run) (own : MeetsOwn setup s a)
    (next : step setup s a = some t) : Sound setup t a.run := by
  obtain ⟨enabled, rfl⟩ := (step_eq_some setup).mp next
  cases a with
  | start i =>
      have before : (s.pier i).early = true := by rw [enabled.1]; rfl
      have after : ((s.setPier i .made).pier i).early = true := by rw [setPier_pier]; rfl
      exact Sound.advances sound before after (sound.unwritten before) rfl rfl rfl
  | lock i =>
      have before : (s.pier i).early = true := by rw [enabled.1]; rfl
      have after : ((s.setPier i .locked).pier i).early = true := by rw [setPier_pier]; rfl
      exact Sound.advances sound before after (sound.unwritten before) rfl rfl rfl
  | ask i =>
      have here : s.pier i = .locked := enabled
      have before : (s.pier i).early = true := by rw [here]; rfl
      have after : ((s.setPier i .asked).pier i).early = true := by rw [setPier_pier]; rfl
      exact Sound.advances sound before after (by simp [effect, setRespond, Move.run]) rfl rfl rfl
  | openRead i => exact Sound.openRead sound enabled own placed
  | opened i => exact Sound.opened sound enabled.1 enabled.2
  | take i n => exact Sound.take sound enabled.1
  | eof i => exact Sound.eof sound placed enabled.1 enabled.2.1 enabled.2.2
  | closeRead i =>
      have here : s.pier i = .closing := enabled
      have answered : (s.pier i).answered = true := by rw [here]; rfl
      exact Sound.leaves sound (setPier_pier s i _) rfl rfl rfl rfl id fun _ => answered
  | unlock i =>
      have here : s.pier i = .closed := enabled
      have answered : (s.pier i).answered = true := by rw [here]; rfl
      exact Sound.leaves sound (setPier_pier s i _) rfl rfl rfl rfl id fun _ => answered
  | refuse i removed =>
      cases removed with
      | false =>
          exact Sound.leaves sound (setPier_pier s i _) rfl rfl rfl rfl id (by simp [WaitPoint.answered])
      | true =>
          exact Sound.leaves sound (setPier_pier s i _) rfl rfl rfl rfl unlinkPath_closed
            (by simp [WaitPoint.answered])
  | unlink i =>
      have here : s.pier i = .unlocked := enabled
      have answered : (s.pier i).answered = true := by rw [here]; rfl
      exact Sound.leaves sound (setPier_pier s i _) rfl rfl rfl rfl unlinkPath_closed fun _ => answered
  | kill i =>
      exact Sound.leaves sound (setPier_pier s i _) rfl rfl rfl rfl id (by simp [WaitPoint.answered])
  | openWrite r => exact Sound.openWrite sound placed enabled.1
  | noPath r => exact Sound.noPath sound enabled.1
  | writable r => exact Sound.writable sound enabled.2
  | put r n => exact Sound.put sound enabled.1
  | broken r => exact Sound.broken sound placed enabled.1 enabled.2
  | closeWrite r => exact Sound.closeWrite sound placed enabled.1 enabled.2

/-- A step that meets its own response keeps every run sound. -/
theorem sound_step (placed : Placed setup s) (sound : ∀ i, Sound setup s i) (own : MeetsOwn setup s a)
    (next : step setup s a = some t) (i : ι) : Sound setup t i := by
  by_cases here : i = a.run
  · subst here
    exact sound_here placed (sound _) own next
  · exact sound_elsewhere placed (sound i) own here next

/-- When every `Pier` opens a FIFO that holds nothing of another response, and no other response opens it while
the `Pier` waits there, each `Pier` copies its own response, and all of it before it closes the FIFO. -/
theorem responses_reach_their_requests (setup : Setup ι δ) (moves : List (Move ι)) (s : Exchange ι δ)
    (reached : run (step setup) initial moves = some s)
    (own : Along (step setup) (MeetsOwn setup) initial moves) (i : ι) :
    s.copied i <+: setup.response i ∧ ((s.pier i).answered = true → s.copied i = setup.response i) := by
  have kept : ∀ (s : Exchange ι δ) a t, Placed setup s ∧ (∀ i, Sound setup s i) → MeetsOwn setup s a →
      step setup s a = some t → Placed setup t ∧ ∀ i, Sound setup t i :=
    fun s a t good own next => ⟨placed_step good.1 next, sound_step good.1 good.2 own next⟩
  have sound := (invariant_along kept ⟨placed_initial, sound_initial⟩ own reached).2 i
  exact ⟨sound.front, sound.whole⟩

end Step

def sampleSetup : Setup Bool Unit where
  device := fun _ => ()
  pid := fun _ => 7
  response := fun i => if i then text "a" else text "b"

/-- The second run gets the pid of the first one after the first one has ended. -/
def ownRun : List (Move Bool) :=
  [.start true, .lock true, .ask true, .openWrite true, .openRead true, .opened true, .writable true, .put true 1,
    .take true 1, .closeWrite true, .eof true, .closeRead true, .unlock true, .unlink true, .start false,
    .lock false, .ask false, .openRead false, .openWrite false, .opened false, .writable false, .put false 1,
    .closeWrite false, .take false 1, .eof false]

def ownState : Exchange Bool Unit := (run (step sampleSetup) initial ownRun).get (by decide +kernel)

theorem responses_reach_their_requests_reused : ownState.copied false <+: sampleSetup.response false ∧
    ((ownState.pier false).answered = true → ownState.copied false = sampleSetup.response false) :=
  responses_reach_their_requests sampleSetup ownRun ownState (Option.some_get _).symm (by decide +kernel) false

/-- The first run is killed while it waits, and the second one gets its pid. -/
def staleRun : List (Move Bool) :=
  [.start true, .lock true, .ask true, .kill true, .openWrite true, .start false, .lock false, .ask false,
    .openRead false, .opened false, .writable true, .put true 1, .closeWrite true, .take false 1, .eof false]

def staleState : Exchange Bool Unit := (run (step sampleSetup) initial staleRun).get (by decide +kernel)

/-- A `Pier` can copy the response to another request. -/
theorem response_reaches_another_request : ∃ (moves : List (Move Bool)) (s : Exchange Bool Unit) (i j : Bool),
    run (step sampleSetup) initial moves = some s ∧ (s.pier i).answered = true ∧ j ≠ i ∧
      s.copied i = sampleSetup.response j ∧ s.copied i ≠ sampleSetup.response i :=
  ⟨staleRun, staleState, false, true, (Option.some_get _).symm, by decide +kernel, by decide +kernel,
    by decide +kernel, by decide +kernel⟩

end Piercloud.Cgi.Exchange
