import Piercloud.Proof.Answer.Correlation

/-
This file shows that no response is lost or mixed up while no `Pier` is killed.
-/

namespace Piercloud.Cgi

open CLib Runs

/-- The request has been written, and the end of its response has not been read. -/
def WaitPoint.expects : WaitPoint → Bool
  | .asked => true
  | point => point.waits

/-- The process holds the lock of its device. -/
def WaitPoint.locks : WaitPoint → Bool
  | .locked => true
  | .closed => true
  | .closing => true
  | point => point.expects

/-- The response is on its way. -/
def RespondPoint.active : RespondPoint → Bool
  | .pending => true
  | point => point.holds

/-- The move starts a response, or makes it possible. -/
def Move.begins {ι : Type*} : Move ι → Option ι
  | .ask i => some i
  | .openWrite r => some r
  | .noPath r => some r
  | _ => none

namespace WaitPoint

variable {point : WaitPoint}

theorem alive_of_expects (expects : point.expects = true) : point.alive = true := by
  cases point <;> first | rfl | contradiction

theorem expects_of_waits (waits : point.waits = true) : point.expects = true := by
  cases point <;> first | rfl | contradiction

theorem waits_of_expects (expects : point.expects = true) (late : ¬ point.early = true) : point.waits = true := by
  cases point <;> first | rfl | contradiction

end WaitPoint

theorem RespondPoint.active_of_holds {point : RespondPoint} (holds : point.holds = true) : point.active = true := by
  cases point <;> first | rfl | contradiction

namespace Exchange

variable {ι δ : Type*} {setup : Setup ι δ} {s t : Exchange ι δ} {a : Move ι}

/-- The move kills no `Pier`. -/
def Spares (_ : Exchange ι δ) : Move ι → Prop
  | .kill _ => False
  | _ => True

instance (s : Exchange ι δ) : ∀ a : Move ι, Decidable (Spares s a)
  | .kill _ => isFalse id
  | .start _ | .lock _ | .refuse _ _ | .ask _ | .openRead _ | .opened _ | .take _ _ | .eof _ | .closeRead _
  | .unlock _ | .unlink _ | .openWrite _ | .noPath _ | .writable _ | .put _ _ | .broken _
  | .closeWrite _ => isTrue trivial

/-- A response is on its way exactly while its run expects it, and both ends of the FIFO find each other. -/
structure Answering (setup : Setup ι δ) (s : Exchange ι δ) (i : ι) : Prop where
  file : (s.pier i).alive = true → s.file (setup.path i) = true
  active : (s.respond i).active = true → (s.pier i).expects = true
  begun : (s.pier i).expects = true → s.respond i ≠ .idle
  meets : (s.pier i).waits = true → (s.respond i).present = true → s.met i = true
  finds : (s.pier i).waits = true → s.respond i = .opening → s.found i = true
  told : (s.pier i).answered = true → s.respond i = .closed
  never : s.respond i ≠ .failed ∧ s.respond i ≠ .stuck

/-- Bytes stand only in a FIFO at which a run waits. -/
def Clean (setup : Setup ι δ) (s : Exchange ι δ) : Prop :=
  ∀ k, (s.fifo k).content ≠ [] → ∃ i, setup.path i = k ∧ (s.pier i).waits = true

/-- The lock of a device belongs to a live run of it. -/
def Owned (setup : Setup ι δ) (s : Exchange ι δ) : Prop :=
  ∀ d i, s.owner d = some i → setup.device i = d ∧ (s.pier i).locks = true

/-- No response has written more than its bytes. -/
def Within (setup : Setup ι δ) (s : Exchange ι δ) : Prop := ∀ r, s.count r ≤ (setup.response r).length

theorem answering_initial (i : ι) : Answering setup (initial : Exchange ι δ) i := by
  constructor <;> simp [initial, WaitPoint.alive, WaitPoint.expects, WaitPoint.waits, WaitPoint.answered,
    RespondPoint.active, RespondPoint.holds]

theorem clean_initial : Clean setup (initial : Exchange ι δ) := by
  simp [Clean, initial, Fifo.empty]

theorem owned_initial : Owned setup (initial : Exchange ι δ) := by
  simp [Owned, initial]

theorem within_initial : Within setup (initial : Exchange ι δ) := fun _ => Nat.zero_le _

/-- A response that is on its way has a path of its own. -/
theorem Answering.own {r : ι} (answering : Answering setup s r) (placed : Placed setup s) {i : ι}
    (active : (s.respond r).active = true) (live : (s.pier i).alive = true) (path : setup.path r = setup.path i) :
    r = i :=
  placed.same (WaitPoint.alive_of_expects (answering.active active)) live path

/-- A response that writes has its reader. -/
theorem Answering.waits {r : ι} (answering : Answering setup s r) (sound : Sound setup s r)
    (here : s.respond r = .writing) : (s.pier r).waits = true := by
  apply WaitPoint.waits_of_expects
  · exact answering.active (by rw [here]; rfl)
  · exact fun early => (sound.unwritten early).1 here

/-- A step elsewhere keeps the two ends of a run together. -/
theorem Answering.frame {i : ι} (answering : Answering setup s i) (pier : t.pier i = s.pier i)
    (respond : t.respond i = s.respond i)
    (file : (s.pier i).alive = true → s.file (setup.path i) = true → t.file (setup.path i) = true)
    (met : s.met i = true → t.met i = true) (found : s.found i = true → t.found i = true) :
    Answering setup t i := by
  constructor
  · rw [pier]
    exact fun live => file live (answering.file live)
  · rw [pier, respond]
    exact answering.active
  · rw [pier, respond]
    exact answering.begun
  · rw [pier, respond]
    exact fun waits present => met (answering.meets waits present)
  · rw [pier, respond]
    exact fun waits here => found (answering.finds waits here)
  · rw [pier, respond]
    exact answering.told
  · rw [respond]
    exact answering.never

section Step

variable [DecidableEq ι] [DecidableEq δ]

omit [DecidableEq ι] [DecidableEq δ] in
/-- While no run is killed, every run meets its own response. -/
theorem meets_own (placed : Placed setup s) (answering : ∀ i, Answering setup s i) (clean : Clean setup s)
    (enabled : Enabled setup s a) : MeetsOwn setup s a := by
  cases a with
  | openRead i =>
      have here : s.pier i = .asked := enabled
      have live : (s.pier i).alive = true := by rw [here]; rfl
      constructor
      · by_contra some
        obtain ⟨j, path, waits⟩ := clean _ some
        obtain rfl := placed.same (WaitPoint.alive_of_holds (WaitPoint.holds_of_waits waits)) live path
        rw [here] at waits
        contradiction
      · intro r member
        obtain ⟨path, holds⟩ := (placed.writers _ r).mp member
        exact (answering r).own placed (RespondPoint.active_of_holds holds) live path
  | openWrite r =>
      intro i member waits
      have path := ((placed.readers _ i).mp member).1
      have live := WaitPoint.alive_of_holds (WaitPoint.holds_of_waits waits)
      exact ((answering r).own placed (by rw [enabled.1]; rfl) live path.symm).symm
  | start _ | lock _ | refuse _ _ | ask _ | opened _ | take _ _ | eof _ | closeRead _ | unlock _ | unlink _ | kill _
  | noPath _ | writable _ | put _ _ | broken _ | closeWrite _ => trivial

/-- A response that is on its way has no descriptor at the path of a run that expects none. -/
theorem unlinkPath_respond (placed : Placed setup s) {i j : ι} (answering : Answering setup s j)
    (live : (s.pier i).alive = true) (quiet : (s.pier i).expects = false) :
    (s.unlinkPath setup i).respond j = s.respond j := by
  apply if_neg
  intro member
  obtain ⟨path, holds⟩ := (placed.writers _ j).mp member
  have active := RespondPoint.active_of_holds holds
  have expects := answering.active active
  rw [answering.own placed active live path, quiet] at expects
  contradiction

/-- The removal of another path leaves a run alone. -/
theorem Answering.unlinks {i j : ι} (answering : Answering setup s j) (placed : Placed setup s)
    (live : (s.pier i).alive = true) (quiet : (s.pier i).expects = false) (elsewhere : j ≠ i) :
    Answering setup (s.unlinkPath setup i) j := by
  apply answering.frame
  · rfl
  · exact unlinkPath_respond placed answering live quiet
  · intro alive file
    have apart : setup.path j ≠ setup.path i := fun path => elsewhere (placed.same alive live path)
    simpa [unlinkPath, apart] using file
  · exact id
  · exact id

theorem Answering.exits {i j : ι} {point : WaitPoint} (answering : Answering setup s j) (elsewhere : j ≠ i) :
    Answering setup (s.exit setup i point) j := by
  apply answering.frame <;> simp [exit, setPier, elsewhere]

/-- A step of one run keeps the two ends of the other ones together. -/
theorem answering_elsewhere {j : ι} (placed : Placed setup s) (answering : Answering setup s j)
    (spares : Spares s a) (elsewhere : j ≠ a.run) (next : step setup s a = some t) : Answering setup t j := by
  obtain ⟨enabled, rfl⟩ := (step_eq_some setup).mp next
  cases a with
  | kill i => exact spares.elim
  | refuse i removed =>
      have live := (WaitPoint.live_of_refuse enabled).1
      have quiet : (s.pier i).expects = false := by
        rcases enabled with here | here <;> rw [here] <;> rfl
      cases removed with
      | false => exact answering.exits elsewhere
      | true => exact (answering.unlinks placed live quiet elsewhere).exits elsewhere
  | unlink i =>
      have here : s.pier i = .unlocked := enabled
      have live : (s.pier i).alive = true := by rw [here]; rfl
      have quiet : (s.pier i).expects = false := by rw [here]; rfl
      exact (answering.unlinks placed live quiet elsewhere).exits elsewhere
  | start i | lock i | ask i | openRead i | opened i | take i n | eof i | closeRead i | unlock i | openWrite r
  | noPath r | writable r | put r n | broken r | closeWrite r =>
      simp only [Move.run] at elsewhere
      apply answering.frame <;>
        simp +contextual [effect, setPier, setRespond, setPipe, elsewhere, Function.update_apply]

omit [DecidableEq ι] [DecidableEq δ] in
/-- A run that expects no response has none on its way. -/
theorem Answering.quiet {i : ι} (answering : Answering setup s i) (quiet : (s.pier i).expects = false) :
    (s.respond i).active = false := by
  by_contra active
  rw [answering.active (by simpa using active)] at quiet
  contradiction

omit [DecidableEq ι] [DecidableEq δ] in
/-- A run rests before it asks, and behind the end of its response. -/
theorem Answering.rests {i : ι} (file : (t.pier i).alive = true → t.file (setup.path i) = true)
    (quiet : (t.pier i).expects = false) (inactive : (t.respond i).active = false)
    (told : (t.pier i).answered = true → t.respond i = .closed)
    (never : t.respond i ≠ .failed ∧ t.respond i ≠ .stuck) : Answering setup t i where
  file := file
  active := by simp [inactive]
  begun := by simp [quiet]
  meets := fun waits => by simp [WaitPoint.expects_of_waits waits] at quiet
  finds := fun waits => by simp [WaitPoint.expects_of_waits waits] at quiet
  told := told
  never := never

omit [DecidableEq ι] [DecidableEq δ] in
/-- The response to a run that expects one has begun and moves on. -/
theorem Answering.expecting {i : ι} (file : t.file (setup.path i) = true) (expects : (t.pier i).expects = true)
    (begun : t.respond i ≠ .idle)
    (meets : (t.pier i).waits = true → (t.respond i).present = true → t.met i = true)
    (finds : (t.pier i).waits = true → t.respond i = .opening → t.found i = true)
    (never : t.respond i ≠ .failed ∧ t.respond i ≠ .stuck) : Answering setup t i where
  file := fun _ => file
  active := fun _ => expects
  begun := fun _ => begun
  meets := meets
  finds := finds
  told := by
    intro answered
    generalize t.pier i = point at answered expects
    cases point <;> contradiction
  never := never

omit [DecidableEq ι] [DecidableEq δ] in
/-- At the end of the FIFO the response has closed it. -/
theorem Answering.ended {i : ι} (sound : Sound setup s i) (placed : Placed setup s) (here : s.pier i = .reading)
    (alone : (s.pipe setup i).writers = ∅) : s.respond i = .closed := by
  have present := sound.met (by rw [here]; rfl) (sound.reading here)
  apply RespondPoint.closed_of_present present
  intro holds
  have member : i ∈ (s.pipe setup i).writers := (placed.writers _ i).mpr ⟨rfl, holds⟩
  simp [alone] at member

omit [DecidableEq ι] [DecidableEq δ] in
/-- A run that expects no response moves on without one. -/
theorem Answering.leaves {i : ι} {point : WaitPoint} (answering : Answering setup s i)
    (quiet : (s.pier i).expects = false) (pier : t.pier i = point) (respond : t.respond i = s.respond i)
    (file : point.alive = true → t.file (setup.path i) = true) (outside : point.expects = false)
    (answered : point.answered = true → (s.pier i).answered = true) : Answering setup t i := by
  apply Answering.rests
  · rw [pier]
    exact file
  · rw [pier]
    exact outside
  · rw [respond]
    exact answering.quiet quiet
  · rw [pier, respond]
    exact fun now => answering.told (answered now)
  · rw [respond]
    exact answering.never

/-- A step of a run keeps its two ends together. -/
theorem answering_here (placed : Placed setup s) (sound : Sound setup s a.run)
    (answering : Answering setup s a.run) (spares : Spares s a) (next : step setup s a = some t) :
    Answering setup t a.run := by
  obtain ⟨enabled, rfl⟩ := (step_eq_some setup).mp next
  cases a with
  | kill i => exact spares.elim
  | start i =>
      have idle : s.respond i = .idle := placed.unasked i (by rw [enabled.1]; rfl)
      apply Answering.rests <;> simp [effect, setPier, Move.run, idle, WaitPoint.expects, WaitPoint.waits,
        RespondPoint.active, RespondPoint.holds, WaitPoint.answered]
  | lock i =>
      have here : s.pier i = .made := enabled.1
      have idle : s.respond i = .idle := placed.unasked i (by rw [here]; rfl)
      have file : s.file (setup.path i) = true := answering.file (by simp only [Move.run, here]; rfl)
      apply Answering.rests <;> simp [effect, setPier, Move.run, idle, WaitPoint.expects, WaitPoint.waits,
        RespondPoint.active, RespondPoint.holds, WaitPoint.answered, file]
  | refuse i removed =>
      have live := (WaitPoint.live_of_refuse enabled).1
      have quiet : (s.pier i).expects = false := by
        rcases enabled with here | here <;> rw [here] <;> rfl
      have same : (effect setup s (.refuse i removed)).respond i = s.respond i := by
        cases removed with
        | false => rfl
        | true => exact unlinkPath_respond placed answering live quiet
      exact answering.leaves quiet (setPier_pier _ i _) same (by simp [WaitPoint.alive]) rfl
        (by simp [WaitPoint.answered])
  | ask i =>
      have here : s.pier i = .locked := enabled
      have file : s.file (setup.path i) = true := answering.file (by simp only [Move.run, here]; rfl)
      apply Answering.expecting <;>
        simp [effect, setPier, setRespond, Move.run, WaitPoint.expects, WaitPoint.waits, file]
  | openRead i =>
      have here : s.pier i = .asked := enabled
      have file : s.file (setup.path i) = true := answering.file (by simp only [Move.run, here]; rfl)
      have begun : s.respond i ≠ .idle := answering.begun (by simp only [Move.run, here]; rfl)
      have member : (s.respond i).holds = true → i ∈ (s.pipe setup i).writers :=
        fun holds => (placed.writers _ i).mpr ⟨rfl, holds⟩
      apply Answering.expecting
      · exact file
      · simp [effect, setPier, setPipe, Move.run, WaitPoint.expects, WaitPoint.waits]
      · exact begun
      · intro _ present
        obtain ⟨unwritten, unclosed⟩ := sound.unwritten (by simp only [Move.run, here]; rfl)
        have holds : (s.respond i).holds = true := by
          by_contra gone
          exact unclosed (RespondPoint.closed_of_present present gone)
        simpa [effect, Move.run] using Finset.ne_empty_of_mem (member holds)
      · intro _ opening
        have opens : s.respond i = .opening := opening
        simp [effect, Move.run, member (by rw [opens]; rfl)]
      · exact answering.never
  | opened i =>
      have waits : (s.pier i).waits = true := by rw [enabled.1]; rfl
      have expects := WaitPoint.expects_of_waits waits
      apply Answering.expecting
      · exact answering.file (WaitPoint.alive_of_expects expects)
      · simp [effect, setPier, Move.run, WaitPoint.expects, WaitPoint.waits]
      · exact answering.begun expects
      · exact fun _ => answering.meets waits
      · exact fun _ => answering.finds waits
      · exact answering.never
  | take i n => exact answering.frame rfl rfl (fun _ => id) id id
  | eof i =>
      have closed : s.respond i = .closed := Answering.ended sound placed enabled.1 enabled.2.2
      have file : s.file (setup.path i) = true := answering.file (by simp only [Move.run, enabled.1]; rfl)
      apply Answering.rests <;> simp [effect, setPier, Move.run, closed, WaitPoint.expects, WaitPoint.waits,
        RespondPoint.active, RespondPoint.holds, file]
  | closeRead i =>
      have here : s.pier i = .closing := enabled
      have live : (s.pier i).alive = true := by rw [here]; rfl
      have quiet : (s.pier i).expects = false := by rw [here]; rfl
      have answered : (s.pier i).answered = true := by rw [here]; rfl
      exact answering.leaves quiet (setPier_pier s i _) rfl (fun _ => answering.file live) rfl fun _ => answered
  | unlock i =>
      have here : s.pier i = .closed := enabled
      have live : (s.pier i).alive = true := by rw [here]; rfl
      have quiet : (s.pier i).expects = false := by rw [here]; rfl
      have answered : (s.pier i).answered = true := by rw [here]; rfl
      exact answering.leaves quiet (setPier_pier s i _) rfl (fun _ => answering.file live) rfl fun _ => answered
  | unlink i =>
      have here : s.pier i = .unlocked := enabled
      have live : (s.pier i).alive = true := by rw [here]; rfl
      have quiet : (s.pier i).expects = false := by rw [here]; rfl
      have answered : (s.pier i).answered = true := by rw [here]; rfl
      exact answering.leaves quiet (setPier_pier _ i _) (unlinkPath_respond placed answering live quiet)
        (by simp [WaitPoint.alive]) rfl fun _ => answered
  | openWrite r =>
      have expects : (s.pier r).expects = true := answering.active (by simp only [Move.run, enabled.1]; rfl)
      apply Answering.expecting
      · exact answering.file (WaitPoint.alive_of_expects expects)
      · exact expects
      · simp [effect, setRespond, setPipe, Move.run]
      · intro waits _
        have member : r ∈ (s.pipe setup r).readers := placed.reader waits
        simp [effect, Move.run, member]
      · intro waits _
        have member : r ∈ (s.pipe setup r).readers := placed.reader waits
        simpa [effect, Move.run] using Finset.ne_empty_of_mem member
      · simp [effect, setRespond, setPipe, Move.run]
  | noPath r =>
      have expects : (s.pier r).expects = true := answering.active (by simp only [Move.run, enabled.1]; rfl)
      have file : s.file (setup.path r) = true := answering.file (WaitPoint.alive_of_expects expects)
      rw [enabled.2] at file
      contradiction
  | writable r =>
      have expects : (s.pier r).expects = true := answering.active (by simp only [Move.run, enabled.1]; rfl)
      have present : (s.respond r).present = true := by rw [enabled.1]; rfl
      apply Answering.expecting
      · exact answering.file (WaitPoint.alive_of_expects expects)
      · exact expects
      · simp [effect, setRespond, Move.run]
      · exact fun waits _ => answering.meets waits present
      · simp [effect, setRespond, Move.run]
      · simp [effect, setRespond, Move.run]
  | put r n => exact answering.frame rfl rfl (fun _ => id) id id
  | broken r =>
      have member : r ∈ (s.pipe setup r).readers := placed.reader (answering.waits sound enabled.1)
      simp [enabled.2] at member
  | closeWrite r =>
      have expects : (s.pier r).expects = true := answering.active (by simp only [Move.run, enabled.1]; rfl)
      have present : (s.respond r).present = true := by rw [enabled.1]; rfl
      apply Answering.expecting
      · exact answering.file (WaitPoint.alive_of_expects expects)
      · exact expects
      · simp [effect, setRespond, setPipe, Move.run]
      · exact fun waits _ => answering.meets waits present
      · simp [effect, setRespond, setPipe, Move.run]
      · simp [effect, setRespond, setPipe, Move.run]

omit [DecidableEq ι] [DecidableEq δ] in
/-- No bytes come, and the runs that wait go on waiting. -/
theorem Clean.frame (clean : Clean setup s) (content : ∀ k, (t.fifo k).content ≠ [] → (s.fifo k).content ≠ [])
    (waits : ∀ i, (s.pier i).waits = true → (t.pier i).waits = true) : Clean setup t := by
  intro k some
  obtain ⟨i, path, here⟩ := clean k (content k some)
  exact ⟨i, path, waits i here⟩

omit [DecidableEq δ] in
/-- The other runs go on waiting. -/
theorem waits_update {i : ι} {point : WaitPoint} (stays : (s.pier i).waits = true → point.waits = true) (j : ι)
    (waits : (s.pier j).waits = true) : (Function.update s.pier i point j).waits = true := by
  by_cases here : j = i
  · subst here
    rw [Function.update_self]
    exact stays waits
  · rwa [Function.update_of_ne here]

omit [DecidableEq ι] in
/-- One FIFO may lose bytes. -/
theorem content_update {i : ι} {f : Fifo ι ι UInt8} (fewer : f.content ≠ [] → (s.pipe setup i).content ≠ [])
    (k : δ × Nat) (some : (Function.update s.fifo (setup.path i) f k).content ≠ []) : (s.fifo k).content ≠ [] := by
  by_cases there : k = setup.path i
  · subst there
    rw [Function.update_self] at some
    exact fewer some
  · rwa [Function.update_of_ne there] at some

/-- A step leaves bytes only where a run waits. -/
theorem clean_step (clean : Clean setup s) (sound : ∀ i, Sound setup s i) (answering : ∀ i, Answering setup s i)
    (spares : Spares s a) (next : step setup s a = some t) : Clean setup t := by
  obtain ⟨enabled, rfl⟩ := (step_eq_some setup).mp next
  have quiet : ∀ {i : ι} {point : WaitPoint}, s.pier i = point → point.waits = false → ∀ {after : WaitPoint},
      (s.pier i).waits = true → after.waits = true := by
    intro i point here outside after waits
    rw [here, outside] at waits
    contradiction
  cases a with
  | kill i => exact spares.elim
  | start i | lock i => exact clean.frame (fun _ => id) (waits_update (quiet enabled.1 rfl))
  | ask i | unlock i => exact clean.frame (fun _ => id) (waits_update (quiet enabled rfl))
  | refuse i removed =>
      have stays : (s.pier i).waits = true → WaitPoint.refused.waits = true := by
        rcases enabled with here | here <;> exact quiet here rfl
      cases removed with
      | false => exact clean.frame (fun _ => id) (waits_update stays)
      | true => exact clean.frame (content_update (by simp [Fifo.empty])) (waits_update stays)
  | unlink i => exact clean.frame (content_update (by simp [Fifo.empty])) (waits_update (quiet enabled rfl))
  | openRead i => exact clean.frame (content_update id) (waits_update (quiet enabled rfl))
  | opened i => exact clean.frame (fun _ => id) (waits_update fun _ => rfl)
  | take i n =>
      refine clean.frame (content_update fun left none => left ?_) fun _ => id
      simp [Fifo.pull, none]
  | eof i =>
      intro k some
      obtain ⟨j, path, waits⟩ := clean k some
      have elsewhere : j ≠ i := by
        rintro rfl
        exact some (path ▸ enabled.2.1)
      exact ⟨j, path, by simpa [effect, setPier, elsewhere] using waits⟩
  | closeRead i =>
      refine clean.frame (content_update ?_) (waits_update (quiet enabled rfl))
      simp +contextual [Fifo.closeRead_content, pipe, setPier]
  | openWrite r => exact clean.frame (content_update id) fun _ => id
  | noPath r | writable r => exact clean.frame (fun _ => id) fun _ => id
  | put r n =>
      intro k some
      by_cases there : k = setup.path r
      · exact ⟨r, there.symm, (answering r).waits (sound r) enabled.1⟩
      · exact clean k (by simpa [effect, setPipe, there] using some)
  | broken r | closeWrite r =>
      refine clean.frame (content_update ?_) fun _ => id
      simp +contextual [Fifo.closeWrite_content, pipe, setRespond]

omit [DecidableEq δ] in
/-- A run that keeps the lock moves on inside it, and the locks may only be freed. -/
theorem Owned.frame (owned : Owned setup s) {i : ι} {point : WaitPoint} (pier : t.pier = Function.update s.pier i point)
    (owner : ∀ d j, t.owner d = some j → s.owner d = some j)
    (stays : ∀ d, t.owner d = some i → point.locks = true) : Owned setup t := by
  intro d j holder
  obtain ⟨device, locks⟩ := owned d j (owner d j holder)
  refine ⟨device, ?_⟩
  rw [pier]
  by_cases here : j = i
  · subst here
    rw [Function.update_self]
    exact stays d holder
  · rwa [Function.update_of_ne here]

/-- Who owns a lock after another one is freed has owned it before. -/
theorem owner_freed {i j : ι} {d d' : δ}
    (holder : (if s.owner d' = some i then Function.update s.owner d' none else s.owner) d = some j) :
    s.owner d = some j := by
  split at holder
  · by_cases here : d = d'
    · simp [here] at holder
    · rwa [Function.update_of_ne here] at holder
  · exact holder

/-- A run that frees its lock owns none. -/
theorem owned_frees (owned : Owned setup s) {i : ι} {point : WaitPoint} (pier : t.pier = Function.update s.pier i point)
    (owner : t.owner = if s.owner (setup.device i) = some i then Function.update s.owner (setup.device i) none
      else s.owner) : Owned setup t := by
  have none : ∀ d, t.owner d ≠ some i := by
    intro d holder
    rw [owner] at holder
    split at holder
    case isTrue held =>
      by_cases here : d = setup.device i
      · simp [here] at holder
      · rw [Function.update_of_ne here] at holder
        exact here (owned d i holder).1.symm
    case isFalse free =>
      have device := (owned d i holder).1
      exact free (device ▸ holder)
  exact owned.frame pier (fun d j holder => owner_freed (owner ▸ holder)) fun d holder => absurd holder (none d)

theorem owned_step (owned : Owned setup s) (spares : Spares s a) (next : step setup s a = some t) :
    Owned setup t := by
  obtain ⟨enabled, rfl⟩ := (step_eq_some setup).mp next
  have outside : ∀ {i : ι} {point : WaitPoint}, s.pier i = point → point.locks = false → ∀ {after : WaitPoint} d,
      s.owner d = some i → after.locks = true := by
    intro i point here outside after d holder
    rw [← here, (owned d i holder).2] at outside
    contradiction
  cases a with
  | kill i => exact spares.elim
  | start i => exact owned.frame rfl (fun _ _ => id) (outside enabled.1 rfl)
  | lock i =>
      intro d j holder
      by_cases device : d = setup.device i
      · obtain rfl : i = j := by simpa [effect, device] using holder
        exact ⟨device.symm, by simp [effect, setPier, WaitPoint.locks]⟩
      · have other : s.owner d = some j := by simpa [effect, setPier, device] using holder
        obtain ⟨same, locks⟩ := owned d j other
        have elsewhere : j ≠ i := by
          rintro rfl
          exact device same.symm
        exact ⟨same, by simpa [effect, setPier, elsewhere] using locks⟩
  | ask i | openRead i | opened i | eof i | closeRead i => exact owned.frame rfl (fun _ _ => id) fun _ _ => rfl
  | refuse i removed => cases removed <;> exact owned_frees owned rfl rfl
  | unlock i | unlink i => exact owned_frees owned rfl rfl
  | take i n | openWrite r | noPath r | writable r | put r n | broken r | closeWrite r => exact owned

theorem within_step (within : Within setup s) (next : step setup s a = some t) : Within setup t := by
  obtain ⟨enabled, rfl⟩ := (step_eq_some setup).mp next
  cases a with
  | put r n =>
      intro i
      by_cases here : i = r
      · subst here
        simpa [effect] using enabled.2.2.1
      · simpa [effect, here] using within i
  | refuse i removed => cases removed <;> exact within
  | start _ | lock _ | ask _ | openRead _ | opened _ | take _ _ | eof _ | closeRead _ | unlock _ | unlink _ | kill _
  | openWrite _ | noPath _ | writable _ | broken _ | closeWrite _ => exact within

/-- Only these moves make a response possible or start it. -/
theorem respond_begins (placed : Placed setup s) (next : step setup s a = some t) {r : ι} (other : a.begins ≠ some r) :
    (t.respond r = .idle ↔ s.respond r = .idle) ∧ (t.respond r = .pending ↔ s.respond r = .pending) := by
  obtain ⟨enabled, rfl⟩ := (step_eq_some setup).mp next
  -- A response at the FIFO is neither possible nor waiting.
  have held : ∀ i, r ∈ (s.pipe setup i).writers → s.respond r ≠ .idle ∧ s.respond r ≠ .pending := by
    intro i member
    have holds := ((placed.writers _ r).mp member).2
    constructor <;> intro here <;> simp [here, RespondPoint.holds] at holds
  have removed : ∀ i, ((s.unlinkPath setup i).respond r = .idle ↔ s.respond r = .idle) ∧
      ((s.unlinkPath setup i).respond r = .pending ↔ s.respond r = .pending) := by
    intro i
    by_cases member : r ∈ (s.pipe setup i).writers
    · simp [unlinkPath, member, held i member]
    · simp [unlinkPath, member]
  have moved : ∀ r' point, s.respond r' ≠ .idle ∧ s.respond r' ≠ .pending → point ≠ .idle ∧ point ≠ .pending →
      (Function.update s.respond r' point r = .idle ↔ s.respond r = .idle) ∧
        (Function.update s.respond r' point r = .pending ↔ s.respond r = .pending) := by
    intro r' point old new
    by_cases here : r = r'
    · subst here
      simp [old, new]
    · simp [here]
  cases a with
  | ask i | openWrite i | noPath i =>
      have different : r ≠ i := fun same => other (congrArg some same.symm)
      simp [effect, setRespond, setPier, setPipe, different]
  | refuse i gone =>
      cases gone with
      | true => exact removed i
      | false => exact ⟨Iff.rfl, Iff.rfl⟩
  | unlink i => exact removed i
  | writable r' => exact moved r' _ (by simp [enabled.1]) (by simp)
  | broken r' | closeWrite r' => exact moved r' _ (by simp [enabled.1]) (by simp)
  | start i | lock i | openRead i | opened i | take i n | eof i | closeRead i | unlock i | kill i | put i n =>
      exact ⟨Iff.rfl, Iff.rfl⟩

/-- A run that has copied a byte is in its read loop or behind it. -/
def Copying (s : Exchange ι δ) : Prop := ∀ i, s.copied i ≠ [] → s.pier i = .reading ∨ (s.pier i).answered = true

omit [DecidableEq ι] [DecidableEq δ] in
theorem copying_initial : Copying (initial : Exchange ι δ) := fun _ some => absurd rfl some

theorem copying_step (copying : Copying s) (spares : Spares s a) (next : step setup s a = some t) : Copying t := by
  obtain ⟨enabled, rfl⟩ := (step_eq_some setup).mp next
  intro i some
  -- A run moves on from its read loop, or it has copied nothing.
  have moved : ∀ j point, (s.pier j = .reading ∨ (s.pier j).answered = true → point.answered = true) →
      (s.copied i ≠ []) → Function.update s.pier j point i = .reading ∨
        (Function.update s.pier j point i).answered = true := by
    intro j point later some
    by_cases here : i = j
    · subst here
      simpa using Or.inr (later (copying i some))
    · simpa [here] using copying i some
  cases a with
  | take j n =>
      by_cases here : i = j
      · exact Or.inl (here ▸ enabled.1)
      · exact copying i (by simpa [effect, here] using some)
  | kill j => contradiction
  | opened j =>
      by_cases here : i = j
      · simp [effect, setPier, here]
      · simpa [effect, setPier, here] using copying i some
  | refuse j removed =>
      have early : s.pier j = .made ∨ s.pier j = .locked := enabled
      cases removed <;> exact moved j _ (by rcases early with here | here <;> simp [here, WaitPoint.answered]) some
  | start j | lock j => exact moved j _ (by simp [enabled.1, WaitPoint.answered]) some
  | ask j | openRead j | eof j | closeRead j | unlock j | unlink j =>
      exact moved j _ (by simp_all [Enabled, WaitPoint.answered]) some
  | openWrite r | noPath r | writable r | put r n | broken r | closeWrite r => exact copying i some

/-- The invariant of a run without kills. -/
structure Unkilled (setup : Setup ι δ) (s : Exchange ι δ) : Prop where
  placed : Placed setup s
  sound : ∀ i, Sound setup s i
  answering : ∀ i, Answering setup s i
  clean : Clean setup s
  owned : Owned setup s
  within : Within setup s
  copying : Copying s

omit [DecidableEq ι] [DecidableEq δ] in
theorem unkilled_initial : Unkilled setup (initial : Exchange ι δ) :=
  ⟨placed_initial, sound_initial, answering_initial, clean_initial, owned_initial, within_initial, copying_initial⟩

theorem unkilled_step (unkilled : Unkilled setup s) (spares : Spares s a) (next : step setup s a = some t) :
    Unkilled setup t := by
  obtain ⟨placed, sound, answering, clean, owned, within, copying⟩ := unkilled
  have own := meets_own placed answering clean ((step_eq_some setup).mp next).1
  refine ⟨placed_step placed next, sound_step placed sound own next, fun i => ?_,
    clean_step clean sound answering spares next, owned_step owned spares next, within_step within next,
    copying_step copying spares next⟩
  by_cases here : i = a.run
  · subst here
    exact answering_here placed (sound _) (answering _) spares next
  · exact answering_elsewhere placed (answering i) spares here next

theorem unkilled_run {moves : List (Move ι)} (start : Unkilled setup s)
    (spared : Along (step setup) Spares s moves) (reached : run (step setup) s moves = some t) : Unkilled setup t :=
  invariant_along (fun _ _ _ unkilled spares next => unkilled_step unkilled spares next) start spared reached

/-- While no `Pier` is killed, every `Pier` copies its own response, also where processes use a pid again, and all
of it before it closes its FIFO. No `Respond` fails or is left alone at the FIFO. -/
theorem unkilled_responses_reach (setup : Setup ι δ) (moves : List (Move ι)) (s : Exchange ι δ)
    (reached : run (step setup) initial moves = some s) (spared : Along (step setup) Spares initial moves) (i : ι) :
    s.copied i <+: setup.response i ∧ ((s.pier i).answered = true →
      s.copied i = setup.response i ∧ s.respond i = .closed) ∧ s.respond i ≠ .failed ∧ s.respond i ≠ .stuck := by
  obtain ⟨-, sound, answering, -⟩ := unkilled_run unkilled_initial spared reached
  exact ⟨(sound i).front, fun answered => ⟨(sound i).whole answered, (answering i).told answered⟩,
    (answering i).never⟩

end Step

theorem unkilled_responses_reach_reused : ownState.copied false <+: sampleSetup.response false ∧
    ((ownState.pier false).answered = true →
      ownState.copied false = sampleSetup.response false ∧ ownState.respond false = .closed) ∧
    ownState.respond false ≠ .failed ∧ ownState.respond false ≠ .stuck :=
  unkilled_responses_reach sampleSetup ownRun ownState (Option.some_get _).symm (by decide +kernel) false

end Exchange

end Piercloud.Cgi
