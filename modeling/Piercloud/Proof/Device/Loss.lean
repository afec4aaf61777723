import Piercloud.Proof.Device.Order

/-
This file shows when the bytes in the FIFO of one device are lost.
-/

namespace Piercloud.Cgi.Device

open CLib Runs

variable {κ π : Type*} [DecidableEq κ] [DecidableEq π]

/-- A close of the last descriptor finds the FIFO empty. -/
def KeepsContent (s : Device κ π) : Action κ π → Prop
  | .closeRead k => (s.fifo.dropRead k).Unheld → s.fifo.content = []
  | .closeWrite p => (s.fifo.dropWrite p).Unheld → s.fifo.content = []
  | _ => True

instance (s : Device κ π) : ∀ a : Action κ π, Decidable (KeepsContent s a)
  | .closeRead _ => inferInstanceAs (Decidable (_ → _ = _))
  | .closeWrite _ => inferInstanceAs (Decidable (_ → _ = _))
  | .creat _ | .mkfifo _ | .openRead _ | .timeout _ | .ready _ | .read _ _ | .again _ | .eof _ | .openLock _
  | .lock _ | .openWrite _ | .refuse _ | .write _ _ | .answer _ | .unlock _ => isTrue trivial

/-- The bytes that were read and the bytes in the FIFO are the bytes that were written. -/
def Conserved (s : Device κ π) : Prop := s.readLog.map Prod.snd ++ s.fifo.content = s.written

/-- Some bytes have disappeared. -/
def Missing (s : Device κ π) : Prop := s.readLog.length + s.fifo.content.length < s.written.length

variable {input : π → PierInput} {s t : Device κ π} {a : Action κ π}

/-- A step writes, reads, or closes. -/
theorem step_bytes (next : step input s a = some t) : ∃ fresh pulled rest, t.written = s.written ++ fresh ∧
    t.readLog = s.readLog ++ pulled ∧ s.fifo.content ++ fresh = pulled.map Prod.snd ++ rest ∧
    (t.fifo.content = rest ∧ KeepsContent s a ∨ t.fifo.content = [] ∧ rest ≠ [] ∧ ¬ KeepsContent s a) := by
  obtain ⟨-, rfl⟩ := (step_eq_some input).mp next
  have quiet : ∀ u : Device κ π, u.written = s.written → u.readLog = s.readLog →
      u.fifo.content = s.fifo.content ∧ KeepsContent s a ∨
        u.fifo.content = [] ∧ s.fifo.content ≠ [] ∧ ¬ KeepsContent s a →
      ∃ fresh pulled rest, u.written = s.written ++ fresh ∧ u.readLog = s.readLog ++ pulled ∧
        s.fifo.content ++ fresh = pulled.map Prod.snd ++ rest ∧
        (u.fifo.content = rest ∧ KeepsContent s a ∨ u.fifo.content = [] ∧ rest ≠ [] ∧ ¬ KeepsContent s a) :=
    fun u written readLog content => ⟨[], [], s.fifo.content, by simp [written], by simp [readLog], by simp, content⟩
  cases a with
  | read k n =>
      refine ⟨[], (s.fifo.content.take n).map fun b => (k, b), s.fifo.content.drop n, by simp [effect], rfl, ?_,
        Or.inl ⟨rfl, trivial⟩⟩
      simp [Function.comp_def, List.take_append_drop]
  | write p n =>
      exact ⟨nextBytes input s p n, [], _, rfl, by simp [effect, putBytes], rfl, Or.inl ⟨rfl, trivial⟩⟩
  | closeRead k =>
      apply quiet (effect input s (.closeRead k)) rfl rfl
      simp only [effect, KeepsContent, Fifo.closeRead_content]
      by_cases unheld : (s.fifo.dropRead k).Unheld <;> simp [unheld, eq_comm, em]
  | closeWrite p =>
      apply quiet (effect input s (.closeWrite p)) rfl rfl
      simp only [effect, KeepsContent, Fifo.closeWrite_content]
      by_cases unheld : (s.fifo.dropWrite p).Unheld <;> simp [unheld, eq_comm, em]
  | refuse p | unlock p =>
      apply quiet <;> simp [effect, setPier, KeepsContent]
  | creat k | mkfifo k | openRead k | timeout k | ready k | again k | eof k | openLock p | lock p | openWrite p
  | answer p => exact quiet _ rfl rfl (Or.inl ⟨rfl, trivial⟩)

theorem conserved_step (conserved : Conserved s) (keeps : KeepsContent s a) (next : step input s a = some t) :
    Conserved t := by
  obtain ⟨fresh, pulled, rest, written, readLog, moved, ⟨content, -⟩ | ⟨-, -, lost⟩⟩ := step_bytes next
  · unfold Conserved at conserved ⊢
    rw [written, readLog, content, ← conserved, List.append_assoc, moved, List.map_append, List.append_assoc]
  · exact absurd keeps lost

theorem missing_of_loss (conserved : Conserved s) (loses : ¬ KeepsContent s a) (next : step input s a = some t) :
    Missing t := by
  obtain ⟨fresh, pulled, rest, written, readLog, moved, ⟨-, keeps⟩ | ⟨content, real, -⟩⟩ := step_bytes next
  · exact absurd keeps loses
  · have sizes := congrArg List.length moved
    have before := congrArg List.length conserved
    have positive := List.length_pos_of_ne_nil real
    simp only [List.length_append, List.length_map] at sizes before
    simp only [Missing, written, readLog, content, List.length_append, List.length_nil]
    omega

/-- What has disappeared never comes back. -/
theorem missing_step (missing : Missing s) (next : step input s a = some t) : Missing t := by
  obtain ⟨fresh, pulled, rest, written, readLog, moved, content⟩ := step_bytes next
  have sizes := congrArg List.length moved
  have left : t.fifo.content.length ≤ rest.length := by
    rcases content with ⟨same, -⟩ | ⟨empty, -⟩
    · rw [same]
    · simp [empty]
  unfold Missing at missing ⊢
  simp only [List.length_append, List.length_map] at sizes
  simp only [written, readLog, List.length_append]
  omega

/-- One `Connect` has read, and will read, exactly what was written. -/
def Lossless (s : Device Unit π) : Prop :=
  (s.forwarded ()).map Prod.snd ++ s.fifo.content.map Prod.snd = s.written.map Prod.snd

instance (s : Device Unit π) : Decidable (Lossless s) := inferInstanceAs (Decidable (_ = _))

omit [DecidableEq π] in
theorem forwarded_unit (s : Device Unit π) : s.forwarded () = s.readLog.map Prod.snd := by
  simp [forwarded]

omit [DecidableEq π] in
theorem Conserved.lossless {s : Device Unit π} (conserved : Conserved s) : Lossless s := by
  unfold Lossless
  rw [forwarded_unit, ← List.map_append, show s.readLog.map Prod.snd ++ s.fifo.content = s.written from conserved]

omit [DecidableEq π] in
theorem Missing.not_lossless {s : Device Unit π} (missing : Missing s) : ¬ Lossless s := by
  intro lossless
  have sizes := congrArg List.length lossless
  simp only [forwarded_unit, List.length_append, List.length_map] at sizes
  unfold Missing at missing
  omega

/-- With one `Connect` no byte is lost in a run exactly when no step of the run closes the last descriptor of
the FIFO while it holds bytes. -/
theorem connect_lossless_iff (input : π → PierInput) (actions : List (Action Unit π)) (s : Device Unit π)
    (reached : run (step input) initial actions = some s) :
    Lossless s ↔ Along (step input) KeepsContent initial actions :=
  exact_along (fun _ _ _ conserved keeps next => conserved_step conserved keeps next)
    (fun _ _ _ conserved loses next => missing_of_loss conserved loses next)
    (fun _ _ _ missing next => missing_step missing next)
    (fun _ conserved => Conserved.lossless conserved) (fun _ missing => Missing.not_lossless missing) rfl reached

/-- The select of `Connect` times out just before a process writes its request. -/
def timeoutRun : List (Action Unit Bool) :=
  [.creat (), .mkfifo (), .openRead (), .openLock true, .lock true, .timeout (), .openWrite true, .write true 3,
    .write true 24, .closeWrite true, .closeRead ()]

def timeoutState : Device Unit Bool := (run (step sampleInput) initial timeoutRun).get (by decide +kernel)

theorem connect_lossless_iff_timeout :
    Lossless timeoutState ↔ Along (step sampleInput) KeepsContent initial timeoutRun :=
  connect_lossless_iff sampleInput timeoutRun timeoutState (Option.some_get _).symm

/-- The close after a timeout discards a request that was just written. -/
theorem connect_loses_request : ∃ (actions : List (Action Unit Bool)) (s : Device Unit Bool),
    run (step sampleInput) initial actions = some s ∧ ¬ Lossless s :=
  ⟨timeoutRun, timeoutState, (Option.some_get _).symm, by decide +kernel⟩

end Piercloud.Cgi.Device
