import Mathlib.Tactic

namespace Runs

variable {σ α β : Type*}

/-- A run ends without a state at the first step that gives none. -/
def run (step : σ → α → Option σ) : σ → List α → Option σ
  | s, [] => some s
  | s, a :: rest => (step s a).bind fun t => run step t rest

/-- Every step of the run starts in a state that meets the guard. -/
def Along (step : σ → α → Option σ) (guard : σ → α → Prop) : σ → List α → Prop
  | _, [] => True
  | s, a :: rest => guard s a ∧ (step s a).elim True fun t => Along step guard t rest

/-- A machine with outputs keeps the outputs of the steps before it stops. -/
def feed (step : σ → α → Option (σ × β)) : σ → List α → List β × Option σ
  | s, [] => ([], some s)
  | s, a :: rest =>
      match step s a with
      | none => ([], none)
      | some (t, output) => (output :: (feed step t rest).1, (feed step t rest).2)

/-- These are the inputs that a run takes, up to the one that ends it. -/
def taken (step : σ → α → Option σ) : σ → List α → List α
  | _, [] => []
  | s, a :: rest => a :: (step s a).elim [] fun t => taken step t rest

/-- This step forgets the output. -/
def silent (step : σ → α → Option (σ × β)) (s : σ) (a : α) : Option σ := (step s a).map Prod.fst

instance Along.decidable (step : σ → α → Option σ) (guard : σ → α → Prop)
    [∀ s a, Decidable (guard s a)] : ∀ s rest, Decidable (Along step guard s rest)
  | _, [] => isTrue trivial
  | s, a :: rest =>
      have : Decidable ((step s a).elim True fun t => Along step guard t rest) :=
        match step s a with
        | none => isTrue trivial
        | some t => Along.decidable step guard t rest
      inferInstanceAs (Decidable (_ ∧ _))

section Run

variable {step : σ → α → Option σ} {guard : σ → α → Prop}

@[simp] theorem run_nil (s : σ) : run step s [] = some s := rfl

theorem run_cons (s : σ) (a : α) (rest : List α) :
    run step s (a :: rest) = (step s a).bind fun t => run step t rest := rfl

theorem run_cons_eq_some {s t : σ} {a : α} {rest : List α} :
    run step s (a :: rest) = some t ↔ ∃ middle, step s a = some middle ∧ run step middle rest = some t := by
  rw [run_cons, Option.bind_eq_some_iff]

@[simp] theorem along_nil (s : σ) : Along step guard s [] := trivial

theorem along_cons {s t : σ} {a : α} {rest : List α} (next : step s a = some t) :
    Along step guard s (a :: rest) ↔ guard s a ∧ Along step guard t rest := by
  simp [Along, next]

theorem along_cons_stopped {s : σ} {a : α} {rest : List α} (stopped : step s a = none) :
    Along step guard s (a :: rest) ↔ guard s a := by
  simp [Along, stopped]

theorem along_and {guard' : σ → α → Prop} {s : σ} {rest : List α} (first : Along step guard s rest)
    (second : Along step guard' s rest) : Along step (fun s a => guard s a ∧ guard' s a) s rest := by
  induction rest generalizing s with
  | nil => exact trivial
  | cons a rest ih =>
      cases next : step s a with
      | none =>
          rw [along_cons_stopped next] at first second ⊢
          exact ⟨first, second⟩
      | some t =>
          rw [along_cons next] at first second ⊢
          exact ⟨⟨first.1, second.1⟩, ih first.2 second.2⟩

/-- A property that every step keeps holds after the run. -/
theorem invariant {keeps : σ → Prop} (kept : ∀ s a t, keeps s → step s a = some t → keeps t)
    {s t : σ} {rest : List α} (start : keeps s) (reached : run step s rest = some t) : keeps t := by
  induction rest generalizing s with
  | nil =>
      obtain rfl : s = t := by simpa using reached
      exact start
  | cons a rest ih =>
      obtain ⟨middle, first, later⟩ := run_cons_eq_some.mp reached
      exact ih (kept s a middle start first) later

/-- A property that every guarded step keeps holds after a guarded run. -/
theorem invariant_along {keeps : σ → Prop}
    (kept : ∀ s a t, keeps s → guard s a → step s a = some t → keeps t)
    {s t : σ} {rest : List α} (start : keeps s) (guarded : Along step guard s rest)
    (reached : run step s rest = some t) : keeps t := by
  induction rest generalizing s with
  | nil =>
      obtain rfl : s = t := by simpa using reached
      exact start
  | cons a rest ih =>
      obtain ⟨middle, first, later⟩ := run_cons_eq_some.mp reached
      obtain ⟨here, behind⟩ := (along_cons first).mp guarded
      exact ih (kept s a middle start here first) behind later

/-- A loss that no later step repairs makes the guard exact. -/
theorem exact_along {good bad result : σ → Prop}
    (keep : ∀ s a t, good s → guard s a → step s a = some t → good t)
    (lose : ∀ s a t, good s → ¬ guard s a → step s a = some t → bad t)
    (stay : ∀ s a t, bad s → step s a = some t → bad t)
    (holds : ∀ s, good s → result s) (fails : ∀ s, bad s → ¬ result s)
    {s t : σ} {rest : List α} (start : good s) (reached : run step s rest = some t) :
    result t ↔ Along step guard s rest := by
  induction rest generalizing s with
  | nil =>
      obtain rfl : s = t := by simpa using reached
      simpa using holds s start
  | cons a rest ih =>
      obtain ⟨middle, first, later⟩ := run_cons_eq_some.mp reached
      rw [along_cons first]
      by_cases here : guard s a
      · rw [ih (keep s a middle start here first) later]
        simp [here]
      · have lost := invariant stay (lose s a middle start here first) later
        simpa [here] using fails t lost

/-- Every state on the way has the property exactly when the run is guarded, where an unguarded step loses it. -/
theorem everywhere_iff_along (good : σ → Prop) {result : σ → Prop}
    (keep : ∀ s a t, good s → guard s a → step s a = some t → good t)
    (lose : ∀ s a t, good s → ¬ guard s a → step s a = some t → ¬ result t)
    (holds : ∀ s, good s → result s) {s t : σ} {rest : List α} (start : good s)
    (reached : run step s rest = some t) :
    (∀ front back u, rest = front ++ back → run step s front = some u → result u) ↔ Along step guard s rest := by
  induction rest generalizing s with
  | nil =>
      constructor
      · exact fun _ => trivial
      · intro _ front back u same reached
        obtain ⟨rfl, -⟩ := List.append_eq_nil_iff.mp same.symm
        obtain rfl : s = u := by simpa using reached
        exact holds s start
  | cons a rest ih =>
      obtain ⟨middle, first, later⟩ := run_cons_eq_some.mp reached
      rw [along_cons first]
      constructor
      · intro everywhere
        have here : guard s a := by
          by_contra unguarded
          refine lose s a middle start unguarded first (everywhere [a] rest middle rfl ?_)
          rw [run_cons_eq_some]
          exact ⟨middle, first, rfl⟩
        refine ⟨here, (ih (keep s a middle start here first) later).mp ?_⟩
        rintro front back u rfl inside
        exact everywhere (a :: front) back u rfl (run_cons_eq_some.mpr ⟨middle, first, inside⟩)
      · rintro ⟨here, behind⟩ front back u same inside
        cases front with
        | nil =>
            obtain rfl : s = u := by simpa using inside
            exact holds s start
        | cons b front =>
            obtain ⟨rfl, rest⟩ := List.cons.inj same
            obtain ⟨other, first', inside⟩ := run_cons_eq_some.mp inside
            obtain rfl : other = middle := Option.some.inj (first'.symm.trans first)
            exact (ih (keep s a other start here first) later).mpr behind front back u rest inside

theorem taken_front (s : σ) (inputs : List α) : taken step s inputs <+: inputs := by
  induction inputs generalizing s with
  | nil => exact List.prefix_refl _
  | cons a rest ih =>
      rw [taken, List.prefix_cons_inj]
      cases step s a with
      | none => exact List.nil_prefix
      | some t => exact ih t

/-- A run takes every input exactly when it does not end before the last one. -/
theorem taken_eq_iff (s : σ) (inputs : List α) :
    taken step s inputs = inputs ↔ (run step s inputs.dropLast).isSome := by
  induction inputs generalizing s with
  | nil => simp [taken]
  | cons a rest ih =>
      cases rest with
      | nil => cases next : step s a <;> simp [taken, next]
      | cons b rest =>
          rw [taken, List.dropLast_cons_of_ne_nil (List.cons_ne_nil b rest), run_cons, List.cons.injEq]
          cases next : step s a with
          | none => simp
          | some t => simpa using ih t

end Run

section Feed

variable {step : σ → α → Option (σ × β)}

@[simp] theorem feed_nil (s : σ) : feed step s [] = ([], some s) := rfl

theorem feed_cons {s t : σ} {a : α} {output : β} (next : step s a = some (t, output)) (rest : List α) :
    feed step s (a :: rest) = (output :: (feed step t rest).1, (feed step t rest).2) := by
  simp [feed, next]

theorem feed_cons_stopped {s : σ} {a : α} (stopped : step s a = none) (rest : List α) :
    feed step s (a :: rest) = ([], none) := by
  simp [feed, stopped]

variable (step) in
/-- One more input gives at most one more output. -/
theorem feed_concat (s : σ) (front : List α) (a : α) :
    ∃ last, (feed step s (front ++ [a])).1 = (feed step s front).1 ++ last ∧ last.length ≤ 1 := by
  induction front generalizing s with
  | nil =>
      cases next : step s a with
      | none => exact ⟨[], by simp [feed, next], by simp⟩
      | some pair => exact ⟨[pair.2], by simp [feed, next], by simp⟩
  | cons b front ih =>
      cases next : step s b with
      | none => exact ⟨[], by simp [feed, next], by simp⟩
      | some pair =>
          obtain ⟨last, outputs, single⟩ := ih pair.1
          have first : step s b = some (pair.1, pair.2) := next
          refine ⟨last, ?_, single⟩
          rw [List.cons_append, feed_cons first, feed_cons first, outputs, List.cons_append]

/-- The final state does not depend on the outputs. -/
theorem feed_state (s : σ) (inputs : List α) : (feed step s inputs).2 = run (silent step) s inputs := by
  induction inputs generalizing s with
  | nil => rfl
  | cons a rest ih =>
      rw [run_cons, silent]
      cases next : step s a with
      | none => rw [feed_cons_stopped next]; rfl
      | some pair => rw [feed_cons (show step s a = some (pair.1, pair.2) from next), ih]; rfl

/-- Related states that answer every input alike and stay related have the same outputs. -/
theorem feed_related {related : σ → σ → Prop}
    (alike : ∀ s s' a, related s s' → (step s a = none ∧ step s' a = none) ∨
      ∃ t t' output, step s a = some (t, output) ∧ step s' a = some (t', output) ∧ related t t')
    {s s' : σ} (start : related s s') (inputs : List α) :
    (feed step s inputs).1 = (feed step s' inputs).1 := by
  induction inputs generalizing s s' with
  | nil => rfl
  | cons a rest ih =>
      rcases alike s s' a start with ⟨stopped, stopped'⟩ | ⟨t, t', output, next, next', later⟩
      · rw [feed_cons_stopped stopped, feed_cons_stopped stopped']
      · rw [feed_cons next, feed_cons next', ih later]

end Feed

end Runs
