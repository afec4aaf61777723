import Piercloud.Library.Runs

namespace Runs

variable {σ α β γ : Type*}

/-- The steps of a run give these outputs, where a step gives at most one. -/
def emitted (step : σ → α → Option σ) (output : σ → α → Option β) : σ → List α → List β
  | _, [] => []
  | s, a :: rest => (output s a).toList ++ (step s a).elim [] fun t => emitted step output t rest

/-- A run over two lists runs over the first one and then over the second one. -/
theorem run_append {step : σ → α → Option σ} {s : σ} (front back : List α) :
    run step s (front ++ back) = (run step s front).bind fun t => run step t back := by
  induction front generalizing s with
  | nil => rfl
  | cons a front ih =>
      rw [List.cons_append, run_cons, run_cons, Option.bind_assoc]
      congr 1
      funext t
      exact ih

/-- A run that meets a guard meets every weaker one. -/
theorem along_mono {step : σ → α → Option σ} {guard guard' : σ → α → Prop} (weaker : ∀ s a, guard s a → guard' s a)
    {s : σ} {rest : List α} (guarded : Along step guard s rest) : Along step guard' s rest := by
  induction rest generalizing s with
  | nil => exact trivial
  | cons a rest ih =>
      cases next : step s a with
      | none =>
          rw [along_cons_stopped next] at guarded ⊢
          exact weaker s a guarded
      | some t =>
          rw [along_cons next] at guarded ⊢
          exact ⟨weaker s a guarded.1, ih guarded.2⟩

section Emitted

variable {step : σ → α → Option σ} {guard : σ → α → Prop} {output : σ → α → Option β}

theorem emitted_cons {s t : σ} {a : α} (next : step s a = some t) (rest : List α) :
    emitted step output s (a :: rest) = (output s a).toList ++ emitted step output t rest := by
  simp [emitted, next]

/-- A log that every step extends by its output is extended by the outputs of a run. -/
theorem log_run {log : σ → List γ} {view : β → List γ}
    (grows : ∀ s a t, step s a = some t → log t = log s ++ (output s a).toList.flatMap view)
    {s t : σ} {rest : List α} (reached : run step s rest = some t) :
    log t = log s ++ (emitted step output s rest).flatMap view := by
  induction rest generalizing s with
  | nil =>
      obtain rfl : s = t := by simpa using reached
      simp [emitted]
  | cons a rest ih =>
      obtain ⟨middle, first, later⟩ := run_cons_eq_some.mp reached
      rw [ih later, grows s a middle first, emitted_cons first, List.flatMap_append, List.append_assoc]

/-- What holds of the output of every guarded step holds of every output of a guarded run. -/
theorem emitted_along {good : β → Prop}
    (gives : ∀ s a t b, guard s a → step s a = some t → output s a = some b → good b)
    {s t : σ} {rest : List α} (guarded : Along step guard s rest) (reached : run step s rest = some t) :
    ∀ b ∈ emitted step output s rest, good b := by
  induction rest generalizing s with
  | nil => simp [emitted]
  | cons a rest ih =>
      obtain ⟨middle, first, later⟩ := run_cons_eq_some.mp reached
      obtain ⟨here, behind⟩ := (along_cons first).mp guarded
      rw [emitted_cons first]
      intro b member
      rcases List.mem_append.mp member with now | after
      · exact gives s a middle b here first (by simpa using now)
      · exact ih behind later b after

end Emitted

/-- A filter that takes in more elements extends its result, where none of them stands before one it had. -/
theorem filter_grows {old new : α → Bool} {l : List α} (grows : ∀ a, old a = true → new a = true)
    (order : ∀ front a back, l = front ++ a :: back → new a = true → (∃ b ∈ back, old b = true) → old a = true) :
    l.filter old <+: l.filter new := by
  induction l with
  | nil => exact List.prefix_refl _
  | cons a l ih =>
      have rest : l.filter old <+: l.filter new :=
        ih fun front b back split => order (a :: front) b back (by rw [split, List.cons_append])
      cases had : old a with
      | true =>
          rw [List.filter_cons_of_pos had, List.filter_cons_of_pos (grows a had)]
          exact (List.prefix_cons_inj a).mpr rest
      | false =>
          rw [List.filter_cons_of_neg (by simp [had])]
          cases taken : new a with
          | true =>
              have nothing : l.filter old = [] := by
                rw [List.filter_eq_nil_iff]
                intro b member kept
                have before := order [] a l rfl taken ⟨b, member, kept⟩
                simp [had] at before
              rw [nothing]
              exact List.nil_prefix
          | false =>
              rw [List.filter_cons_of_neg (by simp [taken])]
              exact rest

/-- The outputs of a machine depend on the inputs that it takes. -/
theorem feed_taken {step : σ → α → Option (σ × β)} (s : σ) (inputs : List α) :
    feed step s (taken (silent step) s inputs) = feed step s inputs := by
  induction inputs generalizing s with
  | nil => rfl
  | cons a rest ih =>
      rw [taken]
      cases next : step s a with
      | none => rw [feed_cons_stopped next, feed_cons_stopped next]
      | some pair =>
          have first : step s a = some (pair.1, pair.2) := next
          rw [feed_cons first, feed_cons first]
          simp [silent, next, ih]

end Runs
