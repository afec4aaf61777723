import Piercloud.Library.Traces

namespace Runs

variable {σ α : Type*}

/-- Some guarded run leads to a state with the property. -/
def Leads (step : σ → α → Option σ) (guard : σ → α → Prop) (s : σ) (goal : σ → Prop) : Prop :=
  ∃ actions t, Along step guard s actions ∧ run step s actions = some t ∧ goal t

section Append

variable {step : σ → α → Option σ} {guard : σ → α → Prop} {s t : σ}

theorem along_append {front back : List α} (reached : run step s front = some t) :
    Along step guard s (front ++ back) ↔ Along step guard s front ∧ Along step guard t back := by
  induction front generalizing s with
  | nil =>
      obtain rfl : s = t := by simpa using reached
      simp
  | cons a front ih =>
      obtain ⟨middle, first, later⟩ := run_cons_eq_some.mp reached
      rw [List.cons_append, along_cons first, along_cons first, ih later, and_assoc]

end Append

namespace Leads

variable {step : σ → α → Option σ} {guard : σ → α → Prop} {s t : σ} {goal goal' : σ → Prop}

theorem here (holds : goal s) : Leads step guard s goal := ⟨[], s, trivial, rfl, holds⟩

theorem next {a : α} (allowed : guard s a) (first : step s a = some t) (later : Leads step guard t goal) :
    Leads step guard s goal := by
  obtain ⟨actions, u, along, reached, holds⟩ := later
  exact ⟨a :: actions, u, (along_cons first).mpr ⟨allowed, along⟩, run_cons_eq_some.mpr ⟨t, first, reached⟩, holds⟩

theorem trans (first : Leads step guard s goal) (second : ∀ t, goal t → Leads step guard t goal') :
    Leads step guard s goal' := by
  obtain ⟨actions, t, along, reached, holds⟩ := first
  obtain ⟨more, u, along', reached', holds'⟩ := second t holds
  refine ⟨actions ++ more, u, (along_append reached).mpr ⟨along, along'⟩, ?_, holds'⟩
  rw [run_append, reached]
  exact reached'

theorem mono (weaker : ∀ t, goal t → goal' t) (leads : Leads step guard s goal) : Leads step guard s goal' :=
  leads.trans fun t holds => here (weaker t holds)

/-- While the goal is not reached some step keeps the invariant and comes closer. -/
theorem of_measure {keeps : σ → Prop} (measure : σ → Nat)
    (progress : ∀ s, keeps s → ¬ goal s → ∃ a t, guard s a ∧ step s a = some t ∧ keeps t ∧ measure t < measure s)
    (start : keeps s) : Leads step guard s fun t => keeps t ∧ goal t := by
  induction size : measure s using Nat.strong_induction_on generalizing s with
  | _ size' ih =>
      by_cases reached : goal s
      · exact here ⟨start, reached⟩
      · obtain ⟨a, t, allowed, first, later, closer⟩ := progress s start reached
        exact next allowed first (ih _ (size ▸ closer) later rfl)

/-- A run can serve one member of a list behind the other, where a service undoes no earlier one. -/
theorem forall_list {κ : Type*} {keeps : σ → Prop} {served : κ → σ → Prop}
    (serve : ∀ s, keeps s → ∀ k, Leads step guard s fun t =>
      (keeps t ∧ served k t) ∧ ∀ other, served other s → served other t)
    (start : keeps s) (list : List κ) : Leads step guard s fun t => keeps t ∧ ∀ k ∈ list, served k t := by
  induction list generalizing s with
  | nil => exact here ⟨start, by simp⟩
  | cons k list ih =>
      refine (ih start).trans fun t ⟨middle, done⟩ => ?_
      refine (serve t middle k).mono fun u ⟨⟨last, now⟩, stays⟩ => ⟨last, ?_⟩
      intro other member
      rcases List.mem_cons.mp member with rfl | before
      · exact now
      · exact stays other (done other before)

end Leads

end Runs
