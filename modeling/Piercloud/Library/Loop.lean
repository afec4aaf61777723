import Mathlib.Tactic

namespace Loop

variable {σ ρ : Type*}

/-- The body goes on with a state or ends with a result. A loop without fuel has no result. -/
def loop (body : σ → σ ⊕ ρ) : Nat → σ → Option ρ
  | 0, _ => none
  | fuel + 1, s =>
      match body s with
      | .inl t => loop body fuel t
      | .inr r => some r

/-- The loop ends with this result, however many iterations it takes. -/
inductive Ends (body : σ → σ ⊕ ρ) : σ → ρ → Prop where
  | last {s : σ} {r : ρ} (ends : body s = .inr r) : Ends body s r
  | next {s t : σ} {r : ρ} (goesOn : body s = .inl t) (later : Ends body t r) : Ends body s r

/-- The loop comes to this state. -/
inductive Visits (body : σ → σ ⊕ ρ) : σ → σ → Prop where
  | here {s : σ} : Visits body s s
  | next {s t u : σ} (goesOn : body s = .inl t) (later : Visits body t u) : Visits body s u

section Rules

variable {body : σ → σ ⊕ ρ} {keeps : σ → Prop}

/-- The loop comes to the state in front of the body, and to those behind it. -/
theorem visits_next {s t u : σ} (goesOn : body s = .inl t) : Visits body s u ↔ u = s ∨ Visits body t u := by
  constructor
  · intro visits
    cases visits with
    | here => exact Or.inl rfl
    | next goesOn' later => exact Or.inr (Sum.inl.inj (goesOn.symm.trans goesOn') ▸ later)
  · rintro (rfl | later)
    · exact .here
    · exact .next goesOn later

theorem visits_last {s u : σ} {r : ρ} (stops : body s = .inr r) : Visits body s u ↔ u = s := by
  constructor
  · intro visits
    cases visits with
    | here => rfl
    | next goesOn _ => exact absurd (stops.symm.trans goesOn) (by simp)
  · rintro rfl
    exact .here

/-- A loop that has a result ends with it. -/
theorem ends_of_loop {fuel : Nat} {s : σ} {r : ρ} (found : loop body fuel s = some r) : Ends body s r := by
  induction fuel generalizing s with
  | zero => simp [loop] at found
  | succ fuel ih =>
      rw [loop] at found
      cases step : body s with
      | inl t =>
          rw [step] at found
          exact .next step (ih found)
      | inr result =>
          rw [step] at found
          exact .last (step.trans (congrArg Sum.inr (Option.some.inj found)))

/-- A loop that ends gives its result with every fuel from some amount on. -/
theorem Ends.eventually {s : σ} {r : ρ} (ends : Ends body s r) : ∃ n, ∀ fuel ≥ n, loop body fuel s = some r := by
  induction ends with
  | last stops =>
      refine ⟨1, fun fuel enough => ?_⟩
      obtain ⟨fuel, rfl⟩ := Nat.exists_eq_add_of_le' enough
      rw [loop, stops]
  | next goesOn _ ih =>
      obtain ⟨n, later⟩ := ih
      refine ⟨n + 1, fun fuel enough => ?_⟩
      obtain ⟨fuel, rfl⟩ := Nat.exists_eq_add_of_le' (show 1 ≤ fuel by omega)
      rw [loop, goesOn]
      exact later fuel (by omega)

/-- A loop whose measure shrinks while an invariant holds has a result as soon as the fuel exceeds the measure. -/
theorem loop_isSome (measure : σ → Nat)
    (kept : ∀ s t, keeps s → body s = .inl t → keeps t ∧ measure t < measure s) {fuel : Nat} {s : σ}
    (start : keeps s) (enough : measure s < fuel) : (loop body fuel s).isSome := by
  induction fuel generalizing s with
  | zero => omega
  | succ fuel ih =>
      rw [loop]
      cases step : body s with
      | inl t =>
          obtain ⟨later, smaller⟩ := kept s t start step
          exact ih later (by omega)
      | inr result => rfl

/-- A body that a map of the states and of the results takes to another one does so with its loop. -/
theorem loop_map {σ' ρ' : Type*} {body' : σ' → σ' ⊕ ρ'} (state : σ → σ') (result : ρ → ρ')
    (same : ∀ s, body' (state s) = (body s).map state result) (fuel : Nat) (s : σ) :
    loop body' fuel (state s) = (loop body fuel s).map result := by
  induction fuel generalizing s with
  | zero => rfl
  | succ fuel ih =>
      rw [loop, loop, same]
      cases body s with
      | inl t => exact ih t
      | inr r => rfl

/-- A loop that does not end goes on for ever. -/
theorem ends_or_forever (body : σ → σ ⊕ ρ) (s : σ) :
    (∃ r, Ends body s r) ∨ ∃ run : Nat → σ, run 0 = s ∧ ∀ i, body (run i) = .inl (run (i + 1)) := by
  by_cases ends : ∃ r, Ends body s r
  · exact Or.inl ends
  right
  let advance : σ → σ := fun t => (body t).elim id fun _ => t
  have open' (i : Nat) : ¬ ∃ r, Ends body (advance^[i] s) r := by
    induction i with
    | zero => exact ends
    | succ i ih =>
        intro later
        apply ih
        obtain ⟨r, later⟩ := later
        rw [Function.iterate_succ_apply'] at later
        cases step : body (advance^[i] s) with
        | inl t =>
            have next : advance (advance^[i] s) = t := by simp only [advance, step, Sum.elim_inl, id]
            exact ⟨r, .next step (next ▸ later)⟩
        | inr r' => exact ⟨r', .last step⟩
  refine ⟨fun i => advance^[i] s, rfl, ?_⟩
  intro i
  beta_reduce
  rw [Function.iterate_succ_apply']
  cases step : body (advance^[i] s) with
  | inl t => simp only [advance, step, Sum.elim_inl, id]
  | inr r => exact absurd ⟨r, .last step⟩ (open' i)

theorem Ends.not_forever {s : σ} {r : ρ} (ends : Ends body s r) {run : Nat → σ} (start : run 0 = s)
    (goesOn : ∀ i, body (run i) = .inl (run (i + 1))) : False := by
  induction ends generalizing run with
  | last stops => exact absurd (stops.symm.trans (start ▸ goesOn 0)) (by simp)
  | next step _ ih =>
      have next := Sum.inl.inj (step.symm.trans (start ▸ goesOn 0))
      exact ih next.symm fun i => goesOn (i + 1)

theorem Ends.unique {s : σ} {r r' : ρ} (ends : Ends body s r) (ends' : Ends body s r') : r = r' := by
  induction ends with
  | last first =>
      cases ends' with
      | last second => exact Sum.inr.inj (first.symm.trans second)
      | next second later => exact absurd (first.symm.trans second) (by simp)
  | next first later ih =>
      cases ends' with
      | last second => exact absurd (first.symm.trans second) (by simp)
      | next second later' =>
          obtain rfl := Sum.inl.inj (first.symm.trans second)
          exact ih later'

/-- A loop that ends does so from every state it comes to. -/
theorem Visits.ends {s t : σ} {r : ρ} (visits : Visits body s t) (ends : Ends body s r) : Ends body t r := by
  induction visits with
  | here => exact ends
  | next goesOn _ ih =>
      apply ih
      cases ends with
      | last stops => exact absurd (stops.symm.trans goesOn) (by simp)
      | next goesOn' later => exact Sum.inl.inj (goesOn'.symm.trans goesOn) ▸ later

/-- An invariant of the body holds in every state the loop comes to. -/
theorem Visits.invariant (kept : ∀ s t, keeps s → body s = .inl t → keeps t) {s t : σ} (start : keeps s)
    (visits : Visits body s t) : keeps t := by
  induction visits with
  | here => exact start
  | next goesOn _ ih => exact ih (kept _ _ start goesOn)

/-- An invariant of the body holds in the state of the last iteration. -/
theorem Ends.invariant (kept : ∀ s t, keeps s → body s = .inl t → keeps t) {s : σ} {r : ρ} (start : keeps s)
    (ends : Ends body s r) : ∃ last, keeps last ∧ body last = .inr r := by
  induction ends with
  | last stops => exact ⟨_, start, stops⟩
  | next goesOn _ ih => exact ih (kept _ _ start goesOn)

/-- The result of such a loop comes from a state that still keeps the invariant. -/
theorem loop_result (measure : σ → Nat)
    (kept : ∀ s t, keeps s → body s = .inl t → keeps t ∧ measure t < measure s) {fuel : Nat} {s : σ}
    (start : keeps s) (enough : measure s < fuel) :
    ∃ r last, loop body fuel s = some r ∧ keeps last ∧ body last = .inr r := by
  obtain ⟨r, found⟩ := Option.isSome_iff_exists.mp (loop_isSome measure kept start enough)
  obtain ⟨last, keep, stops⟩ := (ends_of_loop found).invariant (fun s t keep step => (kept s t keep step).1) start
  exact ⟨r, last, found, keep, stops⟩

/-- The result is as wanted exactly when every visited state meets a guard whose failure ends the loop at once. -/
theorem Ends.exact (keeps guard : σ → Prop) (result : ρ → Prop)
    (kept : ∀ s t, keeps s → guard s → body s = .inl t → keeps t)
    (holds : ∀ s r, keeps s → guard s → body s = .inr r → result r)
    (fails : ∀ s, keeps s → ¬ guard s → ∃ r, body s = .inr r ∧ ¬ result r) {s : σ} {r : ρ} (start : keeps s)
    (ends : Ends body s r) : result r ↔ ∀ t, Visits body s t → guard t := by
  induction ends with
  | @last s r stops =>
      simp only [visits_last stops, forall_eq]
      by_cases here : guard s
      · exact iff_of_true (holds s r start here stops) here
      · obtain ⟨result, stops', bad⟩ := fails s start here
        obtain rfl := Sum.inr.inj (stops.symm.trans stops')
        exact iff_of_false bad here
  | @next s t r goesOn later ih =>
      simp only [visits_next goesOn, forall_eq_or_imp]
      by_cases here : guard s
      · rw [ih (kept s t start here goesOn), and_iff_right here]
      · obtain ⟨result, stops, -⟩ := fails s start here
        exact absurd (stops.symm.trans goesOn) (by simp)

end Rules

end Loop
