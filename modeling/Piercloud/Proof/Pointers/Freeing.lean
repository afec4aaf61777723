import Piercloud.Proof.Pointers.Pushing

/-
This file shows that a list is freed whole, so a function that frees what it has made leaves the memory as it was.
-/

namespace Piercloud.Pointers

open CLib Loop Liblst Blocks Piercloud.Lists Ownership Assertion Program

/-- This is what the loop has not freed yet. -/
def unfreed (a : Nat) (owned : List (Nat × Bytes)) (i : Nat) : Assertion Content :=
  fact (i ≤ owned.length) * (pointsTo a (.cells (pointers owned)) * strings (owned.drop i))

/-- A round frees the string in its cell, and the last round finds the `NULL`. -/
theorem freeNext_frees (a : Nat) (owned : List (Nat × Bytes)) (i : Nat) :
    Triple (unfreed a owned i) (freeNext (some a) i)
      (Sum.elim (fun i' => fact (owned.length - i' < owned.length - i) * unfreed a owned i')
        fun _ => pointsTo a (.cells (pointers owned))) := by
  apply Triple.fact
  intro within
  unfold freeNext
  rcases within.lt_or_eq with inside | rfl
  · have cell : (pointers owned)[i]? = some (some owned[i].1) := by
      rw [pointers, List.getElem?_append_left (by simpa using inside)]
      simp [inside]
    apply cellAt_then cell
    have rest : strings (owned.drop i) =
        pointsTo owned[i].1 (.chars (owned[i].2 ++ [NUL])) * strings (owned.drop (i + 1)) := by
      rw [List.drop_eq_getElem_cons inside]
      rfl
    rw [rest, mul_left_comm]
    apply Triple.free_then
    apply Triple.ret
    rw [Sum.elim_inl, unfreed, fact_of (by omega), fact_of (by omega), one_mul, one_mul]
  · have cell : (pointers owned)[owned.length]? = some none := by simp [pointers]
    apply cellAt_then cell
    apply Triple.ret
    rw [Sum.elim_inr, List.drop_length]
    simp [strings]

/-- The array and all strings of a list are freed, each of them once. -/
theorem lstFree_frees (p : Ptr) (strs : List Bytes) : Triple (isList p strs) (lstFree p) fun _ => 1 := by
  cases p with
  | none =>
      apply Triple.ret
      exact fun h empty => empty.2
  | some a =>
      apply Triple.any
      intro owned
      apply Triple.fact
      rintro rfl
      unfold lstFree
      apply loadCells_then
      have start : listAt a owned = unfreed a owned 0 := by
        rw [unfreed, fact_of (Nat.zero_le _), one_mul, List.drop_zero, listAt]
      rw [← listAt, start]
      have enough : owned.length - 0 < (pointers owned).length + 1 := by simp [pointers]
      apply Triple.bind (Triple.repeatUntil (fun i => owned.length - i) (freeNext_frees a owned) enough)
      exact fun _ => Triple.free

/-- A field is in the list, or the list and the copy have been freed. -/
def FieldPushed (t : Nat) (bytes : Bytes) (value : Except Stop (Except Nat Nat × Lst × Allocs)) :
    Option Ptr × Allocs → Assertion Content
  | (some q, allocs) => any fun pushed : Nat × List Bytes =>
      fact (value = .ok (.ok pushed.1, toLst q pushed.2, allocs)) * (pointsTo t (.chars bytes) * isList q pushed.2)
  | (none, allocs) => any fun failed : Nat × Lst => fact (value = .ok (.error failed.1, failed.2, allocs))

theorem pushField_pushes {t b : Nat} {lst : Ptr} {strs : List Bytes} {bytes field : Bytes}
    (text : Block.stringAt bytes b = some field) (allocs : Allocs) :
    Triple (pointsTo t (.chars bytes) * isList lst strs) (pushField t b lst allocs)
      (FieldPushed t bytes (Lists.lstPush (toLst lst strs) (some field) allocs)) := by
  unfold pushField
  rw [mul_comm]
  apply Triple.bind (lstPush_pushed text allocs)
  rintro ⟨pushed, q, allocs'⟩
  rw [Pushed, any_star]
  apply Triple.any
  intro strs'
  rw [mul_assoc]
  apply Triple.fact
  intro value
  cases pushed with
  | error errno =>
      apply Triple.call (lstFree_frees q strs')
      intro _
      rw [one_mul, ← mul_one (pointsTo t _)]
      apply Triple.free_then
      apply Triple.ret
      exact fun h empty => ⟨⟨errno, toLst q strs'⟩, value, empty⟩
  | ok i =>
      apply Triple.ret
      intro h holds
      rw [mul_comm] at holds
      exact ⟨⟨i, strs'⟩, fact_star.mpr ⟨value, holds⟩⟩

/-- The scan on the memory stands where the scan on strings stands. -/
def scanAt (t : Nat) (s : Splitting) (v : Lists.Splitting) : Assertion Content :=
  any fun strs => fact (v.p = s.p ∧ v.b = s.b ∧ v.lst = toLst s.lst strs ∧ v.allocs = s.allocs) *
    (pointsTo t (.chars v.t) * isList s.lst strs)

/-- The result is the list that the scan on strings gives. -/
def Split (result : Except Stop (Lst × Allocs)) (r : Ptr × Allocs) : Assertion Content :=
  any fun strs => fact (result = .ok (toLst r.1 strs, r.2)) * isList r.1 strs

section Scan

variable {t : Nat} {splitter : UInt8} {result : Lst × Allocs} {v : Lists.Splitting} {c : UInt8}

/-- At the end of the string the last field is pushed, and the copy is freed. -/
theorem splitEnd_scans {s : Splitting} {strs : List Bytes} (here : v.t[s.p]? = some NUL) (place : v.p = s.p)
    (begun : v.b = s.b) (list : v.lst = toLst s.lst strs) (script : v.allocs = s.allocs)
    (last : ∀ r, settle (Lists.splitNext splitter v) = .inr r → r = .ok result) :
    Triple (pointsTo t (.chars v.t) * isList s.lst strs) (splitNext t splitter s)
      (Sum.elim (fun s' => any fun v' => fact (settle (Lists.splitNext splitter v) = .inl v') * scanAt t s' v')
        (Split (.ok result))) := by
  unfold splitNext
  apply loadChars_then
  rw [here]
  apply Triple.get_then
  rw [if_pos rfl]
  cases field : s.b with
  | none =>
      have stops : (.ok (toLst s.lst strs, s.allocs) : Except Stop _) = .ok result := by
        apply last
        simp only [Lists.splitNext, place, here, begun, field, access_some, bind, Except.bind, if_true, list, script]
        rfl
      apply Triple.free_then
      apply Triple.ret
      exact fun h holds => ⟨strs, fact_star.mpr ⟨stops.symm, holds⟩⟩
  | some b =>
      cases text : Block.stringAt v.t b with
      | none =>
          have stops := last (.error .outside) (by
            simp [Lists.splitNext, place, here, begun, field, text, access, bind, Except.bind, settle])
          contradiction
      | some str =>
          apply Triple.bind (pushField_pushes text s.allocs)
          rintro ⟨_ | q, allocs⟩
          · apply Triple.ret
            rintro h ⟨⟨errno, lst⟩, value, rfl⟩
            have stops : (.ok (none, allocs) : Except Stop _) = .ok result := by
              apply last
              simp only [Lists.splitNext, place, here, begun, field, text, access_some, bind, Except.bind, if_true,
                list, script, value]
              rfl
            exact ⟨[], fact_star.mpr ⟨stops.symm, rfl, rfl⟩⟩
          · apply Triple.any
            rintro ⟨i, strs'⟩
            apply Triple.fact
            intro value
            have stops : (.ok (toLst q strs', allocs) : Except Stop _) = .ok result := by
              apply last
              simp only [Lists.splitNext, place, here, begun, field, text, access_some, bind, Except.bind, if_true,
                list, script, value]
              rfl
            apply Triple.free_then
            apply Triple.ret
            exact fun h holds => ⟨strs', fact_star.mpr ⟨stops.symm, holds⟩⟩

/-- A splitter ends the field that has begun. -/
theorem splitField_scans {s : Splitting} {strs : List Bytes} (here : v.t[s.p]? = some splitter)
    (real : splitter ≠ NUL) (place : v.p = s.p)
    (begun : v.b = s.b) (list : v.lst = toLst s.lst strs) (script : v.allocs = s.allocs)
    (last : ∀ r, settle (Lists.splitNext splitter v) = .inr r → r = .ok result) :
    Triple (pointsTo t (.chars v.t) * isList s.lst strs) (splitNext t splitter s)
      (Sum.elim (fun s' => any fun v' => fact (settle (Lists.splitNext splitter v) = .inl v') * scanAt t s' v')
        (Split (.ok result))) := by
  have cut : Block.poke v.t s.p NUL = some (v.t.set s.p NUL) := by
    obtain ⟨inside, -⟩ := List.getElem?_eq_some_iff.mp here
    rw [Block.poke, if_pos inside]
  unfold splitNext
  apply loadChars_then
  rw [here]
  apply Triple.get_then
  rw [if_neg real, if_pos rfl]
  apply Triple.store_then
  cases field : s.b with
  | none =>
      have goesOn : settle (Lists.splitNext splitter v) = .inl { v with t := v.t.set s.p NUL, p := s.p + 1 } := by
        simp only [Lists.splitNext, place, here, begun, field, access_some, bind, Except.bind, if_neg real, if_true,
          cut]
        rfl
      apply Triple.ret
      intro h holds
      refine ⟨_, fact_star.mpr ⟨goesOn, strs, fact_star.mpr ⟨⟨rfl, ?_, list, script⟩, holds⟩⟩⟩
      exact begun.trans field
  | some b =>
      cases text : Block.stringAt (v.t.set s.p NUL) b with
      | none =>
          have stops := last (.error .outside) (by
            simp [Lists.splitNext, place, here, begun, field, text, access, bind, Except.bind, settle, real, cut])
          contradiction
      | some str =>
          apply Triple.bind (pushField_pushes text s.allocs)
          rintro ⟨_ | q, allocs⟩
          · apply Triple.ret
            rintro h ⟨⟨errno, lst⟩, value, rfl⟩
            have stops : (.ok (none, allocs) : Except Stop _) = .ok result := by
              apply last
              simp only [Lists.splitNext, place, here, begun, field, text, access_some, bind, Except.bind, if_neg real,
                if_true, list, script, value, cut]
              rfl
            exact ⟨[], fact_star.mpr ⟨stops.symm, rfl, rfl⟩⟩
          · apply Triple.any
            rintro ⟨i, strs'⟩
            apply Triple.fact
            intro value
            have goesOn : settle (Lists.splitNext splitter v) =
                .inl ⟨v.t.set s.p NUL, s.p + 1, none, toLst q strs', allocs⟩ := by
              simp only [Lists.splitNext, place, here, begun, field, text, access_some, bind, Except.bind, if_neg real,
                if_true, list, script, value, cut]
              rfl
            apply Triple.ret
            exact fun h holds =>
              ⟨_, fact_star.mpr ⟨goesOn, strs', fact_star.mpr ⟨⟨rfl, rfl, rfl, rfl⟩, holds⟩⟩⟩

/-- The scan on the memory goes with the scan on strings. -/
theorem splitNext_scans {s : Splitting} (last : ∀ r, settle (Lists.splitNext splitter v) = .inr r → r = .ok result) :
    Triple (scanAt t s v) (splitNext t splitter s)
      (Sum.elim (fun s' => any fun v' => fact (settle (Lists.splitNext splitter v) = .inl v') * scanAt t s' v')
        (Split (.ok result))) := by
  apply Triple.any
  intro strs
  apply Triple.fact
  rintro ⟨place, begun, list, script⟩
  cases here : v.t[s.p]? with
  | none =>
      have stops := last (.error .outside) (by simp [Lists.splitNext, place, here, access, settle, bind, Except.bind])
      contradiction
  | some c =>
      by_cases ends : c = NUL
      · exact splitEnd_scans (ends ▸ here) place begun list script last
      · by_cases splits : c = splitter
        · subst splits
          exact splitField_scans here ends place begun list script last
        · have goesOn : settle (Lists.splitNext splitter v) =
              .inl { v with p := s.p + 1, b := some (s.b.getD s.p) } := by
            simp only [Lists.splitNext, place, here, begun, access_some, bind, Except.bind, if_neg ends, if_neg splits]
            rfl
          unfold splitNext
          apply loadChars_then
          rw [here]
          apply Triple.get_then
          rw [if_neg ends, if_neg splits]
          apply Triple.ret
          exact fun h holds =>
            ⟨_, fact_star.mpr ⟨goesOn, strs, fact_star.mpr ⟨⟨rfl, rfl, list, script⟩, holds⟩⟩⟩

end Scan

/-- The scan on strings is inside its copy, and its list is well formed. -/
def Inside (size : Nat) (v : Lists.Splitting) : Prop :=
  ∃ body, v.t = body ++ [NUL] ∧ body.length = size ∧ v.p ≤ size ∧ (∀ b, v.b = some b → b ≤ size) ∧
    ∃ strs, Terminated v.lst strs

theorem stringAt_inside {body : Bytes} {b : Nat} (within : b ≤ body.length) :
    ∃ str, Block.stringAt (body ++ [NUL]) b = some str := by
  have ends : NUL ∈ (body ++ [NUL]).drop b := by
    rw [List.drop_append_of_le_length within]
    simp
  exact ⟨_, by rw [Block.stringAt, if_pos ends]⟩

theorem lstPush_terminated {lst : Lst} {strs : List Bytes} (terminated : Terminated lst strs) (str : Bytes)
    (allocs : Allocs) : ∃ pushed lst' allocs', Lists.lstPush lst (some str) allocs = .ok (pushed, lst', allocs') ∧
      ∃ strs', Terminated lst' strs' := by
  by_cases memory : false ∈ allocs.take (needs lst)
  · have fails : some str = none ∨ false ∈ allocs.take (needs lst) := Or.inr memory
    obtain ⟨errno, lst', allocs', pushed, rfl | ⟨rfl, rfl⟩⟩ := lstPush_kept terminated fails
    · exact ⟨_, _, _, pushed, strs, terminated⟩
    · exact ⟨_, _, _, pushed, [], Or.inr ⟨[], rfl⟩⟩
  · exact ⟨_, _, _, lstPush_ok terminated str memory, strs ++ [cstr str], Or.inr ⟨[], rfl⟩⟩

/-- A round of the scan on strings stays inside, or it is the last one. -/
theorem splitNext_inside (splitter : UInt8) {size : Nat} {v : Lists.Splitting} (inside : Inside size v) :
    (∃ v', settle (Lists.splitNext splitter v) = .inl v' ∧ Inside size v' ∧ v'.p = v.p + 1) ∨
      ∃ result, settle (Lists.splitNext splitter v) = .inr (.ok result) := by
  obtain ⟨body, copy, rfl, place, begun, strs, terminated⟩ := inside
  obtain ⟨c, here⟩ : ∃ c, v.t[v.p]? = some c := by
    rw [copy, List.getElem?_eq_getElem (by simp; omega)]
    exact ⟨_, rfl⟩
  by_cases ends : c = NUL
  · right
    cases field : v.b with
    | none =>
        refine ⟨(v.lst, v.allocs), ?_⟩
        simp [Lists.splitNext, here, ends, field, bind, Except.bind, settle, pure, Except.pure]
    | some b =>
        obtain ⟨str, text⟩ := stringAt_inside (begun b field)
        rw [← copy] at text
        obtain ⟨pushed, lst', allocs', value, -⟩ := lstPush_terminated terminated str v.allocs
        refine ⟨(match pushed with | .error _ => none | .ok _ => lst', allocs'), ?_⟩
        cases pushed <;> simp [Lists.splitNext, here, ends, field, text, value, bind, Except.bind, settle, pure,
          Except.pure]
  · have before : v.p < body.length := by
      apply lt_of_le_of_ne place
      intro last
      rw [copy, last, List.getElem?_append_right le_rfl] at here
      simp at here
      exact ends here.symm
    by_cases splits : c = splitter
    · have cut : Block.poke v.t v.p NUL = some (body.set v.p NUL ++ [NUL]) := by
        rw [copy, Block.poke, if_pos (by simp; omega), List.set_append_left _ _ before]
      subst splits
      cases field : v.b with
      | none =>
          left
          have goesOn : settle (Lists.splitNext c v) =
              .inl { v with t := body.set v.p NUL ++ [NUL], p := v.p + 1 } := by
            simp only [Lists.splitNext, here, access_some, bind, Except.bind, if_neg ends, if_true, cut, field]
            rfl
          exact ⟨_, goesOn, ⟨_, rfl, by simp, before, by simp [field], strs, terminated⟩, rfl⟩
      | some b =>
          have within : b ≤ (body.set v.p NUL).length := by simpa using begun b field
          obtain ⟨str, text⟩ := stringAt_inside within
          obtain ⟨pushed, lst', allocs', value, strs', terminated'⟩ := lstPush_terminated terminated str v.allocs
          cases pushed with
          | error errno =>
              right
              refine ⟨(none, allocs'), ?_⟩
              simp [Lists.splitNext, here, ends, field, cut, text, value, bind, Except.bind, settle, pure, Except.pure]
          | ok i =>
              left
              have goesOn : settle (Lists.splitNext c v) =
                  .inl ⟨body.set v.p NUL ++ [NUL], v.p + 1, none, lst', allocs'⟩ := by
                simp only [Lists.splitNext, here, access_some, bind, Except.bind, if_neg ends, if_true, cut, field,
                  text, value]
                rfl
              exact ⟨_, goesOn, ⟨_, rfl, by simp, before, by simp, strs', terminated'⟩, rfl⟩
    · left
      have goesOn : settle (Lists.splitNext splitter v) = .inl { v with p := v.p + 1, b := some (v.b.getD v.p) } := by
        simp only [Lists.splitNext, here, access_some, bind, Except.bind, if_neg ends, if_neg splits]
        rfl
      refine ⟨_, goesOn, ⟨body, copy, rfl, before, ?_, strs, terminated⟩, rfl⟩
      rintro b same
      obtain rfl := Option.some.inj same
      cases field : v.b with
      | none => exact place
      | some b => exact begun b field

/-- The scan on strings has a result, whatever memory it finds. -/
theorem lstSplitStr_returns (splitter : UInt8) {s str : Bytes} (text : Block.stringAt s 0 = some str)
    (allocs : Allocs) : ∃ result, Lists.lstSplitStr splitter (some s) allocs = some (.ok result) := by
  have ends : ∀ fuel v, Inside str.length v → str.length < v.p + fuel →
      ∃ result, loop (fun v => settle (Lists.splitNext splitter v)) fuel v = some (.ok result) := by
    intro fuel
    induction fuel with
    | zero =>
        rintro v ⟨-, -, -, place, -⟩ enough
        omega
    | succ fuel ih =>
        intro v inside enough
        rcases splitNext_inside splitter inside with ⟨v', goesOn, inside', place⟩ | ⟨result, stops⟩
        · obtain ⟨result, later⟩ := ih v' inside' (by omega)
          exact ⟨result, by rw [loop, goesOn]; exact later⟩
        · exact ⟨result, by rw [loop, stops]⟩
  rcases first : allocated allocs with ⟨_ | _, allocs'⟩
  · exact ⟨(none, allocs'), by simp [Lists.lstSplitStr, text, first]⟩
  · simp only [Lists.lstSplitStr, text, access_some, first]
    apply ends
    · exact ⟨str, rfl, rfl, Nat.zero_le _, by simp, [], Or.inl ⟨rfl, rfl⟩⟩
    · omega

/-- The function on the memory gives the list that the function on strings gives, and it owns nothing else. -/
theorem lstSplitStr_splits {splitter : UInt8} {a place : Nat} {bytes str : Bytes} {allocs : Allocs}
    {result : Lst × Allocs} (text : Block.stringAt bytes place = some str)
    (returns : Lists.lstSplitStr splitter (some (bytes.drop place)) allocs = some (.ok result)) :
    Triple (pointsTo a (.chars bytes)) (lstSplitStr splitter (some (a, place)) allocs)
      fun r => Split (.ok result) r * pointsTo a (.chars bytes) := by
  have text' : Block.stringAt (bytes.drop place) 0 = some str := by rwa [Block.stringAt, List.drop_zero]
  refine Triple.mono ?_ (mul_one _).symm.le fun _ => le_rfl
  apply loadText_then text
  rcases first : allocated allocs with ⟨found, allocs'⟩
  dsimp only
  apply Triple.malloc_then
  · rintro rfl
    simp only [Lists.lstSplitStr, text', access_some, first] at returns
    obtain rfl := Except.ok.inj (Option.some.inj returns)
    have nothing : 1 ≤ Split (.ok (none, allocs')) (none, allocs') :=
      fun h empty => ⟨[], fact_star.mpr ⟨rfl, rfl, empty⟩⟩
    apply Triple.ret
    rw [mul_comm]
    exact mul_le_mul_left nothing _
  · rintro rfl t
    simp only [Lists.lstSplitStr, text', access_some, first] at returns
    have scan := Triple.repeatUntil_loop (I := scanAt t) (fun s v last => splitNext_scans last) returns
      (s := ⟨0, none, none, allocs'⟩)
    apply (scan.frame (pointsTo a (.chars bytes))).mono _ fun _ => le_rfl
    rw [mul_one]
    apply mul_le_mul_left
    intro h holds
    refine ⟨[], fact_star.mpr ⟨⟨rfl, rfl, rfl, rfl⟩, ?_⟩⟩
    rwa [isList, fact_of rfl, mul_one]

end Piercloud.Pointers
