import Piercloud.Construction.Collecting
import Piercloud.Proof.Pointers.Freeing

/-
This file shows which rows `getEnv` and `lstEgrep` put into their lists, and that they own nothing else.
-/

namespace Piercloud.Pointers

open CLib Loop Liblst Blocks Piercloud.Lists Ownership Assertion Program

/-- The string is behind the others, or a call for memory has failed and the list is as it was. -/
def Appends (strs : List Bytes) (s : Bytes) (allocs : Allocs) (r : Except Nat Nat × Ptr × Allocs)
    (strs' : List Bytes) : Prop :=
  ((∃ i, r.1 = .ok i) ∧ strs' = strs ++ [s] ∨ (∃ errno, r.1 = .error errno) ∧ strs' = strs ∧ false ∈ allocs) ∧
    (false ∉ allocs → false ∉ r.2.2)

theorem not_mem_drop {allocs : Allocs} (met : false ∉ allocs) (n : Nat) : false ∉ allocs.drop n :=
  fun later => met (List.mem_of_mem_drop later)

/-- The two ways a push on strings ends are the two ways a push on the memory ends. -/
theorem pushed_appends {p : Ptr} {strs : List Bytes} {s : Bytes} (clean : NUL ∉ s) (allocs : Allocs)
    (null : p = none → strs = []) (r : Except Nat Nat × Ptr × Allocs) :
    Pushed (Lists.lstPush (toLst p strs) (some s) allocs) r ≤
      any fun strs' => fact (Appends strs s allocs r strs') * isList r.2.1 strs' := by
  have terminated : Terminated (toLst p strs) strs := by
    cases p with
    | none => exact Or.inl ⟨rfl, null rfl⟩
    | some a => exact Or.inr ⟨[], rfl⟩
  rintro h ⟨strs', holds⟩
  rw [fact_star] at holds
  obtain ⟨value, owned⟩ := holds
  by_cases memory : false ∈ allocs.take (needs (toLst p strs))
  · have missing : some s = none ∨ false ∈ allocs.take (needs (toLst p strs)) := Or.inr memory
    obtain ⟨errno, lst', allocs', fails, kept⟩ := lstPush_kept terminated missing
    rw [fails] at value
    have given := Except.ok.inj value
    have same : strs' = strs := by
      have list : lst' = toLst r.2.1 strs' := congrArg (fun t => t.2.1) given
      cases place : r.2.1 with
      | none =>
          rw [place] at list owned
          rcases kept with kept | ⟨-, rfl⟩
          · cases p with
            | none => rw [owned.1, null rfl]
            | some a => rw [list] at kept; contradiction
          · contradiction
      | some a =>
          rw [place] at list
          rcases kept with kept | ⟨rfl, rfl⟩
          · cases p with
            | none => rw [list] at kept; contradiction
            | some a => exact array_inj (Option.some.inj (list.symm.trans kept))
          · exact (array_inj (Option.some.inj list : array [] = array strs')).symm
    refine ⟨strs', fact_star.mpr ⟨⟨Or.inr ⟨⟨errno, (congrArg Prod.fst given).symm⟩, same, ?_⟩, ?_⟩, owned⟩⟩
    · exact List.mem_of_mem_take memory
    · exact fun met => (met (List.mem_of_mem_take memory)).elim
  · rw [lstPush_ok terminated s memory, cstr_eq_self clean] at value
    have given := Except.ok.inj value
    have list : some (array (strs ++ [s])) = toLst r.2.1 strs' := congrArg (fun t => t.2.1) given
    have same : strs' = strs ++ [s] := by
      cases place : r.2.1 with
      | none => rw [place] at list; contradiction
      | some a =>
          rw [place] at list
          exact (array_inj (Option.some.inj list)).symm
    refine ⟨strs', fact_star.mpr ⟨⟨Or.inl ⟨⟨_, (congrArg Prod.fst given).symm⟩, same⟩, ?_⟩, owned⟩⟩
    have rest : allocs.drop (needs (toLst p strs)) = r.2.2 := congrArg (fun t => t.2.2) given
    exact fun met => rest ▸ not_mem_drop met _

/-- A list at `NULL` has no strings. -/
theorem isList_null {p : Ptr} {strs : List Bytes} {P : Assertion Content} {α : Type} {c : Program Content α}
    {Q : α → Assertion Content} (triple : (p = none → strs = []) → Triple (isList p strs * P) c Q) :
    Triple (isList p strs * P) c Q := by
  cases p with
  | none => exact Triple.fact fun empty => by simpa [isList, fact_of empty] using triple fun _ => empty
  | some a => exact triple (by simp)

theorem lstPush_appends {p : Ptr} {strs : List Bytes} {t place : Nat} {bytes s : Bytes}
    (text : Block.stringAt bytes place = some s) (allocs : Allocs) :
    Triple (isList p strs * pointsTo t (.chars bytes)) (lstPush p (some (t, place)) allocs)
      fun r => any fun strs' => fact (Appends strs s allocs r strs') *
        (isList r.2.1 strs' * pointsTo t (.chars bytes)) := by
  apply isList_null
  intro null
  apply (lstPush_pushed text allocs).mono le_rfl
  intro r
  have appends := pushed_appends (stringAt_clean text) allocs null r
  refine (mul_le_mul_left appends _).trans (le_of_eq ?_)
  rw [any_star]
  simp only [mul_assoc]

section Rows

variable {α : Type} {P : Assertion Content} {Q : α → Assertion Content} {a i : Nat} {owned : List (Nat × Bytes)}

theorem listCell_then {q : Ptr} {k : Ptr → Program Content α} (here : (pointers owned)[i]? = some q)
    (rest : Triple (listAt a owned * P) (k q) Q) : Triple (listAt a owned * P) (cellAt (some a) i >>= k) Q := by
  rw [listAt, mul_assoc] at rest ⊢
  exact cellAt_then here rest

theorem pointers_inside (inside : i < owned.length) : (pointers owned)[i]? = some (some owned[i].1) := by
  rw [pointers, List.getElem?_append_left (by simpa using inside)]
  simp [inside]

theorem pointers_end (owned : List (Nat × Bytes)) : (pointers owned)[owned.length]? = some none := by simp [pointers]

/-- These are the blocks of a list apart from one of its strings. -/
def otherRows (a : Nat) (owned : List (Nat × Bytes)) (i : Nat) : Assertion Content :=
  pointsTo a (.cells (pointers owned)) * (strings (owned.take i) * strings (owned.drop (i + 1)))

theorem listAt_row (inside : i < owned.length) :
    listAt a owned = pointsTo owned[i].1 (.chars (owned[i].2 ++ [NUL])) * otherRows a owned i := by
  have parts : strings owned =
      strings (owned.take i) * (pointsTo owned[i].1 (.chars (owned[i].2 ++ [NUL])) * strings (owned.drop (i + 1))) := by
    have row : strings (owned.drop i) =
        pointsTo owned[i].1 (.chars (owned[i].2 ++ [NUL])) * strings (owned.drop (i + 1)) := by
      rw [List.drop_eq_getElem_cons inside]
      rfl
    rw [← row]
    simp only [strings, ← List.prod_append, ← List.map_append, List.take_append_drop]
  rw [listAt, parts, otherRows, mul_left_comm (strings _), mul_left_comm]

/-- A string of a list that is clean stands at the front of its block. -/
theorem row_text (clean : ∀ s ∈ owned.map Prod.snd, NUL ∉ s) (inside : i < owned.length) :
    Block.stringAt (owned[i].2 ++ [NUL]) 0 = some owned[i].2 :=
  Block.stringAt_zero (clean _ (List.mem_map_of_mem (List.getElem_mem inside))) []

end Rows

section Environment

variable {e : Nat} {owned : List (Nat × Bytes)}

/-- These rows have found memory, and the rows are all of them when every call has found memory. -/
def Gathered (rows strs : List Bytes) (allocs allocs' : Allocs) : Prop :=
  strs.Sublist rows ∧ (false ∉ allocs → strs = rows ∧ false ∉ allocs')

/-- The first rows have been pushed. -/
def gathering (e : Nat) (owned : List (Nat × Bytes)) (allocs : Allocs) (s : Nat × Ptr × Allocs) : Assertion Content :=
  any fun strs => fact (s.1 ≤ owned.length ∧ Gathered ((owned.map Prod.snd).take s.1) strs allocs s.2.2) *
    (isList s.2.1 strs * listAt e owned)

theorem take_row {i : Nat} (inside : i < owned.length) :
    (owned.map Prod.snd).take (i + 1) = (owned.map Prod.snd).take i ++ [owned[i].2] := by
  rw [List.take_succ_eq_append_getElem (by simpa using inside)]
  simp

theorem Gathered.push {i : Nat} {strs strs' : List Bytes} {allocs allocs' : Allocs} (inside : i < owned.length)
    (gathered : Gathered ((owned.map Prod.snd).take i) strs allocs allocs') {r : Except Nat Nat × Ptr × Allocs}
    (appends : Appends strs owned[i].2 allocs' r strs') :
    Gathered ((owned.map Prod.snd).take (i + 1)) strs' allocs r.2.2 := by
  obtain ⟨below, full⟩ := gathered
  obtain ⟨ended, met⟩ := appends
  rw [take_row inside]
  rcases ended with ⟨-, rfl⟩ | ⟨-, rfl, failed⟩
  · constructor
    · exact below.append (List.Sublist.refl _)
    · intro every
      obtain ⟨rfl, every'⟩ := full every
      exact ⟨rfl, met every'⟩
  · constructor
    · exact below.trans (List.sublist_append_left _ _)
    · exact fun every => ((full every).2 failed).elim

/-- A round pushes the next row or skips it, and the environment stays as it is. -/
theorem pushNext_gathers (clean : ∀ s ∈ owned.map Prod.snd, NUL ∉ s) (allocs : Allocs) (s : Nat × Ptr × Allocs) :
    Triple (gathering e owned allocs s) (pushNext (some e) s)
      (Sum.elim (fun s' => fact (owned.length - s'.1 < owned.length - s.1) * gathering e owned allocs s')
        fun r => any fun strs => fact (Gathered (owned.map Prod.snd) strs allocs r.2) *
          (isList r.1 strs * listAt e owned)) := by
  obtain ⟨i, lst, allocs'⟩ := s
  apply Triple.any
  intro strs
  apply Triple.fact
  rintro ⟨within, gathered⟩
  rw [mul_comm]
  rcases Nat.lt_or_eq_of_le within with inside | rfl
  · apply listCell_then (pointers_inside inside)
    rw [listAt_row inside, mul_comm, ← mul_assoc]
    apply Triple.call (lstPush_appends (row_text clean inside) allocs')
    rintro ⟨pushed, lst', allocs''⟩
    rw [any_star]
    apply Triple.any
    intro strs'
    rw [mul_assoc, mul_assoc, ← listAt_row inside]
    apply Triple.fact
    intro appends
    apply Triple.ret
    intro h holds
    refine fact_star.mpr ⟨?_, strs', fact_star.mpr ⟨⟨inside, gathered.push inside appends⟩, holds⟩⟩
    exact Nat.sub_succ_lt_self _ _ inside
  · apply listCell_then (pointers_end owned)
    apply Triple.ret
    intro h holds
    rw [mul_comm] at holds
    rw [← List.length_map (f := Prod.snd), List.take_length] at gathered
    exact ⟨strs, fact_star.mpr ⟨gathered, holds⟩⟩

theorem getEnv_gathers (clean : ∀ s ∈ owned.map Prod.snd, NUL ∉ s) (allocs : Allocs) :
    Triple (listAt e owned) (getEnv (some e) allocs) fun r =>
      any fun strs => fact (Gathered (owned.map Prod.snd) strs allocs r.2) * (isList r.1 strs * listAt e owned) := by
  unfold getEnv
  rw [listAt]
  apply loadCells_then
  rw [← listAt]
  have enough : owned.length - 0 < (pointers owned).length + 1 := by simp [pointers]
  apply (Triple.repeatUntil (fun s => owned.length - s.1) (pushNext_gathers clean allocs) enough).mono
  · intro h holds
    refine ⟨[], fact_star.mpr ⟨⟨Nat.zero_le _, List.Sublist.refl _, fun met => ⟨rfl, met⟩⟩, ?_⟩⟩
    rwa [isList, fact_of rfl, one_mul]
  · exact fun _ => le_rfl

end Environment

section Egrep

variable {a : Nat} {owned : List (Nat × Bytes)} {regexec : Bytes → Bool} {allocs : Allocs}

theorem allocated_met (met : false ∉ allocs) : (allocated allocs).1 = true ∧ false ∉ (allocated allocs).2 := by
  rcases allocs with _ | ⟨_ | _, allocs⟩
  · simp [allocated]
  · simp at met
  · exact ⟨rfl, fun later => met (List.mem_cons_of_mem _ later)⟩

/-- The first rows that match have been pushed. -/
def matching (a : Nat) (owned : List (Nat × Bytes)) (regexec : Bytes → Bool) (allocs : Allocs)
    (s : Nat × Ptr × Allocs) : Assertion Content :=
  any fun strs => fact (s.1 ≤ owned.length ∧ strs = ((owned.map Prod.snd).take s.1).filter regexec ∧
    (false ∉ allocs → false ∉ s.2.2)) * (isList s.2.1 strs * listAt a owned)

/-- The list has all rows that match, or a call for memory has failed and there is no list. -/
def Matched (rows : List Bytes) (regexec : Bytes → Bool) (allocs : Allocs) (strs : List Bytes) (r : Ptr × Allocs) :
    Prop :=
  (strs = rows.filter regexec ∨ r.1 = none ∧ false ∈ allocs) ∧ (false ∉ allocs → false ∉ r.2)

/-- A list that is given up leaves nothing. -/
theorem egrep_fails {r : Ptr × Allocs} {P : Assertion Content} (none : r.1 = none) (failed : false ∈ allocs) :
    P ≤ any fun strs => fact (Matched (owned.map Prod.snd) regexec allocs strs r) * (isList r.1 strs * P) := by
  intro h holds
  refine ⟨[], fact_star.mpr ⟨⟨Or.inr ⟨none, failed⟩, fun met => (met failed).elim⟩, ?_⟩⟩
  rwa [none, isList, fact_of rfl, one_mul]

/-- A row that matches is pushed, or the new list is given up; the pattern is freed. -/
theorem egrepPush_matches {lst : Ptr} {strs : List Bytes} {allocs' : Allocs} {i preg : Nat}
    (inside : i < owned.length) (clean : ∀ s ∈ owned.map Prod.snd, NUL ∉ s) (matches' : regexec owned[i].2 = true)
    (matched : strs = ((owned.map Prod.snd).take i).filter regexec) (kept : false ∉ allocs → false ∉ allocs') :
    Triple (isList lst strs * (pointsTo preg (.chars []) * listAt a owned))
      (do
        let (pushed, newLst, allocs) ← lstPush lst (some (owned[i].1, 0)) allocs'
        match pushed with
        | .error _ =>
            lstFree newLst
            free (some preg)
            return .inr (none, allocs)
        | .ok _ =>
            free (some preg)
            return .inl (i + 1, newLst, allocs))
      (Sum.elim (fun s' => fact (owned.length - s'.1 < owned.length - i) * matching a owned regexec allocs s')
        fun r => any fun strs => fact (Matched (owned.map Prod.snd) regexec allocs strs r) *
          (isList r.1 strs * listAt a owned)) := by
  have order : isList lst strs * (pointsTo preg (.chars []) * listAt a owned) =
      isList lst strs * pointsTo owned[i].1 (.chars (owned[i].2 ++ [NUL])) *
        (pointsTo preg (.chars []) * otherRows a owned i) := by
    rw [listAt_row inside]
    ac_rfl
  apply Triple.order order
  apply Triple.call (lstPush_appends (row_text clean inside) allocs')
  rintro ⟨pushed, lst', allocs''⟩
  rw [any_star]
  apply Triple.any
  intro strs'
  rw [mul_assoc]
  apply Triple.fact
  rintro ⟨ended, met⟩
  have order' : isList lst' strs' * pointsTo owned[i].1 (.chars (owned[i].2 ++ [NUL])) *
      (pointsTo preg (.chars []) * otherRows a owned i) =
        pointsTo preg (.chars []) * (isList lst' strs' * listAt a owned) := by
    rw [listAt_row inside]
    ac_rfl
  apply Triple.order order'
  rcases ended with ⟨⟨j, rfl⟩, rfl⟩ | ⟨⟨errno, rfl⟩, rfl, failed⟩
  · apply Triple.free_then
    apply Triple.ret
    intro h holds
    refine fact_star.mpr ⟨Nat.sub_succ_lt_self _ _ inside, _, fact_star.mpr ⟨⟨inside, ?_, ?_⟩, holds⟩⟩
    · rw [take_row inside, List.filter_append, ← matched, List.filter_singleton, matches']
      rfl
    · exact fun every => met (kept every)
  · have missing : false ∈ allocs := by
      by_contra every
      exact kept every failed
    rw [mul_left_comm]
    apply Triple.call (lstFree_frees lst' strs')
    intro _
    rw [one_mul]
    apply Triple.free_then
    exact Triple.ret (egrep_fails rfl missing)

/-- A round frees the pattern, and it pushes the row, skips it or gives up. -/
theorem egrepNext_matches (clean : ∀ s ∈ owned.map Prod.snd, NUL ∉ s) (s : Nat × Ptr × Allocs) :
    Triple (matching a owned regexec allocs s) (egrepNext regexec (some a) s)
      (Sum.elim (fun s' => fact (owned.length - s'.1 < owned.length - s.1) * matching a owned regexec allocs s')
        fun r => any fun strs => fact (Matched (owned.map Prod.snd) regexec allocs strs r) *
          (isList r.1 strs * listAt a owned)) := by
  obtain ⟨i, lst, allocs'⟩ := s
  apply Triple.any
  intro strs
  apply Triple.fact
  rintro ⟨within, matched, kept⟩
  dsimp only at within matched kept ⊢
  rw [mul_comm]
  rcases Nat.lt_or_eq_of_le within with inside | rfl
  · apply listCell_then (pointers_inside inside)
    have met := fun every => allocated_met (kept every)
    rcases first : allocated allocs' with ⟨found, allocs''⟩
    rw [first] at met
    apply Triple.malloc_then
    · rintro rfl
      have missing : false ∈ allocs := by
        by_contra every
        exact absurd (met every).1 (by simp)
      rw [mul_comm]
      apply Triple.call (lstFree_frees lst strs)
      intro _
      rw [one_mul]
      exact Triple.ret (egrep_fails rfl missing)
    · rintro rfl preg
      have order : pointsTo preg (.chars []) * (listAt a owned * isList lst strs) =
          pointsTo owned[i].1 (.chars (owned[i].2 ++ [NUL])) *
            (otherRows a owned i * (pointsTo preg (.chars []) * isList lst strs)) := by
        rw [listAt_row inside]
        ac_rfl
      have order' : pointsTo preg (.chars []) * (isList lst strs * listAt a owned) =
          pointsTo preg (.chars []) * (listAt a owned * isList lst strs) := by
        ac_rfl
      apply Triple.order order
      apply loadText_then (row_text clean inside)
      rw [← order]
      by_cases matches' : regexec owned[i].2 = true
      · rw [if_pos matches', ← order', mul_left_comm]
        exact egrepPush_matches inside clean matches' matched fun every => (met every).2
      · rw [if_neg matches', ← order']
        apply Triple.free_then
        apply Triple.ret
        intro h holds
        refine fact_star.mpr ⟨Nat.sub_succ_lt_self _ _ inside, _, fact_star.mpr ⟨⟨inside, ?_, ?_⟩, holds⟩⟩
        · rw [take_row inside, List.filter_append, ← matched, List.filter_singleton]
          simp [matches']
        · exact fun every => (met every).2
  · apply listCell_then (pointers_end owned)
    apply Triple.ret
    intro h holds
    rw [mul_comm] at holds
    rw [← List.length_map (f := Prod.snd), List.take_length] at matched
    exact ⟨strs, fact_star.mpr ⟨⟨Or.inl matched, kept⟩, holds⟩⟩

theorem lstEgrep_matches (regexec : Bytes → Bool) {p : Ptr} {strs : List Bytes} (clean : ∀ s ∈ strs, NUL ∉ s)
    (allocs : Allocs) :
    Triple (isList p strs) (lstEgrep regexec p allocs) fun r =>
      any fun strs' => fact (Matched strs regexec allocs strs' r) * (isList r.1 strs' * isList p strs) := by
  cases p with
  | none =>
      apply Triple.ret
      intro h holds
      obtain ⟨rfl, rfl⟩ := holds
      refine ⟨[], fact_star.mpr ⟨⟨Or.inl rfl, id⟩, ?_⟩⟩
      rw [isList, fact_of rfl, one_mul]
      rfl
  | some a =>
      apply Triple.any
      intro owned
      apply Triple.fact
      rintro rfl
      unfold lstEgrep
      rw [listAt]
      apply loadCells_then
      rw [← listAt]
      have enough : owned.length - 0 < (pointers owned).length + 1 := by simp [pointers]
      apply (Triple.repeatUntil (fun s => owned.length - s.1) (egrepNext_matches clean) enough).mono
      · intro h holds
        refine ⟨[], fact_star.mpr ⟨⟨Nat.zero_le _, rfl, id⟩, ?_⟩⟩
        rwa [isList, fact_of rfl, one_mul]
      · rintro r h ⟨strs', holds⟩
        rw [fact_star] at holds
        obtain ⟨matched, holds⟩ := holds
        refine ⟨strs', fact_star.mpr ⟨matched, star_mono le_rfl ?_ h holds⟩⟩
        exact fun h' list => ⟨owned, fact_star.mpr ⟨rfl, list⟩⟩

end Egrep

end Piercloud.Pointers
