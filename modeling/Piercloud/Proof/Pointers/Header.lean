import Piercloud.Proof.Pointers.Collecting
import Piercloud.Proof.Pointers.Cutting

/-
This file shows how the strings of `Pier` are made, collected and grow when every call for memory finds it.
-/

namespace Piercloud.Pointers

open CLib Loop Liblst Blocks Piercloud.Lists Ownership Assertion Program Cgi

/-- A variable for a string is at this address. -/
def variableAt (ptr : Nat) : Assertion Content := any fun q : Ptr => pointsTo ptr (.cells [q])

theorem held_eq (ptr q : Nat) (bytes : Bytes) :
    held ⟨ptr, q, bytes⟩ = pointsTo ptr (.cells [some q]) * pointsTo q (.chars bytes) := rfl

theorem cell_le (ptr q : Nat) : pointsTo ptr (Content.cells [some q]) ≤ variableAt ptr := fun _ holds => ⟨some q, holds⟩

theorem dangling_le (entry : Entry) : dangling entry ≤ variableAt entry.ptr := cell_le entry.ptr entry.q

theorem allocated_found {allocs : Allocs} (met : false ∉ allocs) :
    ∃ allocs', allocated allocs = (true, allocs') ∧ false ∉ allocs' := by
  obtain ⟨found, met'⟩ := allocated_met met
  exact ⟨_, Prod.ext found rfl, met'⟩

section Making

variable {α : Type} {P : Assertion Content} {Q : α → Assertion Content} {allocs : Allocs}

/-- A call that finds memory gives a new block. -/
theorem malloc_met {b : Content} {k : Option Nat → Program Content α}
    (placed : ∀ a, Triple (pointsTo a b * P) (k (some a)) Q) : Triple P (malloc true b >>= k) Q :=
  Triple.malloc_then (by simp) fun _ => placed

theorem String_then {str : Bytes} (met : false ∉ allocs) {k : Ptr × Allocs → Program Content α}
    (made : ∀ q allocs', false ∉ allocs' → Triple (pointsTo q (.chars (str ++ [NUL])) * P) (k (some q, allocs')) Q) :
    Triple P (String str allocs >>= k) Q := by
  obtain ⟨allocs', first, met'⟩ := allocated_found met
  rw [String, first, bind_assoc]
  apply malloc_met
  exact fun q => made q allocs' met'

/-- The last variable of the array has a string of its own, and the others have theirs. -/
def gcWith (g : Nat) (entries : List Entry) (ptr : Nat) : Assertion Content :=
  pointsTo g (.cells (ptrs entries ++ [some ptr, none])) * allHeld entries

theorem isGc_last (g : Nat) (entries : List Entry) (entry : Entry) :
    isGc (some g) (entries ++ [entry]) = gcWith g entries entry.ptr * held entry := by
  rw [isGc, collected, ptrs_concat, allHeld_concat, gcWith, List.append_assoc, mul_assoc]
  rfl

theorem gcCollect_then {gc : Ptr} {entries : List Entry} {entry : Entry} (met : false ∉ allocs)
    {k : Ptr × Allocs → Program Content α}
    (rest : ∀ g allocs', false ∉ allocs' → Triple (isGc (some g) (entries ++ [entry]) * P) (k (some g, allocs')) Q) :
    Triple (isGc gc entries * held entry * P) (gcCollect gc (some entry.ptr) allocs >>= k) Q := by
  obtain ⟨allocs', first, met'⟩ := allocated_found met
  apply Triple.call (gcCollect_collects fun _ => by rw [first])
  rintro r
  rw [Collected, first, if_pos rfl, any_star]
  apply Triple.any
  intro g
  rw [mul_assoc]
  apply Triple.fact
  rintro rfl
  exact rest g allocs' met'

/-- A variable gets its string and is collected. -/
theorem named_then {gc : Ptr} {entries : List Entry} {ptr : Nat} {str : Bytes} (met : false ∉ allocs)
    {k : Option (Ptr × Allocs) → Program Content α}
    (rest : ∀ g q allocs', false ∉ allocs' →
      Triple (isGc (some g) (entries ++ [⟨ptr, q, str ++ [NUL]⟩]) * P) (k (some (some g, allocs'))) Q) :
    Triple (variableAt ptr * (isGc gc entries * P)) (named ptr str gc allocs >>= k) Q := by
  rw [variableAt, any_star]
  apply Triple.any
  intro old
  rw [named, bind_assoc]
  apply String_then met
  intro q allocs' met'
  rw [bind_assoc, mul_left_comm]
  apply setCell_then (by simp)
  rw [bind_assoc]
  have order : pointsTo ptr (Content.cells [some q]) * (pointsTo q (.chars (str ++ [NUL])) * (isGc gc entries * P)) =
      isGc gc entries * held ⟨ptr, q, str ++ [NUL]⟩ * P := by
    rw [held_eq]
    ac_rfl
  apply Triple.order order
  apply gcCollect_then met'
  intro g allocs'' met''
  exact rest g q allocs'' met''

/-- The string of the variable gets the replacement behind it. -/
theorem replaceStrFormat_then {v q : Nat} {str replace : Bytes} (clean : NUL ∉ str) (met : false ∉ allocs)
    {k : Bool × Allocs → Program Content α}
    (rest : ∀ q' allocs', false ∉ allocs' →
      Triple (held ⟨v, q', str ++ replace ++ [NUL]⟩ * P) (k (true, allocs')) Q) :
    Triple (held ⟨v, q, str ++ [NUL]⟩ * P) (replaceStrFormat v replace allocs >>= k) Q := by
  obtain ⟨allocs', first, met'⟩ := allocated_found met
  obtain ⟨allocs'', second, met''⟩ := allocated_found met'
  rw [replaceStrFormat, first, bind_assoc]
  apply malloc_met
  intro r
  rw [held_eq, mul_assoc, mul_left_comm, bind_assoc]
  apply cellAt_then (by rfl)
  rw [bind_assoc]
  have order : pointsTo v (Content.cells [some q]) * (pointsTo r (.chars (replace ++ [NUL])) *
      (pointsTo q (.chars (str ++ [NUL])) * P)) =
        pointsTo q (.chars (str ++ [NUL])) *
          (pointsTo v (.cells [some q]) * (pointsTo r (.chars (replace ++ [NUL])) * P)) := by
    ac_rfl
  apply Triple.order order
  apply loadText_then (Block.stringAt_zero clean [])
  rw [second, bind_assoc]
  apply malloc_met
  intro t
  rw [bind_assoc, mul_left_comm]
  apply Triple.free_then
  rw [bind_assoc, mul_left_comm]
  apply setCell_then (by simp)
  rw [bind_assoc]
  have order' : pointsTo v (Content.cells [some t]) * (pointsTo t (.chars (str ++ replace ++ [NUL])) *
      (pointsTo r (.chars (replace ++ [NUL])) * P)) =
        pointsTo r (.chars (replace ++ [NUL])) * (held ⟨v, t, str ++ replace ++ [NUL]⟩ * P) := by
    rw [held_eq]
    ac_rfl
  apply Triple.order order'
  apply Triple.free_then
  exact rest t allocs'' met''

end Making

section Adding

variable {a v : Nat} {owned : List (Nat × Bytes)} {header : Bytes}

/-- A string of a list gets new bytes in its block. -/
theorem listAt_set {i : Nat} (inside : i < owned.length) (s : Bytes) :
    listAt a (owned.set i (owned[i].1, s)) = pointsTo owned[i].1 (.chars (s ++ [NUL])) * otherRows a owned i := by
  have inside' : i < (owned.set i (owned[i].1, s)).length := by simpa using inside
  have cells : pointers (owned.set i (owned[i].1, s)) = pointers owned := by
    have same := congrArg (List.map fun entry => some entry.1) (List.set_getElem_self inside)
    rw [List.map_set] at same
    rw [pointers, List.map_set, same, pointers]
  have others : otherRows a (owned.set i (owned[i].1, s)) i = otherRows a owned i := by
    rw [otherRows, cells, List.take_set_of_le le_rfl, List.drop_set_of_lt (Nat.lt_succ_self i), otherRows]
  rw [listAt_row inside', others, List.getElem_set_self]

/-- The first rows have been added, and the strings behind them are as they were. -/
def adding (v a : Nat) (owned : List (Nat × Bytes)) (header : Bytes) (s : Nat × Allocs) : Assertion Content :=
  any fun x : Nat × List (Nat × Bytes) =>
    fact (s.1 ≤ owned.length ∧ x.2.length = owned.length ∧ x.2.drop s.1 = owned.drop s.1 ∧ false ∉ s.2) *
      (listAt a x.2 * held ⟨v, x.1, Cgi.addHeader header ((owned.map Prod.snd).take s.1) ++ [NUL]⟩)

theorem addHeader_clean {strs : List Bytes} (clean : NUL ∉ header) (cleanStrs : ∀ s ∈ strs, NUL ∉ s) :
    NUL ∉ Cgi.addHeader header strs := by
  induction strs generalizing header with
  | nil => exact clean
  | cons s strs ih =>
      rw [List.forall_mem_cons] at cleanStrs
      exact ih (addHeaderRow_clean clean cleanStrs.1) cleanStrs.2

/-- A round cuts the next string and adds its row. -/
theorem addHeaderNext_adds (clean : NUL ∉ header) (cleanStrs : ∀ s ∈ owned.map Prod.snd, NUL ∉ s) (s : Nat × Allocs) :
    Triple (adding v a owned header s) (addHeaderNext v (some a) s)
      (Sum.elim (fun s' => fact (owned.length - s'.1 < owned.length - s.1) * adding v a owned header s')
        fun r => any fun x : Nat × List Bytes =>
          fact (r.1 = true ∧ false ∉ r.2) * (isList (some a) x.2 *
            held ⟨v, x.1, Cgi.addHeader header (owned.map Prod.snd) ++ [NUL]⟩)) := by
  obtain ⟨i, allocs⟩ := s
  apply Triple.any
  rintro ⟨q, owned'⟩
  apply Triple.fact
  rintro ⟨within, length, same, met⟩
  dsimp only at within length same met ⊢
  rcases Nat.lt_or_eq_of_le within with inside | rfl
  · have inside' : i < owned'.length := length ▸ inside
    have entry : owned'[i] = owned[i] := by
      have heads := congrArg (fun l => l[0]?) same
      simpa [inside, inside'] using heads
    have cleanEntry : NUL ∉ owned'[i].2 := entry ▸ cleanStrs _ (List.mem_map_of_mem (List.getElem_mem inside))
    have rows := take_row inside
    have closer : owned.length - (i + 1) < owned.length - i := Nat.sub_succ_lt_self _ _ inside
    obtain ⟨left, row, -, cut, adds⟩ := cutEntry_row cleanEntry
    have behind : (owned'.set i (owned'[i].1, left)).drop (i + 1) = owned.drop (i + 1) := by
      have tails := congrArg (List.drop 1) same
      rw [List.drop_drop, List.drop_drop] at tails
      rw [List.drop_set_of_lt (Nat.lt_succ_self i)]
      exact tails
    have text : Cgi.addHeader header ((owned.map Prod.snd).take (i + 1)) =
        Cgi.addHeader header ((owned.map Prod.snd).take i) ++ row.getD [] := by
      rw [rows, Cgi.addHeader, List.foldl_append, ← entry]
      exact adds _
    have cleanText : NUL ∉ Cgi.addHeader header ((owned.map Prod.snd).take i) :=
      addHeader_clean clean fun s member => cleanStrs s (List.mem_of_mem_take member)
    apply listCell_then (pointers_inside inside')
    rw [listAt_row inside', mul_assoc]
    apply loadChars_then
    rw [cut]
    apply Triple.get_then
    apply Triple.store_then
    rw [← mul_assoc, ← listAt_set inside']
    cases row with
    | none =>
        apply Triple.ret
        intro h holds
        refine fact_star.mpr ⟨closer, (q, _), fact_star.mpr ⟨⟨inside, by simpa using length, behind, met⟩, ?_⟩⟩
        rw [text, Option.getD_none, List.append_nil]
        exact holds
    | some row =>
        rw [mul_comm]
        apply replaceStrFormat_then cleanText met
        intro q' allocs' met'
        rw [mul_comm]
        apply Triple.ret
        intro h holds
        refine fact_star.mpr ⟨closer, (q', _), fact_star.mpr ⟨⟨inside, by simpa using length, behind, met'⟩, ?_⟩⟩
        rw [text, Option.getD_some]
        exact holds
  · rw [← length]
    apply listCell_then (pointers_end owned')
    apply Triple.ret
    intro h holds
    refine ⟨(q, owned'.map Prod.snd), fact_star.mpr ⟨⟨rfl, met⟩, ?_⟩⟩
    have all : (owned.map Prod.snd).take owned'.length = owned.map Prod.snd := by
      rw [length, ← List.length_map (f := Prod.snd), List.take_length]
    rw [all] at holds
    exact star_mono (fun h' list => ⟨owned', fact_star.mpr ⟨rfl, list⟩⟩) le_rfl h holds

end Adding

end Piercloud.Pointers
