import Piercloud.Proof.Pointers.Environment

/-
This file shows which strings `gcClean` frees: those of the variables whose addresses have found a cell in the array.
-/

namespace Piercloud.Pointers

open CLib Loop Liblst Blocks Piercloud.Lists Ownership Assertion Program

/-- A variable has the address of a string. -/
structure Entry where
  ptr : Nat
  q : Nat
  bytes : Bytes
  deriving DecidableEq, Repr

/-- A variable owns its string. -/
def held (entry : Entry) : Assertion Content :=
  pointsTo entry.ptr (.cells [some entry.q]) * pointsTo entry.q (.chars entry.bytes)

/-- A variable still has the address of a string that is not its own. -/
def dangling (entry : Entry) : Assertion Content := pointsTo entry.ptr (.cells [some entry.q])

/-- These are the addresses that the array collects. -/
def ptrs (entries : List Entry) : List Ptr := entries.map fun entry => some entry.ptr

/-- These are the cells of the array. -/
def collected (entries : List Entry) : List Ptr := ptrs entries ++ [none]

def allHeld (entries : List Entry) : Assertion Content := (entries.map held).prod

def allDangling (entries : List Entry) : Assertion Content := (entries.map dangling).prod

/-- The array owns the strings of the variables that it has collected. -/
def isGc (gc : Ptr) (entries : List Entry) : Assertion Content :=
  match gc with
  | none => fact (entries = [])
  | some g => pointsTo g (.cells (collected entries)) * allHeld entries

theorem length_ptrs (entries : List Entry) : (ptrs entries).length = entries.length := List.length_map _

theorem ptrs_concat (entries : List Entry) (entry : Entry) :
    ptrs (entries ++ [entry]) = ptrs entries ++ [some entry.ptr] := by
  simp [ptrs]

theorem allHeld_cons (entry : Entry) (entries : List Entry) :
    allHeld (entry :: entries) = held entry * allHeld entries :=
  rfl

theorem allHeld_concat (entries : List Entry) (entry : Entry) :
    allHeld (entries ++ [entry]) = allHeld entries * held entry := by
  simp [allHeld]

theorem allDangling_concat (entries : List Entry) (entry : Entry) :
    allDangling (entries ++ [entry]) = allDangling entries * dangling entry := by
  simp [allDangling]

/-- The variable and the `NULL` are written into the two last cells. -/
theorem collected_new (entries : List Entry) (entry : Entry) (old : Ptr) :
    ((ptrs entries ++ [none, old]).set entries.length (some entry.ptr)).set (entries.length + 1) none =
      collected (entries ++ [entry]) := by
  rw [← length_ptrs entries, List.set_append_right _ _ le_rfl, List.set_append_right _ _ (Nat.le_succ _), collected,
    ptrs_concat]
  simp

/-- An array that grows has a cell behind its variables. -/
theorem resized_collected (entries : List Entry) :
    resized (entries.length + 2) (some (.cells (collected entries))) = .cells (ptrs entries ++ [none, none]) := by
  rw [resized, collected, List.take_of_length_le (by simp [length_ptrs])]
  simp [length_ptrs]

theorem collected_count (entries : List Entry) : (collected entries).findIdx? Option.isNone = some entries.length := by
  have cells := pointers_count (entries.map fun entry => (entry.ptr, entry.bytes))
  rw [pointers, List.map_map, List.length_map] at cells
  exact cells

theorem collected_end (entries : List Entry) : (collected entries)[entries.length]? = some none := by
  simp [collected, ← length_ptrs entries]

theorem collected_same (entries : List Entry) : (collected entries).set entries.length none = collected entries := by
  rw [collected, ← length_ptrs entries, List.set_append_right _ _ le_rfl]
  simp

/-- These are the array and its variables behind a call that finds memory or not. -/
def Collected (gc : Ptr) (entries : List Entry) (entry : Entry) (allocs : Allocs) (r : Ptr × Allocs) :
    Assertion Content :=
  if (allocated allocs).1 then
    any fun g => fact (r = (some g, (allocated allocs).2)) * isGc (some g) (entries ++ [entry])
  else fact (r = (gc, (allocated allocs).2)) * (isGc gc entries * held entry)

/-- A variable is collected when its cell finds memory, and otherwise it keeps its string for itself. The first cell has
to find memory. -/
theorem gcCollect_collects {gc : Ptr} {entries : List Entry} {entry : Entry} {allocs : Allocs}
    (begun : gc = none → (allocated allocs).1 = true) :
    Triple (isGc gc entries * held entry) (gcCollect gc (some entry.ptr) allocs)
      (Collected gc entries entry allocs) := by
  unfold Collected
  rcases first : allocated allocs with ⟨found, allocs'⟩
  rw [first] at begun
  cases gc with
  | none =>
      obtain rfl : found = true := begun rfl
      apply Triple.fact
      rintro rfl
      unfold gcCollect
      apply Triple.pure_then
      rw [first]
      apply Triple.malloc_then
      · simp
      · intro _ g
        apply setCell_then (by simp)
        apply setCell_then (by simp)
        apply Triple.ret
        intro h holds
        refine ⟨g, fact_star.mpr ⟨rfl, ?_⟩⟩
        rw [isGc, allHeld_concat]
        simpa [allHeld, collected, ptrs] using holds
  | some g =>
      rw [isGc, mul_assoc]
      unfold gcCollect
      apply countCells_then (collected_count entries)
      rw [first]
      apply Triple.realloc_then
      · rintro rfl
        apply cellAt_then (collected_end entries)
        apply Triple.pure_then
        apply setCell_then (by simp [collected, length_ptrs])
        rw [collected_same]
        apply Triple.ret
        rw [← mul_assoc]
        exact fun h holds => fact_star.mpr ⟨rfl, holds⟩
      · rintro rfl g'
        rw [resized_collected]
        apply setCell_then (by simp [length_ptrs])
        apply setCell_then (by simp [length_ptrs])
        rw [collected_new, ← allHeld_concat]
        apply Triple.ret
        exact fun h holds => ⟨g', fact_star.mpr ⟨rfl, holds⟩⟩

/-- This is what the loop has not freed yet. -/
def cleaning (g : Nat) (entries : List Entry) (i : Nat) : Assertion Content :=
  fact (i ≤ entries.length) * (pointsTo g (.cells (collected entries)) *
    (allDangling (entries.take i) * allHeld (entries.drop i)))

/-- A round frees the string of its variable, and the last round finds the `NULL`. -/
theorem cleanNext_frees (g : Nat) (entries : List Entry) (i : Nat) :
    Triple (cleaning g entries i) (cleanNext (some g) i)
      (Sum.elim (fun i' => fact (entries.length - i' < entries.length - i) * cleaning g entries i')
        fun _ => pointsTo g (.cells (collected entries)) * allDangling entries) := by
  apply Triple.fact
  intro within
  unfold cleanNext
  rcases within.lt_or_eq with inside | rfl
  · have cell : (collected entries)[i]? = some (some entries[i].ptr) := by
      rw [collected, List.getElem?_append_left (by simpa [length_ptrs] using inside)]
      simp [ptrs, inside]
    apply cellAt_then cell
    have rest : allHeld (entries.drop i) = held entries[i] * allHeld (entries.drop (i + 1)) := by
      rw [List.drop_eq_getElem_cons inside]
      rfl
    have front : allDangling (entries.take (i + 1)) = allDangling (entries.take i) * dangling entries[i] := by
      rw [List.take_succ_eq_append_getElem inside, allDangling_concat]
    have order : pointsTo g (.cells (collected entries)) * (allDangling (entries.take i) * allHeld (entries.drop i)) =
        dangling entries[i] * (pointsTo entries[i].q (.chars entries[i].bytes) *
          (pointsTo g (.cells (collected entries)) *
            (allDangling (entries.take i) * allHeld (entries.drop (i + 1))))) := by
      rw [rest, held, ← dangling]
      ac_rfl
    apply Triple.order order
    apply cellAt_then (by rfl)
    rw [mul_left_comm]
    apply Triple.free_then
    apply Triple.ret
    have within' : i + 1 ≤ entries.length := inside
    rw [Sum.elim_inl, fact_of (Nat.sub_succ_lt_self _ _ inside), one_mul, cleaning, fact_of within', one_mul, front,
      dangling]
    apply le_of_eq
    ac_rfl
  · apply cellAt_then (collected_end entries)
    apply Triple.ret
    rw [Sum.elim_inr, List.take_length, List.drop_length]
    simp [allHeld]

/-- The strings of the collected variables and the array are freed, and the variables keep the old addresses. -/
theorem gcClean_frees (gc : Ptr) (entries : List Entry) :
    Triple (isGc gc entries) (gcClean gc) fun _ => allDangling entries := by
  cases gc with
  | none =>
      apply Triple.ret
      rintro h ⟨rfl, rfl⟩
      rfl
  | some g =>
      unfold gcClean
      apply loadCells_then
      have start : pointsTo g (.cells (collected entries)) * allHeld entries = cleaning g entries 0 := by
        rw [cleaning, fact_of (Nat.zero_le _), one_mul, List.take_zero, List.drop_zero]
        simp [allDangling]
      rw [start]
      have enough : entries.length - 0 < (collected entries).length + 1 := by simp [collected, length_ptrs]
      apply Triple.bind (Triple.repeatUntil (fun i => entries.length - i) (cleanNext_frees g entries) enough)
      exact fun _ => Triple.mono (Triple.free.frame (allDangling entries)) le_rfl fun _ => (one_mul _).le

section Run

/-- These are calls of `gcCollect` one behind the other. -/
def collectAll : Ptr → List Entry → Allocs → Program Content (Ptr × Allocs)
  | gc, [], allocs => return (gc, allocs)
  | gc, entry :: entries, allocs => do
      let (gc, allocs) ← gcCollect gc (some entry.ptr) allocs
      collectAll gc entries allocs

/-- These variables find cells and those do not. -/
def shared : List Entry → Allocs → List Entry × List Entry
  | [], _ => ([], [])
  | entry :: entries, allocs =>
      let rest := shared entries (allocated allocs).2
      if (allocated allocs).1 then (entry :: rest.1, rest.2) else (rest.1, entry :: rest.2)

/-- The variables that find cells are behind the others of the array. -/
theorem collectAll_collects {gc : Ptr} {before : List Entry} (entries : List Entry) {allocs : Allocs}
    (begun : gc = none → entries = [] ∨ (allocated allocs).1 = true) :
    Triple (isGc gc before * allHeld entries) (collectAll gc entries allocs)
      fun r => isGc r.1 (before ++ (shared entries allocs).1) * allHeld (shared entries allocs).2 := by
  induction entries generalizing gc before allocs with
  | nil =>
      apply Triple.ret
      rw [shared, List.append_nil]
  | cons entry entries ih =>
      have first : gc = none → (allocated allocs).1 = true := fun null =>
        (begun null).resolve_left (List.cons_ne_nil entry entries)
      have order : isGc gc before * allHeld (entry :: entries) = isGc gc before * held entry * allHeld entries := by
        rw [allHeld_cons, mul_assoc]
      apply Triple.order order
      apply Triple.call (gcCollect_collects first)
      rintro ⟨gc', allocs'⟩
      unfold Collected
      by_cases found : (allocated allocs).1 = true
      · rw [if_pos found, any_star]
        apply Triple.any
        intro g
        rw [mul_assoc]
        apply Triple.fact
        rintro same
        obtain ⟨rfl, rfl⟩ := Prod.mk.inj same
        apply (ih (by simp)).mono le_rfl
        intro r
        rw [shared, if_pos found, List.append_assoc]
        exact le_rfl
      · rw [if_neg found, mul_assoc]
        apply Triple.fact
        rintro same
        obtain ⟨rfl, rfl⟩ := Prod.mk.inj same
        rw [mul_assoc, mul_left_comm, mul_comm]
        apply ((ih fun null => absurd (first null) found).frame (held entry)).mono le_rfl
        intro r
        rw [shared, if_neg found]
        apply le_of_eq
        rw [allHeld_cons]
        ac_rfl

/-- Variables with strings are collected one behind the other, and then the array is cleaned. When the first call for
memory fails, the null array is read. Otherwise the calls end, and the strings that are freed are those of the variables
that have found cells: these variables keep the old addresses, and the others keep their strings. -/
theorem gcCollect_gcClean (entries : List Entry) (allocs : Allocs) :
    (entries = [] ∨ (allocated allocs).1 = true →
      Triple (allHeld entries) (collectAll none entries allocs >>= fun r => gcClean r.1)
        fun _ => allDangling (shared entries allocs).1 * allHeld (shared entries allocs).2) ∧
    (¬ (entries = [] ∨ (allocated allocs).1 = true) → ∀ m, collectAll none entries allocs m = none) := by
  constructor
  · intro begun
    have nothing : allHeld entries = isGc none [] * allHeld entries := by rw [isGc, fact_of rfl, one_mul]
    apply Triple.order nothing
    apply Triple.bind (collectAll_collects entries fun _ => begun)
    intro r
    exact (gcClean_frees r.1 _).frame _
  · intro fails m
    cases entries with
    | nil => exact (fails (Or.inl rfl)).elim
    | cons entry entries =>
        have missing : (allocated allocs).1 = false := by
          by_contra found
          exact fails (Or.inr (by simpa using found))
        rcases first : allocated allocs with ⟨found, allocs'⟩
        rw [first] at missing
        subst missing
        have faults : gcCollect none (some entry.ptr) allocs m = none := by
          unfold gcCollect
          rw [first]
          rfl
        change (gcCollect none (some entry.ptr) allocs m).bind _ = none
        rw [faults]
        rfl

theorem gcCollect_gcClean_second :
    Triple (allHeld [⟨0, 2, [NUL]⟩, ⟨1, 3, [NUL]⟩])
      (collectAll none [⟨0, 2, [NUL]⟩, ⟨1, 3, [NUL]⟩] [true, false] >>= fun r => gcClean r.1)
      (fun _ => allDangling [⟨0, 2, [NUL]⟩] * allHeld [⟨1, 3, [NUL]⟩]) ∧
    ∀ m, collectAll none [⟨0, 2, [NUL]⟩, ⟨1, 3, [NUL]⟩] [false] m = none :=
  ⟨(gcCollect_gcClean [⟨0, 2, [NUL]⟩, ⟨1, 3, [NUL]⟩] [true, false]).1 (Or.inr rfl),
    (gcCollect_gcClean [⟨0, 2, [NUL]⟩, ⟨1, 3, [NUL]⟩] [false]).2 (by simp [allocated])⟩

end Run

end Piercloud.Pointers
