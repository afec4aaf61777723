import Piercloud.Construction.Pointers
import Piercloud.Proof.Lists.Pushing

/-
This file shows that a push owns exactly the blocks of the list that it leaves.
-/

namespace Piercloud.Pointers

open CLib Loop Liblst Blocks Piercloud.Lists Ownership Assertion Program

section Then

variable {α : Type} {P : Assertion Content} {Q : α → Assertion Content} {a i place : Nat} {cells : List Ptr}
  {bytes s : Bytes} {q : Ptr}

theorem loadCells_then {k : List Ptr → Program Content α} (rest : Triple (pointsTo a (.cells cells) * P) (k cells) Q) :
    Triple (pointsTo a (.cells cells) * P) (loadCells (some a) >>= k) Q := by
  rw [loadCells, bind_assoc]
  exact Triple.load_then rest

theorem loadChars_then {k : Bytes → Program Content α} (rest : Triple (pointsTo a (.chars bytes) * P) (k bytes) Q) :
    Triple (pointsTo a (.chars bytes) * P) (loadChars (some a) >>= k) Q := by
  rw [loadChars, bind_assoc]
  exact Triple.load_then rest

theorem loadText_then {k : Bytes → Program Content α} (text : Block.stringAt bytes place = some s)
    (rest : Triple (pointsTo a (.chars bytes) * P) (k s) Q) :
    Triple (pointsTo a (.chars bytes) * P) (loadText (a, place) >>= k) Q := by
  rw [loadText, bind_assoc]
  apply loadChars_then
  rw [text]
  exact rest

theorem cellAt_then {k : Ptr → Program Content α} (here : cells[i]? = some q)
    (rest : Triple (pointsTo a (.cells cells) * P) (k q) Q) :
    Triple (pointsTo a (.cells cells) * P) (cellAt (some a) i >>= k) Q := by
  rw [cellAt, bind_assoc]
  apply loadCells_then
  rw [here]
  exact rest

theorem setCell_then {k : Unit → Program Content α} (inside : i < cells.length)
    (rest : Triple (pointsTo a (.cells (cells.set i q)) * P) (k ()) Q) :
    Triple (pointsTo a (.cells cells) * P) (setCell (some a) i q >>= k) Q := by
  rw [setCell, bind_assoc]
  apply loadCells_then
  rw [if_pos inside]
  exact Triple.store_then rest

theorem countCells_then {k : Nat → Program Content α} (ends : cells.findIdx? Option.isNone = some i)
    (rest : Triple (pointsTo a (.cells cells) * P) (k i) Q) :
    Triple (pointsTo a (.cells cells) * P) (countCells (some a) >>= k) Q := by
  rw [countCells, bind_assoc]
  apply loadCells_then
  rw [ends]
  exact rest

end Then

/-- These strings have a block each. -/
def strings (owned : List (Nat × Bytes)) : Assertion Content :=
  (owned.map fun entry => pointsTo entry.1 (.chars (entry.2 ++ [NUL]))).prod

/-- These are the pointers to the strings and the `NULL` behind them. -/
def pointers (owned : List (Nat × Bytes)) : List Ptr := owned.map (fun entry => some entry.1) ++ [none]

def listAt (a : Nat) (owned : List (Nat × Bytes)) : Assertion Content :=
  pointsTo a (.cells (pointers owned)) * strings owned

/-- The list owns its array and its strings. -/
def isList (p : Ptr) (strs : List Bytes) : Assertion Content :=
  match p with
  | none => fact (strs = [])
  | some a => any fun owned : List (Nat × Bytes) => fact (owned.map Prod.snd = strs) * listAt a owned

/-- These are the cells of the list. -/
def toLst (p : Ptr) (strs : List Bytes) : Lst := p.map fun _ => array strs

/-- The blocks are those of the list that the push of strings leaves. -/
def Pushed (value : Except Stop (Except Nat Nat × Lst × Allocs)) (r : Except Nat Nat × Ptr × Allocs) :
    Assertion Content :=
  any fun strs => fact (value = .ok (r.1, toLst r.2.1 strs, r.2.2)) * isList r.2.1 strs

theorem strings_concat (owned : List (Nat × Bytes)) (c : Nat) (s : Bytes) :
    strings (owned ++ [(c, s)]) = strings owned * pointsTo c (.chars (s ++ [NUL])) := by
  simp [strings]

/-- A list at an address is the list that a push may leave. -/
theorem listAt_pushed {a : Nat} {owned : List (Nat × Bytes)} {value : Except Stop (Except Nat Nat × Lst × Allocs)}
    {result : Except Nat Nat} {allocs : Allocs} {P : Assertion Content}
    (same : value = .ok (result, some (array (owned.map Prod.snd)), allocs)) :
    listAt a owned * P ≤ Pushed value (result, some a, allocs) * P := by
  apply mul_le_mul_left
  intro h holds
  exact ⟨owned.map Prod.snd, fact_star.mpr ⟨same, owned, fact_star.mpr ⟨rfl, holds⟩⟩⟩

theorem pointers_set (owned : List (Nat × Bytes)) (old q : Ptr) :
    (owned.map (fun entry => some entry.1) ++ [old]).set owned.length q =
      owned.map (fun entry => some entry.1) ++ [q] := by
  rw [List.set_append_right _ _ (by simp)]
  simp

/-- An array that grows has a cell behind its pointers. -/
theorem resized_pointers (owned : List (Nat × Bytes)) (q : Ptr) :
    resized (owned.length + 2) (some (.cells (owned.map (fun entry => some entry.1) ++ [q]))) =
      .cells (owned.map (fun entry => some entry.1) ++ [q, none]) := by
  rw [resized, List.take_of_length_le (by simp)]
  simp

theorem stringAt_clean {bytes s : Bytes} {place : Nat} (text : Block.stringAt bytes place = some s) : NUL ∉ s := by
  unfold Block.stringAt at text
  split at text
  · exact Option.some.inj text ▸ nul_not_mem_cstr _
  · contradiction

/-- The array has a cell for the string, and the string has a block or not. -/
theorem appendAt_pushed {a t place : Nat} {owned : List (Nat × Bytes)} {bytes s : Bytes}
    (text : Block.stringAt bytes place = some s) (allocs : Allocs) :
    Triple (listAt a owned * pointsTo t (.chars bytes)) (appendAt (some a) owned.length (t, place) allocs)
      fun r => Pushed (Lists.appendAt (array (owned.map Prod.snd)) owned.length s allocs) r *
        pointsTo t (.chars bytes) := by
  have clean : cstr s = s := cstr_eq_self (stringAt_clean text)
  rw [mul_comm]
  apply loadText_then text
  rcases first : allocated allocs with ⟨found, allocs'⟩
  dsimp only
  apply Triple.malloc_then
  · intro missing
    subst missing
    rw [mul_comm, listAt, mul_assoc, pointers]
    apply setCell_then (by simp)
    rw [pointers_set, ← pointers, ← mul_assoc, ← listAt]
    apply Triple.ret
    apply listAt_pushed
    have kept := store_end (owned.map Prod.snd) [] none none
    rw [List.length_map] at kept
    simp only [Lists.appendAt, first, array, kept]
    rfl
  · intro placed c
    subst placed
    rw [listAt, mul_left_comm (pointsTo t _), mul_left_comm (pointsTo c _), pointers]
    apply setCell_then (by simp)
    rw [pointers_set]
    rcases second : allocated allocs' with ⟨found, allocs''⟩
    dsimp only
    apply Triple.realloc_then
    · intro missing
      subst missing
      apply cellAt_then (q := some c) (by simp)
      rw [mul_left_comm]
      apply Triple.free_then
      apply setCell_then (by simp)
      rw [pointers_set, ← pointers, mul_left_comm, ← listAt, mul_comm]
      apply Triple.ret
      apply listAt_pushed
      have stored := store_end (owned.map Prod.snd) [] none (some s)
      have kept := store_end (owned.map Prod.snd) [] (some s) none
      rw [List.length_map] at stored kept
      simp only [Lists.appendAt, first, second, array, clean, bind, Except.bind, stored, kept]
      rfl
    · intro placed a'
      subst placed
      rw [resized_pointers]
      apply setCell_then (by simp)
      have array' : (owned.map (fun entry => some entry.1) ++ [some c, none]).set (owned.length + 1) none =
          pointers (owned ++ [(c, s)]) := by simp [pointers]
      rw [array', mul_left_comm (pointsTo c _), mul_comm (pointsTo c _), ← strings_concat, mul_left_comm, ← listAt,
        mul_comm]
      apply Triple.ret
      apply listAt_pushed
      have stored := store_end (owned.map Prod.snd) [] none (some s)
      have grown := store_grown (owned.map Prod.snd) [] s
      rw [List.length_map] at stored grown
      simp only [Lists.appendAt, first, second, array, clean, bind, Except.bind, stored, grown]
      simp [pure, Except.pure]

theorem pointers_count (owned : List (Nat × Bytes)) : (pointers owned).findIdx? Option.isNone = some owned.length := by
  rw [pointers]
  induction owned with
  | nil => rfl
  | cons entry owned ih =>
      rw [List.map_cons, List.cons_append, List.findIdx?_cons, ih]
      rfl

/-- The push on the memory gives the list that the push on strings gives, and it owns nothing else. -/
theorem lstPush_pushed {p : Ptr} {strs : List Bytes} {t place : Nat} {bytes s : Bytes}
    (text : Block.stringAt bytes place = some s) (allocs : Allocs) :
    Triple (isList p strs * pointsTo t (.chars bytes)) (lstPush p (some (t, place)) allocs)
      fun r => Pushed (Lists.lstPush (toLst p strs) (some s) allocs) r * pointsTo t (.chars bytes) := by
  cases p with
  | none =>
      apply Triple.fact
      rintro rfl
      rcases first : allocated allocs with ⟨found, allocs'⟩
      simp only [lstPush, first]
      apply Triple.malloc_then
      · rintro rfl
        have value : Lists.lstPush (toLst none []) (some s) allocs = .ok (.error ENOMEM, none, allocs') := by
          simp only [Lists.lstPush, toLst, Option.map_none, first]
          rfl
        have kept : 1 ≤ Pushed (Lists.lstPush (toLst none []) (some s) allocs) (.error ENOMEM, none, allocs') := by
          intro h holds
          exact ⟨[], fact_star.mpr ⟨value, rfl, holds⟩⟩
        apply Triple.ret
        exact (one_mul _).symm.le.trans (mul_le_mul_left kept _)
      · rintro rfl a
        have start : Triple (listAt a [] * pointsTo t (.chars bytes)) (appendAt (some a) 0 (t, place) allocs') _ :=
          appendAt_pushed text allocs'
        have value : Lists.lstPush (toLst none []) (some s) allocs = Lists.appendAt (array []) 0 s allocs' := by
          simp only [Lists.lstPush, toLst, Option.map_none, first]
          rfl
        rw [value]
        simpa [listAt, strings, pointers] using start
  | some a =>
      rw [isList, any_star]
      apply Triple.any
      intro owned
      rw [mul_assoc]
      apply Triple.fact
      rintro rfl
      simp only [lstPush]
      rw [listAt, mul_assoc]
      apply countCells_then (pointers_count owned)
      have value : Lists.lstPush (toLst (some a) (owned.map Prod.snd)) (some s) allocs =
          Lists.appendAt (array (owned.map Prod.snd)) owned.length s allocs := by
        have ends := terminator_spare (owned.map Prod.snd) []
        rw [List.length_map] at ends
        simp only [Lists.lstPush, toLst, Option.map_some, array, ends]
        rfl
      rw [value, ← mul_assoc, ← listAt]
      exact appendAt_pushed text allocs

end Piercloud.Pointers
