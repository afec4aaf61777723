import Piercloud.Proof.Pointers.Environment

/-
This file shows that a caller of a function with a list as its result owns the list and nothing else, whatever memory
the function finds.
-/

namespace Piercloud.Pointers

open CLib Loop Liblst Blocks Piercloud.Lists Ownership Assertion Program

/-- From any memory with the string, and for any outcomes of the calls for memory, the function ends with the list that
the scan on strings gives. The new blocks are those of the list, so `NULL` leaves no block, and `lstFree` of the list
restores the memory. -/
theorem lstSplitStr_restores (splitter : UInt8) {m : Memory Content} {a place : Nat} {bytes str : Bytes}
    (here : m.heap a = some (.chars bytes)) (text : Block.stringAt bytes place = some str) (allocs : Allocs) :
    ∃ p strs allocs' m' m'', lstSplitStr splitter (some (a, place)) allocs m = some ((p, allocs'), m') ∧
      Lists.lstSplitStr splitter (some (bytes.drop place)) allocs = some (.ok (toLst p strs, allocs')) ∧
      (isList p strs * exactly m.heap) m'.heap ∧ lstFree p m' = some ((), m'') ∧ m''.heap = m.heap := by
  have text' : Block.stringAt (bytes.drop place) 0 = some str := by rwa [Block.stringAt, List.drop_zero]
  obtain ⟨result, returns⟩ := lstSplitStr_returns splitter text' allocs
  have splits := (lstSplitStr_splits (a := a) text returns).frame (exactly (Function.update m.heap a none))
  rw [pointsTo_whole here] at splits
  obtain ⟨⟨p, allocs'⟩, m', ran, owned⟩ := splits.whole rfl
  rw [mul_assoc, pointsTo_whole here, Split, any_star] at owned
  obtain ⟨strs, owned⟩ := owned
  rw [mul_assoc, fact_star] at owned
  obtain ⟨same, owned⟩ := owned
  obtain ⟨⟨⟩, m'', freed, restored⟩ := ((lstFree_frees p strs).frame (exactly m.heap)).whole owned
  rw [one_mul] at restored
  exact ⟨p, strs, allocs', m', m'', ran, by rw [returns, same], owned, freed, restored⟩

def hostMemory : Memory Content := Memory.start.push (.chars (text "5.host" ++ [NUL]))

theorem lstSplitStr_restores_host : ∃ p strs allocs' m' m'',
    lstSplitStr 46 (some (0, 0)) [true, true, false] hostMemory = some ((p, allocs'), m') ∧
    Lists.lstSplitStr 46 (some (text "5.host" ++ [NUL])) [true, true, false] = some (.ok (toLst p strs, allocs')) ∧
    (isList p strs * exactly hostMemory.heap) m'.heap ∧ lstFree p m' = some ((), m'') ∧
    m''.heap = hostMemory.heap := by
  have clean : NUL ∉ text "5.host" := by decide
  exact lstSplitStr_restores 46 rfl (Block.stringAt_zero clean []) [true, true, false]

def environRows : List (Nat × Bytes) := [(0, text "HTTP_HOST=5.host"), (1, text "PATH=/bin")]

def environMemory : Memory Content :=
  ((Memory.start.push (.chars (text "HTTP_HOST=5.host" ++ [NUL]))).push (.chars (text "PATH=/bin" ++ [NUL]))).push
    (.cells (pointers environRows))

theorem environMemory_rows : (listAt 2 environRows * exactly Heap.empty : Assertion Content) environMemory.heap := by
  have start : exactly Heap.empty (Memory.start (β := Content)).heap := rfl
  have owned := Memory.push_owned (Memory.push_owned (Memory.push_owned start
    (.chars (text "HTTP_HOST=5.host" ++ [NUL]))) (.chars (text "PATH=/bin" ++ [NUL]))) (.cells (pointers environRows))
  have order : listAt 2 environRows * exactly Heap.empty =
      pointsTo 2 (.cells (pointers environRows)) * (pointsTo 1 (.chars (text "PATH=/bin" ++ [NUL])) *
        (pointsTo 0 (.chars (text "HTTP_HOST=5.host" ++ [NUL])) * exactly Heap.empty)) := by
    simp only [listAt, strings, environRows, List.map_cons, List.map_nil, List.prod_cons, List.prod_nil, mul_one]
    ac_rfl
  rw [order]
  exact owned

end Piercloud.Pointers
