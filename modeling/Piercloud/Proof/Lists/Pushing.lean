import Piercloud.Construction.Lists

/-
This file says what a push does to a list: the string stands at its end, or the strings are what they were.
-/

namespace Piercloud.Lists

open CLib Loop Liblst Blocks

/-- The array that ends behind these strings. -/
def array (strings : List Bytes) : List Cell := strings.map some ++ [none]

/-- A list holds these strings. A list without a string may be `NULL`. -/
structure Holds (lst : Lst) (strings : List Bytes) : Prop where
  cells : lst = none ∧ strings = [] ∨ lst = some (array strings)
  clean : ∀ str ∈ strings, NUL ∉ str

/-- Without a string the list is `NULL`. -/
def ofStrings (strings : List Bytes) : Lst := if strings = [] then none else some (array strings)

theorem Holds.null : Holds none [] := ⟨Or.inl ⟨rfl, rfl⟩, by simp⟩

theorem Holds.ofStrings {strings : List Bytes} (clean : ∀ str ∈ strings, NUL ∉ str) :
    Holds (ofStrings strings) strings := by
  unfold Lists.ofStrings
  split
  · rename_i none
    exact ⟨Or.inl ⟨rfl, none⟩, clean⟩
  · exact ⟨Or.inr rfl, clean⟩

/-- The walk stops at the first `NULL`, whatever is behind it. -/
theorem terminator_spare (strings : List Bytes) (spare : List Cell) :
    terminator (strings.map some ++ none :: spare) = .ok strings.length := by
  have stops : (strings.map some ++ none :: spare).findIdx? Option.isNone = some strings.length := by
    induction strings with
    | nil => rfl
    | cons str strings ih =>
        rw [List.map_cons, List.cons_append, List.findIdx?_cons, ih]
        rfl
  rw [terminator, stops]
  rfl

theorem array_inj {strings strings' : List Bytes} (same : array strings = array strings') : strings = strings' := by
  have fronts := List.append_cancel_right same
  exact (List.map_injective_iff.mpr (Option.some_injective Bytes)) fronts

/-- A list holds one sequence of strings. -/
theorem Holds.unique {lst : Lst} {strings strings' : List Bytes} (holds : Holds lst strings)
    (holds' : Holds lst strings') : strings = strings' := by
  rcases holds.cells with ⟨rfl, rfl⟩ | rfl
  · rcases holds'.cells with ⟨-, rfl⟩ | same
    · rfl
    · contradiction
  · rcases holds'.cells with ⟨absurd, -⟩ | same
    · contradiction
    · exact array_inj (Option.some.inj same)

/-- A list is `NULL`, or its strings stand in front of the first `NULL` of an array. -/
def Terminated (lst : Lst) (strings : List Bytes) : Prop :=
  lst = none ∧ strings = [] ∨ ∃ spare, lst = some (strings.map some ++ none :: spare)

theorem Holds.terminated {lst : Lst} {strings : List Bytes} (holds : Holds lst strings) : Terminated lst strings :=
  holds.cells.imp id fun exact => ⟨[], exact⟩

theorem Terminated.size {lst : Lst} {strings : List Bytes} (terminated : Terminated lst strings) :
    lstSize lst = .ok strings.length := by
  rcases terminated with ⟨rfl, rfl⟩ | ⟨spare, rfl⟩
  · rfl
  · exact terminator_spare strings spare

theorem Holds.size {lst : Lst} {strings : List Bytes} (holds : Holds lst strings) :
    lstSize lst = .ok strings.length :=
  holds.terminated.size

/-- A push asks for memory so many times. -/
def needs (lst : Lst) : Nat := if lst.isNone then 3 else 2

section Store

variable (strings : List Bytes) (spare : List Cell)

theorem store_end (old cell : Cell) :
    store (strings.map some ++ old :: spare) strings.length cell = .ok (strings.map some ++ cell :: spare) := by
  have within : strings.length < (strings.map some ++ old :: spare).length := by simp
  rw [store, if_pos within, List.set_append_right _ _ (by simp)]
  simp [access]

/-- The array ends behind the new cell, so the spare ones go. -/
theorem store_grown (str : Bytes) :
    store (resize (strings.map some ++ some str :: spare) (strings.length + 2)) (strings.length + 1) none =
      .ok (array (strings ++ [str])) := by
  obtain ⟨cell, grown⟩ : ∃ cell, resize (strings.map some ++ some str :: spare) (strings.length + 2) =
      (strings ++ [str]).map some ++ [cell] := by
    cases spare with
    | nil => exact ⟨none, by rw [resize, List.take_of_length_le (by simp)]; simp⟩
    | cons cell spare =>
        refine ⟨cell, ?_⟩
        have front : (strings.map some ++ some str :: cell :: spare).take (strings.length + 2) =
            strings.map some ++ [some str, cell] := by simp [List.take_append]
        rw [resize, front]
        simp
  have last := store_end (strings ++ [str]) [] cell none
  rw [List.length_append, List.length_singleton] at last
  rw [grown]
  exact last

end Store

/-- The string stands behind the others when memory is there twice. -/
theorem appendAt_spare (strings : List Bytes) (spare : List Cell) (str : Bytes) (allocs : Allocs) :
    (false ∉ allocs.take 2 → appendAt (strings.map some ++ none :: spare) strings.length str allocs =
        .ok (.ok strings.length, some (array (strings ++ [cstr str])), allocs.drop 2)) ∧
      (false ∈ allocs.take 2 → ∃ allocs', appendAt (strings.map some ++ none :: spare) strings.length str allocs =
        .ok (.error ENOMEM, some (strings.map some ++ none :: spare), allocs')) := by
  rcases allocs with _ | ⟨_ | _, _ | ⟨_ | _, allocs⟩⟩ <;>
    simp [appendAt, allocated, bind, Except.bind, pure, Except.pure, store_end, store_grown]

variable {lst : Lst} {strings : List Bytes}

/-- With memory a string goes to the end of the list. -/
theorem lstPush_ok (terminated : Terminated lst strings) (str : Bytes) {allocs : Allocs}
    (memory : false ∉ allocs.take (needs lst)) :
    lstPush lst (some str) allocs =
      .ok (.ok strings.length, some (array (strings ++ [cstr str])), allocs.drop (needs lst)) := by
  rcases terminated with ⟨rfl, rfl⟩ | ⟨spare, rfl⟩
  · rcases allocs with _ | ⟨ok, allocs⟩
    · exact (appendAt_spare [] [] str []).1 (by simp)
    · simp only [needs, Option.isNone_none, if_true, List.take_succ_cons, List.mem_cons, not_or] at memory
      obtain rfl : ok = true := by simpa using memory.1
      exact (appendAt_spare [] [] str allocs).1 memory.2
  · simp only [lstPush, terminator_spare, bind, Except.bind]
    exact (appendAt_spare strings spare str allocs).1 memory

/-- Without a string or without memory the list is what it was, or it has got an array without strings. -/
theorem lstPush_kept (terminated : Terminated lst strings) {str : Option Bytes} {allocs : Allocs}
    (fails : str = none ∨ false ∈ allocs.take (needs lst)) :
    ∃ errno lst' allocs', lstPush lst str allocs = .ok (.error errno, lst', allocs') ∧
      (lst' = lst ∨ strings = [] ∧ lst' = some [none]) := by
  cases str with
  | none => exact ⟨EINVAL, lst, allocs, rfl, Or.inl rfl⟩
  | some str =>
      have memory : false ∈ allocs.take (needs lst) := fails.resolve_left (by simp)
      rcases terminated with ⟨rfl, rfl⟩ | ⟨spare, rfl⟩
      · rcases allocs with _ | ⟨ok, allocs⟩
        · simp at memory
        · cases ok with
          | false => exact ⟨ENOMEM, none, allocs, rfl, Or.inl rfl⟩
          | true =>
              simp only [needs, Option.isNone_none, if_true, List.take_succ_cons, List.mem_cons] at memory
              obtain ⟨allocs', stops⟩ := (appendAt_spare [] [] str allocs).2 (memory.resolve_left (by simp))
              exact ⟨ENOMEM, some [none], allocs', stops, Or.inr ⟨rfl, rfl⟩⟩
      · obtain ⟨allocs', stops⟩ := (appendAt_spare strings spare str allocs).2 memory
        refine ⟨ENOMEM, some (strings.map some ++ none :: spare), allocs', ?_, Or.inl rfl⟩
        simp only [lstPush, terminator_spare, bind, Except.bind]
        exact stops

/-- A push that fails leaves its strings to the list. -/
theorem lstPush_fails (holds : Holds lst strings) {str : Option Bytes} {allocs : Allocs}
    (fails : str = none ∨ false ∈ allocs.take (needs lst)) :
    ∃ errno lst' allocs', lstPush lst str allocs = .ok (.error errno, lst', allocs') ∧ Holds lst' strings := by
  obtain ⟨errno, lst', allocs', pushed, rfl | ⟨rfl, rfl⟩⟩ := lstPush_kept holds.terminated fails
  · exact ⟨errno, _, allocs', pushed, holds⟩
  · exact ⟨errno, _, allocs', pushed, ⟨Or.inr rfl, holds.clean⟩⟩

/-- A push gives the size of the old list and puts a copy of the string behind the old ones. It fails only without a
string or when memory is missing, and then the list has the old ones. -/
theorem lstPush_append_or_unchanged (terminated : Terminated lst strings) (str : Option Bytes) (allocs : Allocs) :
    (∃ s lst' allocs', str = some s ∧ lstSize lst = .ok strings.length ∧
        lstPush lst str allocs = .ok (.ok strings.length, lst', allocs') ∧ Terminated lst' (strings ++ [cstr s])) ∨
      (str = none ∨ false ∈ allocs.take (needs lst)) ∧ ∃ errno lst' allocs',
        lstPush lst str allocs = .ok (.error errno, lst', allocs') ∧ Terminated lst' strings := by
  by_cases fails : str = none ∨ false ∈ allocs.take (needs lst)
  · right
    refine ⟨fails, ?_⟩
    obtain ⟨errno, lst', allocs', pushed, rfl | ⟨rfl, rfl⟩⟩ := lstPush_kept terminated fails
    · exact ⟨errno, _, allocs', pushed, terminated⟩
    · exact ⟨errno, _, allocs', pushed, Or.inr ⟨[], rfl⟩⟩
  · left
    obtain ⟨given, memory⟩ := not_or.mp fails
    obtain ⟨s, rfl⟩ := Option.ne_none_iff_exists'.mp given
    exact ⟨s, _, _, rfl, terminated.size, lstPush_ok terminated s memory, Or.inr ⟨[], rfl⟩⟩

/-- The array has a spare cell, and the memory for the next one is missing. -/
theorem lstPush_append_or_unchanged_spare :
    (some ([99] : Bytes) = none ∨ false ∈ [true, false].take (needs (some [some [97], none, some [98]]))) ∧
      ∃ errno lst' allocs', lstPush (some [some [97], none, some [98]]) (some [99]) [true, false] =
        .ok (.error errno, lst', allocs') ∧ Terminated lst' [[97]] := by
  have terminated : Terminated (some [some [97], none, some [98]]) [[97]] := Or.inr ⟨[some [98]], rfl⟩
  have denied : lstPush (some [some [97], none, some [98]]) (some [99]) [true, false] =
      .ok (.error ENOMEM, some [some [97], none, some [98]], []) := rfl
  obtain ⟨s, lst', allocs', -, -, pushed, -⟩ | unchanged :=
    lstPush_append_or_unchanged terminated (some [99]) [true, false]
  · rw [denied] at pushed
    simp at pushed
  · exact unchanged

/-- A string that is pushed keeps the list well formed. -/
theorem Holds.pushed (holds : Holds lst strings) (str : Bytes) :
    Holds (some (array (strings ++ [cstr str]))) (strings ++ [cstr str]) := by
  refine ⟨Or.inr rfl, fun other member => ?_⟩
  rcases List.mem_append.mp member with old | new
  · exact holds.clean other old
  · rw [List.mem_singleton.mp new]
    exact nul_not_mem_cstr str

/-- A push that finds memory changes a list to the one with the string at its end. -/
theorem lstPush_ofStrings (clean : ∀ str ∈ strings, NUL ∉ str) {str : Bytes} (cleanStr : NUL ∉ str) :
    lstPush (ofStrings strings) (some str) [] = .ok (.ok strings.length, ofStrings (strings ++ [str]), []) := by
  rw [lstPush_ok (Holds.ofStrings clean).terminated str (by simp), cstr_eq_self cleanStr, List.drop_nil]
  simp [ofStrings]

theorem clean_append {more : List Bytes} (clean : ∀ str ∈ strings, NUL ∉ str) (cleanMore : ∀ str ∈ more, NUL ∉ str) :
    ∀ str ∈ strings ++ more, NUL ∉ str := by
  intro str member
  rcases List.mem_append.mp member with old | new
  · exact clean str old
  · exact cleanMore str new

/-- A push of a pair fails at the key, or at the value, or it is done. -/
theorem mapPush_cases {map : Lst} (holds : Holds map strings) (key value : Option Bytes) (allocs : Allocs) :
    ((key = none ∨ false ∈ allocs.take (needs map)) ∧ ∃ errno map' allocs',
        mapPush map key value allocs = .ok (.error errno, map', allocs') ∧ Holds map' strings) ∨
      ∃ k, key = some k ∧ false ∉ allocs.take (needs map) ∧
        (((value = none ∨ false ∈ (allocs.drop (needs map)).take 2) ∧ ∃ errno map' allocs',
            mapPush map key value allocs = .ok (.error errno, map', allocs') ∧ Holds map' (strings ++ [cstr k])) ∨
          ∃ v, value = some v ∧ false ∉ (allocs.drop (needs map)).take 2 ∧ ∃ i map' allocs',
            mapPush map key value allocs = .ok (.ok i, map', allocs') ∧
              Holds map' (strings ++ [cstr k, cstr v])) := by
  by_cases first : key = none ∨ false ∈ allocs.take (needs map)
  · obtain ⟨errno, map', allocs', stops, same⟩ := lstPush_fails holds first
    exact Or.inl ⟨first, errno, map', allocs', by simp only [mapPush, stops]; rfl, same⟩
  · right
    rw [not_or] at first
    obtain ⟨k, rfl⟩ := Option.ne_none_iff_exists'.mp first.1
    have grown := holds.pushed k
    refine ⟨k, rfl, first.2, ?_⟩
    by_cases second : value = none ∨ false ∈ (allocs.drop (needs map)).take 2
    · obtain ⟨errno, map', allocs', stops, same⟩ := lstPush_fails grown second
      refine Or.inl ⟨second, errno, map', allocs', ?_, same⟩
      simp only [mapPush, lstPush_ok holds.terminated k first.2, bind, Except.bind]
      exact stops
    · right
      rw [not_or] at second
      obtain ⟨v, rfl⟩ := Option.ne_none_iff_exists'.mp second.1
      have whole := grown.pushed v
      rw [List.append_assoc, List.singleton_append] at whole
      have later := lstPush_ok grown.terminated v second.2
      rw [List.append_assoc, List.singleton_append] at later
      refine ⟨v, rfl, second.2, (strings ++ [cstr k]).length, _, (allocs.drop (needs map)).drop 2, ?_, whole⟩
      simp only [mapPush, lstPush_ok holds.terminated k first.2, bind, Except.bind]
      exact later

end Piercloud.Lists
