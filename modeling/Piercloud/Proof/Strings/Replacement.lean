import Piercloud.Construction.Blocks

/-
This file shows that `ptReplaceStr` stays inside its blocks and replaces each match from the left.
-/

namespace Piercloud.Blocks

open CLib Loop Liblst

/-- The rest of the copy is the string at `p`, and the result is a string that fills its block. -/
structure Holds (string out : Bytes) (s : Replacing) : Prop where
  copy : ∃ passed behind, s.copy = passed ++ string ++ NUL :: behind ∧ passed.length = s.p
  rval : s.rval = out ++ [NUL]
  clean : NUL ∉ string
  cleanOut : NUL ∉ out

section Step

variable (allocator : Block.Allocator) {search needle more string out : Bytes} {s : Replacing}

/-- Behind the last match the result gets the rest, if there is memory for it. -/
theorem replaceNext_last (replace : Bytes) (holds : Holds string out s)
    (needled : Block.stringAt search 0 = some needle) (absent : strstr string needle = none) :
    replaceNext allocator search replace s =
      if (allocator s.next).isSome then .ok (.inr (out ++ string ++ [NUL])) else .error (.failed ENOMEM) := by
  obtain ⟨passed, behind, copy, place⟩ := holds.copy
  have piece : Block.stringAt s.copy s.p = some string := by
    rw [copy, ← place]
    exact Block.stringAt_eq holds.clean passed behind
  have front : Block.stringAt s.rval 0 = some out := by
    rw [holds.rval]
    exact Block.stringAt_zero holds.cleanOut []
  simp only [replaceNext, piece, needled, access_some, bind, Except.bind, absent, front]
  rw [holds.rval, Block.realloc_eq]
  cases allocator s.next with
  | none => rfl
  | some junk =>
      simp only [Option.map_some, allocate_some, Option.isSome_some, if_true]
      rw [Block.strcat_eq holds.cleanOut piece (by simp)]
      simp [pure, Except.pure]

/-- At a match the result gets the piece in front of it and the replacement, if there is memory for them. -/
theorem replaceNext_match {replace : Bytes} (holds : Holds string out s)
    (needled : Block.stringAt search 0 = some needle) (replaced : Block.stringAt replace 0 = some more)
    (clean : NUL ∉ more) (real : needle ≠ []) {i : Nat} (found : strstr string needle = some i) :
    (∃ t, replaceNext allocator search replace s = .ok (.inl t) ∧ t.next = s.next + 1 ∧
        Holds (string.drop (i + needle.length)) (out ++ string.take i ++ more) t) ∨
      allocator s.next = none ∧ replaceNext allocator search replace s = .error (.failed ENOMEM) := by
  obtain ⟨passed, behind, copy, place⟩ := holds.copy
  obtain ⟨front, rest, rfl, rfl⟩ := strstr_some found
  obtain ⟨d, needle, rfl⟩ := List.exists_cons_of_ne_nil real
  have cleanString := holds.clean
  simp only [List.mem_append, not_or] at cleanString
  have cut : Block.poke s.copy (s.p + front.length) NUL =
      some (passed ++ front ++ NUL :: (needle ++ rest ++ NUL :: behind)) := by
    have split : s.copy = (passed ++ front) ++ d :: (needle ++ rest ++ NUL :: behind) := by
      rw [copy]
      simp
    rw [split, ← place, ← List.length_append]
    exact Block.poke_eq _ _ _ _
  have whole : Block.stringAt s.copy s.p = some (front ++ d :: needle ++ rest) := by
    rw [copy, ← place]
    exact Block.stringAt_eq holds.clean passed behind
  have piece : Block.stringAt (passed ++ front ++ NUL :: (needle ++ rest ++ NUL :: behind)) s.p = some front := by
    rw [← place]
    exact Block.stringAt_eq cleanString.1.1 passed _
  have head : Block.stringAt s.rval 0 = some out := by
    rw [holds.rval]
    exact Block.stringAt_zero holds.cleanOut []
  simp only [replaceNext, whole, needled, access_some, bind, Except.bind, found, cut, head, piece, replaced]
  rw [holds.rval, Nat.add_assoc out.length, Block.realloc_eq]
  cases allocator s.next with
  | none => exact Or.inr ⟨rfl, rfl⟩
  | some junk =>
      left
      have longer : NUL ∉ out ++ front := by
        simp [holds.cleanOut, cleanString.1.1]
      simp only [Option.map_some, allocate_some]
      rw [Block.strcat_eq holds.cleanOut piece (by simp), access_some]
      simp only
      rw [Block.strcat_eq longer replaced (by simp), access_some]
      refine ⟨_, rfl, rfl, ⟨⟨passed ++ front ++ NUL :: needle, behind, ?_, ?_⟩, ?_, ?_, ?_⟩⟩
      · simp
      · simp only [List.length_append, List.length_cons, place]
      · simp
      · simpa using cleanString.2
      · simp [holds.cleanOut, cleanString.1.1, clean]

/-- The induction is on the rest of the string. -/
theorem replaceStep_ends {replace : Bytes} (needled : Block.stringAt search 0 = some needle)
    (replaced : Block.stringAt replace 0 = some more) (clean : NUL ∉ more) (real : needle ≠ []) :
    ∀ (string out : Bytes) (s : Replacing), Holds string out s →
      Ends (replaceStep allocator search replace) s (.ok (out ++ Liblst.ptReplaceStr string needle more ++ [NUL])) ∨
        (∃ n, allocator n = none) ∧ Ends (replaceStep allocator search replace) s (.error (.failed ENOMEM)) := by
  intro string
  induction size : string.length using Nat.strong_induction_on generalizing string with
  | _ measure ih =>
      intro out s holds
      cases found : strstr string needle with
      | none =>
          have absent := (strstr_none_iff string needle).mp found
          have last := replaceNext_last allocator replace holds needled found
          rw [ptReplaceStr_absent more real absent]
          cases memory : allocator s.next with
          | none => exact Or.inr ⟨⟨_, memory⟩, .last (by rw [replaceStep, last, memory]; rfl)⟩
          | some junk => exact Or.inl (.last (by rw [replaceStep, last, memory]; rfl))
      | some i =>
          obtain ⟨t, goesOn, -, later⟩ | ⟨memory, stops⟩ :=
            replaceNext_match allocator holds needled replaced clean real found
          · have next : replaceStep allocator search replace s = .inl t := by rw [replaceStep, goesOn]; rfl
            have shorter : (string.drop (i + needle.length)).length < measure := by
              obtain ⟨front, rest, split, index⟩ := strstr_some found
              have positive := List.length_pos_of_ne_nil real
              rw [← size, List.length_drop, split]
              simp only [List.length_append]
              omega
            rw [ptReplaceStr_found more real found]
            obtain ends | ⟨memory, ends⟩ := ih _ shorter _ rfl _ _ later
            · left
              apply Ends.next next
              simpa using ends
            · exact Or.inr ⟨memory, .next next ends⟩
          · exact Or.inr ⟨⟨_, memory⟩, .last (by rw [replaceStep, stops]; rfl)⟩

end Step

/-- Each match from the left is replaced, and an empty search text asks for the replacement at the end. -/
def replaced (s search replace : Bytes) : Bytes :=
  if search = [] then s ++ replace else Replace.replaceAll search replace s

theorem ptReplaceStr_eq_replaced (s search replace : Bytes) :
    Liblst.ptReplaceStr s search replace = replaced s search replace := by
  unfold replaced
  split
  · rename_i none
    simp [Liblst.ptReplaceStr, none]
  · rename_i real
    exact ptReplaceStr_eq_replaceAll real s replace

/-- The blocks are made and filled before the loop, or memory is missing. -/
theorem replaceStart_cases (allocator : Block.Allocator) {string search replace s needle more : Bytes}
    (stringed : Block.stringAt string 0 = some s) (needled : Block.stringAt search 0 = some needle)
    (replaced : Block.stringAt replace 0 = some more) (clean : NUL ∉ s) (real : needle ≠ []) :
    (∃ t, replaceStart allocator string search replace = .ok (.inl t) ∧ Holds s [] t) ∨
      (∃ n, allocator n = none) ∧ replaceStart allocator string search replace = .error (.failed ENOMEM) := by
  have visible : needle.isEmpty = false := by simpa using real
  simp only [replaceStart, stringed, needled, replaced, access_some, bind, Except.bind, visible, Bool.false_eq_true,
    if_false, Block.malloc]
  cases first : allocator 0 with
  | none => exact Or.inr ⟨⟨0, first⟩, rfl⟩
  | some junk =>
      simp only [Option.map_some, allocate_some]
      rw [Block.strcpy_eq stringed (by simp), access_some]
      cases second : allocator 1 with
      | none => exact Or.inr ⟨⟨1, second⟩, rfl⟩
      | some junk' =>
          left
          refine ⟨_, rfl, ⟨[], _, rfl, rfl⟩, rfl, clean, by simp⟩

/-- An empty search text needs no loop. -/
theorem replaceStart_empty (allocator : Block.Allocator) {string search replace s more : Bytes}
    (stringed : Block.stringAt string 0 = some s) (needled : Block.stringAt search 0 = some [])
    (replaced : Block.stringAt replace 0 = some more) (clean : NUL ∉ s) :
    replaceStart allocator string search replace = .ok (.inr (s ++ more ++ [NUL])) ∨
      (∃ n, allocator n = none) ∧ replaceStart allocator string search replace = .error (.failed ENOMEM) := by
  simp only [replaceStart, stringed, needled, replaced, access_some, bind, Except.bind, List.isEmpty_nil, if_true,
    Block.malloc]
  cases first : allocator 0 with
  | none => exact Or.inr ⟨⟨0, first⟩, rfl⟩
  | some junk =>
      left
      simp only [Option.map_some, allocate_some]
      rw [Block.fresh_succ, Block.poke_zero, access_some]
      simp only
      rw [Block.strcat_empty stringed (by simp), access_some]
      simp only
      rw [Block.strcat_eq clean replaced (by simp), access_some]
      simp [pure, Except.pure]

/-- The search for a text ends inside the blocks, with the replaced string or without memory. -/
theorem ptReplaceStr_ends (allocator : Block.Allocator) {string search replace s needle more : Bytes}
    (stringed : Block.stringAt string 0 = some s) (needled : Block.stringAt search 0 = some needle)
    (replacing : Block.stringAt replace 0 = some more) (clean : NUL ∉ s) (cleanMore : NUL ∉ more) (real : needle ≠ []) :
    ∃ n rval, (∀ fuel ≥ n, ptReplaceStr allocator (some string) (some search) (some replace) fuel = some rval) ∧
      (rval = .ok (Liblst.ptReplaceStr s needle more ++ [NUL]) ∨
        (∃ i, allocator i = none) ∧ rval = .error (.failed ENOMEM)) := by
  obtain ⟨t, starts, holds⟩ | ⟨memory, stops⟩ := replaceStart_cases allocator stringed needled replacing clean real
  · have run : ∀ fuel, ptReplaceStr allocator (some string) (some search) (some replace) fuel =
        loop (replaceStep allocator search replace) fuel t := by
      intro fuel
      simp only [ptReplaceStr, starts, settle]
    obtain ends | ⟨memory, ends⟩ := replaceStep_ends allocator needled replacing cleanMore real s [] t holds
    · obtain ⟨n, found⟩ := ends.eventually
      exact ⟨n, _, fun fuel enough => (run fuel).trans (found fuel enough), Or.inl (by simp)⟩
    · obtain ⟨n, found⟩ := ends.eventually
      exact ⟨n, _, fun fuel enough => (run fuel).trans (found fuel enough), Or.inr ⟨memory, rfl⟩⟩
  · exact ⟨0, _, fun fuel _ => by rw [ptReplaceStr, stops]; rfl, Or.inr ⟨memory, rfl⟩⟩

/-- The run stays inside its blocks and ends. It gives the text with each match replaced in a block of its own size, or
memory is missing. -/
theorem ptReplaceStr_replaces (allocator : Block.Allocator) {s search replace : Bytes} (clean : NUL ∉ s)
    (cleanSearch : NUL ∉ search) (cleanReplace : NUL ∉ replace) (behind behind' behind'' : Bytes) :
    (∃ n rval, (∀ fuel ≥ n, ptReplaceStr allocator (some (s ++ NUL :: behind)) (some (search ++ NUL :: behind'))
        (some (replace ++ NUL :: behind'')) fuel = some rval) ∧
      (rval = .ok (replaced s search replace ++ [NUL]) ∨
        (∃ i, allocator i = none) ∧ rval = .error (.failed ENOMEM))) ∧
      (search ≠ [] → ((replaced s search replace).length : ℤ) =
        s.length + Replace.occurrences search s * ((replace.length : ℤ) - search.length)) := by
  have stringed := Block.stringAt_zero clean behind
  have needled := Block.stringAt_zero cleanSearch behind'
  have replacing := Block.stringAt_zero cleanReplace behind''
  constructor
  · rw [← ptReplaceStr_eq_replaced]
    by_cases real : search = []
    · subst real
      have plain : Liblst.ptReplaceStr s [] replace = s ++ replace := rfl
      obtain done | ⟨memory, stops⟩ := replaceStart_empty allocator stringed needled replacing clean
      · exact ⟨0, _, fun fuel _ => by rw [ptReplaceStr, done]; rfl, Or.inl (by rw [plain])⟩
      · exact ⟨0, _, fun fuel _ => by rw [ptReplaceStr, stops]; rfl, Or.inr ⟨memory, rfl⟩⟩
    · exact ptReplaceStr_ends allocator stringed needled replacing clean cleanReplace real
  · intro real
    have sizes := Replace.length_replaceAll_eq real replace s
    rw [replaced, if_neg real, mul_sub]
    push_cast [← @Nat.cast_inj ℤ] at sizes
    linarith only [sizes]

/-- The new memory is full of other bytes. -/
def dirty : Block.Allocator := fun _ => some fun _ => 255

theorem ptReplaceStr_replaces_dirty : ∃ n, ∀ fuel ≥ n,
    ptReplaceStr dirty (some (text "aaa-a" ++ NUL :: text "rest")) (some (text "aa" ++ [NUL]))
      (some (text "baa" ++ [NUL])) fuel = some (.ok (text "baaa-a" ++ [NUL])) := by
  have clean : NUL ∉ text "aaa-a" ∧ NUL ∉ text "aa" ∧ NUL ∉ text "baa" := by decide
  obtain ⟨⟨n, rval, found, rfl | ⟨⟨i, missing⟩, -⟩⟩, -⟩ :=
    ptReplaceStr_replaces dirty clean.1 clean.2.1 clean.2.2 (text "rest") [] []
  · exact ⟨n, found⟩
  · simp [dirty] at missing

end Piercloud.Blocks
