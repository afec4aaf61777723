import Mathlib.Data.List.DropRight
import Piercloud.Construction.Strings
import Piercloud.Proof.Strings.Replacement

/-
This file says for which strings `trimStr` stays inside its copy, and that it strips both ends there.
-/

namespace Piercloud.Blocks

open CLib Loop Liblst

/-- The string without the white space at its ends. -/
def trimmed (s : Bytes) : Bytes := (s.dropWhile isspace).rdropWhile isspace

theorem nul_not_mem_trimmed {s : Bytes} (clean : NUL ∉ s) : NUL ∉ trimmed s :=
  fun member => clean ((List.dropWhile_suffix isspace).subset ((List.rdropWhile_prefix isspace _).subset member))

theorem length_trimmed_le (s : Bytes) : (trimmed s).length ≤ s.length :=
  (List.rdropWhile_prefix isspace _).length_le.trans (List.dropWhile_suffix isspace).length_le

section Front

variable {c : UInt8} (front rest : Bytes)

theorem access_at (c : UInt8) : access (front ++ c :: rest)[front.length]? = .ok c := by
  rw [List.getElem?_append_right le_rfl]
  simp

/-- White space in front of the string is overwritten. -/
theorem trimFrontNext_space (space : isspace c) :
    trimFrontNext (front ++ c :: rest, front.length) = .ok (.inl (front ++ NUL :: rest, front.length + 1)) := by
  have real : c ≠ NUL := by
    rintro rfl
    exact absurd space (by decide)
  simp only [trimFrontNext, access_at, bind, Except.bind, real, space, ne_eq, not_false_iff, and_self, if_true]
  rw [Block.poke_eq]
  rfl

/-- Another byte ends the loop. -/
theorem trimFrontNext_other (other : ¬ isspace c) :
    trimFrontNext (front ++ c :: rest, front.length) = .ok (.inr (front ++ c :: rest, front.length)) := by
  have stops : ¬ (c ≠ NUL ∧ isspace c) := fun both => other both.2
  simp only [trimFrontNext, access_at, bind, Except.bind, if_neg stops]
  rfl

end Front

/-- The induction is on the string. The bytes in front of it have been overwritten. -/
theorem trimFront_run (s : Bytes) : ∀ (zeros : Bytes) (fuel : Nat), (∀ c ∈ zeros, c = NUL) → s.length < fuel →
    ∃ zeros', loop (fun s => settle (trimFrontNext s)) fuel (zeros ++ s ++ [NUL], zeros.length) =
        some (.ok (zeros' ++ s.dropWhile isspace ++ [NUL], zeros'.length)) ∧ (∀ c ∈ zeros', c = NUL) ∧
      zeros'.length + (s.dropWhile isspace).length = zeros.length + s.length := by
  induction s with
  | nil =>
      intro zeros fuel planted enough
      obtain ⟨fuel, rfl⟩ := Nat.exists_eq_add_of_le' (show 1 ≤ fuel from enough)
      refine ⟨zeros, ?_, planted, rfl⟩
      rw [loop, List.append_nil, trimFrontNext_other zeros [] (by decide), List.dropWhile_nil, List.append_nil]
      rfl
  | cons c s ih =>
      intro zeros fuel planted enough
      obtain ⟨fuel, rfl⟩ := Nat.exists_eq_add_of_le' (show 1 ≤ fuel by omega)
      rw [List.length_cons, Nat.add_lt_add_iff_right] at enough
      rw [List.append_assoc, List.cons_append, loop]
      by_cases space : isspace c
      · have more : ∀ d ∈ zeros ++ [NUL], d = NUL := by
          simpa [or_imp, forall_and] using planted
        obtain ⟨zeros', found, planted', size⟩ := ih (zeros ++ [NUL]) fuel more enough
        rw [trimFrontNext_space zeros _ space, List.dropWhile_cons_of_pos space]
        have shift : zeros ++ [NUL] ++ s ++ [NUL] = zeros ++ NUL :: (s ++ [NUL]) := by simp
        rw [shift, List.length_append] at found
        refine ⟨zeros', found, planted', ?_⟩
        rw [size, List.length_append, List.length_singleton, List.length_cons]
        omega
      · rw [trimFrontNext_other zeros _ space, List.dropWhile_cons_of_neg space]
        refine ⟨zeros, ?_, planted, rfl⟩
        rw [List.append_assoc, List.cons_append]
        rfl

section Back

variable {c : UInt8} (front rest : Bytes)

/-- White space behind the string is overwritten. -/
theorem trimBackNext_space (space : isspace c) :
    trimBackNext (front ++ c :: rest, front.length) = .ok (.inl (front ++ NUL :: rest, front.length - 1)) := by
  have real : c ≠ NUL := by
    rintro rfl
    exact absurd space (by decide)
  have place : placeAt (front.length : Int) = some front.length := by simp [placeAt]
  simp only [trimBackNext, place, access_some, access_at, bind, Except.bind, real, space, ne_eq, not_false_iff,
    and_self, if_true]
  rw [Block.poke_eq]
  rfl

theorem trimBackNext_other (other : ¬ isspace c) :
    trimBackNext (front ++ c :: rest, front.length) = .ok (.inr (front ++ c :: rest)) := by
  have place : placeAt (front.length : Int) = some front.length := by simp [placeAt]
  have stops : ¬ (c ≠ NUL ∧ isspace c) := fun both => other both.2
  simp only [trimBackNext, place, access_some, access_at, bind, Except.bind, if_neg stops]
  rfl

end Back

/-- The induction is on the string from its end. Its first byte is not white space and ends the loop. -/
theorem trimBack_run (first : UInt8) (real : ¬ isspace first) (s : Bytes) : ∀ (zeros behind : Bytes) (fuel : Nat),
    s.length < fuel → ∃ junk, loop (fun s => settle (trimBackNext s)) fuel
      (zeros ++ first :: s ++ NUL :: behind, ((zeros ++ first :: s).length : Int) - 1) =
        some (.ok (zeros ++ (first :: s).rdropWhile isspace ++ NUL :: junk)) := by
  induction s using List.reverseRecOn with
  | nil =>
      intro zeros behind fuel enough
      obtain ⟨fuel, rfl⟩ := Nat.exists_eq_add_of_le' (show 1 ≤ fuel from enough)
      have place : ((zeros ++ [first]).length : Int) - 1 = zeros.length := by simp
      refine ⟨behind, ?_⟩
      rw [loop, place, List.append_assoc, List.singleton_append, trimBackNext_other zeros _ real,
        List.rdropWhile_singleton, if_neg real]
      simp [settle]
  | append_singleton s c ih =>
      intro zeros behind fuel enough
      obtain ⟨fuel, rfl⟩ := Nat.exists_eq_add_of_le' (show 1 ≤ fuel by omega)
      rw [List.length_append, List.length_singleton, Nat.add_lt_add_iff_right] at enough
      have place : ((zeros ++ first :: (s ++ [c])).length : Int) - 1 = (zeros ++ first :: s).length := by simp; omega
      have split : zeros ++ first :: (s ++ [c]) ++ NUL :: behind = (zeros ++ first :: s) ++ c :: NUL :: behind := by
        simp
      rw [loop, place, split, ← List.cons_append]
      by_cases space : isspace c
      · rw [trimBackNext_space _ _ space, List.rdropWhile_concat_pos _ _ _ space]
        exact ih zeros (NUL :: behind) fuel enough
      · rw [trimBackNext_other _ _ space, List.rdropWhile_concat_neg _ _ _ space]
        exact ⟨behind, by simp [settle]⟩

/-- The front loop ends at the first byte that is not white space. -/
theorem trimFront_eq (s : Bytes) :
    ∃ zeros, trimFront (s ++ [NUL]) = .ok (zeros ++ s.dropWhile isspace ++ [NUL], zeros.length) ∧
      (∀ c ∈ zeros, c = NUL) ∧ zeros.length + (s.dropWhile isspace).length = s.length := by
  obtain ⟨zeros, found, planted, size⟩ := trimFront_run s [] ((s ++ [NUL]).length + 1) (by simp) (by simp)
  rw [List.nil_append, List.length_nil] at found
  exact ⟨zeros, by rw [trimFront, found, Option.getD_some], planted, by simpa using size⟩

/-- The loop at the end leaves the trimmed string, or it looks in front of an empty copy. -/
theorem trimBack_cases (s : Bytes) {zeros : Bytes} (planted : ∀ c ∈ zeros, c = NUL)
    (size : zeros.length + (s.dropWhile isspace).length = s.length) :
    (s = [] ∧ trimBack (zeros ++ s.dropWhile isspace ++ [NUL])
        (zeros.length + (s.dropWhile isspace).length - 1) = .error .outside) ∨
      s ≠ [] ∧ ∃ junk, trimBack (zeros ++ s.dropWhile isspace ++ [NUL])
        (zeros.length + (s.dropWhile isspace).length - 1) = .ok (zeros ++ trimmed s ++ NUL :: junk) := by
  cases rest : s.dropWhile isspace with
  | nil =>
      rw [rest, List.length_nil, Nat.add_zero] at size
      cases zeros using List.reverseRecOn with
      | nil =>
          obtain rfl : s = [] := List.eq_nil_of_length_eq_zero size.symm
          exact Or.inl ⟨rfl, rfl⟩
      | append_singleton zeros c =>
          right
          -- The loop in front has written this byte, and it ends the loop at once.
          obtain rfl : c = NUL := planted c (by simp)
          have real : s ≠ [] := by
            rintro rfl
            simp at size
          have place : ((zeros ++ [NUL]).length : Int) + ([] : Bytes).length - 1 = zeros.length := by simp
          have split : zeros ++ [NUL] ++ [] ++ [NUL] = zeros ++ NUL :: [NUL] := by simp
          refine ⟨real, [], ?_⟩
          rw [trimmed, rest, place, split, trimBack, loop, trimBackNext_other zeros [NUL] (by decide)]
          simp [settle]
  | cons first rest' =>
      right
      have real : ¬ isspace first := by
        have head := List.head_dropWhile_not isspace (show s.dropWhile isspace ≠ [] by simp [rest])
        simpa [rest] using head
      have place : (zeros.length : Int) + (first :: rest').length - 1 =
          ((zeros ++ first :: rest').length : Int) - 1 := by simp
      obtain ⟨junk, found⟩ := trimBack_run first real rest' zeros [] ((zeros ++ first :: rest' ++ [NUL]).length + 1)
        (by simp; omega)
      refine ⟨?_, junk, ?_⟩
      · rintro rfl
        simp at rest
      · rw [trimmed, rest, place, trimBack, found, Option.getD_some]

/-- With memory the string loses the white space at its ends, or it is empty and the loop leaves the copy. -/
theorem trimStr_cases {allocator : Block.Allocator} {junk : Nat → UInt8} (memory : allocator 0 = some junk) {s : Bytes}
    (clean : NUL ∉ s) (behind : Bytes) :
    (s = [] ∧ trimStr allocator (some (s ++ NUL :: behind)) = .error .outside) ∨
      s ≠ [] ∧ ∃ block, trimStr allocator (some (s ++ NUL :: behind)) = .ok block ∧
        Block.Rewritten s behind (trimmed s) block := by
  have found := Block.stringAt_zero clean behind
  obtain ⟨zeros, front, planted, size⟩ := trimFront_eq s
  have copied : Block.strcpy (Block.fresh junk (s.length + 1)) (s ++ NUL :: behind) 0 = some (s ++ [NUL]) := by
    rw [Block.strcpy_eq found (by simp), List.drop_eq_nil_of_le (by simp)]
  have cleanRest : NUL ∉ s.dropWhile isspace := fun member => clean ((List.dropWhile_suffix isspace).subset member)
  have rest : Block.stringAt (zeros ++ s.dropWhile isspace ++ [NUL]) zeros.length = some (s.dropWhile isspace) :=
    Block.stringAt_eq cleanRest zeros []
  have run : trimStr allocator (some (s ++ NUL :: behind)) =
      (trimBack (zeros ++ s.dropWhile isspace ++ [NUL]) (zeros.length + (s.dropWhile isspace).length - 1)).bind
        fun copy => access (Block.strcpy (s ++ NUL :: behind) copy zeros.length) := by
    simp only [trimStr, found, Block.malloc, memory, Option.map_some, access_some, allocate_some, bind, Except.bind,
      copied, front, rest]
  rw [run]
  obtain ⟨empty, outside⟩ | ⟨real, junk, done⟩ := trimBack_cases s planted size
  · rw [outside]
    exact Or.inl ⟨empty, rfl⟩
  · have string := Block.stringAt_eq (nul_not_mem_trimmed clean) zeros junk
    obtain ⟨block, copied, rewritten⟩ := Block.strcpy_rewritten string (length_trimmed_le s) behind
    rw [done, Except.bind, copied]
    exact Or.inr ⟨real, block, rfl, rewritten⟩

theorem trimStr_refused {allocator : Block.Allocator} (missing : allocator 0 = none) {s : Bytes} (clean : NUL ∉ s)
    (behind : Bytes) : trimStr allocator (some (s ++ NUL :: behind)) = .error (.failed ENOMEM) := by
  simp only [trimStr, Block.stringAt_zero clean, Block.malloc, missing, Option.map_none, access_some, bind, Except.bind]
  rfl

/-- The call stays inside its copy and strips both ends, or it finds no memory, exactly when the string is not empty or
there is no memory for the copy. -/
theorem trimStr_strips_iff (allocator : Block.Allocator) {s : Bytes} (clean : NUL ∉ s) (behind : Bytes) :
    ((∃ block, trimStr allocator (some (s ++ NUL :: behind)) = .ok block ∧
          Block.Rewritten s behind ((s.dropWhile isspace).rdropWhile isspace) block) ∨
        allocator 0 = none ∧ trimStr allocator (some (s ++ NUL :: behind)) = .error (.failed ENOMEM)) ↔
      s ≠ [] ∨ allocator 0 = none := by
  cases memory : allocator 0 with
  | none => exact iff_of_true (Or.inr ⟨rfl, trimStr_refused memory clean behind⟩) (Or.inr rfl)
  | some junk =>
      simp only [reduceCtorEq, false_and, or_false]
      obtain ⟨empty, outside⟩ | ⟨real, block, done, rewritten⟩ := trimStr_cases memory clean behind
      · apply iff_of_false
        · rintro ⟨block, done, -⟩
          simp [outside] at done
        · exact fun real => real empty
      · exact iff_of_true ⟨block, done, rewritten⟩ real

theorem trimStr_strips_both : ∃ block, trimStr dirty (some (text " \t a b  " ++ NUL :: text "rest")) = .ok block ∧
    Block.Rewritten (text " \t a b  ") (text "rest") (text "a b") block :=
  ((trimStr_strips_iff dirty (by decide) (text "rest")).mpr (Or.inl (by decide))).resolve_right (by simp [dirty])

/-- In an empty copy the loop at the end reads the byte in front of the copy. -/
theorem trimStr_empty : trimFront [NUL] = .ok ([NUL], 0) ∧ Block.stringAt [NUL] 0 = some [] ∧
    trimBack [NUL] (0 + ([] : Bytes).length - 1) = .error .outside ∧ trimStr dirty (some [NUL]) = .error .outside :=
  ⟨rfl, rfl, rfl, rfl⟩

end Piercloud.Blocks
