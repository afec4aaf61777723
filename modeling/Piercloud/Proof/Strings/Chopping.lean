import Piercloud.Construction.Strings
import Piercloud.Proof.Strings.Replacement

/-
This file shows that `chopStr` deletes the line ends of a string in place.
-/

namespace Piercloud.Blocks

open CLib Liblst

/-- The string without newlines and carriage returns. -/
def chopped (s : Bytes) : Bytes := s.filter fun c => c != LF && c != CR

theorem nul_not_mem_chopped {s : Bytes} (clean : NUL ∉ s) : NUL ∉ chopped s :=
  fun member => clean (List.mem_filter.mp member).1

theorem chopped_chopped (s : Bytes) : chopped (chopped s) = chopped s := by
  rw [chopped, chopped, List.filter_filter]
  simp

/-- The two deletions are one filter. -/
theorem delete_delete (s : Bytes) :
    Liblst.ptReplaceStr (Liblst.ptReplaceStr s [LF] []) [CR] [] = chopped s := by
  rw [ptReplaceStr_delete, ptReplaceStr_delete, List.filter_filter, chopped]
  congr 1
  funext c
  exact Bool.and_comm _ _

/-- The deletion of one byte ends, and the result fills its block. -/
theorem delete_ends (allocator : Block.Allocator) {block s : Bytes} (found : Block.stringAt block 0 = some s)
    (clean : NUL ∉ s) {c : UInt8} (real : c ≠ NUL) :
    ∃ n rval, (∀ fuel ≥ n, ptReplaceStr allocator (some block) (some [c, NUL]) (some [NUL]) fuel = some rval) ∧
      (rval = .ok (Liblst.ptReplaceStr s [c] [] ++ [NUL]) ∨
        (∃ i, allocator i = none) ∧ rval = .error (.failed ENOMEM)) := by
  have needled : Block.stringAt [c, NUL] 0 = some [c] :=
    Block.stringAt_zero (show NUL ∉ [c] by simpa using real.symm) []
  have replacing : Block.stringAt [NUL] 0 = some [] := Block.stringAt_zero List.not_mem_nil []
  exact ptReplaceStr_ends allocator found needled replacing clean (by simp) (by simp)

/-- The call ends. The string in the block is chopped, or memory is missing. -/
theorem chopStr_ends (first second : Block.Allocator) {s : Bytes} (clean : NUL ∉ s) (behind : Bytes) :
    ∃ n rval, (∀ fuel ≥ n, chopStr first second (some (s ++ NUL :: behind)) fuel = some rval) ∧
      ((∃ block, rval = .ok block ∧ Block.strcpy (s ++ NUL :: behind) (chopped s ++ [NUL]) 0 = some block ∧
          Block.Rewritten s behind (chopped s) block) ∨
        (∃ i, first i = none ∨ second i = none) ∧ rval = .error (.failed ENOMEM)) := by
  have found := Block.stringAt_zero clean behind
  obtain ⟨n, t, run, rfl | ⟨⟨i, missing⟩, rfl⟩⟩ := delete_ends first found clean (show LF ≠ NUL by decide)
  · have cleanRest : NUL ∉ Liblst.ptReplaceStr s [LF] [] := by
      rw [ptReplaceStr_delete]
      exact fun member => clean (List.mem_filter.mp member).1
    obtain ⟨m, t2, run', outcome⟩ :=
      delete_ends second (Block.stringAt_zero cleanRest []) cleanRest (show CR ≠ NUL by decide)
    rw [delete_delete] at outcome
    have both : ∀ fuel ≥ max n m, chopStr first second (some (s ++ NUL :: behind)) fuel =
        some (t2.bind fun t2 => access (Block.strcpy (s ++ NUL :: behind) t2 0)) := by
      intro fuel enough
      simp only [chopStr, run fuel (le_of_max_le_left enough), run' fuel (le_of_max_le_right enough)]
      cases t2 <;> rfl
    obtain rfl | ⟨⟨i, missing⟩, rfl⟩ := outcome
    · have string := Block.stringAt_zero (nul_not_mem_chopped clean) []
      obtain ⟨block, copied, rewritten⟩ := Block.strcpy_rewritten string (List.length_filter_le _ s) behind
      refine ⟨max n m, .ok block, fun fuel enough => ?_, Or.inl ⟨block, rfl, copied, rewritten⟩⟩
      rw [both fuel enough, Except.bind, copied]
      rfl
    · exact ⟨max n m, _, both, Or.inr ⟨⟨i, Or.inr missing⟩, rfl⟩⟩
  · refine ⟨n, .error (.failed ENOMEM), fun fuel enough => ?_, Or.inr ⟨⟨i, Or.inl missing⟩, rfl⟩⟩
    simp only [chopStr, run fuel enough]

/-- The function on blocks gives what the function on memory gives. -/
theorem strcpy_chopped {s : Bytes} (clean : NUL ∉ s) {behind block : Bytes}
    (copied : Block.strcpy (s ++ NUL :: behind) (chopped s ++ [NUL]) 0 = some block) :
    block = Liblst.chopStr (s ++ NUL :: behind) := by
  have string := Block.stringAt_zero (nul_not_mem_chopped clean) []
  have short : (chopped s).length < (s ++ NUL :: behind).length := by
    have fewer : (chopped s).length ≤ s.length := List.length_filter_le _ s
    rw [List.length_append, List.length_cons]
    omega
  rw [Block.strcpy_eq string short] at copied
  rw [chopStr_eq, cstr_append_nul clean, ← chopped, CLib.strcpy, strlen, cstr_eq_self (nul_not_mem_chopped clean)]
  exact (Option.some.inj copied).symm

/-- A chopped string is copied to its own place. -/
theorem strcpy_same {s : Bytes} (clean : NUL ∉ s) (behind : Bytes) :
    Block.strcpy (s ++ NUL :: behind) (s ++ [NUL]) 0 = some (s ++ NUL :: behind) := by
  rw [Block.strcpy_eq (Block.stringAt_zero clean []) (by simp), ← List.drop_drop, List.drop_left, List.drop_one,
    List.tail_cons]

/-- The call deletes the line ends of the string and nothing else, and a second call changes nothing. Memory may be
missing for either of them. -/
theorem chopStr_filters (first second first' second' : Block.Allocator) {s : Bytes} (clean : NUL ∉ s)
    (behind : Bytes) :
    ∃ n rval, (∀ fuel ≥ n, chopStr first second (some (s ++ NUL :: behind)) fuel = some rval) ∧
      ((∃ block, rval = .ok block ∧ Block.Rewritten s behind (s.filter fun c => c != LF && c != CR) block ∧
          block = Liblst.chopStr (s ++ NUL :: behind) ∧
          ∃ m again, (∀ fuel ≥ m, chopStr first' second' (some block) fuel = some again) ∧
            (again = .ok block ∨ (∃ i, first' i = none ∨ second' i = none) ∧ again = .error (.failed ENOMEM))) ∨
        (∃ i, first i = none ∨ second i = none) ∧ rval = .error (.failed ENOMEM)) := by
  obtain ⟨n, rval, run, ⟨block, rfl, copied, rewritten⟩ | missing⟩ := chopStr_ends first second clean behind
  · refine ⟨n, _, run, Or.inl ⟨block, rfl, rewritten, strcpy_chopped clean copied, ?_⟩⟩
    obtain ⟨filler, rfl, -⟩ := rewritten
    have cleanNew := nul_not_mem_chopped clean
    obtain ⟨m, again, run', outcome⟩ := chopStr_ends first' second' cleanNew (filler ++ behind)
    rw [← List.cons_append, ← List.append_assoc] at run' outcome
    refine ⟨m, again, run', outcome.imp_left ?_⟩
    rintro ⟨block, rfl, copied, -⟩
    rw [chopped_chopped, List.append_assoc, List.cons_append, strcpy_same cleanNew] at copied
    rw [← Option.some.inj copied, List.append_assoc, List.cons_append]
  · exact ⟨n, rval, run, Or.inr missing⟩

theorem chopStr_filters_mixed : ∃ n, ∀ fuel ≥ n,
    chopStr dirty dirty (some (text "test\n test\r\n test\n\n\n" ++ NUL :: text "rest")) fuel =
      some (.ok (text "test test test" ++ NUL :: text "st\n\n\n" ++ NUL :: text "rest")) := by
  have clean : NUL ∉ text "test\n test\r\n test\n\n\n" := by decide
  obtain ⟨n, rval, run, ⟨block, rfl, -, same, -⟩ | ⟨⟨i, missing⟩, -⟩⟩ :=
    chopStr_filters dirty dirty dirty dirty clean (text "rest")
  · refine ⟨n, fun fuel enough => ?_⟩
    rw [run fuel enough, same, chopStr_eq, cstr_append_nul clean]
    rfl
  · simp [dirty] at missing

end Piercloud.Blocks
