import Piercloud.Library.CString
import Piercloud.Library.Replace

/-
This file embeds the string functions of `liblst.c`. A `char*` argument stands for the text in front of
its NUL, except in `chopStr`, which rewrites a memory block in place.
-/

namespace Piercloud.Liblst

open CLib

/-- The loop cuts the copy at each match and appends the piece and the replacement to the result. -/
def replaceLoop (search replace : Bytes) : Nat → Bytes → Bytes → Bytes
  | 0, p, rval => rval ++ p
  | fuel + 1, p, rval =>
      match strstr p search with
      | none => rval ++ p
      | some s => replaceLoop search replace fuel (p.drop (s + search.length)) (rval ++ p.take s ++ replace)

/-- An empty search text appends the replacement. -/
def ptReplaceStr (string search replace : Bytes) : Bytes :=
  if search.isEmpty then string ++ replace
  else replaceLoop search replace (string.length + 1) string []

/-- The caller's format gives the replacement text. -/
def replaceStrFormat (string search replace : Bytes) : Bytes := ptReplaceStr string search replace

/-- This is the search for the expression that asks for the mark and at least one more byte. -/
def lstEgrep (lst : List Bytes) (mark : Bytes) : List Bytes :=
  lst.filter fun entry => mark.isPrefixOf entry && decide (mark.length < entry.length)

/-- The loop pushes a label at each splitter that ends one. -/
def splitLoop (splitter : UInt8) : Bytes → Option Bytes → List Bytes → List Bytes
  | [], none, lst => lst
  | [], some b, lst => lst ++ [b]
  | c :: p, b, lst =>
      if c = splitter then splitLoop splitter p none (lst ++ b.toList)
      else splitLoop splitter p (some (b.getD [] ++ [c])) lst

/-- Empty labels are left out. A text without a label gives the null list. -/
def lstSplitStr (splitter : UInt8) (s : Bytes) : List Bytes := splitLoop splitter (cstr s) none []

/-- The block keeps its size; only the string at its head changes. -/
def chopStr (memory : Bytes) : Bytes :=
  strcpy memory (ptReplaceStr (ptReplaceStr (cstr memory) [LF] []) [CR] [])

@[simp] theorem replaceStrFormat_empty (string replace : Bytes) :
    replaceStrFormat string [] replace = string ++ replace := rfl

/-- A label goes on up to the next splitter. -/
theorem splitLoop_label {splitter : UInt8} {label : Bytes} (absent : splitter ∉ label) (rest front : Bytes)
    (lst : List Bytes) : splitLoop splitter (label ++ splitter :: rest) (some front) lst =
      splitLoop splitter rest none (lst ++ [front ++ label]) := by
  induction label generalizing front with
  | nil => simp [splitLoop]
  | cons c label ih =>
      simp only [List.mem_cons, not_or] at absent
      rw [List.cons_append, splitLoop, if_neg (Ne.symm absent.1), Option.getD_some, ih absent.2,
        List.append_assoc, List.singleton_append]

/-- The list only grows. -/
theorem splitLoop_list (splitter : UInt8) (p : Bytes) (b : Option Bytes) (lst : List Bytes) :
    splitLoop splitter p b lst = lst ++ splitLoop splitter p b [] := by
  induction p generalizing b lst with
  | nil => cases b <;> simp [splitLoop]
  | cons c p ih =>
      rw [splitLoop, splitLoop]
      split
      · rw [ih none (lst ++ b.toList), ih none ([] ++ b.toList), List.nil_append, List.append_assoc]
      · exact ih _ lst

/-- A label is split off in front of a splitter. -/
theorem lstSplitStr_cons {splitter : UInt8} {label : Bytes} (real : label ≠ []) (absent : splitter ∉ label)
    (clean : NUL ∉ label) (ordinary : splitter ≠ NUL) (rest : Bytes) :
    lstSplitStr splitter (label ++ splitter :: rest) = label :: lstSplitStr splitter rest := by
  obtain ⟨c, label, rfl⟩ := List.exists_cons_of_ne_nil real
  simp only [List.mem_cons, not_or] at absent
  rw [lstSplitStr, cstr_split clean ordinary, List.cons_append, splitLoop, if_neg (Ne.symm absent.1),
    splitLoop_label absent.2, splitLoop_list, lstSplitStr]
  rfl

/-- The first label ends at the first splitter behind it. -/
theorem lstSplitStr_first {splitter : UInt8} {label : Bytes} (real : label ≠ []) (absent : splitter ∉ label)
    (clean : NUL ∉ label) (ordinary : splitter ≠ NUL) (rest : Bytes) :
    (lstSplitStr splitter (label ++ splitter :: rest)).head? = some label := by
  rw [lstSplitStr_cons real absent clean ordinary]
  rfl

/-- The accumulated result stands in front of the later pieces. -/
theorem replaceLoop_rval (search replace : Bytes) (fuel : Nat) (p rval : Bytes) :
    replaceLoop search replace fuel p rval = rval ++ replaceLoop search replace fuel p [] := by
  induction fuel generalizing p rval with
  | zero => simp [replaceLoop]
  | succ fuel ih =>
      simp only [replaceLoop]
      cases strstr p search with
      | none => simp
      | some s =>
          simp only
          rw [ih _ (rval ++ p.take s ++ replace), ih _ ([] ++ p.take s ++ replace)]
          simp

/-- Enough fuel for the text is enough for every larger fuel. -/
theorem replaceLoop_fuel {search : Bytes} (real : search ≠ []) (replace : Bytes) {fuel fuel' : Nat}
    {p : Bytes} (enough : p.length < fuel) (enough' : p.length < fuel') :
    replaceLoop search replace fuel p [] = replaceLoop search replace fuel' p [] := by
  induction fuel generalizing fuel' p with
  | zero => omega
  | succ fuel ih =>
      obtain ⟨other, rfl⟩ : ∃ other, fuel' = other + 1 := ⟨fuel' - 1, by omega⟩
      simp only [replaceLoop]
      cases found : strstr p search with
      | none => rfl
      | some s =>
          obtain ⟨front, rest, split, index⟩ := strstr_some found
          have positive := List.length_pos_of_ne_nil real
          have shorter : (p.drop (s + search.length)).length < fuel ∧
              (p.drop (s + search.length)).length < other := by
            rw [split]
            simp only [List.length_drop, List.length_append, split] at enough enough' ⊢
            omega
          simp only
          rw [replaceLoop_rval, replaceLoop_rval search replace other, ih shorter.1 shorter.2]

/-- A text without the search text does not change. -/
theorem ptReplaceStr_absent {string search : Bytes} (replace : Bytes) (real : search ≠ [])
    (absent : ¬ search <:+: string) : ptReplaceStr string search replace = string := by
  have none := (strstr_none_iff string search).mpr absent
  simp [ptReplaceStr, replaceLoop, none, real]

/-- The first match splits the text, and the replacement goes on behind it. -/
theorem ptReplaceStr_found {string search : Bytes} (replace : Bytes) {s : Nat} (real : search ≠ [])
    (found : strstr string search = some s) :
    ptReplaceStr string search replace =
      string.take s ++ replace ++ ptReplaceStr (string.drop (s + search.length)) search replace := by
  obtain ⟨front, rest, split, index⟩ := strstr_some found
  have positive := List.length_pos_of_ne_nil real
  have nonempty : search.isEmpty = false := by simpa using real
  simp only [ptReplaceStr, nonempty, Bool.false_eq_true, if_false]
  rw [replaceLoop, found]
  simp only
  rw [replaceLoop_rval]
  congr 1
  apply replaceLoop_fuel real
  · rw [split, index]
    simp only [List.length_drop, List.length_append]
    omega
  · exact Nat.lt_succ_self _

/-- The loop replaces every occurrence of the search text. -/
theorem ptReplaceStr_eq_replaceAll {search : Bytes} (real : search ≠ []) (string replace : Bytes) :
    ptReplaceStr string search replace = Replace.replaceAll search replace string := by
  have first : ∀ {string : Bytes} {s : Nat}, strstr string search = some s →
      Replace.replaceAll search replace string =
        string.take s ++ replace ++ Replace.replaceAll search replace (string.drop (s + search.length)) := by
    intro string
    induction string with
    | nil => simp [strstr, real]
    | cons c rest ih =>
        intro s found
        by_cases front : search <+: c :: rest
        · rw [(strstr_zero_iff _ _).mpr front] at found
          obtain rfl := Option.some.inj found
          obtain ⟨tail, same⟩ := front
          rw [← same, Replace.replaceAll_needle real]
          simp
        · have notFront : search.isPrefixOf (c :: rest) = false := by
            rwa [Bool.eq_false_iff, ne_eq, List.isPrefixOf_iff_prefix]
          simp only [strstr, notFront, Bool.false_eq_true, if_false, Option.map_eq_some_iff] at found
          obtain ⟨inner, deeper, rfl⟩ := found
          rw [Replace.replaceAll_cons front, ih deeper, Nat.add_right_comm, List.take_succ_cons, List.drop_succ_cons]
          rfl
  induction h : string.length using Nat.strong_induction_on generalizing string with
  | _ n ih =>
      cases found : strstr string search with
      | none =>
          have absent := (strstr_none_iff string search).mp found
          rw [ptReplaceStr_absent replace real absent, Replace.replaceAll_absent absent]
      | some s =>
          obtain ⟨front, rest, split, index⟩ := strstr_some found
          have positive := List.length_pos_of_ne_nil real
          have shorter : (string.drop (s + search.length)).length < n := by
            rw [← h, split]
            simp only [List.length_drop, List.length_append]
            omega
          rw [ptReplaceStr_found replace real found, first found, ih _ shorter _ rfl]

/-- Deleting one byte is a filter. -/
theorem ptReplaceStr_delete (string : Bytes) (c : UInt8) :
    ptReplaceStr string [c] [] = string.filter (· != c) := by
  induction h : string.length using Nat.strong_induction_on generalizing string with
  | _ n ih =>
      obtain absent | ⟨front, rest, split, absent⟩ := split_first string c
      · rw [ptReplaceStr_absent [] (by simp) (by rwa [List.singleton_infix_iff]), List.filter_eq_self.mpr]
        intro other member
        simpa using fun same : other = c => absent (same ▸ member)
      · have found : strstr string [c] = some front.length := split ▸ strstr_byte absent rest
        have kept : front.filter (· != c) = front := by
          rw [List.filter_eq_self]
          intro other member
          simpa using fun same : other = c => absent (same ▸ member)
        rw [ptReplaceStr_found [] (by simp) found,
          ih rest.length (by rw [← h, split]; simp; omega) _ (by rw [split]; simp), split]
        simp [kept]

/-- The string at the head of the block loses its line ends. -/
theorem chopStr_eq (memory : Bytes) :
    chopStr memory = strcpy memory ((cstr memory).filter fun c => c != LF && c != CR) := by
  rw [chopStr, ptReplaceStr_delete, ptReplaceStr_delete, List.filter_filter]
  congr 2
  funext c
  exact Bool.and_comm _ _

/-- The chopped string has neither of the two line end bytes. -/
theorem cstr_chopStr (memory : Bytes) :
    cstr (chopStr memory) = (cstr memory).filter fun c => c != LF && c != CR := by
  have clean : NUL ∉ (cstr memory).filter fun c => c != LF && c != CR :=
    fun member => nul_not_mem_cstr memory (List.mem_filter.mp member).1
  rw [chopStr_eq, strcpy, cstr_eq_self clean, cstr_append_nul clean]

/-- A line of a string loses the carriage return in front of its end. -/
theorem cstr_chopStr_line {line : Bytes} (clean : NUL ∉ line) (noReturn : CR ∉ line) (noNewline : LF ∉ line) :
    cstr (chopStr (line ++ [CR] ++ [NUL])) = line := by
  have string : NUL ∉ line ++ [CR] := by simpa using ⟨clean, by decide⟩
  have kept : line.filter (fun c => c != LF && c != CR) = line := by
    rw [List.filter_eq_self]
    intro c member
    have notNewline : c ≠ LF := fun same => noNewline (same ▸ member)
    have notReturn : c ≠ CR := fun same => noReturn (same ▸ member)
    simp [notNewline, notReturn]
  rw [cstr_chopStr, cstr_append_nul string, List.filter_append, kept]
  simp

end Piercloud.Liblst
