import Mathlib.Data.List.TakeWhile
import Mathlib.Tactic

namespace CLib

abbrev Bytes := List UInt8

/-- This function gives the bytes of an ASCII literal. -/
def text (literal : String) : Bytes := literal.toList.map fun c => c.toNat.toUInt8

def NUL : UInt8 := 0
def LF : UInt8 := 10
def CR : UInt8 := 13

/-- The C string in a memory block ends before its first NUL. -/
def cstr (memory : Bytes) : Bytes := memory.takeWhile (· != NUL)

def strlen (memory : Bytes) : Nat := (cstr memory).length

/-- The copy writes the source string and its NUL over the head of the destination. -/
def strcpy (destination source : Bytes) : Bytes :=
  cstr source ++ NUL :: destination.drop (strlen source + 1)

/-- The search stops at the terminator and gives the offset of the first match. -/
def strchr (memory : Bytes) (c : UInt8) : Option Nat := (cstr memory).findIdx? (· == c)

/-- The search covers exactly the first `count` bytes. -/
def memchr (memory : Bytes) (c : UInt8) (count : Nat) : Option Nat :=
  (memory.take count).findIdx? (· == c)

/-- The result is the offset of the first occurrence in a C string. -/
def strstr : Bytes → Bytes → Option Nat
  | [], needle => if needle.isEmpty then some 0 else none
  | c :: rest, needle =>
      if needle.isPrefixOf (c :: rest) then some 0 else (strstr rest needle).map (· + 1)

def tolower (c : UInt8) : UInt8 := if 65 ≤ c ∧ c ≤ 90 then c + 32 else c

/-- The search ignores the case of ASCII letters. -/
def strcasestr (haystack needle : Bytes) : Option Nat :=
  strstr (haystack.map tolower) (needle.map tolower)

theorem cstr_eq_self {bytes : Bytes} (clean : NUL ∉ bytes) : cstr bytes = bytes := by
  rw [cstr, List.takeWhile_eq_self_iff]
  intro c member
  have different : c ≠ NUL := fun same => clean (same ▸ member)
  simp [different]

/-- The terminator hides the memory behind it. -/
theorem cstr_append_nul {bytes : Bytes} (clean : NUL ∉ bytes) (rest : Bytes) :
    cstr (bytes ++ NUL :: rest) = bytes := by
  have whole := cstr_eq_self clean
  rw [cstr] at whole ⊢
  rw [List.takeWhile_append, whole]
  simp

/-- A terminator behind the block does not change the string in it. -/
theorem cstr_append_terminator (bytes rest : Bytes) : cstr (bytes ++ NUL :: rest) = cstr bytes := by
  rw [cstr, List.takeWhile_append]
  split
  · rename_i whole
    have same : bytes.takeWhile (· != NUL) = bytes :=
      (List.takeWhile_prefix _).eq_of_length whole
    simp [cstr, same]
  · rfl

theorem nul_not_mem_cstr (memory : Bytes) : NUL ∉ cstr memory := by
  intro member
  have kept := List.mem_takeWhile_imp member
  simp at kept

theorem mem_of_mem_cstr {memory : Bytes} {c : UInt8} (member : c ∈ cstr memory) : c ∈ memory :=
  (List.takeWhile_prefix _).subset member

/-- The first match splits the block in front of it. -/
theorem findIdx_split {front : Bytes} {c : UInt8} (absent : c ∉ front) (rest : Bytes) :
    (front ++ c :: rest).findIdx? (· == c) = some front.length := by
  induction front with
  | nil => simp [List.findIdx?_cons]
  | cons first front ih =>
      simp only [List.mem_cons, not_or] at absent
      rw [List.cons_append, List.findIdx?_cons, ih absent.2]
      simp [Ne.symm absent.1]

theorem findIdx_none {bytes : Bytes} {c : UInt8} (absent : c ∉ bytes) :
    bytes.findIdx? (· == c) = none := by
  rw [List.findIdx?_eq_none_iff]
  intro other member
  simpa using fun same : other = c => absent (same ▸ member)

/-- A block is free of the byte or splits at its first occurrence. -/
theorem split_first (bytes : Bytes) (c : UInt8) :
    c ∉ bytes ∨ ∃ front rest, bytes = front ++ c :: rest ∧ c ∉ front := by
  by_cases member : c ∈ bytes
  · obtain ⟨front, rest, same, absent⟩ := List.eq_append_cons_of_mem member
    exact Or.inr ⟨front, rest, same, absent⟩
  · exact Or.inl member

/-- Two splits at the first byte outside a class agree. -/
theorem span_unique {keeps : UInt8 → Bool} {front front' rest rest' : Bytes} {c c' : UInt8}
    (all : ∀ b ∈ front, keeps b = true) (all' : ∀ b ∈ front', keeps b = true) (stop : keeps c = false)
    (stop' : keeps c' = false) (same : front ++ c :: rest = front' ++ c' :: rest') :
    front = front' ∧ c :: rest = c' :: rest' := by
  have taken := congrArg (List.takeWhile keeps) same
  rw [List.takeWhile_append_of_pos all, List.takeWhile_append_of_pos all'] at taken
  have fronts : front = front' := by simpa [stop, stop'] using taken
  exact ⟨fronts, List.append_cancel_left (fronts ▸ same)⟩

theorem all_other {bytes : Bytes} {c : UInt8} (absent : c ∉ bytes) : ∀ b ∈ bytes, (b != c) = true := by
  intro b member
  simpa using fun same : b = c => absent (same ▸ member)

/-- A line end adds only its own byte to a line. -/
theorem not_mem_ending {line ending : Bytes} {b c : UInt8} (absent : b ∉ line) (ends : ∀ d ∈ ending, d = c)
    (other : b ≠ c) : b ∉ line ++ ending := by
  rw [List.mem_append, not_or]
  exact ⟨absent, fun member => other (ends b member)⟩

/-- Two splits at the first occurrence agree. -/
theorem split_unique {front front' rest rest' : Bytes} {c : UInt8} (absent : c ∉ front)
    (absent' : c ∉ front') (same : front ++ c :: rest = front' ++ c :: rest') :
    front = front' ∧ rest = rest' := by
  obtain ⟨fronts, tails⟩ := span_unique (all_other absent) (all_other absent') (by simp) (by simp) same
  exact ⟨fronts, (List.cons.inj tails).2⟩

/-- A longer front of one split holds the front of the other. -/
theorem append_cut {a b c d : Bytes} (same : a ++ b = c ++ d) (within : c.length ≤ a.length) :
    ∃ q, a = c ++ q ∧ q ++ b = d := by
  obtain ⟨q, rfl⟩ := List.prefix_of_prefix_length_le ⟨d, same.symm⟩ ⟨b, rfl⟩ within
  exact ⟨q, rfl, by simpa using same⟩

theorem memchr_split {front : Bytes} {c : UInt8} (absent : c ∉ front) (rest behind : Bytes) :
    memchr (front ++ c :: rest ++ behind) c (front.length + 1 + rest.length) = some front.length := by
  rw [memchr, List.take_left' (by simp; omega)]
  exact findIdx_split absent rest

theorem memchr_none {bytes : Bytes} {c : UInt8} (absent : c ∉ bytes) (behind : Bytes) :
    memchr (bytes ++ behind) c bytes.length = none := by
  rw [memchr, List.take_left]
  exact findIdx_none absent

/-- A string goes on behind an ordinary byte. -/
theorem cstr_split {front : Bytes} {c : UInt8} (clean : NUL ∉ front) (real : c ≠ NUL) (rest : Bytes) :
    cstr (front ++ c :: rest) = front ++ c :: cstr rest := by
  rw [cstr, List.takeWhile_append, show front.takeWhile (· != NUL) = front from cstr_eq_self clean]
  simp [cstr, real]

theorem strchr_split {front : Bytes} {c : UInt8} (absent : c ∉ front) (clean : NUL ∉ front)
    (real : c ≠ NUL) (rest : Bytes) : strchr (front ++ c :: rest) c = some front.length := by
  rw [strchr, cstr_split clean real]
  exact findIdx_split absent _

theorem strchr_append_terminator (bytes rest : Bytes) (c : UInt8) :
    strchr (bytes ++ NUL :: rest) c = strchr bytes c := by
  rw [strchr, cstr_append_terminator, strchr]

/-- A found byte ends a front that holds neither the byte nor a terminator. -/
theorem strchr_some {memory : Bytes} {c : UInt8} {index : Nat} (found : strchr memory c = some index) :
    ∃ front rest, memory = front ++ c :: rest ∧ index = front.length ∧ c ∉ front ∧ NUL ∉ front := by
  obtain ⟨tail, split⟩ : cstr memory <+: memory := List.takeWhile_prefix _
  obtain absent | ⟨front, rest, same, absent⟩ := split_first (cstr memory) c
  · rw [strchr, findIdx_none absent] at found
    contradiction
  · rw [strchr, same, findIdx_split absent] at found
    refine ⟨front, rest ++ tail, ?_, (Option.some.inj found).symm, absent, ?_⟩
    · rw [← split, same]
      simp
    · intro member
      exact nul_not_mem_cstr memory (by rw [same]; simp [member])

theorem strstr_zero_iff (haystack needle : Bytes) :
    strstr haystack needle = some 0 ↔ needle <+: haystack := by
  cases haystack with
  | nil => cases needle <;> simp [strstr]
  | cons c rest =>
      by_cases front : needle.isPrefixOf (c :: rest)
      · simp only [strstr, front, if_true, true_iff]
        exact List.isPrefixOf_iff_prefix.mp front
      · simp only [strstr, front]
        have missing : ¬ needle <+: c :: rest := fun h => front (List.isPrefixOf_iff_prefix.mpr h)
        simp [missing]

/-- A found offset splits the string around its first occurrence. -/
theorem strstr_some {haystack needle : Bytes} {index : Nat} (found : strstr haystack needle = some index) :
    ∃ front rest, haystack = front ++ needle ++ rest ∧ index = front.length := by
  induction haystack generalizing index with
  | nil =>
      cases needle with
      | nil => exact ⟨[], [], rfl, by simpa [strstr] using found.symm⟩
      | cons => simp [strstr] at found
  | cons c rest ih =>
      by_cases front : needle.isPrefixOf (c :: rest)
      · obtain ⟨tail, split⟩ := List.isPrefixOf_iff_prefix.mp front
        exact ⟨[], tail, by simpa using split.symm, by simpa [strstr, front] using found.symm⟩
      · simp only [strstr, front, Bool.false_eq_true, if_false, Option.map_eq_some_iff] at found
        obtain ⟨inner, deeper, same⟩ := found
        obtain ⟨before, behind, split, length⟩ := ih deeper
        exact ⟨c :: before, behind, by simp [split], by simp [← same, length]⟩

theorem strstr_none_iff (haystack needle : Bytes) :
    strstr haystack needle = none ↔ ¬ needle <:+: haystack := by
  induction haystack with
  | nil => cases needle <;> simp [strstr]
  | cons c rest ih =>
      rw [List.infix_cons_iff, ← List.isPrefixOf_iff_prefix]
      by_cases front : needle.isPrefixOf (c :: rest)
      · simp [strstr, front]
      · simp [strstr, front, ih]

/-- One byte is found at the end of the front that does not hold it. -/
theorem strstr_byte {front : Bytes} {c : UInt8} (absent : c ∉ front) (rest : Bytes) :
    strstr (front ++ c :: rest) [c] = some front.length := by
  induction front with
  | nil => simp [strstr]
  | cons first front ih =>
      simp only [List.mem_cons, not_or] at absent
      simp [strstr, absent.1, ih absent.2]

theorem strcasestr_zero_iff (haystack needle : Bytes) :
    strcasestr haystack needle = some 0 ↔ needle.map tolower <+: haystack.map tolower :=
  strstr_zero_iff _ _

end CLib
