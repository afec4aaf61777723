import Piercloud.Library.CString

namespace CLib

/-- This text is what `%d`, `%ld` and `%lu` print for a natural number. -/
def decimal (n : Nat) : Bytes := (Nat.toDigits 10 n).map fun c => c.toNat.toUInt8

/-- This text is what `%d` and `%ld` print for an integer. -/
def signedDecimal (value : Int) : Bytes := if value < 0 then 45 :: decimal value.natAbs else decimal value.natAbs

def isspace (c : UInt8) : Bool := c == 32 || (9 ≤ c && c ≤ 13)

/-- A byte that is no digit in any base up to 36 has the value 36. -/
def digitValue (c : UInt8) : Nat :=
  if 48 ≤ c ∧ c ≤ 57 then c.toNat - 48
  else if 97 ≤ c ∧ c ≤ 122 then c.toNat - 87
  else if 65 ≤ c ∧ c ≤ 90 then c.toNat - 55
  else 36

/-- This fold reads a digit row from the most significant digit. -/
def digitsValue (base : Nat) (digits : Bytes) : Nat :=
  digits.foldl (fun value c => base * value + digitValue c) 0

/-- The sign is optional and stands directly before the digits. -/
def signOf : Bytes → Bool × Bytes
  | c :: rest => if c = 45 then (true, rest) else if c = 43 then (false, rest) else (false, c :: rest)
  | [] => (false, [])

/-- A hexadecimal number may start with `0x` if a digit follows. -/
def skipHexMark : Bytes → Bytes
  | zero :: mark :: digit :: rest =>
      if zero = 48 ∧ (mark = 120 ∨ mark = 88) ∧ digitValue digit < 16 then digit :: rest
      else zero :: mark :: digit :: rest
  | short => short

/-- The result saturates at the limits of a 64-bit signed integer. -/
def saturate (value : Int) : Int := max (-2 ^ 63) (min value (2 ^ 63 - 1))

def strtol (string : Bytes) (base : Nat) : Int :=
  let (negative, unsigned) := signOf (string.dropWhile isspace)
  let digits := if base = 16 then skipHexMark unsigned else unsigned
  let value : Int := digitsValue base (digits.takeWhile fun c => digitValue c < base)
  saturate (if negative then -value else value)

def atoll (string : Bytes) : Int := strtol string 10

def atol (string : Bytes) : Int := strtol string 10

/-- The C library truncates the `long` result to an `int`. -/
def atoi (string : Bytes) : Int := (strtol string 10).bmod (2 ^ 32)

/-- A signed value becomes a `size_t` modulo its width. -/
def toSize (value : Int) : Nat := (value % 2 ^ 64).toNat

/-- A `size_t` becomes a signed value of the same width. -/
def toSigned (value : Nat) : Int := if value < 2 ^ 63 then value else (value : Int) - 2 ^ 64

/-- A `size_t` subtraction wraps below zero. -/
def sizeSub (a b : Nat) : Nat := if b ≤ a then a - b else a + 2 ^ 64 - b

@[simp] theorem sizeSub_of_le {a b : Nat} (within : b ≤ a) : sizeSub a b = a - b := by
  simp [sizeSub, within]

theorem toSize_of_nonneg {value : Int} (nonneg : 0 ≤ value) (fits : value < 2 ^ 64) :
    toSize value = value.toNat := by
  rw [toSize, Int.emod_eq_of_lt nonneg fits]

theorem toSigned_of_lt {value : Nat} (fits : value < 2 ^ 63) : toSigned value = value :=
  if_pos fits

theorem saturate_of_lt {value : Nat} (fits : value < 2 ^ 63) : saturate value = value := by
  simp only [saturate]
  omega

theorem toSize_lt (value : Int) : toSize value < 2 ^ 64 := by
  rw [toSize]
  omega

/-- A `size_t` that is positive as a signed value is the same number. -/
theorem toSigned_pos {value : Nat} (word : value < 2 ^ 64) (positive : 0 < toSigned value) : value < 2 ^ 63 := by
  rw [toSigned] at positive
  split at positive <;> omega

theorem strtol_lt (string : Bytes) (base : Nat) : strtol string base < 2 ^ 63 := by
  simp only [strtol, saturate]
  omega

/-- The printed digit of a small number is its ASCII digit. -/
theorem digitChar_byte : ∀ d < 10, (Nat.digitChar d).toNat.toUInt8 = UInt8.ofNat (48 + d) := by
  decide +kernel

theorem digitValue_digit : ∀ d < 10, digitValue (UInt8.ofNat (48 + d)) = d := by decide +kernel

/-- The printed number ends with its last digit. -/
theorem decimal_step (n : Nat) : decimal n =
    if n < 10 then [UInt8.ofNat (48 + n)] else decimal (n / 10) ++ [UInt8.ofNat (48 + n % 10)] := by
  rw [decimal, Nat.toDigits_eq_if (by decide)]
  split
  · rename_i small
    simp [digitChar_byte n small]
  · simp [decimal, digitChar_byte (n % 10) (Nat.mod_lt n (by decide))]

theorem decimal_digit {n : Nat} {c : UInt8} (member : c ∈ decimal n) : digitValue c < 10 := by
  induction n using Nat.strong_induction_on with
  | _ n ih =>
      rw [decimal_step] at member
      split at member
      · rename_i small
        simp only [List.mem_singleton] at member
        rw [member, digitValue_digit n small]
        exact small
      · rename_i large
        rw [List.mem_append, List.mem_singleton] at member
        rcases member with earlier | last
        · exact ih (n / 10) (by omega) earlier
        · have small := Nat.mod_lt n (show 0 < 10 by decide)
          rw [last, digitValue_digit _ small]
          exact small

@[simp] theorem signedDecimal_natCast (n : Nat) : signedDecimal n = decimal n := by
  rw [signedDecimal, if_neg (by omega), Int.natAbs_natCast]

/-- A printed number holds nothing but digits. -/
theorem decimal_absent (n : Nat) {c : UInt8} (foreign : 10 ≤ digitValue c) : c ∉ decimal n := by
  intro member
  have digit := decimal_digit member
  omega

theorem decimal_ne_nil (n : Nat) : decimal n ≠ [] := by
  rw [decimal_step]
  split <;> simp

theorem length_decimal {n k : Nat} (positive : 0 < k) (fits : n < 10 ^ k) : (decimal n).length ≤ k := by
  induction k generalizing n with
  | zero => omega
  | succ k ih =>
      rw [decimal_step]
      split
      · simp
      · rename_i large
        have some : 0 < k := by
          by_contra none
          rw [Nat.eq_zero_of_not_pos none] at fits
          omega
        have shorter := ih some (show n / 10 < 10 ^ k by rw [pow_succ] at fits; omega)
        rw [List.length_append, List.length_singleton]
        omega

theorem digitsValue_snoc (base : Nat) (digits : Bytes) (c : UInt8) :
    digitsValue base (digits ++ [c]) = base * digitsValue base digits + digitValue c := by
  simp [digitsValue]

/-- The printed digits give the number back. -/
theorem digitsValue_decimal (n : Nat) : digitsValue 10 (decimal n) = n := by
  induction n using Nat.strong_induction_on with
  | _ n ih =>
      rw [decimal_step]
      split
      · rename_i small
        simp only [digitsValue, List.foldl_cons, List.foldl_nil, digitValue_digit n small]
        omega
      · rw [digitsValue_snoc, ih (n / 10) (by omega), digitValue_digit _ (Nat.mod_lt n (by decide))]
        omega

theorem decimal_injective {n m : Nat} (same : decimal n = decimal m) : n = m := by
  rw [← digitsValue_decimal n, same, digitsValue_decimal]

/-- Only zero is printed with a zero in front. -/
theorem decimal_zero_cons {n : Nat} {digits : Bytes} (front : decimal n = 48 :: digits) : n = 0 ∧ digits = [] := by
  induction n using Nat.strong_induction_on generalizing digits with
  | _ n ih =>
      rw [decimal_step] at front
      split at front
      · rename_i small
        obtain ⟨digit, rfl⟩ := List.cons.inj front
        have value := digitValue_digit n small
        rw [digit] at value
        exact ⟨value.symm.trans (by decide), rfl⟩
      · rename_i large
        obtain ⟨c, digits', same⟩ := List.exists_cons_of_ne_nil (decimal_ne_nil (n / 10))
        rw [same, List.cons_append] at front
        obtain ⟨rfl, -⟩ := List.cons.inj front
        have zero := (ih (n / 10) (by omega) same).1
        omega

/-- A hexadecimal digit is neither white space, nor a sign, nor the mark. -/
theorem hexDigit_plain (c : UInt8) (digit : digitValue c < 16) :
    isspace c = false ∧ c ≠ 45 ∧ c ≠ 43 ∧ c ≠ 120 ∧ c ≠ 88 := by
  have table : ∀ n < 256, digitValue (UInt8.ofNat n) < 16 → isspace (UInt8.ofNat n) = false ∧
      UInt8.ofNat n ≠ 45 ∧ UInt8.ofNat n ≠ 43 ∧ UInt8.ofNat n ≠ 120 ∧ UInt8.ofNat n ≠ 88 := by
    decide +kernel
  have entry := table c.toNat c.toNat_lt
  rw [UInt8.ofNat_toNat] at entry
  exact entry digit

/-- A decimal digit is neither white space nor a sign. -/
theorem digit_plain (c : UInt8) (digit : digitValue c < 10) :
    isspace c = false ∧ c ≠ 45 ∧ c ≠ 43 := by
  obtain ⟨space, minus, plus, -⟩ := hexDigit_plain c (by omega)
  exact ⟨space, minus, plus⟩

/-- A sign is looked for only at the first byte. -/
theorem signOf_plain {c : UInt8} {rest : Bytes} (minus : c ≠ 45) (plus : c ≠ 43) :
    signOf (c :: rest) = (false, c :: rest) := by
  simp [signOf, minus, plus]

/-- The digits of a row end where no digit follows. -/
theorem takeWhile_digits {base : Nat} {digits rest : Bytes} (all : ∀ c ∈ digits, digitValue c < base)
    (stop : ∀ c ∈ rest.head?, base ≤ digitValue c) :
    (digits ++ rest).takeWhile (fun c => digitValue c < base) = digits := by
  rw [List.takeWhile_append_of_pos (by simpa using all)]
  cases rest with
  | nil => simp
  | cons c rest =>
      have big := stop c (by simp)
      simp [Nat.not_lt.mpr big]

/-- A row of decimal digits is read up to the first other byte. -/
theorem strtol_digits {digits rest : Bytes} (some : digits ≠ []) (all : ∀ c ∈ digits, digitValue c < 10)
    (stop : ∀ c ∈ rest.head?, 10 ≤ digitValue c) :
    strtol (digits ++ rest) 10 = saturate (digitsValue 10 digits) := by
  have taken := takeWhile_digits all stop
  obtain ⟨first, others, rfl⟩ := List.exists_cons_of_ne_nil some
  obtain ⟨space, minus, plus⟩ := digit_plain first (all first (by simp))
  have start : (first :: others ++ rest).dropWhile isspace = first :: (others ++ rest) := by
    simp [space]
  simp only [strtol, start, signOf_plain minus plus]
  rw [List.cons_append] at taken
  simp [taken]

/-- The marks of a hexadecimal number are never digits of it. -/
theorem skipHexMark_digits {digits rest : Bytes} (all : ∀ c ∈ digits, digitValue c < 16)
    (stop : ∀ c ∈ rest.head?, 16 ≤ digitValue c ∧ c ≠ 120 ∧ c ≠ 88) :
    skipHexMark (digits ++ rest) = digits ++ rest := by
  have noMark : ∀ zero mark digit tail, digits ++ rest = zero :: mark :: digit :: tail →
      digitValue zero < 16 → mark ≠ 120 ∧ mark ≠ 88 := by
    intro zero mark digit tail same real
    match digits, all, same with
    | [], _, same =>
        have head := stop zero (by simp only [List.nil_append] at same; simp [same])
        omega
    | [_], _, same =>
        simp only [List.cons_append, List.nil_append, List.cons.injEq] at same
        exact (stop mark (by simp [same.2])).2
    | _ :: second :: _, all, same =>
        simp only [List.cons_append, List.cons.injEq] at same
        obtain ⟨_, _, _, low, high⟩ := hexDigit_plain second (all second (by simp))
        exact ⟨same.2.1 ▸ low, same.2.1 ▸ high⟩
  rcases shape : digits ++ rest with _ | ⟨zero, _ | ⟨mark, _ | ⟨digit, tail⟩⟩⟩
  · rfl
  · rfl
  · rfl
  · rw [skipHexMark, if_neg]
    rintro ⟨first, second, -⟩
    obtain ⟨low, high⟩ := noMark zero mark digit tail shape (by rw [first]; decide)
    exact second.elim low high

/-- A row of hexadecimal digits is read up to the first other byte. -/
theorem strtol_hexDigits {digits rest : Bytes} (some : digits ≠ [])
    (all : ∀ c ∈ digits, digitValue c < 16)
    (stop : ∀ c ∈ rest.head?, 16 ≤ digitValue c ∧ c ≠ 120 ∧ c ≠ 88) :
    strtol (digits ++ rest) 16 = saturate (digitsValue 16 digits) := by
  have taken := takeWhile_digits all fun c member => (stop c member).1
  have unmarked := skipHexMark_digits all stop
  obtain ⟨first, others, rfl⟩ := List.exists_cons_of_ne_nil some
  obtain ⟨space, minus, plus, -⟩ := hexDigit_plain first (all first (by simp))
  have start : (first :: others ++ rest).dropWhile isspace = first :: (others ++ rest) := by
    simp [space]
  rw [List.cons_append] at taken unmarked
  simp only [strtol, start, signOf_plain minus plus, if_true, unmarked]
  simp [taken]

/-- No byte of a hexadecimal numeral ends a line or a string. -/
theorem hexDigits_absent {digits : Bytes} (all : ∀ c ∈ digits, digitValue c < 16) {c : UInt8}
    (foreign : 16 ≤ digitValue c) : c ∉ digits :=
  fun member => absurd (all c member) (not_lt.mpr foreign)

theorem toSize_strtol_hex {digits : Bytes} (some : digits ≠ []) (all : ∀ c ∈ digits, digitValue c < 16)
    (fits : digitsValue 16 digits < 2 ^ 63) : toSize (strtol digits 16) = digitsValue 16 digits := by
  have read : strtol (digits ++ []) 16 = saturate (digitsValue 16 digits) := strtol_hexDigits some all (by simp)
  rw [List.append_nil, saturate_of_lt fits] at read
  rw [read, toSize_of_nonneg (by omega) (by omega), Int.toNat_natCast]

/-- The parser gives back each printed number that fits. -/
theorem strtol_decimal {n : Nat} (fits : n < 2 ^ 63) : strtol (decimal n) 10 = n := by
  have read : strtol (decimal n ++ []) 10 = saturate (digitsValue 10 (decimal n)) :=
    strtol_digits (decimal_ne_nil n) (fun _ => decimal_digit) (by simp)
  rw [List.append_nil, digitsValue_decimal, saturate_of_lt fits] at read
  exact read

theorem atoi_decimal {n : Nat} (fits : n < 2 ^ 31) : atoi (decimal n) = n := by
  rw [atoi, strtol_decimal (by omega), Int.bmod_eq_of_le_mul_two] <;> omega

theorem toSize_atoll_decimal {n : Nat} (fits : n < 2 ^ 63) : toSize (atoll (decimal n)) = n := by
  rw [atoll, strtol_decimal fits, toSize_of_nonneg] <;> omega

/-- What stands behind the first foreign byte does not change the number. -/
theorem strtol_stop (front : Bytes) {c : UInt8} (space : isspace c = false) (minus : c ≠ 45)
    (plus : c ≠ 43) (stop : 10 ≤ digitValue c) (tail tail' : Bytes) :
    strtol (front ++ c :: tail) 10 = strtol (front ++ c :: tail') 10 := by
  have body : ∀ row behind : Bytes, (row ++ c :: behind).takeWhile (fun d => digitValue d < 10) =
      row.takeWhile (fun d => digitValue d < 10) := by
    intro row behind
    rw [List.takeWhile_append]
    split
    · rename_i whole
      rw [(List.takeWhile_prefix _).eq_of_length whole]
      simp [Nat.not_lt.mpr stop]
    · rfl
  have lead : ∀ behind : Bytes, (front ++ c :: behind).dropWhile isspace =
      front.dropWhile isspace ++ c :: behind := by
    intro behind
    rw [List.dropWhile_append]
    split
    · rename_i blank
      rw [List.isEmpty_iff.mp blank]
      simp [space]
    · rfl
  simp only [strtol, lead]
  rcases front.dropWhile isspace with _ | ⟨first, row⟩
  · simp [signOf_plain minus plus, Nat.not_lt.mpr stop]
  · simp only [List.cons_append, signOf]
    have first_row := fun behind => body (first :: row) behind
    simp only [List.cons_append] at first_row
    split
    · simp [body]
    · split
      · simp [body]
      · simp [first_row]

end CLib
