import Piercloud.Proof.Respond.Lines

/-
This file tells when the header in front of a decoded body announces its length, and nothing else.
-/

namespace Piercloud.Client

open CLib Liblst Wire Replace

/-- Some header line gives a length, and each that does gives this one. -/
def Announces (header : Bytes) (n : Nat) : Prop :=
  (∃ line ∈ headerLines header, Starts contentLengthMark line) ∧
    ∀ line ∈ headerLines header, Starts contentLengthMark line → line.drop contentLengthMark.length = decimal n

/-- This is the line that the length of a decoded body takes the place of. -/
def zeroLength : Bytes := text "Content-Length: 0"

/-- An emitted line is redirected, and then it may get the length. -/
def finalLine (cfg : Config) (n : Nat) (line : Bytes) : Bytes :=
  replaceAll zeroLength (contentLengthMark ++ decimal n) (replaceAll localLocation (deviceLocation cfg) line)

/-- This is the header in front of a decoded body. -/
def chunkedHeader (cfg : Config) (lines : List Bytes) (n : Nat) : Bytes :=
  (lines.map fun line => finalLine cfg n (emittedLine line)).flatMap (· ++ [LF]) ++ [LF]

/-- A line that starts with the mark has the value of the length, or it is the line that gets it. -/
def Agrees (n : Nat) (line : Bytes) : Prop :=
  line = zeroLength ∨ line.drop contentLengthMark.length = decimal n

theorem chunkedHeader_eq (cfg : Config) (lines : List Bytes) (n : Nat) :
    replaceStrFormat (replaceStrFormat (redirected cfg (lines.flatMap fun line => emittedLine line ++ [LF]))
        (text "Content-Length: 0") (contentLengthMark ++ decimal n)) [] [LF] = chunkedHeader cfg lines n := by
  have listed : lines.flatMap (fun line => emittedLine line ++ [LF]) =
      (lines.map emittedLine).flatMap (· ++ [LF]) := by
    rw [List.flatMap_map]
  rw [replaceStrFormat_empty, replaceStrFormat, ptReplaceStr_eq_replaceAll (by decide), redirected, replaceStrFormat,
    ptReplaceStr_eq_replaceAll (by decide), listed, replaceAll_lines (by decide) (by decide),
    replaceAll_lines (by decide) (by decide), List.map_map, List.map_map]
  rfl

/-- The start of a line is all that a mark needs. -/
theorem starts_of_take {mark line line' : Bytes} (same : line.take mark.length = line'.take mark.length) :
    Starts mark line ↔ Starts mark line' := by
  rw [Starts, Starts, List.prefix_iff_eq_take, List.prefix_iff_eq_take, List.length_map, ← List.map_take,
    ← List.map_take, same]

theorem deviceLocation_eq (cfg : Config) :
    deviceLocation cfg = text "Location: http://" ++ (cstr cfg.gId ++ text ".piercloud.com/") :=
  List.append_assoc _ _ _

/-- A redirection keeps the start of a line. -/
theorem redirection_take (cfg : Config) (line : Bytes) :
    (replaceAll localLocation (deviceLocation cfg) line).take contentLengthMark.length =
      line.take contentLengthMark.length := by
  rw [deviceLocation_eq]
  apply replaceAll_take (by decide) (by decide)
  · rw [List.length_append]
    exact Nat.le_add_right_of_le (by decide)
  · rw [List.take_append_of_le_length (by decide)]
    decide

/-- The length goes behind the start of a line. -/
theorem zeroLength_take (n : Nat) (line : Bytes) :
    (replaceAll zeroLength (contentLengthMark ++ decimal n) line).take contentLengthMark.length =
      line.take contentLengthMark.length := by
  apply replaceAll_take (by decide) (by decide) (by simp)
  rw [List.take_left]
  decide

theorem finalLine_take (cfg : Config) (n : Nat) (line : Bytes) :
    (finalLine cfg n line).take contentLengthMark.length = line.take contentLengthMark.length := by
  rw [finalLine, zeroLength_take, redirection_take]

/-- Neither replacement adds a line end or removes a line. -/
theorem finalLine_plain {cfg : Config} (oneLine : LF ∉ cfg.gId) (n : Nat) {line : Bytes}
    (plain : line ≠ [] ∧ LF ∉ line) : finalLine cfg n line ≠ [] ∧ LF ∉ finalLine cfg n line := by
  have device : LF ∉ deviceLocation cfg := by
    rw [deviceLocation_eq]
    have name : LF ∉ cstr cfg.gId := fun member => oneLine (mem_of_mem_cstr member)
    simpa using ⟨by decide, name, by decide⟩
  have length : LF ∉ contentLengthMark ++ decimal n := by
    simpa using ⟨by decide, (decimal_clean n).2.2.2⟩
  constructor
  · apply replaceAll_ne_nil (by decide)
    · simp [decimal_ne_nil]
    · exact replaceAll_ne_nil (by decide) (by rw [deviceLocation_eq]; simp [text]) plain.1
  · intro member
    rcases mem_replaceAll (by decide) member with new | old
    · exact length new
    · exact (mem_replaceAll (by decide) old).elim device plain.2

theorem emittedLine_plain {line : Bytes} (clean : Clean line) : emittedLine line ≠ [] ∧ LF ∉ emittedLine line := by
  obtain ⟨real, -, -, absent⟩ := clean
  rw [emittedLine, statusLine_eq]
  split
  · exact ⟨by decide, by decide⟩
  · split
    · refine ⟨replaceAll_ne_nil (by decide) (by decide) real, fun member => ?_⟩
      exact (mem_replaceAll (by decide) member).elim (by decide) absent
    · exact ⟨real, absent⟩

/-- A line that starts with the mark and has a number behind it. -/
structure Numbered (n : Nat) (line : Bytes) : Prop where
  marked : Starts contentLengthMark line
  value : line.drop contentLengthMark.length = decimal n

/-- The letters of such a line stand in the mark or are digits. -/
theorem Numbered.letter {n : Nat} {line : Bytes} (numbered : Numbered n line) {c : UInt8} (member : c ∈ line) :
    tolower c ∈ contentLengthMark.map tolower ∨ digitValue c < 10 := by
  rw [← List.take_append_drop contentLengthMark.length line, numbered.value, List.mem_append] at member
  rcases member with front | digit
  · left
    have marked := numbered.marked
    rw [Starts, List.prefix_iff_eq_take, List.length_map, ← List.map_take] at marked
    rw [marked]
    exact List.mem_map_of_mem front
  · exact Or.inr (decimal_digit digit)

/-- Its only `C` is the first letter. -/
theorem Numbered.first {n : Nat} {a b : Bytes} (numbered : Numbered n (a ++ 67 :: b)) : a = [] := by
  by_contra real
  have positive := List.length_pos_of_ne_nil real
  by_cases within : a.length < contentLengthMark.length
  · have table : ∀ k < contentLengthMark.length, 0 < k → (contentLengthMark.map tolower)[k]? ≠ some 99 := by decide
    apply table a.length within positive
    obtain ⟨tail, same⟩ := numbered.marked
    have here := congrArg (fun bytes : Bytes => bytes[a.length]?) same
    simp only [List.map_append, List.map_cons] at here
    rw [List.getElem?_append_left (by simpa using within), List.getElem?_append_right (by simp)] at here
    simpa [tolower] using here
  · have digit : (67 : UInt8) ∈ decimal n := by
      rw [← numbered.value, List.drop_append_of_le_length (not_lt.mp within)]
      simp
    exact absurd (decimal_digit digit) (by decide)

/-- A slash keeps the line from having only a number. -/
theorem Numbered.no_slash {n : Nat} {line : Bytes} (numbered : Numbered n line) : (47 : UInt8) ∉ line :=
  fun member => (numbered.letter member).elim (by decide) (by decide)

theorem zeroLength_eq : zeroLength = contentLengthMark ++ [48] := by decide

/-- The length is put into a line that has it exactly when the line is the empty one or has the number already. -/
theorem zeroLength_replaced {n : Nat} {line : Bytes} (marked : Starts contentLengthMark line) :
    (replaceAll zeroLength (contentLengthMark ++ decimal n) line).drop contentLengthMark.length = decimal n ↔
      Agrees n line := by
  have kept : Starts contentLengthMark (replaceAll zeroLength (contentLengthMark ++ decimal n) line) :=
    (starts_of_take (zeroLength_take n line)).mpr marked
  by_cases inside : zeroLength <:+: line
  · obtain ⟨a, b, split, replaced⟩ := replaceAll_found (by decide) inside (contentLengthMark ++ decimal n)
    rw [replaced] at kept ⊢
    -- Both sides say that nothing stands around the only match.
    constructor
    · intro value
      obtain rfl : a = [] := @Numbered.first n a (text "ontent-Length: " ++ decimal n ++ _)
        (by simpa [contentLengthMark, text] using Numbered.mk kept value)
      rw [List.nil_append, List.append_assoc, List.drop_left] at value
      have nothing : replaceAll zeroLength (contentLengthMark ++ decimal n) b = [] := by simpa using value
      have blank : b = [] := by
        by_contra real
        exact replaceAll_ne_nil (by decide) (by simp [decimal_ne_nil]) real nothing
      left
      simp [split, blank]
    · intro agrees
      obtain ⟨rfl, rfl⟩ : a = [] ∧ b = [] := by
        rcases agrees with same | value
        · have sizes := congrArg List.length (split.symm.trans same)
          simp only [List.length_append] at sizes
          exact ⟨List.length_eq_zero_iff.mp (by omega), List.length_eq_zero_iff.mp (by omega)⟩
        · have numbered : Numbered n line := ⟨marked, value⟩
          rw [split] at numbered
          obtain rfl : a = [] := @Numbered.first n a (text "ontent-Length: 0" ++ b)
            (by simpa [zeroLength, text] using numbered)
          have digits := numbered.value
          rw [List.nil_append, zeroLength_eq, List.append_assoc, List.drop_left] at digits
          exact ⟨rfl, (decimal_zero_cons digits.symm).2⟩
      simp
  · rw [replaceAll_absent inside, Agrees]
    refine (or_iff_right ?_).symm
    rintro rfl
    exact inside (List.infix_refl _)

theorem Agrees.no_slash {n : Nat} {line : Bytes} (agrees : Agrees n line) (marked : Starts contentLengthMark line) :
    (47 : UInt8) ∉ line := by
  rcases agrees with rfl | value
  · decide
  · exact Numbered.no_slash ⟨marked, value⟩

/-- A redirection has a slash, so it never makes a line agree. -/
theorem finalLine_value (cfg : Config) {n : Nat} {line : Bytes} (marked : Starts contentLengthMark line) :
    (finalLine cfg n line).drop contentLengthMark.length = decimal n ↔ Agrees n line := by
  by_cases inside : localLocation <:+: line
  · have slash : (47 : UInt8) ∈ line := inside.subset (by decide)
    obtain ⟨a, b, -, replaced⟩ := replaceAll_found (by decide) inside (deviceLocation cfg)
    have slash' : (47 : UInt8) ∈ replaceAll localLocation (deviceLocation cfg) line := by
      have device : (47 : UInt8) ∈ deviceLocation cfg := by
        rw [deviceLocation_eq]
        exact List.mem_append_left _ (by decide)
      simp [replaced, device]
    have marked' : Starts contentLengthMark (replaceAll localLocation (deviceLocation cfg) line) :=
      (starts_of_take (redirection_take cfg line)).mpr marked
    rw [finalLine, zeroLength_replaced marked']
    exact iff_of_false (fun agrees => agrees.no_slash marked' slash') (fun agrees => agrees.no_slash marked slash)
  · rw [finalLine, replaceAll_absent inside, zeroLength_replaced marked]

/-- An emitted line agrees when the line of the response does. -/
theorem emittedLine_agrees (n : Nat) (line : Bytes) :
    (Starts contentLengthMark (emittedLine line) → Agrees n (emittedLine line)) ↔
      (Starts contentLengthMark line → Agrees n line) := by
  by_cases chunked : Starts chunkedMark line
  · have unmarked : ¬ Starts contentLengthMark line := by
      rintro ⟨rest, same⟩
      obtain ⟨rest', same'⟩ := chunked
      have heads := congrArg List.head? (same.trans same'.symm)
      simp [contentLengthMark, chunkedMark, text, tolower] at heads
    rw [emittedLine, if_pos ((strcasestr_starts _ _).mpr chunked)]
    exact iff_of_true (fun _ => Or.inl rfl) (fun marked => absurd marked unmarked)
  · rw [emittedLine, if_neg fun found => chunked ((strcasestr_starts _ _).mp found)]
    rcases statusLine_cases line with same | unmarked
    · rw [same]
    · obtain ⟨before, after⟩ := unmarked contentLengthMark ⟨67, by decide, by decide⟩
      rw [ne_eq, strcasestr_starts] at before after
      exact iff_of_true (fun marked => absurd marked after) (fun marked => absurd marked before)

/-- The header announces the length exactly when each line of the response that gives a length agrees with it. -/
theorem chunkedHeader_announces_iff {cfg : Config} (oneLine : LF ∉ cfg.gId) {lines : List Bytes}
    (clean : ∀ line ∈ lines, Clean line) (chunked : ∃ line ∈ lines, Starts chunkedMark line) (n : Nat) :
    Announces (chunkedHeader cfg lines n) n ↔ ∀ line ∈ lines, Starts contentLengthMark line → Agrees n line := by
  have listed : headerLines (chunkedHeader cfg lines n) =
      lines.map fun line => finalLine cfg n (emittedLine line) := by
    refine headerLines_block (fun final member => ?_) []
    obtain ⟨line, inside, rfl⟩ := List.mem_map.mp member
    exact finalLine_plain oneLine n (emittedLine_plain (clean line inside))
  have marked : ∀ line, Starts contentLengthMark (finalLine cfg n line) ↔ Starts contentLengthMark line :=
    fun line => starts_of_take (finalLine_take cfg n line)
  have some : ∃ line ∈ headerLines (chunkedHeader cfg lines n), Starts contentLengthMark line := by
    obtain ⟨line, member, start⟩ := chunked
    rw [listed]
    refine ⟨_, List.mem_map_of_mem member, ?_⟩
    rw [marked, emittedLine, if_pos ((strcasestr_starts _ _).mpr start)]
    decide
  rw [Announces, and_iff_right some, listed, List.forall_mem_map]
  refine forall₂_congr fun line member => ?_
  rw [marked, ← emittedLine_agrees]
  exact forall_congr' fun start => finalLine_value cfg start

end Piercloud.Client
