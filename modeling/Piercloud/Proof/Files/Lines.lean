import Piercloud.Proof.Files.Rows

/-
This file shows for which files the rows of `readFileRow` are the lines of the file.
-/

namespace Piercloud.Files

open CLib Loop Liblst Piercloud.Lists Cgi

/-- The results of so many calls on one descriptor. -/
def readRows : Nat → Option Bytes → List Input → List (Int × Option Bytes)
  | 0, _, _ => []
  | calls + 1, static, reads =>
      let (result, static, reads) := readFileRow static reads
      result :: readRows calls static reads

/-- The text that is still to come. -/
def left (static : Option Bytes) (reads : List Input) : Bytes := static.getD [] ++ (texts reads).flatten

theorem rowFor_pos (line : Bytes) : 0 < (rowFor line).1 := by
  rw [rowFor]
  omega

theorem left_none (reads : List Input) : left none reads = (texts reads).flatten := rfl

theorem left_some (rest : Bytes) (reads : List Input) : left (some rest) reads = rest ++ (texts reads).flatten := rfl

theorem nul_not_mem_left {static : Option Bytes} (clean : NUL ∉ static.getD []) (reads : List Input) :
    NUL ∉ left static reads := by
  rw [left, List.mem_append, not_or]
  exact ⟨clean, nul_not_mem_texts reads⟩

theorem left_kept (static : Option Bytes) (reads : List Input) :
    left (some (left static reads)) [] = left static reads := by
  rw [left_some, texts_nil, List.flatten_nil, List.append_nil]

/-- The text that a call leaves has no terminator. -/
theorem Cuts.cleanRest {rest line behind : Bytes} {reads reads' : List Input}
    (cuts : Cuts rest reads line behind reads') :
    NUL ∉ (some (Replace.replaceAll (line ++ [LF]) [] behind)).getD [] := by
  intro member
  rw [Option.getD_some] at member
  rcases Replace.mem_replaceAll (by simp) member with new | old
  · simp at new
  · exact cuts.clean old

section Rows

variable {static : Option Bytes} {reads : List Input}

/-- A rest without a newline is a row for ever. -/
theorem readRows_stuck (calls : Nat) (clean : NUL ∉ static.getD []) (comes : ∀ input ∈ reads, Chunk input)
    (absent : LF ∉ left static reads) (some : left static reads ≠ []) :
    ∀ result ∈ readRows calls static reads, result.1 ≠ 0 := by
  induction calls generalizing static reads with
  | zero => simp [readRows]
  | succ calls ih =>
      obtain ⟨-, found⟩ | ⟨line, behind, reads', cuts, -⟩ := readFileRow_cases clean comes
      · rw [← left, lastResult, if_neg some] at found
        rw [readRows, found]
        simp only [List.mem_cons, forall_eq_or_imp]
        exact ⟨(rowFor_pos _).ne',
          ih (nul_not_mem_left clean reads) (by simp) (by rwa [left_kept]) (by rwa [left_kept])⟩
      · rw [left, cuts.split] at absent
        simp at absent

/-- Each row in front of the end takes a newline from the text. -/
theorem readRows_count (calls : Nat) (clean : NUL ∉ static.getD []) (comes : ∀ input ∈ reads, Chunk input)
    {rows : List (Int × Option Bytes)} (ended : readRows (calls + 1) static reads = rows ++ [(0, none)])
    (real : ∀ row ∈ rows, row.1 ≠ 0) : calls ≤ (left static reads).count LF := by
  induction calls generalizing static reads rows with
  | zero => exact Nat.zero_le _
  | succ calls ih =>
      have size : ∀ calls static reads, (readRows calls static reads).length = calls := by
        intro calls
        induction calls with
        | zero => simp [readRows]
        | succ calls ih => simp [readRows, ih]
      obtain ⟨row, rows, rfl⟩ : ∃ row rest, rows = row :: rest := by
        apply List.exists_cons_of_ne_nil
        rintro rfl
        have sizes := congrArg List.length ended
        simp [size] at sizes
      simp only [List.mem_cons, forall_eq_or_imp] at real
      rw [readRows, List.cons_append, List.cons.injEq] at ended
      obtain ⟨absent, found⟩ | ⟨line, behind, reads', cuts, found⟩ := readFileRow_cases clean comes
      · rw [← left] at absent found
        by_cases empty : left static reads = []
        · rw [found, lastResult, if_pos empty] at ended
          exact absurd (congrArg Prod.fst ended.1).symm real.1
        · rw [found, lastResult, if_neg empty] at ended
          have last : ((0 : Int), (none : Option Bytes)) ∈ readRows (calls + 1) (some (left static reads)) [] := by
            simp [ended.2]
          have cleanLeft : NUL ∉ (some (left static reads)).getD [] := nul_not_mem_left clean reads
          exact absurd rfl
            (readRows_stuck (calls + 1) cleanLeft (by simp) (by rwa [left_kept]) (by rwa [left_kept]) _ last)
      · rw [found, cutResult] at ended
        have later := ih cuts.cleanRest cuts.comes ended.2 real.2
        have fewer : (Replace.replaceAll (line ++ [LF]) [] behind).count LF ≤ behind.count LF :=
          Replace.count_replaceAll_le (by simp) (by simp) behind
        rw [left, cuts.split]
        simp only [left_some, List.count_append, List.count_cons_self] at later ⊢
        omega

end Rows

theorem count_lines (lines : List Bytes) (absent : ∀ line ∈ lines, LF ∉ line) :
    (lines.flatMap (· ++ [LF])).count LF = lines.length := by
  induction lines with
  | nil => rfl
  | cons line lines ih =>
      have none : line.count LF = 0 := List.count_eq_zero.mpr (absent line (by simp))
      rw [List.flatMap_cons, List.count_append, List.count_append,
        ih fun other member => absent other (by simp [member]), none, List.length_cons]
      simp [Nat.add_comm]

/-- A property of every line of a list and the lines in front of it. -/
theorem forall_lines_cons {α : Type*} {p : List α → α → Prop} (line : α) (lines : List α) :
    (∀ front other back, line :: lines = front ++ other :: back → p front other) ↔
      p [] line ∧ ∀ front other back, lines = front ++ other :: back → p (line :: front) other := by
  constructor
  · intro all
    exact ⟨all [] line lines rfl, fun front other back same => all (line :: front) other back (by rw [same]; rfl)⟩
  · rintro ⟨here, later⟩ front other back same
    cases front with
    | nil =>
        obtain ⟨rfl, -⟩ := List.cons.inj same
        exact here
    | cons first front =>
        obtain ⟨rfl, rfl⟩ := List.cons.inj same
        exact later front other back rfl

/-- A line that comes again in the text behind it is deleted there, and then there are too few newlines for the rows. -/
theorem readRows_again {rest line behind : Bytes} {reads reads' : List Input}
    (cuts : Cuts rest reads line behind reads') (inside : line ++ [LF] <:+: behind) {lines : List Bytes}
    (absent : ∀ line ∈ lines, LF ∉ line)
    (whole : behind ++ (texts reads').flatten = lines.flatMap (· ++ [LF])) :
    readRows (lines.length + 1) (some (Replace.replaceAll (line ++ [LF]) [] behind)) reads' ≠
      lines.map rowFor ++ [(0, none)] := by
  intro ended
  have enough := readRows_count lines.length cuts.cleanRest cuts.comes ended (by simp [(rowFor_pos _).ne'])
  have fewer : (Replace.replaceAll (line ++ [LF]) [] behind).count LF < behind.count LF :=
    Replace.count_replaceAll_rarer (by simp) (by simp) inside
  have total := count_lines lines absent
  rw [← whole] at total
  simp only [left_some, List.count_append] at enough total
  omega

/-- The induction is on the lines. -/
theorem readRows_lines (lines : List Bytes) (absent : ∀ line ∈ lines, LF ∉ line) :
    ∀ (static : Option Bytes) (reads : List Input), NUL ∉ static.getD [] → (∀ input ∈ reads, Chunk input) →
      left static reads = lines.flatMap (· ++ [LF]) →
      (readRows (lines.length + 1) static reads = lines.map rowFor ++ [(0, none)] ↔
        ∀ front line back, lines = front ++ line :: back → ¬ line ++ [LF] <:+:
          behindIn (static.getD [] :: texts reads) ((front ++ [line]).flatMap (· ++ [LF])).length) := by
  induction lines with
  | nil =>
      intro static reads clean comes whole
      obtain ⟨-, found⟩ | ⟨line, behind, reads', cuts, -⟩ := readFileRow_cases clean comes
      · rw [← left, whole] at found
        apply iff_of_true
        · simp only [readRows, found]
          rfl
        · intro front line back same
          simp at same
      · rw [left, cuts.split] at whole
        simp at whole
  | cons line lines ih =>
      intro static reads clean comes whole
      have absentHere : LF ∉ line := absent line (by simp)
      rw [List.flatMap_cons, List.append_assoc, List.singleton_append] at whole
      obtain ⟨absent', -⟩ | ⟨line', behind, reads', cuts, found⟩ := readFileRow_cases clean comes
      · rw [← left, whole] at absent'
        simp at absent'
      · rw [left, cuts.split] at whole
        obtain ⟨rfl, rest⟩ := split_unique cuts.absent absentHere whole
        have first := cuts.behind 0
        have here : behindIn (behind :: texts reads') 0 = behind := by simp [behindIn]
        rw [here] at first
        have shift : ∀ front other, ((line' :: front ++ [other]).flatMap (· ++ [LF])).length =
            line'.length + 1 + ((front ++ [other]).flatMap (· ++ [LF])).length := by
          intro front other
          simp
          omega
        rw [forall_lines_cons, List.length_cons, readRows, found]
        simp only [cutResult, List.map_cons, List.cons_append, List.cons.injEq, true_and]
        have alone : (([] ++ [line']).flatMap (· ++ [LF])).length = line'.length + 1 + 0 := by simp
        rw [alone, first]
        by_cases inside : line' ++ [LF] <:+: behind
        · apply iff_of_false
          · exact readRows_again cuts inside (fun other member => absent other (by simp [member])) rest
          · exact fun both => both.1 inside
        · have same := Replace.replaceAll_absent inside []
          rw [same, and_iff_right inside,
            ih (fun other member => absent other (by simp [member])) (some behind) reads' cuts.clean cuts.comes rest]
          simp only [Option.getD_some]
          constructor
          · intro all front other back split
            rw [← List.cons_append, shift, cuts.behind]
            exact all front other back split
          · intro all front other back split
            have there := all front other back split
            rwa [← List.cons_append, shift, cuts.behind] at there

/-- Without a terminator the chunks are what is read. -/
theorem texts_eq {reads : List Input} (clean : NUL ∉ arriving reads) : texts reads = reads.map Input.bytes := by
  apply List.map_congr_left
  intro input member
  exact cstr_eq_self fun inside => clean (List.mem_flatMap.mpr ⟨input, member, inside⟩)

/-- The rows are the lines of the file, and the end comes behind them, exactly when no line comes again in the text
that its read brings behind it. -/
theorem readRows_exact_iff {lines : List Bytes} (plain : ∀ line ∈ lines, LF ∉ line ∧ NUL ∉ line) {reads : List Input}
    (comes : ∀ input ∈ reads, Chunk input) (content : arriving reads = lines.flatMap (· ++ [LF])) :
    readRows (lines.length + 1) none reads = lines.map rowFor ++ [(0, none)] ↔
      ∀ front line back, lines = front ++ line :: back → ¬ line ++ [LF] <:+:
        behindIn (reads.map Input.bytes) ((front ++ [line]).flatMap (· ++ [LF])).length := by
  have clean : NUL ∉ arriving reads := by
    rw [content, List.mem_flatMap]
    rintro ⟨line, member, inside⟩
    exact not_mem_ending (plain line member).2 (by simp) (show NUL ≠ LF by decide) inside
  have same := texts_eq clean
  have whole : left none reads = lines.flatMap (· ++ [LF]) := by
    rw [left_none, same, ← content, arriving, List.flatMap_def]
  rw [readRows_lines lines (fun line member => (plain line member).1) none reads (by simp) comes whole, same]
  have behind : ∀ (front : List Bytes) (line : Bytes),
      behindIn ([] :: reads.map Input.bytes) ((front ++ [line]).flatMap (· ++ [LF])).length =
        behindIn (reads.map Input.bytes) ((front ++ [line]).flatMap (· ++ [LF])).length := by
    intro front line
    rw [behindIn, if_neg (by simp), List.length_nil, Nat.sub_zero]
  simp only [Option.getD_none, behind]

/-- A line that comes again comes with another read. -/
theorem readRows_exact_apart : readRows 4 none [.data (text "a\r\n"), .failed EINTR, .data (text "ab\na\r\n")] =
    [(2, some (text "a")), (3, some (text "ab")), (2, some (text "a")), (0, none)] := by
  have plain : ∀ line ∈ [text "a\r", text "ab", text "a\r"], LF ∉ line ∧ NUL ∉ line := by decide
  have comes : ∀ input ∈ [.data (text "a\r\n"), .failed EINTR, .data (text "ab\na\r\n")], Chunk input := by decide
  have content : arriving [.data (text "a\r\n"), .failed EINTR, .data (text "ab\na\r\n")] =
      [text "a\r", text "ab", text "a\r"].flatMap (· ++ [LF]) := by decide
  apply (readRows_exact_iff plain comes content).mpr
  intro front line back same
  rcases front with _ | ⟨first, _ | ⟨second, _ | ⟨third, front⟩⟩⟩
  · simp only [List.nil_append, List.cons.injEq] at same
    obtain ⟨rfl, -⟩ := same
    decide
  · simp only [List.cons_append, List.nil_append, List.cons.injEq] at same
    obtain ⟨rfl, rfl, -⟩ := same
    decide
  · simp only [List.cons_append, List.nil_append, List.cons.injEq] at same
    obtain ⟨rfl, rfl, rfl, -⟩ := same
    decide
  · simp at same

/-- The second of two equal lines is deleted with the first one. -/
theorem readRows_twice : readRows 3 none [.data (text "a\na\n")] = [(2, some (text "a")), (0, none), (0, none)] ∧
    readRows 3 none [.data (text "a\na\n")] ≠ [text "a", text "a"].map rowFor ++ [(0, none)] := by
  decide

end Piercloud.Files
