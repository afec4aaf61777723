import Piercloud.Construction.Files
import Piercloud.Proof.Files.Content

/-
This file says which row `readFileRow` gives and which text it keeps, and when the rows are the lines of the file.
-/

namespace Piercloud.Files

open CLib Loop Liblst Piercloud.Lists Cgi

/-- A read gives a chunk or fails for now. -/
def Chunk : Input → Prop
  | .data piece => piece ≠ [] ∧ piece.length ≤ chunkSize
  | .failed errno => Postponed errno

instance : DecidablePred Chunk
  | .data piece => inferInstanceAs (Decidable (piece ≠ [] ∧ piece.length ≤ chunkSize))
  | .failed errno => inferInstanceAs (Decidable (Postponed errno))

/-- The text that the reads bring, chunk by chunk. -/
def texts (reads : List Input) : List Bytes := reads.map fun input => cstr input.bytes

/-- What the piece that brings the end of the first `n` bytes brings behind them. -/
def behindIn : List Bytes → Nat → Bytes
  | [], _ => []
  | piece :: pieces, n => if n ≤ piece.length then piece.drop n else behindIn pieces (n - piece.length)

/-- A line loses its carriage returns, and the return value counts the terminator of the row. -/
def rowFor (line : Bytes) : Int × Option Bytes := ((line.filter (· != CR)).length + 1, some (line.filter (· != CR)))

section Texts

variable {reads : List Input} {text line behind : Bytes}

@[simp] theorem texts_nil : texts [] = [] := rfl

@[simp] theorem texts_cons (input : Input) (reads : List Input) :
    texts (input :: reads) = cstr input.bytes :: texts reads := rfl

theorem nul_not_mem_texts (reads : List Input) : NUL ∉ (texts reads).flatten := by
  intro member
  obtain ⟨text, inside, member⟩ := List.mem_flatten.mp member
  obtain ⟨input, -, rfl⟩ := List.mem_map.mp inside
  exact nul_not_mem_cstr _ member

/-- A chunk is joined with the text in front of it. -/
theorem behindIn_join (front piece : Bytes) (pieces : List Bytes) {n : Nat} (past : front.length < n) :
    behindIn (front :: piece :: pieces) n = behindIn ((front ++ piece) :: pieces) n := by
  rw [behindIn, if_neg (by omega), behindIn, behindIn, List.length_append, List.drop_append,
    List.drop_eq_nil_of_le past.le, List.nil_append]
  by_cases within : n ≤ front.length + piece.length
  · rw [if_pos within, if_pos (by omega)]
  · rw [if_neg within, if_neg (by omega), Nat.sub_sub]

/-- Behind a front of the first piece the count goes on with its rest. -/
theorem behindIn_drop (front rest : Bytes) (pieces : List Bytes) (n : Nat) :
    behindIn ((front ++ rest) :: pieces) (front.length + n) = behindIn (rest :: pieces) n := by
  rw [behindIn, behindIn, List.length_append, List.drop_append]
  simp only [Nat.add_le_add_iff_left, Nat.add_sub_cancel_left, Nat.add_sub_add_left]
  rw [List.drop_eq_nil_of_le (Nat.le_add_right _ _), List.nil_append]

/-- A text without a newline is not cut. -/
theorem cutRest_none (absent : LF ∉ text) : cutRest text = (none, text) := by
  have missing : strchr text LF = none := findIdx_none fun member => absent (mem_of_mem_cstr member)
  simp only [cutRest, missing]

/-- The first line is cut off, and each occurrence of it behind is deleted with it. -/
theorem cutRest_line (clean : NUL ∉ line) (absent : LF ∉ line) (behind : Bytes) :
    cutRest (line ++ LF :: behind) = (some (line ++ [LF]), Replace.replaceAll (line ++ [LF]) [] behind) := by
  have front : (line ++ LF :: behind).take line.length = line := List.take_left
  have real : line ++ [LF] ≠ [] := by simp
  have split : line ++ LF :: behind = (line ++ [LF]) ++ behind := by simp
  simp only [cutRest, strchr_split absent clean (show LF ≠ NUL by decide), front]
  rw [ptReplaceStr_eq_replaceAll real, split, Replace.replaceAll_needle real, List.nil_append]

/-- A line is chopped with its newline or without one. -/
theorem chopped_eq {ending : Bytes} (clean : NUL ∉ line) (absent : LF ∉ line) (ends : ∀ c ∈ ending, c = LF) :
    chopped (line ++ ending) = rowFor line := by
  have string : NUL ∉ line ++ ending := not_mem_ending clean ends (by decide)
  have kept : line.filter (fun c => c != LF && c != CR) = line.filter (· != CR) := by
    apply List.filter_congr
    intro c member
    have other : c ≠ LF := fun same => absent (same ▸ member)
    simp [other]
  have last : ending.filter (fun c => c != LF && c != CR) = [] := by
    rw [List.filter_eq_nil_iff]
    intro c member
    simp [ends c member]
  have row : cstr (chopStr (line ++ ending ++ [NUL])) = line.filter (· != CR) := by
    rw [cstr_chopStr, cstr_append_nul string, List.filter_append, kept, last, List.append_nil]
  simp only [chopped, row, rowFor]

/-- The reads bring this piece next. -/
structure Brings (reads : List Input) (piece : Bytes) (reads' : List Input) : Prop where
  real : piece ≠ []
  comes : ∀ input ∈ reads', Chunk input
  shrinks : unread reads' < unread reads
  split : (texts reads).flatten = cstr piece ++ (texts reads').flatten
  behind : ∀ front n, front.length < n →
    behindIn (front :: texts reads) n = behindIn ((front ++ cstr piece) :: texts reads') n

/-- A failure for now changes nothing in it. -/
theorem Brings.skip {piece : Bytes} {reads' : List Input} (brings : Brings reads piece reads') (errno : Nat) :
    Brings (.failed errno :: reads) piece reads' where
  real := brings.real
  comes := brings.comes
  shrinks := by
    have smaller : unread reads < unread (.failed errno :: reads) := by simp [unread]
    exact brings.shrinks.trans smaller
  split := by simpa [Input.bytes, cstr] using brings.split
  behind := by
    intro front n past
    have same : behindIn (front :: texts (.failed errno :: reads)) n = behindIn (front :: texts reads) n := by
      rw [texts_cons, behindIn_join front _ _ past]
      simp [Input.bytes, cstr]
    rw [same]
    exact brings.behind front n past

theorem chunkLoop_cases (fuel : Nat) (reads : List Input) (comes : ∀ input ∈ reads, Chunk input)
    (enough : unread reads < fuel) :
    loop chunkStep fuel reads = some (0, none, []) ∧ (texts reads).flatten = [] ∨
      ∃ piece reads', loop chunkStep fuel reads = some ((piece.length : Int), some (piece ++ [NUL]), reads') ∧
        Brings reads piece reads' := by
  induction fuel generalizing reads with
  | zero => omega
  | succ fuel ih =>
      rw [loop]
      rcases reads with _ | ⟨input, rest⟩
      · exact Or.inl ⟨rfl, rfl⟩
      have later : ∀ other ∈ rest, Chunk other := fun other member => comes other (by simp [member])
      have here : Chunk input := comes input (by simp)
      cases input with
      | failed errno =>
          have smaller : unread rest < unread (.failed errno :: rest) := by simp [unread]
          have step : chunkStep (.failed errno :: rest) = .inl rest := by
            simp only [chunkStep, Cgi.read]
            rw [if_pos (show Postponed errno from here)]
          rw [step]
          obtain ⟨ended, none⟩ | ⟨piece, reads', found, brings⟩ := ih rest later (by omega)
          · exact Or.inl ⟨ended, by simpa [Input.bytes, cstr] using none⟩
          · exact Or.inr ⟨piece, reads', found, brings.skip errno⟩
      | data piece =>
          have taken : Cgi.read chunkSize (.data piece :: rest) = (.data piece, rest) := by
            rw [Cgi.read, if_pos here.2]
          have visible : piece.isEmpty = false := by simpa using here.1
          have step : chunkStep (.data piece :: rest) = .inr (piece.length, some (piece ++ [NUL]), rest) := by
            simp only [chunkStep, taken, visible, Bool.false_eq_true, if_false]
          rw [step]
          refine Or.inr ⟨piece, rest, rfl, here.1, later, by simp [unread], by simp [Input.bytes], ?_⟩
          intro front n past
          exact behindIn_join front _ _ past

/-- The next chunk comes, or the reads are at their end. -/
theorem readChunkStr_cases (comes : ∀ input ∈ reads, Chunk input) :
    readChunkStr reads = (0, none, []) ∧ (texts reads).flatten = [] ∨
      ∃ piece reads', readChunkStr reads = ((piece.length : Int), some (piece ++ [NUL]), reads') ∧
        Brings reads piece reads' := by
  obtain ⟨found, none⟩ | ⟨piece, reads', found, brings⟩ := chunkLoop_cases _ reads comes (Nat.lt_succ_self _)
  · exact Or.inl ⟨by rw [readChunkStr, found, Option.getD_some], none⟩
  · exact Or.inr ⟨piece, reads', by rw [readChunkStr, found, Option.getD_some], brings⟩

end Texts

/-- The text in front of the reads has its first line, and this is what the call makes of it. -/
structure Cuts (rest : Bytes) (reads : List Input) (line behind : Bytes) (reads' : List Input) : Prop where
  split : rest ++ (texts reads).flatten = line ++ LF :: (behind ++ (texts reads').flatten)
  absent : LF ∉ line
  clean : NUL ∉ behind
  comes : ∀ input ∈ reads', Chunk input
  behind : ∀ n, behindIn (rest :: texts reads) (line.length + 1 + n) = behindIn (behind :: texts reads') n

/-- The result of a call that cuts a line. -/
def cutResult (line behind : Bytes) (reads : List Input) : (Int × Option Bytes) × Option Bytes × List Input :=
  (rowFor line, some (Replace.replaceAll (line ++ [LF]) [] behind), reads)

/-- The result of a call that finds no newline. The rest stays in the static text. -/
def lastResult (text : Bytes) : (Int × Option Bytes) × Option Bytes × List Input :=
  if text = [] then ((0, none), none, []) else (rowFor text, some text, [])

section Calls

variable {rest : Bytes} {reads : List Input}

/-- A text that has a line is cut at once. -/
theorem cutRest_cases (clean : NUL ∉ rest) (comes : ∀ input ∈ reads, Chunk input) :
    LF ∉ rest ∧ cutRest rest = (none, rest) ∨
      ∃ line behind, Cuts rest reads line behind reads ∧
        cutRest rest = (some (line ++ [LF]), Replace.replaceAll (line ++ [LF]) [] behind) ∧
        chopped (line ++ [LF]) = rowFor line := by
  obtain absent | ⟨line, behind, rfl, absent⟩ := split_first rest LF
  · exact Or.inl ⟨absent, cutRest_none absent⟩
  · right
    simp only [List.mem_append, List.mem_cons, not_or] at clean
    refine ⟨line, behind, ⟨by simp, absent, clean.2.2, comes, fun n => ?_⟩, cutRest_line clean.1 absent behind,
      chopped_eq clean.1 absent (by simp)⟩
    have front := behindIn_drop (line ++ [LF]) behind (texts reads) n
    simpa using front

/-- What is cut behind the next chunk is cut in front of it. -/
theorem Cuts.before {piece line behind : Bytes} {reads' reads'' : List Input} (brings : Brings reads piece reads')
    (absent : LF ∉ rest) (cuts : Cuts (rest ++ cstr piece) reads' line behind reads'') :
    Cuts rest reads line behind reads'' where
  split := by rw [brings.split, ← List.append_assoc, cuts.split]
  absent := cuts.absent
  clean := cuts.clean
  comes := cuts.comes
  behind := by
    intro n
    have within : rest.length < line.length + 1 + n := by
      by_contra long
      have split := cuts.split
      rw [List.append_assoc, ← List.singleton_append, ← List.append_assoc line] at split
      obtain ⟨q, rfl, -⟩ := append_cut split (by simp; omega)
      simp at absent
    rw [brings.behind rest _ within, cuts.behind]

/-- The induction is on the reads. The text has no line until a chunk brings its newline. -/
theorem rowLoop_cases (fuel : Nat) (rest : Bytes) (reads : List Input) (clean : NUL ∉ rest) (absent : LF ∉ rest)
    (comes : ∀ input ∈ reads, Chunk input) (enough : unread reads < fuel) :
    (LF ∉ rest ++ (texts reads).flatten ∧
        loop rowStep fuel (rest, reads) = some (lastResult (rest ++ (texts reads).flatten))) ∨
      ∃ line behind reads', Cuts rest reads line behind reads' ∧
        loop rowStep fuel (rest, reads) = some (cutResult line behind reads') := by
  induction fuel generalizing rest reads with
  | zero => omega
  | succ fuel ih =>
      rw [loop]
      obtain ⟨found, none⟩ | ⟨piece, reads', found, brings⟩ := readChunkStr_cases comes
      · left
        rw [none, List.append_nil]
        refine ⟨absent, ?_⟩
        by_cases empty : rest = []
        · simp [rowStep, found, empty, lastResult]
        · have ends : ∀ c ∈ ([] : Bytes), c = LF := by simp
          have row : chopped rest = rowFor rest := by simpa using chopped_eq clean absent ends
          simp [rowStep, found, empty, lastResult, row]
      · have positive : (0 : Int) < piece.length := by
          have some := List.length_pos_iff.mpr brings.real
          omega
        have joined : ptReplaceStr rest [] (cstr (piece ++ [NUL])) = rest ++ cstr piece := by
          rw [cstr_append_terminator]
          rfl
        have clean' : NUL ∉ rest ++ cstr piece := by
          rw [List.mem_append, not_or]
          exact ⟨clean, nul_not_mem_cstr piece⟩
        obtain ⟨absent', uncut⟩ | ⟨line, behind, cuts, cut, row⟩ := cutRest_cases clean' brings.comes
        · have step : rowStep (rest, reads) = .inl (rest ++ cstr piece, reads') := by
            simp only [rowStep, found, if_pos positive, joined, uncut]
          have split : rest ++ (texts reads).flatten = (rest ++ cstr piece) ++ (texts reads').flatten := by
            rw [brings.split, List.append_assoc]
          rw [step, split]
          obtain last | ⟨line, behind, reads'', cuts, found'⟩ :=
            ih (rest ++ cstr piece) reads' clean' absent' brings.comes (by have := brings.shrinks; omega)
          · exact Or.inl last
          · exact Or.inr ⟨line, behind, reads'', cuts.before brings absent, found'⟩
        · right
          have step : rowStep (rest, reads) = .inr (cutResult line behind reads') := by
            simp only [rowStep, found, if_pos positive, joined, cut, row, cutResult]
          rw [step]
          exact ⟨line, behind, reads', cuts.before brings absent, rfl⟩

/-- A call cuts a line if the text to come has one. -/
theorem readFileRow_cases {static : Option Bytes} (clean : NUL ∉ static.getD [])
    (comes : ∀ input ∈ reads, Chunk input) :
    (LF ∉ static.getD [] ++ (texts reads).flatten ∧
        readFileRow static reads = lastResult (static.getD [] ++ (texts reads).flatten)) ∨
      ∃ line behind reads', Cuts (static.getD []) reads line behind reads' ∧
        readFileRow static reads = cutResult line behind reads' := by
  obtain ⟨absent, uncut⟩ | ⟨line, behind, cuts, cut, row⟩ := cutRest_cases clean comes
  · obtain ⟨absent', found⟩ | ⟨line, behind, reads', cuts, found⟩ :=
      rowLoop_cases (unread reads + 1) (static.getD []) reads clean absent comes (Nat.lt_succ_self _)
    · exact Or.inl ⟨absent', by simp only [readFileRow, uncut, found, Option.getD_some]⟩
    · exact Or.inr ⟨line, behind, reads', cuts, by simp only [readFileRow, uncut, found, Option.getD_some]⟩
  · exact Or.inr ⟨line, behind, reads, cuts, by simp only [readFileRow, cut, row, cutResult]⟩

end Calls

end Piercloud.Files
