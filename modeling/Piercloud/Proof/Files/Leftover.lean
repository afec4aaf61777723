import Piercloud.Proof.Files.Lines

/-
This file says what becomes of the text that `readFileRow` keeps in its static variable: the loop over the rows does
not end on an unterminated rest, and a rest goes in front of the next file.
-/

namespace Piercloud.Files

open CLib Loop Liblst Piercloud.Lists Cgi

/-- The static text is a string, and the reads come in chunks. -/
structure Sound (s : Option Bytes × List Input) : Prop where
  clean : NUL ∉ s.1.getD []
  comes : ∀ input ∈ s.2, Chunk input

/-- This is the text in front of an iteration. -/
def leftIn (s : Option Bytes × List Input) : Bytes := left s.1 s.2

theorem Sound.left {s : Option Bytes × List Input} (sound : Sound s) : NUL ∉ leftIn s := by
  exact nul_not_mem_left sound.clean s.2

section Step

variable {s : Option Bytes × List Input}

/-- At the end of the text the loop ends. -/
theorem rowsStep_end (sound : Sound s) (empty : leftIn s = []) : rowsStep s = .inr 0 := by
  obtain ⟨-, found⟩ | ⟨line, behind, reads', cuts, -⟩ := readFileRow_cases sound.clean sound.comes
  · rw [← Files.left, ← leftIn, empty] at found
    simp [rowsStep, found, lastResult]
  · rw [leftIn, Files.left, cuts.split] at empty
    simp at empty

/-- A rest without a newline is kept, and the loop goes on with it. -/
theorem rowsStep_rest (sound : Sound s) (some : leftIn s ≠ []) (absent : LF ∉ leftIn s) :
    ∃ t, rowsStep s = .inl t ∧ Sound t ∧ leftIn t = leftIn s := by
  obtain ⟨-, found⟩ | ⟨line, behind, reads', cuts, -⟩ := readFileRow_cases sound.clean sound.comes
  · rw [← Files.left, ← leftIn, lastResult, if_neg some] at found
    refine ⟨(Option.some (leftIn s), []), ?_, ⟨sound.left, by simp⟩, left_kept s.1 s.2⟩
    simp only [rowsStep, found, if_pos (rowFor_pos _)]
  · rw [leftIn, Files.left, cuts.split] at absent
    simp at absent

/-- A line makes the text shorter. -/
theorem rowsStep_line (sound : Sound s) (inside : LF ∈ leftIn s) :
    ∃ t, rowsStep s = .inl t ∧ Sound t ∧ (leftIn t).length < (leftIn s).length := by
  obtain ⟨absent, -⟩ | ⟨line, behind, reads', cuts, found⟩ := readFileRow_cases sound.clean sound.comes
  · exact absurd inside absent
  · refine ⟨(some (Replace.replaceAll (line ++ [LF]) [] behind), reads'), ?_, ⟨cuts.cleanRest, cuts.comes⟩, ?_⟩
    · simp only [rowsStep, found, cutResult, if_pos (rowFor_pos line)]
    · have shorter : (Replace.replaceAll (line ++ [LF]) [] behind).length ≤ behind.length := by
        have sizes := Replace.length_replaceAll_eq (show line ++ [LF] ≠ [] by simp) [] behind
        simp only [List.length_nil, Nat.mul_zero, Nat.add_zero] at sizes
        omega
      rw [leftIn, leftIn, Files.left, Files.left, cuts.split]
      simp only [Option.getD_some, List.length_append, List.length_cons]
      omega

end Step

/-- A line can be read, or nothing is left. -/
def Terminated (s : Option Bytes × List Input) : Prop := leftIn s = [] ∨ LF ∈ leftIn s

instance : DecidablePred Terminated := fun s => inferInstanceAs (Decidable (leftIn s = [] ∨ LF ∈ leftIn s))

/-- The induction is on the length of the text. -/
theorem rows_end {s : Option Bytes × List Input} (sound : Sound s)
    (terminated : ∀ t, Visits rowsStep s t → Terminated t) : ∃ n, Ends rowsStep s n := by
  induction size : (leftIn s).length using Nat.strong_induction_on generalizing s with
  | _ measure ih =>
      subst size
      rcases terminated s .here with empty | inside
      · exact ⟨0, .last (rowsStep_end sound empty)⟩
      · obtain ⟨t, goesOn, sound', shorter⟩ := rowsStep_line sound inside
        obtain ⟨n, ends⟩ := ih _ shorter sound' (fun u visits => terminated u (.next goesOn visits)) rfl
        exact ⟨n, .next goesOn ends⟩

/-- Every state of the loop is sound. -/
theorem sound_kept (s t : Option Bytes × List Input) (sound : Sound s) (goesOn : rowsStep s = .inl t) : Sound t := by
  by_cases empty : leftIn s = []
  · simp [rowsStep_end sound empty] at goesOn
  by_cases inside : LF ∈ leftIn s
  · obtain ⟨u, goesOn', sound', -⟩ := rowsStep_line sound inside
    exact Sum.inl.inj (goesOn'.symm.trans goesOn) ▸ sound'
  · obtain ⟨u, goesOn', sound', -⟩ := rowsStep_rest sound empty inside
    exact Sum.inl.inj (goesOn'.symm.trans goesOn) ▸ sound'

/-- An unterminated rest is there in front of every later iteration. -/
theorem rows_stuck {s : Option Bytes × List Input} (sound : Sound s) (rest : ¬ Terminated s) (n : Int) :
    ¬ Ends rowsStep s n := by
  intro ends
  have kept : ∀ s t : Option Bytes × List Input, Sound s ∧ ¬ Terminated s → rowsStep s = .inl t →
      Sound t ∧ ¬ Terminated t := by
    rintro s t ⟨sound, rest⟩ goesOn
    rw [Terminated, not_or] at rest
    obtain ⟨u, goesOn', sound', same⟩ := rowsStep_rest sound rest.1 rest.2
    obtain rfl := Sum.inl.inj (goesOn'.symm.trans goesOn)
    refine ⟨sound', ?_⟩
    rw [Terminated, same, not_or]
    exact rest
  obtain ⟨last, ⟨sound', rest'⟩, stops⟩ := ends.invariant kept ⟨sound, rest⟩
  rw [Terminated, not_or] at rest'
  obtain ⟨u, goesOn, -⟩ := rowsStep_rest sound' rest'.1 rest'.2
  simp [goesOn] at stops

/-- The loop over the rows ends exactly when there is never a rest without a newline. -/
theorem rows_end_iff {static : Option Bytes} {reads : List Input} (clean : NUL ∉ static.getD [])
    (comes : ∀ input ∈ reads, Chunk input) :
    (∃ n, Ends rowsStep (static, reads) n) ↔ ∀ s, Visits rowsStep (static, reads) s → Terminated s := by
  have sound : Sound (static, reads) := ⟨clean, comes⟩
  constructor
  · rintro ⟨n, ends⟩ s visits
    by_contra rest
    exact rows_stuck (visits.invariant sound_kept sound) rest n (visits.ends ends)
  · exact rows_end sound

theorem rows_end_lines : (∃ n, Ends rowsStep (none, [.data (text "a\nb\n")]) n) ∧
    ∀ s, Visits rowsStep (none, [.data (text "a\nb\n")]) s → Terminated s :=
  have ends : ∃ n, Ends rowsStep (none, [.data (text "a\nb\n")]) n := ⟨0, .next rfl (.next rfl (.last rfl))⟩
  ⟨ends, (rows_end_iff (by decide) (by decide)).mp ends⟩

/-- A file with one line that is not terminated has no last row. -/
theorem rows_end_never : ¬ ∃ n, Ends rowsStep (none, [.data (text "abc")]) n := by
  rintro ⟨n, ends⟩
  exact rows_stuck ⟨by decide, by decide⟩ (by decide) n ends

/-- The row of a text ends at its first newline. -/
def rowOf (content : Bytes) : Bytes := (content.takeWhile (· != LF)).filter (· != CR)

def firstRow (content : Bytes) : Option Bytes := if content = [] then none else some (rowOf content)

/-- A row depends on the static text and on the file. -/
theorem readFileRow_row {static : Option Bytes} {reads : List Input} (clean : NUL ∉ static.getD [])
    (comes : ∀ input ∈ reads, Chunk input) : ∃ n static' reads', n ≠ -1 ∧ NUL ∉ static'.getD [] ∧
      readFileRow static reads = ((n, firstRow (left static reads)), static', reads') := by
  obtain ⟨absent, found⟩ | ⟨line, behind, reads', cuts, found⟩ := readFileRow_cases clean comes
  · rw [← left] at absent found
    by_cases empty : left static reads = []
    · exact ⟨0, none, [], by decide, by simp, by rw [found, lastResult, if_pos empty, firstRow, if_pos empty]⟩
    · have whole : rowOf (left static reads) = (left static reads).filter (· != CR) := by
        rw [rowOf, List.takeWhile_eq_self_iff.mpr (all_other absent)]
      have real : (rowFor (left static reads)).1 ≠ -1 := by
        have positive := rowFor_pos (left static reads)
        omega
      refine ⟨(rowFor (left static reads)).1, some (left static reads), [], real, nul_not_mem_left clean reads, ?_⟩
      rw [found, lastResult, if_neg empty, firstRow, if_neg empty, whole]
      rfl
  · have whole : rowOf (left static reads) = line.filter (· != CR) := by
      rw [left, cuts.split, rowOf, List.takeWhile_append_of_pos (all_other cuts.absent)]
      simp
    have some : left static reads ≠ [] := by
      rw [left, cuts.split]
      simp
    have real : (rowFor line).1 ≠ -1 := by
      have positive := rowFor_pos line
      omega
    refine ⟨(rowFor line).1, _, reads', real, cuts.cleanRest, ?_⟩
    rw [found, firstRow, if_neg some, whole]
    rfl

/-- A rest with a line has the same first line as the file, and a rest without one has only carriage returns. -/
def Unmixed (rest content : Bytes) : Prop :=
  if LF ∈ rest then content ≠ [] ∧ rowOf rest = rowOf content
  else (∀ c ∈ rest, c = CR) ∧ (content = [] → rest = [])

theorem firstRow_append_iff (rest content : Bytes) :
    firstRow (rest ++ content) = firstRow content ↔ Unmixed rest content := by
  unfold Unmixed
  obtain absent | ⟨line, behind, rfl, absent⟩ := split_first rest LF
  · rw [if_neg absent]
    have joined : rowOf (rest ++ content) = rest.filter (· != CR) ++ rowOf content := by
      rw [rowOf, List.takeWhile_append_of_pos (all_other absent), List.filter_append, rowOf]
    have returns : (∀ c ∈ rest, c = CR) ↔ rest.filter (· != CR) = [] := by
      simp [List.filter_eq_nil_iff]
    rw [returns]
    by_cases empty : content = []
    · subst empty
      by_cases none : rest = []
      · simp [none]
      · simp [firstRow, none]
    · simp [firstRow, empty, joined]
  · rw [if_pos (by simp)]
    have joined : rowOf (line ++ LF :: (behind ++ content)) = rowOf (line ++ LF :: behind) := by
      rw [rowOf, rowOf, List.takeWhile_append_of_pos (all_other absent),
        List.takeWhile_append_of_pos (all_other absent)]
      simp
    by_cases empty : content = []
    · simp [firstRow, empty]
    · simp [firstRow, empty, joined]

/-- A call names a path, and the file at the path gives these reads. -/
structure Call where
  path : Bytes
  reads : List Input

def Call.disk (call : Call) : Disk := ⟨fun _ => .ok call.reads, none⟩

/-- The rows that the calls return one after the other. -/
def rows : Option Bytes → List Call → List (Option Bytes)
  | _, [] => []
  | static, call :: calls =>
      let (row, static) := ptGetFileRowFormat call.disk (some call.path) static
      row :: rows static calls

/-- The static text in front of each call. -/
def rests : Option Bytes → List Call → List Bytes
  | _, [] => []
  | static, call :: calls => static.getD [] :: rests (ptGetFileRowFormat call.disk (some call.path) static).2 calls

/-- The induction is on the calls, with any static text in front of them. -/
theorem rows_first (files : Bytes → Bytes) (calls : List Call)
    (comes : ∀ call ∈ calls, NUL ∉ files call.path ∧ (∀ input ∈ call.reads, Chunk input) ∧
      arriving call.reads = files call.path) (static : Option Bytes) (clean : NUL ∉ static.getD []) :
    rows static calls = calls.map (fun call => firstRow (files call.path)) ↔
      List.Forall₂ (fun rest call => Unmixed rest (files call.path)) (rests static calls) calls := by
  induction calls generalizing static with
  | nil => simp [rows, rests]
  | cons call calls ih =>
      obtain ⟨clean', chunks, content⟩ := comes call (by simp)
      obtain ⟨n, static', reads', real, cleanLater, found⟩ := readFileRow_row clean chunks
      have whole : left static call.reads = static.getD [] ++ files call.path := by
        rw [left, texts_eq (by rwa [content]), ← List.flatMap_def, ← arriving, content]
      have result : ptGetFileRowFormat call.disk (some call.path) static =
          (firstRow (static.getD [] ++ files call.path), static') := by
        simp only [ptGetFileRowFormat, Call.disk, found, whole]
        rw [if_neg (by simpa using real)]
      rw [rows, rests, result, List.map_cons, List.forall₂_cons, List.cons.injEq, firstRow_append_iff,
        ih (fun other member => comes other (by simp [member])) static' cleanLater]

/-- Each call returns the first row of its file exactly when the static text in front of it does not mix with the
file. -/
theorem rows_first_iff (files : Bytes → Bytes) {calls : List Call}
    (comes : ∀ call ∈ calls, NUL ∉ files call.path ∧ (∀ input ∈ call.reads, Chunk input) ∧
      arriving call.reads = files call.path) :
    rows none calls = calls.map (fun call => firstRow (files call.path)) ↔
      List.Forall₂ (fun rest call => Unmixed rest (files call.path)) (rests none calls) calls :=
  rows_first files calls comes none (by simp)

/-- Two files have one line each, and one of them is read again. -/
def lineOf (path : Bytes) : Bytes := if path = text "a" then text "1\r\n" else text "2\n"

def singles : List Call :=
  [⟨text "a", [.data (text "1\r\n")]⟩, ⟨text "b", [.data (text "2"), .data (text "\n")]⟩,
    ⟨text "a", [.data (text "1\r"), .failed EINTR, .data (text "\n")]⟩]

theorem rows_first_singles : rows none singles = [some (text "1"), some (text "2"), some (text "1")] := by
  have comes : ∀ call ∈ singles, NUL ∉ lineOf call.path ∧ (∀ input ∈ call.reads, Chunk input) ∧
      arriving call.reads = lineOf call.path := by decide
  apply (rows_first_iff lineOf comes).mpr
  have none : rests none singles = [[], [], []] := by decide
  rw [none]
  simp [singles, Unmixed, lineOf, text]

/-- The second line of one file is returned for the other. -/
theorem rows_mixed : rows none [⟨text "a", [.data (text "1\n2\n")]⟩, ⟨text "b", [.data (text "x\n")]⟩] =
      [some (text "1"), some (text "2")] ∧
    firstRow (text "1\n2\n") = some (text "1") ∧ firstRow (text "x\n") = some (text "x") := by
  decide

end Piercloud.Files
