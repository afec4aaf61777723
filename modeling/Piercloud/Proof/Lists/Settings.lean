import Piercloud.Construction.Config
import Piercloud.Proof.Lists.Lookup

/-
This file shows that `readConfig` reads back the pairs that are written line by line.
-/

namespace Piercloud.Lists

open CLib Loop Liblst Blocks

/-- This is the string without its white space. -/
def gapless (string : Bytes) : Bytes := string.filter fun c => !isspace c

/-- The bytes that are kept stand in front, and `i` is behind them or at the same place. -/
structure Moving (kept rest : Bytes) (s : Bytes × Nat × Nat) : Prop where
  block : ∃ hole behind, s.1 = kept ++ hole ++ rest ++ NUL :: behind ∧ s.2.1 = kept.length + hole.length
  place : s.2.2 = kept.length

section DelGaps

variable {kept rest : Bytes} {s : Bytes × Nat × Nat} {c : UInt8}

theorem Moving.next (moving : Moving kept (c :: rest) s) : access s.1[s.2.1]? = .ok c := by
  obtain ⟨hole, behind, same, place⟩ := moving.block
  rw [same, place, ← List.length_append, List.append_assoc (kept ++ hole), List.getElem?_append_right le_rfl]
  simp

/-- A byte is written to the first place of the hole, and the hole moves on. -/
theorem Moving.poked (kept hole more : Bytes) (c d : UInt8) :
    ∃ hole', hole'.length = hole.length ∧
      Block.poke (kept ++ hole ++ c :: more) kept.length d = some (kept ++ d :: hole' ++ more) := by
  obtain ⟨first, hole', same⟩ := List.exists_cons_of_ne_nil (show hole ++ [c] ≠ [] by simp)
  refine ⟨hole', by simpa using (congrArg List.length same).symm, ?_⟩
  have split : kept ++ hole ++ c :: more = kept ++ first :: (hole' ++ more) := by
    rw [List.append_assoc, ← List.singleton_append, ← List.append_assoc hole, same, List.cons_append]
  rw [split, Block.poke_eq]
  simp

/-- At the terminator the block holds the bytes that are kept. -/
theorem delGapsNext_last (moving : Moving kept [] s) :
    ∃ junk, delGapsNext s = .ok (.inr (kept ++ NUL :: junk)) := by
  obtain ⟨hole, behind, same, place⟩ := moving.block
  rw [List.append_nil] at same
  have found : access s.1[s.2.1]? = .ok NUL := by
    rw [same, place, ← List.length_append, List.getElem?_append_right le_rfl]
    simp
  obtain ⟨hole', -, written⟩ := Moving.poked kept hole behind NUL NUL
  refine ⟨hole' ++ behind, ?_⟩
  simp only [delGapsNext, found, bind, Except.bind, if_true]
  rw [same, moving.place, written, access_some]
  simp [pure, Except.pure]

/-- White space is passed, and another byte is kept. -/
theorem delGapsNext_next (visible : c ≠ NUL) (moving : Moving kept (c :: rest) s) :
    ∃ t, delGapsNext s = .ok (.inl t) ∧ Moving (if isspace c then kept else kept ++ [c]) rest t := by
  obtain ⟨hole, behind, same, place⟩ := moving.block
  simp only [delGapsNext, moving.next, bind, Except.bind, if_neg visible]
  by_cases space : isspace c
  · rw [if_pos space, if_pos space]
    refine ⟨_, rfl, ⟨hole ++ [c], behind, by simp [same], ?_⟩, moving.place⟩
    simp only [place, List.length_append, List.length_singleton]
    omega
  · obtain ⟨hole', size, written⟩ := Moving.poked kept hole (rest ++ NUL :: behind) c c
    rw [if_neg space, if_neg space, same, moving.place, List.append_assoc (kept ++ hole), List.cons_append, written,
      access_some]
    refine ⟨_, rfl, ⟨hole', behind, by simp, ?_⟩, by simp⟩
    simp only [place, List.length_append, List.length_singleton, size]
    omega

/-- The induction is on the rest of the string. -/
theorem delGaps_run (rest : Bytes) :
    ∀ (kept : Bytes) (s : Bytes × Nat × Nat) (fuel : Nat), NUL ∉ rest → Moving kept rest s → rest.length < fuel →
      ∃ junk, loop (fun s => settle (delGapsNext s)) fuel s = some (.ok (kept ++ gapless rest ++ NUL :: junk)) := by
  induction rest with
  | nil =>
      intro kept s fuel _ moving enough
      obtain ⟨fuel, rfl⟩ := Nat.exists_eq_add_of_le' (show 1 ≤ fuel from enough)
      obtain ⟨junk, stops⟩ := delGapsNext_last moving
      refine ⟨junk, ?_⟩
      rw [loop, stops]
      simp [settle, gapless]
  | cons c rest ih =>
      intro kept s fuel clean moving enough
      obtain ⟨fuel, rfl⟩ := Nat.exists_eq_add_of_le' (show 1 ≤ fuel by omega)
      rw [List.length_cons, Nat.add_lt_add_iff_right] at enough
      simp only [List.mem_cons, not_or] at clean
      obtain ⟨t, goesOn, later⟩ := delGapsNext_next (Ne.symm clean.1) moving
      obtain ⟨junk, found⟩ := ih _ t fuel clean.2 later enough
      refine ⟨junk, ?_⟩
      rw [loop, goesOn]
      refine found.trans ?_
      by_cases space : isspace c <;> simp [gapless, space]

end DelGaps

/-- The string in the block loses its white space. -/
theorem delGaps_eq (line : Bytes) :
    ∃ junk, delGaps (line ++ [NUL]) = .ok (gapless (cstr line) ++ NUL :: junk) := by
  obtain absurd | ⟨front, rest, same, clean⟩ := split_first (line ++ [NUL]) NUL
  · simp at absurd
  have string : cstr line = front := by
    rw [← cstr_append_terminator line [], same, cstr_append_nul clean]
  have moving : Moving [] front (line ++ [NUL], 0, 0) := ⟨⟨[], rest, by simpa using same, rfl⟩, rfl⟩
  have enough : front.length < (line ++ [NUL]).length + 1 := by
    rw [same, List.length_append]
    omega
  obtain ⟨junk, found⟩ := delGaps_run front [] _ _ clean moving enough
  exact ⟨junk, by rw [delGaps, found, Option.getD_some, string, List.nil_append]⟩

theorem nul_not_mem_gapless (line : Bytes) : NUL ∉ gapless (cstr line) :=
  fun member => nul_not_mem_cstr line (List.mem_filter.mp member).1

/-- A line ends at its newline. -/
theorem getline_line {front : Bytes} (absent : LF ∉ front) (rest : Bytes) :
    getline (front ++ LF :: rest) = some (front ++ [LF], rest) := by
  rw [getline, List.dropWhile_append_of_pos (all_other absent), List.takeWhile_append_of_pos (all_other absent)]
  simp

/-- The last line ends with the file. -/
theorem getline_last {front : Bytes} (absent : LF ∉ front) (real : front ≠ []) :
    getline front = some (front, []) := by
  have none : front.dropWhile (· != LF) = [] := List.dropWhile_eq_nil_iff.mpr (all_other absent)
  simp [getline, none, real]

/-- A key and its value are matched. -/
theorem sscanf_pair {key value : Bytes} (real : key ≠ []) (absent : equalsSign ∉ key) (real' : value ≠ [])
    (visible : ∀ c ∈ value, isspace c = false) :
    sscanf (key ++ equalsSign :: value) = (2, some key, some value) := by
  have front : (key ++ equalsSign :: value).takeWhile (· != equalsSign) = key := by
    rw [List.takeWhile_append_of_pos (all_other absent)]
    simp
  have behind : (key ++ equalsSign :: value).dropWhile (· != equalsSign) = equalsSign :: value := by
    rw [List.dropWhile_append_of_pos (all_other absent)]
    simp
  have start : value.dropWhile isspace = value := by
    cases value with
    | nil => rfl
    | cons c value => rw [List.dropWhile_cons_of_neg (by simp [visible c])]
  have whole : value.takeWhile (fun c => !isspace c) = value := by
    rw [List.takeWhile_eq_self_iff]
    intro c member
    simp [visible c member]
  simp [sscanf, front, behind, start, whole, real, real']

/-- The string has no pair, or its key is a comment. -/
def Ignored (string : Bytes) : Prop :=
  ∀ key value, sscanf string = (2, some key, value) → key.head? = some numberSign

theorem ignored_of_absent {string : Bytes} (absent : equalsSign ∉ string) : Ignored string := by
  intro key value found
  have none : string.dropWhile (· != equalsSign) = [] := List.dropWhile_eq_nil_iff.mpr (all_other absent)
  simp only [sscanf, none] at found
  split at found
  · simp at found
  · simp at found

theorem ignored_of_comment (rest : Bytes) : Ignored (numberSign :: rest) := by
  intro key value found
  have front : (numberSign :: rest).takeWhile (· != equalsSign) =
      numberSign :: rest.takeWhile (· != equalsSign) := by
    rw [List.takeWhile_cons_of_pos (by decide)]
  simp only [sscanf, front, List.isEmpty_cons, Bool.false_eq_true, if_false] at found
  split at found
  · simp at found
  · split at found
    · simp at found
    · simp only [Prod.mk.injEq, Option.some.injEq, true_and] at found
      rw [← found.1]
      rfl

section Lines

variable {content line rest : Bytes} {rval : Lst} {allocs : Allocs}

/-- A line that is ignored leaves the map as it is. -/
theorem readConfigNext_ignored (taken : getline content = some (line, rest)) (ignored : Ignored (gapless (cstr line))) :
    readConfigNext (content, rval, allocs) = .ok (.inl (rest, rval, allocs)) := by
  obtain ⟨junk, deleted⟩ := delGaps_eq line
  simp only [readConfigNext, taken, deleted, bind, Except.bind,
    Block.stringAt_zero (nul_not_mem_gapless line), access_some]
  split
  · rename_i key value found
    rw [if_pos (ignored key value found)]
    rfl
  · rfl

/-- A pair goes to the end of the map. -/
theorem readConfigNext_pair (taken : getline content = some (line, rest)) {key value : Bytes}
    (found : sscanf (gapless (cstr line)) = (2, some key, some value)) (setting : key.head? ≠ some numberSign)
    {strings : List Bytes} (clean : ∀ str ∈ strings, NUL ∉ str) (cleanKey : NUL ∉ key) (cleanValue : NUL ∉ value) :
    readConfigNext (content, ofStrings strings, []) =
      .ok (.inl (rest, ofStrings (strings ++ [key, value]), [])) := by
  obtain ⟨junk, deleted⟩ := delGaps_eq line
  have more : ∀ str ∈ strings ++ [key], NUL ∉ str := clean_append clean (by simpa using cleanKey)
  have pushed : mapPush (ofStrings strings) (some key) (some value) [] =
      .ok (.ok (strings ++ [key]).length, ofStrings (strings ++ [key, value]), []) := by
    simp only [mapPush, lstPush_ofStrings clean cleanKey, bind, Except.bind]
    rw [lstPush_ofStrings more cleanValue, List.append_assoc, List.singleton_append]
  simp only [readConfigNext, taken, deleted, bind, Except.bind,
    Block.stringAt_zero (nul_not_mem_gapless line), access_some, found, if_neg setting, pushed]
  rfl

end Lines

/-- Any spaces and tabs. -/
def Gap (bytes : Bytes) : Prop := ∀ c ∈ bytes, isspace c = true ∧ c ≠ LF

/-- A key and its value stand on a line with gaps around them. -/
structure Setting where
  key : Bytes
  value : Bytes
  before : Bytes
  after : Bytes
  front : Bytes
  behind : Bytes
  realKey : key ≠ []
  plainKey : ∀ c ∈ key, isspace c = false ∧ c ≠ equalsSign ∧ c ≠ NUL
  noComment : key.head? ≠ some numberSign
  realValue : value ≠ []
  plainValue : ∀ c ∈ value, isspace c = false ∧ c ≠ NUL
  gaps : Gap (before ++ after ++ front ++ behind)

def Setting.text (s : Setting) : Bytes :=
  s.before ++ s.key ++ s.after ++ equalsSign :: (s.front ++ s.value ++ s.behind)

/-- A line writes a pair, or it is blank, a comment or without an equals sign. -/
inductive Row where
  | setting (s : Setting)
  | other (text : Bytes) (line : LF ∉ text)
      (skipped : equalsSign ∉ text ∨ ∃ gap rest, Gap gap ∧ text = gap ++ numberSign :: rest)

def Row.text : Row → Bytes
  | .setting s => s.text
  | .other text _ _ => text

def Row.pair : Row → Option (Bytes × Bytes)
  | .setting s => some (s.key, s.value)
  | .other _ _ _ => none

theorem gapless_append (first second : Bytes) : gapless (first ++ second) = gapless first ++ gapless second :=
  List.filter_append _ _

theorem gapless_gap {gap : Bytes} (blank : ∀ c ∈ gap, isspace c = true) : gapless gap = [] := by
  rw [gapless, List.filter_eq_nil_iff]
  intro c member
  simp [blank c member]

theorem gapless_plain {bytes : Bytes} (visible : ∀ c ∈ bytes, isspace c = false) : gapless bytes = bytes := by
  rw [gapless, List.filter_eq_self]
  intro c member
  simp [visible c member]

theorem nul_not_mem_gap {gap : Bytes} (blank : Gap gap) : NUL ∉ gap :=
  fun member => absurd (blank NUL member).1 (by decide)

section Row

variable {ending : Bytes}

/-- The text of a pair is a line of a string. -/
theorem Setting.clean (s : Setting) : LF ∉ s.text ∧ NUL ∉ s.text := by
  have visible : ∀ c ∈ s.key ++ s.value, isspace c = false ∧ c ≠ NUL := by
    intro c member
    rcases List.mem_append.mp member with key | value
    · exact ⟨(s.plainKey c key).1, (s.plainKey c key).2.2⟩
    · exact s.plainValue c value
  have parts : ∀ c ∈ s.text,
      c ∈ s.before ++ s.after ++ s.front ++ s.behind ∨ c ∈ s.key ++ s.value ∨ c = equalsSign := by
    intro c member
    simp only [Setting.text, List.mem_append, List.mem_cons] at member ⊢
    tauto
  constructor
  · intro member
    rcases parts LF member with gap | word | sign
    · exact (s.gaps LF gap).2 rfl
    · exact absurd (visible LF word).1 (by decide)
    · exact absurd sign (by decide)
  · intro member
    rcases parts NUL member with gap | word | sign
    · exact nul_not_mem_gap s.gaps gap
    · exact (visible NUL word).2 rfl
    · exact absurd sign (by decide)

/-- Without white space the key, the sign and the value are left. -/
theorem Setting.gapless_text (s : Setting) (blank : ∀ c ∈ ending, c = LF) :
    gapless (s.text ++ ending) = s.key ++ equalsSign :: s.value := by
  have gap : ∀ bytes : Bytes, bytes ⊆ s.before ++ s.after ++ s.front ++ s.behind → gapless bytes = [] :=
    fun bytes within => gapless_gap fun c member => (s.gaps c (within member)).1
  have last : gapless ending = [] := gapless_gap fun c member => blank c member ▸ (by decide)
  have sign : gapless (equalsSign :: (s.front ++ s.value ++ s.behind)) =
      equalsSign :: gapless (s.front ++ s.value ++ s.behind) := List.filter_cons_of_pos (by decide)
  rw [gapless_append, Setting.text, gapless_append, gapless_append, gapless_append, sign, gapless_append,
    gapless_append, gap s.before (by simp), gap s.after (by intro; simp; tauto), gap s.front (by intro; simp; tauto),
    gap s.behind (List.subset_append_right _ _), last, gapless_plain fun c member => (s.plainKey c member).1,
    gapless_plain fun c member => (s.plainValue c member).1]
  simp

theorem Row.line (r : Row) : LF ∉ r.text := by
  cases r with
  | setting s => exact s.clean.1
  | other text line skipped => exact line

/-- A line is ignored if it is not one of a pair. -/
theorem ignored_other {text : Bytes}
    (skipped : equalsSign ∉ text ∨ ∃ gap rest, Gap gap ∧ text = gap ++ numberSign :: rest)
    (blank : ∀ c ∈ ending, c = LF) :
    Ignored (gapless (cstr (text ++ ending))) := by
  rcases skipped with absent | ⟨gap, rest, gapped, rfl⟩
  · apply ignored_of_absent
    intro member
    have inside := mem_of_mem_cstr (List.mem_filter.mp member).1
    exact not_mem_ending absent blank (by decide) inside
  · rw [List.append_assoc, List.cons_append, cstr_split (nul_not_mem_gap gapped) (by decide), gapless_append,
      gapless_gap fun c member => (gapped c member).1, gapless, List.filter_cons_of_pos (by decide), List.nil_append]
    exact ignored_of_comment _

/-- The line of a row adds its pair, if it has one. -/
theorem readConfigNext_row (r : Row) {content rest : Bytes} {pairs : List (Bytes × Bytes)}
    (clean : ∀ str ∈ flat pairs, NUL ∉ str) (blank : ∀ c ∈ ending, c = LF)
    (taken : getline content = some (r.text ++ ending, rest)) :
    readConfigNext (content, ofStrings (flat pairs), []) =
        .ok (.inl (rest, ofStrings (flat (pairs ++ r.pair.toList)), [])) ∧
      ∀ str ∈ flat (pairs ++ r.pair.toList), NUL ∉ str := by
  cases r with
  | other text line skipped =>
      rw [readConfigNext_ignored taken (ignored_other skipped blank)]
      simpa [Row.pair] using clean
  | setting s =>
      have plain : NUL ∉ s.text ++ ending := not_mem_ending s.clean.2 blank (by decide)
      have cleanKey : NUL ∉ s.key := fun member => (s.plainKey NUL member).2.2 rfl
      have cleanValue : NUL ∉ s.value := fun member => (s.plainValue NUL member).2 rfl
      have found : sscanf (gapless (cstr (s.text ++ ending))) = (2, some s.key, some s.value) := by
        rw [cstr_eq_self plain, s.gapless_text blank]
        exact sscanf_pair s.realKey (fun member => (s.plainKey _ member).2.1 rfl) s.realValue
          fun c member => (s.plainValue c member).1
      constructor
      · rw [readConfigNext_pair taken found s.noComment clean cleanKey cleanValue, flat_append]
        rfl
      · rw [flat_append]
        exact clean_append clean (by simp [Row.pair, cleanKey, cleanValue])

end Row

/-- The induction is on the lines. The last one may end without a newline. -/
theorem readConfig_run (rows : List Row) :
    ∀ (pairs : List (Bytes × Bytes)) (fuel : Nat), (∀ str ∈ flat pairs, NUL ∉ str) →
      ([LF].intercalate (rows.map Row.text)).length < fuel →
      loop (fun s => settle (readConfigNext s)) fuel
          ([LF].intercalate (rows.map Row.text), ofStrings (flat pairs), []) =
        some (.ok (ofStrings (flat (pairs ++ rows.filterMap Row.pair)), [])) := by
  have ended : ∀ (pairs : List (Bytes × Bytes)) (fuel : Nat), 0 < fuel →
      loop (fun s => settle (readConfigNext s)) fuel ([], ofStrings (flat pairs), []) =
        some (.ok (ofStrings (flat pairs), [])) := by
    intro pairs fuel enough
    obtain ⟨fuel, rfl⟩ := Nat.exists_eq_add_of_le' (show 1 ≤ fuel from enough)
    rfl
  induction rows with
  | nil =>
      intro pairs fuel _ enough
      simpa using ended pairs fuel (by omega)
  | cons r rows ih =>
      intro pairs fuel clean enough
      cases rows with
      | nil =>
          rw [List.map_singleton, List.intercalate_singleton] at enough ⊢
          by_cases empty : r.text = []
          · have none : r.pair = none := by
              cases r with
              | setting s => simp [Row.text, Setting.text] at empty
              | other text line skipped => rfl
            rw [empty, ended pairs fuel (by omega)]
            simp [none]
          · obtain ⟨fuel, rfl⟩ := Nat.exists_eq_add_of_le' (show 1 ≤ fuel by omega)
            have taken : getline r.text = some (r.text ++ [], []) := by
              rw [getline_last r.line empty, List.append_nil]
            have positive := List.length_pos_iff.mpr empty
            rw [loop, (readConfigNext_row r clean (by simp) taken).1]
            refine (ended (pairs ++ r.pair.toList) fuel (by omega)).trans ?_
            cases pair : r.pair <;> simp [pair]
      | cons r' rows =>
          rw [List.map_cons, List.map_cons, List.intercalate_cons_cons] at enough ⊢
          rw [List.append_assoc, List.singleton_append] at enough ⊢
          obtain ⟨fuel, rfl⟩ := Nat.exists_eq_add_of_le' (show 1 ≤ fuel by omega)
          obtain ⟨step, clean'⟩ := readConfigNext_row r clean (by simp) (getline_line r.line _)
          rw [loop, step]
          rw [List.length_append, List.length_cons] at enough
          refine (ih (pairs ++ r.pair.toList) fuel clean' (by rw [List.map_cons]; omega)).trans ?_
          cases pair : r.pair <;> simp [pair]

/-- The map has the pairs of the lines in order, whatever stands between them. -/
theorem readConfig_reads (rows : List Row) : readConfig (some ([LF].intercalate (rows.map Row.text))) [] =
    some (.ok (ofStrings (flat (rows.filterMap Row.pair)), [])) :=
  readConfig_run rows [] _ (by simp) (Nat.lt_succ_self _)

/-- A pair with gaps around its words, and an equals sign in its value. -/
def spacedSetting : Setting where
  before := text " "
  key := text "a"
  after := text "\t"
  front := text " "
  value := text "b=#c"
  behind := text " "
  gaps := by simp only [Gap]; decide +kernel
  realKey := by decide
  plainKey := by decide +kernel
  noComment := by decide
  realValue := by decide
  plainValue := by decide +kernel

def plainSetting : Setting where
  before := []
  key := text "last"
  after := []
  front := []
  value := text "1"
  behind := []
  gaps := by simp [Gap]
  realKey := by decide
  plainKey := by decide +kernel
  noComment := by decide
  realValue := by decide
  plainValue := by decide +kernel

/-- Between the two pairs stand an empty line, a comment with an equals sign, and a line without one. -/
def mixedRows : List Row :=
  [.setting spacedSetting, .other [] (by decide) (Or.inl (by decide)),
    .other (text " # x = y") (by decide)
      (Or.inr ⟨text " ", text " x = y", by simp only [Gap]; decide +kernel, by decide⟩),
    .other (text "plain") (by decide) (Or.inl (by decide)), .setting plainSetting]

theorem readConfig_reads_mixed :
    readConfig (some (text " a\t= b=#c \n\n # x = y\nplain\nlast=1")) [] =
      some (.ok (ofStrings [text "a", text "b=#c", text "last", text "1"], [])) :=
  readConfig_reads mixedRows

end Piercloud.Lists
