import Piercloud.Construction.Collecting

/-
This file shows that an entry that is cut in place stays a string in its block and gives the row of the header.
-/

namespace Piercloud.Pointers

open CLib Liblst Cgi

/-- No byte becomes a terminator in lower case. -/
theorem lowerDash_real (c : UInt8) (real : c ≠ NUL) : lowerDash c ≠ NUL := by
  have table : ∀ n < 256, UInt8.ofNat n ≠ NUL → lowerDash (UInt8.ofNat n) ≠ NUL := by decide +kernel
  have entry := table c.toNat c.toNat_lt
  rw [UInt8.ofNat_toNat] at entry
  exact entry real

theorem lowerDash_clean {bytes : Bytes} (clean : NUL ∉ bytes) : NUL ∉ bytes.map lowerDash := by
  rw [List.mem_map]
  rintro ⟨c, member, same⟩
  exact lowerDash_real c (fun nul => clean (nul ▸ member)) same

/-- The letters are changed up to the terminator. -/
theorem lowered_eq {bytes : Bytes} (clean : NUL ∉ bytes) (behind : Bytes) :
    lowered (bytes ++ NUL :: behind) = some (bytes.map lowerDash ++ NUL :: behind) := by
  induction bytes with
  | nil => rfl
  | cons c bytes ih =>
      rw [List.mem_cons, not_or] at clean
      rw [List.cons_append, lowered, if_neg (Ne.symm clean.1), ih clean.2]
      rfl

/-- The name and the value are cut in a block whose bytes in front have been cut before. -/
theorem cutName_row (front : Bytes) {rest : Bytes} (clean : NUL ∉ rest) :
    ∃ left, left.length = (front ++ rest).length ∧ cutName (front ++ rest ++ [NUL]) front.length =
      some (left ++ [NUL],
        (strchr rest 61).map fun p => headerRow (rest.take p) (rest.drop (p + 1))) := by
  unfold cutName
  rw [Block.stringAt_eq clean]
  cases sign : strchr rest 61 with
  | none => exact ⟨front ++ rest, rfl, by simp [sign]⟩
  | some p =>
      obtain ⟨name, value, rfl, rfl, absent, cleanName⟩ := strchr_some sign
      have cleanValue : NUL ∉ value := fun member => clean (by simp [member])
      have cut : Block.poke (front ++ (name ++ 61 :: value) ++ [NUL]) (front.length + name.length) NUL =
          some (front ++ name ++ NUL :: (value ++ [NUL])) := by
        have poked := Block.poke_eq (front ++ name) (value ++ [NUL]) 61 NUL
        rw [List.length_append] at poked
        rw [← poked]
        simp
      have taken : (name ++ 61 :: value).take name.length = name := List.take_left
      have dropped : (name ++ 61 :: value).drop (name.length + 1) = value := by simp
      simp only [sign, Option.bind_eq_bind, Option.bind_some, cut, Option.map_some, taken, dropped]
      cases name with
      | nil =>
          have behind : (front ++ [] ++ NUL :: (value ++ [NUL])).drop (front.length + 1) = value ++ NUL :: [] := by
            rw [List.append_nil, List.drop_append]
            simp
          have before : (front ++ [] ++ NUL :: (value ++ [NUL])).take (front.length + 1) = front ++ [NUL] := by
            rw [List.append_nil, List.take_append]
            simp
          have first : Block.stringAt (front ++ [NUL] ++ (value.map lowerDash ++ [NUL])) front.length = some [] := by
            have found := Block.stringAt_eq (List.not_mem_nil (a := NUL)) front (value.map lowerDash ++ [NUL])
            simpa using found
          have second : Block.stringAt (front ++ [NUL] ++ (value.map lowerDash ++ [NUL]))
              (front.length + ([] : Bytes).length + 1) = some (value.map lowerDash) := by
            have found := Block.stringAt_eq (lowerDash_clean cleanValue) (front ++ [NUL]) []
            rw [List.length_append, List.append_assoc] at found
            exact found
          refine ⟨front ++ NUL :: value.map lowerDash, by simp, ?_⟩
          rw [behind, lowered_eq cleanValue, before, Option.bind_some, first, second]
          simp [headerRow]
      | cons c name =>
          have cleanNames : NUL ∉ c :: name.map lowerDash := by
            rw [List.mem_cons, not_or] at cleanName ⊢
            exact ⟨cleanName.1, lowerDash_clean cleanName.2⟩
          have behind : (front ++ c :: name ++ NUL :: (value ++ [NUL])).drop (front.length + 1) =
              name ++ NUL :: (value ++ [NUL]) := by
            rw [List.append_assoc, List.drop_append]
            simp
          have before : (front ++ c :: name ++ NUL :: (value ++ [NUL])).take (front.length + 1) = front ++ [c] := by
            rw [List.append_assoc, List.take_append]
            simp
          have same : front ++ [c] ++ (name.map lowerDash ++ NUL :: (value ++ [NUL])) =
              front ++ (c :: name.map lowerDash) ++ NUL :: (value ++ [NUL]) := by simp
          have first : Block.stringAt (front ++ (c :: name.map lowerDash) ++ NUL :: (value ++ [NUL])) front.length =
              some (c :: name.map lowerDash) := Block.stringAt_eq cleanNames front _
          have second : Block.stringAt (front ++ (c :: name.map lowerDash) ++ NUL :: (value ++ [NUL]))
              (front.length + (c :: name).length + 1) = some value := by
            have found := Block.stringAt_eq cleanValue (front ++ (c :: name.map lowerDash) ++ [NUL]) []
            simpa [Nat.add_assoc] using found
          refine ⟨front ++ (c :: name.map lowerDash) ++ NUL :: value, by simp, ?_⟩
          rw [behind, lowered_eq (fun member => cleanName (List.mem_cons_of_mem c member)), before, Option.bind_some,
            same, first, Option.bind_some, second]
          simp [headerRow]

/-- An entry that is cut gives the row that it adds to a header. -/
theorem cutEntry_row {entry : Bytes} (clean : NUL ∉ entry) :
    ∃ left row, left.length = entry.length ∧ cutEntry (entry ++ [NUL]) = some (left ++ [NUL], row) ∧
      ∀ header, addHeaderRow header entry = header ++ row.getD [] := by
  unfold cutEntry
  rw [Block.stringAt_zero clean, Option.bind_eq_bind, Option.bind_some]
  by_cases mark : strstr entry (text "HTTP_") = some 0
  · rw [if_pos mark]
    cases sign : strchr entry 95 with
    | none =>
        refine ⟨entry, none, rfl, rfl, fun header => ?_⟩
        rw [addHeaderRow, if_pos mark, sign]
        simp
    | some p =>
        obtain ⟨front, rest, rfl, rfl, absent, cleanFront⟩ := strchr_some sign
        have cleanRest : NUL ∉ rest := fun member => clean (by simp [member])
        obtain ⟨left, length, cut⟩ := cutName_row (front ++ [NUL]) cleanRest
        have poked := Block.poke_eq front (rest ++ [NUL]) 95 NUL
        have dropped : (front ++ 95 :: rest).drop (front.length + 1) = rest := by simp
        refine ⟨left, (strchr rest 61).map fun p => headerRow (rest.take p) (rest.drop (p + 1)), ?_, ?_,
          fun header => ?_⟩
        · simpa using length
        · have cut' : cutName (front ++ NUL :: (rest ++ [NUL])) (front.length + 1) =
              some (left ++ [NUL], (strchr rest 61).map fun p => headerRow (rest.take p) (rest.drop (p + 1))) := by
            simpa using cut
          rw [List.append_assoc, List.cons_append]
          change (Block.poke _ _ NUL).bind _ = _
          rw [poked]
          exact cut'
        · rw [addHeaderRow, if_pos mark, sign]
          dsimp only [Option.map_some]
          rw [dropped]
          cases strchr rest 61 <;> simp
  · rw [if_neg mark]
    obtain ⟨left, length, cut⟩ := cutName_row [] clean
    refine ⟨left, _, by simpa using length, by simpa using cut, fun header => ?_⟩
    rw [addHeaderRow, if_neg mark]
    dsimp only
    cases strchr entry 61 <;> simp

theorem headerRow_clean {header1 header2 : Bytes} (cleanName : NUL ∉ header1) (cleanValue : NUL ∉ header2) :
    NUL ∉ headerRow header1 header2 := by
  have sign : NUL ∉ text ": " := by decide
  have ending : NUL ∉ NL := by decide
  cases header1 with
  | nil =>
      rw [headerRow, List.mem_append, List.mem_append, not_or, not_or]
      exact ⟨⟨sign, lowerDash_clean cleanValue⟩, ending⟩
  | cons c rest =>
      rw [List.mem_cons, not_or] at cleanName
      have cleanRest := lowerDash_clean cleanName.2
      rw [headerRow, List.mem_append, List.mem_append, List.mem_append, List.mem_cons]
      simp only [not_or]
      exact ⟨⟨⟨⟨cleanName.1, cleanRest⟩, sign⟩, cleanValue⟩, ending⟩

/-- A header without a terminator gets a row without a terminator. -/
theorem addHeaderRow_clean {header entry : Bytes} (clean : NUL ∉ header) (cleanEntry : NUL ∉ entry) :
    NUL ∉ addHeaderRow header entry := by
  have row : ∀ (name : Bytes) (p : Nat), NUL ∉ name → NUL ∉ header ++ headerRow (name.take p) (name.drop (p + 1)) := by
    intro name p cleanName
    rw [List.mem_append, not_or]
    exact ⟨clean, headerRow_clean (fun front => cleanName (List.mem_of_mem_take front))
      (fun behind => cleanName (List.mem_of_mem_drop behind))⟩
  unfold addHeaderRow
  dsimp only
  split
  · exact clean
  · rename_i header1 begun
    have cleanName : NUL ∉ header1 := by
      split at begun
      · obtain ⟨p, -, rfl⟩ := Option.map_eq_some_iff.mp begun
        exact fun behind => cleanEntry (List.mem_of_mem_drop behind)
      · exact Option.some.inj begun ▸ cleanEntry
    split
    · exact clean
    · rw [replaceStrFormat_empty]
      exact row header1 _ cleanName

end Piercloud.Pointers
