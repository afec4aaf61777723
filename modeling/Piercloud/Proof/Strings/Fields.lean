import Piercloud.Library.Fields
import Piercloud.Proof.Lists.Pushing

/-
This file shows that `lstSplitStr` gives the fields of a string, and that `lstGlue` joins them.
-/

namespace Piercloud.Lists

open CLib Loop Liblst Blocks

/-- The field that has begun stands in front of `p`, and the rest of the string behind it. -/
structure Scans (strings : List Bytes) (field : Option Bytes) (rest : Bytes) (s : Splitting) : Prop where
  place : ∃ passed behind, s.t = passed ++ field.getD [] ++ rest ++ NUL :: behind ∧
    s.p = passed.length + (field.getD []).length ∧ s.b = field.map fun _ => passed.length
  clean : NUL ∉ field.getD [] ++ rest
  lst : s.lst = ofStrings strings
  strings : ∀ str ∈ strings, NUL ∉ str
  allocs : s.allocs = []

section Scan

variable {strings : List Bytes} {field : Option Bytes} {splitter c : UInt8} {rest : Bytes} {s : Splitting}

/-- The scan looks at the next byte of the string. -/
theorem Scans.next (scans : Scans strings field (c :: rest) s) : access s.t[s.p]? = .ok c := by
  obtain ⟨passed, behind, same, place, -⟩ := scans.place
  rw [same, place, ← List.length_append, List.append_assoc (passed ++ _), List.getElem?_append_right le_rfl]
  simp

/-- The scan looks at the terminator in the end. -/
theorem Scans.last (scans : Scans strings field [] s) : access s.t[s.p]? = .ok NUL := by
  obtain ⟨passed, behind, same, place, -⟩ := scans.place
  rw [same, place, ← List.length_append, List.append_nil, List.getElem?_append_right le_rfl]
  simp

/-- At the end of the string the list has all the fields. -/
theorem splitNext_last (scans : Scans strings field [] s) :
    splitNext splitter s = .ok (.inr (ofStrings (strings ++ field.toList), [])) := by
  obtain ⟨passed, behind, same, place, begun⟩ := scans.place
  have clean := scans.clean
  simp only [splitNext, scans.last, bind, Except.bind, if_true, begun]
  cases field with
  | none => simp [scans.lst, scans.allocs, pure, Except.pure]
  | some f =>
      rw [Option.getD_some, List.append_nil] at same clean
      simp only [Option.map_some]
      rw [same, Block.stringAt_eq clean, access_some, scans.lst, scans.allocs]
      simp only [lstPush_ofStrings scans.strings clean, pure, Except.pure, Option.toList_some]

/-- A splitter is overwritten, and the field in front of it goes to the list. -/
theorem splitNext_splitter (real : splitter ≠ NUL) (scans : Scans strings field (splitter :: rest) s) :
    ∃ t, splitNext splitter s = .ok (.inl t) ∧ Scans (strings ++ field.toList) none rest t := by
  obtain ⟨passed, behind, same, place, begun⟩ := scans.place
  have clean := scans.clean
  rw [List.mem_append, List.mem_cons, not_or, not_or] at clean
  have cut : Block.poke s.t s.p NUL = some (passed ++ field.getD [] ++ NUL :: (rest ++ NUL :: behind)) := by
    rw [same, place, ← List.length_append, List.append_assoc (passed ++ _)]
    exact Block.poke_eq _ _ _ _
  simp only [splitNext, scans.next, bind, Except.bind, if_neg real, if_true, cut, access_some, begun]
  cases field with
  | none =>
      refine ⟨_, rfl, ⟨passed ++ [NUL], behind, by simp, by simp [place], rfl⟩, by simpa using clean.2.2, ?_, ?_,
        scans.allocs⟩
      · simp [scans.lst]
      · simpa using scans.strings
  | some f =>
      rw [Option.getD_some] at clean
      simp only [Option.map_some, Option.getD_some]
      rw [Block.stringAt_eq clean.1, access_some, scans.lst, scans.allocs]
      simp only [lstPush_ofStrings scans.strings clean.1, Option.toList_some]
      refine ⟨_, rfl, ⟨passed ++ f ++ [NUL], behind, by simp, ?_, rfl⟩, by simpa using clean.2.2, rfl, ?_, rfl⟩
      · simp only [place, Option.getD_some, Option.getD_none, List.length_append, List.length_singleton,
          List.length_nil]
      · exact clean_append scans.strings (by simpa using clean.1)

/-- Another byte begins a field or goes on with it. -/
theorem splitNext_other (other : c ≠ splitter) (scans : Scans strings field (c :: rest) s) :
    ∃ t, splitNext splitter s = .ok (.inl t) ∧ Scans strings (some (field.getD [] ++ [c])) rest t := by
  obtain ⟨passed, behind, same, place, begun⟩ := scans.place
  have clean := scans.clean
  have visible : c ≠ NUL := by
    rintro rfl
    simp at clean
  simp only [splitNext, scans.next, bind, Except.bind, if_neg visible, if_neg other]
  refine ⟨_, rfl, ⟨passed, behind, ?_, ?_, ?_⟩, by simpa using clean, scans.lst, scans.strings, scans.allocs⟩
  · simp [same]
  · simp only [place, Option.getD_some, List.length_append, List.length_singleton]
    omega
  · cases field with
    | none => simp [begun, place]
    | some f => simp [begun]

/-- The induction is on the bytes that are still to pass. -/
theorem splitNext_run (real : splitter ≠ NUL) (rest : Bytes) :
    ∀ (strings : List Bytes) (field : Option Bytes) (s : Splitting) (fuel : Nat), Scans strings field rest s →
      rest.length < fuel → loop (fun s => settle (splitNext splitter s)) fuel s =
        some (.ok (ofStrings (splitLoop splitter rest field strings), [])) := by
  induction rest with
  | nil =>
      intro strings field s fuel scans enough
      obtain ⟨fuel, rfl⟩ := Nat.exists_eq_add_of_le' (show 1 ≤ fuel from enough)
      have fields : splitLoop splitter [] field strings = strings ++ field.toList := by
        cases field <;> simp [splitLoop]
      rw [loop, splitNext_last scans, fields]
      rfl
  | cons c rest ih =>
      intro strings field s fuel scans enough
      obtain ⟨fuel, rfl⟩ := Nat.exists_eq_add_of_le' (show 1 ≤ fuel by omega)
      rw [List.length_cons, Nat.add_lt_add_iff_right] at enough
      by_cases same : c = splitter
      · subst same
        obtain ⟨t, goesOn, later⟩ := splitNext_splitter real scans
        rw [loop, goesOn, splitLoop, if_pos rfl]
        exact ih _ _ t fuel later enough
      · obtain ⟨t, goesOn, later⟩ := splitNext_other same scans
        rw [loop, goesOn, splitLoop, if_neg same]
        exact ih _ _ t fuel later enough

end Scan

/-- On a block that holds a string the scan gives the list of the string function. -/
theorem lstSplitStr_eq {splitter : UInt8} (real : splitter ≠ NUL) {s : Bytes} (clean : NUL ∉ s) (behind : Bytes) :
    lstSplitStr splitter (some (s ++ NUL :: behind)) [] =
      some (.ok (ofStrings (Liblst.lstSplitStr splitter s), [])) := by
  have begins : Scans [] none s ⟨s ++ [NUL], 0, none, none, []⟩ :=
    ⟨⟨[], [], by simp, rfl, rfl⟩, by simpa using clean, rfl, by simp, rfl⟩
  simp only [lstSplitStr, Block.stringAt_zero clean, access_some, allocated]
  rw [splitNext_run real s [] none _ _ begins (Nat.lt_succ_self _), Liblst.lstSplitStr, cstr_eq_self clean]

/-- The last field goes on up to the end of the string. -/
theorem splitLoop_end {splitter : UInt8} {field : Bytes} (absent : splitter ∉ field) (front : Bytes)
    (lst : List Bytes) : splitLoop splitter field (some front) lst = lst ++ [front ++ field] := by
  induction field generalizing front with
  | nil => simp [splitLoop]
  | cons c field ih =>
      simp only [List.mem_cons, not_or] at absent
      rw [splitLoop, if_neg (Ne.symm absent.1), ih absent.2]
      simp

theorem splitLoop_eq_fields (splitter : UInt8) (s : Bytes) :
    splitLoop splitter s none [] = Fields.fields splitter s := by
  induction s using Fields.split_induction splitter with
  | absent text absent =>
      rw [Fields.fields_absent absent]
      cases text with
      | nil => rfl
      | cons c text =>
          simp only [List.mem_cons, not_or] at absent
          rw [splitLoop, if_neg (Ne.symm absent.1), splitLoop_end absent.2]
          simp
  | found front rest absent ih =>
      rw [Fields.fields_split absent, ← ih]
      cases front with
      | nil => simp [splitLoop]
      | cons c front =>
          simp only [List.mem_cons, not_or] at absent
          rw [List.cons_append, splitLoop, if_neg (Ne.symm absent.1), splitLoop_label absent.2, splitLoop_list]
          simp

/-- The result of the joining has all the strings one after the other. -/
theorem glueLoop_array (strings : List Bytes) (rval : Option Bytes) :
    glueLoop (array strings) rval [] =
      .ok (if strings = [] then rval else some (rval.getD [] ++ strings.flatten), []) := by
  induction strings generalizing rval with
  | nil => rfl
  | cons str strings ih =>
      rw [array, List.map_cons, List.cons_append, glueLoop]
      simp only [allocated]
      rw [← array, ih]
      cases strings <;> simp

/-- The list has the fields of the string in order, and they join to the string without the splitter. -/
theorem lstSplitStr_fields {splitter : UInt8} (real : splitter ≠ NUL) {s : Bytes} (clean : NUL ∉ s) (behind : Bytes) :
    lstSplitStr splitter (some (s ++ NUL :: behind)) [] = some (.ok (ofStrings (Fields.fields splitter s), [])) ∧
      (∀ field ∈ Fields.fields splitter s, field ≠ [] ∧ splitter ∉ field) ∧
      ∃ glued, lstGlue (ofStrings (Fields.fields splitter s)) [] = .ok (glued, []) ∧
        glued.getD [] = s.filter (· ≠ splitter) := by
  refine ⟨?_, fun field => Fields.mem_fields, ?_⟩
  · rw [lstSplitStr_eq real clean, Liblst.lstSplitStr, cstr_eq_self clean, splitLoop_eq_fields]
  · rw [← Fields.flatten_fields]
    unfold ofStrings
    split
    · rename_i none
      exact ⟨_, rfl, by rw [none]; rfl⟩
    · rename_i some
      refine ⟨_, glueLoop_array _ none, ?_⟩
      simp [some]

theorem lstSplitStr_fields_path : lstSplitStr 47 (some (text "//usr//bin/" ++ NUL :: text "x/y")) [] =
    some (.ok (ofStrings [text "usr", text "bin"], [])) :=
  (lstSplitStr_fields (by decide) (by decide) (text "x/y")).1

end Piercloud.Lists
