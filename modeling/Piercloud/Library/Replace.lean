import Mathlib.Data.List.Infix
import Mathlib.Tactic

namespace Replace

variable {α : Type*}

/-- A text lies in front of an absent letter or behind it. -/
theorem infix_cut_iff {needle : List α} {c : α} (absent : c ∉ needle) (a b : List α) :
    needle <:+: a ++ c :: b ↔ needle <:+: a ∨ needle <:+: b := by
  constructor
  · rintro ⟨x, y, same⟩
    rw [List.append_assoc, List.append_eq_append_iff] at same
    rcases same with ⟨middle, rfl, behind⟩ | ⟨middle, rfl, behind⟩
    · rcases List.append_eq_append_iff.mp behind with ⟨rest, rfl, -⟩ | ⟨rest, rfl, tail⟩
      · exact Or.inl ⟨x, rest, by simp⟩
      · cases rest with
        | nil => exact Or.inl ⟨x, [], by simp⟩
        | cons d rest =>
            obtain ⟨rfl, -⟩ := List.cons.inj tail
            simp at absent
    · cases middle with
      | nil =>
          cases needle with
          | nil => exact Or.inl (List.nil_infix)
          | cons d needle =>
              obtain ⟨rfl, -⟩ := List.cons.inj behind
              simp at absent
      | cons d middle =>
          obtain ⟨-, tail⟩ := List.cons.inj behind
          exact Or.inr ⟨middle, y, by simp [tail]⟩
  · rintro (front | behind)
    · exact front.trans (List.prefix_append _ _).isInfix
    · exact behind.trans ((List.suffix_cons c b).trans (List.suffix_append _ _)).isInfix

theorem prefix_cut_iff {needle : List α} {c : α} (absent : c ∉ needle) (a b : List α) :
    needle <+: a ++ c :: b ↔ needle <+: a := by
  constructor
  · rintro ⟨y, same⟩
    rcases List.append_eq_append_iff.mp same with ⟨rest, rfl, -⟩ | ⟨rest, rfl, tail⟩
    · exact List.prefix_append _ _
    · cases rest with
      | nil => simp
      | cons d rest =>
          obtain ⟨rfl, -⟩ := List.cons.inj tail
          simp at absent
  · exact fun front => front.trans (List.prefix_append _ _)

/-- The first letter of a needle is where an occurrence starts. -/
theorem not_prefix_other {c d : α} {needle text : List α} (head : needle.head? = some c) (other : c ≠ d) :
    ¬ needle <+: d :: text := by
  obtain ⟨rest, rfl⟩ := List.head?_eq_some_iff.mp head
  exact fun start => other (List.cons_prefix_cons.mp start).1

/-- A text behind a front that the needle cannot start in. -/
theorem infix_front_iff {c : α} {needle front : List α} (head : needle.head? = some c) (absent : c ∉ front)
    (rest : List α) : needle <:+: front ++ rest ↔ needle <:+: rest := by
  induction front with
  | nil => rfl
  | cons d front ih =>
      simp only [List.mem_cons, not_or] at absent
      rw [List.cons_append, List.infix_cons_iff, or_iff_right (not_prefix_other head absent.1), ih absent.2]

variable [DecidableEq α]

/-- The replacement stands for each occurrence. The count tells how many letters of the last one are still to pass. -/
def replaceFrom (needle replacement : List α) : Nat → List α → List α
  | _, [] => []
  | 0, c :: rest =>
      if needle <+: c :: rest then replacement ++ replaceFrom needle replacement (needle.length - 1) rest
      else c :: replaceFrom needle replacement 0 rest
  | skip + 1, _ :: rest => replaceFrom needle replacement skip rest

/-- Each occurrence of the needle is replaced, from the left and without overlaps. -/
def replaceAll (needle replacement text : List α) : List α := replaceFrom needle replacement 0 text

theorem replaceFrom_drop (needle replacement : List α) (skip : Nat) (text : List α) :
    replaceFrom needle replacement skip text = replaceAll needle replacement (text.drop skip) := by
  induction text generalizing skip with
  | nil => cases skip <;> simp [replaceAll, replaceFrom]
  | cons c rest ih =>
      cases skip with
      | zero => rfl
      | succ skip => rw [replaceFrom, ih, List.drop_succ_cons]

@[simp] theorem replaceAll_nil (needle replacement : List α) : replaceAll needle replacement [] = [] := rfl

theorem replaceAll_needle {needle : List α} (real : needle ≠ []) (replacement rest : List α) :
    replaceAll needle replacement (needle ++ rest) = replacement ++ replaceAll needle replacement rest := by
  obtain ⟨c, needle, rfl⟩ := List.exists_cons_of_ne_nil real
  have front : c :: needle <+: c :: (needle ++ rest) := List.prefix_append (c :: needle) rest
  rw [replaceAll, List.cons_append, replaceFrom, if_pos front, replaceFrom_drop]
  simp

theorem replaceAll_cons {needle rest : List α} {c : α} (other : ¬ needle <+: c :: rest) (replacement : List α) :
    replaceAll needle replacement (c :: rest) = c :: replaceAll needle replacement rest := by
  rw [replaceAll, replaceFrom, if_neg other, replaceAll]

/-- A text without the needle does not change. -/
theorem replaceAll_absent {needle text : List α} (absent : ¬ needle <:+: text) (replacement : List α) :
    replaceAll needle replacement text = text := by
  induction text with
  | nil => rfl
  | cons c rest ih =>
      rw [List.infix_cons_iff, not_or] at absent
      rw [replaceAll_cons absent.1, ih absent.2]

/-- Behind the first occurrence the replacement goes on. -/
theorem replaceAll_found {needle text : List α} (real : needle ≠ []) (inside : needle <:+: text)
    (replacement : List α) : ∃ a b, text = a ++ needle ++ b ∧
      replaceAll needle replacement text = a ++ replacement ++ replaceAll needle replacement b := by
  induction text with
  | nil => exact absurd (List.infix_nil.mp inside) real
  | cons c rest ih =>
      by_cases front : needle <+: c :: rest
      · obtain ⟨b, same⟩ := front
        exact ⟨[], b, same.symm, by rw [← same, replaceAll_needle real]; rfl⟩
      · obtain ⟨a, b, split, replaced⟩ := ih ((List.infix_cons_iff.mp inside).resolve_left front)
        exact ⟨c :: a, b, by simp [split], by rw [replaceAll_cons front, replaced]; rfl⟩

/-- A text has no needle, or what holds behind its first one holds for it. -/
theorem replaceAll_induction {needle : List α} (real : needle ≠ []) (replacement : List α) {motive : List α → Prop}
    (absent : ∀ text, ¬ needle <:+: text → motive text)
    (found : ∀ a b, replaceAll needle replacement (a ++ needle ++ b) =
      a ++ replacement ++ replaceAll needle replacement b → motive b → motive (a ++ needle ++ b))
    (text : List α) : motive text := by
  induction h : text.length using Nat.strong_induction_on generalizing text with
  | _ n ih =>
      by_cases inside : needle <:+: text
      · obtain ⟨a, b, rfl, replaced⟩ := replaceAll_found real inside replacement
        have positive := List.length_pos_of_ne_nil real
        have shorter : b.length < n := by
          rw [← h]
          simp only [List.length_append]
          omega
        exact found a b replaced (ih b.length shorter b rfl)
      · exact absent text inside

/-- The occurrences are counted from the left and without overlaps. -/
def countFrom (needle : List α) : Nat → List α → Nat
  | _, [] => 0
  | 0, c :: rest =>
      if needle <+: c :: rest then countFrom needle (needle.length - 1) rest + 1 else countFrom needle 0 rest
  | skip + 1, _ :: rest => countFrom needle skip rest

def occurrences (needle text : List α) : Nat := countFrom needle 0 text

/-- Each occurrence changes the length by as much as the replacement is longer. -/
theorem length_replaceAll_eq {needle : List α} (real : needle ≠ []) (replacement text : List α) :
    (replaceAll needle replacement text).length + occurrences needle text * needle.length =
      text.length + occurrences needle text * replacement.length := by
  have general : ∀ (text : List α) (skip : Nat), skip ≤ text.length →
      (replaceFrom needle replacement skip text).length + countFrom needle skip text * needle.length + skip =
        text.length + countFrom needle skip text * replacement.length := by
    intro text
    induction text with
    | nil =>
        intro skip within
        simpa [replaceFrom, countFrom] using within
    | cons c rest ih =>
        intro skip within
        cases skip with
        | succ skip =>
            have later := ih skip (by simpa using within)
            simp only [replaceFrom, countFrom, List.length_cons]
            omega
        | zero =>
            by_cases front : needle <+: c :: rest
            · have positive := List.length_pos_iff.mpr real
              have size := front.length_le
              have later := ih (needle.length - 1) (by rw [List.length_cons] at size; omega)
              simp only [replaceFrom, countFrom, if_pos front, List.length_append, List.length_cons, Nat.succ_mul]
              omega
            · have later := ih 0 (Nat.zero_le _)
              simp only [replaceFrom, countFrom, if_neg front, List.length_cons]
              omega
  exact general text 0 (Nat.zero_le _)

/-- A letter that the needle does not have cuts the text for the replacement. -/
theorem replaceAll_cut {needle : List α} (real : needle ≠ []) {c : α} (absent : c ∉ needle)
    (replacement a b : List α) : replaceAll needle replacement (a ++ c :: b) =
      replaceAll needle replacement a ++ c :: replaceAll needle replacement b := by
  induction h : a.length using Nat.strong_induction_on generalizing a with
  | _ n ih =>
      cases a with
      | nil =>
          have other : ¬ needle <+: c :: b := by
            intro front
            rw [← List.nil_append (c :: b), prefix_cut_iff absent] at front
            exact real (List.prefix_nil.mp front)
          rw [List.nil_append, replaceAll_cons other, replaceAll_nil, List.nil_append]
      | cons d a =>
          by_cases front : needle <+: d :: a
          · obtain ⟨rest, same⟩ := front
            have shorter : rest.length < n := by
              have positive := List.length_pos_of_ne_nil real
              rw [← h, ← same, List.length_append]
              omega
            rw [← same, List.append_assoc, replaceAll_needle real, replaceAll_needle real,
              ih rest.length shorter rest rfl, List.append_assoc]
          · have other : ¬ needle <+: d :: (a ++ c :: b) := by
              rwa [← List.cons_append, prefix_cut_iff absent]
            rw [List.cons_append, replaceAll_cons other, replaceAll_cons front, List.cons_append,
              ih a.length (by simp [← h]) a rfl]

/-- The replacement goes line by line. -/
theorem replaceAll_lines {needle : List α} (real : needle ≠ []) {c : α} (absent : c ∉ needle) (replacement : List α)
    (lines : List (List α)) : replaceAll needle replacement (lines.flatMap (· ++ [c])) =
      (lines.map (replaceAll needle replacement)).flatMap (· ++ [c]) := by
  induction lines with
  | nil => rfl
  | cons line lines ih =>
      rw [List.flatMap_cons, List.append_assoc, List.singleton_append, replaceAll_cut real absent, ih]
      simp

/-- A front that the needle cannot start in is copied. -/
theorem replaceAll_front {c : α} {needle front : List α} (head : needle.head? = some c) (absent : c ∉ front)
    (replacement rest : List α) :
    replaceAll needle replacement (front ++ rest) = front ++ replaceAll needle replacement rest := by
  induction front with
  | nil => rfl
  | cons d front ih =>
      simp only [List.mem_cons, not_or] at absent
      rw [List.cons_append, replaceAll_cons (not_prefix_other head absent.1), ih absent.2, List.cons_append]

/-- A replacement that is at least as long never makes a text shorter. -/
theorem length_replaceAll {needle replacement : List α} (real : needle ≠ [])
    (longer : needle.length ≤ replacement.length) (text : List α) :
    text.length ≤ (replaceAll needle replacement text).length := by
  induction text using replaceAll_induction real replacement with
  | absent text absent => rw [replaceAll_absent absent]
  | found a b replaced ih =>
      rw [replaced]
      simp only [List.length_append]
      omega

/-- Such a replacement keeps a text exactly when it replaces nothing, or the needle by itself. -/
theorem replaceAll_eq_self_iff {needle replacement : List α} (real : needle ≠ [])
    (longer : needle.length ≤ replacement.length) (text : List α) :
    replaceAll needle replacement text = text ↔ replacement = needle ∨ ¬ needle <:+: text := by
  constructor
  · intro same
    by_cases inside : needle <:+: text
    · obtain ⟨a, b, split, replaced⟩ := replaceAll_found real inside replacement
      rw [replaced, split, List.append_assoc, List.append_assoc] at same
      have rest := List.append_cancel_left same
      have sizes := congrArg List.length rest
      have later := length_replaceAll real longer b
      simp only [List.length_append] at sizes
      exact Or.inl (List.append_inj_left rest (by omega))
    · exact Or.inr inside
  · rintro (rfl | absent)
    · induction text using replaceAll_induction real replacement with
      | absent text absent => exact replaceAll_absent absent replacement
      | found a b replaced ih => rw [replaced, ih]
    · exact replaceAll_absent absent replacement

/-- A letter that the replacement has at least as often never becomes rarer. -/
theorem count_replaceAll {needle replacement : List α} (real : needle ≠ []) {c : α}
    (more : needle.count c ≤ replacement.count c) (text : List α) :
    text.count c ≤ (replaceAll needle replacement text).count c := by
  induction text using replaceAll_induction real replacement with
  | absent text absent => rw [replaceAll_absent absent]
  | found a b replaced ih =>
      rw [replaced]
      simp only [List.count_append]
      omega

theorem count_replaceAll_lt {needle replacement text : List α} (real : needle ≠ []) {c : α}
    (more : needle.count c < replacement.count c) (inside : needle <:+: text) :
    text.count c < (replaceAll needle replacement text).count c := by
  obtain ⟨a, b, split, replaced⟩ := replaceAll_found real inside replacement
  have later := count_replaceAll real more.le b
  rw [replaced, split]
  simp only [List.count_append]
  omega

/-- A letter that the needle has at least as often never becomes more frequent. -/
theorem count_replaceAll_le {needle replacement : List α} (real : needle ≠ []) {c : α}
    (fewer : replacement.count c ≤ needle.count c) (text : List α) :
    (replaceAll needle replacement text).count c ≤ text.count c := by
  induction text using replaceAll_induction real replacement with
  | absent text absent => rw [replaceAll_absent absent]
  | found a b replaced ih =>
      rw [replaced]
      simp only [List.count_append]
      omega

theorem count_replaceAll_rarer {needle replacement text : List α} (real : needle ≠ []) {c : α}
    (fewer : replacement.count c < needle.count c) (inside : needle <:+: text) :
    (replaceAll needle replacement text).count c < text.count c := by
  obtain ⟨a, b, split, replaced⟩ := replaceAll_found real inside replacement
  have later := count_replaceAll_le real fewer.le b
  rw [replaced, split]
  simp only [List.count_append]
  omega

/-- What the needle and the replacement have in common at their heads does not change at the head of a text. -/
theorem replaceAll_take {needle replacement : List α} (real : needle ≠ []) {k : Nat} (within : k ≤ needle.length)
    (within' : k ≤ replacement.length) (common : needle.take k = replacement.take k) (text : List α) :
    (replaceAll needle replacement text).take k = text.take k := by
  induction text generalizing k with
  | nil => rfl
  | cons c rest ih =>
      by_cases front : needle <+: c :: rest
      · obtain ⟨rest', same⟩ := front
        rw [← same, replaceAll_needle real, List.take_append_of_le_length within',
          List.take_append_of_le_length within, common]
      · rw [replaceAll_cons front]
        cases k with
        | zero => rfl
        | succ k =>
            rw [List.take_succ_cons, List.take_succ_cons, ih (by omega) (by omega)]
            have shorter := congrArg (List.take k) common
            rwa [List.take_take, List.take_take, Nat.min_eq_left (Nat.le_succ k)] at shorter

/-- No letter comes from elsewhere. -/
theorem mem_replaceAll {needle replacement text : List α} (real : needle ≠ []) {c : α}
    (member : c ∈ replaceAll needle replacement text) : c ∈ replacement ∨ c ∈ text := by
  induction text using replaceAll_induction real replacement with
  | absent text absent =>
      rw [replaceAll_absent absent] at member
      exact Or.inr member
  | found a b replaced ih =>
      rw [replaced, List.mem_append, List.mem_append] at member
      rcases member with (front | new) | later
      · exact Or.inr (by simp [front])
      · exact Or.inl new
      · exact (ih later).imp_right fun old => by simp [old]

/-- Nothing vanishes. -/
theorem replaceAll_ne_nil {needle replacement text : List α} (real : needle ≠ []) (visible : replacement ≠ [])
    (some : text ≠ []) : replaceAll needle replacement text ≠ [] := by
  obtain ⟨c, rest, rfl⟩ := List.exists_cons_of_ne_nil some
  by_cases front : needle <+: c :: rest
  · obtain ⟨rest', same⟩ := front
    rw [← same, replaceAll_needle real]
    simp [visible]
  · rw [replaceAll_cons front]
    simp

/-- Two splits at a letter agree if it stands as often in front of them. -/
theorem split_count {a b x y : List α} {c : α} (same : a ++ c :: x = b ++ c :: y) (often : a.count c = b.count c) :
    a = b ∧ x = y := by
  have fronts : a = b := by
    rcases List.append_eq_append_iff.mp same with ⟨middle, rfl, behind⟩ | ⟨middle, rfl, behind⟩
    · cases middle with
      | nil => simp
      | cons d middle =>
          obtain ⟨rfl, -⟩ := List.cons.inj behind
          simp at often
    · cases middle with
      | nil => simp
      | cons d middle =>
          obtain ⟨rfl, -⟩ := List.cons.inj behind
          simp at often
  subst fronts
  exact ⟨rfl, (List.cons.inj (List.append_cancel_left same)).2⟩

/-- Two blocks of lines agree exactly when their lines do, if no line of the first has fewer line ends. -/
theorem flatMap_lines_eq_iff {β : Type*} {first second : β → List α} {c : α} {lines : List β}
    (often : ∀ line ∈ lines, (second line).count c ≤ (first line).count c) :
    lines.flatMap (fun line => first line ++ [c]) = lines.flatMap (fun line => second line ++ [c]) ↔
      ∀ line ∈ lines, first line = second line := by
  constructor
  · intro same
    have total : ∀ rest : List β, (∀ line ∈ rest, (second line).count c ≤ (first line).count c) →
        (rest.flatMap fun line => second line ++ [c]).count c ≤
          (rest.flatMap fun line => first line ++ [c]).count c := by
      intro rest often
      induction rest with
      | nil => exact le_refl _
      | cons line rest ih =>
          have here := often line (by simp)
          have later := ih fun other member => often other (by simp [member])
          simp only [List.flatMap_cons, List.count_append]
          omega
    induction lines with
    | nil => simp
    | cons line lines ih =>
        have behind := total lines fun other member => often other (by simp [member])
        have counts := congrArg (List.count c) same
        have here := often line (by simp)
        simp only [List.flatMap_cons, List.count_append] at counts
        simp only [List.flatMap_cons, List.append_assoc, List.singleton_append] at same
        obtain ⟨first, rest⟩ := split_count same (by omega)
        intro other member
        rcases List.mem_cons.mp member with rfl | inside
        · exact first
        · exact ih (fun other member => often other (by simp [member])) rest other inside
  · exact fun same => List.flatMap_congr fun line member => by rw [same line member]

end Replace
