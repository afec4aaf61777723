import Mathlib.Data.List.TakeWhile
import Mathlib.Tactic

namespace Fields

variable {α : Type*} [DecidableEq α]

/-- These are the longest parts of a text without a letter, as far as they are not empty. -/
def fields (c : α) (text : List α) : List (List α) := (text.splitOn c).filter fun field => !field.isEmpty

theorem fields_absent {c : α} {text : List α} (absent : c ∉ text) :
    fields c text = [text].filter fun field => !field.isEmpty := by
  rw [fields, List.splitOn_eq_singleton absent]

theorem fields_split {c : α} {front : List α} (absent : c ∉ front) (rest : List α) :
    fields c (front ++ c :: rest) = ([front].filter fun field => !field.isEmpty) ++ fields c rest := by
  rw [fields, List.splitOn_append_cons_self_of_not_mem absent, ← List.singleton_append, List.filter_append, fields]

/-- A text has no such letter, or what holds behind its first one holds for it. -/
theorem split_induction (c : α) {motive : List α → Prop} (absent : ∀ text, c ∉ text → motive text)
    (found : ∀ front rest, c ∉ front → motive rest → motive (front ++ c :: rest)) (text : List α) : motive text := by
  induction size : text.length using Nat.strong_induction_on generalizing text with
  | _ n ih =>
      by_cases member : c ∈ text
      · obtain ⟨front, rest, rfl, missing⟩ := List.eq_append_cons_of_mem member
        have shorter : rest.length < n := by
          rw [← size, List.length_append, List.length_cons]
          omega
        exact found front rest missing (ih rest.length shorter rest rfl)
      · exact absent text member

/-- No field is empty or has the letter. -/
theorem mem_fields {c : α} {text field : List α} (member : field ∈ fields c text) : field ≠ [] ∧ c ∉ field := by
  induction text using split_induction c with
  | absent text absent =>
      rw [fields_absent absent, List.mem_filter, List.mem_singleton] at member
      obtain ⟨rfl, real⟩ := member
      exact ⟨by simpa using real, absent⟩
  | found front rest absent ih =>
      rw [fields_split absent, List.mem_append, List.mem_filter, List.mem_singleton] at member
      rcases member with ⟨rfl, real⟩ | later
      · exact ⟨by simpa using real, absent⟩
      · exact ih later

/-- The fields have every other letter in order. -/
theorem flatten_fields (c : α) (text : List α) : (fields c text).flatten = text.filter (· ≠ c) := by
  have kept : ∀ front : List α, c ∉ front → front.filter (· ≠ c) = front := by
    intro front absent
    rw [List.filter_eq_self]
    intro d member
    simpa using fun same : d = c => absent (same ▸ member)
  have one : ∀ front : List α, ([front].filter fun field => !field.isEmpty).flatten = front := by
    intro front
    cases front <;> simp
  induction text using split_induction c with
  | absent text absent => rw [fields_absent absent, one, kept text absent]
  | found front rest absent ih =>
      rw [fields_split absent, List.flatten_append, one, ih, List.filter_append, kept front absent]
      simp

end Fields
