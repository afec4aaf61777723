import Mathlib.Data.Finset.Erase
import Mathlib.Tactic

/-- A named pipe holds its unread items while a descriptor of one of its ends is open. -/
structure Fifo (ρ ω β : Type*) where
  content : List β
  readers : Finset ρ
  writers : Finset ω

namespace Fifo

variable {ρ ω β : Type*}

def empty : Fifo ρ ω β := ⟨[], ∅, ∅⟩

/-- No descriptor of either end is open. -/
def Unheld (f : Fifo ρ ω β) : Prop := f.readers = ∅ ∧ f.writers = ∅

def push (f : Fifo ρ ω β) (items : List β) : Fifo ρ ω β := { f with content := f.content ++ items }

def pull (f : Fifo ρ ω β) (count : Nat) : Fifo ρ ω β := { f with content := f.content.drop count }

section Reader

variable [DecidableEq ρ] (f : Fifo ρ ω β) (r : ρ)

def openRead : Fifo ρ ω β := { f with readers := insert r f.readers }

def dropRead : Fifo ρ ω β := { f with readers := f.readers.erase r }

end Reader

section Writer

variable [DecidableEq ω] (f : Fifo ρ ω β) (w : ω)

def openWrite : Fifo ρ ω β := { f with writers := insert w f.writers }

def dropWrite : Fifo ρ ω β := { f with writers := f.writers.erase w }

end Writer

section Close

variable [DecidableEq ρ] [DecidableEq ω] (f : Fifo ρ ω β)

instance : Decidable f.Unheld := inferInstanceAs (Decidable (_ ∧ _))

/-- The system discards what nobody holds. -/
def settle : Fifo ρ ω β := if f.Unheld then { f with content := [] } else f

def closeRead (r : ρ) : Fifo ρ ω β := (f.dropRead r).settle

def closeWrite (w : ω) : Fifo ρ ω β := (f.dropWrite w).settle

@[simp] theorem settle_readers : f.settle.readers = f.readers := by
  unfold settle
  split <;> rfl

@[simp] theorem settle_writers : f.settle.writers = f.writers := by
  unfold settle
  split <;> rfl

theorem settle_content : f.settle.content = if f.Unheld then [] else f.content := by
  unfold settle
  split <;> rfl

@[simp] theorem closeRead_readers (r : ρ) : (f.closeRead r).readers = f.readers.erase r := by
  unfold closeRead dropRead
  apply settle_readers

@[simp] theorem closeRead_writers (r : ρ) : (f.closeRead r).writers = f.writers := by
  unfold closeRead dropRead
  apply settle_writers

@[simp] theorem closeWrite_readers (w : ω) : (f.closeWrite w).readers = f.readers := by
  unfold closeWrite dropWrite
  apply settle_readers

@[simp] theorem closeWrite_writers (w : ω) : (f.closeWrite w).writers = f.writers.erase w := by
  unfold closeWrite dropWrite
  apply settle_writers

/-- A close keeps the content, or it loses a content that nobody holds any more. -/
theorem closeRead_content (r : ρ) :
    (f.closeRead r).content = if (f.dropRead r).Unheld then [] else f.content := by
  unfold closeRead
  apply settle_content

theorem closeWrite_content (w : ω) :
    (f.closeWrite w).content = if (f.dropWrite w).Unheld then [] else f.content := by
  unfold closeWrite
  apply settle_content

end Close

end Fifo
