import Piercloud.Library.CString

namespace Block

open CLib

/-- The allocation with a number fails, or the new bytes of its block hold anything. -/
abbrev Allocator := Nat → Option (Nat → UInt8)

def fresh (junk : Nat → UInt8) (size : Nat) : Bytes := (List.range size).map junk

def malloc (allocator : Allocator) (number size : Nat) : Option Bytes :=
  (allocator number).map fun junk => fresh junk size

/-- The bytes of the old block that find room in the new one are kept. -/
def realloc (allocator : Allocator) (number : Nat) (block : Bytes) (size : Nat) : Option Bytes :=
  (allocator number).map fun junk => block.take size ++ fresh junk (size - block.length)

/-- The string at a place ends inside the block, or the read leaves the block. -/
def stringAt (block : Bytes) (place : Nat) : Option Bytes :=
  if NUL ∈ block.drop place then some (cstr (block.drop place)) else none

/-- The byte is inside the block, or the write leaves the block. -/
def poke (block : Bytes) (place : Nat) (c : UInt8) : Option Bytes :=
  if place < block.length then some (block.set place c) else none

/-- The string and its terminator are inside the block, or the write leaves the block. -/
def put (block : Bytes) (place : Nat) (string : Bytes) : Option Bytes :=
  if place + string.length < block.length then
    some (block.take place ++ string ++ NUL :: block.drop (place + string.length + 1))
  else none

def strcpy (block source : Bytes) (place : Nat) : Option Bytes := do
  let string ← stringAt source place
  put block 0 string

def strcat (block source : Bytes) (place : Nat) : Option Bytes := do
  let front ← stringAt block 0
  let string ← stringAt source place
  put block front.length string

/-- The string in the block is rewritten, and the bytes behind its old terminator stay. -/
def Rewritten (string behind new block : Bytes) : Prop :=
  ∃ filler, block = new ++ NUL :: filler ++ behind ∧ (new ++ NUL :: filler).length = string.length + 1

@[simp] theorem length_fresh (junk : Nat → UInt8) (size : Nat) : (fresh junk size).length = size := by
  simp [fresh]

theorem fresh_succ (junk : Nat → UInt8) (size : Nat) :
    fresh junk (size + 1) = junk 0 :: fresh (fun i => junk (i + 1)) size := by
  simp [fresh, List.range_succ_eq_map]

theorem stringAt_eq {string : Bytes} (clean : NUL ∉ string) (passed behind : Bytes) :
    stringAt (passed ++ string ++ NUL :: behind) passed.length = some string := by
  rw [stringAt, List.append_assoc, List.drop_left, if_pos (by simp), cstr_append_nul clean]

theorem stringAt_zero {string : Bytes} (clean : NUL ∉ string) (behind : Bytes) :
    stringAt (string ++ NUL :: behind) 0 = some string :=
  stringAt_eq clean [] behind

theorem poke_eq (front rest : Bytes) (c d : UInt8) :
    poke (front ++ c :: rest) front.length d = some (front ++ d :: rest) := by
  rw [poke, if_pos (by simp)]
  simp

theorem poke_zero (c d : UInt8) (rest : Bytes) : poke (c :: rest) 0 d = some (d :: rest) :=
  poke_eq [] rest c d

theorem put_eq {hole string : Bytes} (room : string.length < hole.length) (front : Bytes) :
    put (front ++ hole) front.length string = some (front ++ string ++ NUL :: hole.drop (string.length + 1)) := by
  have within : front.length + string.length < (front ++ hole).length := by
    rw [List.length_append]
    omega
  rw [put, if_pos within, List.take_left, Nat.add_assoc, List.drop_append]
  simp

/-- The string takes the place of the terminator and of the bytes behind it. -/
theorem strcat_eq {front source string junk : Bytes} {place : Nat} (clean : NUL ∉ front)
    (found : stringAt source place = some string) (room : string.length ≤ junk.length) :
    strcat (front ++ NUL :: junk) source place = some (front ++ string ++ NUL :: junk.drop string.length) := by
  have hole : string.length < (NUL :: junk).length := Nat.lt_succ_of_le room
  rw [strcat, stringAt_zero clean, found]
  exact put_eq hole front

/-- An empty string becomes the string that is added. -/
theorem strcat_empty {source string junk : Bytes} {place : Nat} (found : stringAt source place = some string)
    (room : string.length ≤ junk.length) :
    strcat (NUL :: junk) source place = some (string ++ NUL :: junk.drop string.length) :=
  strcat_eq (List.not_mem_nil) found room

theorem strcpy_eq {block source string : Bytes} {place : Nat} (found : stringAt source place = some string)
    (room : string.length < block.length) :
    strcpy block source place = some (string ++ NUL :: block.drop (string.length + 1)) := by
  rw [strcpy, found]
  exact put_eq room []

/-- A string that is not longer takes the place of the old one. -/
theorem strcpy_rewritten {string new source : Bytes} {place : Nat} (found : stringAt source place = some new)
    (short : new.length ≤ string.length) (behind : Bytes) :
    ∃ block, strcpy (string ++ NUL :: behind) source place = some block ∧ Rewritten string behind new block := by
  have room : new.length < (string ++ NUL :: behind).length := by
    rw [List.length_append, List.length_cons]
    omega
  have tail : (string ++ NUL :: behind).drop (new.length + 1) =
      (string ++ [NUL]).drop (new.length + 1) ++ behind := by
    rw [← List.drop_append_of_le_length (by simpa using short)]
    simp
  refine ⟨_, strcpy_eq found room, (string ++ [NUL]).drop (new.length + 1), ?_, ?_⟩
  · rw [tail, List.append_assoc, List.cons_append]
  · simp
    omega

/-- The block keeps its string and gets room behind it. -/
theorem realloc_eq (allocator : Allocator) (number : Nat) (string : Bytes) (more : Nat) :
    realloc allocator number (string ++ [NUL]) (string.length + more + 1) =
      (allocator number).map fun junk => string ++ NUL :: fresh junk more := by
  unfold realloc
  congr
  funext junk
  rw [List.take_of_length_le (by simp), List.append_assoc, List.singleton_append]
  congr
  simp

end Block
