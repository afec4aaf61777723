import Piercloud.Construction.Liblst
import Piercloud.Library.Numeral

/-
This file embeds `buffer_t` and its functions in the client's `piercloud.c`.
-/

namespace Piercloud.Client

open CLib Liblst

/-- This is `buffer_t`; a cleared buffer has no memory. -/
structure Buffer where
  buf : Option Bytes
  len : Nat
  deriving DecidableEq, Repr

/-- This is the buffer after `memset`. -/
def Buffer.cleared : Buffer := ⟨none, 0⟩

def Buffer.memory (b : Buffer) : Bytes := b.buf.getD []

/-- These are the bytes that the buffer counts. -/
def Buffer.bytes (b : Buffer) : Bytes := b.memory.take b.len

/-- The new block holds the old bytes, the chunk and a terminator. -/
def increaseBuffer (b : Buffer) (chunk : Bytes) (chunkLen : Nat) : Buffer where
  buf := some (b.bytes ++ chunk.take chunkLen ++ [NUL])
  len := b.len + chunkLen

/-- The new block holds the bytes behind the cut and a terminator. -/
def cutBuf (b : Buffer) (len : Nat) : Buffer where
  buf := some ((b.memory.drop len).take (sizeSub b.len len) ++ [NUL])
  len := sizeSub b.len len

/-- The line is chopped in place, copied, and cut off together with its newline. -/
def getLineBuffer (b : Buffer) : Option Bytes × Buffer :=
  match memchr b.memory LF b.len with
  | none => (none, b)
  | some n =>
      let memory := chopStr (b.memory.set n NUL)
      (some (cstr memory), cutBuf { b with buf := some memory } (n + 1))

/-- A buffer holds its bytes in front of a terminator. Only an empty buffer may have no memory. -/
def Buffer.Holds (b : Buffer) (bytes : Bytes) : Prop :=
  b.len = bytes.length ∧ (b.buf = some (bytes ++ [NUL]) ∨ b.buf = none ∧ bytes = [])

/-- The text of a line stops at a NUL and has no carriage return. -/
def lineText (raw : Bytes) : Bytes := (cstr raw).filter (· != CR)

theorem Buffer.Holds.bytes_eq {b : Buffer} {bytes : Bytes} (holds : b.Holds bytes) : b.bytes = bytes := by
  obtain ⟨length, memory | ⟨memory, rfl⟩⟩ := holds
  · simp [Buffer.bytes, Buffer.memory, memory, length]
  · simp [Buffer.bytes, Buffer.memory, memory]

theorem Buffer.cleared_holds : Buffer.cleared.Holds [] := ⟨rfl, Or.inr ⟨rfl, rfl⟩⟩

theorem increaseBuffer_holds {b : Buffer} {bytes : Bytes} (holds : b.Holds bytes) (chunk : Bytes) :
    (increaseBuffer b chunk chunk.length).Holds (bytes ++ chunk) := by
  refine ⟨by simp [increaseBuffer, holds.1], Or.inl ?_⟩
  simp [increaseBuffer, holds.bytes_eq]

/-- A counted append takes the head of the source. -/
theorem increaseBuffer_holds_take {b : Buffer} {bytes : Bytes} (holds : b.Holds bytes) {source : Bytes}
    {count : Nat} (within : count ≤ source.length) (behind : Bytes) :
    (increaseBuffer b (source ++ behind) count).Holds (bytes ++ source.take count) := by
  refine ⟨by simp [increaseBuffer, holds.1, within], Or.inl ?_⟩
  simp [increaseBuffer, holds.bytes_eq, List.take_append_of_le_length within]

/-- A cut inside the counted bytes keeps what is behind it. -/
theorem cutBuf_holds {b : Buffer} {front rest behind : Bytes} (length : b.len = (front ++ rest).length)
    (memory : b.memory = front ++ rest ++ behind) : (cutBuf b front.length).Holds rest := by
  have left : sizeSub b.len front.length = rest.length := by
    rw [length, sizeSub_of_le (by simp)]
    simp
  exact ⟨left, Or.inl (by simp [cutBuf, left, memory])⟩

/-- A terminated string is chopped inside its own bytes, and the memory behind it stays. -/
theorem chopStr_line {raw : Bytes} (behind : Bytes) (absent : LF ∉ raw) :
    ∃ filler, chopStr (raw ++ NUL :: behind) = lineText raw ++ NUL :: filler ++ behind ∧
      (lineText raw ++ NUL :: filler).length = raw.length + 1 := by
  have string : cstr (raw ++ NUL :: behind) = cstr raw := cstr_append_terminator raw behind
  have filtered : (cstr raw).filter (fun c => c != LF && c != CR) = lineText raw := by
    rw [lineText]
    apply List.filter_congr
    intro c member
    have different : c ≠ LF := fun same => absent (same ▸ mem_of_mem_cstr member)
    simp [different]
  have clean : NUL ∉ lineText raw := fun member =>
    nul_not_mem_cstr raw (List.mem_filter.mp member).1
  have short : (lineText raw).length ≤ raw.length :=
    (List.length_filter_le _ _).trans (List.takeWhile_prefix _).length_le
  refine ⟨(raw ++ [NUL]).drop ((lineText raw).length + 1), ?_, ?_⟩
  · rw [chopStr_eq, string, filtered, strcpy, strlen, cstr_eq_self clean,
      show raw ++ NUL :: behind = raw ++ [NUL] ++ behind by simp,
      List.drop_append_of_le_length (by simp; omega)]
    simp
  · simp
    omega

/-- The newline is found, and the line is chopped inside its own bytes. -/
theorem getLineBuffer_edits {b : Buffer} {raw rest : Bytes} (length : b.len = (raw ++ LF :: rest).length)
    (memory : b.memory = raw ++ LF :: rest ++ [NUL]) (absent : LF ∉ raw) :
    memchr b.memory LF b.len = some raw.length ∧
      ∃ front, chopStr (b.memory.set raw.length NUL) = front ++ rest ++ [NUL] ∧ front.length = raw.length + 1 ∧
        cstr (front ++ rest ++ [NUL]) = lineText raw := by
  constructor
  · rw [memory, length, show (raw ++ LF :: rest).length = raw.length + 1 + rest.length by simp; omega]
    exact memchr_split absent rest [NUL]
  · have cut : b.memory.set raw.length NUL = raw ++ NUL :: (rest ++ [NUL]) := by simp [memory]
    obtain ⟨filler, chopped, size⟩ := chopStr_line (rest ++ [NUL]) absent
    refine ⟨lineText raw ++ NUL :: filler, by simp [cut, chopped], size, ?_⟩
    rw [List.append_assoc, List.append_assoc, List.cons_append]
    apply cstr_append_nul
    exact fun member => nul_not_mem_cstr raw (List.mem_filter.mp member).1

/-- A complete line is taken off the front of the buffer. -/
theorem getLineBuffer_line {b : Buffer} {raw rest : Bytes} (holds : b.Holds (raw ++ LF :: rest))
    (absent : LF ∉ raw) :
    ∃ next, getLineBuffer b = (some (lineText raw), next) ∧ next.Holds rest := by
  obtain ⟨length, memory | ⟨-, blank⟩⟩ := holds
  · have block : b.memory = raw ++ LF :: rest ++ [NUL] := by simp [Buffer.memory, memory]
    obtain ⟨index, front, chopped, size, string⟩ := getLineBuffer_edits length block absent
    refine ⟨cutBuf { b with buf := some (front ++ rest ++ [NUL]) } (raw.length + 1), ?_, ?_⟩
    · simp only [getLineBuffer, index, chopped, string]
    · rw [← size]
      refine cutBuf_holds ?_ rfl
      simp only [length, List.length_append, List.length_cons] at size ⊢
      omega
  · simp at blank

/-- Without a newline the buffer gives no line and does not change. -/
theorem getLineBuffer_none {b : Buffer} {bytes : Bytes} (holds : b.Holds bytes) (absent : LF ∉ bytes) :
    getLineBuffer b = (none, b) := by
  have missing : memchr b.memory LF b.len = none := by
    obtain ⟨length, memory | ⟨memory, rfl⟩⟩ := holds
    · rw [length, Buffer.memory, memory]
      exact memchr_none absent [NUL]
    · simp [memchr, Buffer.memory, memory]
  simp only [getLineBuffer, missing]

/-- The text of a printed line is the line without its carriage return. -/
theorem lineText_printed {line : Bytes} (clean : NUL ∉ line) (plain : CR ∉ line) :
    lineText (line ++ [CR]) = line := by
  have whole : cstr (line ++ [CR]) = line ++ [CR] :=
    cstr_eq_self (by simpa using ⟨clean, by decide⟩)
  have kept : line.filter (· != CR) = line := by
    rw [List.filter_eq_self]
    intro c member
    simpa using fun same : c = CR => plain (same ▸ member)
  rw [lineText, whole, List.filter_append, kept]
  simp

end Piercloud.Client
