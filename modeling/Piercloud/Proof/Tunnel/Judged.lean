import Piercloud.Construction.Authorization
import Piercloud.Proof.Respond.Lines

/-
This file tells when `Authorization` accepts exactly the answer 200 and leaves exactly the tunnel behind it.
-/

namespace Piercloud.Client

open CLib Liblst Socket Loop Wire

/-- The head of an answer has a status line of a version, a code and a reason, and it has header lines. -/
structure AnswerHead where
  version : Bytes
  code : Bytes
  reason : Bytes
  headers : List Bytes
  versioned : version ≠ [] ∧ 32 ∉ version
  coded : code ≠ [] ∧ 32 ∉ code
  clean : ∀ line ∈ (version ++ 32 :: (code ++ 32 :: reason)) :: headers, Clean line

def AnswerHead.statusLine (head : AnswerHead) : Bytes := head.version ++ 32 :: (head.code ++ 32 :: head.reason)

def AnswerHead.lines (head : AnswerHead) : List Bytes := head.statusLine :: head.headers

/-- The head has this many bytes, and the empty line is one of its lines. -/
def AnswerHead.size (head : AnswerHead) : Nat := (responseText head.lines []).length

/-- The last row that has the mark inside gives the length. -/
def AnswerHead.announced (head : AnswerHead) : Nat := head.lines.foldl lengthInside 0

/-- The code has a `200` inside, and the reason is one word with an `OK` inside. -/
def AnswerHead.Approved (head : AnswerHead) : Prop :=
  (strcasestr head.code (text "200")).isSome ∧
    ∃ word, lstSplitStr 32 head.reason = [word] ∧ (strcasestr word (text "OK")).isSome

/-- These are the variables behind some rows. -/
structure Judged (start : Judging) (lines : List Bytes) (s : Judging) : Prop where
  contentLen : s.contentLen = lines.foldl lengthInside start.contentLen
  rval : s.rval =
    if start.i = 0 then (lines.head?.elim start.rval fun line => judgedRow start.rval line) else start.rval

theorem Judged.trans {s t u : Judging} {line : Bytes} {lines : List Bytes} (first : Judged s [line] t)
    (counted : t.i ≠ 0) (later : Judged t lines u) : Judged s (line :: lines) u where
  contentLen := by rw [later.contentLen, first.contentLen]; rfl
  rval := by
    rw [later.rval, if_neg counted, first.rval]
    rfl

theorem lengthInside_lt {n : Nat} (word : n < 2 ^ 64) (line : Bytes) : lengthInside n line < 2 ^ 64 := by
  rw [lengthInside]
  split
  · exact toSize_lt _
  · exact word

theorem AnswerHead.announced_lt (head : AnswerHead) : head.announced < 2 ^ 64 := by
  have folded : ∀ (lines : List Bytes) (n : Nat), n < 2 ^ 64 → lines.foldl lengthInside n < 2 ^ 64 := by
    intro lines
    induction lines with
    | nil => exact fun n small => small
    | cons line lines ih => exact fun n small => ih _ (lengthInside_lt small line)
  exact folded _ 0 (by decide)

end Piercloud.Client
