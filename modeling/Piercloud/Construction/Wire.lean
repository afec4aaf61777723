import Piercloud.Construction.Request

/-
This file states the wire format of the tunnel: the requests that the server writes into the FIFO, and the
request that the client must hand to the local server for each of them.
-/

namespace Piercloud.Wire

open CLib Client

/-- A header line has a text, and the text fits on one line of a C string. -/
def Clean (line : Bytes) : Prop := line ≠ [] ∧ NUL ∉ line ∧ CR ∉ line ∧ LF ∉ line

/-- The headers announce the length of the body, and the request line is no header. -/
structure Request where
  pid : Nat
  requestLine : Bytes
  headers : List Bytes
  body : Bytes
  pidPositive : 0 < pid
  pidFits : pid < 2 ^ 31
  clean : ∀ line ∈ requestLine :: headers, Clean line
  noMark : strcasestr requestLine contentLengthMark ≠ some 0
  announced : headers.foldl contentLength 0 = body.length

def printLine (line : Bytes) : Bytes := line ++ [CR, LF]

def Request.lines (r : Request) : List Bytes := r.requestLine :: r.headers

/-- The pid line stands in front of the request. -/
def Request.headerBlock (r : Request) : Bytes :=
  (decimal r.pid :: r.lines).flatMap printLine ++ [CR, LF]

def Request.encode (r : Request) : Bytes := r.headerBlock ++ r.body

/-- The lines end with a newline alone, and each line has its host rewritten. -/
def renderedHeader (cfg : Config) (lines : List Bytes) : Bytes :=
  lines.flatMap (fun line => rewriteHost cfg line ++ [LF]) ++ [LF]

/-- This is the dispatch that a request asks for. -/
def Request.expected (cfg : Config) (r : Request) : Dispatch :=
  ⟨r.pid, renderedHeader cfg r.lines ++ r.body⟩

theorem decimal_clean (n : Nat) : Clean (decimal n) :=
  ⟨decimal_ne_nil n, decimal_absent n (by decide), decimal_absent n (by decide), decimal_absent n (by decide)⟩

theorem Request.all_clean (r : Request) : ∀ line ∈ decimal r.pid :: r.lines, Clean line := by
  intro line member
  rcases List.mem_cons.mp member with rfl | inside
  · exact decimal_clean r.pid
  · exact r.clean line inside

theorem Request.encode_ne_nil (r : Request) : r.encode ≠ [] := by
  simp [encode, headerBlock]

/-- A prefix of a printed line ends inside it or contains it. -/
theorem prefix_line {line p rest : Bytes} (absent : LF ∉ line) (front : p <+: printLine line ++ rest) :
    LF ∉ p ∨ ∃ q, p = printLine line ++ q ∧ q <+: rest := by
  obtain ⟨tail, same⟩ := front
  obtain missing | ⟨first, q, split, missing⟩ := split_first p LF
  · exact Or.inl missing
  · right
    have aligned : first ++ LF :: (q ++ tail) = (line ++ [CR]) ++ LF :: rest := by
      rw [split] at same
      simpa [printLine] using same
    obtain ⟨fronts, tails⟩ := split_unique missing (by simpa using ⟨absent, by decide⟩) aligned
    exact ⟨q, by simp [split, fronts, printLine], tail, tails⟩

/-- This is the empty line with the line end in front of it. -/
def blankLine : Bytes := [CR, LF, CR, LF]

/-- A header block that is not complete holds no empty line. -/
theorem no_blankLine {lines : List Bytes} (clean : ∀ line ∈ lines, Clean line) {p : Bytes}
    (front : p <+: lines.flatMap printLine ++ [CR, LF]) (cut : p ≠ lines.flatMap printLine ++ [CR, LF]) :
    ¬ blankLine <:+: p := by
  induction lines generalizing p with
  | nil =>
      intro inside
      have short := front.length_le
      have long := inside.length_le
      simp only [List.flatMap_nil, List.nil_append, List.length_cons, List.length_nil, blankLine] at short long
      omega
  | cons line lines ih =>
      rw [List.flatMap_cons, List.append_assoc] at front cut
      obtain ⟨-, -, -, absent⟩ := clean line (by simp)
      rintro ⟨a, b, same⟩
      rcases prefix_line absent front with missing | ⟨q, rfl, later⟩
      · exact missing (same ▸ by simp [blankLine])
      · have cut' : q ≠ lines.flatMap printLine ++ [CR, LF] := fun whole => cut (whole ▸ rfl)
        have lineEnd : LF ∉ line ++ [CR] := by simpa using ⟨absent, by decide⟩
        obtain missing | ⟨first, second, split, missing⟩ := split_first a LF
        -- The first line end of the prefix starts the empty line.
        · have aligned : (a ++ [CR]) ++ LF :: (CR :: LF :: b) = (line ++ [CR]) ++ LF :: q := by
            simpa [printLine, blankLine] using same
          have tails := (split_unique (by simpa using ⟨missing, by decide⟩) lineEnd aligned).2
          cases lines with
          | nil =>
              obtain ⟨tail, whole⟩ := later
              rw [← tails] at whole cut'
              simp only [List.flatMap_nil, List.nil_append, List.cons_append, List.cons.injEq, true_and,
                List.append_eq_nil_iff] at whole cut'
              simp [whole.1] at cut'
          | cons second lines =>
              obtain ⟨real, -, noReturn, -⟩ := clean second (by simp)
              obtain ⟨c, rest, rfl⟩ := List.exists_cons_of_ne_nil real
              obtain ⟨tail, whole⟩ := later
              rw [← tails] at whole
              simp only [List.flatMap_cons, printLine, List.cons_append, List.cons.injEq] at whole
              exact noReturn (by simp [whole.1])
        -- The empty line lies behind the first line.
        · have aligned : first ++ LF :: (second ++ blankLine ++ b) = (line ++ [CR]) ++ LF :: q := by
            rw [split] at same
            simpa [printLine] using same
          have tails := (split_unique missing lineEnd aligned).2
          exact ih (fun other member => clean other (by simp [member])) later cut' ⟨second, b, tails⟩

/-- A complete header block ends with an empty line. -/
theorem blankLine_headerBlock (r : Request) : blankLine <:+: r.headerBlock := by
  obtain ⟨init, last, split⟩ : ∃ init last, decimal r.pid :: r.lines = init ++ [last] :=
    ⟨_, _, (List.dropLast_concat_getLast (List.cons_ne_nil _ _)).symm⟩
  refine ⟨init.flatMap printLine ++ last, [], ?_⟩
  simp [Request.headerBlock, split, printLine, blankLine]

/-- In the stream of a request an empty line tells that the header block is complete. -/
theorem blankLine_iff (r : Request) {p rest : Bytes} (front : p <+: r.headerBlock ++ rest) :
    blankLine <:+: p ↔ r.headerBlock <+: p := by
  constructor
  · intro blank
    rcases List.prefix_or_prefix_of_prefix front (List.prefix_append _ _) with inside | whole
    · by_cases same : p = r.headerBlock
      · exact same ▸ List.prefix_refl _
      · exact absurd blank (no_blankLine r.all_clean inside same)
    · exact whole
  · exact fun whole => (blankLine_headerBlock r).trans whole.isInfix

end Piercloud.Wire

namespace Piercloud.Client

open CLib

/-- These are the lines of a request in front of its empty line. -/
def headerLines (request : Bytes) : List Bytes := (request.splitOn LF).takeWhile fun line => !line.isEmpty

/-- Plain lines are read back from a header block. -/
theorem headerLines_block {lines : List Bytes} (plain : ∀ line ∈ lines, line ≠ [] ∧ LF ∉ line) (body : Bytes) :
    headerLines (lines.flatMap (· ++ [LF]) ++ LF :: body) = lines := by
  induction lines with
  | nil =>
      rw [headerLines, List.flatMap_nil, List.splitOn_append_cons_self_of_not_mem (by simp)]
      simp
  | cons line lines ih =>
      obtain ⟨real, absent⟩ := plain line (by simp)
      have split : (line :: lines).flatMap (· ++ [LF]) ++ LF :: body =
          line ++ LF :: (lines.flatMap (· ++ [LF]) ++ LF :: body) := by simp
      have visible : (!line.isEmpty) = true := by simpa using real
      have later := ih fun other member => plain other (by simp [member])
      rw [headerLines] at later
      rw [headerLines, split, List.splitOn_append_cons_self_of_not_mem absent, List.takeWhile_cons, if_pos visible,
        later]

end Piercloud.Client
