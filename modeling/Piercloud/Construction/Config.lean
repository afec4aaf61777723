import Piercloud.Construction.Lists
import Piercloud.Library.Numeral

/-
This file embeds `delGaps` and `readConfig` of `liblst.c`, with `getline` and `sscanf` of the C library as far as
`readConfig` needs them.
-/

namespace Piercloud.Lists

open CLib Loop Liblst Blocks

def equalsSign : UInt8 := 61

def numberSign : UInt8 := 35

/-- Each byte that is no white space moves to the front. -/
def delGapsNext (s : Bytes × Nat × Nat) : Except Stop (Bytes × Nat × Nat ⊕ Bytes) := do
  let (str, i, j) := s
  let c ← access str[i]?
  if c = NUL then
    let str ← access (Block.poke str j NUL)
    return .inr str
  else if isspace c then return .inl (str, i + 1, j)
  else
    let str ← access (Block.poke str j c)
    return .inl (str, i + 1, j + 1)

/-- The loop passes one byte at a time, so it has a result. -/
def delGaps (str : Bytes) : Except Stop Bytes :=
  (loop (fun s => settle (delGapsNext s)) (str.length + 1) (str, 0, 0)).getD (.error .outside)

/-- A line goes up to its newline or to the end of the file. -/
def getline (content : Bytes) : Option (Bytes × Bytes) :=
  match content.dropWhile (· != LF) with
  | newline :: rest => some (content.takeWhile (· != LF) ++ [newline], rest)
  | [] => if content.isEmpty then none else some (content, [])

/-- The string is matched with the format `%m[^=]=%ms`. The count is -1 at the end of the string. -/
def sscanf (string : Bytes) : Int × Option Bytes × Option Bytes :=
  let key := string.takeWhile (· != equalsSign)
  if key.isEmpty then (if string.isEmpty then -1 else 0, none, none)
  else
    match string.dropWhile (· != equalsSign) with
    | [] => (1, some key, none)
    | _ :: rest =>
        let value := (rest.dropWhile isspace).takeWhile fun c => !isspace c
        if value.isEmpty then (1, some key, none) else (2, some key, some value)

/-- The file is read line by line. A pair that does not find memory ends the loop with no map. -/
def readConfigNext (s : Bytes × Lst × Allocs) : Except Stop (Bytes × Lst × Allocs ⊕ Lst × Allocs) := do
  let (content, rval, allocs) := s
  match getline content with
  | none => return .inr (rval, allocs)
  | some (line, rest) =>
      let line ← delGaps (line ++ [NUL])
      let string ← access (Block.stringAt line 0)
      match sscanf string with
      | (2, some key, value) =>
          if key.head? = some numberSign then return .inl (rest, rval, allocs)
          else
            let (pushed, rval, allocs) ← mapPush rval (some key) value allocs
            match pushed with
            | .error _ => return .inr (none, allocs)
            | .ok _ => return .inl (rest, rval, allocs)
      | _ => return .inl (rest, rval, allocs)

/-- No map is read from a file that cannot be opened. Each iteration reads a line, so the loop has a result. -/
def readConfig (file : Option Bytes) (allocs : Allocs) : Option (Except Stop (Lst × Allocs)) :=
  match file with
  | none => some (.ok (none, allocs))
  | some content => loop (fun s => settle (readConfigNext s)) (content.length + 1) (content, none, allocs)

end Piercloud.Lists
