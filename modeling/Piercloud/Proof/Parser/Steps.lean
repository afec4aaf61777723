import Piercloud.Construction.Wire
import Piercloud.Library.Runs

namespace Piercloud.Client

open CLib Liblst Wire Replace

theorem hostLine_ne_nil (cfg : Config) : hostLine cfg ≠ [] := by
  simp [hostLine, text]

theorem rewriteHost_eq (cfg : Config) (line : Bytes) :
    rewriteHost cfg line = replaceAll (hostLine cfg) (localHostLines cfg) line :=
  ptReplaceStr_eq_replaceAll (hostLine_ne_nil cfg) line (localHostLines cfg)

/-- Behind the first host text the line is rewritten on. -/
theorem rewriteHost_inside {cfg : Config} {line : Bytes} (inside : hostLine cfg <:+: line) :
    ∃ front rest, line = front ++ hostLine cfg ++ rest ∧
      rewriteHost cfg line = front ++ localHostLines cfg ++ rewriteHost cfg rest := by
  simp only [rewriteHost_eq]
  exact replaceAll_found (hostLine_ne_nil cfg) inside (localHostLines cfg)

theorem rewriteHost_absent {cfg : Config} {line : Bytes} (absent : ¬ hostLine cfg <:+: line) :
    rewriteHost cfg line = line := by
  rw [rewriteHost_eq, replaceAll_absent absent]

/-- The search text and its replacement start alike, so a line starts alike before and after. -/
theorem rewriteHost_split (cfg : Config) (line : Bytes) :
    rewriteHost cfg line = line ∨ ∃ front old new, line = front ++ text "Host: " ++ old ∧
      rewriteHost cfg line = front ++ text "Host: " ++ new := by
  by_cases inside : hostLine cfg <:+: line
  · right
    obtain ⟨front, rest, split, rewritten⟩ := rewriteHost_inside inside
    refine ⟨front, cstr cfg.gId ++ text ".piercloud.com" ++ rest,
      text "localhost" ++ [LF] ++ text "Authorization: Basic " ++ ptBasicRow cfg cfg.gLogin cfg.gPasswd ++
        rewriteHost cfg rest, ?_, ?_⟩
    · simpa [hostLine] using split
    · rw [rewritten, localHostLines, show text "Host: localhost" = text "Host: " ++ text "localhost" by decide]
      simp only [List.append_assoc]
  · exact Or.inl (rewriteHost_absent inside)

/-- Only an empty line stays empty. -/
theorem rewriteHost_eq_nil_iff (cfg : Config) (line : Bytes) : rewriteHost cfg line = [] ↔ line = [] := by
  rcases rewriteHost_split cfg line with same | ⟨front, old, new, split, rewritten⟩
  · rw [same]
  · rw [rewritten, split]
    simp [text]

/-- A host text never overlaps the mark of a content length. -/
theorem mark_before_host {front rest : Bytes}
    (marked : strcasestr (front ++ text "Host: " ++ rest) contentLengthMark = some 0) :
    contentLengthMark.length ≤ front.length := by
  by_contra short
  have table : ∀ k < contentLengthMark.length,
      ¬ ((contentLengthMark.map tolower).drop k).take 2 <+: [104, 111] := by decide
  apply table front.length (by omega)
  have behind := ((strcasestr_zero_iff _ _).mp marked).drop front.length
  have host : ((front ++ text "Host: " ++ rest).map tolower).drop front.length =
      (text "Host: " ++ rest).map tolower := by
    rw [List.append_assoc, List.map_append, List.drop_left' (by simp)]
  rw [host] at behind
  simpa [text, tolower] using behind.take 2

/-- The length that a line sets does not depend on what follows a host text. -/
theorem contentLength_host (n : Nat) (front rest rest' : Bytes) :
    contentLength n (front ++ text "Host: " ++ rest) = contentLength n (front ++ text "Host: " ++ rest') := by
  by_cases within : contentLengthMark.length ≤ front.length
  · have sameMark : ∀ tail : Bytes, strcasestr (front ++ text "Host: " ++ tail) contentLengthMark = some 0 ↔
        contentLengthMark.map tolower <+: front.map tolower := by
      intro tail
      rw [strcasestr_zero_iff, List.append_assoc, List.map_append]
      constructor
      · intro h
        exact List.prefix_of_prefix_length_le h (List.prefix_append _ _) (by simpa using within)
      · exact fun h => h.trans (List.prefix_append _ _)
    have sameNumber : ∀ tail : Bytes, (front ++ text "Host: " ++ tail).drop contentLengthMark.length =
        front.drop contentLengthMark.length ++ 72 :: (text "ost: " ++ tail) := by
      intro tail
      rw [List.append_assoc, List.drop_append_of_le_length within]
      rfl
    simp only [contentLength, sameMark, sameNumber, atoll]
    rw [strtol_stop _ (by decide) (by decide) (by decide) (by decide) _ (text "ost: " ++ rest')]
  · have unmarked : ∀ tail : Bytes,
        ¬ strcasestr (front ++ text "Host: " ++ tail) contentLengthMark = some 0 :=
      fun tail marked => within (mark_before_host marked)
    rw [contentLength, if_neg (unmarked rest), contentLength, if_neg (unmarked rest')]

/-- Rewriting the host of a line does not change the length that the line sets. -/
theorem contentLength_rewriteHost (cfg : Config) (n : Nat) (line : Bytes) :
    contentLength n (rewriteHost cfg line) = contentLength n line := by
  rcases rewriteHost_split cfg line with same | ⟨front, old, new, split, rewritten⟩
  · rw [same]
  · rw [rewritten, split]
    exact contentLength_host n front new old

/-- One line is rewritten and appended. -/
theorem headerLoop_line (cfg : Config) (fuel : Nat) {statics : Statics} {buf out : Buffer}
    {raw rest done : Bytes} (reading : statics.inHeader = true) (holds : buf.Holds (raw ++ LF :: rest))
    (outHolds : out.Holds done) (absent : LF ∉ raw) (real : lineText raw ≠ []) :
    ∃ buf' out', headerLoop cfg (fuel + 1) statics buf out =
        headerLoop cfg fuel { statics with contentLen := contentLength statics.contentLen (lineText raw) } buf' out' ∧
      buf'.Holds rest ∧ out'.Holds (done ++ (rewriteHost cfg (lineText raw) ++ [LF])) := by
  obtain ⟨next, taken, kept⟩ := getLineBuffer_line holds absent
  have goesOn : (rewriteHost cfg (lineText raw)).isEmpty = false := by
    rw [List.isEmpty_eq_false_iff, ne_eq, rewriteHost_eq_nil_iff]
    exact real
  refine ⟨next, _, ?_, kept,
    by simpa using increaseBuffer_holds (increaseBuffer_holds outHolds (rewriteHost cfg (lineText raw))) [LF]⟩
  simp [headerLoop, reading, taken, goesOn, contentLength_rewriteHost]

/-- The lines of a header block are rewritten and appended in order. -/
theorem headerLoop_lines (cfg : Config) (fuel : Nat) {raws : List Bytes} {statics : Statics}
    {buf out : Buffer} {rest done : Bytes} (reading : statics.inHeader = true)
    (holds : buf.Holds (raws.flatMap (· ++ [LF]) ++ rest)) (outHolds : out.Holds done)
    (lines : ∀ raw ∈ raws, LF ∉ raw ∧ lineText raw ≠ []) :
    ∃ buf' out', headerLoop cfg (fuel + raws.length) statics buf out =
        headerLoop cfg fuel { statics with
          contentLen := (raws.map lineText).foldl contentLength statics.contentLen } buf' out' ∧
      buf'.Holds rest ∧
      out'.Holds (done ++ (raws.map lineText).flatMap fun line => rewriteHost cfg line ++ [LF]) := by
  induction raws generalizing statics buf out done with
  | nil => exact ⟨buf, out, rfl, by simpa using holds, by simpa using outHolds⟩
  | cons raw raws ih =>
      obtain ⟨absent, real⟩ := lines raw (by simp)
      rw [List.flatMap_cons, List.append_assoc, List.append_assoc, List.singleton_append] at holds
      obtain ⟨buf₁, out₁, first, kept, appended⟩ := headerLoop_line cfg (fuel + raws.length) reading holds outHolds
        absent real
      have stillReading :
          { statics with contentLen := contentLength statics.contentLen (lineText raw) }.inHeader = true := reading
      obtain ⟨buf₂, out₂, later, kept', appended'⟩ := ih stillReading kept appended
        fun other member => lines other (by simp [member])
      refine ⟨buf₂, out₂, ?_, kept', by simpa using appended'⟩
      rw [List.length_cons, ← Nat.add_assoc, first, later]
      rfl

/-- The empty line ends the header block; a message without a body is complete there. -/
theorem headerLoop_end (cfg : Config) (fuel : Nat) {statics : Statics} {buf out : Buffer}
    {blank rest done : Bytes} (reading : statics.inHeader = true) (holds : buf.Holds (blank ++ LF :: rest))
    (outHolds : out.Holds done) (absent : LF ∉ blank) (empty : lineText blank = []) :
    ∃ buf' out', headerLoop cfg (fuel + 2) statics buf out = some
        (if statics.contentLen = 0 then
          (some statics.pid, { statics with inHeader := false }, buf', out')
        else (none, { statics with inHeader := false, inData := true }, buf', out')) ∧
      buf'.Holds rest ∧ out'.Holds (done ++ [LF]) := by
  obtain ⟨next, taken, kept⟩ := getLineBuffer_line holds absent
  rw [empty] at taken
  have same : rewriteHost cfg [] = [] := (rewriteHost_eq_nil_iff cfg []).mpr rfl
  have unmarked : ∀ n, contentLength n [] = n := fun n => by rw [contentLength, if_neg (by decide)]
  refine ⟨next, increaseBuffer (increaseBuffer out [] 0) [LF] 1, ?_, kept,
    by simpa using increaseBuffer_holds (increaseBuffer_holds outHolds []) [LF]⟩
  by_cases noBody : statics.contentLen = 0
  · simp [headerLoop, reading, taken, same, unmarked, noBody]
  · simp [headerLoop, reading, taken, same, unmarked, noBody]

/-- A header block that is not complete makes an assertion fire. -/
theorem headerLoop_incomplete (cfg : Config) (fuel : Nat) {lines : List Bytes} {statics : Statics}
    {buf out : Buffer} {p done : Bytes} (reading : statics.inHeader = true) (holds : buf.Holds p)
    (outHolds : out.Holds done) (clean : ∀ line ∈ lines, Clean line)
    (front : p <+: lines.flatMap printLine ++ [CR, LF]) (cut : p ≠ lines.flatMap printLine ++ [CR, LF]) :
    headerLoop cfg fuel statics buf out = none := by
  induction lines generalizing fuel statics buf out p done with
  | nil =>
      cases fuel with
      | zero => rfl
      | succ fuel =>
          have absent : LF ∉ p := by
            have inLine : p <+: printLine [] ++ [] := by simpa [printLine] using front
            rcases prefix_line (by simp) inLine with missing | ⟨q, same, inside⟩
            · exact missing
            · rw [List.prefix_nil] at inside
              exact absurd (by simpa [printLine, inside] using same) cut
          simp [headerLoop, reading, getLineBuffer_none holds absent]
  | cons line lines ih =>
      cases fuel with
      | zero => rfl
      | succ fuel =>
          rw [List.flatMap_cons, List.append_assoc] at front cut
          have first := clean line (by simp)
          rcases prefix_line first.2.2.2 front with missing | ⟨q, rfl, later⟩
          · simp [headerLoop, reading, getLineBuffer_none holds missing]
          · have raw : printLine line ++ q = (line ++ [CR]) ++ LF :: q := by simp [printLine]
            have lineEnd : LF ∉ line ++ [CR] := by simpa using ⟨first.2.2.2, by decide⟩
            have same := lineText_printed first.2.1 first.2.2.1
            obtain ⟨buf', out', step, kept, appended⟩ := headerLoop_line cfg fuel reading (raw ▸ holds) outHolds
              lineEnd (by rw [same]; exact first.1)
            rw [same] at step
            have stillReading :
                { statics with contentLen := contentLength statics.contentLen line }.inHeader = true := reading
            rw [step]
            exact ih fuel stillReading kept appended (fun other member => clean other (by simp [member])) later
              fun whole => cut (whole ▸ rfl)

/-- Between two requests the parser has no mode set and no partial request. -/
structure Idle (s : State) (pending : Bytes) : Prop where
  inHeader : s.statics.inHeader = false
  inData : s.statics.inData = false
  buf : s.buf.Holds pending
  request : s.request.Holds []

/-- Behind the header block the parser waits for the body of one request. -/
structure Waiting (cfg : Config) (s : State) (r : Request) (pending : Bytes) : Prop where
  inHeader : s.statics.inHeader = false
  inData : s.statics.inData = true
  pid : s.statics.pid = r.pid
  contentLen : s.statics.contentLen = r.body.length
  buf : s.buf.Holds pending
  request : s.request.Holds (renderedHeader cfg r.lines)

theorem sessionStart_idle {statics : Statics} (inHeader : statics.inHeader = false)
    (inData : statics.inData = false) : Idle (sessionStart statics) [] :=
  ⟨inHeader, inData, Buffer.cleared_holds, Buffer.cleared_holds⟩

/-- The first line starts the message and leaves the lines of the request. -/
theorem startMessage_line {statics : Statics} {raw rest : Bytes} {buf : Buffer} (inHeader : statics.inHeader = false)
    (inData : statics.inData = false) (absent : LF ∉ raw) (holds : buf.Holds (raw ++ LF :: rest)) :
    ∃ buf', startMessage statics buf = some (⟨true, false, atoi (lineText raw), 0⟩, buf') ∧ buf'.Holds rest := by
  obtain ⟨next, taken, kept⟩ := getLineBuffer_line holds absent
  refine ⟨next, ?_, kept⟩
  simp [startMessage, inHeader, inData, taken]

/-- A whole header block leaves the parser behind its empty line, with the length that its lines announce. -/
theorem headerLoop_block (cfg : Config) (pid : Int) {raws : List Bytes} {blank : Bytes} {buf out : Buffer}
    {rest done : Bytes} (lines : ∀ raw ∈ raws, LF ∉ raw ∧ lineText raw ≠ [])
    (absent : LF ∉ blank) (empty : lineText blank = [])
    (holds : buf.Holds (raws.flatMap (· ++ [LF]) ++ (blank ++ LF :: rest))) (outHolds : out.Holds done) :
    ∃ buf' out', headerLoop cfg (buf.len + 2) ⟨true, false, pid, 0⟩ buf out = some
        (if (raws.map lineText).foldl contentLength 0 = 0 then (some pid, ⟨false, false, pid, 0⟩, buf', out')
        else (none, ⟨false, true, pid, (raws.map lineText).foldl contentLength 0⟩, buf', out')) ∧
      buf'.Holds rest ∧ out'.Holds (done ++ renderedHeader cfg (raws.map lineText)) := by
  obtain ⟨fuel, enough⟩ : ∃ fuel, buf.len + 2 = fuel + 2 + raws.length := by
    have count : raws.length ≤ (raws.flatMap (· ++ [LF])).length := by
      rw [List.length_flatMap]
      calc raws.length = (raws.map fun _ => 1).sum := by simp
        _ ≤ _ := List.sum_le_sum fun raw _ => by simp
    have length := holds.1
    rw [List.length_append] at length
    exact ⟨buf.len - raws.length, by omega⟩
  have reading : (⟨true, false, pid, 0⟩ : Statics).inHeader = true := rfl
  obtain ⟨buf₁, out₁, middle, kept, appended⟩ := headerLoop_lines cfg (fuel + 2) reading holds outHolds lines
  have stillReading : (⟨true, false, pid, (raws.map lineText).foldl contentLength 0⟩ : Statics).inHeader = true := rfl
  obtain ⟨buf₂, out₂, last, kept', appended'⟩ := headerLoop_end cfg fuel stillReading kept appended absent empty
  refine ⟨buf₂, out₂, ?_, kept', by simpa [renderedHeader] using appended'⟩
  rw [enough, middle, last]
  by_cases noBody : (raws.map lineText).foldl contentLength 0 = 0 <;> simp [noBody]

/-- A complete body is moved to the output, and the bytes behind it stay. -/
theorem takeBody_complete {statics : Statics} {buf out : Buffer} {body rest done : Bytes}
    (inData : statics.inData = true) (length : statics.contentLen = body.length)
    (holds : buf.Holds (body ++ rest)) (outHolds : out.Holds done) :
    ∃ buf' out', takeBody statics buf out = (statics.pid, { statics with inData := false }, buf', out') ∧
      buf'.Holds rest ∧ out'.Holds (done ++ body) := by
  have within : statics.contentLen ≤ buf.len := by simp [length, holds.1]
  refine ⟨cutBuf buf statics.contentLen, increaseBuffer out buf.memory statics.contentLen,
    by simp [takeBody, inData, within], ?_, ?_⟩
  · rw [length]
    obtain ⟨size, memory | ⟨memory, blank⟩⟩ := holds
    · have block : buf.memory = body ++ rest ++ [NUL] := by simp [Buffer.memory, memory]
      exact cutBuf_holds size block
    · have block : buf.memory = body ++ rest ++ [] := by simp [Buffer.memory, memory, blank]
      exact cutBuf_holds size block
  · rw [length]
    obtain ⟨-, memory | ⟨memory, blank⟩⟩ := holds
    · have block : buf.memory = body ++ (rest ++ [NUL]) := by simp [Buffer.memory, memory]
      have copied := increaseBuffer_holds_take outHolds (le_refl body.length) (rest ++ [NUL])
      rw [List.take_length] at copied
      exact block ▸ copied
    · obtain ⟨rfl, rfl⟩ := List.append_eq_nil_iff.mp blank
      simpa [Buffer.memory, memory] using increaseBuffer_holds outHolds []

theorem takeBody_waits {statics : Statics} {buf : Buffer} {pending : Bytes} (out : Buffer)
    (holds : buf.Holds pending) (short : pending.length < statics.contentLen) :
    takeBody statics buf out = (0, statics, buf, out) := by
  have waits : ¬ statics.contentLen ≤ buf.len := by rw [holds.1]; omega
  simp [takeBody, waits]

end Piercloud.Client
