import Piercloud.Proof.Parser.Survival

/-
This file follows the bytes through `buffer_t`: the chunks put them in behind, and the cuts take them off in front.
-/

namespace Piercloud.Client

open CLib Liblst Runs

inductive Removal where
  | line
  | body
  deriving DecidableEq, Repr

/-- These are the arguments of a call of `cutBuf`, and the bytes that it takes off as they came. -/
structure Cut where
  removal : Removal
  buf : Buffer
  len : Nat
  raw : Bytes
  deriving DecidableEq, Repr

/-- The index is computed in front of the edit, and the cut is behind it. -/
def lineCuts (b : Buffer) : List Cut :=
  match memchr b.memory LF b.len with
  | none => []
  | some n => [⟨.line, { b with buf := some (chopStr (b.memory.set n NUL)) }, n + 1, b.memory.take (n + 1)⟩]

def startCuts (statics : Statics) (buf : Buffer) : List Cut :=
  if !statics.inHeader && !statics.inData then lineCuts buf else []

/-- The loop cuts once for each header line. -/
def headerCuts (cfg : Config) : Nat → Statics → Buffer → List Cut
  | 0, _, _ => []
  | fuel + 1, statics, buf =>
      if !statics.inHeader then []
      else
        match getLineBuffer buf with
        | (none, _) => []
        | (some line, next) =>
            let header := rewriteHost cfg line
            let statics := { statics with contentLen := contentLength statics.contentLen header }
            lineCuts buf ++
              if header.isEmpty then
                if statics.contentLen ≠ 0 then
                  headerCuts cfg fuel { statics with inHeader := false, inData := true } next
                else []
              else headerCuts cfg fuel statics next

def bodyCuts (statics : Statics) (buf : Buffer) : List Cut :=
  if statics.inData && decide (statics.contentLen ≤ buf.len) then
    [⟨.body, buf, statics.contentLen, buf.memory.take statics.contentLen⟩]
  else []

/-- The cuts of one call of `getConnectionRequest`, in their order. -/
def requestCuts (cfg : Config) (statics : Statics) (buf outBuf : Buffer) : List Cut :=
  startCuts statics buf ++
    match startMessage statics buf with
    | none => []
    | some (statics, buf) =>
        headerCuts cfg (buf.len + 2) statics buf ++
          match headerLoop cfg (buf.len + 2) statics buf outBuf with
          | some (none, statics, buf, _) => bodyCuts statics buf
          | _ => []

def chunkCuts (cfg : Config) (s : State) (data : Bytes) : List Cut :=
  if data.isEmpty then [] else requestCuts cfg s.statics (increaseBuffer s.buf data data.length) s.request

/-- The cuts of a session are those of its chunks. -/
def cuts (cfg : Config) : State → List Bytes → List Cut
  | _, [] => []
  | s, data :: chunks =>
      chunkCuts cfg s data ++
        match chunk cfg s data with
        | none => []
        | some (t, _) => cuts cfg t chunks

/-- The buffer has memory for its bytes and the terminator behind them. -/
def Buffer.Filled (b : Buffer) (bytes : Bytes) : Prop := b.len = bytes.length ∧ b.buf = some (bytes ++ [NUL])

/-- A cut stays inside the buffer, which is filled in front of it and behind it. A line ends in its first newline. -/
structure Cut.Sound (cut : Cut) : Prop where
  within : cut.len ≤ cut.buf.len
  before : ∃ held, cut.buf.Filled held
  behind : ∃ held, (cutBuf cut.buf cut.len).Filled held
  whole : cut.raw.length = cut.len
  line : cut.removal = .line → ∃ front, cut.raw = front ++ [LF] ∧ LF ∉ front

/-- The cuts take the front of the bytes off and leave the rest. -/
structure Taken (bytes : Bytes) (cuts : List Cut) (rest : Bytes) : Prop where
  raws : cuts.flatMap Cut.raw ++ rest = bytes
  sound : ∀ cut ∈ cuts, cut.Sound

theorem Taken.refl (bytes : Bytes) : Taken bytes [] bytes := ⟨rfl, by simp⟩

theorem Taken.trans {bytes middle rest : Bytes} {cuts cuts' : List Cut} (first : Taken bytes cuts middle)
    (second : Taken middle cuts' rest) : Taken bytes (cuts ++ cuts') rest where
  raws := by rw [List.flatMap_append, List.append_assoc, second.raws, first.raws]
  sound cut member := (List.mem_append.mp member).elim (first.sound cut) (second.sound cut)

/-- Bytes that come later stay behind. -/
theorem Taken.append {bytes rest : Bytes} {cuts : List Cut} (taken : Taken bytes cuts rest) (more : Bytes) :
    Taken (bytes ++ more) cuts (rest ++ more) where
  raws := by rw [← List.append_assoc, taken.raws]
  sound := taken.sound

section Cuts

variable {b buf buf' out out' : Buffer} {bytes : Bytes} {statics statics' : Statics}

theorem Buffer.Filled.holds (filled : b.Filled bytes) : b.Holds bytes := ⟨filled.1, Or.inl filled.2⟩

theorem Buffer.Filled.memory_eq (filled : b.Filled bytes) : b.memory = bytes ++ [NUL] := by
  rw [Buffer.memory, filled.2, Option.getD_some]

theorem increaseBuffer_filled (holds : b.Holds bytes) (chunk : Bytes) :
    (increaseBuffer b chunk chunk.length).Filled (bytes ++ chunk) := by
  refine ⟨(increaseBuffer_holds holds chunk).1, ?_⟩
  rw [increaseBuffer, holds.bytes_eq, List.take_length]

theorem cutBuf_filled {front rest : Bytes} (filled : b.Filled (front ++ rest)) :
    (cutBuf b front.length).Filled rest := by
  have kept := cutBuf_holds filled.1 filled.memory_eq
  refine ⟨kept.1, ?_⟩
  rw [cutBuf, filled.memory_eq, show sizeSub b.len front.length = rest.length from kept.1]
  simp

/-- A cut of the front takes it off. -/
theorem front_taken (removal : Removal) (raw : Bytes) {front rest : Bytes} (filled : b.Filled (front ++ rest))
    (same : raw.length = front.length) (line : removal = .line → ∃ text, raw = text ++ [LF] ∧ LF ∉ text) :
    Taken (raw ++ rest) [⟨removal, b, front.length, raw⟩] rest := by
  refine ⟨by simp, ?_⟩
  intro cut member
  rw [List.mem_singleton.mp member]
  exact ⟨by simp [filled.1], ⟨_, filled⟩, ⟨_, cutBuf_filled filled⟩, same, line⟩

/-- A line is taken off with all its raw bytes. -/
theorem line_taken (filled : b.Filled bytes) {line : Bytes} {next : Buffer}
    (found : getLineBuffer b = (some line, next)) : ∃ rest, Taken bytes (lineCuts b) rest ∧ next.Filled rest := by
  obtain missing | ⟨raw, rest, rfl, absent⟩ := split_first bytes LF
  · simp [getLineBuffer_none filled.holds missing] at found
  · obtain ⟨index, front, chopped, size, -⟩ := getLineBuffer_edits filled.1 filled.memory_eq absent
    have edited : Buffer.Filled { b with buf := some (front ++ rest ++ [NUL]) } (front ++ rest) := by
      refine ⟨?_, rfl⟩
      simp only [filled.1, List.length_append, List.length_cons, size]
      omega
    have raws : b.memory.take (raw.length + 1) = raw ++ [LF] := by
      rw [filled.memory_eq]
      simp [List.take_append]
    simp only [getLineBuffer, index, chopped, Prod.mk.injEq] at found
    obtain ⟨-, rfl⟩ := found
    refine ⟨rest, ?_, ?_⟩
    · simp only [lineCuts, index, chopped, raws]
      have taken := front_taken .line (raw ++ [LF]) edited (by simp [size]) fun _ => ⟨raw, rfl, absent⟩
      simpa [size] using taken
    · simpa [size] using cutBuf_filled edited

theorem start_taken (filled : buf.Filled bytes) (started : startMessage statics buf = some (statics', buf')) :
    ∃ rest, Taken bytes (startCuts statics buf) rest ∧ buf'.Filled rest := by
  unfold startMessage at started
  unfold startCuts
  split at started
  · rename_i between
    rw [if_pos between]
    rcases found : getLineBuffer buf with ⟨_ | strpid, next⟩
    · simp [found] at started
    · simp only [found, Option.some.injEq, Prod.mk.injEq] at started
      rw [← started.2]
      exact line_taken filled found
  · rename_i inside
    rw [if_neg inside]
    obtain ⟨-, rfl⟩ := Prod.mk.inj (Option.some.inj started)
    exact ⟨bytes, .refl bytes, filled⟩

/-- The induction is on the fuel; each iteration takes one line off. -/
theorem header_taken {cfg : Config} {fuel : Nat} {inside : Option Int} (filled : buf.Filled bytes)
    (looped : headerLoop cfg fuel statics buf out = some (inside, statics', buf', out')) :
    ∃ rest, Taken bytes (headerCuts cfg fuel statics buf) rest ∧ buf'.Filled rest := by
  induction fuel generalizing statics buf out bytes with
  | zero => simp [headerLoop] at looped
  | succ fuel ih =>
      rw [headerLoop] at looped
      rw [headerCuts]
      split at looped
      · rename_i done
        rw [if_pos done]
        obtain ⟨-, -, rfl, -⟩ := by simpa only [Option.some.injEq, Prod.mk.injEq] using looped
        exact ⟨bytes, .refl bytes, filled⟩
      · rename_i reading
        rw [if_neg reading]
        rcases found : getLineBuffer buf with ⟨_ | line, next⟩
        · simp [found] at looped
        · obtain ⟨middle, taken, filled'⟩ := line_taken filled found
          simp only [found] at looped ⊢
          split at looped
          · rename_i blank
            rw [if_pos blank]
            split at looped
            · rename_i announced
              rw [if_pos announced]
              obtain ⟨rest, later, last⟩ := ih filled' looped
              exact ⟨rest, taken.trans later, last⟩
            · rename_i bare
              rw [if_neg bare, List.append_nil]
              obtain ⟨-, -, rfl, -⟩ := by simpa only [Option.some.injEq, Prod.mk.injEq] using looped
              exact ⟨middle, taken, filled'⟩
          · rename_i more
            rw [if_neg more]
            obtain ⟨rest, later, last⟩ := ih filled' looped
            exact ⟨rest, taken.trans later, last⟩

theorem body_taken {pid : Int} (filled : buf.Filled bytes)
    (took : takeBody statics buf out = (pid, statics', buf', out')) :
    ∃ rest, Taken bytes (bodyCuts statics buf) rest ∧ buf'.Filled rest := by
  unfold takeBody at took
  unfold bodyCuts
  split at took
  · rename_i complete
    rw [if_pos complete]
    have within : statics.contentLen ≤ bytes.length := by
      rw [← filled.1]
      simpa using (Bool.and_eq_true_iff.mp complete).2
    have size : (bytes.take statics.contentLen).length = statics.contentLen := by simp [within]
    have split : buf.Filled (bytes.take statics.contentLen ++ bytes.drop statics.contentLen) := by
      rwa [List.take_append_drop]
    have raw : buf.memory.take statics.contentLen = bytes.take statics.contentLen := by
      rw [filled.memory_eq, List.take_append_of_le_length within]
    have taken := front_taken .body (bytes.take statics.contentLen) split rfl (by simp)
    have kept := cutBuf_filled split
    rw [size] at kept
    rw [size, List.take_append_drop] at taken
    simp only [Prod.mk.injEq] at took
    refine ⟨bytes.drop statics.contentLen, ?_, took.2.2.1 ▸ kept⟩
    rw [raw]
    exact taken
  · rename_i waits
    rw [if_neg waits]
    simp only [Prod.mk.injEq] at took
    exact ⟨bytes, .refl bytes, took.2.2.1 ▸ filled⟩

theorem request_taken {cfg : Config} {pid : Int} (filled : buf.Filled bytes)
    (parsed : getConnectionRequest cfg statics buf out = some (pid, statics', buf', out')) :
    ∃ rest, Taken bytes (requestCuts cfg statics buf out) rest ∧ buf'.Filled rest := by
  unfold getConnectionRequest at parsed
  unfold requestCuts
  rcases started : startMessage statics buf with _ | ⟨statics₁, buf₁⟩
  · simp [started] at parsed
  · obtain ⟨middle, first, filled₁⟩ := start_taken filled started
    simp only [started] at parsed ⊢
    rcases looped : headerLoop cfg (buf₁.len + 2) statics₁ buf₁ out with _ | ⟨_ | pid', statics₂, buf₂, out₂⟩
    · simp [looped] at parsed
    · obtain ⟨behind, second, filled₂⟩ := header_taken filled₁ looped
      simp only [looped, Option.some.injEq] at parsed ⊢
      obtain ⟨rest, third, last⟩ := body_taken filled₂ parsed
      exact ⟨rest, first.trans (second.trans third), last⟩
    · obtain ⟨behind, second, filled₂⟩ := header_taken filled₁ looped
      simp only [looped, Option.some.injEq, Prod.mk.injEq] at parsed ⊢
      obtain ⟨-, -, rfl, -⟩ := parsed
      rw [List.append_nil]
      exact ⟨behind, first.trans second, filled₂⟩

end Cuts

/-- A chunk that is not empty goes in behind, and the buffer is filled from then on. -/
theorem chunk_taken {cfg : Config} {s t : State} {data bytes : Bytes} {output : Option Dispatch}
    (holds : s.buf.Holds bytes) (real : data ≠ []) (step : chunk cfg s data = some (t, output)) :
    ∃ rest, Taken (bytes ++ data) (chunkCuts cfg s data) rest ∧ t.buf.Filled rest := by
  have nonempty : data.isEmpty = false := by simpa using real
  have filled := increaseBuffer_filled holds data
  simp only [chunk, nonempty, Bool.false_eq_true, if_false] at step
  simp only [chunkCuts, nonempty, Bool.false_eq_true, if_false]
  rcases parsed : getConnectionRequest cfg s.statics (increaseBuffer s.buf data data.length) s.request with
    _ | ⟨pid, statics, buf, request⟩
  · simp [parsed] at step
  · obtain ⟨rest, taken, last⟩ := request_taken filled parsed
    refine ⟨rest, taken, ?_⟩
    simp only [parsed] at step
    split at step
    · obtain ⟨rfl, -⟩ := Prod.mk.inj (Option.some.inj step)
      exact last
    · obtain ⟨rfl, -⟩ := Prod.mk.inj (Option.some.inj step)
      exact last

/-- The cuts of a run take the front of everything that has come off. Only empty chunks leave the buffer alone. -/
theorem chunks_taken {cfg : Config} {s t : State} {bytes : Bytes} {chunks : List Bytes}
    {outputs : List (Option Dispatch)} (holds : s.buf.Holds bytes)
    (alive : feed (chunk cfg) s chunks = (outputs, some t)) :
    ∃ rest, Taken (bytes ++ chunks.flatten) (cuts cfg s chunks) rest ∧
      (chunks.flatten = [] ∧ t.buf = s.buf ∧ rest = bytes ∨ chunks.flatten ≠ [] ∧ t.buf.Filled rest) := by
  induction chunks generalizing s bytes outputs with
  | nil =>
      obtain ⟨-, same⟩ := Prod.mk.inj alive
      obtain rfl := Option.some.inj same
      exact ⟨bytes, by simpa [cuts] using Taken.refl bytes, Or.inl ⟨rfl, rfl, rfl⟩⟩
  | cons data chunks ih =>
      rw [List.flatten_cons, ← List.append_assoc]
      by_cases empty : data = []
      · subst empty
        have skipped : chunk cfg s [] = some (s, none) := by simp [chunk]
        have nothing : chunkCuts cfg s [] = [] := by simp [chunkCuts]
        rw [feed_cons skipped] at alive
        obtain ⟨-, later⟩ := Prod.mk.inj alive
        simp only [cuts, skipped, nothing, List.nil_append, List.append_nil]
        exact ih holds (Prod.ext rfl later)
      · cases step : chunk cfg s data with
        | none =>
            rw [feed_cons_stopped step] at alive
            simp at alive
        | some result =>
            obtain ⟨next, output⟩ := result
            rw [feed_cons step] at alive
            obtain ⟨-, later⟩ := Prod.mk.inj alive
            obtain ⟨middle, taken, filled⟩ := chunk_taken holds empty step
            obtain ⟨rest, behind, last⟩ := ih filled.holds (Prod.ext rfl later)
            refine ⟨rest, ?_, Or.inr ⟨by simp [empty], ?_⟩⟩
            · simp only [cuts, step]
              exact (taken.append chunks.flatten).trans behind
            · rcases last with ⟨-, same, rfl⟩ | ⟨-, last⟩
              · rwa [same]
              · exact last

/-- While the client lives, no cut leaves the buffer, and the raw bytes that were cut off are in front of those in the
buffer as they came. The buffer has no memory in front of the first byte, and from then on it is filled. -/
theorem chunks_queued (cfg : Config) (statics : Statics) {chunks : List Bytes} {outputs : List (Option Dispatch)}
    {t : State} (alive : feed (chunk cfg) (sessionStart statics) chunks = (outputs, some t)) :
    (∀ cut ∈ cuts cfg (sessionStart statics) chunks, cut.Sound) ∧
      (chunks.flatten = [] → t.buf = Buffer.cleared) ∧ (chunks.flatten ≠ [] → t.buf.Filled t.buf.bytes) ∧
      (cuts cfg (sessionStart statics) chunks).flatMap Cut.raw ++ t.buf.bytes = chunks.flatten := by
  obtain ⟨rest, taken, ⟨none, same, rfl⟩ | ⟨some, filled⟩⟩ := chunks_taken Buffer.cleared_holds alive
  · have cleared : t.buf = Buffer.cleared := same
    refine ⟨taken.sound, fun _ => cleared, fun some => absurd none some, ?_⟩
    rw [cleared]
    exact taken.raws
  · have bytes := filled.holds.bytes_eq
    exact ⟨taken.sound, fun none => absurd none some, fun _ => bytes.symm ▸ filled, bytes.symm ▸ taken.raws⟩

/-- A message comes with a carriage return and a NUL inside, and one byte behind it stays. -/
theorem chunks_queued_rest :
    (∀ cut ∈ cuts sampleConfig (sessionStart Statics.initial) [[49, CR, LF, 71, NUL, 72, LF, CR, LF, 50], []],
        cut.Sound) ∧
      (cuts sampleConfig (sessionStart Statics.initial) [[49, CR, LF, 71, NUL, 72, LF, CR, LF, 50], []]).flatMap
        Cut.raw ++ [50] = [49, CR, LF, 71, NUL, 72, LF, CR, LF, 50] := by
  have alive : feed (chunk sampleConfig) (sessionStart Statics.initial)
      [[49, CR, LF, 71, NUL, 72, LF, CR, LF, 50], []] =
      ([some ⟨1, [71, LF, LF]⟩, none], some ⟨⟨false, false, 1, 0⟩, ⟨some [50, NUL], 1⟩, Buffer.cleared⟩) := by decide
  obtain ⟨sound, -, -, raws⟩ := chunks_queued sampleConfig Statics.initial alive
  exact ⟨sound, raws⟩

/-- A chunk without bytes leaves the buffer without memory. -/
theorem chunks_queued_null : ∃ (cfg : Config) (outputs : List (Option Dispatch)) (t : State),
    feed (chunk cfg) (sessionStart Statics.initial) [[]] = (outputs, some t) ∧ ¬ ∃ bytes, t.buf.Filled bytes :=
  ⟨sampleConfig, [none], sessionStart Statics.initial, by decide, by simp [Buffer.Filled, sessionStart, Buffer.cleared]⟩

end Piercloud.Client
