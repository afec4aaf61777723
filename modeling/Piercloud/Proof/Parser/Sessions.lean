import Mathlib.Data.List.ReduceOption
import Piercloud.Proof.Parser.Survival

namespace Piercloud.Client

open CLib Liblst Wire Runs

/-- These are the requests that one session dispatches for the chunks passed to `Chunk`. -/
def dispatched (cfg : Config) (statics : Statics) (chunks : List Bytes) : List Dispatch :=
  (feed (chunk cfg) (sessionStart statics) chunks).1.reduceOption

theorem headerLoop_inHeader {cfg : Config} {fuel : Nat} {statics statics' : Statics} {buf out buf' out' : Buffer}
    {result : Option Int} (done : headerLoop cfg fuel statics buf out = some (result, statics', buf', out')) :
    statics'.inHeader = false := by
  induction fuel generalizing statics buf out with
  | zero => simp [headerLoop] at done
  | succ fuel ih =>
      simp only [headerLoop] at done
      split at done
      · rename_i outside
        simp only [Option.some.injEq, Prod.mk.injEq] at done
        obtain ⟨-, rfl, -⟩ := done
        simpa using outside
      · split at done
        · contradiction
        · split at done
          · split at done
            · exact ih done
            · simp only [Option.some.injEq, Prod.mk.injEq] at done
              rw [← done.2.1]
          · exact ih done

theorem takeBody_inHeader (statics : Statics) (buf out : Buffer) :
    (takeBody statics buf out).2.1.inHeader = statics.inHeader := by
  rw [takeBody]
  split <;> rfl

/-- The header mode never outlives a call. -/
theorem chunk_inHeader {cfg : Config} {s t : State} {data : Bytes} {output : Option Dispatch}
    (start : s.statics.inHeader = false) (done : chunk cfg s data = some (t, output)) :
    t.statics.inHeader = false := by
  simp only [chunk] at done
  split at done
  · simp only [Option.some.injEq, Prod.mk.injEq] at done
    exact done.1 ▸ start
  · split at done
    · contradiction
    · rename_i pid statics buf request parsed
      have closed : statics.inHeader = false := by
        simp only [getConnectionRequest] at parsed
        split at parsed
        · contradiction
        · split at parsed
          · contradiction
          · rename_i looped
            simp only [Option.some.injEq, Prod.mk.injEq] at parsed
            exact parsed.2.1 ▸ headerLoop_inHeader looped
          · rename_i _ _ _ statics₁ buf₁ out₁ looped
            simp only [Option.some.injEq] at parsed
            have kept := takeBody_inHeader statics₁ buf₁ out₁
            rw [parsed, headerLoop_inHeader looped] at kept
            exact kept
      split at done
      · simp only [Option.some.injEq, Prod.mk.injEq] at done
        exact done.1 ▸ closed
      · simp only [Option.some.injEq, Prod.mk.injEq] at done
        exact done.1 ▸ closed

/-- A new session with both modes clear reads its pid line first, whatever the other statics are. -/
theorem chunk_fresh (cfg : Config) {statics statics' : Statics} {data : Bytes} (real : data ≠ [])
    (clear : statics.inHeader = false ∧ statics.inData = false)
    (clear' : statics'.inHeader = false ∧ statics'.inData = false) :
    chunk cfg (sessionStart statics) data = chunk cfg (sessionStart statics') data := by
  have started : ∀ buf, startMessage statics buf = startMessage statics' buf := by
    intro buf
    simp [startMessage, clear.1, clear.2, clear'.1, clear'.2]
  simp [chunk, real, getConnectionRequest, sessionStart, started]

theorem dispatched_fresh (cfg : Config) {statics statics' : Statics} (chunks : List Bytes)
    (clear : statics.inHeader = false ∧ statics.inData = false)
    (clear' : statics'.inHeader = false ∧ statics'.inData = false) :
    dispatched cfg statics chunks = dispatched cfg statics' chunks := by
  let related (s s' : State) : Prop := s = s' ∨ s = sessionStart statics ∧ s' = sessionStart statics'
  have alike : ∀ s s' data, related s s' → (chunk cfg s data = none ∧ chunk cfg s' data = none) ∨
      ∃ t t' output, chunk cfg s data = some (t, output) ∧ chunk cfg s' data = some (t', output) ∧
        related t t' := by
    rintro s s' data (rfl | ⟨rfl, rfl⟩)
    · rcases step : chunk cfg s data with _ | ⟨t, output⟩
      · exact Or.inl ⟨rfl, rfl⟩
      · exact Or.inr ⟨t, t, output, rfl, rfl, Or.inl rfl⟩
    · by_cases real : data = []
      · subst real
        exact Or.inr ⟨_, _, none, rfl, rfl, Or.inr ⟨rfl, rfl⟩⟩
      · rw [chunk_fresh cfg real clear clear']
        rcases step : chunk cfg (sessionStart statics') data with _ | ⟨t, output⟩
        · exact Or.inl ⟨rfl, rfl⟩
        · exact Or.inr ⟨t, t, output, rfl, rfl, Or.inl rfl⟩
  rw [dispatched, feed_related alike (Or.inr ⟨rfl, rfl⟩) chunks, dispatched]

/-- In the body mode the first bytes of a session are taken for the body of the old request. -/
theorem chunk_stale (cfg : Config) {statics : Statics} {data : Bytes} (real : data ≠ [])
    (inHeader : statics.inHeader = false) (inData : statics.inData = true) :
    ∃ t output, chunk cfg (sessionStart statics) data = some (t, output) ∧
      (output = none ∨ output = some ⟨statics.pid, data.take statics.contentLen⟩) := by
  have nonempty : data.isEmpty = false := by simpa using real
  have grown := increaseBuffer_holds Buffer.cleared_holds data
  rw [List.nil_append] at grown
  have started : startMessage statics (increaseBuffer Buffer.cleared data data.length) =
      some (statics, increaseBuffer Buffer.cleared data data.length) := by
    simp [startMessage, inData]
  simp only [chunk, nonempty, getConnectionRequest, sessionStart, started, headerLoop, inHeader,
    Bool.false_eq_true, if_false, Bool.not_false, if_true]
  by_cases within : statics.contentLen ≤ data.length
  · have taken := increaseBuffer_holds_take Buffer.cleared_holds within [NUL]
    have block : (increaseBuffer Buffer.cleared data data.length).memory = data ++ [NUL] := by
      simp [increaseBuffer, Buffer.memory, Buffer.bytes, Buffer.cleared]
    simp only [takeBody, inData, grown.1, within, decide_true, Bool.and_self, if_true, block, taken.bytes_eq]
    by_cases positive : 0 < statics.pid
    · exact ⟨_, _, by rw [if_pos positive], Or.inr (by simp)⟩
    · exact ⟨_, _, by rw [if_neg positive], Or.inl rfl⟩
  · rw [takeBody_waits Buffer.cleared grown (by omega)]
    exact ⟨_, _, by rw [if_neg (lt_irrefl 0)], Or.inl rfl⟩

/-- This request has no header and no body. -/
def bareRequest : Request where
  pid := 1
  requestLine := text "G"
  headers := []
  body := []
  pidPositive := by decide
  pidFits := by decide
  clean := by simp only [Clean]; decide
  noMark := by decide
  announced := rfl

/-- The host text is too long for a line of one byte. -/
theorem bareRequest_expected (cfg : Config) :
    bareRequest.expected cfg = ⟨1, text "G" ++ [LF] ++ [LF]⟩ := by
  have absent : ¬ hostLine cfg <:+: text "G" := by
    intro inside
    rw [hostLine, List.append_assoc] at inside
    have longer := ((List.prefix_append _ _).isInfix.trans inside).length_le
    exact absurd longer (by decide)
  have same : rewriteHost cfg (text "G") = text "G" :=
    ptReplaceStr_absent (localHostLines cfg) (by simp [hostLine, text]) absent
  simp only [Request.expected, bareRequest, renderedHeader, Request.lines, List.flatMap_cons, same]
  rfl

/-- A second session is isolated from the first one, whatever its chunks are, exactly when the first one did
not end inside a request body. -/
theorem sessions_isolated_iff (cfg : Config) (first : List Bytes) (t : State)
    (ended : (feed (chunk cfg) (sessionStart Statics.initial) first).2 = some t) :
    (∀ second, dispatched cfg t.statics second = dispatched cfg Statics.initial second) ↔
      t.statics.inData = false := by
  have inHeader : t.statics.inHeader = false := by
    rw [feed_state] at ended
    have kept : ∀ s data next, s.statics.inHeader = false → silent (chunk cfg) s data = some next →
        next.statics.inHeader = false := by
      intro s data next start step
      rw [silent, Option.map_eq_some_iff] at step
      obtain ⟨⟨next, output⟩, step, rfl⟩ := step
      exact chunk_inHeader start step
    exact invariant kept rfl ended
  constructor
  · intro same
    by_contra stale
    have inData : t.statics.inData = true := by simpa using stale
    have real : bareRequest.encode ≠ [] := bareRequest.encode_ne_nil
    have differ := same [bareRequest.encode]
    obtain ⟨u, fresh, -⟩ := chunk_completes cfg
      (Or.inl (sessionStart_idle (show Statics.initial.inHeader = false from rfl) rfl)) real
      (show [] ++ bareRequest.encode = bareRequest.encode ++ [] by simp)
    obtain ⟨v, output, old, outputs⟩ := chunk_stale cfg real inHeader inData
    rw [dispatched, dispatched, feed_cons fresh, feed_cons old, bareRequest_expected] at differ
    rcases outputs with rfl | rfl
    · simp [List.reduceOption] at differ
    · have bytes : bareRequest.encode.take t.statics.contentLen = text "G" ++ [LF] ++ [LF] := by
        simp only [feed_nil, List.reduceOption_cons_of_some, List.cons.injEq, Dispatch.mk.injEq] at differ
        exact differ.1.2
      have first : (bareRequest.encode.take t.statics.contentLen).head? = some 71 := by rw [bytes]; rfl
      have one : bareRequest.encode = 49 :: (bareRequest.encode.drop 1) := by decide
      rw [one] at first
      cases n : t.statics.contentLen with
      | zero => simp [n] at first
      | succ n => simp [n] at first
  · exact fun inData second => dispatched_fresh cfg second ⟨inHeader, inData⟩ ⟨rfl, rfl⟩

/-- The first session brings one whole request in two chunks. -/
def wholeSession : State :=
  ((feed (chunk sampleConfig) (sessionStart Statics.initial)
    [sampleRequest.encode.take 67, sampleRequest.encode.drop 67]).2).get (by decide +kernel)

theorem sessions_isolated_iff_sample :
    (∀ second, dispatched sampleConfig wholeSession.statics second =
        dispatched sampleConfig Statics.initial second) ↔ wholeSession.statics.inData = false :=
  sessions_isolated_iff sampleConfig [sampleRequest.encode.take 67, sampleRequest.encode.drop 67] wholeSession
    (Option.some_get _).symm

/-- A session that ends inside a body takes the body's rest from the next session. -/
theorem sessions_share_statics : ∃ (cfg : Config) (first second : List Bytes) (t : State),
    (feed (chunk cfg) (sessionStart Statics.initial) first).2 = some t ∧
      dispatched cfg Statics.initial second = [sampleRequest.expected cfg] ∧
      dispatched cfg t.statics second = [⟨12, text "12\r"⟩] :=
  ⟨sampleConfig, [sampleRequest.headerBlock], [sampleRequest.encode],
    ⟨⟨false, true, 12, 3⟩, ⟨some [NUL], 0⟩,
      increaseBuffer Buffer.cleared (renderedHeader sampleConfig sampleRequest.lines)
        (renderedHeader sampleConfig sampleRequest.lines).length⟩,
    by decide, by decide, by decide⟩

end Piercloud.Client
