import Piercloud.Proof.Parser.Sessions

/-
This file tells when the request buffer is empty at the start of every message, so that no dispatch carries
bytes of another one.
-/

namespace Piercloud.Client

open CLib Runs

/-- This is the dispatch of one message alone. -/
def Message.dispatch (cfg : Config) (m : Message) : Dispatch := ⟨m.head.pid, m.request cfg⟩

/-- A message that the chunk completes has a positive pid. -/
structure PositivePid (s : State) (data : Bytes) : Prop where
  body : data ≠ [] → s.statics.inData = true → s.statics.contentLen ≤ (s.buf.bytes ++ data).length →
    0 < s.statics.pid
  whole : data ≠ [] → s.statics.inHeader = false → s.statics.inData = false →
    ∀ m : Message, m.bytes <+: s.buf.bytes ++ data → 0 < m.head.pid

/-- The request buffer holds nothing of an earlier message. -/
def Separate (cfg : Config) (s : State) (seen : Bytes) : Prop :=
  Between s [] seen ∨ ∃ (h : Head) (pending : Bytes), seen = h.bytes ++ pending ∧ InBody cfg s h [] pending

/-- The whole message stands at the front of the bytes behind its header block. -/
def Head.message (h : Head) (more : Bytes) (within : h.announced ≤ more.length) : Message :=
  ⟨h, more.take h.announced, by simp [within]⟩

theorem Head.message_bytes (h : Head) {more : Bytes} (within : h.announced ≤ more.length) :
    h.bytes ++ more = (h.message more within).bytes ++ more.drop h.announced := by
  rw [message, Message.bytes, List.append_assoc, List.take_append_drop]

/-- The condition is about the one message whose header block the parser has behind it. -/
theorem positivePid_iff {cfg : Config} {s : State} {h : Head} {seen data more : Bytes}
    (reached : Reached cfg s h [] seen) (real : data ≠ []) (split : seen ++ data = h.bytes ++ more) :
    PositivePid s data ↔ (h.announced ≤ more.length → 0 < h.pid) := by
  rcases reached with between | ⟨pending, rfl, body⟩
  · constructor
    · intro positive within
      refine positive.whole real between.inHeader between.inData (h.message more within) ⟨more.drop h.announced, ?_⟩
      rw [between.buf.bytes_eq, split, h.message_bytes within]
    · intro positive
      refine ⟨fun _ inData => absurd inData (by simp [between.inData]), ?_⟩
      rintro - - - m ⟨rest, same⟩
      rw [between.buf.bytes_eq] at same
      obtain ⟨t, output, step, some, none⟩ := chunk_message cfg m (Or.inl between) real same.symm
      -- The same call completes both messages.
      by_cases within : h.announced ≤ more.length
      · obtain ⟨t', output', step', some', -⟩ := chunk_message cfg (h.message more within) (Or.inl between) real
          (split.trans (h.message_bytes within))
        rw [step, Option.some.injEq, Prod.mk.injEq] at step'
        by_contra negative
        have lost := (none negative).1
        rw [step'.2, (some' (positive within)).1] at lost
        contradiction
      · obtain ⟨t', step', inBody⟩ := chunk_inBody cfg (Or.inl between) real split (not_le.mp within)
        rw [step, Option.some.injEq, Prod.mk.injEq] at step'
        have waits : t.statics.inData = true := step'.1 ▸ inBody.inData
        by_cases pid : 0 < m.head.pid
        · exact pid
        · simp [(none pid).2.inData] at waits
  · have behind : pending ++ data = more := by simpa using split
    constructor
    · intro positive within
      rw [← body.pid]
      refine positive.body real body.inData ?_
      rwa [body.contentLen, body.buf.bytes_eq, behind]
    · intro positive
      refine ⟨fun _ _ within => ?_, fun _ _ idle => absurd idle (by simp [body.inData])⟩
      rw [body.contentLen, body.buf.bytes_eq, behind] at within
      rw [body.pid]
      exact positive within

/-- A chunk that does not make the client exit leaves the parser behind a header block. -/
theorem Separate.reached {cfg : Config} {s : State} {seen data : Bytes} (separate : Separate cfg s seen)
    (real : data ≠ []) (survives : (chunk cfg s data).isSome) :
    ∃ (h : Head) (more : Bytes), Reached cfg s h [] seen ∧ seen ++ data = h.bytes ++ more := by
  rcases separate with between | ⟨h, pending, rfl, body⟩
  · obtain ⟨h, more, split⟩ := chunk_found between real survives
    exact ⟨h, more, Or.inl between, split⟩
  · exact ⟨h, pending ++ data, Or.inr ⟨pending, rfl, body⟩, by simp⟩

/-- Under the condition a chunk dispatches at most one message, made of its own bytes alone. -/
theorem chunk_separate {cfg : Config} {s t : State} {seen data : Bytes} {output : Option Dispatch}
    (separate : Separate cfg s seen) (positive : PositivePid s data) (step : chunk cfg s data = some (t, output)) :
    ∃ (ms : List Message) (rest : Bytes), output.toList = ms.map (Message.dispatch cfg) ∧
      seen ++ data = ms.flatMap Message.bytes ++ rest ∧ Separate cfg t rest := by
  by_cases real : data = []
  · subst real
    obtain ⟨rfl, rfl⟩ : s = t ∧ none = output := by simpa [chunk] using step
    exact ⟨[], seen, rfl, by simp, separate⟩
  · obtain ⟨h, more, reached, split⟩ := separate.reached real (by simp [step])
    by_cases within : h.announced ≤ more.length
    · have pid := (positivePid_iff reached real split).mp positive within
      obtain ⟨t', output', step', done, -⟩ := chunk_message cfg (h.message more within) reached real
        (split.trans (h.message_bytes within))
      rw [step, Option.some.injEq, Prod.mk.injEq] at step'
      obtain ⟨rfl, rfl⟩ := step'
      obtain ⟨rfl, between⟩ := done pid
      exact ⟨[h.message more within], more.drop h.announced, rfl, by simp [split, h.message_bytes within],
        Or.inl between⟩
    · obtain ⟨t', step', body⟩ := chunk_inBody cfg reached real split (not_le.mp within)
      rw [step, Option.some.injEq, Prod.mk.injEq] at step'
      obtain ⟨rfl, rfl⟩ := step'
      exact ⟨[], seen ++ data, rfl, by simp, Or.inr ⟨h, more, split, body⟩⟩

/-- Without the condition the whole message stays in the request buffer when the next one starts. -/
theorem chunk_leaves {cfg : Config} {s t : State} {seen data : Bytes} {output : Option Dispatch}
    (separate : Separate cfg s seen) (stays : ¬ PositivePid s data) (step : chunk cfg s data = some (t, output)) :
    t.statics.inHeader = false ∧ t.statics.inData = false ∧ t.request.bytes ≠ [] := by
  have real : data ≠ [] := by
    rintro rfl
    exact stays ⟨fun absurd => (absurd rfl).elim, fun absurd => (absurd rfl).elim⟩
  obtain ⟨h, more, reached, split⟩ := separate.reached real (by simp [step])
  rw [positivePid_iff reached real split] at stays
  push Not at stays
  obtain ⟨within, negative⟩ := stays
  obtain ⟨t', output', step', -, kept⟩ := chunk_message cfg (h.message more within) reached real
    (split.trans (h.message_bytes within))
  rw [step, Option.some.injEq, Prod.mk.injEq] at step'
  obtain ⟨rfl, rfl⟩ := step'
  obtain ⟨-, between⟩ := kept (not_lt.mpr negative)
  refine ⟨between.inHeader, between.inData, ?_⟩
  rw [between.request.bytes_eq]
  simp [Message.request, Head.rendered, Wire.renderedHeader]

/-- A guarded run dispatches the messages of its stream, each by itself. -/
theorem feed_separate (cfg : Config) {s : State} {seen : Bytes} {chunks : List Bytes}
    (separate : Separate cfg s seen) (positive : Along (silent (chunk cfg)) PositivePid s chunks) :
    ∃ ms : List Message, (feed (chunk cfg) s chunks).1.reduceOption = ms.map (Message.dispatch cfg) ∧
      ms.flatMap Message.bytes <+: seen ++ chunks.flatten := by
  induction chunks generalizing s seen with
  | nil => exact ⟨[], rfl, by simp⟩
  | cons data chunks ih =>
      cases step : chunk cfg s data with
      | none => exact ⟨[], by simp [feed_cons_stopped step, List.reduceOption], by simp⟩
      | some pair =>
          obtain ⟨t, output⟩ := pair
          have quiet : silent (chunk cfg) s data = some t := by simp [silent, step]
          rw [along_cons quiet] at positive
          obtain ⟨ms, rest, outputs, split, next⟩ := chunk_separate separate positive.1 step
          obtain ⟨later, outputs', front⟩ := ih next positive.2
          refine ⟨ms ++ later, ?_, ?_⟩
          · rw [feed_cons step, List.map_append, ← outputs, ← outputs']
            cases output <;> simp [List.reduceOption]
          · rw [List.flatten_cons, ← List.append_assoc, split, List.flatMap_append, List.append_assoc]
            exact (List.prefix_append_right_inj _).mpr front

/-- On arbitrary bytes the request buffer is empty whenever a new message starts, and every dispatch is made of
one message alone, exactly when every completed message has a positive pid. -/
theorem requests_separate_iff (cfg : Config) (chunks : List Bytes)
    (survives : (feed (chunk cfg) (sessionStart Statics.initial) chunks).2.isSome) :
    ((∀ front back u, chunks = front ++ back →
          run (silent (chunk cfg)) (sessionStart Statics.initial) front = some u →
          u.statics.inHeader = false → u.statics.inData = false → u.request.bytes = []) ∧
        ∃ ms : List Message, dispatched cfg Statics.initial chunks = ms.map (Message.dispatch cfg) ∧
          ms.flatMap Message.bytes <+: chunks.flatten) ↔
      Along (silent (chunk cfg)) PositivePid (sessionStart Statics.initial) chunks := by
  rw [feed_state, Option.isSome_iff_exists] at survives
  obtain ⟨t, reached⟩ := survives
  have start : Separate cfg (sessionStart Statics.initial) [] :=
    Or.inl ⟨rfl, rfl, Buffer.cleared_holds, Buffer.cleared_holds⟩
  have output : ∀ {s data t}, silent (chunk cfg) s data = some t → ∃ output, chunk cfg s data = some (t, output) := by
    intro s data t quiet
    rw [silent, Option.map_eq_some_iff] at quiet
    obtain ⟨⟨t, output⟩, step, rfl⟩ := quiet
    exact ⟨output, step⟩
  have empty : (∀ front back u, chunks = front ++ back →
      run (silent (chunk cfg)) (sessionStart Statics.initial) front = some u →
      u.statics.inHeader = false → u.statics.inData = false → u.request.bytes = []) ↔
      Along (silent (chunk cfg)) PositivePid (sessionStart Statics.initial) chunks := by
    refine everywhere_iff_along (fun s => ∃ seen, Separate cfg s seen) ?_ ?_ ?_ ⟨[], start⟩ reached
    · rintro s data t ⟨seen, separate⟩ positive quiet
      obtain ⟨output, step⟩ := output quiet
      obtain ⟨ms, rest, -, -, next⟩ := chunk_separate separate positive step
      exact ⟨rest, next⟩
    · rintro s data t ⟨seen, separate⟩ stays quiet cleared
      obtain ⟨output, step⟩ := output quiet
      obtain ⟨inHeader, inData, filled⟩ := chunk_leaves separate stays step
      exact filled (cleared inHeader inData)
    · rintro s ⟨seen, between | ⟨h, pending, rfl, body⟩⟩ - inData
      · exact between.request.bytes_eq
      · simp [body.inData] at inData
  constructor
  · exact fun both => empty.mp both.1
  · intro positive
    obtain ⟨ms, outputs, front⟩ := feed_separate cfg start positive
    exact ⟨empty.mpr positive, ms, outputs, by simpa using front⟩

/-- The whole request has a positive pid. -/
theorem requests_separate_iff_sample :
    ((∀ front back u, [sampleRequest.encode] = front ++ back →
          run (silent (chunk sampleConfig)) (sessionStart Statics.initial) front = some u →
          u.statics.inHeader = false → u.statics.inData = false → u.request.bytes = []) ∧
        ∃ ms : List Message, dispatched sampleConfig Statics.initial [sampleRequest.encode] =
            ms.map (Message.dispatch sampleConfig) ∧
          ms.flatMap Message.bytes <+: [sampleRequest.encode].flatten) ↔
      Along (silent (chunk sampleConfig)) PositivePid (sessionStart Statics.initial) [sampleRequest.encode] :=
  requests_separate_iff sampleConfig [sampleRequest.encode] (by decide +kernel)

/-- A message whose pid line is no number stays in front of the next one. -/
theorem request_keeps_stale_bytes : ∃ (cfg : Config) (chunks : List Bytes) (u : State),
    (feed (chunk cfg) (sessionStart Statics.initial) chunks).2.isSome ∧
      run (silent (chunk cfg)) (sessionStart Statics.initial) (chunks.take 1) = some u ∧
      u.statics.inHeader = false ∧ u.statics.inData = false ∧ u.request.bytes = text "A\n\n" ∧
      dispatched cfg Statics.initial chunks = [⟨1, text "A\n\nG\n\n"⟩] :=
  ⟨sampleConfig, [text "x\r\nA\r\n\r\n", bareRequest.encode],
    ⟨⟨false, false, 0, 0⟩, ⟨some [NUL], 0⟩, ⟨some (text "A\n\n" ++ [NUL]), 3⟩⟩,
    by decide, by decide, rfl, rfl, rfl, by decide⟩

end Piercloud.Client
