import Piercloud.Proof.Parser.Truncation

/-
This file counts the dispatches of a stream of whole requests against the requests that are complete in it.
-/

namespace Piercloud.Client

open CLib Wire Runs

/-- This counts the requests that are complete in the first bytes of their stream. -/
def completeCount : List Request → Nat → Nat
  | [], _ => 0
  | r :: later, passed =>
      if r.encode.length ≤ passed then completeCount later (passed - r.encode.length) + 1 else 0

/-- No chunk brings the last bytes of two requests. -/
def OneEndEach (offset : Nat) (requests : List Request) (chunks : List Bytes) : Prop :=
  ∀ front data back, chunks = front ++ data :: back →
    completeCount requests (offset + (front ++ [data]).flatten.length) ≤
      completeCount requests (offset + front.flatten.length) + 1

theorem completeCount_short {r : Request} {passed : Nat} (later : List Request) (short : passed < r.encode.length) :
    completeCount (r :: later) passed = 0 := by
  rw [completeCount, if_neg (not_le.mpr short)]

theorem completeCount_behind (r : Request) (later : List Request) (passed : Nat) :
    completeCount (r :: later) (r.encode.length + passed) = completeCount later passed + 1 := by
  rw [completeCount, if_pos (Nat.le_add_right _ _), Nat.add_sub_cancel_left]

theorem completeCount_eq_zero {r : Request} (later : List Request) {passed : Nat}
    (none : completeCount (r :: later) passed = 0) : passed < r.encode.length := by
  rw [completeCount] at none
  split at none
  · contradiction
  · omega

/-- The condition on the chunks holds behind a request and the chunk that completed it. -/
theorem OneEndEach.behind {offset offset' : Nat} {r : Request} {later : List Request} {data : Bytes}
    {chunks : List Bytes} (ends : OneEndEach offset (r :: later) (data :: chunks))
    (shifted : offset + data.length = r.encode.length + offset') : OneEndEach offset' later chunks := by
  rintro front next back rfl
  have one := ends (data :: front) next back rfl
  have moved : ∀ n, offset + (data.length + n) = r.encode.length + (offset' + n) := fun n => by omega
  simp only [List.cons_append, List.flatten_cons, List.length_append, moved, completeCount_behind] at one ⊢
  omega

/-- A chunk that completes nothing only moves the offset. -/
theorem OneEndEach.tail {offset : Nat} {requests : List Request} {data : Bytes} {chunks : List Bytes}
    (ends : OneEndEach offset requests (data :: chunks)) : OneEndEach (offset + data.length) requests chunks := by
  rintro front next back rfl
  have one := ends (data :: front) next back rfl
  simpa only [List.cons_append, List.flatten_cons, List.length_append, Nat.add_assoc] using one

theorem HeadersWhole.tail {offset : Nat} {runs : List PierRun} {data : Bytes} {chunks : List Bytes}
    (headers : HeadersWhole offset runs (data :: chunks)) : HeadersWhole (offset + data.length) runs chunks := by
  rintro before run after front back rfl rfl
  have whole := headers before run after (data :: front) back rfl rfl
  simpa only [List.flatten_cons, List.length_append, Nat.add_assoc] using whole

/-- Partway through a request the client runs on and has dispatched exactly the requests before it. -/
theorem feed_drains (cfg : Config) {s : State} {r : Request} {later : List Request} {seen : Bytes}
    {chunks : List Bytes} (partway : Partway cfg s r seen) (short : seen.length < r.encode.length)
    (pieces : ∀ data ∈ chunks, data ≠ []) (stream : seen ++ chunks.flatten <+: (r :: later).flatMap Request.encode)
    (headers : HeadersWhole seen.length ((r :: later).map wholeRun) chunks)
    (ends : OneEndEach seen.length (r :: later) chunks) :
    (feed (chunk cfg) s chunks).1.reduceOption.length =
        completeCount (r :: later) (seen.length + chunks.flatten.length) ∧
      (feed (chunk cfg) s chunks).2.isSome := by
  induction chunks generalizing s r later seen with
  | nil => simp [completeCount_short later short, List.reduceOption]
  | cons data chunks ih =>
      have real := pieces data (by simp)
      have pieces' : ∀ other ∈ chunks, other ≠ [] := fun other member => pieces other (by simp [member])
      obtain ⟨behind, stream⟩ := stream
      have stream' : seen ++ data ++ (chunks.flatten ++ behind) = r.encode ++ later.flatMap Request.encode := by
        simpa using stream
      by_cases complete : r.encode.length ≤ (seen ++ data).length
      · obtain ⟨more, split, rest⟩ := append_cut stream' complete
        obtain ⟨t, step, idle⟩ := chunk_completes cfg partway real split
        have shifted : seen.length + data.length = r.encode.length + more.length := by
          rw [← List.length_append, split, List.length_append]
        have counted : seen.length + (data :: chunks).flatten.length =
            r.encode.length + (more.length + chunks.flatten.length) := by
          rw [List.flatten_cons, List.length_append]
          omega
        rw [feed_cons step, List.reduceOption_cons_of_some, List.length_cons, counted, completeCount_behind,
          Nat.add_right_cancel_iff]
        cases later with
        | nil =>
            have nothing : chunks.flatten = [] :=
              (List.append_eq_nil_iff.mp (List.append_eq_nil_iff.mp rest).2).1
            rw [pieces_eq_nil pieces' nothing]
            exact ⟨rfl, rfl⟩
        | cons next later =>
            have first := ends [] data chunks rfl
            simp only [List.nil_append, List.flatten_cons, List.flatten_nil, List.append_nil, List.length_nil,
              Nat.add_zero, shifted, completeCount_behind, completeCount_short (next :: later) short] at first
            have inside := completeCount_eq_zero later (show completeCount (next :: later) more.length = 0 by omega)
            apply ih (Or.inl idle) inside pieces' ⟨behind, by simpa using rest⟩
            · exact HeadersWhole.behind (show HeadersWhole _ (wholeRun r :: _) ([data] ++ chunks) from headers)
                (by simpa [wholeRun] using shifted)
            · exact ends.behind shifted
      · have whole : (wholeRun r).complete = true := PierRun.complete_iff.mpr rfl
        have covers : r.headerBlock.length ≤ (seen ++ data).length :=
          header_covered real (by simpa [wholeRun] using headers.first whole [data] chunks rfl)
        obtain ⟨t, step, partway'⟩ := chunk_stays cfg partway real stream' covers (not_le.mp complete)
        rw [feed_cons step, List.reduceOption_cons_of_none, List.flatten_cons, List.length_append, ← Nat.add_assoc,
          ← List.length_append]
        apply ih partway' (not_le.mp complete) pieces' ⟨behind, by simpa using stream⟩
        · rw [List.length_append]
          exact headers.tail
        · rw [List.length_append]
          exact ends.tail

/-- After every call the client has dispatched every request that is complete in the bytes passed so far, exactly
when no chunk brings the last bytes of two requests. -/
theorem client_drains_iff (cfg : Config) (requests : List Request) (chunks : List Bytes)
    (pieces : ∀ data ∈ chunks, data ≠ []) (stream : chunks.flatten <+: requests.flatMap Request.encode)
    (headers : HeadersWhole 0 (requests.map wholeRun) chunks) :
    (∀ front back, chunks = front ++ back →
        (dispatched cfg Statics.initial front).length = completeCount requests front.flatten.length) ↔
      OneEndEach 0 requests chunks := by
  constructor
  · rintro drained front data back same
    have before := drained front (data :: back) same
    have after := drained (front ++ [data]) back (by simp [same])
    obtain ⟨last, outputs, single⟩ := feed_concat (chunk cfg) (sessionStart Statics.initial) front data
    have atMost := (List.reduceOption_length_le last).trans single
    rw [dispatched, outputs, List.reduceOption_append, List.length_append, ← dispatched, before] at after
    rw [Nat.zero_add, Nat.zero_add, ← after]
    omega
  · rintro ends front back rfl
    cases requests with
    | nil =>
        have nothing : front.flatten = [] := by
          rw [List.flatMap_nil, List.flatten_append] at stream
          exact List.append_eq_nil_iff.mp (List.prefix_nil.mp stream) |>.1
        rw [pieces_eq_nil (fun data member => pieces data (by simp [member])) nothing]
        rfl
    | cons r later =>
        have counted := feed_drains cfg
          (Or.inl (show Idle (sessionStart Statics.initial) [] from sessionStart_idle rfl rfl))
          (show ([] : Bytes).length < r.encode.length from List.length_pos_of_ne_nil r.encode_ne_nil)
          (fun data member => pieces data (by simp [member]))
          (show [] ++ front.flatten <+: (r :: later).flatMap Request.encode from
            (by simp : front.flatten <+: (front ++ back).flatten).trans stream)
          (fun before run after front' back' split same =>
            headers before run after front' (back' ++ back) split (by simp [same]))
          (fun front' data back' same => ends front' data (back' ++ back) (by simp [same]))
        simpa [dispatched] using counted.1

/-- One chunk that brings all the runs splits no header block. -/
theorem headersWhole_single (runs : List PierRun) : HeadersWhole 0 runs [writtenBytes runs] := by
  rintro before run after front back rfl same
  have header : run.headerLength ≤ run.written.length := min_le_right _ _
  cases front with
  | nil => simp
  | cons data front =>
      obtain ⟨rfl, rest⟩ := List.cons.inj same
      obtain ⟨rfl, -⟩ := List.append_eq_nil_iff.mp rest.symm
      simp only [List.flatten_cons, List.flatten_nil, List.append_nil, writtenBytes_append, writtenBytes_cons,
        List.length_append]
      omega

/-- Two requests arrive in a chunk each. -/
theorem client_drains_iff_sample :
    (∀ front back, [sampleRequest.encode, bareRequest.encode] = front ++ back →
        (dispatched sampleConfig Statics.initial front).length =
          completeCount [sampleRequest, bareRequest] front.flatten.length) ↔
      OneEndEach 0 [sampleRequest, bareRequest] [sampleRequest.encode, bareRequest.encode] :=
  client_drains_iff sampleConfig [sampleRequest, bareRequest] [sampleRequest.encode, bareRequest.encode]
    (by decide) (by decide) (headersWhole_map [wholeRun sampleRequest, wholeRun bareRequest])

/-- The second of two requests in one chunk stays in the buffer. -/
theorem complete_request_waits : ∃ (cfg : Config) (requests : List Request) (chunks : List Bytes),
    (∀ data ∈ chunks, data ≠ []) ∧ chunks.flatten <+: requests.flatMap Request.encode ∧
      HeadersWhole 0 (requests.map wholeRun) chunks ∧
      (dispatched cfg Statics.initial chunks).length = 1 ∧ completeCount requests chunks.flatten.length = 2 :=
  ⟨sampleConfig, [sampleRequest, bareRequest], [writtenBytes [wholeRun sampleRequest, wholeRun bareRequest]],
    by decide, by decide, headersWhole_single _, by decide +kernel, by decide +kernel⟩

end Piercloud.Client
