import Piercloud.Proof.Parser.Sessions

/-
This file follows the requests of many `Pier` runs into the client. A run may leave a part of its request in
the stream.
-/

namespace Piercloud.Client

open CLib Wire Runs

/-- A run of `Pier` may stop at any point after it took the lock. -/
structure PierRun where
  request : Request
  written : Bytes
  cut : written <+: request.encode

def PierRun.complete (run : PierRun) : Bool := decide (run.written = run.request.encode)

/-- The runs write one after another, because each run holds the lock. -/
def writtenBytes (runs : List PierRun) : Bytes := runs.flatMap PierRun.written

/-- This counts the bytes of the header block that the run wrote. -/
def PierRun.headerLength (run : PierRun) : Nat := min run.request.headerBlock.length run.written.length

/-- No chunk ends inside the header block of a run. The chunks start at this offset of the stream. -/
def HeadersWhole (offset : Nat) (runs : List PierRun) (chunks : List Bytes) : Prop :=
  ∀ before run after front back, runs = before ++ run :: after → chunks = front ++ back →
    ¬ ((writtenBytes before).length < offset + front.flatten.length ∧
      offset + front.flatten.length < (writtenBytes before).length + run.headerLength)

/-- No chunk brings the last bytes of two complete requests. -/
def EndsApart (offset : Nat) (runs : List PierRun) (chunks : List Bytes) : Prop :=
  ∀ before first between second after front data back,
    runs = before ++ first :: (between ++ second :: after) → first.complete = true → second.complete = true →
      chunks = front ++ data :: back →
        ¬ (offset + front.flatten.length < (writtenBytes (before ++ [first])).length ∧
          (writtenBytes (before ++ first :: (between ++ [second]))).length ≤
            offset + (front ++ [data]).flatten.length)

/-- No run writes behind a request that was cut short. -/
def NothingBehindCut (runs : List PierRun) : Prop :=
  ∀ before run after, runs = before ++ run :: after → run.written ≠ [] → run.complete = false →
    writtenBytes after = []

@[simp] theorem writtenBytes_nil : writtenBytes [] = [] := rfl

@[simp] theorem writtenBytes_cons (run : PierRun) (runs : List PierRun) :
    writtenBytes (run :: runs) = run.written ++ writtenBytes runs := rfl

@[simp] theorem writtenBytes_append (first second : List PierRun) :
    writtenBytes (first ++ second) = writtenBytes first ++ writtenBytes second := List.flatMap_append

theorem PierRun.complete_iff {run : PierRun} : run.complete = true ↔ run.written = run.request.encode := by
  simp [complete]

theorem PierRun.complete_ne_nil {run : PierRun} (complete : run.complete = true) : run.written ≠ [] := by
  rw [PierRun.complete_iff.mp complete]
  exact run.request.encode_ne_nil

/-- A piece that does not end inside the header block covers it. -/
theorem header_covered {r : Request} {seen data : Bytes} (real : data ≠ [])
    (unsplit : ¬ (0 < seen.length + data.length ∧ seen.length + data.length < r.headerBlock.length)) :
    r.headerBlock.length ≤ (seen ++ data).length := by
  have longer := List.length_pos_of_ne_nil real
  rw [List.length_append]
  omega

/-- The chunks reach the last byte of a request whose header block is not split, and dispatch it there. -/
theorem feed_until (cfg : Config) {s : State} {r : Request} {seen rest : Bytes} {chunks : List Bytes}
    (partway : Partway cfg s r seen) (short : seen.length < r.encode.length)
    (pieces : ∀ data ∈ chunks, data ≠ []) (stream : seen ++ chunks.flatten = r.encode ++ rest)
    (whole : ∀ front back, chunks = front ++ back →
      ¬ (0 < seen.length + front.flatten.length ∧ seen.length + front.flatten.length < r.headerBlock.length)) :
    ∃ front data back more t, chunks = front ++ data :: back ∧
      seen.length + front.flatten.length < r.encode.length ∧
      seen ++ (front.flatten ++ data) = r.encode ++ more ∧ more ++ back.flatten = rest ∧ Idle t more ∧
      (feed (chunk cfg) s chunks).1 =
        List.replicate front.length none ++ some (r.expected cfg) :: (feed (chunk cfg) t back).1 := by
  induction chunks generalizing s seen with
  | nil =>
      have sizes := congrArg List.length stream
      simp only [List.flatten_nil, List.append_nil, List.length_append] at sizes
      omega
  | cons data chunks ih =>
      have real := pieces data (by simp)
      have stream' : seen ++ data ++ chunks.flatten = r.encode ++ rest := by simpa using stream
      by_cases ends : r.encode.length ≤ (seen ++ data).length
      · obtain ⟨more, split, behind⟩ := append_cut stream' ends
        obtain ⟨t, step, idle⟩ := chunk_completes cfg partway real split
        refine ⟨[], data, chunks, more, t, rfl, by simpa using short, by simpa using split, behind, idle, ?_⟩
        rw [feed_cons step]
        rfl
      · have covers : r.headerBlock.length ≤ (seen ++ data).length :=
          header_covered real (by simpa using whole [data] chunks rfl)
        obtain ⟨t, step, partway'⟩ := chunk_stays cfg partway real stream' covers (not_le.mp ends)
        have later : ∀ front back, chunks = front ++ back → ¬ (0 < (seen ++ data).length + front.flatten.length ∧
            (seen ++ data).length + front.flatten.length < r.headerBlock.length) := by
          intro front back same
          have unsplit := whole (data :: front) back (by rw [same]; rfl)
          simp only [List.flatten_cons, List.length_append] at unsplit ⊢
          omega
        obtain ⟨front, last, back, more', u, same, inside, complete, tail, idle, outputs⟩ :=
          ih partway' (not_le.mp ends) (fun other member => pieces other (by simp [member]))
            (by simpa using stream) later
        refine ⟨data :: front, last, back, more', u, by rw [same]; rfl, ?_, by simpa using complete, tail, idle, ?_⟩
        · simp only [List.flatten_cons, List.length_append] at inside ⊢
          omega
        · rw [feed_cons step, outputs]
          rfl

/-- A request that was cut short is never dispatched from its own bytes. -/
theorem feed_cut (cfg : Config) {s : State} {r : Request} {seen : Bytes} {chunks : List Bytes}
    (partway : Partway cfg s r seen) (pieces : ∀ data ∈ chunks, data ≠ [])
    (cut : seen ++ chunks.flatten <+: r.encode) (short : (seen ++ chunks.flatten).length < r.encode.length) :
    (feed (chunk cfg) s chunks).1.reduceOption = [] := by
  induction chunks generalizing s seen with
  | nil => rfl
  | cons data chunks ih =>
      have real := pieces data (by simp)
      obtain ⟨rest, stream⟩ := cut
      have stream' : seen ++ data ++ (chunks.flatten ++ rest) = r.encode ++ [] := by simpa using stream
      have shorter : (seen ++ data ++ chunks.flatten).length < r.encode.length := by simpa using short
      by_cases covers : r.headerBlock.length ≤ (seen ++ data).length
      · have inside : (seen ++ data).length < r.encode.length := by
          rw [List.length_append] at shorter
          omega
        obtain ⟨t, step, partway'⟩ := chunk_stays cfg partway real stream' covers inside
        rw [feed_cons step, List.reduceOption_cons_of_none]
        exact ih partway' (fun other member => pieces other (by simp [member])) ⟨rest, by simpa using stream⟩ shorter
      · rcases partway with idle | ⟨pending, same, -⟩
        · have block : seen ++ data <+: r.headerBlock ++ r.body := ⟨_, by rw [stream', Request.encode, List.append_nil]⟩
          have front : seen ++ data <+: r.headerBlock :=
            List.prefix_of_prefix_length_le block (List.prefix_append _ _) (by omega)
          have stopped := chunk_exits cfg idle real front fun same => covers (by rw [same])
          rw [feed_cons_stopped stopped]
          rfl
        · rw [same] at covers
          simp only [List.length_append] at covers
          omega

/-- Runs that wrote nothing completed nothing. -/
theorem filter_complete_nil {runs : List PierRun} (nothing : writtenBytes runs = []) :
    runs.filter PierRun.complete = [] := by
  rw [List.filter_eq_nil_iff]
  intro run member complete
  exact PierRun.complete_ne_nil complete (List.flatMap_eq_nil_iff.mp nothing run member)

/-- Every complete request ends behind the bytes that the client has seen. -/
def EndsAhead (offset : Nat) (runs : List PierRun) : Prop :=
  ∀ before run after, runs = before ++ run :: after → run.complete = true →
    offset < (writtenBytes (before ++ [run])).length

/-- No chunk ends inside the header block of a complete first run. -/
theorem HeadersWhole.first {offset : Nat} {run : PierRun} {runs : List PierRun} {chunks : List Bytes}
    (whole : HeadersWhole offset (run :: runs) chunks) (complete : run.complete = true) (front back : List Bytes)
    (same : chunks = front ++ back) : ¬ (0 < offset + front.flatten.length ∧
      offset + front.flatten.length < run.request.headerBlock.length) := by
  have unsplit := whole [] run runs front back rfl same
  rw [PierRun.headerLength, PierRun.complete_iff.mp complete, min_eq_left (by simp [Request.encode]), writtenBytes_nil,
    List.length_nil, Nat.zero_add] at unsplit
  exact unsplit

/-- The conditions on the stream hold behind a run and the chunks that brought it. -/
theorem HeadersWhole.behind {offset offset' : Nat} {run : PierRun} {runs : List PierRun}
    {front back : List Bytes} (whole : HeadersWhole offset (run :: runs) (front ++ back))
    (shifted : offset + front.flatten.length = run.written.length + offset') : HeadersWhole offset' runs back := by
  rintro before next after front' back' rfl rfl
  have earlier := whole (run :: before) next after (front ++ front') back' rfl (by simp)
  simp only [writtenBytes_cons, List.flatten_append, List.length_append] at earlier
  omega

theorem EndsApart.behind {offset offset' : Nat} {run : PierRun} {runs : List PierRun} {front back : List Bytes}
    (apart : EndsApart offset (run :: runs) (front ++ back))
    (shifted : offset + front.flatten.length = run.written.length + offset') : EndsApart offset' runs back := by
  rintro before first between second after front' data back' rfl complete complete' rfl
  have earlier := apart (run :: before) first between second after (front ++ front') data back' rfl complete
    complete' (by simp)
  simp only [List.cons_append, writtenBytes_cons, List.flatten_append, List.length_append] at earlier ⊢
  omega

theorem NothingBehindCut.behind {run : PierRun} {runs : List PierRun} (last : NothingBehindCut (run :: runs)) :
    NothingBehindCut runs := by
  rintro before next after rfl
  exact last (run :: before) next after rfl

/-- An idle client dispatches exactly the complete requests of the stream, each one once and in order. -/
theorem feed_runs (cfg : Config) {runs : List PierRun} {s : State} {seen : Bytes} {chunks : List Bytes}
    (idle : Idle s seen) (pieces : ∀ data ∈ chunks, data ≠ []) (stream : seen ++ chunks.flatten = writtenBytes runs)
    (whole : HeadersWhole seen.length runs chunks) (apart : EndsApart seen.length runs chunks)
    (last : NothingBehindCut runs) (ahead : EndsAhead seen.length runs) :
    (feed (chunk cfg) s chunks).1.reduceOption =
      (runs.filter PierRun.complete).map fun run => run.request.expected cfg := by
  induction runs generalizing s seen chunks with
  | nil =>
      have nothing : chunks.flatten = [] := (List.append_eq_nil_iff.mp stream).2
      rw [pieces_eq_nil pieces nothing]
      rfl
  | cons run runs ih =>
      by_cases empty : run.written = []
      · have incomplete : ¬ run.complete = true := fun complete => PierRun.complete_ne_nil complete empty
        rw [List.filter_cons_of_neg incomplete]
        apply ih idle pieces (by simpa [empty] using stream)
        · exact HeadersWhole.behind (show HeadersWhole _ _ ([] ++ chunks) from whole) (by simp [empty])
        · exact EndsApart.behind (show EndsApart _ _ ([] ++ chunks) from apart) (by simp [empty])
        · exact last.behind
        · rintro before next after rfl complete
          simpa [empty] using ahead (run :: before) next after rfl complete
      · by_cases complete : run.complete = true
        · have written := PierRun.complete_iff.mp complete
          rw [writtenBytes_cons, written] at stream
          have short : seen.length < run.request.encode.length := by
            simpa [written] using ahead [] run runs rfl complete
          obtain ⟨front, data, back, more, t, rfl, inside, split, behind, idle', outputs⟩ :=
            feed_until cfg (Or.inl idle) short pieces stream (whole.first complete)
          have shifted : seen.length + (front ++ [data]).flatten.length = run.written.length + more.length := by
            have sizes := congrArg List.length split
            simp only [List.length_append] at sizes
            simp only [List.flatten_append, List.flatten_cons, List.flatten_nil, List.append_nil,
              List.length_append, written]
            omega
          have regrouped : front ++ data :: back = (front ++ [data]) ++ back := by simp
          rw [outputs, List.reduceOption_append, List.reduceOption_replicate_none, List.nil_append,
            List.reduceOption_cons_of_some, List.filter_cons_of_pos complete, List.map_cons]
          rw [ih idle' (fun other member => pieces other (by simp [member])) behind
            (HeadersWhole.behind (regrouped ▸ whole) shifted) (EndsApart.behind (regrouped ▸ apart) shifted)
            last.behind]
          rintro before next after rfl complete'
          have separate := apart [] run before next after front data back rfl complete complete' rfl
          simp only [List.nil_append, writtenBytes_cons, writtenBytes_nil, List.append_nil, List.length_append,
            written] at separate shifted ⊢
          omega
        · have nothing := last [] run runs rfl empty (by simpa using complete)
          rw [writtenBytes_cons, nothing, List.append_nil] at stream
          rw [List.filter_cons_of_neg complete, filter_complete_nil nothing]
          apply feed_cut cfg (Or.inl idle) pieces (stream ▸ run.cut)
          rw [stream]
          refine lt_of_le_of_ne run.cut.length_le fun same => complete ?_
          exact PierRun.complete_iff.mpr (run.cut.eq_of_length same)

/-- If no run writes behind a request that was cut short, and no chunk brings the ends of two requests, then
the client dispatches exactly the complete requests, each one once, with its pid and its bytes. -/
theorem complete_requests_dispatched (cfg : Config) (runs : List PierRun) (chunks : List Bytes)
    (pieces : ∀ data ∈ chunks, data ≠ []) (stream : chunks.flatten = writtenBytes runs)
    (headers : HeadersWhole 0 runs chunks) (apart : EndsApart 0 runs chunks) (last : NothingBehindCut runs) :
    dispatched cfg Statics.initial chunks =
      (runs.filter PierRun.complete).map fun run => run.request.expected cfg := by
  apply feed_runs cfg (sessionStart_idle rfl rfl) pieces (by simpa using stream) headers apart last
  intro before run after _ complete
  have real := List.length_pos_of_ne_nil (PierRun.complete_ne_nil complete)
  simp only [List.length_nil, writtenBytes_append, writtenBytes_cons, List.length_append]
  omega

theorem flatten_map_written (runs : List PierRun) :
    (runs.map PierRun.written).flatten = writtenBytes runs := by
  rw [writtenBytes, List.flatMap_def]

/-- A prefix of the chunks has at most as many bytes as a longer prefix. -/
theorem flatten_length_le {first second : List Bytes} (front : first <+: second) :
    first.flatten.length ≤ second.flatten.length :=
  front.sublist.flatten.length_le

/-- Chunks that bring one run each split no header block. -/
theorem headersWhole_map (runs : List PierRun) : HeadersWhole 0 runs (runs.map PierRun.written) := by
  rintro before run after front back rfl same
  have cut : front <+: (before ++ run :: after).map PierRun.written := ⟨back, same.symm⟩
  have here : before.map PierRun.written ++ [run.written] <+: (before ++ run :: after).map PierRun.written :=
    ⟨after.map PierRun.written, by simp⟩
  have header : run.headerLength ≤ run.written.length := min_le_right _ _
  rcases List.prefix_or_prefix_of_prefix cut here with inside | beyond
  · rcases List.prefix_concat_iff.mp inside with whole | earlier
    · rw [whole]
      simp only [List.flatten_append, flatten_map_written, List.flatten_cons, List.flatten_nil,
        List.append_nil, List.length_append]
      omega
    · have shorter := flatten_length_le earlier
      rw [flatten_map_written] at shorter
      omega
  · have longer := flatten_length_le beyond
    simp only [List.flatten_append, flatten_map_written, List.flatten_cons, List.flatten_nil,
      List.append_nil, List.length_append] at longer
    omega

theorem endsApart_map (runs : List PierRun) : EndsApart 0 runs (runs.map PierRun.written) := by
  rintro before first between second after front data back rfl - complete same
  have real := List.length_pos_of_ne_nil (PierRun.complete_ne_nil complete)
  have cut : front ++ [data] <+: (before ++ first :: (between ++ second :: after)).map PierRun.written :=
    ⟨back, by simp [same]⟩
  have here : before.map PierRun.written ++ [first.written] <+:
      (before ++ first :: (between ++ second :: after)).map PierRun.written :=
    ⟨(between ++ second :: after).map PierRun.written, by simp⟩
  rcases List.prefix_or_prefix_of_prefix cut here with inside | beyond
  · have shorter := flatten_length_le inside
    simp only [List.flatten_append, flatten_map_written, List.flatten_cons, List.flatten_nil,
      List.append_nil, List.length_append, writtenBytes_append, writtenBytes_cons, writtenBytes_nil] at shorter ⊢
    omega
  · rcases List.prefix_concat_iff.mp beyond with whole | earlier
    · have sizes := congrArg (fun chunks : List Bytes => chunks.flatten.length) whole
      simp only [List.flatten_append, flatten_map_written, List.flatten_cons, List.flatten_nil,
        List.append_nil, List.length_append, writtenBytes_append, writtenBytes_cons, writtenBytes_nil] at sizes ⊢
      omega
    · have longer := flatten_length_le earlier
      simp only [List.flatten_append, flatten_map_written, List.flatten_cons, List.flatten_nil,
        List.append_nil, List.length_append, writtenBytes_append, writtenBytes_cons, writtenBytes_nil] at longer ⊢
      omega

/-- This run wrote its whole request. -/
def wholeRun (r : Request) : PierRun := ⟨r, r.encode, List.prefix_refl _⟩

/-- This run wrote the first bytes of its request. -/
def cutRun (r : Request) (count : Nat) : PierRun := ⟨r, r.encode.take count, List.take_prefix _ _⟩

theorem complete_requests_dispatched_sample :
    dispatched sampleConfig Statics.initial [sampleRequest.encode, sampleRequest.encode.take 67] =
      ([wholeRun sampleRequest, cutRun sampleRequest 67].filter PierRun.complete).map fun run =>
        run.request.expected sampleConfig := by
  apply complete_requests_dispatched sampleConfig [wholeRun sampleRequest, cutRun sampleRequest 67]
    [sampleRequest.encode, sampleRequest.encode.take 67] (by decide) (by decide)
    (headersWhole_map [wholeRun sampleRequest, cutRun sampleRequest 67])
    (endsApart_map [wholeRun sampleRequest, cutRun sampleRequest 67])
  rintro before run after same - incomplete
  rcases before with _ | ⟨first, _ | ⟨second, before⟩⟩
  · obtain ⟨rfl, -⟩ := List.cons.inj same
    simp [wholeRun, PierRun.complete] at incomplete
  · simp only [List.cons_append, List.nil_append, List.cons.injEq] at same
    rw [← same.2.2]
    rfl
  · simp at same

/-- A complete request behind a body that was cut short is never dispatched. -/
theorem cut_request_corrupts_next : ∃ (cfg : Config) (runs : List PierRun) (chunks : List Bytes),
    (∀ data ∈ chunks, data ≠ []) ∧ chunks.flatten = writtenBytes runs ∧ HeadersWhole 0 runs chunks ∧
      ∃ run ∈ runs, run.complete = true ∧
        (dispatched cfg Statics.initial chunks).count (run.request.expected cfg) ≠ 1 :=
  ⟨sampleConfig, [cutRun sampleRequest 67, wholeRun bareRequest],
    [cutRun sampleRequest 67, wholeRun bareRequest].map PierRun.written, by decide, by decide,
    headersWhole_map _, wholeRun bareRequest, by simp, by decide, by decide +kernel⟩

end Piercloud.Client
