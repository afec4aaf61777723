import Piercloud.Proof.Parser.Sessions

/-
This file follows the requests that a session has not dispatched yet, however the stream is cut into chunks.
-/

namespace Piercloud.Client

open CLib Wire Runs

/-- The bytes in the buffer and the coming ones are these requests. The header block of the first one may have been
parsed. -/
def Ahead (cfg : Config) (s : State) (requests : List Request) (coming : Bytes) : Prop :=
  (∃ pending, Idle s pending ∧ pending ++ coming = requests.flatMap Request.encode) ∨
    ∃ r later pending, requests = r :: later ∧ Waiting cfg s r pending ∧ pending.length < r.body.length ∧
      pending ++ coming = r.body ++ later.flatMap Request.encode

/-- A request that is behind its last byte has been dispatched, and one that is not whole waits. -/
theorem Partway.takes (cfg : Config) {s : State} {r : Request} {later : List Request} {seen data coming : Bytes}
    (partway : Partway cfg s r seen) (real : data ≠ [])
    (stream : seen ++ data ++ coming = r.encode ++ later.flatMap Request.encode)
    (covers : r.headerBlock.length ≤ (seen ++ data).length) :
    (∃ t, chunk cfg s data = some (t, none) ∧ Ahead cfg t (r :: later) coming) ∨
      ∃ t, chunk cfg s data = some (t, some (r.expected cfg)) ∧ Ahead cfg t later coming := by
  by_cases complete : r.encode.length ≤ (seen ++ data).length
  · obtain ⟨more, split, rest⟩ := append_cut stream complete
    obtain ⟨t, step, idle⟩ := chunk_completes cfg partway real split
    exact Or.inr ⟨t, step, Or.inl ⟨more, idle, rest⟩⟩
  · have header : seen ++ data ++ coming = r.headerBlock ++ (r.body ++ later.flatMap Request.encode) := by
      rw [stream, Request.encode, List.append_assoc]
    obtain ⟨more, split, rest⟩ := append_cut header covers
    have short : more.length < r.body.length := by
      rw [split, Request.encode] at complete
      simp only [List.length_append] at complete
      omega
    obtain ⟨t, step, waiting⟩ := chunk_waits cfg partway real split short
    exact Or.inl ⟨t, step, Or.inr ⟨r, later, more, rfl, waiting, short, rest⟩⟩

/-- A chunk makes the client exit, or dispatches the first of the requests, or none. -/
theorem Ahead.takes (cfg : Config) {s : State} {requests : List Request} {data coming : Bytes}
    (ahead : Ahead cfg s requests (data ++ coming)) (real : data ≠ []) :
    chunk cfg s data = none ∨ (∃ t, chunk cfg s data = some (t, none) ∧ Ahead cfg t requests coming) ∨
      ∃ r later t, requests = r :: later ∧ chunk cfg s data = some (t, some (r.expected cfg)) ∧
        Ahead cfg t later coming := by
  rcases ahead with ⟨pending, idle, stream⟩ | ⟨r, later, pending, rfl, waiting, short, stream⟩
  · cases requests with
    | nil => simp [real] at stream
    | cons r later =>
        rw [← List.append_assoc, List.flatMap_cons] at stream
        by_cases covers : r.headerBlock.length ≤ (pending ++ data).length
        · right
          have partway : Partway cfg s r pending := Or.inl idle
          exact (partway.takes cfg real stream covers).imp_right
            fun ⟨t, step, next⟩ => ⟨r, later, t, rfl, step, next⟩
        · left
          have front : pending ++ data <+: r.headerBlock := by
            have block : pending ++ data <+: r.headerBlock ++ (r.body ++ later.flatMap Request.encode) :=
              ⟨coming, by rw [stream, Request.encode, List.append_assoc]⟩
            exact List.prefix_of_prefix_length_le block (List.prefix_append _ _) (not_le.mp covers).le
          exact chunk_exits cfg idle real front fun same => covers (same ▸ le_rfl)
  · right
    have partway : Partway cfg s r (r.headerBlock ++ pending) := Or.inr ⟨pending, rfl, waiting⟩
    have stream' : r.headerBlock ++ pending ++ data ++ coming = r.encode ++ later.flatMap Request.encode := by
      simp only [Request.encode, List.append_assoc, ← stream]
    exact (partway.takes cfg real stream' (by simp only [List.length_append]; omega)).imp_right
      fun ⟨t, step, next⟩ => ⟨r, later, t, rfl, step, next⟩

/-- The coming bytes belong to the requests that are ahead. -/
theorem Ahead.length_le {cfg : Config} {s : State} {requests : List Request} {coming : Bytes}
    (ahead : Ahead cfg s requests coming) : coming.length ≤ (requests.flatMap Request.encode).length := by
  rcases ahead with ⟨pending, -, stream⟩ | ⟨r, later, pending, rfl, -, -, stream⟩
  · have all := congrArg List.length stream
    simp only [List.length_append] at all
    omega
  · have all := congrArg List.length stream
    simp only [List.flatMap_cons, Request.encode, List.length_append] at all ⊢
    omega

/-- A session dispatches the first of the requests in order, each as expected, and the others are still ahead. -/
theorem Ahead.feeds (cfg : Config) {s : State} {requests : List Request} {chunks : List Bytes} {coming : Bytes}
    (ahead : Ahead cfg s requests (chunks.flatten ++ coming)) (pieces : ∀ data ∈ chunks, data ≠ []) :
    ∃ done later, requests = done ++ later ∧
      (feed (chunk cfg) s chunks).1.reduceOption = done.map (Request.expected cfg) ∧
      coming.length ≤ (later.flatMap Request.encode).length ∧
      ∀ t, (feed (chunk cfg) s chunks).2 = some t → Ahead cfg t later coming := by
  induction chunks generalizing s requests with
  | nil =>
      refine ⟨[], requests, rfl, rfl, ahead.length_le, fun t same => ?_⟩
      obtain rfl := Option.some.inj same
      exact ahead
  | cons data chunks ih =>
      have pieces' : ∀ other ∈ chunks, other ≠ [] := fun other member => pieces other (by simp [member])
      rw [List.flatten_cons, List.append_assoc] at ahead
      rcases ahead.takes cfg (pieces data (by simp)) with
        stopped | ⟨t, step, next⟩ | ⟨r, later, t, rfl, step, next⟩
      · rw [feed_cons_stopped stopped]
        have bytes := ahead.length_le
        simp only [List.length_append] at bytes
        exact ⟨[], requests, rfl, rfl, by omega, fun t same => nomatch same⟩
      · obtain ⟨done, rest, split, outputs, last⟩ := ih next pieces'
        rw [feed_cons step]
        exact ⟨done, rest, split, by rw [List.reduceOption_cons_of_none, outputs], last⟩
      · obtain ⟨done, rest, rfl, outputs, last⟩ := ih next pieces'
        rw [feed_cons step]
        exact ⟨r :: done, rest, rfl, by rw [List.reduceOption_cons_of_some, outputs, List.map_cons], last⟩

/-- In a new session all the requests of the stream are ahead. -/
theorem sessionStart_ahead (cfg : Config) {statics : Statics}
    (clear : statics.inHeader = false ∧ statics.inData = false) (requests : List Request) :
    Ahead cfg (sessionStart statics) requests (requests.flatMap Request.encode) :=
  Or.inl ⟨[], sessionStart_idle clear.1 clear.2, rfl⟩

/-- With an empty buffer and nothing coming no request is ahead. -/
theorem Ahead.drained {cfg : Config} {s : State} {requests : List Request} (ahead : Ahead cfg s requests [])
    (empty : s.buf.len = 0) (idle : s.statics.inData = false) : requests = [] := by
  rcases ahead with ⟨pending, holds, stream⟩ | ⟨r, later, pending, -, waiting, -, -⟩
  · have nothing : pending = [] := List.eq_nil_of_length_eq_zero (holds.buf.1.symm.trans empty)
    rw [nothing, List.append_nil, eq_comm, List.flatMap_eq_nil_iff] at stream
    cases requests with
    | nil => rfl
    | cons r later => exact absurd (stream r (by simp)) r.encode_ne_nil
  · exact absurd waiting.inData (by simp [idle])

end Piercloud.Client
