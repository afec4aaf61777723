import Piercloud.Proof.Parser.Chunks

namespace Piercloud.Client

open CLib Wire Runs

/-- A chunk for an idle parser completes a header block in the buffer. -/
def HeaderArrives (s : State) (data : Bytes) : Prop :=
  s.statics.inHeader = false → s.statics.inData = false → blankLine <:+: s.buf.bytes ++ data

/-- The buffered bytes and the coming bytes are whole requests, or the rest of a body and whole requests. -/
def OnStream (cfg : Config) (s : State) (coming : Bytes) : Prop :=
  (∃ (pending : Bytes) (later : List Request),
      Idle s pending ∧ pending ++ coming = later.flatMap Request.encode) ∨
    ∃ (r : Request) (pending : Bytes) (later : List Request), Waiting cfg s r pending ∧ pending.length < r.body.length ∧
      pending ++ coming = r.body ++ later.flatMap Request.encode

/-- A chunk either meets the condition and keeps the parser on the stream, or makes the client exit. -/
theorem chunk_onStream (cfg : Config) {s : State} {data coming : Bytes} (real : data ≠ [])
    (onStream : OnStream cfg s (data ++ coming)) :
    (HeaderArrives s data ∧ ∃ t output, chunk cfg s data = some (t, output) ∧ OnStream cfg t coming) ∨
      (¬ HeaderArrives s data ∧ chunk cfg s data = none) := by
  rcases onStream with ⟨pending, later, idle, stream⟩ | ⟨r, pending, later, waiting, short, stream⟩
  · cases later with
    | nil => simp [real] at stream
    | cons r later =>
        replace stream : pending ++ data ++ coming =
            r.headerBlock ++ (r.body ++ later.flatMap Request.encode) := by
          simpa [Request.encode] using stream
        have arrives : HeaderArrives s data ↔ blankLine <:+: pending ++ data := by
          simp [HeaderArrives, idle.inHeader, idle.inData, idle.buf.bytes_eq]
        rw [arrives, blankLine_iff r ⟨coming, stream⟩]
        by_cases whole : r.headerBlock <+: pending ++ data
        · left
          refine ⟨whole, ?_⟩
          obtain ⟨more, split, behind⟩ := append_cut stream whole.length_le
          by_cases within : r.body.length ≤ more.length
          · obtain ⟨q, rfl, tail⟩ := append_cut behind within
            have complete : pending ++ data = r.encode ++ q := by simp [split, Request.encode]
            obtain ⟨t, step, next⟩ := chunk_completes cfg (Or.inl idle) real complete
            exact ⟨t, _, step, Or.inl ⟨q, later, next, tail⟩⟩
          · obtain ⟨t, step, next⟩ := chunk_waits cfg (Or.inl idle) real split (by omega)
            exact ⟨t, _, step, Or.inr ⟨r, more, later, next, by omega, behind⟩⟩
        · right
          refine ⟨whole, ?_⟩
          rcases List.prefix_or_prefix_of_prefix ⟨coming, stream⟩ (List.prefix_append _ _) with inside | beyond
          · exact chunk_exits cfg idle real inside fun same => whole (same ▸ List.prefix_refl _)
          · exact absurd beyond whole
  · left
    refine ⟨fun _ idle => absurd idle (by simp [waiting.inData]), ?_⟩
    rw [← List.append_assoc] at stream
    have partway : Partway cfg s r (r.headerBlock ++ pending) := Or.inr ⟨pending, rfl, waiting⟩
    by_cases within : r.body.length ≤ (pending ++ data).length
    · obtain ⟨q, split, tail⟩ := append_cut stream within
      have complete : r.headerBlock ++ pending ++ data = r.encode ++ q := by
        rw [List.append_assoc, split, Request.encode, List.append_assoc]
      obtain ⟨t, step, next⟩ := chunk_completes cfg partway real complete
      exact ⟨t, _, step, Or.inl ⟨q, later, next, tail⟩⟩
    · have split : r.headerBlock ++ pending ++ data = r.headerBlock ++ (pending ++ data) := by simp
      obtain ⟨t, step, next⟩ := chunk_waits cfg partway real split (by omega)
      exact ⟨t, _, step, Or.inr ⟨r, pending ++ data, later, next, by omega, stream⟩⟩

theorem onStream_survives_iff (cfg : Config) {s : State} {chunks : List Bytes}
    (pieces : ∀ data ∈ chunks, data ≠ []) (onStream : OnStream cfg s chunks.flatten) :
    (run (silent (chunk cfg)) s chunks).isSome ↔ Along (silent (chunk cfg)) HeaderArrives s chunks := by
  induction chunks generalizing s with
  | nil => simp
  | cons data chunks ih =>
      rw [List.flatten_cons] at onStream
      rcases chunk_onStream cfg (pieces data (by simp)) onStream with
        ⟨arrives, t, output, step, next⟩ | ⟨missing, stopped⟩
      · have quiet : silent (chunk cfg) s data = some t := by simp [silent, step]
        rw [along_cons quiet, run_cons, quiet, Option.bind_some,
          ih (fun other member => pieces other (by simp [member])) next]
        simp [arrives]
      · have quiet : silent (chunk cfg) s data = none := by simp [silent, stopped]
        rw [along_cons_stopped quiet, run_cons, quiet]
        simpa using missing

/-- On a stream of whole requests the client never exits exactly when every chunk that meets an idle parser
completes a header block. -/
theorem client_survives_iff (cfg : Config) (requests : List Request) (chunks : List Bytes)
    (pieces : ∀ data ∈ chunks, data ≠ []) (split : chunks.flatten = requests.flatMap Request.encode) :
    (run (silent (chunk cfg)) (sessionStart Statics.initial) chunks).isSome ↔
      Along (silent (chunk cfg)) HeaderArrives (sessionStart Statics.initial) chunks :=
  onStream_survives_iff cfg pieces
    (Or.inl ⟨[], requests, sessionStart_idle rfl rfl, by simpa using split⟩)

/-- A small request in the wire format, with a header in each of the two classes. -/
def sampleRequest : Request where
  pid := 12
  requestLine := text "POST /x HTTP/1.1"
  headers := [text "Host: 7.piercloud.com", text "Content-length: 3"]
  body := text "abc"
  pidPositive := by decide
  pidFits := by decide
  clean := by simp only [Clean]; decide
  noMark := by decide
  announced := by decide

/-- The encoder's results for the credentials of this client are known. -/
def sampleConfig : Config := ⟨text "7", text "a", text "b", fun _ => text "YTpi"⟩

theorem client_survives_iff_sample :
    (run (silent (chunk sampleConfig)) (sessionStart Statics.initial)
        [sampleRequest.encode.take 67, sampleRequest.encode.drop 67]).isSome ↔
      Along (silent (chunk sampleConfig)) HeaderArrives (sessionStart Statics.initial)
        [sampleRequest.encode.take 67, sampleRequest.encode.drop 67] :=
  client_survives_iff sampleConfig [sampleRequest] _ (by decide) (by decide)

/-- A chunk boundary inside the header block makes the client exit. -/
theorem client_exits_in_header : ∃ (cfg : Config) (requests : List Request) (chunks : List Bytes),
    (∀ data ∈ chunks, data ≠ []) ∧ chunks.flatten = requests.flatMap Request.encode ∧
      run (silent (chunk cfg)) (sessionStart Statics.initial) chunks = none :=
  ⟨sampleConfig, [sampleRequest], [sampleRequest.encode.take 20, sampleRequest.encode.drop 20],
    by decide, by decide, by decide⟩

end Piercloud.Client
