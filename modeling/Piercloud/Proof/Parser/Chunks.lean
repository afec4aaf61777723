import Piercloud.Proof.Parser.Messages

namespace Piercloud.Client

open CLib Wire

/-- The parser has seen a prefix of one request, which is still buffered or parsed up to its body. -/
def Partway (cfg : Config) (s : State) (r : Request) (seen : Bytes) : Prop :=
  Idle s seen ∨ ∃ pending, seen = r.headerBlock ++ pending ∧ Waiting cfg s r pending

/-- The header block of a request, as the parser finds it. -/
def requestHead (r : Request) : Head := printedHead (decimal r.pid) r.lines r.all_clean

theorem requestHead_announced (r : Request) : (requestHead r).announced = r.body.length := by
  rw [requestHead, printedHead_announced, Request.lines, List.foldl_cons, contentLength, if_neg r.noMark, r.announced]

theorem requestHead_pid (r : Request) : (requestHead r).pid = r.pid := by
  rw [requestHead, printedHead_pid, atoi_decimal r.pidFits]

theorem requestHead_bytes (r : Request) : (requestHead r).bytes = r.headerBlock := by
  rw [requestHead, printedHead_bytes, Request.headerBlock]

theorem requestHead_rendered (cfg : Config) (r : Request) :
    (requestHead r).rendered cfg = renderedHeader cfg r.lines := by
  rw [requestHead, printedHead_rendered]

/-- A request in the wire format is a message. -/
def requestMessage (r : Request) : Message := ⟨requestHead r, r.body, (requestHead_announced r).symm⟩

theorem Partway.reached {cfg : Config} {s : State} {r : Request} {seen : Bytes} (partway : Partway cfg s r seen) :
    Reached cfg s (requestHead r) [] seen := by
  rcases partway with ⟨inHeader, inData, holds, request⟩ |
    ⟨pending, rfl, ⟨inHeader, inData, pid, contentLen, holds, request⟩⟩
  · exact Or.inl ⟨inHeader, inData, holds, request⟩
  · refine Or.inr ⟨pending, by rw [requestHead_bytes], inHeader, inData, by rw [pid, requestHead_pid],
      by rw [contentLen, requestHead_announced], holds, by rwa [requestHead_rendered]⟩

/-- Pieces that bring nothing are none. -/
theorem pieces_eq_nil {chunks : List Bytes} (pieces : ∀ data ∈ chunks, data ≠ []) (nothing : chunks.flatten = []) :
    chunks = [] := by
  cases chunks with
  | nil => rfl
  | cons data chunks =>
      have empty := List.flatten_eq_nil_iff.mp nothing data (by simp)
      exact absurd empty (pieces data (by simp))

/-- The chunk that brings the last byte of a request dispatches exactly this request. -/
theorem chunk_completes (cfg : Config) {s : State} {r : Request} {seen data rest : Bytes}
    (partway : Partway cfg s r seen) (real : data ≠ []) (split : seen ++ data = r.encode ++ rest) :
    ∃ t, chunk cfg s data = some (t, some (r.expected cfg)) ∧ Idle t rest := by
  have positive : (0 : Int) < (requestHead r).pid := by
    rw [requestHead_pid]
    exact_mod_cast r.pidPositive
  have bytes : r.encode = (requestMessage r).bytes := by
    rw [Message.bytes, requestMessage, requestHead_bytes, Request.encode]
  obtain ⟨t, output, step, handed, -⟩ :=
    chunk_message cfg (requestMessage r) partway.reached real (bytes ▸ split)
  obtain ⟨rfl, between⟩ := handed positive
  refine ⟨t, ?_, between.inHeader, between.inData, between.buf, between.request⟩
  rw [step, Request.expected, Message.request, requestMessage, requestHead_pid, requestHead_rendered, List.nil_append]

/-- A chunk that ends inside the body of a request dispatches nothing. -/
theorem chunk_waits (cfg : Config) {s : State} {r : Request} {seen data more : Bytes}
    (partway : Partway cfg s r seen) (real : data ≠ []) (split : seen ++ data = r.headerBlock ++ more)
    (short : more.length < r.body.length) :
    ∃ t, chunk cfg s data = some (t, none) ∧ Waiting cfg t r more := by
  obtain ⟨t, step, body⟩ := chunk_inBody cfg partway.reached real (requestHead_bytes r ▸ split)
    (requestHead_announced r ▸ short)
  refine ⟨t, step, body.inHeader, body.inData, by rw [body.pid, requestHead_pid],
    by rw [body.contentLen, requestHead_announced], body.buf, ?_⟩
  rw [← requestHead_rendered]
  exact body.request

/-- A chunk that ends in front of the last byte of a request, but not inside its header block, dispatches nothing. -/
theorem chunk_stays (cfg : Config) {s : State} {r : Request} {seen data coming rest : Bytes}
    (partway : Partway cfg s r seen) (real : data ≠ []) (stream : seen ++ data ++ coming = r.encode ++ rest)
    (covers : r.headerBlock.length ≤ (seen ++ data).length) (short : (seen ++ data).length < r.encode.length) :
    ∃ t, chunk cfg s data = some (t, none) ∧ Partway cfg t r (seen ++ data) := by
  have header : seen ++ data ++ coming = r.headerBlock ++ (r.body ++ rest) := by
    rw [stream, Request.encode, List.append_assoc]
  obtain ⟨more, split, -⟩ := append_cut header covers
  have shorter : more.length < r.body.length := by
    rw [split, Request.encode] at short
    simp only [List.length_append] at short
    omega
  obtain ⟨t, step, waiting⟩ := chunk_waits cfg partway real split shorter
  exact ⟨t, step, Or.inr ⟨more, split, waiting⟩⟩

/-- An idle parser exits on a header block that is not complete. -/
theorem chunk_exits (cfg : Config) {s : State} {r : Request} {pending data : Bytes} (idle : Idle s pending)
    (real : data ≠ []) (front : pending ++ data <+: r.headerBlock) (cut : pending ++ data ≠ r.headerBlock) :
    chunk cfg s data = none := by
  have nonempty : data.isEmpty = false := by simpa using real
  have grown := increaseBuffer_holds idle.buf data
  have split : r.headerBlock = printLine (decimal r.pid) ++ (r.lines.flatMap printLine ++ [CR, LF]) := by
    simp [Request.headerBlock]
  rw [split] at front cut
  rcases prefix_line (decimal_clean r.pid).2.2.2 front with missing | ⟨q, same, later⟩
  · have stopped : startMessage s.statics (increaseBuffer s.buf data data.length) = none := by
      simp [startMessage, idle.inHeader, idle.inData, getLineBuffer_none grown missing]
    simp [chunk, nonempty, getConnectionRequest, stopped]
  · rw [same] at grown cut
    have clean := decimal_clean r.pid
    have raw : printLine (decimal r.pid) ++ q = (decimal r.pid ++ [CR]) ++ LF :: q := by simp [printLine]
    obtain ⟨buf', started, kept⟩ := startMessage_line idle.inHeader idle.inData
      (by simpa using ⟨clean.2.2.2, by decide⟩) (raw ▸ grown)
    rw [lineText_printed clean.2.1 clean.2.2.1, atoi_decimal r.pidFits] at started
    have reading : (⟨true, false, r.pid, 0⟩ : Statics).inHeader = true := rfl
    have stopped := headerLoop_incomplete cfg (buf'.len + 2) reading kept idle.request r.clean later
      fun whole => cut (whole ▸ rfl)
    simp [chunk, nonempty, getConnectionRequest, started, stopped]

end Piercloud.Client
