import Piercloud.Proof.Parser.Survival
import Piercloud.Proof.Tunnel.Encoding

namespace Piercloud.Client

open CLib Wire Runs Replace

/-- The pieces of a body dispatch the request on the last of them and nothing before. -/
theorem feed_waiting (cfg : Config) {s : State} {r : Request} {pending : Bytes} {chunks : List Bytes}
    (waiting : Waiting cfg s r pending) (short : pending.length < r.body.length)
    (pieces : ∀ data ∈ chunks, data ≠ []) (whole : pending ++ chunks.flatten = r.body) :
    ∃ t, feed (chunk cfg) s chunks =
        (List.replicate (chunks.length - 1) none ++ [some (r.expected cfg)], some t) ∧ Idle t [] := by
  induction chunks generalizing s pending with
  | nil =>
      rw [List.flatten_nil, List.append_nil] at whole
      exact absurd short (by simp [whole])
  | cons data chunks ih =>
      have real := pieces data (by simp)
      have partway : Partway cfg s r (r.headerBlock ++ pending) := Or.inr ⟨pending, rfl, waiting⟩
      cases chunks with
      | nil =>
          have complete : r.headerBlock ++ pending ++ data = r.encode ++ [] := by
            simpa [Request.encode] using whole
          obtain ⟨t, step, idle⟩ := chunk_completes cfg partway real complete
          exact ⟨t, feed_cons step [], idle⟩
      | cons next chunks =>
          have rest : pending ++ data ++ (next :: chunks).flatten = r.body := by simpa using whole
          have longer : 0 < (next :: chunks).flatten.length := by
            have piece := List.length_pos_of_ne_nil (pieces next (by simp))
            simp only [List.flatten_cons, List.length_append]
            omega
          have shorter : (pending ++ data).length < r.body.length := by
            have sizes := congrArg List.length rest
            rw [List.length_append] at sizes
            omega
          obtain ⟨t, step, later⟩ := chunk_waits cfg partway real (List.append_assoc _ _ _) shorter
          obtain ⟨u, fed, idle⟩ := ih later shorter (fun other member => pieces other (by simp [member])) rest
          refine ⟨u, ?_, idle⟩
          rw [feed_cons step, fed]
          simp [List.replicate_succ]

/-- A request whose header block comes in its first chunk is dispatched on its last chunk and not before. -/
theorem feed_request (cfg : Config) {s : State} {r : Request} {first : Bytes} {more : List Bytes}
    (idle : Idle s []) (header : r.headerBlock <+: first) (pieces : ∀ data ∈ more, data ≠ [])
    (whole : (first :: more).flatten = r.encode) :
    ∃ t, feed (chunk cfg) s (first :: more) =
        (List.replicate more.length none ++ [some (r.expected cfg)], some t) ∧ Idle t [] := by
  obtain ⟨front, rfl⟩ := header
  have real : r.headerBlock ++ front ≠ [] := by simp [Request.headerBlock]
  have behind : front ++ more.flatten = r.body := by
    simpa [Request.encode] using whole
  by_cases short : front.length < r.body.length
  · obtain ⟨t, step, waiting⟩ := chunk_waits cfg (Or.inl idle) real (List.nil_append _) short
    obtain ⟨u, fed, later⟩ := feed_waiting cfg waiting short pieces behind
    refine ⟨u, ?_, later⟩
    obtain ⟨data, rest, rfl⟩ : ∃ data rest, more = data :: rest := by
      cases more with
      | nil => exact absurd short (by simp [← behind])
      | cons data rest => exact ⟨data, rest, rfl⟩
    rw [feed_cons step, fed]
    simp [List.replicate_succ]
  · have all : more.flatten = [] := by
      have sizes := congrArg List.length behind
      rw [List.length_append] at sizes
      exact List.eq_nil_of_length_eq_zero (by omega)
    have single : more = [] := pieces_eq_nil pieces all
    have complete : [] ++ (r.headerBlock ++ front) = r.encode ++ [] := by
      simp [Request.encode, ← behind, all]
    obtain ⟨t, step, later⟩ := chunk_completes cfg (Or.inl idle) real complete
    exact ⟨t, by rw [single]; exact feed_cons step [], later⟩

/-- In every line the host text is replaced wherever it stands. -/
theorem renderedHeader_eq (cfg : Config) (lines : List Bytes) : renderedHeader cfg lines =
    lines.flatMap (fun line => replaceAll (hostLine cfg) (localHostLines cfg) line ++ [LF]) ++ [LF] := by
  simp only [renderedHeader, rewriteHost_eq]

/-- The client dispatches the request that the server wrote: its pid, its request line and its header lines
with the host text replaced, an empty line and its body. -/
theorem encoder_decoder_agree (cfg : Config) (r : Cgi.CgiRequest) (s : State) (idle : Idle s [])
    (first : Bytes) (more : List Bytes) (header : Cgi.pierHeader r.input <+: first)
    (pieces : ∀ data ∈ more, data ≠ []) (whole : (first :: more).flatten = Cgi.pierBytes r.input) :
    ∃ t, feed (chunk cfg) s (first :: more) = (List.replicate more.length none ++
        [some ⟨r.input.pid, (r.requestLine :: r.headers).flatMap (fun line =>
          replaceAll (hostLine cfg) (localHostLines cfg) line ++ [LF]) ++ [LF] ++ r.input.stdin⟩], some t) ∧
      Idle t [] := by
  rw [← renderedHeader_eq]
  exact feed_request cfg idle (r.pierHeader_wire ▸ header) pieces (whole.trans r.pierBytes_wire)

/-- The two variables of this request give one header line each. -/
def sampleCgiRequest : Cgi.CgiRequest where
  input := ⟨12, [text "REQUEST_METHOD=POST", text "REQUEST_URI=/x", text "SERVER_PROTOCOL=HTTP/1.1",
    text "HTTP_HOST=7.piercloud.com", text "CONTENT_LENGTH=3"], [97, LF, 0]⟩
  method := text "POST"
  uri := text "/x"
  protocol := text "HTTP/1.1"
  http := [⟨text "HOST", text "7.piercloud.com", by decide, by decide +kernel, by simp only [Cgi.Plain]; decide⟩]
  content := [⟨text "LENGTH", text "3", by decide, by decide +kernel, by simp only [Cgi.Plain]; decide⟩]
  pidPositive := by decide
  pidFits := by decide
  requestMethod := by decide
  requestUri := by decide
  serverProtocol := by decide
  httpVariables := by decide
  contentVariables := by decide
  methodWord := by decide +kernel
  uriPlain := by simp only [Cgi.Plain]; decide
  protocolPlain := by simp only [Cgi.Plain]; decide
  bodyFits := by decide
  announced := by decide

theorem encoder_decoder_agree_sample : ∃ t, feed (chunk sampleConfig) (sessionStart Statics.initial)
      [Cgi.pierHeader sampleCgiRequest.input ++ [97], [LF, 0]] = (List.replicate 1 none ++
        [some ⟨12, (sampleCgiRequest.requestLine :: sampleCgiRequest.headers).flatMap (fun line =>
          replaceAll (hostLine sampleConfig) (localHostLines sampleConfig) line ++ [LF]) ++ [LF] ++ [97, LF, 0]⟩],
          some t) ∧ Idle t [] :=
  encoder_decoder_agree sampleConfig sampleCgiRequest (sessionStart Statics.initial)
    (sessionStart_idle rfl rfl) _ [[LF, 0]] (List.prefix_append _ _) (by decide) (by decide)

end Piercloud.Client
