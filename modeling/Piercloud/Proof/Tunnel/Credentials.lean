import Mathlib.Data.List.ReduceOption
import Piercloud.Proof.Tunnel.Agreement

/-
This file reads the header lines back from a dispatched request, and tells when the credentials stand in them
exactly once.
-/

namespace Piercloud.Client

open CLib Liblst Wire Runs

/-- This is the whole line that the client adds. -/
def authorizationLine (cfg : Config) : Bytes :=
  text "Authorization: Basic " ++ cfg.aBase64Encode (cstr cfg.gLogin ++ text ":" ++ cstr cfg.gPasswd)

/-- These are the lines that one line is rewritten to. -/
def rewrittenLines (cfg : Config) (line : Bytes) : List Bytes := (rewriteHost cfg line).splitOn LF

section Rewritten

variable {cfg : Config} (base64 : ∀ bytes, NUL ∉ cfg.aBase64Encode bytes ∧ LF ∉ cfg.aBase64Encode bytes)

include base64

theorem localHostLines_eq :
    localHostLines cfg = text "Host: localhost" ++ LF :: authorizationLine cfg := by
  rw [localHostLines, ptBasicRow, cstr_eq_self (base64 _).1, authorizationLine]
  simp

theorem authorizationLine_absent : LF ∉ authorizationLine cfg := by
  have mark : LF ∉ text "Authorization: Basic " := by decide
  simpa [authorizationLine] using ⟨mark, (base64 _).2⟩

/-- The text in front of the first match ends a line, and the credentials start the next one. -/
theorem rewriteHost_found {line : Bytes} (inside : hostLine cfg <:+: line) :
    ∃ front rest, line = front ++ hostLine cfg ++ rest ∧
      rewriteHost cfg line =
        (front ++ text "Host: localhost") ++ LF :: (authorizationLine cfg ++ rewriteHost cfg rest) := by
  obtain ⟨front, rest, split, rewritten⟩ := rewriteHost_inside inside
  exact ⟨front, rest, split, by simp [rewritten, localHostLines_eq base64]⟩

/-- No rewritten line is empty, so none of them ends the header block. -/
theorem rewriteHost_pieces {front line : Bytes} (frontAbsent : LF ∉ front) (absent : LF ∉ line)
    (real : front ++ line ≠ []) : ∀ piece ∈ (front ++ rewriteHost cfg line).splitOn LF, piece ≠ [] := by
  induction h : line.length using Nat.strong_induction_on generalizing front line with
  | _ n ih =>
      by_cases inside : hostLine cfg <:+: line
      · obtain ⟨before, rest, split, rewritten⟩ := rewriteHost_found base64 inside
        have shorter : rest.length < n := by
          have positive : 0 < (hostLine cfg).length := by simp [hostLine, text]
          rw [← h, split]
          simp only [List.length_append]
          omega
        rw [split] at absent
        simp only [List.mem_append, not_or] at absent
        have whole : LF ∉ front ++ (before ++ text "Host: localhost") := by
          simpa using ⟨frontAbsent, absent.1.1, by decide⟩
        rw [rewritten, ← List.append_assoc, List.splitOn_append_cons_self_of_not_mem whole]
        rintro piece (_ | ⟨_, member⟩)
        · simp [text]
        · exact ih rest.length shorter (authorizationLine_absent base64) absent.2 (by simp [authorizationLine, text])
            rfl piece member
      · have whole : LF ∉ front ++ line := by simpa using ⟨frontAbsent, absent⟩
        rw [rewriteHost_absent inside, List.splitOn_eq_singleton whole]
        simpa using real

/-- The lines of a dispatched request are those that its header lines are rewritten to, in order. -/
theorem headerLines_rendered {lines : List Bytes} (clean : ∀ line ∈ lines, Clean line) (body : Bytes) :
    headerLines (renderedHeader cfg lines ++ body) = lines.flatMap (rewrittenLines cfg) := by
  induction lines with
  | nil =>
      have blank : renderedHeader cfg [] ++ body = [] ++ LF :: body := rfl
      rw [headerLines, blank, List.splitOn_append_cons_self_of_not_mem (by simp)]
      simp
  | cons line lines ih =>
      obtain ⟨real, -, -, absent⟩ := clean line (by simp)
      have pieces := rewriteHost_pieces base64 (by simp : LF ∉ ([] : Bytes)) absent (by simpa using real)
      have split : renderedHeader cfg (line :: lines) ++ body =
          rewriteHost cfg line ++ LF :: (renderedHeader cfg lines ++ body) := by
        simp [renderedHeader]
      rw [headerLines, split, List.splitOn_append_cons_self, List.takeWhile_append_of_pos, ← headerLines,
        ih fun other member => clean other (by simp [member])]
      · rfl
      · intro piece member
        simpa using pieces piece member

/-- A line is rewritten to itself or to at least two lines. -/
theorem rewrittenLines_cases {line : Bytes} (absent : LF ∉ line) :
    (¬ hostLine cfg <:+: line ∧ rewrittenLines cfg line = [line]) ∨
      hostLine cfg <:+: line ∧ 2 ≤ (rewrittenLines cfg line).length := by
  by_cases inside : hostLine cfg <:+: line
  · right
    obtain ⟨front, rest, split, rewritten⟩ := rewriteHost_found base64 inside
    rw [rewrittenLines, rewritten, List.splitOn_append_cons_self]
    have first := List.length_pos_of_ne_nil (List.splitOn_ne_nil LF (front ++ text "Host: localhost"))
    have second := List.length_pos_of_ne_nil
      (List.splitOn_ne_nil LF (authorizationLine cfg ++ rewriteHost cfg rest))
    rw [List.length_append]
    exact ⟨inside, by omega⟩
  · left
    rw [rewrittenLines, rewriteHost_absent inside, List.splitOn_eq_singleton absent]
    exact ⟨inside, rfl⟩

/-- Rewriting keeps the number of lines exactly when it changes none of them. -/
theorem rewrittenLines_count {lines : List Bytes} (absent : ∀ line ∈ lines, LF ∉ line) :
    lines.length ≤ (lines.flatMap (rewrittenLines cfg)).length ∧
      ((lines.flatMap (rewrittenLines cfg)).length ≤ lines.length →
        (∀ line ∈ lines, ¬ hostLine cfg <:+: line) ∧ lines.flatMap (rewrittenLines cfg) = lines) := by
  induction lines with
  | nil => simp
  | cons line lines ih =>
      obtain ⟨grows, exactly⟩ := ih fun other member => absent other (by simp [member])
      rw [List.flatMap_cons, List.length_append, List.length_cons]
      rcases rewrittenLines_cases base64 (absent line (by simp)) with ⟨missing, same⟩ | ⟨inside, two⟩
      · rw [same, List.length_singleton]
        refine ⟨by omega, fun few => ?_⟩
        obtain ⟨others, kept⟩ := exactly (by omega)
        exact ⟨by simpa [missing] using others, by simp [kept]⟩
      · exact ⟨by omega, fun few => by omega⟩

/-- Whatever stands behind the host text stays behind the credentials. -/
theorem rewrittenLines_host (port : Bytes) : rewrittenLines cfg (hostLine cfg ++ port) =
    text "Host: localhost" :: (authorizationLine cfg ++ rewriteHost cfg port).splitOn LF := by
  have real : hostLine cfg ≠ [] := by simp [hostLine, text]
  have found : strstr (hostLine cfg ++ port) (hostLine cfg) = some 0 :=
    (strstr_zero_iff _ _).mpr (List.prefix_append _ _)
  have replaced : rewriteHost cfg (hostLine cfg ++ port) =
      text "Host: localhost" ++ LF :: (authorizationLine cfg ++ rewriteHost cfg port) := by
    rw [rewriteHost, replaceStrFormat, ptReplaceStr_found (localHostLines cfg) real found]
    simp [rewriteHost, replaceStrFormat, localHostLines_eq base64]
  rw [rewrittenLines, replaced, List.splitOn_append_cons_self_of_not_mem (by decide)]

theorem rewrittenLines_host_iff (port : Bytes) : rewrittenLines cfg (hostLine cfg ++ port) =
    [text "Host: localhost", authorizationLine cfg] ↔ port = [] := by
  have absent := authorizationLine_absent base64
  rw [rewrittenLines_host base64, List.cons.injEq, ← rewriteHost_eq_nil_iff cfg port]
  constructor
  · rintro ⟨-, same⟩
    have joined := congrArg (List.intercalate [LF]) same
    rw [List.intercalate_splitOn] at joined
    simpa using joined
  · intro nothing
    rw [nothing, List.append_nil, List.splitOn_eq_singleton absent]
    exact ⟨rfl, rfl⟩

/-- The rewritten lines are the wanted ones exactly when only the host line is rewritten, and it ends there. -/
theorem rewrittenLines_wanted_iff {front back : List Bytes} (port : Bytes) (frontAbsent : ∀ line ∈ front, LF ∉ line)
    (backAbsent : ∀ line ∈ back, LF ∉ line) :
    (front ++ (hostLine cfg ++ port) :: back).flatMap (rewrittenLines cfg) =
        front ++ text "Host: localhost" :: authorizationLine cfg :: back ↔
      port = [] ∧ ∀ line ∈ front ++ back, ¬ hostLine cfg <:+: line := by
  obtain ⟨frontGrows, frontExactly⟩ := rewrittenLines_count base64 frontAbsent
  obtain ⟨backGrows, backExactly⟩ := rewrittenLines_count base64 backAbsent
  have kept : ∀ {lines : List Bytes}, (∀ line ∈ lines, LF ∉ line) → (∀ line ∈ lines, ¬ hostLine cfg <:+: line) →
      lines.flatMap (rewrittenLines cfg) = lines := by
    intro lines absent others
    calc lines.flatMap (rewrittenLines cfg) = lines.flatMap fun line => [line] :=
          List.flatMap_congr fun line member => by
            rw [rewrittenLines, rewriteHost_absent (others line member),
              List.splitOn_eq_singleton (absent line member)]
      _ = lines := by simp
  rw [List.flatMap_append, List.flatMap_cons]
  constructor
  · intro same
    have two : 2 ≤ (rewrittenLines cfg (hostLine cfg ++ port)).length := by
      rw [rewrittenLines_host base64, List.length_cons]
      have some := List.length_pos_of_ne_nil
        (List.splitOn_ne_nil LF (authorizationLine cfg ++ rewriteHost cfg port))
      omega
    have sizes := congrArg List.length same
    simp only [List.length_append, List.length_cons] at sizes
    obtain ⟨frontOthers, frontKept⟩ := frontExactly (by omega)
    obtain ⟨backOthers, backKept⟩ := backExactly (by omega)
    rw [frontKept, backKept, List.append_cancel_left_eq] at same
    have host : rewrittenLines cfg (hostLine cfg ++ port) = [text "Host: localhost", authorizationLine cfg] :=
      List.append_cancel_right (same.trans (by simp : _ = [text "Host: localhost", authorizationLine cfg] ++ back))
    refine ⟨(rewrittenLines_host_iff base64 port).mp host, fun line member => ?_⟩
    exact (List.mem_append.mp member).elim (frontOthers line) (backOthers line)
  · rintro ⟨noPort, others⟩
    rw [(rewrittenLines_host_iff base64 port).mpr noPort,
      kept frontAbsent fun line member => others line (List.mem_append_left back member),
      kept backAbsent fun line member => others line (List.mem_append_right front member)]
    rfl

end Rewritten

/-- The request has the credentials once, behind the local host line, and every other line as it came. -/
structure CredentialsOnce (cfg : Config) (front back : List Bytes) (request : Bytes) : Prop where
  lines : headerLines request = front ++ text "Host: localhost" :: authorizationLine cfg :: back
  once : (headerLines request).filter (text "Authorization: ").isPrefixOf = [authorizationLine cfg]

/-- The credentials stand in the dispatched request once and only behind the host line, exactly when the host line
has no port and no other line holds the host text. -/
theorem credentials_once_iff (cfg : Config) (r : Request) (front back : List Bytes) (port : Bytes)
    (base64 : ∀ bytes, NUL ∉ cfg.aBase64Encode bytes ∧ LF ∉ cfg.aBase64Encode bytes)
    (hosted : r.headers = front ++ (hostLine cfg ++ port) :: back)
    (unnamed : ∀ line ∈ r.lines, ¬ text "Authorization: " <+: line) (s : State) (idle : Idle s [])
    (first : Bytes) (more : List Bytes) (header : r.headerBlock <+: first) (pieces : ∀ data ∈ more, data ≠ [])
    (whole : (first :: more).flatten = r.encode) :
    (∃ request, (feed (chunk cfg) s (first :: more)).1.reduceOption = [⟨r.pid, request⟩] ∧
        CredentialsOnce cfg (r.requestLine :: front) back request) ↔
      port = [] ∧ ∀ line ∈ r.requestLine :: front ++ back, ¬ hostLine cfg <:+: line := by
  obtain ⟨t, fed, -⟩ := feed_request cfg idle header pieces whole
  have outputs : (feed (chunk cfg) s (first :: more)).1.reduceOption = [r.expected cfg] := by
    rw [fed, List.reduceOption_append, List.reduceOption_replicate_none]
    rfl
  have all : r.lines = (r.requestLine :: front) ++ (hostLine cfg ++ port) :: back := by
    rw [Request.lines, hosted, List.cons_append]
  have lines : headerLines (r.expected cfg).request =
      ((r.requestLine :: front) ++ (hostLine cfg ++ port) :: back).flatMap (rewrittenLines cfg) := by
    rw [← all]
    exact headerLines_rendered base64 r.clean r.body
  have absent : ∀ line ∈ (r.requestLine :: front) ++ (hostLine cfg ++ port) :: back, LF ∉ line :=
    fun line member => (r.clean line (all.symm ▸ member : line ∈ r.lines)).2.2.2
  rw [outputs, ← rewrittenLines_wanted_iff base64 port (fun line member => absent line (List.mem_append_left _ member))
    fun line member => absent line (List.mem_append_right _ (List.mem_cons_of_mem _ member)), ← lines]
  constructor
  · rintro ⟨request, same, once⟩
    obtain rfl : (r.expected cfg).request = request := by rw [List.cons.inj same |>.1]
    exact once.lines
  · intro wanted
    refine ⟨(r.expected cfg).request, rfl, wanted, ?_⟩
    have others : ∀ line ∈ (r.requestLine :: front) ++ back, (text "Authorization: ").isPrefixOf line = false := by
      intro line member
      rw [Bool.eq_false_iff, Ne, List.isPrefixOf_iff_prefix]
      apply unnamed line
      rw [all]
      simp only [List.mem_append, List.mem_cons] at member ⊢
      tauto
    have frontOthers : (r.requestLine :: front).filter (text "Authorization: ").isPrefixOf = [] :=
      List.filter_eq_nil_iff.mpr fun line member => by simp [others line (List.mem_append_left _ member)]
    have backOthers : back.filter (text "Authorization: ").isPrefixOf = [] :=
      List.filter_eq_nil_iff.mpr fun line member => by simp [others line (List.mem_append_right _ member)]
    have host : (text "Authorization: ").isPrefixOf (text "Host: localhost") = false := by decide
    have own : (text "Authorization: ").isPrefixOf (authorizationLine cfg) = true := by
      rw [List.isPrefixOf_iff_prefix]
      exact (by decide : text "Authorization: " <+: text "Authorization: Basic ").trans (List.prefix_append _ _)
    rw [wanted, List.filter_append, frontOthers, List.filter_cons_of_neg (by simp [host]),
      List.filter_cons_of_pos own, backOthers, List.nil_append]

/-- The host line of this request is plain, and no other line has the host text. -/
theorem credentials_once_iff_sample :
    (∃ request, (feed (chunk sampleConfig) (sessionStart Statics.initial) [sampleRequest.encode]).1.reduceOption =
          [⟨sampleRequest.pid, request⟩] ∧
        CredentialsOnce sampleConfig [sampleRequest.requestLine] [text "Content-length: 3"] request) ↔
      ([] : Bytes) = [] ∧ ∀ line ∈ sampleRequest.requestLine :: [] ++ [text "Content-length: 3"],
        ¬ hostLine sampleConfig <:+: line :=
  credentials_once_iff sampleConfig sampleRequest [] [text "Content-length: 3"] []
    (fun _ => by simp only [sampleConfig]; decide) (by decide) (by decide) (sessionStart Statics.initial)
    (sessionStart_idle rfl rfl) sampleRequest.encode [] (List.prefix_append _ _) (by simp) (by simp)

/-- The host line of this request has a port, and another line has the host text. -/
def portRequest : Request where
  pid := 13
  requestLine := text "GET /x HTTP/1.1"
  headers := [text "Host: 7.piercloud.com:8080", text "X-note: Host: 7.piercloud.com"]
  body := []
  pidPositive := by decide
  pidFits := by decide
  clean := by simp only [Clean]; decide
  noMark := by decide
  announced := by decide

/-- The port ends up behind the credentials, and the other line gets the credentials as well. -/
theorem credentials_spread : ∃ (cfg : Config) (r : Request) (front back : List Bytes) (port request : Bytes),
    cfg.aBase64Encode (cfg.gLogin ++ text ":" ++ cfg.gPasswd) = text "YTpi" ∧
      r.headers = front ++ (hostLine cfg ++ port) :: back ∧
      (∀ line ∈ r.lines, ¬ text "Authorization: " <+: line) ∧
      (feed (chunk cfg) (sessionStart Statics.initial) [r.encode]).1.reduceOption = [⟨r.pid, request⟩] ∧
      headerLines request = [text "GET /x HTTP/1.1", text "Host: localhost", text "Authorization: Basic YTpi:8080",
        text "X-note: Host: localhost", text "Authorization: Basic YTpi"] :=
  ⟨sampleConfig, portRequest, [], [text "X-note: Host: 7.piercloud.com"], text ":8080",
    (portRequest.expected sampleConfig).request, by decide, by decide, by decide, by decide +kernel, by decide +kernel⟩

end Piercloud.Client
