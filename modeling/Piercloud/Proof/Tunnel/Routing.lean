import Piercloud.Construction.Routing
import Piercloud.Proof.Parser.Survival
import Piercloud.Proof.Tunnel.Encoding

/-
This file compares the device that the server takes from a host name with the host text that the client of
that device looks for.
-/

namespace Piercloud.Cgi

open CLib Liblst Client Wire Replace

/-- The first label decides where a browser's request goes. -/
theorem mainRoute_pier {environ : List Bytes} {httpHost : Bytes} {n : Int}
    (host : getenv environ (text "HTTP_HOST") = some httpHost) (routed : mainRoute environ = some (.pier n)) :
    ∃ label, (lstSplitStr 46 httpHost).head? = some label ∧ atol label = n := by
  rw [mainRoute, host] at routed
  simp only at routed
  split at routed
  · contradiction
  · contradiction
  · rw [Option.map_eq_some_iff] at routed
    obtain ⟨uri, -, wrong⟩ := routed
    rw [uriRoute] at wrong
    split at wrong <;> contradiction
  · rename_i label rest _ _ split
    rw [split]
    exact ⟨label, rfl, by simpa using routed⟩

/-- A label that is printed as a number is read as that number. -/
theorem mainRoute_numbered {environ : List Bytes} {httpHost : Bytes} {n m : Nat}
    (host : getenv environ (text "HTTP_HOST") = some httpHost) (routed : mainRoute environ = some (.pier n))
    (fits : m < 2 ^ 63) (numbered : decimal m ++ text ".piercloud.com" <+: httpHost) : m = n := by
  obtain ⟨rest, split⟩ := numbered
  have plain := decimal_clean m
  have noDot : 46 ∉ decimal m := by
    intro member
    exact absurd (decimal_digit member) (by decide)
  have first := lstSplitStr_first plain.1 noDot plain.2.1 (by decide) (text "piercloud.com" ++ rest)
  have same : decimal m ++ 46 :: (text "piercloud.com" ++ rest) = httpHost := by
    rw [← split, List.append_assoc]
    rfl
  rw [same] at first
  obtain ⟨label, head, value⟩ := mainRoute_pier host routed
  rw [first, Option.some.injEq] at head
  rw [← head, atol, strtol_decimal fits] at value
  exact_mod_cast value

/-- The printed host line holds the host text of a device at its front or inside the value. -/
theorem hostLine_printed_iff {cfg : Config} {n : Nat} (device : cfg.gId = decimal n) (httpHost : Bytes) :
    hostLine cfg <:+: addHeaderRow [] (text "HTTP_HOST=" ++ httpHost) ↔
      decimal n ++ text ".piercloud.com" <+: httpHost ∨ hostLine cfg <:+: httpHost := by
  have printed : addHeaderRow [] (text "HTTP_HOST=" ++ httpHost) = text "Host: " ++ (httpHost ++ CR :: [LF]) := by
    have row := addHeaderRow_variable (by decide : text "HOST" ≠ []) (by decide +kernel) httpHost
    rw [show text "HTTP_HOST=" = text "HTTP_" ++ text "HOST" ++ text "=" by decide, row, headerLine,
      show headerName (text "HOST") = text "Host" by decide]
    simp [printLine, text]
  have plain := decimal_clean n
  have wanted : hostLine cfg = text "Host: " ++ (decimal n ++ text ".piercloud.com") := by
    rw [hostLine, device, cstr_eq_self plain.2.1, List.append_assoc]
  have noReturn : CR ∉ decimal n ++ text ".piercloud.com" := by simpa using ⟨plain.2.2.1, by decide⟩
  have noReturnLine : CR ∉ hostLine cfg := by
    rw [wanted]
    simpa using ⟨by decide, plain.2.2.1, by decide⟩
  have long : ¬ hostLine cfg <:+: [LF] := by
    intro inside
    have short := inside.length_le
    simp [wanted, text] at short
  rw [printed, ← prefix_cut_iff noReturn httpHost [LF], ← (infix_cut_iff noReturnLine httpHost [LF]).trans
    (or_iff_left long)]
  generalize httpHost ++ CR :: [LF] = line
  rw [wanted]
  simp [text, List.infix_cons_iff, List.cons_prefix_cons]

/-- The line that is printed for a routed host has the text that the device's client replaces, exactly when the
host starts with a printed number and the domain, or has the whole text inside it. -/
theorem routed_host_iff (cfg : Config) (environ : List Bytes) (httpHost : Bytes) (n : Nat)
    (host : getenv environ (text "HTTP_HOST") = some httpHost) (routed : mainRoute environ = some (.pier n))
    (device : cfg.gId = decimal n) :
    hostLine cfg <:+: addHeaderRow [] (text "HTTP_HOST=" ++ httpHost) ↔
      (∃ m < 2 ^ 63, decimal m ++ text ".piercloud.com" <+: httpHost) ∨ hostLine cfg <:+: httpHost := by
  rw [hostLine_printed_iff device]
  constructor
  · rintro (front | inside)
    · obtain ⟨label, -, value⟩ := mainRoute_pier host routed
      have fits : (n : Int) < 2 ^ 63 := value ▸ strtol_lt label 10
      exact Or.inl ⟨n, by exact_mod_cast fits, front⟩
    · exact Or.inr inside
  · rintro (⟨m, fits, front⟩ | inside)
    · exact Or.inl (mainRoute_numbered host routed fits front ▸ front)
    · exact Or.inr inside

theorem routed_host_iff_sample :
    hostLine sampleConfig <:+: addHeaderRow [] (text "HTTP_HOST=" ++ text "7.piercloud.com") ↔
      (∃ m < 2 ^ 63, decimal m ++ text ".piercloud.com" <+: text "7.piercloud.com") ∨
        hostLine sampleConfig <:+: text "7.piercloud.com" :=
  routed_host_iff sampleConfig [text "HTTP_HOST=7.piercloud.com"] (text "7.piercloud.com") 7 (by decide) (by decide)
    (by decide)

/-- A host in mixed case is routed to the device, whose client leaves the line as it is. -/
theorem routed_host_unchanged : ∃ (cfg : Config) (environ : List Bytes) (httpHost : Bytes) (n : Nat),
    getenv environ (text "HTTP_HOST") = some httpHost ∧ 0 < n ∧ mainRoute environ = some (.pier n) ∧
      cfg.gId = decimal n ∧ ¬ hostLine cfg <:+: addHeaderRow [] (text "HTTP_HOST=" ++ httpHost) ∧
      rewriteHost cfg (headerLine (text "HOST") httpHost) = headerLine (text "HOST") httpHost :=
  ⟨sampleConfig, [text "HTTP_HOST=7.PierCloud.com"], text "7.PierCloud.com", 7, by decide, by decide, by decide,
    by decide, by decide, by decide⟩

end Piercloud.Cgi
