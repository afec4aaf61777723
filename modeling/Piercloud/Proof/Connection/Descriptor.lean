import Piercloud.Proof.Connection.Login
import Piercloud.Proof.Connection.Requests

/-
This file shows that every exit of `SocksConnection` returns the descriptor open or closes it once.
-/

namespace Piercloud.Connection

open CLib Liblst Loop

/-- The descriptor is returned open, or it is closed once and the function fails. Nothing else is closed. -/
def Settled (fd : Int) (w : World) : Exit → Prop
  | .returned rval w' => rval = fd ∧ w'.closed = w.closed ∨ rval = -1 ∧ w'.closed = w.closed ++ [fd]
  | .overrun => False

theorem Reaches.settled {sys : System} {fd : Int} (positive : 0 < fd) {w : World} {put : Bytes} {exit : Exit}
    (reaches : Reaches sys fd w put exit) : Settled fd w exit := by
  obtain ⟨got, w', exchange, rfl | rfl⟩ := reaches
  · exact Or.inl ⟨rfl, exchange.closed⟩
  · right
    refine ⟨rfl, ?_⟩
    simp only [closeConnection, if_neg (not_le.mpr positive), exchange.closed]

/-- The login of the proxy is asked for and longer than the buffer. -/
def LoginOverruns (proxy : Proxy) (w : World) : Prop :=
  proxy.type = .SOCKS5 ∧ LoginAsked w ∧ ¬ Fits proxy.login.1 proxy.login.2

/-- The descriptor of the proxy does not leak, and it is not closed twice, unless the login overruns the buffer. -/
theorem descriptor_settled_iff {sys : System} {fd : Int} {addr : Bytes} {port : Int} {proxy : Proxy} {w₀ w : World}
    (inner : plainConnection sys proxy.addr (toInt proxy.port) w₀ = (fd, w)) (positive : 0 < fd) :
    Settled fd w (socksConnection sys addr port proxy w₀) ↔ ¬ LoginOverruns proxy w := by
  have open' : ¬ fd < 0 := by omega
  have other : proxy.type ≠ .SOCKS5 → ¬ LoginOverruns proxy w := fun plain overruns => plain overruns.1
  simp only [socksConnection, inner, if_neg open']
  cases type : proxy.type with
  | HTTPS =>
      exact iff_of_true (Reaches.settled positive ⟨[], w, .refl w, Or.inr rfl⟩) (other (by simp [type]))
  | HTTP =>
      obtain ⟨put, reaches, -⟩ := httpConnect_reaches sys fd addr port w
      exact iff_of_true (reaches.settled positive) (other (by simp [type]))
  | SOCKS4 =>
      obtain ⟨put, reaches, -⟩ := socks4Connect_reaches sys fd addr port w
      exact iff_of_true (reaches.settled positive) (other (by simp [type]))
  | SOCKS5 =>
      obtain ⟨long, overrun⟩ | ⟨fits, put, reaches⟩ := socks5Connect_reaches sys fd addr port proxy w
      · simp only [overrun]
        exact iff_of_false id (not_not.mpr ⟨type, long⟩)
      · exact iff_of_true (reaches.settled positive) fun overruns => fits overruns.2

/-- The proxy answers the request line and closes. -/
def refusingWorld : World := answering (text "HTTP/1.0 407 \r\n")

theorem descriptor_settled_iff_sample :
    Settled 5 refusingWorld (socksConnection localSystem (text "piercloud.com") 443 { localProxy with type := .HTTP }
        refusingWorld) ↔ ¬ LoginOverruns { localProxy with type := .HTTP } refusingWorld :=
  descriptor_settled_iff (by decide +kernel) (by decide)

/-- Credentials that overrun the buffer leave no defined exit. -/
theorem descriptor_lost : ∃ (sys : System) (addr : Bytes) (port : Int) (proxy : Proxy) (w₀ w : World) (fd : Int),
    plainConnection sys proxy.addr (toInt proxy.port) w₀ = (fd, w) ∧ 0 < fd ∧
      proxy.pass.map List.length = some 510 ∧ socksConnection sys addr port proxy w₀ = .overrun ∧
        ¬ Settled fd w (socksConnection sys addr port proxy w₀) := by
  have overrun : socksConnection localSystem (text "piercloud.com") 443
      { localProxy with pass := some (List.replicate 510 98) } askingWorld = .overrun := by decide +kernel
  refine ⟨localSystem, text "piercloud.com", 443, { localProxy with pass := some (List.replicate 510 98) }, askingWorld,
    askingWorld, 5, by decide +kernel, by decide, by decide +kernel, overrun, ?_⟩
  rw [overrun]
  exact id

end Piercloud.Connection
