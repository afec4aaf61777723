import Piercloud.Proof.Connection.Handshake

/-
This file says which logins the SOCKS5 server can read back.
-/

namespace Piercloud.Connection

open CLib Liblst Loop

/-- Each string of a login stands behind its length, and nothing stands behind the second one. -/
def decodeLogin : Bytes → Option (Bytes × Bytes)
  | version :: userLength :: rest =>
      match rest.drop userLength.toNat with
      | passLength :: pass =>
          if version = 1 ∧ pass.length = passLength.toNat then some (rest.take userLength.toNat, pass) else none
      | [] => none
  | _ => none

/-- A length takes one byte, so no longer string is read back. -/
theorem decodeLogin_short {request user pass : Bytes} (decoded : decodeLogin request = some (user, pass)) :
    user.length ≤ 255 ∧ pass.length ≤ 255 := by
  rcases request with _ | ⟨version, _ | ⟨userLength, rest⟩⟩
  · contradiction
  · contradiction
  · rw [decodeLogin] at decoded
    split at decoded
    · rename_i passLength tail found
      split at decoded
      · rename_i right
        obtain ⟨rfl, rfl⟩ := Prod.mk.inj (Option.some.inj decoded)
        have first := userLength.toNat_lt
        have second := passLength.toNat_lt
        exact ⟨by rw [List.length_take]; omega, by omega⟩
      · contradiction
    · contradiction

theorem decodeLogin_loginBytes {user pass : Bytes} (first : user.length ≤ 255) (second : pass.length ≤ 255) :
    decodeLogin (loginBytes user pass) = some (user, pass) := by
  have whole : ∀ string : Bytes, string.length ≤ 255 → string.take (string.length % 2 ^ 32) = string := by
    intro string short
    rw [Nat.mod_eq_of_lt (by omega), List.take_length]
  have counted : ∀ n ≤ 255, (UInt8.ofNat n).toNat = n :=
    fun n small => UInt8.toNat_ofNat_of_lt (Nat.lt_of_le_of_lt small (by decide))
  have printed : loginBytes user pass =
      1 :: UInt8.ofNat user.length :: (user ++ UInt8.ofNat pass.length :: pass) := by
    rw [loginBytes, whole user first, whole pass second]
    simp
  rw [printed, decodeLogin, counted _ first, List.drop_left, List.take_left]
  simp only [counted _ second, and_self, if_true]

section Login

variable {sys : System} {fd : Int} {addr : Bytes} {port : Int} {proxy : Proxy} {w : World}

theorem socks5Hello_login (sys : System) (fd : Int) (asked : LoginAsked w) :
    ∃ buf v, socks5Hello sys fd w = .ok (buf, v) ∧ buf.getD 1 0 = 2 ∧ buf.length = socks5BufferLength ∧
      Exchange w [5, 2] hello v := by
  obtain ⟨v, passed⟩ := (socks5Hello_asked sys fd w).mp asked
  refine ⟨_, v, passed, answered_method 2, length_answered 2, ?_⟩
  obtain ⟨exit, put, failed, -⟩ | ⟨method, v', passed', exchange⟩ := socks5Hello_cases sys fd w
  · simp [failed] at passed
  · obtain ⟨bufs, rfl⟩ := Prod.mk.inj (Except.ok.inj (passed'.symm.trans passed))
    have same := congrArg (fun buf => buf.getD 1 0) bufs
    simp only [answered_method] at same
    exact same ▸ exchange

/-- A login that is asked for goes out behind the hello. -/
theorem socks5Connect_login (addr : Bytes) (port : Int) (asked : LoginAsked w) (willing : Willing w)
    (fits : Fits proxy.login.1 proxy.login.2) :
    ∃ rest, Reaches sys fd w (hello ++ loginBytes proxy.login.1 proxy.login.2 ++ rest)
      (socks5Connect sys fd addr port proxy w) := by
  obtain ⟨front, v, passed, chosen, length, exchange⟩ := socks5Hello_login sys fd asked
  have dialogue : socks5Dialogue sys fd addr port proxy w =
      (socks5Login sys fd proxy front v).bind fun s => socks5Request sys fd addr port s.1 s.2 := by
    rw [socks5Dialogue_hello sys fd passed, socks5Method_login sys fd proxy chosen]
  rw [socks5Connect_eq, dialogue]
  obtain ⟨exit, put, failed, ended, whole, -⟩ | ⟨buf, v', granted, size, later⟩ :=
    socks5Login_cases sys fd proxy length fits v
  · obtain rfl := whole (exchange.willing willing)
    rw [failed]
    refine ⟨[], ?_⟩
    rw [List.append_nil]
    exact ended.reaches.after exchange
  have both := exchange.trans later
  rw [granted, Except.bind]
  obtain ⟨exit, put, failed, ended, -⟩ | ⟨request, buf', w', -, sent, last⟩ :=
    socks5Request_cases sys fd addr port size v'
  · rw [failed]
    exact ⟨put, ended.reaches.after both⟩
  · rw [sent]
    obtain ⟨ended, -⟩ | ⟨r, t, x, tail, w'', -, read, done⟩ := socks5Reply_cases sys fd buf' w'
    · refine ⟨request, ?_⟩
      rw [← List.append_nil request, ← List.append_assoc]
      exact ended.reaches.after (both.andWrite last)
    · exact ⟨request, _, w'', (both.andWrite last).andRead read, Or.inl done⟩

/-- Behind the hello the run writes a login that reads back as these strings. -/
def LoginReadBack (w : World) (user pass : Bytes) (exit : Exit) : Prop :=
  ∃ rval w' request rest, exit = .returned rval w' ∧ w'.sent = w.sent ++ hello ++ request ++ rest ∧
    decodeLogin request = some (user, pass)

/-- The login stays in the buffer and reads back exactly when both strings have at most 255 bytes. -/
theorem login_readBack_iff (socks5 : proxy.type = .SOCKS5) (open' : 0 ≤ fd) {w₀ : World}
    (inner : plainConnection sys proxy.addr (toInt proxy.port) w₀ = (fd, w)) {user pass : Bytes}
    (named : proxy.user = some user) (secret : proxy.pass = some pass) (asked : LoginAsked w) (willing : Willing w) :
    LoginReadBack w (cstr user) (cstr pass) (socksConnection sys addr port proxy w₀) ↔
      (cstr user).length ≤ 255 ∧ (cstr pass).length ≤ 255 := by
  have login : proxy.login = (cstr user, cstr pass) := by
    rw [Proxy.login, named, secret]
  rw [socksConnection_socks5 socks5 open' inner]
  constructor
  · rintro ⟨rval, w', request, rest, -, -, decoded⟩
    exact decodeLogin_short decoded
  · rintro ⟨first, second⟩
    have limit : socks5BufferLength = 513 := rfl
    have fits : Fits proxy.login.1 proxy.login.2 := by
      rw [login]
      change (cstr user).length % 2 ^ 32 + (cstr pass).length % 2 ^ 32 + 3 ≤ socks5BufferLength
      omega
    obtain ⟨rest, reaches⟩ := socks5Connect_login addr port asked willing fits
    obtain ⟨rval, w', returned, sent⟩ := reaches.sent
    refine ⟨rval, w', loginBytes (cstr user) (cstr pass), rest, returned, ?_, decodeLogin_loginBytes first second⟩
    rw [sent, login]
    simp

end Login

/-- The server asks for the login, and then it closes. -/
def askingWorld : World := answering [5, 2]

theorem loginAsked_askingWorld : LoginAsked askingWorld :=
  ⟨(atomWrite 4 helloBuf askingWorld).2.2, (atomRead 2 helloBuf (atomWrite 4 helloBuf askingWorld).2.2).2.2,
    by decide +kernel, by decide +kernel⟩

theorem login_readBack_iff_sample :
    LoginReadBack askingWorld (cstr (text "user")) (cstr (text "secret"))
        (socksConnection localSystem (text "piercloud.com") 443 localProxy askingWorld) ↔
      (cstr (text "user")).length ≤ 255 ∧ (cstr (text "secret")).length ≤ 255 :=
  login_readBack_iff rfl (show (0 : Int) ≤ 5 by decide) (by decide +kernel) rfl rfl loginAsked_askingWorld
    (willing_answering _)

/-- A name of 256 bytes gets the length zero, and two strings of 300 bytes overrun the buffer. -/
theorem long_login_broken : ∃ (sys : System) (addr : Bytes) (port : Int) (proxy proxy' : Proxy) (w : World) (fd : Int)
    (user pass user' pass' : Bytes), proxy.type = .SOCKS5 ∧ proxy'.type = .SOCKS5 ∧ proxy.user = some user ∧
      proxy.pass = some pass ∧ proxy'.user = some user' ∧ proxy'.pass = some pass' ∧
        plainConnection sys proxy.addr (toInt proxy.port) w = (fd, w) ∧
          plainConnection sys proxy'.addr (toInt proxy'.port) w = (fd, w) ∧ 0 < fd ∧ LoginAsked w ∧ Willing w ∧
            ¬ LoginReadBack w (cstr user) (cstr pass) (socksConnection sys addr port proxy w) ∧
              socksConnection sys addr port proxy' w = .overrun := by
  refine ⟨localSystem, text "piercloud.com", 443, { localProxy with user := some (List.replicate 256 97) },
    { localProxy with user := some (List.replicate 300 97), pass := some (List.replicate 300 98) }, askingWorld, 5,
    List.replicate 256 97, text "secret", List.replicate 300 97, List.replicate 300 98, rfl, rfl, rfl, rfl, rfl, rfl,
    by decide +kernel, by decide +kernel, by decide, loginAsked_askingWorld, willing_answering _, ?_,
    by decide +kernel⟩
  rintro ⟨rval, w', request, rest, -, -, decoded⟩
  have short := (decodeLogin_short decoded).1
  exact absurd short (by decide +kernel)

end Piercloud.Connection
