import Piercloud.Proof.Connection.Stages

/-
This file says which dialogues with a SOCKS5 server end with a connection.
-/

namespace Piercloud.Connection

open CLib Liblst Loop

/-- The reply grants the request. Its last parts are the bound address and the port. -/
inductive Granted : Bytes → Prop where
  | ipv4 (reserved : UInt8) (address port : Bytes) (four : address.length = 4) (two : port.length = 2) :
      Granted ([5, 0, reserved, 1] ++ address ++ port)
  | domain (reserved length : UInt8) (name port : Bytes) (whole : name.length = length.toNat)
      (two : port.length = 2) : Granted ([5, 0, reserved, 3, length] ++ name ++ port)
  | ipv6 (reserved : UInt8) (address port : Bytes) (sixteen : address.length = 16) (two : port.length = 2) :
      Granted ([5, 0, reserved, 4] ++ address ++ port)

/-- The code reads five bytes first, and the rest by the type of the address. -/
theorem granted_iff {reply : Bytes} : Granted reply ↔
    ∃ r t x tail, reply = [5, 0, r, t, x] ++ tail ∧ tail.length = replyLength [5, 0, r, t, x] ∧
      (t = 1 ∨ t = 3 ∨ t = 4) := by
  constructor
  · intro granted
    cases granted with
    | ipv4 reserved address port four two =>
        obtain ⟨first, rest, rfl⟩ := List.exists_cons_of_length_pos (show 0 < address.length by omega)
        refine ⟨reserved, 1, first, rest ++ port, by simp, ?_, Or.inl rfl⟩
        simp only [List.length_cons] at four
        rw [List.length_append]
        change _ = 5
        omega
    | domain reserved length name port whole two =>
        refine ⟨reserved, 3, length, name ++ port, by simp, ?_, Or.inr (Or.inl rfl)⟩
        rw [List.length_append, whole, two]
        rfl
    | ipv6 reserved address port sixteen two =>
        obtain ⟨first, rest, rfl⟩ := List.exists_cons_of_length_pos (show 0 < address.length by omega)
        refine ⟨reserved, 4, first, rest ++ port, by simp, ?_, Or.inr (Or.inr rfl)⟩
        simp only [List.length_cons] at sixteen
        rw [List.length_append]
        change _ = 17
        omega
  · rintro ⟨r, t, x, tail, rfl, length, rfl | rfl | rfl⟩
    · have five : tail.length = 5 := length
      have split := Granted.ipv4 r (x :: tail.take 3) (tail.drop 3) (by simp [five]) (by simp [five])
      simpa using split
    · have named : tail.length = x.toNat + 2 := length
      have split := Granted.domain r x (tail.take x.toNat) (tail.drop x.toNat) (by simp [named]) (by simp [named])
      simpa using split
    · have seventeen : tail.length = 17 := length
      have split := Granted.ipv6 r (x :: tail.take 15) (tail.drop 15) (by simp [seventeen]) (by simp [seventeen])
      simpa using split

section Handshake

variable {sys : System} {fd : Int} {addr : Bytes} {port : Int} {proxy : Proxy} {w : World}

/-- The descriptor is returned only behind a whole dialogue. -/
theorem socks5Connect_returned (open' : 0 ≤ fd) {w' : World}
    (returned : socks5Connect sys fd addr port proxy w = .returned fd w') :
    ∃ got put request r t x tail, Agreed proxy.login.1 proxy.login.2 got put ∧
      requestBytes sys addr port = some request ∧ tail.length = replyLength [5, 0, r, t, x] ∧
        Exchange w (got ++ ([5, 0, r, t, x] ++ tail)) (put ++ request) w' := by
  have closed : ∀ {v put exit}, Ended sys fd v put exit → exit ≠ .returned fd w' := by
    rintro v put exit ⟨got, v', -, rfl⟩ same
    have minus := (Exit.returned.inj same).1
    omega
  rw [socks5Connect_eq] at returned
  obtain ⟨-, dialogue⟩ | ⟨-, ⟨exit, put, dialogue, ended⟩ |
      ⟨got, put, request, buf, v, dialogue, agreed, known, exchange⟩⟩ := socks5Dialogue_cases sys fd addr port proxy w
  · simp [dialogue] at returned
  · rw [dialogue] at returned
    exact absurd returned (closed ended)
  · rw [dialogue] at returned
    obtain ⟨ended, -⟩ | ⟨r, t, x, tail, v', length, later, done⟩ := socks5Reply_cases sys fd buf v
    · exact absurd returned (closed ended)
    · obtain ⟨-, rfl⟩ := Exit.returned.inj (done.symm.trans returned)
      exact ⟨got, put, request, r, t, x, tail, agreed, known, length, exchange.andRead later⟩

theorem socksConnection_socks5 (socks5 : proxy.type = .SOCKS5) (open' : 0 ≤ fd) {w₀ : World}
    (inner : plainConnection sys proxy.addr (toInt proxy.port) w₀ = (fd, w)) :
    socksConnection sys addr port proxy w₀ = socks5Connect sys fd addr port proxy w := by
  simp only [socksConnection, inner, socks5, if_neg (not_lt.mpr open')]

/-- The server takes no authentication, or the login is sent and granted. -/
inductive Authenticated (user pass : Bytes) : Bytes → Bytes → Prop where
  | noAuth : Authenticated user pass [5, 0] hello
  | login (version : UInt8) : Authenticated user pass ([5, 2] ++ [version, 0]) (hello ++ loginBytes user pass)

/-- The server has agreed to the connection, and nothing behind its reply is read. -/
def Sound (proxy : Proxy) (w w' : World) : Prop :=
  ∃ got put reply request, Authenticated proxy.login.1 proxy.login.2 got put ∧ Granted reply ∧
    Exchange w (got ++ reply) (put ++ request) w'

/-- The server's first answer ends with the method that it has chosen. -/
def chosenMethod (w : World) : UInt8 := w.stream.getD 1 0

/-- Two more bytes answer a login. -/
def addressType (w : World) : UInt8 := w.stream.getD (if chosenMethod w = 2 then 7 else 5) 0

/-- A connection is sound when the server did not choose GSSAPI and named an address of a known type. -/
theorem socks5_sound_iff (socks5 : proxy.type = .SOCKS5) (open' : 0 ≤ fd) {w₀ : World}
    (inner : plainConnection sys proxy.addr (toInt proxy.port) w₀ = (fd, w)) {w' : World}
    (returned : socksConnection sys addr port proxy w₀ = .returned fd w') :
    Sound proxy w w' ↔ chosenMethod w ≠ 1 ∧ (addressType w = 1 ∨ addressType w = 3 ∨ addressType w = 4) := by
  rw [socksConnection_socks5 socks5 open' inner] at returned
  constructor
  · rintro ⟨got, put, reply, request, authenticated, granted, exchange⟩
    obtain ⟨r, t, x, tail, rfl, -, known⟩ := granted_iff.mp granted
    have stream := exchange.stream
    cases authenticated with
    | noAuth => simpa [chosenMethod, addressType, stream] using known
    | login version => simpa [chosenMethod, addressType, stream] using known
  · rintro ⟨plain, known⟩
    obtain ⟨got, put, request, r, t, x, tail, agreed, -, length, exchange⟩ := socks5Connect_returned open' returned
    have stream := exchange.stream
    have granted : t = 1 ∨ t = 3 ∨ t = 4 → Granted ([5, 0, r, t, x] ++ tail) :=
      fun type => granted_iff.mpr ⟨r, t, x, tail, rfl, length, type⟩
    cases agreed with
    | noAuth =>
        have type : t = 1 ∨ t = 3 ∨ t = 4 := by simpa [chosenMethod, addressType, stream] using known
        exact ⟨_, _, _, _, .noAuth, granted type, exchange⟩
    | gssapi => simp [chosenMethod, stream] at plain
    | login fits =>
        have type : t = 1 ∨ t = 3 ∨ t = 4 := by simpa [chosenMethod, addressType, stream] using known
        exact ⟨_, _, _, _, .login 5, granted type, exchange⟩

end Handshake

/-- Every name has one address. -/
def localSystem : System where
  gethostbyname _ := some [10, 0, 0, 7]
  getaddrinfo _ service := some {
    bytes := [2, 0] ++ memory16 (htons (atol service)) ++ [10, 0, 0, 7] ++ List.replicate 8 0
    named := by change (2 : Nat) ≠ 0; decide }
  socket := 5
  setsockopt _ := true
  connect _ _ := true
  close := true

def localProxy : Proxy := ⟨.SOCKS5, some (text "proxy"), 1080, some (text "user"), some (text "secret")⟩

/-- The bytes of the server come in pieces, and one read is interrupted. -/
def answering (answer : Bytes) : World := ⟨[], answer, [.ready 1, .failed EINTR, .ready 4], [], [], [], []⟩

def ipv4Reply : Bytes := [5, 0, 0, 1, 127, 0, 0, 1, 0, 80]

/-- The tunnel is still to be read, and the hello and the request are sent. -/
def tunnelWorld : World := ⟨text "ok", [], [], [], [5, 2, 0, 2, 5, 1, 0, 1, 10, 0, 0, 7, 1, 187], [], []⟩

theorem socks5_sound_iff_sample :
    Sound localProxy (answering ([5, 0] ++ ipv4Reply ++ text "ok")) tunnelWorld ↔
      chosenMethod (answering ([5, 0] ++ ipv4Reply ++ text "ok")) ≠ 1 ∧
        (addressType (answering ([5, 0] ++ ipv4Reply ++ text "ok")) = 1 ∨
          addressType (answering ([5, 0] ++ ipv4Reply ++ text "ok")) = 3 ∨
            addressType (answering ([5, 0] ++ ipv4Reply ++ text "ok")) = 4) :=
  @socks5_sound_iff localSystem 5 (text "piercloud.com") 443 localProxy (answering ([5, 0] ++ ipv4Reply ++ text "ok"))
    rfl (by decide) (answering ([5, 0] ++ ipv4Reply ++ text "ok")) (by decide +kernel) tunnelWorld (by decide +kernel)

/-- The method that is not supported is taken for no authentication. -/
theorem gssapi_accepted : ∃ (sys : System) (addr : Bytes) (port : Int) (proxy : Proxy) (w₀ w w' : World) (fd : Int),
    proxy.type = .SOCKS5 ∧ plainConnection sys proxy.addr (toInt proxy.port) w₀ = (fd, w) ∧ 0 < fd ∧
      w.stream = [5, 1] ++ ipv4Reply ++ text "ok" ∧ socksConnection sys addr port proxy w₀ = .returned fd w' ∧
        ¬ Sound proxy w w' := by
  refine ⟨localSystem, text "piercloud.com", 443, localProxy, answering ([5, 1] ++ ipv4Reply ++ text "ok"),
    answering ([5, 1] ++ ipv4Reply ++ text "ok"), tunnelWorld, 5, rfl, by decide +kernel, by decide, rfl,
    by decide +kernel, ?_⟩
  rintro ⟨got, put, reply, request, authenticated, -, exchange⟩
  have stream := exchange.stream
  cases authenticated <;> simp [answering, World.stream] at stream

section Handshake

variable {sys : System} {fd : Int} {addr : Bytes} {port : Int} {proxy : Proxy} {w : World}

/-- A server grants the request without a login or behind one. -/
inductive Transcript : UInt8 → Bytes → Prop where
  | noAuth {reply : Bytes} (granted : Granted reply) : Transcript 0 ([5, 0] ++ reply)
  | login {reply : Bytes} (granted : Granted reply) : Transcript 2 ([5, 2] ++ [1, 0] ++ reply)

/-- The name resolves to an address of one of the two families. -/
def Resolves (sys : System) (addr : Bytes) (port : Int) : Prop :=
  ∃ res, sys.getaddrinfo (cstr addr) ((signedDecimal port).take 5) = some res ∧ res.bytes.length ≤ storageSize ∧
    (familyOf res.bytes = AF_INET ∨ familyOf res.bytes = AF_INET6)

theorem requestBytes_isSome (resolves : Resolves sys addr port) : (requestBytes sys addr port).isSome := by
  obtain ⟨res, found, within, family⟩ := resolves
  have storage : getAddrInfo sys addr port = some (store (List.replicate storageSize 0) 0 res.bytes) := by
    simp only [getAddrInfo, found, if_neg (not_lt.mpr within)]
  have same := familyOf_store res
  rw [requestBytes, storage, Option.bind_some, addressBytes, same]
  rcases family with family | family
  · rw [if_pos family, Option.isSome_some]
  · rw [family, if_neg (by decide), if_pos rfl, Option.isSome_some]

/-- A handshake that is granted without a login ends with the descriptor in front of the tunnel. -/
theorem socks5Connect_noAuth {reply tunnel : Bytes} (granted : Granted reply)
    (stream : w.stream = [5, 0] ++ reply ++ tunnel) (calm : Calm w) (willing : Willing w)
    (resolves : Resolves sys addr port) :
    ∃ w', socks5Connect sys fd addr port proxy w = .returned fd w' ∧ w'.stream = tunnel := by
  obtain ⟨request, known⟩ := Option.isSome_iff_exists.mp (requestBytes_isSome resolves)
  have agreed : Agreed proxy.login.1 proxy.login.2 [5, 0] hello := .noAuth
  obtain ⟨buf, v, dialogue, exchange⟩ := socks5Dialogue_agreed sys fd agreed
    (stream.trans (List.append_assoc _ _ _)) calm willing known
  have tail := exchange.stream
  rw [stream, List.append_assoc] at tail
  have behind := List.append_cancel_left tail
  obtain ⟨r, t, x, rest, rfl, length, -⟩ := granted_iff.mp granted
  obtain ⟨-, other⟩ | ⟨r', t', x', rest', w', length', last, done⟩ := socks5Reply_cases sys fd buf v
  · exact absurd behind.symm (other r t x rest tunnel length (exchange.calm calm))
  refine ⟨w', by rw [socks5Connect_eq, dialogue]; exact done, ?_⟩
  have read := last.stream
  rw [← behind, List.append_assoc, List.append_assoc] at read
  obtain ⟨heads, rests⟩ := List.append_inj read rfl
  rw [← heads] at length'
  exact (List.append_inj rests (length.trans length'.symm)).2.symm

/-- A granted handshake ends with a connection exactly when the server did not ask for the login. -/
theorem socks5_complete_iff (socks5 : proxy.type = .SOCKS5) (open' : 0 ≤ fd) {w₀ : World}
    (inner : plainConnection sys proxy.addr (toInt proxy.port) w₀ = (fd, w)) (calm : Calm w) (willing : Willing w)
    (resolves : Resolves sys addr port) {method : UInt8} {handshake tunnel : Bytes}
    (transcript : Transcript method handshake) (stream : w.stream = handshake ++ tunnel) :
    (∃ w', socksConnection sys addr port proxy w₀ = .returned fd w' ∧ w'.stream = tunnel) ↔ method = 0 := by
  rw [socksConnection_socks5 socks5 open' inner]
  cases transcript with
  | noAuth granted => exact iff_of_true (socks5Connect_noAuth granted stream calm willing resolves) rfl
  | login granted =>
      refine iff_of_false ?_ (by decide)
      rintro ⟨w', returned, -⟩
      obtain ⟨got, put, request, r, t, x, tail, agreed, -, -, exchange⟩ := socks5Connect_returned open' returned
      have answer := exchange.stream
      rw [stream] at answer
      cases agreed with
      | noAuth => simp at answer
      | gssapi => simp at answer
      | login fits => simp at answer

end Handshake

theorem calm_answering (answer : Bytes) : Calm (answering answer) := by
  intro errno member
  obtain rfl : errno = EINTR := by simpa [answering] using member
  exact Or.inl rfl

theorem willing_answering (answer : Bytes) : Willing (answering answer) := by
  intro errno real member
  simp [answering] at member

theorem resolves_localSystem (addr : Bytes) (port : Int) : Resolves localSystem addr port :=
  ⟨_, rfl, by simp [memory16, storageSize], Or.inl rfl⟩

theorem socks5_complete_iff_sample :
    (∃ w', socksConnection localSystem (text "piercloud.com") 443 localProxy
        (answering ([5, 0] ++ ipv4Reply ++ text "ok")) = .returned 5 w' ∧ w'.stream = text "ok") ↔ (0 : UInt8) = 0 :=
  socks5_complete_iff rfl (by decide) (by decide +kernel) (calm_answering _) (willing_answering _)
    (resolves_localSystem _ _) (.noAuth (.ipv4 0 [127, 0, 0, 1] [0, 80] rfl rfl)) rfl

/-- The version of the subnegotiation is one, and the client expects five. -/
theorem login_refused : ∃ (sys : System) (addr : Bytes) (port : Int) (proxy : Proxy) (w₀ w : World) (fd : Int)
    (handshake tunnel : Bytes), proxy.type = .SOCKS5 ∧
      plainConnection sys proxy.addr (toInt proxy.port) w₀ = (fd, w) ∧ 0 < fd ∧ Calm w ∧ Willing w ∧
        Resolves sys addr port ∧ Transcript 2 handshake ∧ w.stream = handshake ++ tunnel ∧
          ¬ ∃ w', socksConnection sys addr port proxy w₀ = .returned fd w' := by
  refine ⟨localSystem, text "piercloud.com", 443, localProxy, answering ([5, 2] ++ [1, 0] ++ ipv4Reply ++ text "ok"),
    answering ([5, 2] ++ [1, 0] ++ ipv4Reply ++ text "ok"), 5, [5, 2] ++ [1, 0] ++ ipv4Reply, text "ok", rfl,
    by decide +kernel, by decide, calm_answering _, willing_answering _, resolves_localSystem _ _,
    .login (.ipv4 0 [127, 0, 0, 1] [0, 80] rfl rfl), rfl, ?_⟩
  have refused : socksConnection localSystem (text "piercloud.com") 443 localProxy
      (answering ([5, 2] ++ [1, 0] ++ ipv4Reply ++ text "ok")) =
        .returned (-1)
          ⟨ipv4Reply ++ text "ok", [], [], [], hello ++ loginBytes (text "user") (text "secret"), [], [5]⟩ := by
    decide +kernel
  rintro ⟨w', returned⟩
  have open' : (-1 : Int) = 5 := (Exit.returned.inj (refused.symm.trans returned)).1
  exact absurd open' (by decide)

end Piercloud.Connection
