import Piercloud.Proof.Connection.Handshake
import Piercloud.Proof.Connection.Requests

/-
This file compares the destinations that the three proxy requests name.
-/

namespace Piercloud.Connection

open CLib Liblst Loop

/-- The more significant byte of a port comes first. -/
def networkOrder (port : Nat) : Bytes := [UInt8.ofNat (port / 256), UInt8.ofNat (port % 256)]

def portValue : Bytes → Nat
  | [high, low] => 256 * high.toNat + low.toNat
  | _ => 0

theorem portValue_networkOrder {port : Nat} (fits : port < 65536) : portValue (networkOrder port) = port := by
  have high : (UInt8.ofNat (port / 256)).toNat = port / 256 :=
    UInt8.toNat_ofNat_of_lt (Nat.div_lt_of_lt_mul (by simpa [UInt8.size] using fits))
  have low : (UInt8.ofNat (port % 256)).toNat = port % 256 := UInt8.toNat_ofNat_of_lt (Nat.mod_lt _ (by decide))
  rw [networkOrder, portValue, high, low]
  omega

theorem memory16_htons {port : Nat} (fits : port < 65536) : memory16 (htons port) = networkOrder port := by
  have word : (((port : Nat) : Int) % 2 ^ 16).toNat = port := by omega
  have low : swap16 port % 256 = port / 256 := by
    rw [swap16]
    omega
  have high : swap16 port / 256 = port % 256 := by
    rw [swap16]
    omega
  rw [htons, word, memory16, low, high, networkOrder]

/-- A request line names a host and a port, and an empty line follows. -/
def decodeConnect (request : Bytes) : Option (Bytes × Nat) :=
  let host := (request.drop 8).takeWhile (· != 58)
  let number := (request.drop 8).drop (host.length + 1)
  let digits := number.takeWhile fun c => digitValue c < 10
  if request.take 8 = text "CONNECT " ∧ number.drop digits.length = text " HTTP/1.0\r\n\r\n" then
    some (host, digitsValue 10 digits)
  else none

def decodeSocks4 (request : Bytes) : Option (Bytes × Nat) :=
  if request.length = 9 ∧ request.take 2 = [4, 1] then
    some ((request.drop 4).take 4, portValue ((request.drop 2).take 2))
  else none

/-- The type tells the length of the address, and the port stands behind it. -/
def decodeSocks5 (request : Bytes) : Option (Bytes × Nat) :=
  if request.take 3 = [5, 1, 0] ∧
      (request.getD 3 0 = 1 ∧ request.length = 10 ∨ request.getD 3 0 = 4 ∧ request.length = 22) then
    some ((request.drop 4).take (request.length - 6), portValue (request.drop (request.length - 2)))
  else none

/-- The request line reads back as the host and the number that is printed. -/
theorem decodeConnect_httpRequest {host : Bytes} (clean : ∀ c ∈ cstr host, c ∉ text "\r\n\t []:") (port : Int) :
    decodeConnect (httpRequest host port) = some (cstr host, ntohs port) := by
  have colon : ∀ c ∈ cstr host, (c != 58) = true := by
    intro c member
    rw [bne_iff_ne]
    rintro rfl
    exact clean 58 member (by decide)
  have absent : strchr host 58 = none := by
    rw [strchr]
    exact findIdx_none fun member => clean 58 member (by decide)
  have printed : httpRequest host port = text "CONNECT " ++
      (cstr host ++ 58 :: (decimal (ntohs port) ++ text " HTTP/1.0\r\n\r\n")) := by
    simp [httpRequest, absent, text]
  have name : (cstr host ++ 58 :: (decimal (ntohs port) ++ text " HTTP/1.0\r\n\r\n")).takeWhile (· != 58) =
      cstr host := by
    rw [List.takeWhile_append_of_pos colon]
    simp
  have number : (cstr host ++ 58 :: (decimal (ntohs port) ++ text " HTTP/1.0\r\n\r\n")).drop
      ((cstr host).length + 1) = decimal (ntohs port) ++ text " HTTP/1.0\r\n\r\n" := by
    rw [← List.drop_drop, List.drop_left, List.drop_one, List.tail_cons]
  have blank : ∀ c ∈ (text " HTTP/1.0\r\n\r\n").head?, 10 ≤ digitValue c := by
    intro c head
    obtain rfl : 32 = c := by simpa [text] using head
    decide
  have digits : (decimal (ntohs port) ++ text " HTTP/1.0\r\n\r\n").takeWhile (fun c => digitValue c < 10) =
      decimal (ntohs port) :=
    takeWhile_digits (fun c member => decimal_digit member) blank
  have method : ∀ rest, (text "CONNECT " ++ rest).drop 8 = rest ∧ (text "CONNECT " ++ rest).take 8 = text "CONNECT " :=
    fun rest => ⟨List.drop_left' rfl, List.take_left' rfl⟩
  simp only [decodeConnect, printed, method, name, number, digits, List.drop_left, and_self, if_true,
    digitsValue_decimal]

theorem decodeSocks4_socks4Request {port : Nat} (fits : port < 65536) {ip : Bytes} (four : ip.length = 4) :
    decodeSocks4 (socks4Request ⟨networkOrder port, ip⟩) = some (ip, port) := by
  have field : portValue (networkOrder port) = port := portValue_networkOrder fits
  obtain ⟨a, b, c, d, rfl⟩ : ∃ a b c d, ip = [a, b, c, d] := by
    match ip, four with
    | [a, b, c, d], _ => exact ⟨a, b, c, d, rfl⟩
  rw [networkOrder] at field
  simp [decodeSocks4, socks4Request, networkOrder, field]

/-- The resolver gives the port in network order and an address of one of the two families. -/
inductive Resolved (port : Nat) : Bytes → Bytes → Prop where
  | inet (ip padding : Bytes) (four : ip.length = 4) (eight : padding.length = 8) :
      Resolved port ([2, 0] ++ networkOrder port ++ ip ++ padding) ip
  | inet6 (flow ip scope : Bytes) (four : flow.length = 4) (sixteen : ip.length = 16) (four' : scope.length = 4) :
      Resolved port ([10, 0] ++ networkOrder port ++ flow ++ ip ++ scope) ip

/-- A field of an address stands behind its front. -/
theorem field_eq {front field rest : Bytes} {place n : Nat} (start : front.length = place) (whole : field.length = n) :
    ((front ++ field ++ rest).drop place).take n = field := by
  rw [List.append_assoc, List.drop_left' start, List.take_left' whole]

theorem addressBytes_inet {port ip : Bytes} (two : port.length = 2) (four : ip.length = 4) (rest : Bytes) :
    addressBytes ([2, 0] ++ port ++ ip ++ rest) = some ([5, 1, 0, 1] ++ ip ++ port) := by
  have family : familyOf ([2, 0] ++ port ++ ip ++ rest) = AF_INET := rfl
  have place : ((([2, 0] : Bytes) ++ port ++ ip ++ rest).drop 4).take 4 = ip :=
    field_eq (by rw [List.length_append, two]; rfl) four
  have place' : ((([2, 0] : Bytes) ++ port ++ ip ++ rest).drop 2).take 2 = port := by
    rw [List.append_assoc]
    exact field_eq rfl two
  rw [addressBytes, if_pos family, place, place']

theorem addressBytes_inet6 {port flow ip : Bytes} (two : port.length = 2) (four : flow.length = 4)
    (sixteen : ip.length = 16) (rest : Bytes) :
    addressBytes ([10, 0] ++ port ++ flow ++ ip ++ rest) = some ([5, 1, 0, 4] ++ ip ++ port) := by
  have family : familyOf ([10, 0] ++ port ++ flow ++ ip ++ rest) = AF_INET6 := rfl
  have place : ((([10, 0] : Bytes) ++ port ++ flow ++ ip ++ rest).drop 8).take 16 = ip :=
    field_eq (by rw [List.length_append, List.length_append, two, four]; rfl) sixteen
  have place' : ((([10, 0] : Bytes) ++ port ++ flow ++ ip ++ rest).drop 2).take 2 = port := by
    rw [List.append_assoc, List.append_assoc]
    exact field_eq rfl two
  rw [addressBytes, if_neg (by rw [family]; decide), if_pos family, place, place']

theorem Resolved.request {sys : System} {host : Bytes} {port : Nat} (fits : port < 65536) {res : Sockaddr}
    {address : Bytes} (looked : sys.getaddrinfo (cstr host) (decimal port) = some res)
    (resolved : Resolved port res.bytes address) :
    ∃ request, requestBytes sys host port = some request ∧ decodeSocks5 request = some (address, port) := by
  have printed : (signedDecimal port).take 5 = decimal port := by
    rw [signedDecimal_natCast]
    exact List.take_of_length_le (length_decimal (by decide) (by omega))
  have order : (networkOrder port).length = 2 := rfl
  have storage : res.bytes.length ≤ storageSize → getAddrInfo sys host port =
      some (res.bytes ++ List.replicate (storageSize - res.bytes.length) 0) := by
    intro within
    rw [← storage_eq]
    simp only [getAddrInfo, printed, looked, if_neg (not_lt.mpr within)]
  have decoded : ∀ type : UInt8, type = 1 ∧ address.length = 4 ∨ type = 4 ∧ address.length = 16 →
      decodeSocks5 ([5, 1, 0, type] ++ address ++ networkOrder port) = some (address, port) := by
    intro type known
    have total : ([5, 1, 0, type] ++ address ++ networkOrder port).length = address.length + 6 := by
      simp only [List.length_append, order, List.length_cons, List.length_nil]
      omega
    have behind : ([5, 1, 0, type] ++ address ++ networkOrder port).drop (address.length + 4) = networkOrder port :=
      List.drop_left' (by rw [List.length_append, List.length_cons]; simp [Nat.add_comm])
    have body : (([5, 1, 0, type] ++ address ++ networkOrder port).drop 4).take address.length = address :=
      field_eq rfl rfl
    have typed : ([5, 1, 0, type] ++ address ++ networkOrder port).getD 3 0 = type := rfl
    have front : ([5, 1, 0, type] ++ address ++ networkOrder port).take 3 = [5, 1, 0] := rfl
    rw [decodeSocks5, total, typed, front, Nat.add_sub_cancel,
      show address.length + 6 - 2 = address.length + 4 by omega, behind, body, portValue_networkOrder fits, if_pos]
    exact ⟨rfl, known.imp (fun both => ⟨both.1, by omega⟩) fun both => ⟨both.1, by omega⟩⟩
  rw [requestBytes]
  generalize res.bytes = bytes at resolved storage
  cases resolved with
  | inet _ padding four eight =>
      refine ⟨[5, 1, 0, 1] ++ address ++ networkOrder port, ?_, decoded 1 (Or.inl ⟨rfl, four⟩)⟩
      rw [storage, Option.bind_some, List.append_assoc _ padding, addressBytes_inet order four]
      simp only [List.length_append, order, four, eight, List.length_cons, List.length_nil]
      decide
  | inet6 flow _ scope four sixteen four' =>
      refine ⟨[5, 1, 0, 4] ++ address ++ networkOrder port, ?_, decoded 4 (Or.inr ⟨rfl, sixteen⟩)⟩
      rw [storage, Option.bind_some, List.append_assoc _ scope, addressBytes_inet6 order four sixteen]
      simp only [List.length_append, order, four, sixteen, four', List.length_cons, List.length_nil]
      decide

/-- The proxy of this type is connected, and every write to it succeeds. -/
structure ProxyOpen (sys : System) (proxy : Proxy) (type : ProxyType) (w₀ : World) (fd : Int) (w : World) : Prop where
  typed : proxy.type = type
  inner : plainConnection sys proxy.addr (toInt proxy.port) w₀ = (fd, w)
  valid : 0 ≤ fd
  willing : Willing w

/-- Behind this front the run writes a request that names the address and the port. -/
def Names (w : World) (front : Bytes) (decode : Bytes → Option (Bytes × Nat)) (address : Bytes) (port : Nat)
    (exit : Exit) : Prop :=
  ∃ rval w' request, exit = .returned rval w' ∧ w'.sent = w.sent ++ front ++ request ∧
    decode request = some (address, port)

theorem connection_proxy {sys : System} {host : Bytes} {port : Nat} (positive : 0 < port) {proxy : Proxy}
    (typed : proxy.type ≠ .HTTPS) (w₀ : World) :
    connection sys (some host) port (some proxy) w₀ = socksConnection sys host port proxy w₀ := by
  have real : ¬ (port : Int) ≤ 0 := by omega
  have known : proxy.type = .HTTP ∨ proxy.type = .SOCKS4 ∨ proxy.type = .SOCKS5 := by
    cases type : proxy.type <;> simp_all
  simp only [connection, if_neg real, if_pos known]

theorem ProxyOpen.run {sys : System} {proxy : Proxy} {type : ProxyType} {w₀ w : World} {fd : Int}
    (opened : ProxyOpen sys proxy type w₀ fd w) (host : Bytes) (port : Int) :
    socksConnection sys host port proxy w₀ =
      match proxy.type with
      | .HTTP => httpConnect sys fd host port w
      | .SOCKS4 => socks4Connect sys fd host port w
      | .SOCKS5 => socks5Connect sys fd host port proxy w
      | .HTTPS => failing sys fd w := by
  rw [socksConnection, opened.inner]
  exact if_neg (not_lt.mpr opened.valid)

/-- The bytes that are written decide what the run names. -/
theorem names_iff {sys : System} {fd : Int} {w : World} {front request : Bytes} {exit : Exit}
    (reaches : Reaches sys fd w (front ++ request) exit) (decode : Bytes → Option (Bytes × Nat)) (address : Bytes)
    (port : Nat) : Names w front decode address port exit ↔ decode request = some (address, port) := by
  obtain ⟨rval, w', rfl, sent⟩ := reaches.sent
  rw [← List.append_assoc] at sent
  constructor
  · rintro ⟨rval', v, request', returned, sent', decoded⟩
    obtain ⟨-, rfl⟩ := Exit.returned.inj returned
    obtain rfl := List.append_cancel_left (sent.symm.trans sent')
    exact decoded
  · exact fun decoded => ⟨rval, w', request, rfl, sent, decoded⟩

section Destination

variable {sys : System} {host : Bytes} {port : Nat} {proxy : Proxy} {w₀ w : World} {fd : Int}

theorem ntohs_iff (fits : port < 65536) : ntohs port = port ↔ port % 256 = port / 256 := by
  have word : (((port : Nat) : Int) % 2 ^ 16).toNat = port := by omega
  rw [ntohs, word, swap16]
  omega

/-- The request line names the host and the port with its bytes swapped. -/
theorem http_names (clean : ∀ c ∈ cstr host, c ∉ text "\r\n\t []:")
    (short : (httpRequest host port).length < maxHttpBuf) (opened : ProxyOpen sys proxy .HTTP w₀ fd w)
    (address : Bytes) (number : Nat) :
    Names w [] decodeConnect address number (socksConnection sys host port proxy w₀) ↔
      cstr host = address ∧ ntohs port = number := by
  obtain ⟨put, reaches, whole⟩ := httpConnect_reaches sys fd host port w
  rw [whole clean short opened.willing, ← List.nil_append (httpRequest host port)] at reaches
  rw [opened.run, opened.typed, names_iff reaches, decodeConnect_httpRequest clean, Option.some_inj, Prod.mk.injEq]

/-- The request line names the right port exactly when its two bytes are the same. -/
theorem http_names_iff (fits : port < 65536) (clean : ∀ c ∈ cstr host, c ∉ text "\r\n\t []:")
    (short : (httpRequest host port).length < maxHttpBuf) (opened : ProxyOpen sys proxy .HTTP w₀ fd w) :
    Names w [] decodeConnect (cstr host) port (socksConnection sys host port proxy w₀) ↔ port % 256 = port / 256 := by
  rw [http_names clean short opened, ntohs_iff fits]
  exact and_iff_right rfl

theorem socks4_names (fits : port < 65536) {ip : Bytes} (resolved : sys.gethostbyname (cstr host) = some ip)
    (four : ip.length = 4) (opened : ProxyOpen sys proxy .SOCKS4 w₀ fd w) :
    Names w [] decodeSocks4 ip port (socksConnection sys host port proxy w₀) := by
  have whole : ip.take 4 = ip := List.take_of_length_le four.le
  have prepared : prepareSockaddr sys host port = some ⟨networkOrder port, ip⟩ := by
    rw [prepareSockaddr, resolved, Option.map_some, memory16_htons fits, whole]
  obtain ⟨put, reaches, sent⟩ := socks4Connect_reaches sys fd host port w
  rw [sent _ prepared four opened.willing, ← List.nil_append (socks4Request _)] at reaches
  rw [opened.run, opened.typed, names_iff reaches]
  exact decodeSocks4_socks4Request fits four

theorem socks5_names (fits : port < 65536) {res : Sockaddr} {address : Bytes}
    (looked : sys.getaddrinfo (cstr host) (decimal port) = some res) (resolved : Resolved port res.bytes address)
    (opened : ProxyOpen sys proxy .SOCKS5 w₀ fd w) (calm : Calm w) {got put rest : Bytes}
    (agreed : Agreed proxy.login.1 proxy.login.2 got put) (stream : w.stream = got ++ rest) :
    Names w put decodeSocks5 address port (socksConnection sys host port proxy w₀) := by
  obtain ⟨request, known, decoded⟩ := resolved.request fits looked
  obtain ⟨buf, v, dialogue, exchange⟩ := socks5Dialogue_agreed sys fd agreed stream calm opened.willing known
  have reaches : Reaches sys fd w (put ++ request) (socks5Connect sys fd host port proxy w) := by
    rw [socks5Connect_eq, dialogue]
    obtain ⟨ended, -⟩ | ⟨r, t, x, tail, w', -, later, done⟩ := socks5Reply_cases sys fd buf v
    · rw [← List.append_nil (put ++ request)]
      exact ended.reaches.after exchange
    · exact ⟨_, w', exchange.andRead later, Or.inl done⟩
  rw [opened.run, opened.typed, names_iff reaches]
  exact decoded

/-- The three requests name one destination exactly when the two bytes of the port are the same. -/
theorem destination_agrees_iff (positive : 0 < port) (fits : port < 65536)
    (clean : ∀ c ∈ cstr host, c ∉ text "\r\n\t []:") (short : (httpRequest host port).length < maxHttpBuf) {ip : Bytes}
    (named : sys.gethostbyname (cstr host) = some ip) (four : ip.length = 4) {res : Sockaddr} {address : Bytes}
    (looked : sys.getaddrinfo (cstr host) (decimal port) = some res) (resolved : Resolved port res.bytes address)
    {http socks4 socks5 : Proxy} {u₀ u v₀ v w₀ w : World} {fd fd' fd'' : Int}
    (first : ProxyOpen sys http .HTTP u₀ fd u) (second : ProxyOpen sys socks4 .SOCKS4 v₀ fd' v)
    (third : ProxyOpen sys socks5 .SOCKS5 w₀ fd'' w) (calm : Calm w) {got put rest : Bytes}
    (agreed : Agreed socks5.login.1 socks5.login.2 got put) (stream : w.stream = got ++ rest) :
    (Names u [] decodeConnect (cstr host) port (connection sys (some host) port (some http) u₀) ∧
        Names v [] decodeSocks4 ip port (connection sys (some host) port (some socks4) v₀) ∧
          Names w put decodeSocks5 address port (connection sys (some host) port (some socks5) w₀)) ↔
      port % 256 = port / 256 := by
  rw [connection_proxy positive (by simp [first.typed]), connection_proxy positive (by simp [second.typed]),
    connection_proxy positive (by simp [third.typed]), http_names_iff fits clean short first]
  exact and_iff_left ⟨socks4_names fits named four second, socks5_names fits looked resolved third calm agreed stream⟩

end Destination

theorem plainConnection_localSystem (w : World) :
    plainConnection localSystem localProxy.addr (toInt localProxy.port) w = (5, w) := by
  have port : toInt localProxy.port = 1080 := by decide
  have prepared : prepareSockaddr localSystem (text "proxy") 1080 =
      some ⟨memory16 (htons 1080), [10, 0, 0, 7]⟩ := rfl
  have options : setsockopt localSystem = 0 := rfl
  rw [port]
  simp only [plainConnection, localProxy, prepared, options]
  rfl

theorem localProxy_open (type : ProxyType) (answer : Bytes) :
    ProxyOpen localSystem { localProxy with type := type } type (answering answer) 5 (answering answer) :=
  ⟨rfl, plainConnection_localSystem _, by decide, willing_answering _⟩

theorem destination_agrees_iff_sample :
    (Names (answering []) [] decodeConnect (cstr (text "piercloud.com")) 443 (connection localSystem
          (some (text "piercloud.com")) (443 : Nat) (some { localProxy with type := .HTTP }) (answering [])) ∧
        Names (answering []) [] decodeSocks4 [10, 0, 0, 7] 443 (connection localSystem (some (text "piercloud.com"))
            (443 : Nat) (some { localProxy with type := .SOCKS4 }) (answering [])) ∧
          Names (answering ([5, 0] ++ [])) hello decodeSocks5 [10, 0, 0, 7] 443 (connection localSystem
            (some (text "piercloud.com")) (443 : Nat) (some localProxy) (answering ([5, 0] ++ [])))) ↔
      443 % 256 = 443 / 256 :=
  destination_agrees_iff (by decide) (by decide) (by decide +kernel) (by decide +kernel) rfl rfl rfl
    (.inet [10, 0, 0, 7] (List.replicate 8 0) rfl rfl) (localProxy_open .HTTP []) (localProxy_open .SOCKS4 [])
    (localProxy_open .SOCKS5 ([5, 0] ++ [])) (calm_answering _) .noAuth rfl

/-- The HTTP proxy is asked for port 47873 of the server. -/
theorem http_port_swapped : ∃ (sys : System) (host : Bytes) (port : Nat) (proxy : Proxy) (w₀ w : World) (fd : Int),
    0 < port ∧ port < 65536 ∧ (∀ c ∈ cstr host, c ∉ text "\r\n\t []:") ∧ ProxyOpen sys proxy .HTTP w₀ fd w ∧
      Names w [] decodeConnect (cstr host) 47873 (connection sys (some host) port (some proxy) w₀) ∧
        ¬ Names w [] decodeConnect (cstr host) port (connection sys (some host) port (some proxy) w₀) := by
  have clean : ∀ c ∈ cstr (text "piercloud.com"), c ∉ text "\r\n\t []:" := by decide +kernel
  have short : (httpRequest (text "piercloud.com") (443 : Nat)).length < maxHttpBuf := by decide +kernel
  have opened : ProxyOpen localSystem { localProxy with type := .HTTP } .HTTP (answering []) 5 (answering []) :=
    localProxy_open .HTTP []
  have swapped : ntohs (443 : Nat) = 47873 := by decide
  have started := @connection_proxy localSystem (text "piercloud.com") 443 (by decide)
    { localProxy with type := .HTTP } (by decide) (answering [])
  refine ⟨localSystem, text "piercloud.com", 443, { localProxy with type := .HTTP }, answering [], answering [], 5,
    by decide, by decide, clean, opened, ?_, ?_⟩
  · rw [started, http_names clean short opened]
    exact ⟨rfl, swapped⟩
  · rw [started, http_names clean short opened, swapped]
    exact fun named => absurd named.2 (by decide)

end Piercloud.Connection
