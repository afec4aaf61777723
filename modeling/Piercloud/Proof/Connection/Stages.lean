import Piercloud.Construction.Connection
import Piercloud.Proof.Connection.Exchange
import Mathlib.Data.List.GetD

/-
This file says for each stage of the SOCKS5 dialogue what it reads and writes, and how it ends.
-/

namespace Piercloud.Connection

open CLib Liblst Loop

theorem take_store (buf bytes : Bytes) : (store buf 0 bytes).take bytes.length = bytes := by
  simp [store]

theorem getD_store (buf : Bytes) {bytes : Bytes} {i : Nat} (inside : i < bytes.length) :
    (store buf 0 bytes).getD i 0 = bytes.getD i 0 := by
  simp only [store, List.take_zero, List.nil_append, List.getD_eq_getElem?_getD]
  rw [List.getElem?_append_left inside]

/-- A store behind the front makes the front longer, as long as the buffer has room. -/
theorem storeInside_eq {buf : Bytes} (size : buf.length = socks5BufferLength) (front : Bytes)
    (within : front.length ≤ socks5BufferLength) (more : Bytes) :
    storeInside (store buf 0 front) front.length more =
      if front.length + more.length ≤ socks5BufferLength then some (store buf 0 (front ++ more)) else none := by
  rw [storeInside, store_store, length_store (size ▸ within), size]

theorem toInt_small {n : Nat} (small : n % 2 ^ 32 < 2 ^ 31) : toInt n = (n % 2 ^ 32 : Nat) := by
  have value : (n : Int).bmod (2 ^ 32) = (n % 2 ^ 32 : Nat) := by
    rw [Int.bmod_eq_emod_of_lt (by omega)]
    omega
  exact value

theorem toInt_large {n : Nat} (large : 2 ^ 31 ≤ n % 2 ^ 32) : toInt n < 0 := by
  have value : (n : Int).bmod (2 ^ 32) < 0 := by
    rw [Int.bmod_neg _ _ (by omega)]
    omega
  exact value

theorem length_taken (string : Bytes) : (string.take (string.length % 2 ^ 32)).length = string.length % 2 ^ 32 := by
  rw [List.length_take, Nat.min_eq_left (Nat.mod_le _ _)]

/-- A copy takes as many bytes as the length has modulo the width of an `int`. -/
theorem copyInside_eq {buf : Bytes} (size : buf.length = socks5BufferLength) (front : Bytes)
    (within : front.length ≤ socks5BufferLength) (string : Bytes) :
    copyInside (store buf 0 front) front.length string =
      if front.length + string.length % 2 ^ 32 ≤ socks5BufferLength then
        some (store buf 0 (front ++ string.take (string.length % 2 ^ 32)))
      else none := by
  have small : socks5BufferLength < 2 ^ 31 := by decide
  rw [copyInside]
  by_cases positive : string.length % 2 ^ 32 < 2 ^ 31
  · rw [toInt_small positive, if_neg (by omega), Int.toNat_natCast, storeInside_eq size front within, length_taken]
  · rw [if_pos (toInt_large (by omega)), if_neg (by omega)]

/-- These bytes are the login as the code prints it. -/
def loginBytes (user pass : Bytes) : Bytes :=
  [1, UInt8.ofNat user.length] ++ user.take (user.length % 2 ^ 32) ++ [UInt8.ofNat pass.length] ++
    pass.take (pass.length % 2 ^ 32)

/-- The login fits into the buffer. -/
def Fits (user pass : Bytes) : Prop := user.length % 2 ^ 32 + pass.length % 2 ^ 32 + 3 ≤ socks5BufferLength

instance (user pass : Bytes) : Decidable (Fits user pass) := inferInstanceAs (Decidable (_ ≤ _))

theorem length_loginBytes (user pass : Bytes) :
    (loginBytes user pass).length = user.length % 2 ^ 32 + pass.length % 2 ^ 32 + 3 := by
  simp only [loginBytes, List.length_append, length_taken, List.length_cons, List.length_nil]
  omega

/-- The request is built from the front, and a part that does not fit leaves none. -/
theorem loginRequest_eq (user pass : Bytes) {buf : Bytes} (size : buf.length = socks5BufferLength) :
    loginRequest user pass buf =
      if Fits user pass then some (store buf 0 (loginBytes user pass), (loginBytes user pass).length) else none := by
  have limit : socks5BufferLength = 513 := rfl
  have total := length_loginBytes user pass
  have fits : Fits user pass ↔ (loginBytes user pass).length ≤ socks5BufferLength := by rw [total, Fits]
  have first := storeInside_eq size [] (by simp) [1, UInt8.ofNat user.length]
  have copied := copyInside_eq size [1, UInt8.ofNat user.length] (by rw [limit]; simp) user
  simp only [store_nil, List.nil_append, List.length_nil, List.length_cons, limit] at first copied
  rw [loginRequest, first, if_pos (by omega), Option.bind_some, copied]
  by_cases userFits : 2 + user.length % 2 ^ 32 ≤ 513
  · have named : ([1, UInt8.ofNat user.length] ++ user.take (user.length % 2 ^ 32)).length =
        (2 + user.length) % 2 ^ 32 := by
      rw [List.length_append, length_taken, List.length_cons, List.length_cons, List.length_nil]
      omega
    have counted := storeInside_eq size ([1, UInt8.ofNat user.length] ++ user.take (user.length % 2 ^ 32))
      (by omega) [UInt8.ofNat pass.length]
    rw [named, limit, List.length_singleton] at counted
    rw [if_pos userFits, Option.bind_some]
    dsimp only
    rw [counted]
    by_cases countFits : (2 + user.length) % 2 ^ 32 + 1 ≤ 513
    · have place : ([1, UInt8.ofNat user.length] ++ user.take (user.length % 2 ^ 32) ++
          [UInt8.ofNat pass.length]).length = ((2 + user.length) % 2 ^ 32 + 1) % 2 ^ 32 := by
        rw [List.length_append, named, List.length_singleton]
        omega
      have whole := copyInside_eq size ([1, UInt8.ofNat user.length] ++ user.take (user.length % 2 ^ 32) ++
        [UInt8.ofNat pass.length]) (by omega) pass
      rw [place, limit] at whole
      rw [if_pos countFits, Option.bind_some, whole]
      by_cases passFits : ((2 + user.length) % 2 ^ 32 + 1) % 2 ^ 32 + pass.length % 2 ^ 32 ≤ 513
      · have length : (((2 + user.length) % 2 ^ 32 + 1) % 2 ^ 32 + pass.length) % 2 ^ 32 =
            (loginBytes user pass).length := by omega
        rw [if_pos passFits, Option.map_some, if_pos (by rw [fits]; omega), length, loginBytes]
      · rw [if_neg passFits, Option.map_none, if_neg (by rw [fits]; omega)]
    · rw [if_neg countFits, Option.bind_none, if_neg (by rw [fits]; omega)]
  · rw [if_neg userFits, Option.bind_none, if_neg (by rw [fits]; omega)]

section Stages

variable (sys : System) (fd : Int)

/-- The function has failed behind this exchange, and the descriptor is closed. -/
def Ended (w : World) (put : Bytes) (exit : Exit) : Prop :=
  ∃ got w', Exchange w got put w' ∧ exit = failing sys fd w'

variable {sys fd}

theorem Ended.after {w w' : World} {got put put' : Bytes} {exit : Exit} (first : Exchange w got put w')
    (ended : Ended sys fd w' put' exit) : Ended sys fd w (put ++ put') exit := by
  obtain ⟨got', w'', later, same⟩ := ended
  exact ⟨got ++ got', w'', first.trans later, same⟩

variable (sys fd)

/-- Several stages write a request and read an answer of a known length. -/
def ask (n m : Nat) (buf : Bytes) (w : World) : Except Exit (Bytes × World) :=
  match atomWrite n buf w with
  | (r, buf, w) =>
      if r ≠ n then .error (failing sys fd w)
      else
        match atomRead m buf w with
        | (r, buf, w) => if r ≠ m then .error (failing sys fd w) else .ok (buf, w)

theorem ask_cases {n : Nat} (m : Nat) {buf : Bytes} (room : n ≤ buf.length) (w : World) :
    (∃ exit put, ask sys fd n m buf w = .error exit ∧ Ended sys fd w put exit ∧ (Willing w → put = buf.take n) ∧
        (Willing w → Calm w → w.stream.length < m)) ∨
      ∃ bytes w', ask sys fd n m buf w = .ok (store buf 0 bytes, w') ∧ bytes.length = m ∧
        Exchange w bytes (buf.take n) w' := by
  obtain ⟨r, put, w', written, short, exchange, broken⟩ | ⟨w', written, exchange⟩ := atomWrite_cases room w
  · refine Or.inl ⟨failing sys fd w', put, ?_, ⟨[], w', exchange, rfl⟩, fun willing => absurd willing broken,
      fun willing => absurd willing broken⟩
    simp only [ask, written, ne_eq, short, not_false_eq_true, if_true]
  · obtain ⟨r, b, got, w'', read, short, later, few⟩ | ⟨bytes, w'', read, full, later⟩ := atomRead_cases m buf w'
    · refine Or.inl ⟨failing sys fd w'', buf.take n, ?_, ⟨got, w'', by simpa using exchange.trans later, rfl⟩,
        fun _ => rfl, fun _ calm => ?_⟩
      · simp only [ask, written, read, ne_eq, not_true, if_false, short, not_false_eq_true, if_true]
      · have all := few (exchange.calm calm)
        rwa [← List.nil_append w'.stream, ← exchange.stream] at all
    · refine Or.inr ⟨bytes, w'', ?_, full, by simpa using exchange.trans later⟩
      simp only [ask, written, read, ne_eq, not_true, if_false]

def hello : Bytes := [5, 2, 0, 2]

/-- The buffer holds the hello. -/
def helloBuf : Bytes := store (List.replicate socks5BufferLength 0) 0 hello

theorem length_helloBuf : helloBuf.length = socks5BufferLength := by
  have room : hello.length ≤ (List.replicate socks5BufferLength (0 : UInt8)).length := by
    rw [List.length_replicate]
    decide
  rw [helloBuf, length_store room, List.length_replicate]

theorem ask_bind {β : Type} (n m : Nat) (buf : Bytes) (w : World) (next : Bytes × World → Except Exit β) :
    (ask sys fd n m buf w).bind next =
      match atomWrite n buf w with
      | (r, buf, w) =>
          if r ≠ n then .error (failing sys fd w)
          else
            match atomRead m buf w with
            | (r, buf, w) => if r ≠ m then .error (failing sys fd w) else next (buf, w) := by
  simp only [ask]
  split_ifs <;> rfl

theorem socks5Hello_eq (w : World) : socks5Hello sys fd w = (ask sys fd 4 2 helloBuf w).bind fun s =>
    if s.1.getD 0 0 ≠ 5 then .error (failing sys fd s.2) else .ok s := by
  rw [ask_bind]
  rfl

/-- The answer is the version and the method. -/
theorem socks5Hello_cases (w : World) :
    (∃ exit put, socks5Hello sys fd w = .error exit ∧ Ended sys fd w put exit ∧ (Willing w → put = hello) ∧
        ∀ method rest, Willing w → Calm w → w.stream ≠ 5 :: method :: rest) ∨
      ∃ method w', socks5Hello sys fd w = .ok (store helloBuf 0 [5, method], w') ∧
        Exchange w [5, method] hello w' := by
  have front : helloBuf.take 4 = hello := take_store _ hello
  rw [socks5Hello_eq]
  obtain ⟨exit, put, asked, ended, whole, few⟩ | ⟨bytes, w', asked, two, exchange⟩ :=
    ask_cases sys fd 2 (show 4 ≤ helloBuf.length by rw [length_helloBuf]; decide) w
  · refine Or.inl ⟨exit, put, by rw [asked]; rfl, ended, fun willing => front ▸ whole willing, ?_⟩
    intro method rest willing calm same
    have short := few willing calm
    rw [same] at short
    simp at short
  · obtain ⟨version, method, rfl⟩ := List.length_eq_two.mp two
    rw [front] at exchange
    have first : (store helloBuf 0 [version, method]).getD 0 0 = version := getD_store _ (by simp)
    by_cases right : version = 5
    · subst right
      exact Or.inr ⟨method, w', by simp only [asked, Except.bind, first]; rfl, exchange⟩
    · refine Or.inl ⟨failing sys fd w', hello, ?_, ⟨_, w', exchange, rfl⟩, fun _ => rfl, ?_⟩
      · simp only [asked, Except.bind, first, ne_eq, right, not_false_eq_true, if_true]
      · intro other rest _ _ same
        rw [exchange.stream] at same
        exact right (List.cons.inj same).1

theorem socks5Login_eq (proxy : Proxy) {buf : Bytes} (size : buf.length = socks5BufferLength)
    (fits : Fits proxy.login.1 proxy.login.2) (w : World) : socks5Login sys fd proxy buf w =
      (ask sys fd (loginBytes proxy.login.1 proxy.login.2).length 2
        (store buf 0 (loginBytes proxy.login.1 proxy.login.2)) w).bind fun s =>
          if s.1.getD 0 0 ≠ 5 then .error (failing sys fd s.2)
          else if s.1.getD 1 0 ≠ 0 then .error (failing sys fd s.2) else .ok s := by
  rw [ask_bind, socks5Login, loginRequest_eq _ _ size, if_pos fits]

/-- The login goes out in full, and its answer is the version and the status zero. -/
theorem socks5Login_cases (proxy : Proxy) {buf : Bytes} (size : buf.length = socks5BufferLength)
    (fits : Fits proxy.login.1 proxy.login.2) (w : World) :
    (∃ exit put, socks5Login sys fd proxy buf w = .error exit ∧ Ended sys fd w put exit ∧
        (Willing w → put = loginBytes proxy.login.1 proxy.login.2) ∧
          ∀ rest, Willing w → Calm w → w.stream ≠ 5 :: 0 :: rest) ∨
      ∃ buf' w', socks5Login sys fd proxy buf w = .ok (buf', w') ∧ buf'.length = socks5BufferLength ∧
        Exchange w [5, 0] (loginBytes proxy.login.1 proxy.login.2) w' := by
  have room : (loginBytes proxy.login.1 proxy.login.2).length ≤ buf.length := by
    rw [length_loginBytes, size]
    exact fits
  have front := take_store buf (loginBytes proxy.login.1 proxy.login.2)
  rw [socks5Login_eq sys fd proxy size fits]
  obtain ⟨exit, put, asked, ended, whole, few⟩ | ⟨bytes, w', asked, two, exchange⟩ :=
    ask_cases sys fd 2 (room.trans_eq (length_store room).symm) w
  · refine Or.inl ⟨exit, put, by rw [asked]; rfl, ended, fun willing => (whole willing).trans front, ?_⟩
    intro rest willing calm same
    have short := few willing calm
    rw [same] at short
    simp at short
  · obtain ⟨version, status, rfl⟩ := List.length_eq_two.mp two
    rw [front] at exchange
    have first : (store (store buf 0 (loginBytes proxy.login.1 proxy.login.2)) 0 [version, status]).getD 0 0 =
        version := getD_store _ (by simp)
    have second : (store (store buf 0 (loginBytes proxy.login.1 proxy.login.2)) 0 [version, status]).getD 1 0 =
        status := getD_store _ (by simp)
    simp only [asked, Except.bind, first, second]
    by_cases right : version = 5 ∧ status = 0
    · obtain ⟨rfl, rfl⟩ := right
      refine Or.inr ⟨_, w', rfl, ?_, exchange⟩
      rw [length_store, length_store room, size]
      rw [length_store room, size]
      decide
    · refine Or.inl ⟨failing sys fd w', _, ?_, ⟨_, w', exchange, rfl⟩, fun _ => rfl, ?_⟩
      · split_ifs with wrong rejected
        · rfl
        · rfl
        · exact absurd ⟨not_not.mp wrong, not_not.mp rejected⟩ right
      · intro rest _ _ same
        rw [exchange.stream] at same
        obtain ⟨first, behind⟩ := List.cons.inj same
        exact right ⟨first, (List.cons.inj behind).1⟩

/-- These bytes are the request for an address of either family. -/
def addressBytes (servaddr : Bytes) : Option Bytes :=
  if familyOf servaddr = AF_INET then some ([5, 1, 0, 1] ++ (servaddr.drop 4).take 4 ++ (servaddr.drop 2).take 2)
  else if familyOf servaddr = AF_INET6 then
    some ([5, 1, 0, 4] ++ (servaddr.drop 8).take 16 ++ (servaddr.drop 2).take 2)
  else none

def requestBytes (addr : Bytes) (port : Int) : Option Bytes := (getAddrInfo sys addr port).bind addressBytes

theorem storage_eq (res : Sockaddr) : store (List.replicate storageSize 0) 0 res.bytes =
    res.bytes ++ List.replicate (storageSize - res.bytes.length) 0 := by
  simp [store]

/-- The bytes behind an address in the storage are zero. -/
theorem familyOf_store (res : Sockaddr) :
    familyOf (store (List.replicate storageSize 0) 0 res.bytes) = familyOf res.bytes := by
  have same : ∀ i, (store (List.replicate storageSize 0) 0 res.bytes).getD i 0 = res.bytes.getD i 0 := by
    intro i
    rw [storage_eq]
    by_cases inside : i < res.bytes.length
    · exact List.getD_append _ _ _ _ inside
    · rw [List.getD_append_right _ _ _ _ (by omega), List.getD_eq_getElem?_getD,
        List.getElem?_getD_replicate_default_eq, List.getD_eq_default _ _ (by omega)]
  simp only [familyOf, same]

theorem getAddrInfo_some {addr : Bytes} {port : Int} {servaddr : Bytes}
    (found : getAddrInfo sys addr port = some servaddr) :
    servaddr.length = storageSize ∧ familyOf servaddr ≠ 0 := by
  rw [getAddrInfo] at found
  split at found
  · contradiction
  · rename_i res resolved
    split at found
    · contradiction
    · rename_i within
      obtain rfl := Option.some.inj found
      have room : res.bytes.length ≤ (List.replicate storageSize (0 : UInt8)).length := by
        rw [List.length_replicate]
        omega
      refine ⟨by rw [length_store room, List.length_replicate], ?_⟩
      rw [familyOf_store]
      exact res.named

/-- The three stores of a request fill the buffer from the front. -/
theorem store_request (buf front addr port : Bytes) {i j : Nat} (first : front.length = i)
    (second : (front ++ addr).length = j) :
    store (store (store buf 0 front) i addr) j port = store buf 0 (front ++ addr ++ port) := by
  subst first second
  rw [store_store, store_store]

theorem length_field {servaddr : Bytes} (size : servaddr.length = storageSize) {place n : Nat}
    (inside : place + n ≤ storageSize) : ((servaddr.drop place).take n).length = n := by
  rw [List.length_take, List.length_drop]
  omega

theorem socks5Address_eq {addr servaddr : Bytes} (size : servaddr.length = storageSize)
    (named : familyOf servaddr ≠ 0) (buf : Bytes) (w : World) : socks5Address sys fd addr servaddr buf w =
      (addressBytes servaddr).elim (.error (failing sys fd w)) fun request =>
        .ok (store buf 0 request, request.length) := by
  have port : ((servaddr.drop 2).take 2).length = 2 := length_field size (by decide)
  rw [socks5Address, if_neg named, addressBytes]
  split_ifs
  · have ip : ((servaddr.drop 4).take 4).length = 4 := length_field size (by decide)
    have front : ([5, 1, 0, 1] ++ (servaddr.drop 4).take 4).length = 8 := by rw [List.length_append, ip]; rfl
    have stored := store_request buf [5, 1, 0, 1] _ ((servaddr.drop 2).take 2) rfl front
    dsimp only [Option.elim]
    rw [List.length_append, front, port, ← stored]
    rfl
  · have ip : ((servaddr.drop 8).take 16).length = 16 := length_field size (by decide)
    have front : ([5, 1, 0, 4] ++ (servaddr.drop 8).take 16).length = 20 := by rw [List.length_append, ip]; rfl
    have stored := store_request buf [5, 1, 0, 4] _ ((servaddr.drop 2).take 2) rfl front
    dsimp only [Option.elim]
    rw [List.length_append, front, port, ← stored]
    rfl
  · rfl

theorem length_addressBytes {servaddr request : Bytes} (some : addressBytes servaddr = some request) :
    request.length ≤ 22 := by
  rw [addressBytes] at some
  split_ifs at some
  · obtain rfl := Option.some.inj some
    simp only [List.length_append, List.length_take, List.length_cons, List.length_nil]
    omega
  · obtain rfl := Option.some.inj some
    simp only [List.length_append, List.length_take, List.length_cons, List.length_nil]
    omega

/-- The request goes out in full when there is an address of a known family. -/
theorem socks5Request_cases (addr : Bytes) (port : Int) {buf : Bytes} (size : buf.length = socks5BufferLength)
    (w : World) :
    (∃ exit put, socks5Request sys fd addr port buf w = .error exit ∧ Ended sys fd w put exit ∧
        ((requestBytes sys addr port).isSome → ¬ Willing w)) ∨
      ∃ request buf' w', requestBytes sys addr port = some request ∧
        socks5Request sys fd addr port buf w = .ok (buf', w') ∧ Exchange w [] request w' := by
  rw [socks5Request, requestBytes]
  cases resolved : getAddrInfo sys addr port with
  | none => exact Or.inl ⟨_, [], rfl, ⟨[], w, .refl w, rfl⟩, by simp⟩
  | some servaddr =>
      obtain ⟨length, named⟩ := getAddrInfo_some sys resolved
      simp only [Option.bind_some, socks5Address_eq sys fd length named]
      cases known : addressBytes servaddr with
      | none => exact Or.inl ⟨_, [], rfl, ⟨[], w, .refl w, rfl⟩, by simp⟩
      | some request =>
          have short := length_addressBytes known
          have limit : socks5BufferLength = 513 := rfl
          have room : request.length ≤ buf.length := by omega
          obtain ⟨r, put, w', written, short, exchange, broken⟩ | ⟨w', written, exchange⟩ :=
            atomWrite_cases (room.trans_eq (length_store room).symm) w
          · refine Or.inl ⟨failing sys fd w', put, ?_, ⟨[], w', exchange, rfl⟩, fun _ => broken⟩
            simp only [Option.elim, Except.bind, written, ne_eq, short, not_false_eq_true, if_true]
          · rw [take_store] at exchange
            refine Or.inr ⟨request, store buf 0 request, w', rfl, ?_, exchange⟩
            simp only [Option.elim, Except.bind, written, ne_eq, not_true, if_false]

theorem replyLength_store (buf : Bytes) {head : Bytes} (five : head.length = 5) :
    replyLength (store buf 0 head) = replyLength head := by
  simp only [replyLength, getD_store buf (show 3 < head.length by omega),
    getD_store buf (show 4 < head.length by omega)]

/-- The reply is the version, the status zero, a reserved byte, the type of the address, and the rest of it. -/
theorem socks5Reply_cases (buf : Bytes) (w : World) :
    (Ended sys fd w [] (socks5Reply sys fd buf w) ∧ ∀ r t x tail rest,
        tail.length = replyLength [5, 0, r, t, x] → Calm w → w.stream ≠ [5, 0, r, t, x] ++ tail ++ rest) ∨
      ∃ r t x tail w', tail.length = replyLength [5, 0, r, t, x] ∧
        Exchange w ([5, 0, r, t, x] ++ tail) [] w' ∧ socks5Reply sys fd buf w = .returned fd w' := by
  rw [socks5Reply]
  obtain ⟨n, b, got, w', read, short, exchange, few⟩ | ⟨head, w', read, five, exchange⟩ := atomRead_cases 5 buf w
  · refine Or.inl ⟨⟨got, w', exchange, ?_⟩, fun r t x tail rest _ calm same => ?_⟩
    · simp only [read, ne_eq, short, not_false_eq_true, if_true]
    · have less := few calm
      simp only [same, List.length_append, List.length_cons, List.length_nil] at less
      omega
  · have rest : replyLength (store buf 0 head) = replyLength head := replyLength_store buf five
    have first : (store buf 0 head).getD 0 0 = head.getD 0 0 := getD_store buf (by omega)
    have second : (store buf 0 head).getD 1 0 = head.getD 1 0 := getD_store buf (by omega)
    simp only [read, ne_eq, not_true, if_false, first, second, rest]
    obtain ⟨version, status, r, t, x, rfl⟩ : ∃ a b c d e, head = [a, b, c, d, e] := by
      match head, five with
      | [a, b, c, d, e], _ => exact ⟨a, b, c, d, e, rfl⟩
    -- The bytes that were read are the front of the stream.
    have front : ∀ {r' t' x' : UInt8} {tail rest' : Bytes}, w.stream = [5, 0, r', t', x'] ++ tail ++ rest' →
        [version, status, r, t, x] = [5, 0, r', t', x'] ∧ w'.stream = tail ++ rest' := by
      intro r' t' x' tail rest' same
      rw [exchange.stream, List.append_assoc] at same
      exact List.append_inj same rfl
    by_cases granted : version = 5 ∧ status = 0
    · obtain ⟨rfl, rfl⟩ := granted
      obtain ⟨m, b, got, w'', read', short, later, few⟩ | ⟨tail, w'', read', full, later⟩ :=
        atomRead_cases (replyLength [5, 0, r, t, x]) (store buf 0 [5, 0, r, t, x]) w'
      · refine Or.inl ⟨⟨_, w'', exchange.andRead later, ?_⟩, fun r' t' x' tail rest' length calm same => ?_⟩
        · simp [read', short]
        · obtain ⟨heads, behind⟩ := front same
          have less := few (exchange.calm calm)
          rw [heads, behind, List.length_append] at less
          omega
      · refine Or.inr ⟨r, t, x, tail, w'', full, exchange.andRead later, ?_⟩
        simp [read']
    · refine Or.inl ⟨⟨_, w', exchange, ?_⟩, fun r' t' x' tail rest' _ _ same => ?_⟩
      · by_cases right : version = 5
        · have refused : status ≠ 0 := fun zero => granted ⟨right, zero⟩
          simp [right, refused]
        · simp [right]
      · obtain ⟨heads, -⟩ := front same
        simp only [List.cons.injEq] at heads
        exact granted ⟨heads.1, heads.2.1⟩

/-- These are the dialogues in front of the request. -/
inductive Agreed (user pass : Bytes) : Bytes → Bytes → Prop where
  | noAuth : Agreed user pass [5, 0] hello
  | gssapi : Agreed user pass [5, 1] hello
  | login (fits : Fits user pass) : Agreed user pass ([5, 2] ++ [5, 0]) (hello ++ loginBytes user pass)

/-- The server asks for the login. -/
def LoginAsked (w : World) : Prop :=
  ∃ w' w'', atomWrite 4 helloBuf w = (4, helloBuf, w') ∧ atomRead 2 helloBuf w' = (2, store helloBuf 0 [5, 2], w'')

theorem answered_method (method : UInt8) : (store helloBuf 0 [5, method]).getD 1 0 = method := by
  rw [getD_store helloBuf (show 1 < ([5, method] : Bytes).length from Nat.lt_succ_self 1)]
  rfl

theorem length_answered (method : UInt8) : (store helloBuf 0 [5, method]).length = socks5BufferLength := by
  rw [length_store, length_helloBuf]
  rw [length_helloBuf]
  exact (by decide : 2 ≤ socks5BufferLength)

/-- The stages in front of the reply. -/
def socks5Dialogue (addr : Bytes) (port : Int) (proxy : Proxy) (w : World) : Except Exit (Bytes × World) :=
  (socks5Hello sys fd w).bind fun s => (socks5Method sys fd proxy s.1 s.2).bind fun s =>
    socks5Request sys fd addr port s.1 s.2

theorem socks5Connect_eq (addr : Bytes) (port : Int) (proxy : Proxy) (w : World) :
    socks5Connect sys fd addr port proxy w =
      match socks5Dialogue sys fd addr port proxy w with
      | .error exit => exit
      | .ok (buf, w) => socks5Reply sys fd buf w := rfl

theorem socks5Hello_asked (w : World) :
    LoginAsked w ↔ ∃ w', socks5Hello sys fd w = .ok (store helloBuf 0 [5, 2], w') := by
  rw [socks5Hello_eq]
  constructor
  · rintro ⟨w', w'', written, read⟩
    have version : (store helloBuf 0 [5, 2]).getD 0 0 = 5 := getD_store helloBuf (by decide)
    refine ⟨w'', ?_⟩
    simp only [ask, written, read, ne_eq, not_true, if_false, Except.bind, version]
  · rintro ⟨w'', passed⟩
    obtain ⟨r, put, w', written, short, -⟩ | ⟨w', written, -⟩ :=
      atomWrite_cases (show 4 ≤ helloBuf.length by rw [length_helloBuf]; decide) w
    · simp [ask, written, short, Except.bind] at passed
    · obtain ⟨r, b, got, v, read, short, -⟩ | ⟨bytes, v, read, two, -⟩ := atomRead_cases 2 helloBuf w'
      · simp [ask, written, read, short, Except.bind] at passed
      · simp only [ask, written, read, ne_eq, not_true, if_false, Except.bind] at passed
        split at passed
        · contradiction
        · obtain ⟨same, rfl⟩ := Prod.mk.inj (Except.ok.inj passed)
          have fronts := congrArg (List.take 2) same
          rw [← two, take_store, two, show 2 = ([5, 2] : Bytes).length from rfl, take_store] at fronts
          exact ⟨w', v, written, fronts ▸ read⟩

/-- The dialogue goes on with the method that the server has chosen. -/
theorem socks5Dialogue_hello {addr : Bytes} {port : Int} {proxy : Proxy} {w v : World} {buf : Bytes}
    (passed : socks5Hello sys fd w = .ok (buf, v)) : socks5Dialogue sys fd addr port proxy w =
      (socks5Method sys fd proxy buf v).bind fun s => socks5Request sys fd addr port s.1 s.2 := by
  rw [socks5Dialogue, passed]
  rfl

/-- GSSAPI is taken for no authentication. -/
theorem socks5Method_passes (proxy : Proxy) {buf : Bytes} (plain : buf.getD 1 0 = 0 ∨ buf.getD 1 0 = 1) (w : World) :
    socks5Method sys fd proxy buf w = .ok (buf, w) := by
  rw [socks5Method]
  rcases plain with none | gssapi
  · rw [if_pos none]
  · rw [gssapi, if_neg (by decide), if_pos rfl]

theorem socks5Method_login (proxy : Proxy) {buf : Bytes} (chosen : buf.getD 1 0 = 2) (w : World) :
    socks5Method sys fd proxy buf w = socks5Login sys fd proxy buf w := by
  rw [socks5Method, chosen, if_neg (by decide), if_neg (by decide), if_pos rfl]

/-- An answer with the version always gets through. -/
theorem socks5Hello_answered {w : World} {method : UInt8} {rest : Bytes} (stream : w.stream = 5 :: method :: rest)
    (calm : Calm w) (willing : Willing w) : ∃ buf v, socks5Hello sys fd w = .ok (buf, v) ∧ buf.getD 1 0 = method ∧
      buf.length = socks5BufferLength ∧ Exchange w [5, method] hello v ∧ v.stream = rest := by
  obtain ⟨exit, put, -, -, -, other⟩ | ⟨method', v, passed, exchange⟩ := socks5Hello_cases sys fd w
  · exact absurd stream (other method rest willing calm)
  · have answer := exchange.stream
    rw [stream] at answer
    obtain ⟨rfl, rfl⟩ : method = method' ∧ rest = v.stream := by simpa using answer
    exact ⟨_, v, passed, answered_method method, length_answered method, exchange, rfl⟩

/-- The request is sent behind every dialogue that the server may choose. -/
theorem socks5Dialogue_agreed {addr : Bytes} {port : Int} {proxy : Proxy} {w : World} {got put request rest : Bytes}
    (agreed : Agreed proxy.login.1 proxy.login.2 got put) (stream : w.stream = got ++ rest) (calm : Calm w)
    (willing : Willing w) (known : requestBytes sys addr port = some request) :
    ∃ buf v, socks5Dialogue sys fd addr port proxy w = .ok (buf, v) ∧ Exchange w got (put ++ request) v := by
  have requested : ∀ {buf v}, Exchange w got put v → buf.length = socks5BufferLength →
      ∃ buf' v', socks5Request sys fd addr port buf v = .ok (buf', v') ∧ Exchange w got (put ++ request) v' := by
    intro buf v exchange size
    obtain ⟨exit, put', -, -, unwilling⟩ | ⟨request', buf', v', known', sent, later⟩ :=
      socks5Request_cases sys fd addr port size v
    · exact absurd (exchange.willing willing) (unwilling (by rw [known]; rfl))
    · obtain rfl := Option.some.inj (known.symm.trans known')
      exact ⟨buf', v', sent, exchange.andWrite later⟩
  cases agreed with
  | noAuth =>
      obtain ⟨buf, v, passed, chosen, size, exchange, -⟩ := socks5Hello_answered sys fd stream calm willing
      rw [socks5Dialogue_hello sys fd passed, socks5Method_passes sys fd proxy (Or.inl chosen)]
      exact requested exchange size
  | gssapi =>
      obtain ⟨buf, v, passed, chosen, size, exchange, -⟩ := socks5Hello_answered sys fd stream calm willing
      rw [socks5Dialogue_hello sys fd passed, socks5Method_passes sys fd proxy (Or.inr chosen)]
      exact requested exchange size
  | login fits =>
      obtain ⟨buf, v, passed, chosen, size, exchange, behind⟩ := socks5Hello_answered sys fd stream calm willing
      rw [socks5Dialogue_hello sys fd passed, socks5Method_login sys fd proxy chosen]
      obtain ⟨exit, put, -, -, -, other⟩ | ⟨buf', v', granted, size', later⟩ :=
        socks5Login_cases sys fd proxy size fits v
      · exact absurd behind (other rest (exchange.willing willing) (exchange.calm calm))
      · rw [granted]
        exact requested (exchange.trans later) size'

/-- The server chooses a method, and the client logs in where it is asked to. -/
theorem socks5Dialogue_cases (addr : Bytes) (port : Int) (proxy : Proxy) (w : World) :
    (LoginAsked w ∧ ¬ Fits proxy.login.1 proxy.login.2) ∧
        socks5Dialogue sys fd addr port proxy w = .error .overrun ∨
      ¬ (LoginAsked w ∧ ¬ Fits proxy.login.1 proxy.login.2) ∧
        ((∃ exit put, socks5Dialogue sys fd addr port proxy w = .error exit ∧ Ended sys fd w put exit) ∨
          ∃ got put request buf w', socks5Dialogue sys fd addr port proxy w = .ok (buf, w') ∧
            Agreed proxy.login.1 proxy.login.2 got put ∧ requestBytes sys addr port = some request ∧
              Exchange w got (put ++ request) w') := by
  -- The request comes behind any dialogue.
  have requested : ∀ got put buf v, Agreed proxy.login.1 proxy.login.2 got put → Exchange w got put v →
      buf.length = socks5BufferLength →
      (∃ exit put, socks5Request sys fd addr port buf v = .error exit ∧ Ended sys fd w put exit) ∨
        ∃ got put request buf' w', socks5Request sys fd addr port buf v = .ok (buf', w') ∧
          Agreed proxy.login.1 proxy.login.2 got put ∧ requestBytes sys addr port = some request ∧
            Exchange w got (put ++ request) w' := by
    intro got put buf v agreed exchange size
    obtain ⟨exit, put', failed, ended, -⟩ | ⟨request, buf', w', known, passed, later⟩ :=
      socks5Request_cases sys fd addr port size v
    · exact Or.inl ⟨exit, put ++ put', failed, ended.after exchange⟩
    · exact Or.inr ⟨got, put, request, buf', w', passed, agreed, known, exchange.andWrite later⟩
  rw [socks5Hello_asked sys fd w]
  obtain ⟨exit, put, failed, ended, -⟩ | ⟨method, v, passed, exchange⟩ := socks5Hello_cases sys fd w
  · exact Or.inr ⟨by simp [failed], Or.inl ⟨exit, put, by rw [socks5Dialogue, failed]; rfl, ended⟩⟩
  have asked : (∃ w', socks5Hello sys fd w = .ok (store helloBuf 0 [5, 2], w')) ↔ method = 2 := by
    constructor
    · rintro ⟨w', other⟩
      have bufs := (Prod.mk.inj (Except.ok.inj (passed.symm.trans other))).1
      rw [← answered_method method, bufs, answered_method]
    · rintro rfl
      exact ⟨v, passed⟩
  have chosen := answered_method method
  have length := length_answered method
  rw [asked, socks5Dialogue_hello sys fd passed]
  generalize store helloBuf 0 [5, method] = buf at chosen length
  rw [socks5Method, chosen]
  split_ifs with none gssapi login
  · subst none
    exact Or.inr ⟨fun both => absurd both.1 (by decide), requested _ _ buf v .noAuth exchange length⟩
  · subst gssapi
    exact Or.inr ⟨fun both => absurd both.1 (by decide), requested _ _ buf v .gssapi exchange length⟩
  · subst login
    by_cases fits : Fits proxy.login.1 proxy.login.2
    · obtain ⟨exit, put, failed, ended, -⟩ | ⟨buf', w', granted, size, later⟩ :=
        socks5Login_cases sys fd proxy length fits v
      · rw [failed]
        exact Or.inr ⟨fun both => both.2 fits, Or.inl ⟨exit, hello ++ put, rfl, ended.after exchange⟩⟩
      · rw [granted]
        exact Or.inr ⟨fun both => both.2 fits, requested _ _ buf' w' (.login fits) (exchange.trans later) size⟩
    · rw [socks5Login, loginRequest_eq _ _ length, if_neg fits]
      exact Or.inl ⟨⟨rfl, fits⟩, rfl⟩
  · exact Or.inr ⟨fun both => login both.1, Or.inl ⟨failing sys fd v, hello, rfl, ⟨_, v, exchange, rfl⟩⟩⟩

/-- The descriptor is returned or closed behind an exchange that writes these bytes. -/
def Reaches (w : World) (put : Bytes) (exit : Exit) : Prop :=
  ∃ got w', Exchange w got put w' ∧ (exit = .returned fd w' ∨ exit = failing sys fd w')

variable {sys fd}

theorem Ended.reaches {w : World} {put : Bytes} {exit : Exit} (ended : Ended sys fd w put exit) :
    Reaches sys fd w put exit := by
  obtain ⟨got, w', exchange, same⟩ := ended
  exact ⟨got, w', exchange, Or.inr same⟩

theorem Reaches.after {w w' : World} {got put put' : Bytes} {exit : Exit} (first : Exchange w got put w')
    (reaches : Reaches sys fd w' put' exit) : Reaches sys fd w (put ++ put') exit := by
  obtain ⟨got', w'', later, same⟩ := reaches
  exact ⟨got ++ got', w'', first.trans later, same⟩

theorem Reaches.sent {w : World} {put : Bytes} {exit : Exit} (reaches : Reaches sys fd w put exit) :
    ∃ rval w', exit = .returned rval w' ∧ w'.sent = w.sent ++ put := by
  obtain ⟨got, w', exchange, rfl | rfl⟩ := reaches
  · exact ⟨fd, w', rfl, exchange.sent⟩
  · refine ⟨-1, _, rfl, ?_⟩
    rw [closeConnection]
    split <;> exact exchange.sent

variable (sys fd)

theorem socks5Connect_reaches (addr : Bytes) (port : Int) (proxy : Proxy) (w : World) :
    (LoginAsked w ∧ ¬ Fits proxy.login.1 proxy.login.2) ∧ socks5Connect sys fd addr port proxy w = .overrun ∨
      ¬ (LoginAsked w ∧ ¬ Fits proxy.login.1 proxy.login.2) ∧
        ∃ put, Reaches sys fd w put (socks5Connect sys fd addr port proxy w) := by
  rw [socks5Connect_eq]
  obtain ⟨long, dialogue⟩ | ⟨fits, ⟨exit, put, dialogue, ended⟩ |
      ⟨got, put, request, buf, v, dialogue, -, -, exchange⟩⟩ := socks5Dialogue_cases sys fd addr port proxy w
  · exact Or.inl ⟨long, by rw [dialogue]⟩
  · exact Or.inr ⟨fits, put, by rw [dialogue]; exact ended.reaches⟩
  · refine Or.inr ⟨fits, put ++ request ++ [], ?_⟩
    rw [dialogue]
    obtain ⟨ended, -⟩ | ⟨r, t, x, tail, w', -, later, done⟩ := socks5Reply_cases sys fd buf v
    · exact ended.reaches.after exchange
    · exact Reaches.after exchange ⟨_, w', later, Or.inl done⟩

end Stages

end Piercloud.Connection
