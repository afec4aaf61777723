import Piercloud.Proof.Connection.Stages

/-
This file says what an HTTP proxy and a SOCKS4 proxy get, and that these runs end in one of the two ways too.
-/

namespace Piercloud.Connection

open CLib Liblst Loop

section Requests

variable (sys : System) (fd : Int)

/-- A row ends the loop in one of two ways, or it takes some bytes. -/
theorem httpRowStep_cases (r : Nat) (w : World) :
    (∃ exit, httpRowStep sys fd (r, w) = .inr exit ∧ Reaches sys fd w [] exit) ∨
      ∃ got w', httpRowStep sys fd (r, w) = .inl (r + 1, w') ∧ Exchange w got [] w' ∧ got ≠ [] := by
  obtain ⟨row, got, w', taken, exchange, real⟩ := getSockRow_spec w
  cases row with
  | none => exact Or.inl ⟨_, by simp only [httpRowStep, taken], got, w', exchange, Or.inr rfl⟩
  | some row =>
      by_cases refused : r = 0 ∧ row.take 12 ≠ text "HTTP/1.0 200"
      · exact Or.inl ⟨_, by simp only [httpRowStep, taken, if_pos refused], got, w', exchange, Or.inr rfl⟩
      · by_cases last : row.headD NUL = NUL ∨ row.headD NUL = CR
        · refine Or.inl ⟨_, ?_, got, w', exchange, Or.inl rfl⟩
          simp only [httpRowStep, taken, if_neg refused, if_pos last]
        · exact Or.inr ⟨got, w', by simp only [httpRowStep, taken, if_neg refused, if_neg last], exchange, real rfl⟩

theorem httpRows_reaches (w : World) : Reaches sys fd w [] (httpRows sys fd w) := by
  let keeps : Nat × World → Prop := fun s => ∃ got, Exchange w got [] s.2
  have kept : ∀ s t, keeps s → httpRowStep sys fd s = .inl t → keeps t ∧ t.2.stream.length < s.2.stream.length := by
    rintro ⟨r, v⟩ t ⟨got, exchange⟩ step
    obtain ⟨exit, stops, -⟩ | ⟨more, v', goesOn, later, real⟩ := httpRowStep_cases sys fd r v
    · simp [stops] at step
    · obtain rfl := Sum.inl.inj (goesOn.symm.trans step)
      have positive := List.length_pos_iff.mpr real
      refine ⟨⟨got ++ more, exchange.trans later⟩, ?_⟩
      simp only [later.stream, List.length_append]
      omega
  have start : keeps (0, w) := ⟨[], .refl w⟩
  obtain ⟨exit, ⟨r, v⟩, found, ⟨got, exchange⟩, last⟩ :=
    loop_result (fun s => s.2.stream.length) kept start (Nat.lt_succ_self w.stream.length)
  have result : httpRows sys fd w = exit := by
    rw [httpRows, found, Option.getD_some]
  rw [result]
  obtain ⟨exit', stops, reaches⟩ | ⟨more, v', goesOn, -⟩ := httpRowStep_cases sys fd r v
  · obtain rfl := Sum.inr.inj (stops.symm.trans last)
    exact reaches.after exchange
  · simp [goesOn] at last

/-- The request has no terminator inside. -/
theorem nul_not_mem_httpRequest (addr : Bytes) (port : Int) : NUL ∉ httpRequest addr port := by
  have name : (0 : UInt8) ∉ cstr addr := nul_not_mem_cstr addr
  have number : (0 : UInt8) ∉ decimal (ntohs port) := decimal_absent _ (by decide)
  rw [httpRequest]
  split <;> simp [name, number, text, NUL]

/-- The request goes out in full when it is not refused. -/
theorem httpConnect_reaches (addr : Bytes) (port : Int) (w : World) :
    ∃ put, Reaches sys fd w put (httpConnect sys fd addr port w) ∧
      ((∀ c ∈ cstr addr, c ∉ text "\r\n\t []:") → (httpRequest addr port).length < maxHttpBuf → Willing w →
        put = httpRequest addr port) := by
  by_cases refused : (cstr addr).any fun c => c ∈ text "\r\n\t []:"
  · refine ⟨[], ⟨[], w, .refl w, Or.inr (by rw [httpConnect, if_pos refused])⟩, fun clean => ?_⟩
    obtain ⟨c, member, special⟩ := List.any_eq_true.mp refused
    exact absurd (of_decide_eq_true special) (clean c member)
  by_cases long : maxHttpBuf ≤ (httpRequest addr port).length
  · refine ⟨[], ⟨[], w, .refl w, Or.inr ?_⟩, fun _ short => absurd short (not_lt.mpr long)⟩
    simp only [httpConnect, if_neg refused, if_pos long]
  have room : (httpRequest addr port).length ≤ (List.replicate maxHttpBuf (0 : UInt8)).length := by
    rw [List.length_replicate]
    omega
  have whole : strlen (store (List.replicate maxHttpBuf 0) 0 (httpRequest addr port)) =
      (httpRequest addr port).length := by
    obtain ⟨k, rest⟩ := Nat.exists_eq_add_of_lt (not_le.mp long)
    have shape : store (List.replicate maxHttpBuf 0) 0 (httpRequest addr port) =
        httpRequest addr port ++ NUL :: List.replicate k 0 := by
      rw [store, List.drop_replicate, Nat.zero_add, rest, Nat.add_assoc, Nat.add_sub_cancel_left]
      simp [List.replicate_succ, NUL]
    rw [strlen, shape, cstr_append_nul (nul_not_mem_httpRequest addr port)]
  obtain ⟨r, put, w', written, short, exchange, broken⟩ | ⟨w', written, exchange⟩ :=
    atomWrite_cases (room.trans_eq (length_store room).symm) w
  · refine ⟨put, ⟨[], w', exchange, Or.inr ?_⟩, fun _ _ willing => absurd willing broken⟩
    simp only [httpConnect, if_neg refused, if_neg long, whole, written, ne_eq, short, not_false_eq_true, if_true]
  · rw [take_store] at exchange
    have rows := (httpRows_reaches sys fd w').after exchange
    rw [List.append_nil] at rows
    refine ⟨_, ?_, fun _ _ _ => rfl⟩
    simp only [httpConnect, if_neg refused, if_neg long, whole, written, ne_eq, not_true, if_false]
    exact rows

/-- These bytes are the SOCKS4 request. -/
def socks4Request (servaddr : SockaddrIn) : Bytes := [4, 1] ++ servaddr.sinPort ++ servaddr.sinAddr ++ [0]

/-- This is the buffer with the request. -/
def socks4Buf (servaddr : SockaddrIn) : Bytes :=
  store (store (store (store (List.replicate socks4RequestLength 0) 0 [4, 1]) 2 servaddr.sinPort) 4 servaddr.sinAddr)
    8 [0]

theorem length_socks4Buf {servaddr : SockaddrIn} (port : servaddr.sinPort.length = 2)
    (ip : servaddr.sinAddr.length ≤ 4) : (socks4Buf servaddr).length = socks4RequestLength := by
  have nine : socks4RequestLength = 9 := rfl
  have first : (store (List.replicate socks4RequestLength (0 : UInt8)) 0 [4, 1]).length = 9 := by
    rw [length_store] <;> rw [List.length_replicate, nine]
    decide
  have second : (store (store (List.replicate socks4RequestLength 0) 0 [4, 1]) 2 servaddr.sinPort).length = 9 := by
    rw [length_storeAt, first]
    rw [first, port]
    decide
  have third : (store (store (store (List.replicate socks4RequestLength 0) 0 [4, 1]) 2 servaddr.sinPort) 4
      servaddr.sinAddr).length = 9 := by
    rw [length_storeAt, second]
    rw [second]
    omega
  exact (length_storeAt (by rw [third]; decide)).trans third

theorem take_socks4Buf {servaddr : SockaddrIn} (port : servaddr.sinPort.length = 2)
    (ip : servaddr.sinAddr.length = 4) : (socks4Buf servaddr).take socks4RequestLength = socks4Request servaddr := by
  have filled : socks4Buf servaddr = store (List.replicate socks4RequestLength 0) 0 (socks4Request servaddr) := by
    have eight : ([4, 1] ++ servaddr.sinPort ++ servaddr.sinAddr).length = 8 := by
      rw [List.length_append, List.length_append, port, ip]
      rfl
    have four : ([4, 1] ++ servaddr.sinPort).length = 4 := by
      rw [List.length_append, port]
      rfl
    have inner := store_request (List.replicate socks4RequestLength 0) [4, 1] servaddr.sinPort servaddr.sinAddr
      (show _ = 2 from rfl) four
    have last := store_store (List.replicate socks4RequestLength 0) ([4, 1] ++ servaddr.sinPort ++ servaddr.sinAddr) [0]
    rw [eight] at last
    rw [socks4Buf, inner, last, socks4Request]
  have nine : (socks4Request servaddr).length = socks4RequestLength := by
    simp only [socks4Request, List.length_append, port, ip]
    rfl
  rw [filled, ← nine, take_store]

theorem socks4Connect_reaches (addr : Bytes) (port : Int) (w : World) :
    ∃ put, Reaches sys fd w put (socks4Connect sys fd addr port w) ∧
      ∀ servaddr, prepareSockaddr sys addr port = some servaddr → servaddr.sinAddr.length = 4 → Willing w →
        put = socks4Request servaddr := by
  cases prepared : prepareSockaddr sys addr port with
  | none => exact ⟨[], ⟨[], w, .refl w, Or.inr (by simp only [socks4Connect, prepared])⟩, by simp⟩
  | some servaddr =>
      obtain ⟨h, -, same⟩ := Option.map_eq_some_iff.mp prepared
      have two : servaddr.sinPort.length = 2 := by rw [← same]; rfl
      have ip : servaddr.sinAddr.length ≤ 4 := by rw [← same]; exact List.length_take_le _ _
      have room := length_socks4Buf two ip
      have filled : store (store (store (store (List.replicate socks4RequestLength 0) 0 [4, 1]) 2 servaddr.sinPort) 4
          servaddr.sinAddr) 8 [0] = socks4Buf servaddr := rfl
      simp only [socks4Connect, prepared, filled]
      obtain ⟨r, put, w', written, short, exchange, broken⟩ | ⟨w', written, exchange⟩ :=
        atomWrite_cases room.ge w
      · refine ⟨put, ⟨[], w', exchange, Or.inr ?_⟩, fun _ _ _ willing => absurd willing broken⟩
        simp only [written, ne_eq, short, not_false_eq_true, if_true]
      · refine ⟨(socks4Buf servaddr).take socks4RequestLength, ?_, fun other found four _ => ?_⟩
        · obtain ⟨r, b, got, v, read, short, later, -⟩ | ⟨bytes, v, read, -, later⟩ :=
            atomRead_cases socks4RespondLength (socks4Buf servaddr) w'
          · refine ⟨got, v, by simpa using exchange.trans later, Or.inr ?_⟩
            simp only [written, read, ne_eq, not_true, if_false, short, not_false_eq_true, if_true]
          · refine ⟨bytes, v, by simpa using exchange.trans later, ?_⟩
            simp only [written, read, ne_eq, not_true, if_false]
            split_ifs
            · exact Or.inl rfl
            · exact Or.inr rfl
        · obtain rfl := Option.some.inj found
          exact take_socks4Buf two four

end Requests

end Piercloud.Connection
