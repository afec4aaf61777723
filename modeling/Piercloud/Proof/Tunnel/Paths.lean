import Piercloud.Construction.Paths
import Piercloud.Construction.Wire

/-
This file shows that the client and the two sides of the server name the same FIFOs, and that no two names clash.
-/

namespace Piercloud.Cgi

open CLib Liblst Socket Client Wire

/-- The host of the client's own requests has two labels. -/
theorem mainRoute_own {environ : List Bytes} {uri : Bytes}
    (host : getenv environ (text "HTTP_HOST") = some (text "piercloud.com"))
    (asked : getenv environ (text "REQUEST_URI") = some uri) : mainRoute environ = some (uriRoute uri) := by
  have labels : lstSplitStr 46 (text "piercloud.com") = [text "piercloud", text "com"] := by decide
  simp only [mainRoute, host, labels, asked, Option.map_some]

/-- The word between the first two blanks is the target. -/
theorem requestTarget_eq {method target : Bytes} (methodBlank : 32 ∉ method) (targetBlank : 32 ∉ target)
    (rest : Bytes) : requestTarget (method ++ 32 :: (target ++ 32 :: rest)) = target := by
  rw [requestTarget, List.splitOn_append_cons_self_of_not_mem methodBlank,
    List.splitOn_append_cons_self_of_not_mem targetBlank]
  rfl

theorem uriRoute_connect {n : Nat} (fits : n < 2 ^ 63) : uriRoute (47 :: decimal n) = .connect n := by
  have absent : strchr (decimal n) 47 = none := by
    rw [strchr]
    exact findIdx_none fun member => decimal_absent n (by decide) (mem_of_mem_cstr member)
  rw [uriRoute, List.drop_one, List.tail_cons, absent, atol, strtol_decimal fits]

theorem uriRoute_respond {n p : Nat} (fits : n < 2 ^ 63) (fits' : p < 2 ^ 63) :
    uriRoute (47 :: (decimal n ++ 47 :: decimal p)) = .respond n p := by
  have found : strchr (decimal n ++ 47 :: decimal p) 47 = some (decimal n).length :=
    strchr_split (decimal_absent n (by decide)) (decimal_absent n (by decide)) (by decide) _
  have tail : (decimal n ++ 47 :: decimal p).drop ((decimal n).length + 1) = decimal p := by
    rw [← List.drop_drop, List.drop_left, List.drop_one, List.tail_cons]
  simp only [uriRoute, List.drop_one, List.tail_cons, found]
  rw [tail, List.take_left, atol, atol, strtol_decimal fits, strtol_decimal fits']

/-- These are the names of a device and a process, up to the common front. -/
theorem devicePath_injective {n m : Nat} {rest rest' : Bytes} (start : ∀ c ∈ rest.head?, 10 ≤ digitValue c)
    (start' : ∀ c ∈ rest'.head?, 10 ≤ digitValue c) (same : devicePath n rest = devicePath m rest') :
    n = m ∧ rest = rest' := by
  simp only [devicePath, signedDecimal_natCast, List.append_assoc, List.append_cancel_left_eq] at same
  have digits : ∀ {k : Nat} {tail : Bytes}, (∀ c ∈ tail.head?, 10 ≤ digitValue c) →
      (decimal k ++ tail).takeWhile (fun c => digitValue c < 10) = decimal k :=
    fun stop => takeWhile_digits (fun c member => decimal_digit member) stop
  have fronts := congrArg (List.takeWhile fun c => decide (digitValue c < 10)) same
  rw [digits start, digits start'] at fronts
  obtain rfl := decimal_injective fronts
  exact ⟨rfl, List.append_cancel_left same⟩

/-- The response to a request of one process and no other comes over its FIFO. -/
theorem pierRfifo_injective {n p m q : Nat} (positive : 0 < n) (same : pierRfifo n p = pierRfifo m q) :
    n = m ∧ p = q := by
  have first : ¬ ((n : Int) = 0) := by omega
  rw [pierRfifo, pierRfifo, if_neg first] at same
  split at same
  · contradiction
  · have start : ∀ k : Nat, ∀ c ∈ (text ".0/" ++ signedDecimal k).head?, 10 ≤ digitValue c := by
      intro k c head
      obtain rfl : 46 = c := by simpa [text] using head
      decide
    obtain ⟨device, rest⟩ := devicePath_injective (start p) (start q) (Option.some.inj same)
    rw [signedDecimal_natCast, signedDecimal_natCast] at rest
    exact ⟨device, decimal_injective (List.append_cancel_left rest)⟩

/-- A request FIFO and a lock file do not stand in the directory of the responses. -/
theorem pierRfifo_ne {n p : Nat} (positive : 0 < n) (m : Nat) (rest : Bytes)
    (start : ∀ c ∈ rest.head?, 10 ≤ digitValue c) (other : (text ".0/").isPrefixOf rest = false) {path : Option Bytes}
    (named : path = none ∨ path = some (devicePath m rest)) : pierRfifo n p ≠ path := by
  intro same
  rw [pierRfifo, if_neg (by omega : ¬ (n : Int) = 0)] at same
  rcases named with rfl | rfl
  · contradiction
  · have dot : ∀ c ∈ (text ".0/" ++ signedDecimal p).head?, 10 ≤ digitValue c := by
      intro c head
      obtain rfl : 46 = c := by simpa [text] using head
      decide
    obtain ⟨-, rfl⟩ := devicePath_injective dot start (Option.some.inj same)
    rw [Bool.eq_false_iff] at other
    exact other (List.isPrefixOf_iff_prefix.mpr (List.prefix_append _ _))

theorem pierRfifo_ne_pierWfifo {n p : Nat} (positive : 0 < n) (m : Nat) : pierRfifo n p ≠ pierWfifo m := by
  refine pierRfifo_ne positive m [] (by simp) (by decide) ?_
  rw [pierWfifo]
  split <;> simp

theorem pierRfifo_ne_pierLockName {n p : Nat} (positive : 0 < n) (m : Nat) : pierRfifo n p ≠ pierLockName m := by
  refine pierRfifo_ne positive m (text ".lock") ?_ (by decide) ?_
  · intro c head
    obtain rfl : 46 = c := by simpa [text] using head
    decide
  · rw [pierLockName]
    split <;> simp

/-- The web server hands a request of the client to the program in these variables. -/
def Handed (environ : List Bytes) (request : Bytes) : Prop :=
  getenv environ (text "HTTP_HOST") = some (text "piercloud.com") ∧
    getenv environ (text "REQUEST_URI") = some (requestTarget request)

instance (environ : List Bytes) (request : Bytes) : Decidable (Handed environ request) :=
  inferInstanceAs (Decidable (_ ∧ _))

theorem authorization_sent {gateway : Gateway} (sends : gateway.Sends) {get : Bytes} {soc : SocketT} {world : World}
    {result : Authorized} (asked : authorization gateway get soc world = some result) :
    result.sent = authHeader get := by
  rw [authorization, if_pos sends] at asked
  obtain ⟨s, -, rfl⟩ := Option.map_eq_some_iff.mp asked
  rw [takeAnswer]
  split_ifs <;> rfl

theorem requestTarget_authHeader {get : Bytes} {n : Nat} (named : cstr get = decimal n) :
    requestTarget (authHeader get) = 47 :: decimal n := by
  have printed : authHeader get = text "GET" ++ 32 :: ((47 :: decimal n) ++ 32 ::
      (text "HTTP/1.1" ++ CRLF ++ text "Host: piercloud.com" ++ CRLF ++ CRLF)) := by
    simp [authHeader, named, text]
  rw [printed, requestTarget_eq (by decide)]
  simpa using decimal_absent n (by decide)

theorem requestTarget_authHeader2 {get : Bytes} {n p : Nat} (named : cstr get = decimal n ++ 47 :: decimal p)
    (length : Nat) : requestTarget (authHeader2 get length) = 47 :: (decimal n ++ 47 :: decimal p) := by
  have printed : authHeader2 get length = text "PUT" ++ 32 :: ((47 :: (decimal n ++ 47 :: decimal p)) ++ 32 ::
      (text "HTTP/1.1" ++ CRLF ++ text "Host: piercloud.com" ++ CRLF ++ text "Content-Length: " ++
        signedDecimal (toSigned length) ++ CRLF ++ CRLF)) := by
    simp [authHeader2, named, text]
  rw [printed, requestTarget_eq (by decide)]
  simpa using ⟨decimal_absent n (by decide), decimal_absent p (by decide)⟩

/-- The printed URI of a response holds the names of the device and of the process. -/
theorem cstr_respondUri {cfg : Config} {n : Nat} (named : cstr cfg.gId = decimal n) (p : Nat) :
    cstr (respondUri cfg p) = decimal n ++ 47 :: decimal p := by
  have printed : respondUri cfg p = decimal n ++ 47 :: decimal p := by
    simp [respondUri, named, text]
  have ends : ∀ k : Nat, NUL ∉ decimal k := fun k => decimal_absent k (by decide)
  rw [printed, cstr_eq_self]
  simpa using ⟨ends n, by decide, ends p⟩

/-- The program finds the FIFO of a response and the FIFO of the requests, and no path stands for two things. -/
theorem paths_agree {cfg : Config} {n p : Nat} (device : 0 < n ∧ n < 2 ^ 63) (process : 0 < p ∧ p < 2 ^ 31)
    (named : cstr cfg.gId = decimal n) {gateway : Gateway} (sends : gateway.Sends) {length : Nat}
    {soc : SocketT} {world : World} {result : Authorized} {environ environ' : List Bytes}
    (asked : authorization gateway cfg.gId soc world = some result) (connected : Handed environ result.sent)
    (responded : Handed environ' (respondHeader gateway (respondUri cfg p) length).2) :
    (∃ pier pid, mainRoute environ' = some (.respond pier pid) ∧ respondWfifo pier pid = pierRfifo n p) ∧
      (∃ pier, mainRoute environ = some (.connect pier) ∧ connectRfifo pier = pierWfifo n ∧
        connectLockName pier = pierLockName n) ∧
      (pierRfifo n p).isSome ∧ (pierWfifo n).isSome ∧
      (∀ m q : Nat, (m, q) ≠ (n, p) → pierRfifo n p ≠ pierRfifo m q) ∧
      ∀ m : Nat, pierRfifo n p ≠ pierWfifo m ∧ pierRfifo n p ≠ connectRfifo m ∧
        pierRfifo n p ≠ pierLockName m ∧ pierRfifo n p ≠ connectLockName m := by
  have first : ¬ (n : Int) = 0 := by omega
  have second : ¬ (p : Int) = 0 := by omega
  rw [authorization_sent sends asked] at connected
  rw [respondHeader, if_pos sends] at responded
  obtain ⟨host, uri⟩ := connected
  obtain ⟨host', uri'⟩ := responded
  rw [requestTarget_authHeader named] at uri
  rw [requestTarget_authHeader2 (cstr_respondUri named p)] at uri'
  refine ⟨⟨n, p, ?_, ?_⟩, ⟨n, ?_, rfl, rfl⟩, ?_, ?_, ?_, ?_⟩
  · rw [mainRoute_own host' uri', uriRoute_respond device.2 (by omega)]
  · rw [respondWfifo, pierRfifo, if_neg (by omega), if_neg first]
  · rw [mainRoute_own host uri, uriRoute_connect device.2]
  · rw [pierRfifo, if_neg first, Option.isSome_some]
  · rw [pierWfifo, if_neg first, Option.isSome_some]
  · intro m q different same
    obtain ⟨rfl, rfl⟩ := pierRfifo_injective device.1 same
    exact different rfl
  · intro m
    have request := pierRfifo_ne_pierWfifo (p := p) device.1 m
    have lock := pierRfifo_ne_pierLockName (p := p) device.1 m
    exact ⟨request, request, lock, lock⟩

def connectEnviron : List Bytes := [text "HTTP_HOST=piercloud.com", text "REQUEST_URI=/12"]

def respondEnviron : List Bytes := [text "REQUEST_URI=/12/345", text "HTTP_HOST=piercloud.com"]

theorem paths_agree_sample :
    ∃ pier pid, mainRoute respondEnviron = some (.respond pier pid) ∧ respondWfifo pier pid = pierRfifo 12 345 :=
  (@paths_agree ⟨text "12", [], [], id⟩ 12 345 (by decide) (by decide) (by decide +kernel) ⟨true, true, 1⟩ (by decide) 7
    ⟨0, true, some [NUL], 0⟩ ⟨[], [], []⟩
    ((authorization ⟨true, true, 1⟩ (text "12") ⟨0, true, some [NUL], 0⟩ ⟨[], [], []⟩).get (by decide +kernel))
    connectEnviron respondEnviron (Option.some_get _).symm (by decide +kernel) (by decide +kernel)).1

end Piercloud.Cgi
