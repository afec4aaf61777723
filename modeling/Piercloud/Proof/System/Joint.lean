import Piercloud.Proof.Answer.Liveness
import Piercloud.Proof.Device.Fronts
import Piercloud.Proof.System.Machine

/-
This file relates the parties of one device to each other in every reachable state.
-/

namespace Piercloud

open CLib Cgi Client Wire Runs

namespace System

variable {κ π : Type*} [DecidableEq κ] [DecidableEq π] {cfg : Config} {requests : π → CgiRequest}
  {answers : π → Bytes} {s t : System κ π} {e : Event κ π}

/-- An event is received by a client, or the two sides of the server take their parts in it. -/
theorem step_cases (next : step cfg requests answers s e = some t) : Ready requests s e ∧
    ((∃ k, e = .receive k ∧ t = receive cfg s k) ∨ (∀ k, e ≠ .receive k) ∧ ∃ device exchange,
      advance (Device.step (Device.inputs requests)) s.device e.action = some device ∧
      advance (Exchange.step (setup requests answers)) s.exchange e.move = some exchange ∧
      t = effect s e device exchange) := by
  unfold step at next
  split at next
  case isFalse => contradiction
  case isTrue ready =>
    refine ⟨ready, ?_⟩
    cases e with
    | receive k => exact Or.inl ⟨k, rfl, (Option.some.inj next).symm⟩
    | _ =>
        obtain ⟨device, first, rest⟩ := Option.bind_eq_some_iff.mp next
        obtain ⟨exchange, second, same⟩ := Option.map_eq_some_iff.mp rest
        exact Or.inr ⟨by simp, device, exchange, first, second, same.symm⟩

omit [DecidableEq π] in
/-- The client of one `Connect` receives, and nothing happens at the server. -/
theorem receive_server (s : System κ π) (k : κ) :
    (receive cfg s k).device = s.device ∧ (receive cfg s k).exchange = s.exchange := by
  unfold receive
  split <;> exact ⟨rfl, rfl⟩

theorem device_projects (s : System κ π) (e : Event κ π) (t : System κ π)
    (next : step cfg requests answers s e = some t) :
    advance (Device.step (Device.inputs requests)) s.device e.action = some t.device := by
  obtain ⟨-, ⟨k, rfl, rfl⟩ | ⟨-, device, exchange, first, -, rfl⟩⟩ := step_cases next
  · exact congrArg some (receive_server s k).1.symm
  · exact first

theorem exchange_projects (s : System κ π) (e : Event κ π) (t : System κ π)
    (next : step cfg requests answers s e = some t) :
    advance (Exchange.step (setup requests answers)) s.exchange e.move = some t.exchange := by
  obtain ⟨-, ⟨k, rfl, rfl⟩ | ⟨-, device, exchange, -, second, rfl⟩⟩ := step_cases next
  · exact congrArg some (receive_server s k).2.symm
  · exact second

/-- The FIFO of the requests loses no byte, and no client takes a byte of it for a ping. -/
def Careful (s : System κ π) (e : Event κ π) : Prop := ∀ a, e.action = some a → Device.Careful s.device a

instance [Fintype κ] (s : System κ π) (e : Event κ π) : Decidable (Careful s e) :=
  match seen : e.action with
  | none => isTrue fun a same => by simp [seen] at same
  | some a => decidable_of_iff (Device.Careful s.device a) ⟨fun holds b same => by
      obtain rfl := Option.some.inj (seen.symm.trans same)
      exact holds, fun holds => holds a seen⟩

omit [DecidableEq κ] [DecidableEq π] in
/-- No event kills a `Pier`. -/
theorem Event.spares (s : System κ π) (e : Event κ π) (m : Move π) (seen : e.move = some m) :
    Exchange.Spares s.exchange m := by
  cases e <;> simp only [Event.move, Option.some.injEq, reduceCtorEq] at seen <;> subst seen <;> trivial

/-- The two views of one `Pier` agree, where `whole` tells whether its request is written. -/
def agrees (whole : Bool) : PierPoint → WaitPoint → Bool
  | .start, .idle => true
  | .start, .made => true
  | .lockOpened, .made => true
  | .locked, .locked => true
  | .writing, .locked => !whole
  | .writing, .asked => whole
  | .waiting, .asked => true
  | .waiting, .opening => true
  | .waiting, .reading => true
  | .waiting, .closing => true
  | .answered, .closed => true
  | .done, .unlocked => true
  | .done, .ended => true
  | .refused, .refused => true
  | _, _ => false

/-- All of the request is written. -/
def whole (requests : π → CgiRequest) (s : System κ π) (p : π) : Bool :=
  s.device.count p == (pierBytes (requests p).input).length

def Matched (requests : π → CgiRequest) (s : System κ π) (p : π) : Prop :=
  agrees (whole requests s p) (s.device.pier p) (s.exchange.pier p) = true

omit [DecidableEq κ] [DecidableEq π] in
theorem matched_initial (p : π) : Matched requests (initial : System κ π) p := rfl

/-- This is the process of the event. -/
def process : Event κ π → Option π
  | .start p | .openLock p | .lock p | .refuse p _ | .openWrite p | .write p _ | .ask p _ | .closeWrite p
  | .openRead p | .opened p | .take p _ | .eof p | .closeRead p | .unlock p | .unlink p | .reply _ p | .noPath _ p
  | .writable p | .put p _ | .broken p | .closeReply p => some p
  | .connect _ | .receive _ => none

omit [DecidableEq κ] [DecidableEq π] in
theorem Matched.frame {p : π} (matched : Matched requests s p) (pier : t.device.pier p = s.device.pier p)
    (count : t.device.count p = s.device.count p) (wait : t.exchange.pier p = s.exchange.pier p) :
    Matched requests t p := by
  rwa [Matched, whole, pier, count, wait]

/-- The action of another process leaves a `Pier` at its point. -/
theorem action_elsewhere {device : Device κ π} (ready : Ready requests s e)
    (next : advance (Device.step (Device.inputs requests)) s.device e.action = some device) {p : π}
    (other : process e ≠ some p) : device.pier p = s.device.pier p ∧ device.count p = s.device.count p := by
  cases e with
  | connect a =>
      obtain ⟨-, rfl⟩ := (Device.step_eq_some _).mp next
      have connects : a.connects = true := ready
      cases a <;> first | exact ⟨rfl, rfl⟩ | contradiction
  | openLock q | lock q | openWrite q | closeWrite q | closeRead q | write q n | ask q n | refuse q removed
  | unlock q =>
      have different : p ≠ q := fun same => other (congrArg some same.symm)
      obtain ⟨-, rfl⟩ := (Device.step_eq_some _).mp next
      simp [Device.effect, Device.setPier, Device.putBytes, different]
  | start q | openRead q | opened q | take q n | eof q | unlink q | receive k | reply child q | noPath child q
  | writable q | put q n | broken q | closeReply q =>
      obtain rfl := Option.some.inj next
      exact ⟨rfl, rfl⟩

omit [DecidableEq κ] in
/-- The move of another process leaves a `Pier` at its point. -/
theorem move_elsewhere {exchange : Exchange π Unit}
    (next : advance (Exchange.step (setup requests answers)) s.exchange e.move = some exchange) {p : π}
    (other : process e ≠ some p) : exchange.pier p = s.exchange.pier p := by
  cases e with
  | start q | lock q | refuse q removed | ask q n | openRead q | opened q | take q n | eof q | closeRead q | unlock q
  | unlink q | reply child q | noPath child q | writable q | put q n | broken q | closeReply q =>
      have different : p ≠ q := fun same => other (congrArg some same.symm)
      exact (Exchange.step_elsewhere next different).1
  | connect a | openLock q | openWrite q | write q n | closeWrite q | receive k =>
      obtain rfl := Option.some.inj next
      rfl

omit [DecidableEq π] in
/-- No request is empty. -/
theorem request_pos (p : π) : 0 < (pierBytes (requests p).input).length := by
  rw [(requests p).pierBytes_wire]
  exact List.length_pos_of_ne_nil (Request.encode_ne_nil _)

/-- The events of a `Pier` keep its two views together. -/
theorem matched_own {p : π} (matched : Matched requests s p)
    (ordered : Device.Ordered (Device.inputs requests) s.device) (own : process e = some p)
    (next : step cfg requests answers s e = some t) : Matched requests t p := by
  obtain ⟨ready, ⟨k, rfl, rfl⟩ | ⟨-, device, exchange, first, second, rfl⟩⟩ := step_cases next
  · contradiction
  · cases e with
    | connect a => contradiction
    | receive k => contradiction
    | start q =>
        obtain rfl := Option.some.inj own
        obtain rfl := Option.some.inj first
        obtain ⟨⟨here, -⟩, rfl⟩ := (Exchange.step_eq_some _).mp second
        simp only [Matched, here] at matched
        cases point : s.device.pier q <;> simp [point, agrees] at matched
        simp [Matched, effect, Exchange.effect, Exchange.setPier, point, agrees]
    | openLock q =>
        obtain rfl := Option.some.inj own
        obtain rfl := Option.some.inj second
        obtain ⟨⟨here, -⟩, rfl⟩ := (Device.step_eq_some _).mp first
        have made : s.exchange.pier q = .made := ready
        simp [Matched, effect, Device.effect, Device.setPier, made, agrees]
    | lock q =>
        obtain rfl := Option.some.inj own
        obtain ⟨⟨here, -⟩, rfl⟩ := (Device.step_eq_some _).mp first
        obtain ⟨-, rfl⟩ := (Exchange.step_eq_some _).mp second
        simp [Matched, effect, Device.effect, Device.setPier, Exchange.effect, Exchange.setPier, agrees]
    | refuse q removed =>
        obtain rfl := Option.some.inj own
        obtain ⟨-, rfl⟩ := (Device.step_eq_some _).mp first
        obtain ⟨-, rfl⟩ := (Exchange.step_eq_some _).mp second
        simp [Matched, effect, Device.effect, Device.setPier, Exchange.effect, Exchange.exit, Exchange.setPier, agrees]
    | openWrite q =>
        obtain rfl := Option.some.inj own
        obtain rfl := Option.some.inj second
        obtain ⟨⟨here, -⟩, rfl⟩ := (Device.step_eq_some _).mp first
        have nothing : s.device.count q = 0 := ordered.unopened q (by rw [here]; rfl)
        simp only [Matched, here] at matched
        cases point : s.exchange.pier q <;> simp [point, agrees] at matched
        simp [Matched, whole, effect, Device.effect, Device.setPier, nothing, point, agrees]
        exact (request_pos q).ne
    | write q n =>
        obtain rfl := Option.some.inj own
        obtain rfl := Option.some.inj second
        obtain ⟨⟨here, -⟩, rfl⟩ := (Device.step_eq_some _).mp first
        have fewer : s.device.count q + n < (pierBytes (requests q).input).length := ready
        have unfinished : whole requests s q = false := by
          simp only [whole, beq_eq_false_iff_ne]
          omega
        simp only [Matched, here, unfinished] at matched
        cases point : s.exchange.pier q <;> simp [point, agrees] at matched
        simp [Matched, whole, effect, Device.effect, Device.putBytes, here, point, agrees, fewer.ne]
    | ask q n =>
        obtain rfl := Option.some.inj own
        obtain ⟨⟨here, -⟩, rfl⟩ := (Device.step_eq_some _).mp first
        obtain ⟨-, rfl⟩ := (Exchange.step_eq_some _).mp second
        have all : s.device.count q + n = (pierBytes (requests q).input).length := ready
        simp [Matched, whole, effect, Device.effect, Device.putBytes, Exchange.effect, Exchange.setRespond,
          Exchange.setPier, here, agrees, all]
    | closeWrite q =>
        obtain rfl := Option.some.inj own
        obtain rfl := Option.some.inj second
        obtain ⟨⟨here, all⟩, rfl⟩ := (Device.step_eq_some _).mp first
        have done : whole requests s q = true := beq_iff_eq.mpr all
        simp only [Matched, here, done] at matched
        cases point : s.exchange.pier q <;> simp [point, agrees] at matched
        simp [Matched, effect, Device.effect, Device.setPier, point, agrees]
    | openRead q =>
        obtain rfl := Option.some.inj own
        obtain rfl := Option.some.inj first
        obtain ⟨-, rfl⟩ := (Exchange.step_eq_some _).mp second
        have waiting : s.device.pier q = .waiting := ready
        simp [Matched, effect, Exchange.effect, Exchange.setPipe, Exchange.setPier, waiting, agrees]
    | opened q =>
        obtain rfl := Option.some.inj own
        obtain rfl := Option.some.inj first
        obtain ⟨⟨here, -⟩, rfl⟩ := (Exchange.step_eq_some _).mp second
        simp only [Matched, here] at matched
        cases point : s.device.pier q <;> simp [point, agrees] at matched
        simp [Matched, effect, Exchange.effect, Exchange.setPier, point, agrees]
    | take q n =>
        obtain rfl := Option.some.inj own
        obtain rfl := Option.some.inj first
        obtain ⟨-, rfl⟩ := (Exchange.step_eq_some _).mp second
        exact matched
    | eof q =>
        obtain rfl := Option.some.inj own
        obtain rfl := Option.some.inj first
        obtain ⟨⟨here, -⟩, rfl⟩ := (Exchange.step_eq_some _).mp second
        simp only [Matched, here] at matched
        cases point : s.device.pier q <;> simp [point, agrees] at matched
        simp [Matched, effect, Exchange.effect, Exchange.setPier, point, agrees]
    | closeRead q =>
        obtain rfl := Option.some.inj own
        obtain ⟨-, rfl⟩ := (Device.step_eq_some _).mp first
        obtain ⟨-, rfl⟩ := (Exchange.step_eq_some _).mp second
        simp [Matched, effect, Device.effect, Device.setPier, Exchange.effect, Exchange.setPipe, Exchange.setPier,
          agrees]
    | unlock q =>
        obtain rfl := Option.some.inj own
        obtain ⟨-, rfl⟩ := (Device.step_eq_some _).mp first
        obtain ⟨-, rfl⟩ := (Exchange.step_eq_some _).mp second
        simp [Matched, effect, Device.effect, Device.setPier, Exchange.effect, Exchange.setPier, agrees]
    | unlink q =>
        obtain rfl := Option.some.inj own
        obtain rfl := Option.some.inj first
        obtain ⟨here, rfl⟩ := (Exchange.step_eq_some _).mp second
        simp only [Matched, show s.exchange.pier q = .unlocked from here] at matched
        cases point : s.device.pier q <;> simp [point, agrees] at matched
        simp [Matched, effect, Exchange.effect, Exchange.exit, Exchange.setPier, point, agrees]
    | reply child q | noPath child q | writable q | put q n | broken q | closeReply q =>
        obtain rfl := Option.some.inj first
        obtain ⟨-, rfl⟩ := (Exchange.step_eq_some _).mp second
        exact matched

/-- Every event keeps the two views of every `Pier` together. -/
theorem matched_step (matched : ∀ p, Matched requests s p)
    (ordered : Device.Ordered (Device.inputs requests) s.device) (next : step cfg requests answers s e = some t)
    (p : π) :
    Matched requests t p := by
  by_cases own : process e = some p
  · exact matched_own (matched p) ordered own next
  · obtain ⟨pier, count⟩ := action_elsewhere (step_cases next).1 (device_projects s e t next) own
    exact (matched p).frame pier count (move_elsewhere (exchange_projects s e t next) own)

/-- These are the invariants of the two sides of the server, and what they tell about each other. -/
structure Server (requests : π → CgiRequest) (answers : π → Bytes) (s : System κ π) : Prop where
  exclusive : Device.Exclusive s.device
  ordered : Device.Ordered (Device.inputs requests) s.device
  shares : Device.Shares (Device.inputs requests) s.device
  once : s.device.lockOrder.Nodup
  counted : ∀ p, s.device.count p ≤ (pierBytes (Device.inputs requests p)).length
  unkilled : Exchange.Unkilled (setup requests answers) s.exchange
  matched : ∀ p, Matched requests s p

omit [DecidableEq κ] in
theorem server_initial : Server requests answers (initial : System κ π) where
  exclusive := Device.exclusive_initial
  ordered := Device.ordered_initial
  shares := Device.shares_initial
  once := List.nodup_nil
  counted := Device.counted_initial
  unkilled := Exchange.unkilled_initial
  matched := matched_initial

theorem server_step (server : Server requests answers s) (careful : Careful s e)
    (next : step cfg requests answers s e = some t) : Server requests answers t := by
  obtain ⟨exclusive, ordered, shares, once, counted, unkilled, matched⟩ := server
  have matched' := matched_step matched ordered next
  have unkilled' : Exchange.Unkilled (setup requests answers) t.exchange := by
    rcases advance_cases (exchange_projects s e t next) with ⟨-, same⟩ | ⟨m, seen, move⟩
    · rwa [same]
    · exact Exchange.unkilled_step unkilled (Event.spares s e m seen) move
  rcases advance_cases (device_projects s e t next) with ⟨-, same⟩ | ⟨a, seen, action⟩
  · rw [← same] at exclusive ordered shares once counted
    exact ⟨exclusive, ordered, shares, once, counted, unkilled', matched'⟩
  · obtain ⟨⟨keeps, alone⟩, -⟩ := careful a seen
    exact ⟨Device.exclusive_step exclusive ordered shares keeps alone action, Device.ordered_step ordered action,
      Device.shares_step shares action, Device.lockOrder_step ordered once action,
      Device.counted_step counted action, unkilled', matched'⟩

end System

end Piercloud
