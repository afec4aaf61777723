import Piercloud.Proof.System.Joint

/-
This file follows the requests through the clients: what each of them has received and which requests it has
dispatched.
-/

namespace Piercloud.System

open CLib Cgi Client Wire Runs

variable {κ π : Type*} [DecidableEq κ] [DecidableEq π] {cfg : Config} {requests : π → CgiRequest}
  {answers : π → Bytes} {s t : System κ π} {e : Event κ π}

/-- This child answers the request. -/
def childOf (cfg : Config) (requests : π → CgiRequest) (p : π) : Dispatch := (requests p).wire.expected cfg

section Dispatched

variable (cfg : Config) (s : System κ π) (k : κ)

/-- These are the received writes that are no ping. -/
def pieces : List Bytes := (s.received k).filter (· ≠ pingBytes)

/-- These are the children that the client has forked. -/
def forked : List Dispatch := (feed (chunk cfg) (sessionStart Statics.initial) (s.pieces k)).1.reduceOption

/-- These are the requests that the client has dispatched. -/
def dispatched : List π := (s.device.assigned k).take (s.forked cfg k).length

end Dispatched

/-- The stream of a `Connect` carries what it has forwarded, and the client has parsed what it has received. -/
structure Carried (cfg : Config) (s : System κ π) (k : κ) : Prop where
  real : ∀ bytes ∈ s.received k ++ s.stream k, bytes ≠ []
  bytes : ((s.received k ++ s.stream k).filter (· ≠ pingBytes)).flatten = (s.device.forwarded k).map Prod.snd
  fed : (feed (chunk cfg) (sessionStart Statics.initial) (s.pieces k)).2 = s.client k

omit [DecidableEq π] in
theorem carried_initial (k : κ) : Carried cfg (initial : System κ π) k where
  real := by simp [initial]
  bytes := rfl
  fed := rfl

/-- One more write ends the client, or the client forks at most one child for it. -/
theorem feed_passes {front : List Bytes} {c : State} {start : State} (payload : Bytes)
    (before : (feed (chunk cfg) start (front.filter (· ≠ pingBytes))).2 = some c) :
    (feed (chunk cfg) start ((front ++ [payload]).filter (· ≠ pingBytes))).2 = (passes cfg c payload).1 ∧
      (feed (chunk cfg) start ((front ++ [payload]).filter (· ≠ pingBytes))).1.reduceOption =
        (feed (chunk cfg) start (front.filter (· ≠ pingBytes))).1.reduceOption ++ (passes cfg c payload).2.toList := by
  rw [List.filter_append]
  by_cases ping : payload = pingBytes
  · rw [List.filter_cons_of_neg (by simpa using ping), List.filter_nil, List.append_nil, passes, if_pos ping]
    exact ⟨before, (List.append_nil _).symm⟩
  · rw [List.filter_cons_of_pos (by simpa using ping), List.filter_nil]
    unfold passes
    rw [if_neg ping]
    cases step : chunk cfg c payload with
    | none =>
        rw [feed_snoc_stopped before step]
        simp
    | some pair =>
        have next : chunk cfg c payload = some (pair.1, pair.2) := step
        rw [feed_snoc before next, List.reduceOption_append]
        cases pair.2 <;> simp

omit [DecidableEq π] in
/-- A client that receives a write forks at most one child for it. -/
theorem receive_forks (carried : ∀ j, Carried cfg s j) {k : κ} (ready : s.stream k ≠ [] ∧ (s.client k).isSome) :
    (∀ j, Carried cfg (receive cfg s k) j) ∧ (∀ j, j ≠ k → (receive cfg s k).forked cfg j = s.forked cfg j) ∧
      ∃ output : Option Dispatch, (receive cfg s k).children = s.children ++ output.toList ∧
        (receive cfg s k).forked cfg k = s.forked cfg k ++ output.toList := by
  obtain ⟨payload, rest, stream⟩ := List.exists_cons_of_ne_nil ready.1
  obtain ⟨c, client⟩ := Option.isSome_iff_exists.mp ready.2
  have whole : receive cfg s k = { s with
      stream := Function.update s.stream k rest
      received := Function.update s.received k (s.received k ++ [payload])
      client := Function.update s.client k (passes cfg c payload).1
      children := s.children ++ (passes cfg c payload).2.toList } := by
    simp only [receive, stream, client]
  obtain ⟨fed, forks⟩ := feed_passes payload ((carried k).fed.trans client)
  rw [whole]
  refine ⟨fun j => ?_, fun j other => ?_, (passes cfg c payload).2, rfl, ?_⟩
  · by_cases here : j = k
    · subst here
      obtain ⟨real, bytes, -⟩ := carried j
      rw [stream, List.append_cons] at real bytes
      constructor
      · simpa using real
      · simpa [Device.forwarded] using bytes
      · simpa [pieces] using fed
    · obtain ⟨real, bytes, fed⟩ := carried j
      constructor
      · simpa [here] using real
      · simpa [here] using bytes
      · simpa [here, pieces] using fed
  · simp [forked, pieces, other]
  · simpa [forked, pieces] using forks

/-- The events at the server reach the streams alone. -/
theorem effect_forks (carried : ∀ k, Carried cfg s k) (careful : Careful s e)
    (next : step cfg requests answers s e = some t) (elsewhere : ∀ k, e ≠ .receive k) :
    (∀ k, Carried cfg t k) ∧ ∀ k, t.forked cfg k = s.forked cfg k := by
  have first := device_projects s e t next
  obtain ⟨-, ⟨k, rfl, -⟩ | ⟨-, device, exchange, -, -, rfl⟩⟩ := step_cases next
  · exact absurd rfl (elsewhere k)
  refine ⟨fun k => ?_, fun k => rfl⟩
  obtain ⟨real, bytes, fed⟩ := carried k
  rcases advance_cases first with ⟨unseen, same⟩ | ⟨a, seen, action⟩
  · have quiet : device = s.device := same
    exact ⟨by simpa [effect, unseen] using real, by simpa [effect, unseen, quiet] using bytes, fed⟩
  · obtain ⟨sent, forwarded⟩ := Device.write_carries (careful a seen).2 action k
    constructor
    · intro payload member
      simp only [effect, seen, Option.bind_some, ← List.append_assoc] at member
      rcases List.mem_append.mp member with before | now
      · exact real payload before
      · exact sent payload now
    · simp only [effect, seen, Option.bind_some, ← List.append_assoc]
      rw [List.filter_append, List.flatten_append, bytes]
      exact forwarded.symm
    · exact fed

/-- The children of a client are those of the first requests assigned to its `Connect`, and these are whole. -/
theorem forked_dispatched (server : Server requests answers s) {k : κ} (carried : Carried cfg s k) :
    s.forked cfg k = (s.dispatched cfg k).map (childOf cfg requests) ∧
      (∀ p ∈ s.dispatched cfg k, whole requests s p = true) ∧
      (s.dispatched cfg k).length = (s.forked cfg k).length := by
  obtain ⟨real, bytes, -⟩ := carried
  obtain ⟨coming, stream, -⟩ := Device.assigned_forwarded server.exclusive server.ordered server.shares k
  rw [List.filter_append, List.flatten_append] at bytes
  have ahead : Ahead cfg (sessionStart Statics.initial) ((s.device.assigned k).map fun p => (requests p).wire)
      ((s.pieces k).flatten ++ (((s.stream k).filter (· ≠ pingBytes)).flatten ++ coming)) := by
    have clear : Statics.initial.inHeader = false ∧ Statics.initial.inData = false := ⟨rfl, rfl⟩
    have start := sessionStart_ahead cfg clear ((s.device.assigned k).map fun p => (requests p).wire)
    rwa [← Device.inputs_encode, stream, ← bytes, List.append_assoc] at start
  have nonempty : ∀ data ∈ s.pieces k, data ≠ [] := fun data member =>
    real data (List.mem_append_left _ (List.mem_filter.mp member).1)
  obtain ⟨first, rest, split, outputs, size, -⟩ := ahead.feeds cfg nonempty
  obtain ⟨done, later, parts, rfl, rfl⟩ := List.map_eq_append_iff.mp split
  have same : s.dispatched cfg k = done := by
    rw [dispatched, forked, outputs, parts]
    simp
  rw [same, forked, outputs, List.map_map]
  refine ⟨rfl, ?_, by simp⟩
  have covered : (done.flatMap fun p => pierBytes (Device.inputs requests p)).length ≤
      (s.device.forwarded k).length := by
    have all := congrArg List.length stream
    have sent := congrArg List.length bytes
    rw [parts, List.flatMap_append, Device.inputs_encode later] at all
    simp only [List.length_append, List.length_map] at all sent size
    omega
  intro p member
  have count := Device.front_whole server.exclusive server.ordered server.shares server.once server.counted parts
    covered p member
  exact beq_iff_eq.mpr count

/-- A client dispatches the requests one after the other. -/
theorem dispatched_grows (before : Server requests answers s) (after : Server requests answers t)
    (next : step cfg requests answers s e = some t) {k : κ} (old : Carried cfg s k) (new : Carried cfg t k)
    {output : List Dispatch} (forks : t.forked cfg k = s.forked cfg k ++ output) :
    ∃ fresh, t.dispatched cfg k = s.dispatched cfg k ++ fresh ∧
      output = fresh.map (childOf cfg requests) := by
  have logs : s.device.lockOrder <+: t.device.lockOrder ∧ s.device.readLog <+: t.device.readLog := by
    rcases advance_cases (device_projects s e t next) with ⟨-, same⟩ | ⟨a, -, action⟩
    · rw [same]
      exact ⟨List.prefix_refl _, List.prefix_refl _⟩
    · exact Device.logs_grow action
  obtain ⟨rest, assigned⟩ := Device.assigned_grows after.exclusive after.ordered after.once logs.1 logs.2 k
  obtain ⟨outputs, -, size⟩ := forked_dispatched before old
  obtain ⟨outputs', -, -⟩ := forked_dispatched after new
  have within : (s.forked cfg k).length ≤ (s.device.assigned k).length := by
    rw [← size, dispatched, List.length_take]
    exact min_le_right _ _
  have front : t.dispatched cfg k = s.dispatched cfg k ++
      ((t.device.assigned k).drop (s.forked cfg k).length).take output.length := by
    rw [dispatched, forks, List.length_append, List.take_add, ← assigned, List.take_append_of_le_length within]
    rfl
  refine ⟨_, front, ?_⟩
  rw [forks, outputs, front, List.map_append] at outputs'
  exact List.append_cancel_left outputs'

/-- Some client has dispatched the request. -/
def Dispatched (cfg : Config) (s : System κ π) (p : π) : Prop := ∃ k, p ∈ s.dispatched cfg k

/-- The requests that a client dispatches are its own, and it dispatches none of them twice. -/
theorem dispatched_apart (cfg : Config) (server : Server requests answers s) : (∀ k, (s.dispatched cfg k).Nodup) ∧
    ∀ k k' p, p ∈ s.dispatched cfg k → p ∈ s.dispatched cfg k' → k = k' := by
  constructor
  · exact fun k => (List.take_sublist _ _).nodup (server.once.filter _)
  · intro k k' p here there
    have forwards : ∀ k, p ∈ s.dispatched cfg k → Device.Forwards s.device k p :=
      fun k member => of_decide_eq_true (List.mem_filter.mp (List.mem_of_mem_take member)).2
    exact server.exclusive.single k k' p (forwards k here) (forwards k' there)

end Piercloud.System
