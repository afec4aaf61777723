import Piercloud.Proof.System.Clients

/-
This file shows that the parties of one device answer every request to its own browser, and each request once.
-/

namespace Piercloud.System

open CLib Cgi Client Wire Runs

variable {κ π : Type*} [DecidableEq κ] [DecidableEq π] {cfg : Config} {requests : π → CgiRequest}
  {answers : π → Bytes} {s t : System κ π} {e : Event κ π}

/-- The children are those of the dispatched requests whose responses have not started, one child each. A response has
started only behind the dispatch of its request. -/
structure Tracked (cfg : Config) (requests : π → CgiRequest) (s : System κ π) : Prop where
  started : ∀ p, s.exchange.respond p ≠ .idle → s.exchange.respond p ≠ .pending → Dispatched cfg s p
  waiting : ∃ waiting : List π, waiting.Nodup ∧ s.children.Perm (waiting.map (childOf cfg requests)) ∧
    ∀ p, p ∈ waiting ↔ Dispatched cfg s p ∧ s.exchange.respond p = .pending

theorem tracked_initial : Tracked cfg requests (initial : System κ π) where
  started := fun p begun => absurd rfl begun
  waiting := by
    refine ⟨[], List.nodup_nil, List.Perm.refl _, fun p => ?_⟩
    simp [Dispatched, dispatched, Device.assigned, initial, Device.initial]

theorem begun_of_agrees {d : PierPoint} {w : WaitPoint} (agree : agrees true d w = true) (opened : d.opened = true) :
    w.expects = true ∨ w.answered = true := by
  cases d <;> cases w <;> first | contradiction | exact Or.inl rfl | exact Or.inr rfl

/-- A response is possible once its request has been dispatched. -/
theorem dispatched_begun (server : Server requests answers s) (carried : ∀ k, Carried cfg s k) {p : π}
    (dispatched : Dispatched cfg s p) : s.exchange.respond p ≠ .idle := by
  obtain ⟨k, member⟩ := dispatched
  have all : whole requests s p = true := (forked_dispatched server (carried k)).2.1 p member
  have opened : (s.device.pier p).opened = true := by
    by_contra closed
    have nothing := server.ordered.unopened p (by simpa using closed)
    rw [whole, nothing, beq_iff_eq] at all
    exact (request_pos p).ne all
  have matched := server.matched p
  rw [Matched, all] at matched
  have answering := server.unkilled.answering p
  rcases begun_of_agrees matched opened with expects | answered
  · exact answering.begun expects
  · simp [answering.told answered]

/-- Where a client forks no child it dispatches no request. -/
theorem dispatched_quiet (before : Server requests answers s) (after : Server requests answers t)
    (next : step cfg requests answers s e = some t) {k : κ} (old : Carried cfg s k) (new : Carried cfg t k)
    (forks : t.forked cfg k = s.forked cfg k) : t.dispatched cfg k = s.dispatched cfg k := by
  have quiet : t.forked cfg k = s.forked cfg k ++ [] := by rw [forks, List.append_nil]
  obtain ⟨fresh, grown, none⟩ := dispatched_grows before after next old new quiet
  rw [grown, List.map_eq_nil_iff.mp none.symm, List.append_nil]

/-- A client that receives a write forks the children of requests that nobody has dispatched before. -/
theorem receive_dispatches (before : Server requests answers s) (carried : ∀ k, Carried cfg s k) {k : κ}
    (after : Server requests answers (receive cfg s k)) (ready : s.stream k ≠ [] ∧ (s.client k).isSome)
    (next : step cfg requests answers s (.receive k) = some (receive cfg s k)) :
    ∃ fresh : List π, fresh.Nodup ∧ (receive cfg s k).children = s.children ++ fresh.map (childOf cfg requests) ∧
      (∀ p ∈ fresh, ¬ Dispatched cfg s p) ∧
      ∀ p, Dispatched cfg (receive cfg s k) p ↔ Dispatched cfg s p ∨ p ∈ fresh := by
  obtain ⟨carried', others, output, children, forks⟩ := receive_forks carried ready
  obtain ⟨fresh, grown, outputs⟩ := dispatched_grows before after next (carried k) (carried' k) forks
  have same : ∀ j, j ≠ k → (receive cfg s k).dispatched cfg j = s.dispatched cfg j := fun j different =>
    dispatched_quiet before after next (carried j) (carried' j) (others j different)
  obtain ⟨nodup, apart⟩ := dispatched_apart cfg after
  have parts := nodup k
  rw [grown, List.nodup_append] at parts
  obtain ⟨-, distinct, disjoint⟩ := parts
  refine ⟨fresh, distinct, by rw [children, outputs], ?_, fun p => ?_⟩
  · rintro p member ⟨j, dispatched⟩
    by_cases here : j = k
    · subst here
      exact disjoint p dispatched p member rfl
    · have mine : p ∈ (receive cfg s k).dispatched cfg k := grown ▸ List.mem_append_right _ member
      exact here (apart j k p (same j here ▸ dispatched) mine)
  · constructor
    · rintro ⟨j, dispatched⟩
      by_cases here : j = k
      · subst here
        rw [grown, List.mem_append] at dispatched
        exact dispatched.imp_left fun old => ⟨j, old⟩
      · exact Or.inl ⟨j, same j here ▸ dispatched⟩
    · rintro (⟨j, dispatched⟩ | member)
      · by_cases here : j = k
        · subst here
          exact ⟨j, grown ▸ List.mem_append_left _ dispatched⟩
        · exact ⟨j, (same j here).symm ▸ dispatched⟩
      · exact ⟨k, grown ▸ List.mem_append_right _ member⟩

/-- A client that receives the last byte of a request forks the child of it. -/
theorem tracked_receive (before : Server requests answers s) (carried : ∀ k, Carried cfg s k)
    (tracked : Tracked cfg requests s) {k : κ} (after : Server requests answers (receive cfg s k))
    (ready : s.stream k ≠ [] ∧ (s.client k).isSome)
    (next : step cfg requests answers s (.receive k) = some (receive cfg s k)) :
    Tracked cfg requests (receive cfg s k) := by
  obtain ⟨fresh, once, children, new, split⟩ := receive_dispatches before carried after ready next
  obtain ⟨waiting, distinct, perm, waits⟩ := tracked.waiting
  have respond : (receive cfg s k).exchange.respond = s.exchange.respond :=
    congrArg Exchange.respond (receive_server s k).2
  have pending : ∀ p ∈ fresh, s.exchange.respond p = .pending := by
    intro p member
    by_contra other
    have begun := dispatched_begun after (receive_forks carried ready).1 ((split p).mpr (Or.inr member))
    rw [respond] at begun
    exact new p member (tracked.started p begun other)
  constructor
  · intro p begun other
    rw [respond] at begun other
    exact (split p).mpr (Or.inl (tracked.started p begun other))
  · refine ⟨waiting ++ fresh, ?_, ?_, fun p => ?_⟩
    · rw [List.nodup_append]
      refine ⟨distinct, once, ?_⟩
      rintro p here q there rfl
      exact new p there ((waits p).mp here).1
    · rw [children, List.map_append]
      exact perm.append_right _
    · rw [respond, List.mem_append, waits, split]
      constructor
      · rintro (⟨dispatched, here⟩ | member)
        · exact ⟨Or.inl dispatched, here⟩
        · exact ⟨Or.inr member, pending p member⟩
      · rintro ⟨dispatched | member, here⟩
        · exact Or.inl ⟨dispatched, here⟩
        · exact Or.inr member

omit [DecidableEq κ] [DecidableEq π] in
/-- A child finds the FIFO of its own request, whatever pids other requests have had. -/
theorem reply_own (unkilled : Exchange.Unkilled (setup requests answers) s.exchange) {p q : π}
    (pending : s.exchange.respond p = .pending) (asked : s.exchange.respond q = .pending)
    (pid : (childOf cfg requests p).pid = (requests q).input.pid) : p = q := by
  have alive : ∀ r, s.exchange.respond r = .pending → (s.exchange.pier r).alive = true := fun r here =>
    WaitPoint.alive_of_expects ((unkilled.answering r).active (by rw [here]; rfl))
  apply unkilled.placed.same (alive p pending) (alive q asked)
  exact Prod.ext rfl (Int.ofNat.inj pid)

/-- An event that starts no response and forks no child keeps what is waiting. -/
theorem Tracked.keep (tracked : Tracked cfg requests s) (same : ∀ p, Dispatched cfg t p ↔ Dispatched cfg s p)
    (children : t.children = s.children)
    (started : ∀ p, t.exchange.respond p ≠ .idle → t.exchange.respond p ≠ .pending →
      s.exchange.respond p ≠ .idle ∧ s.exchange.respond p ≠ .pending)
    (pending : ∀ p, Dispatched cfg s p → (t.exchange.respond p = .pending ↔ s.exchange.respond p = .pending)) :
    Tracked cfg requests t := by
  obtain ⟨waiting, distinct, perm, waits⟩ := tracked.waiting
  constructor
  · intro p begun other
    obtain ⟨begun, other⟩ := started p begun other
    exact (same p).mpr (tracked.started p begun other)
  · refine ⟨waiting, distinct, children ▸ perm, fun p => ?_⟩
    rw [waits, same]
    exact and_congr_right fun dispatched => (pending p dispatched).symm

/-- A child that starts its response is no longer waiting. -/
theorem Tracked.starts (tracked : Tracked cfg requests s)
    (unkilled : Exchange.Unkilled (setup requests answers) s.exchange) {child : Dispatch} {q : π}
    (member : child ∈ s.children) (pid : child.pid = (requests q).input.pid)
    (asked : s.exchange.respond q = .pending) (children : t.children = s.children.erase child)
    (same : ∀ p, Dispatched cfg t p ↔ Dispatched cfg s p)
    (begun : t.exchange.respond q ≠ .pending)
    (others : ∀ p, p ≠ q → (t.exchange.respond p = .idle ↔ s.exchange.respond p = .idle) ∧
      (t.exchange.respond p = .pending ↔ s.exchange.respond p = .pending)) : Tracked cfg requests t := by
  obtain ⟨waiting, distinct, perm, waits⟩ := tracked.waiting
  obtain ⟨p, waiting', rfl⟩ := List.mem_map.mp (perm.subset member)
  obtain ⟨dispatched, pending⟩ := (waits p).mp waiting'
  obtain rfl : p = q := reply_own unkilled pending asked pid
  constructor
  · intro r started other
    by_cases here : r = p
    · exact here ▸ (same p).mpr dispatched
    · obtain ⟨idle, waits'⟩ := others r here
      rw [Ne, idle] at started
      rw [Ne, waits'] at other
      exact (same r).mpr (tracked.started r started other)
  · refine ⟨waiting.erase p, distinct.erase p, ?_, fun r => ?_⟩
    · rw [children]
      have whole := (perm.trans ((List.perm_cons_erase waiting').map _)).erase (childOf cfg requests p)
      rwa [List.map_cons, List.erase_cons_head] at whole
    · rw [distinct.mem_erase_iff, waits, same]
      by_cases here : r = p
      · simp [here, begun]
      · rw [(others r here).2]
        simp [here]

/-- This is the request whose response the event starts or makes possible. -/
def begins (e : Event κ π) : Option π := e.move.bind Move.begins

theorem begins_elsewhere (unkilled : Exchange.Unkilled (setup requests answers) s.exchange)
    (next : step cfg requests answers s e = some t) {p : π} (other : begins e ≠ some p) :
    (t.exchange.respond p = .idle ↔ s.exchange.respond p = .idle) ∧
      (t.exchange.respond p = .pending ↔ s.exchange.respond p = .pending) := by
  rcases advance_cases (exchange_projects s e t next) with ⟨-, same⟩ | ⟨m, seen, move⟩
  · rw [same]
    exact ⟨Iff.rfl, Iff.rfl⟩
  · apply Exchange.respond_begins unkilled.placed move
    rwa [begins, seen] at other

/-- The events at the server keep what is waiting, up to the child that starts its response. -/
theorem tracked_effect (before : Server requests answers s) (carried : ∀ k, Carried cfg s k)
    (tracked : Tracked cfg requests s) (same : ∀ p, Dispatched cfg t p ↔ Dispatched cfg s p)
    (next : step cfg requests answers s e = some t) (elsewhere : ∀ k, e ≠ .receive k) : Tracked cfg requests t := by
  have frame := fun p => begins_elsewhere (p := p) before.unkilled next
  obtain ⟨ready, ⟨k, rfl, -⟩ | ⟨-, device, exchange, -, second, rfl⟩⟩ := step_cases next
  · exact absurd rfl (elsewhere k)
  cases e with
  | receive k => exact absurd rfl (elsewhere k)
  | reply child q | noPath child q =>
      obtain ⟨⟨asked, -⟩, rfl⟩ := (Exchange.step_eq_some _).mp second
      apply tracked.starts before.unkilled ready.1 ready.2 asked rfl same
      · simp [effect, Exchange.effect, Exchange.setPipe, Exchange.setRespond]
      · exact fun p other => frame p fun here => other (Option.some.inj here).symm
  | ask q n =>
      obtain ⟨locked, rfl⟩ := (Exchange.step_eq_some _).mp second
      have idle : s.exchange.respond q = .idle := by
        apply before.unkilled.placed.unasked
        rw [show s.exchange.pier q = .locked from locked]
        rfl
      apply tracked.keep same rfl
      · intro p begun other
        by_cases here : p = q
        · subst here
          simp [effect, Exchange.effect, Exchange.setRespond] at other
        · have kept := frame p fun started => here (Option.some.inj started).symm
          exact ⟨fun old => begun (kept.1.mpr old), fun old => other (kept.2.mpr old)⟩
      · intro p dispatched
        have different : p ≠ q := by
          rintro rfl
          exact dispatched_begun before carried dispatched idle
        exact (frame p fun started => different (Option.some.inj started).symm).2
  | connect a | start p | openLock p | lock p | refuse p removed | openWrite p | write p n | closeWrite p | openRead p
  | opened p | take p n | eof p | closeRead p | unlock p | unlink p | writable p | put p n | broken p
  | closeReply p =>
      have kept := fun p => frame p (by simp [begins, Event.move, Move.begins])
      apply tracked.keep same rfl
      · exact fun p begun other => ⟨fun old => begun ((kept p).1.mpr old), fun old => other ((kept p).2.mpr old)⟩
      · exact fun p _ => (kept p).2

/-- This is the invariant of the parties of one device. -/
structure Joint (cfg : Config) (requests : π → CgiRequest) (answers : π → Bytes) (s : System κ π) : Prop where
  server : Server requests answers s
  carried : ∀ k, Carried cfg s k
  tracked : Tracked cfg requests s

theorem joint_initial : Joint cfg requests answers (initial : System κ π) :=
  ⟨server_initial, carried_initial, tracked_initial⟩

theorem joint_step (joint : Joint cfg requests answers s) (careful : Careful s e)
    (next : step cfg requests answers s e = some t) : Joint cfg requests answers t := by
  obtain ⟨server, carried, tracked⟩ := joint
  have after := server_step server careful next
  by_cases receives : ∃ k, e = .receive k
  · obtain ⟨k, rfl⟩ := receives
    obtain ⟨ready, ⟨k', same, rfl⟩ | ⟨other, -⟩⟩ := step_cases next
    · obtain rfl := Event.receive.inj same
      exact ⟨after, (receive_forks carried ready).1, tracked_receive server carried tracked after ready next⟩
    · exact absurd rfl (other k)
  · have elsewhere : ∀ k, e ≠ .receive k := fun k same => receives ⟨k, same⟩
    obtain ⟨carried', forks⟩ := effect_forks carried careful next elsewhere
    have same : ∀ p, Dispatched cfg t p ↔ Dispatched cfg s p := by
      intro p
      simp only [Dispatched, fun k => dispatched_quiet server after next (carried k) (carried' k) (forks k)]
    exact ⟨after, carried', tracked_effect server carried tracked same next elsewhere⟩

theorem joint_run {events : List (Event κ π)} (reached : run (step cfg requests answers) initial events = some s)
    (careful : Along (step cfg requests answers) Careful initial events) : Joint cfg requests answers s :=
  invariant_along (fun _ _ _ joint guard next => joint_step joint guard next) joint_initial careful reached

theorem inside_of_agrees {all : Bool} {d : PierPoint} {w : WaitPoint} (agree : agrees all d w = true)
    (expects : w.expects = true) : d.inside = true := by
  cases d <;> cases w <;> first | contradiction | rfl

/-- The process whose response is awaited holds the lock, so at most one child is waiting. -/
theorem Joint.single (joint : Joint cfg requests answers s) : s.children.length ≤ 1 := by
  obtain ⟨waiting, distinct, perm, waits⟩ := joint.tracked.waiting
  have owners : ∀ p ∈ waiting, s.device.owner = some p := by
    intro p member
    have pending := ((waits p).mp member).2
    have expects := (joint.server.unkilled.answering p).active (by rw [pending]; rfl)
    exact (joint.server.ordered.owner p).mp (inside_of_agrees (joint.server.matched p) expects)
  rw [perm.length_eq, List.length_map]
  cases waiting with
  | nil => exact Nat.zero_le _
  | cons p rest =>
      cases rest with
      | nil => exact le_rfl
      | cons q rest =>
          have same : p = q := Option.some.inj ((owners p (by simp)).symm.trans (owners q (by simp)))
          simp [same] at distinct

/-- Each `Pier` copies the answer to its own request, and nothing before exactly one client has dispatched this
request. At most one child waits, it is the one of a dispatched request, and it finds the FIFO of this request
alone, also where processes use a pid again. -/
theorem browsers_get_own_answers (cfg : Config) (requests : π → CgiRequest) (answers : π → Bytes)
    (events : List (Event κ π)) (s : System κ π)
    (reached : run (step cfg requests answers) initial events = some s)
    (careful : Along (step cfg requests answers) Careful initial events) :
    (∀ p, s.exchange.copied p <+: answers p ∧
      (s.exchange.copied p ≠ [] → ∃! k, p ∈ s.dispatched cfg k) ∧
      ((s.exchange.pier p).answered = true → s.exchange.copied p = answers p)) ∧
    (∀ k, s.forked cfg k = (s.dispatched cfg k).map (childOf cfg requests) ∧ (s.dispatched cfg k).Nodup) ∧
    s.children.length ≤ 1 ∧ ∀ child, child ∈ s.children ↔ ∃ p, child = childOf cfg requests p ∧
      (∃ k, p ∈ s.dispatched cfg k) ∧ s.exchange.respond p = .pending ∧
      ∀ q, child.pid = (requests q).input.pid → s.exchange.respond q = .pending → q = p := by
  have joint := joint_run reached careful
  have single := joint.single
  obtain ⟨server, carried, tracked⟩ := joint
  obtain ⟨nodup, apart⟩ := dispatched_apart cfg server
  have unkilled := server.unkilled
  refine ⟨fun p => ⟨(unkilled.sound p).front, fun some => ?_, (unkilled.sound p).whole⟩,
    fun k => ⟨(forked_dispatched server (carried k)).1, nodup k⟩, single, fun child => ?_⟩
  · have present : (s.exchange.respond p).present = true := by
      rcases unkilled.copying p some with reading | answered
      · exact (unkilled.sound p).met (by rw [reading]; rfl) ((unkilled.sound p).reading reading)
      · rw [(unkilled.answering p).told answered]
        rfl
    have started : s.exchange.respond p ≠ .idle ∧ s.exchange.respond p ≠ .pending := by
      constructor <;> intro here <;> simp [here, RespondPoint.present, RespondPoint.holds] at present
    obtain ⟨k, member⟩ := tracked.started p started.1 started.2
    exact ⟨k, member, fun k' other => apart k' k p other member⟩
  · obtain ⟨waiting, -, perm, waits⟩ := tracked.waiting
    constructor
    · intro member
      obtain ⟨p, inside, rfl⟩ := List.mem_map.mp (perm.subset member)
      obtain ⟨dispatched, pending⟩ := (waits p).mp inside
      exact ⟨p, rfl, dispatched, pending, fun q pid asked => (reply_own unkilled pending asked pid).symm⟩
    · rintro ⟨p, rfl, dispatched, pending, -⟩
      exact perm.symm.subset (List.mem_map_of_mem ((waits p).mpr ⟨dispatched, pending⟩))

def reusedChild (p : Bool) : Dispatch := childOf sampleConfig Device.sharedRequests p

def reusedAnswers (p : Bool) : Bytes := if p then text "OK" else []

/-- The second process has the pid of the first one, and its child waits. -/
def reusedEvents : List (Event Bool Bool) :=
  [.start true, .connect (.creat true), .connect (.mkfifo true), .connect (.openRead true), .openLock true, .lock true,
    .openWrite true, .write true 67, .connect (.ready true), .connect (.read true 67), .ask true 2,
    .connect (.read true 2), .receive true, .closeWrite true, .receive true, .connect (.eof true), .openRead true,
    .reply (reusedChild true) true, .opened true, .writable true, .put true 2, .take true 1, .take true 1,
    .closeReply true, .eof true, .closeRead true, .unlock true, .unlink true, .connect (.closeRead true),
    .connect (.openRead true), .connect (.timeout true), .connect (.closeRead true), .connect (.openRead true),
    .start false, .openLock false, .lock false, .openWrite false, .ask false 69, .connect (.ready true),
    .connect (.read true 69), .receive true, .receive true]

def reusedSystem : System Bool Bool :=
  (run (step sampleConfig Device.sharedRequests reusedAnswers) initial reusedEvents).get (by decide +kernel)

theorem browsers_get_own_answers_reused :
    (∀ p, reusedSystem.exchange.copied p <+: reusedAnswers p ∧
      (reusedSystem.exchange.copied p ≠ [] → ∃! k, p ∈ reusedSystem.dispatched sampleConfig k) ∧
      ((reusedSystem.exchange.pier p).answered = true → reusedSystem.exchange.copied p = reusedAnswers p)) ∧
    (∀ k, reusedSystem.forked sampleConfig k = (reusedSystem.dispatched sampleConfig k).map reusedChild ∧
      (reusedSystem.dispatched sampleConfig k).Nodup) ∧
    reusedSystem.children.length ≤ 1 ∧ ∀ child, child ∈ reusedSystem.children ↔ ∃ p, child = reusedChild p ∧
      (∃ k, p ∈ reusedSystem.dispatched sampleConfig k) ∧ reusedSystem.exchange.respond p = .pending ∧
      ∀ q, child.pid = (Device.sharedRequests q).input.pid → reusedSystem.exchange.respond q = .pending → q = p :=
  browsers_get_own_answers sampleConfig Device.sharedRequests reusedAnswers reusedEvents reusedSystem
    (Option.some_get _).symm (by decide +kernel)

end Piercloud.System
