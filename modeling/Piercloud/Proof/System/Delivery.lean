import Piercloud.Proof.Device.Assigned
import Piercloud.Proof.Parser.Ahead
import Piercloud.Proof.Tunnel.Agreement

/-
This file follows the requests of the browsers from the lock of their device to the children of its clients.
-/

namespace Piercloud.Client

open CLib Cgi Socket Runs

/-- A session dispatches what the chunks that it passes dispatch. -/
theorem doReadLoop_dispatched (cfg : Config) {fuel : Nat} {s : State} {soc : SocketT} {world : World} :
    (doReadLoop cfg fuel s soc world).dispatched =
      (feed (chunk cfg) s (doReadLoop cfg fuel s soc world).passed).1.reduceOption := by
  induction fuel generalizing s soc world with
  | zero => rfl
  | succ fuel ih =>
      rw [doReadLoop]
      rcases readInput soc world with ⟨ending | _ | bytes, soc, world⟩
      · rfl
      · exact ih
      · cases step : chunk cfg s bytes with
        | none => simp [step, Session.ended, feed_cons_stopped step]
        | some result =>
            have first : chunk cfg s bytes = some (result.1, result.2) := step
            simp only [step, Session.after]
            rw [feed_cons first, ih]
            cases result.2 <;> rfl

/-- A client receives the writes of one `Connect` as whole HTTP chunks, from between two messages on. The
connection may close behind each of them. -/
structure Reception (writes : List ConnectWrite) where
  statics : Statics
  soc : SocketT
  world : World
  chunks : List HttpChunk
  between : statics.inHeader = false ∧ statics.inData = false
  fresh : Holds soc []
  ssl : soc.fn = true
  plenty : Plenty world
  stream : world.reads = chunks.flatMap HttpChunk.outcomes
  carried : chunks.map HttpChunk.payload <+: writes.map ConnectWrite.bytes

namespace Reception

variable {writes : List ConnectWrite} (reception : Reception writes)

def session (cfg : Config) : Session := doReadFromServer cfg reception.statics reception.soc reception.world

/-- These are the chunks that are no ping. -/
def pieces : List Bytes := (reception.chunks.map HttpChunk.payload).filter (· ≠ pingBytes)

/-- The session has received everything, and no request waits in its buffer. -/
def AtRest (cfg : Config) : Prop :=
  reception.chunks.map HttpChunk.payload = writes.map ConnectWrite.bytes ∧
    ∃ t, run (silent (chunk cfg)) (sessionStart reception.statics) reception.pieces = some t ∧
      t.buf.len = 0 ∧ t.statics.inData = false

variable {reception} (sizes : ∀ bytes, .data bytes ∈ writes →
  (1 ≤ bytes.length ∧ bytes.length ≤ pipeBuf - 1) ∧ bytes ≠ pingBytes)
include sizes

/-- The writes that are no ping are the reads of the FIFO. -/
theorem filter_plain : (writes.map ConnectWrite.bytes).filter (· ≠ pingBytes) =
    writes.filterMap ConnectWrite.fifoBytes := by
  rw [filter_writes, List.filter_eq_self]
  intro bytes member
  obtain ⟨write, sent, same⟩ := List.mem_filterMap.mp member
  cases write with
  | data other => simpa using Option.some.inj same ▸ (sizes other sent).2
  | ping => contradiction

/-- The pieces are the first reads of the FIFO, or all of them. -/
theorem pieces_front : ∃ unread, reception.pieces ++ unread = writes.filterMap ConnectWrite.fifoBytes ∧
    (reception.chunks.map HttpChunk.payload = writes.map ConnectWrite.bytes → unread = []) := by
  obtain ⟨unread, front⟩ := reception.carried.filter (· ≠ pingBytes)
  rw [filter_plain sizes] at front
  refine ⟨unread, front, fun all => ?_⟩
  rw [all, filter_plain sizes] at front
  simpa using front

theorem dispatched_pieces (cfg : Config) : (reception.session cfg).dispatched =
    (feed (chunk cfg) (sessionStart reception.statics) reception.pieces).1.reduceOption := by
  have bounds : ∀ c ∈ reception.chunks, c.payload ≠ [] ∧ c.payload.length < 2 ^ 63 := by
    intro c member
    have listed : c.payload ∈ writes.map ConnectWrite.bytes :=
      reception.carried.subset (List.mem_map_of_mem member)
    obtain ⟨write, sent, same⟩ := List.mem_map.mp listed
    rw [← same]
    cases write with
    | ping => decide
    | data bytes =>
        obtain ⟨⟨positive, most⟩, -⟩ := sizes bytes sent
        simp only [pipeBuf] at most
        exact ⟨List.ne_nil_of_length_pos positive, by rw [ConnectWrite.bytes]; omega⟩
  have passed := doReadFromServer_passed cfg reception.statics reception.fresh reception.ssl reception.plenty
    reception.stream bounds
  have outputs : (reception.session cfg).dispatched =
      (feed (chunk cfg) (sessionStart reception.statics) (reception.session cfg).passed).1.reduceOption := by
    rw [session, doReadFromServer, reception.ssl, Bool.not_true, if_neg Bool.false_ne_true]
    exact doReadLoop_dispatched cfg
  rw [outputs, session, passed, feed_taken]
  rfl

end Reception

end Piercloud.Client

namespace Piercloud.Cgi.Device

open CLib Client Wire Runs

variable {κ π : Type*} [DecidableEq κ] [DecidableEq π]

/-- No byte of the FIFO is discarded, one `Connect` at a time is in its read loop, and none reads a single `0`. -/
def Careful (s : Device κ π) (a : Action κ π) : Prop := (KeepsContent s a ∧ ReadsAlone s a) ∧ ReadsPlain s a

instance [Fintype κ] (s : Device κ π) (a : Action κ π) : Decidable (Careful s a) :=
  inferInstanceAs (Decidable ((_ ∧ _) ∧ _))

/-- These are the inputs of the processes that serve the browsers. -/
def inputs (requests : π → CgiRequest) (p : π) : PierInput := (requests p).input

variable {requests : π → CgiRequest} {actions : List (Action κ π)} {s : Device κ π}

omit [DecidableEq κ] [DecidableEq π] in
theorem inputs_encode (order : List π) :
    (order.flatMap fun p => pierBytes (inputs requests p)) =
      (order.map fun p => (requests p).wire).flatMap Request.encode := by
  rw [List.flatMap_map]
  exact List.flatMap_congr fun p _ => (requests p).pierBytes_wire

/-- A session dispatches the first of the requests that are assigned to its `Connect`. -/
theorem session_dispatches (cfg : Config) (reached : run (step (inputs requests)) initial actions = some s)
    (careful : Along (step (inputs requests)) Careful initial actions) {k : κ}
    (reception : Reception (connectWrites (inputs requests) k actions)) :
    ∃ done later, s.assigned k = done ++ later ∧
      (reception.session cfg).dispatched = done.map (fun p => (requests p).wire.expected cfg) ∧
      (s.fifo.content = [] → (∀ p, s.pier p ≠ .writing) → reception.AtRest cfg → later = []) := by
  obtain ⟨exclusive, ordered, shares⟩ := exclusive_run reached (along_mono (fun _ _ guard => guard.1) careful)
  have sizes : ∀ bytes, .data bytes ∈ connectWrites (inputs requests) k actions →
      (1 ≤ bytes.length ∧ bytes.length ≤ pipeBuf - 1) ∧ bytes ≠ pingBytes :=
    fun _ => writes_plain reached (along_mono (fun _ _ guard => guard.2) careful) k
  obtain ⟨unread, front, whole⟩ := reception.pieces_front sizes
  obtain ⟨coming, stream, drained⟩ := assigned_forwarded exclusive ordered shares k
  have ahead : Ahead cfg (sessionStart reception.statics) ((s.assigned k).map fun p => (requests p).wire)
      (reception.pieces.flatten ++ (unread.flatten ++ coming)) := by
    have start := sessionStart_ahead cfg reception.between ((s.assigned k).map fun p => (requests p).wire)
    rwa [← inputs_encode, stream, ← forwarded_writes reached k, ← front, List.flatten_append,
      List.append_assoc] at start
  have real : ∀ data ∈ reception.pieces, data ≠ [] := by
    intro data member
    have read : data ∈ (connectWrites (inputs requests) k actions).filterMap ConnectWrite.fifoBytes :=
      front ▸ List.mem_append_left _ member
    obtain ⟨write, sent, same⟩ := List.mem_filterMap.mp read
    cases write with
    | data other => exact Option.some.inj same ▸ List.ne_nil_of_length_pos (sizes other sent).1.1
    | ping => contradiction
  obtain ⟨first, rest, split, outputs, -, last⟩ := ahead.feeds cfg real
  obtain ⟨done, later, parts, rfl, rfl⟩ := List.map_eq_append_iff.mp split
  refine ⟨done, later, parts, ?_, ?_⟩
  · rw [reception.dispatched_pieces sizes, outputs, List.map_map]
    rfl
  · rintro empty still ⟨all, t, final, unfilled, idle⟩
    rw [whole all, drained empty still] at last
    have none : later.map (fun p => (requests p).wire) = [] :=
      (last t (by rw [feed_state, final])).drained unfilled idle
    simpa using none

/-- Each session dispatches the first of the requests assigned to its `Connect`, each as the local server shall see
it. The requests are in lock order, and no request is dispatched twice. -/
theorem requests_dispatched_once (cfg : Config) (requests : π → CgiRequest) (actions : List (Action κ π))
    (s : Device κ π) (reached : run (step (inputs requests)) initial actions = some s)
    (careful : Along (step (inputs requests)) Careful initial actions)
    (receptions : ∀ k, Reception (connectWrites (inputs requests) k actions)) :
    ∃ done : κ → List π, s.lockOrder.Nodup ∧ (∀ k, (done k).Sublist s.lockOrder ∧ done k <+: s.assigned k ∧
        ((receptions k).session cfg).dispatched = (done k).map fun p => (requests p).wire.expected cfg) ∧
      ∀ k k' p, p ∈ done k → p ∈ done k' → k = k' := by
  have sessions := fun k => session_dispatches cfg reached careful (receptions k)
  choose done later parts outputs _ using sessions
  have front : ∀ k, done k <+: s.assigned k := fun k => ⟨later k, (parts k).symm⟩
  refine ⟨done, lockOrder_nodup reached, fun k => ⟨(front k).sublist.trans List.filter_sublist, front k, outputs k⟩,
    fun k k' p here there => ?_⟩
  have exclusive := (exclusive_run reached (along_mono (fun _ _ guard => guard.1) careful)).1
  have forwards : ∀ k, p ∈ done k → Forwards s k p :=
    fun k member => of_decide_eq_true (List.mem_filter.mp ((front k).subset member)).2
  exact exclusive.single k k' p (forwards k here) (forwards k' there)

/-- When the FIFO and the buffers of the clients are empty and no process writes, every request that was opened has
been dispatched by exactly one session. -/
theorem opened_requests_dispatched (cfg : Config) (requests : π → CgiRequest) (actions : List (Action κ π))
    (s : Device κ π) (reached : run (step (inputs requests)) initial actions = some s)
    (careful : Along (step (inputs requests)) Careful initial actions)
    (receptions : ∀ k, Reception (connectWrites (inputs requests) k actions)) (empty : s.fifo.content = [])
    (still : ∀ p, s.pier p ≠ .writing) (rest : ∀ k, (receptions k).AtRest cfg) :
    (∀ k, ((receptions k).session cfg).dispatched =
        (s.assigned k).map fun p => (requests p).wire.expected cfg) ∧
      ∀ p, (s.pier p).opened = true → ∃! k, p ∈ s.assigned k := by
  obtain ⟨exclusive, ordered, shares⟩ := exclusive_run reached (along_mono (fun _ _ guard => guard.1) careful)
  constructor
  · intro k
    obtain ⟨done, later, parts, outputs, drained⟩ := session_dispatches cfg reached careful (receptions k)
    rw [parts, drained empty still (rest k), List.append_nil, outputs]
  · intro p opened
    -- The FIFO is empty, so all of the request has been read.
    have split := written_split shares exclusive.conserved p
    rw [ordered.whole p (wrote_of_opened opened (still p)), List.take_length, leftBytes, empty] at split
    have real : pierBytes (inputs requests p) ≠ [] := by
      rw [inputs, (requests p).pierBytes_wire]
      exact Request.encode_ne_nil _
    obtain ⟨⟨k, q, b⟩, entry⟩ : ∃ entry, entry ∈ s.readLog.filter fun entry => entry.2.1 = p := by
      apply List.exists_mem_of_ne_nil
      intro none
      rw [none] at split
      exact real split.symm
    obtain ⟨read, mine⟩ := List.mem_filter.mp entry
    obtain rfl : q = p := of_decide_eq_true mine
    have locked : q ∈ s.lockOrder := by
      have written : (q, b) ∈ s.written := by
        rw [← exclusive.conserved]
        exact List.mem_append_left _ (List.mem_map_of_mem read)
      rw [ordered.order] at written
      obtain ⟨r, member, share⟩ := List.mem_flatMap.mp written
      obtain ⟨byte, -, same⟩ := List.mem_map.mp share
      exact (Prod.mk.inj same).1 ▸ member
    refine ⟨k, List.mem_filter.mpr ⟨locked, decide_eq_true ⟨b, read⟩⟩, fun k' other => ?_⟩
    exact exclusive.single k' k q (of_decide_eq_true (List.mem_filter.mp other).2) ⟨b, read⟩

/-- Two sessions take one request each, and a ping stands between them. -/
def sharedRun : List (Action Bool Bool) :=
  [.creat true, .mkfifo true, .creat false, .mkfifo false, .openRead true, .openRead false, .openLock true,
    .openLock false, .lock true, .openWrite true, .write true 69, .ready true, .read true 67, .closeWrite true,
    .read true 2, .eof true, .answer true, .unlock true, .timeout false, .closeRead false, .openRead false,
    .lock false, .openWrite false, .write false 69, .closeWrite false, .ready false, .read false 69]

def sharedRequests (_ : Bool) : CgiRequest := sampleCgiRequest

def sharedState : Device Bool Bool :=
  (run (step (inputs sharedRequests)) initial sharedRun).get (by decide +kernel)

/-- One read receives each chunk. -/
def receiveAll {writes : List ConnectWrite} (chunks : List HttpChunk)
    (carried : chunks.map HttpChunk.payload = writes.map ConnectWrite.bytes) : Reception writes where
  statics := Statics.initial
  soc := sampleSocket
  world := ⟨chunks.flatMap HttpChunk.outcomes, [], []⟩
  chunks := chunks
  between := ⟨rfl, rfl⟩
  fresh := ⟨rfl, rfl⟩
  ssl := rfl
  plenty := rfl
  stream := rfl
  carried := carried ▸ List.prefix_refl _

theorem pingDigits_sized : text "1" ≠ [] ∧ (∀ c ∈ text "1", digitValue c < 16) ∧
    digitsValue 16 (text "1") = pingBytes.length := by
  decide +kernel

def sharedChunks : Bool → List HttpChunk
  | true => [wholeChunk (text "43") ((pierBytes sampleCgiRequest.input).take 67) (by decide +kernel),
      wholeChunk (text "2") ((pierBytes sampleCgiRequest.input).drop 67) (by decide +kernel)]
  | false => [wholeChunk (text "1") pingBytes pingDigits_sized,
      wholeChunk (text "45") (pierBytes sampleCgiRequest.input) (by decide +kernel)]

def sharedReceptions (k : Bool) : Reception (connectWrites (inputs sharedRequests) k sharedRun) :=
  receiveAll (sharedChunks k) (by cases k <;> decide +kernel)

theorem requests_dispatched_once_shared :
    ∃ done : Bool → List Bool, sharedState.lockOrder.Nodup ∧
      (∀ k, (done k).Sublist sharedState.lockOrder ∧ done k <+: sharedState.assigned k ∧
        ((sharedReceptions k).session sampleConfig).dispatched =
          (done k).map fun p => (sharedRequests p).wire.expected sampleConfig) ∧
      ∀ k k' p, p ∈ done k → p ∈ done k' → k = k' :=
  requests_dispatched_once sampleConfig sharedRequests sharedRun sharedState (Option.some_get _).symm
    (by decide +kernel) sharedReceptions

theorem sharedReceptions_survive (k : Bool) : (run (silent (chunk sampleConfig))
    (sessionStart (sharedReceptions k).statics) (sharedReceptions k).pieces).isSome := by
  cases k <;> decide +kernel

theorem sharedReceptions_atRest (k : Bool) : (sharedReceptions k).AtRest sampleConfig := by
  refine ⟨?_, _, (Option.some_get (sharedReceptions_survive k)).symm, ?_, ?_⟩ <;> cases k <;> decide +kernel

theorem opened_requests_dispatched_shared :
    (∀ k, ((sharedReceptions k).session sampleConfig).dispatched =
        (sharedState.assigned k).map fun p => (sharedRequests p).wire.expected sampleConfig) ∧
      ∀ p, (sharedState.pier p).opened = true → ∃! k, p ∈ sharedState.assigned k :=
  opened_requests_dispatched sampleConfig sharedRequests sharedRun sharedState (Option.some_get _).symm
    (by decide +kernel) sharedReceptions (by decide +kernel) (by decide +kernel) sharedReceptions_atRest
end Piercloud.Cgi.Device
