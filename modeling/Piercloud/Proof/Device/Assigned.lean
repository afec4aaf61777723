import Piercloud.Library.Traces
import Piercloud.Proof.Device.Readers
import Piercloud.Proof.Tunnel.Pings

/-
This file shows which requests of a device each `Connect` writes to its client.
-/

namespace Piercloud.Cgi.Device

open CLib Runs Client

variable {κ π : Type*}

section Writes

variable [DecidableEq κ]

/-- `Connect` writes what it has read, and a ping when its `select` times out. -/
def connectWrite (k : κ) (s : Device κ π) : Action κ π → Option ConnectWrite
  | .timeout k' => if k' = k then some .ping else none
  | .read k' n => if k' = k then some (.data ((s.fifo.content.take n).map Prod.snd)) else none
  | _ => none

/-- No `Connect` reads a single `0`, which its client would take for a ping. -/
def ReadsPlain (s : Device κ π) : Action κ π → Prop
  | .read _ n => (s.fifo.content.take n).map Prod.snd ≠ pingBytes
  | _ => True

instance (s : Device κ π) : ∀ a : Action κ π, Decidable (ReadsPlain s a)
  | .read _ _ => inferInstanceAs (Decidable (_ ≠ _))
  | .creat _ | .mkfifo _ | .openRead _ | .timeout _ | .ready _ | .again _ | .eof _ | .closeRead _ | .openLock _
  | .lock _ | .openWrite _ | .refuse _ | .write _ _ | .closeWrite _ | .answer _ | .unlock _ => isTrue trivial

variable [DecidableEq π]

/-- These are the writes of one `Connect` in a run. -/
def connectWrites (input : π → PierInput) (k : κ) (actions : List (Action κ π)) : List ConnectWrite :=
  emitted (step input) (connectWrite k) initial actions

instance (s : Device κ π) (k : κ) (p : π) : Decidable (Forwards s k p) :=
  decidable_of_iff (∃ entry ∈ s.readLog, entry.1 = k ∧ entry.2.1 = p) (by
    constructor
    · rintro ⟨⟨_, _, b⟩, member, rfl, rfl⟩
      exact ⟨b, member⟩
    · rintro ⟨b, member⟩
      exact ⟨_, member, rfl, rfl⟩)

/-- These are the requests that one `Connect` has read a byte of, in lock order. -/
def assigned (s : Device κ π) (k : κ) : List π := s.lockOrder.filter fun p => Forwards s k p

end Writes

variable [DecidableEq κ] [DecidableEq π] {input : π → PierInput} {s t : Device κ π} {a : Action κ π}

omit [DecidableEq π] in
/-- What one `Connect` reads is forwarded by this one alone. -/
theorem forwarded_reads (k' : κ) {pulled : List (π × UInt8)}
    (readLog : t.readLog = s.readLog ++ pulled.map fun b => (k', b)) (k : κ) :
    t.forwarded k = s.forwarded k ++ if k' = k then pulled else [] := by
  rw [forwarded, forwarded, readLog, List.filter_append, List.map_append, List.filter_map, List.map_map]
  by_cases here : k' = k <;> simp [here, Function.comp_def]

/-- A step adds its write to what the `Connect` has forwarded. -/
theorem forwarded_step (k : κ) (next : step input s a = some t) : (t.forwarded k).map Prod.snd =
    (s.forwarded k).map Prod.snd ++ (connectWrite k s a).toList.flatMap fun w => w.fifoBytes.getD [] := by
  obtain ⟨-, rfl⟩ := (step_eq_some input).mp next
  cases a with
  | read k' n =>
      rw [forwarded_reads k' rfl, connectWrite]
      by_cases here : k' = k <;> simp [here, ConnectWrite.fifoBytes]
  | timeout k' =>
      by_cases here : k' = k <;> simp [forwarded, effect, connectWrite, here, ConnectWrite.fifoBytes, setConnect]
  | refuse p | unlock p => simp [forwarded, effect, connectWrite, setPier]
  | creat k' | mkfifo k' | openRead k' | ready k' | again k' | eof k' | closeRead k' | openLock p | lock p
  | openWrite p | write p n | closeWrite p | answer p => simp [forwarded, effect, connectWrite, setPier,
      setConnect, putBytes]

omit [DecidableEq κ] [DecidableEq π] in
theorem fifoBytes_flatten (writes : List ConnectWrite) :
    (writes.filterMap ConnectWrite.fifoBytes).flatten = writes.flatMap fun w => w.fifoBytes.getD [] := by
  induction writes with
  | nil => rfl
  | cons w writes ih =>
      rw [List.flatMap_cons, ← ih]
      cases w <;> rfl

/-- The bytes that a `Connect` has forwarded are those of its writes. -/
theorem forwarded_writes {actions : List (Action κ π)} (reached : run (step input) initial actions = some s) (k : κ) :
    ((connectWrites input k actions).filterMap ConnectWrite.fifoBytes).flatten = (s.forwarded k).map Prod.snd := by
  have log := log_run (fun _ _ _ next => forwarded_step k next) reached
  rw [fifoBytes_flatten, log]
  rfl

/-- A guarded write has some bytes, less than the buffer has, and it is no single `0`. -/
theorem write_plain (plain : ReadsPlain s a) (next : step input s a = some t) {k : κ} {bytes : Bytes}
    (write : connectWrite k s a = some (.data bytes)) :
    (1 ≤ bytes.length ∧ bytes.length ≤ pipeBuf - 1) ∧ bytes ≠ pingBytes := by
  have enabled := ((step_eq_some input).mp next).1
  cases a with
  | read k' n =>
      obtain ⟨-, positive, most, within⟩ := enabled
      simp only [connectWrite, Option.ite_none_right_eq_some, Option.some.injEq, ConnectWrite.data.injEq] at write
      obtain ⟨-, rfl⟩ := write
      refine ⟨?_, plain⟩
      rw [List.length_map, List.length_take, min_eq_left within]
      exact ⟨positive, most⟩
  | timeout k' => simp [connectWrite] at write
  | creat k' | mkfifo k' | openRead k' | ready k' | again k' | eof k' | closeRead k' | openLock p | lock p
  | openWrite p | refuse p | write p n | closeWrite p | answer p | unlock p => simp [connectWrite] at write

/-- What a guarded step writes into the stream of a `Connect` is what the `Connect` forwards, and no ping. -/
theorem write_carries (plain : ReadsPlain s a) (next : step input s a = some t) (k : κ) :
    (∀ bytes ∈ ((connectWrite k s a).map ConnectWrite.bytes).toList, bytes ≠ []) ∧
      (t.forwarded k).map Prod.snd = (s.forwarded k).map Prod.snd ++
        (((connectWrite k s a).map ConnectWrite.bytes).toList.filter (· ≠ pingBytes)).flatten := by
  rw [forwarded_step k next]
  cases write : connectWrite k s a with
  | none => simp
  | some w =>
      cases w with
      | ping =>
          have some : pingBytes ≠ [] := by decide
          exact ⟨by simpa [ConnectWrite.bytes] using some, by simp [ConnectWrite.bytes, ConnectWrite.fifoBytes]⟩
      | data bytes =>
          obtain ⟨⟨positive, -⟩, real⟩ := write_plain plain next write
          have some : bytes ≠ [] := List.ne_nil_of_length_pos positive
          exact ⟨by simpa [ConnectWrite.bytes] using some, by simp [ConnectWrite.bytes, ConnectWrite.fifoBytes, real]⟩

theorem writes_plain {actions : List (Action κ π)} (reached : run (step input) initial actions = some s)
    (plain : Along (step input) ReadsPlain initial actions) (k : κ) {bytes : Bytes}
    (write : .data bytes ∈ connectWrites input k actions) :
    (1 ≤ bytes.length ∧ bytes.length ≤ pipeBuf - 1) ∧ bytes ≠ pingBytes := by
  have gives : ∀ (s : Device κ π) a t w, ReadsPlain s a → step input s a = some t → connectWrite k s a = some w →
      ∀ bytes, w = .data bytes → (1 ≤ bytes.length ∧ bytes.length ≤ pipeBuf - 1) ∧ bytes ≠ pingBytes := by
    rintro s a t w here next output bytes rfl
    exact write_plain here next output
  exact emitted_along gives plain reached _ write bytes rfl

omit [DecidableEq κ] [DecidableEq π] in
/-- A process that holds no lock yet is not in the lock order. -/
theorem Ordered.not_locked (ordered : Ordered input s) {p : π} (outside : (s.pier p).inside = false)
    (running : (s.pier p).ended = false) : p ∉ s.lockOrder := by
  obtain ⟨earlier, split, ended⟩ := ordered.finished
  rw [split]
  intro member
  rcases List.mem_append.mp member with before | now
  · simp [ended p before] at running
  · have inside := (ordered.owner p).mpr (by simpa using now)
    simp [outside] at inside

/-- A process takes the lock once. -/
theorem lockOrder_step (ordered : Ordered input s) (once : s.lockOrder.Nodup) (next : step input s a = some t) :
    t.lockOrder.Nodup := by
  obtain ⟨enabled, rfl⟩ := (step_eq_some input).mp next
  cases a with
  | lock p =>
      have fresh : p ∉ s.lockOrder := ordered.not_locked (by rw [enabled.1]; rfl) (by rw [enabled.1]; rfl)
      simpa [effect, List.nodup_append] using ⟨once, fun q member same => fresh (same ▸ member)⟩
  | refuse p | unlock p => simpa [effect, setPier] using once
  | creat k | mkfifo k | openRead k | timeout k | ready k | read k n | again k | eof k | closeRead k | openLock p
  | openWrite p | write p n | closeWrite p | answer p => exact once

theorem lockOrder_nodup {actions : List (Action κ π)} (reached : run (step input) initial actions = some s) :
    s.lockOrder.Nodup := by
  have kept : ∀ (s : Device κ π) a t, Ordered input s ∧ s.lockOrder.Nodup → step input s a = some t →
      Ordered input t ∧ t.lockOrder.Nodup :=
    fun s a t good next => ⟨ordered_step good.1 next, lockOrder_step good.1 good.2 next⟩
  exact (invariant kept ⟨ordered_initial, List.nodup_nil⟩ reached).2

/-- The reads of one `Connect` are the reads of the requests assigned to it. -/
theorem Exclusive.forwarded_filter (exclusive : Exclusive s) (k : κ) :
    s.forwarded k = (s.readLog.map Prod.snd).filter fun b => Forwards s k b.1 := by
  rw [forwarded, List.filter_map]
  congr 1
  apply List.filter_congr
  intro entry member
  have forwards : Forwards s entry.1 entry.2.1 := ⟨entry.2.2, member⟩
  by_cases here : entry.1 = k
  · simpa [here] using here ▸ forwards
  · simpa [here] using fun other => here (exclusive.single _ _ _ forwards other)

omit [DecidableEq κ] [DecidableEq π] in
theorem share_writer {p : π} {b : π × UInt8} (member : b ∈ share input s p) : b.1 = p := by
  obtain ⟨byte, -, rfl⟩ := List.mem_map.mp member
  rfl

omit [DecidableEq κ] [DecidableEq π] in
theorem share_filter (keep : π → Bool) (order : List π) :
    (order.flatMap (share input s)).filter (fun b => keep b.1) = (order.filter keep).flatMap (share input s) := by
  induction order with
  | nil => rfl
  | cons p order ih =>
      rw [List.flatMap_cons, List.filter_append, ih]
      cases kept : keep p with
      | true =>
          rw [List.filter_cons_of_pos kept, List.flatMap_cons, List.filter_eq_self.mpr]
          exact fun b member => by rw [share_writer member, kept]
      | false =>
          rw [List.filter_cons_of_neg (by simp [kept]), List.filter_eq_nil_iff.mpr, List.nil_append]
          exact fun b member => by simp [share_writer member, kept]

/-- A `Connect` forwards what the requests assigned to it have written, up to what is left in the FIFO. -/
theorem Exclusive.forwarded_shares (exclusive : Exclusive s) (ordered : Ordered input s) (k : κ) :
    s.forwarded k ++ s.fifo.content.filter (fun b => Forwards s k b.1) =
      (s.assigned k).flatMap (share input s) := by
  rw [exclusive.forwarded_filter, assigned, ← share_filter, ← ordered.order, ← exclusive.conserved,
    List.filter_append]

/-- A process that has opened the FIFO is writing, or it has written its whole request. -/
theorem wrote_of_opened {point : PierPoint} (opened : point.opened = true) (still : point ≠ .writing) :
    point.wrote = true := by
  cases point with
  | writing => contradiction
  | waiting | answered | done => rfl
  | start | lockOpened | locked | refused => simp [PierPoint.opened] at opened

omit [DecidableEq κ] [DecidableEq π] in
/-- Only a process that is writing has written a part of its request. -/
theorem Ordered.share_opened (ordered : Ordered input s) {p : π} (some : s.count p ≠ 0)
    (still : s.pier p ≠ .writing) : (share input s p).map Prod.snd = pierBytes (input p) := by
  have opened : (s.pier p).opened = true := by
    by_contra closed
    exact some (ordered.unopened p (by simpa using closed))
  have wrote := wrote_of_opened opened still
  rw [share_bytes, ordered.whole p wrote, List.take_length]

/-- What a `Connect` has forwarded is a front of the requests assigned to it, in lock order, and all of them when
the FIFO is empty and no process writes. -/
theorem assigned_forwarded (exclusive : Exclusive s) (ordered : Ordered input s) (shares : Shares input s) (k : κ) :
    ∃ coming, (s.assigned k).flatMap (fun p => pierBytes (input p)) = (s.forwarded k).map Prod.snd ++ coming ∧
      (s.fifo.content = [] → (∀ p, s.pier p ≠ .writing) → coming = []) := by
  have counted : ∀ p ∈ s.assigned k, s.count p ≠ 0 := by
    intro p member nothing
    exact untouched shares exclusive.conserved nothing k (of_decide_eq_true (List.mem_filter.mp member).2)
  have written := congrArg (List.map Prod.snd) (exclusive.forwarded_shares ordered k)
  rw [List.map_append, List.map_flatMap] at written
  obtain ⟨earlier, split, ended⟩ := ordered.finished
  -- All but the owner have written whole requests.
  have front : (s.assigned k).flatMap (fun p => (share input s p).map Prod.snd) <+:
      (s.assigned k).flatMap fun p => pierBytes (input p) := by
    have whole : ∀ p ∈ earlier.filter (fun p => Forwards s k p),
        (share input s p).map Prod.snd = pierBytes (input p) := by
      intro p member
      have inside : p ∈ s.assigned k := by
        rw [assigned, split, List.filter_append]
        exact List.mem_append_left _ member
      apply ordered.share_opened (counted p inside)
      intro writing
      have gone : (s.pier p).ended = true := ended p (List.mem_filter.mp member).1
      rw [writing] at gone
      contradiction
    rw [assigned, split, List.filter_append, List.flatMap_append, List.flatMap_append, List.flatMap_congr whole]
    apply (List.prefix_append_right_inj _).mpr
    cases s.owner with
    | none => exact List.prefix_refl _
    | some p =>
        by_cases forwards : Forwards s k p
        · simpa [forwards, share_bytes] using List.take_prefix _ _
        · simp [forwards]
  have start := (List.prefix_append _ _).trans (written ▸ front)
  obtain ⟨coming, stream⟩ := start
  refine ⟨coming, stream.symm, fun empty still => ?_⟩
  have whole : ∀ p ∈ s.assigned k, (share input s p).map Prod.snd = pierBytes (input p) :=
    fun p member => ordered.share_opened (counted p member) (still p)
  rw [empty, List.filter_nil, List.map_nil, List.append_nil, List.flatMap_congr whole, ← stream] at written
  simpa using written

end Piercloud.Cgi.Device
