import Piercloud.Proof.Device.Assigned

/-
This file follows the requests that are assigned to a `Connect` from one step to the next.
-/

namespace Piercloud.Cgi.Device

open CLib Runs Client

variable {κ π : Type*} [DecidableEq κ] [DecidableEq π] {input : π → PierInput} {s t : Device κ π} {a : Action κ π}

omit [DecidableEq κ] [DecidableEq π] in
theorem counted_initial (p : π) : (initial : Device κ π).count p ≤ (pierBytes (input p)).length := Nat.zero_le _

/-- No process writes more than its request. -/
theorem counted_step (counted : ∀ p, s.count p ≤ (pierBytes (input p)).length) (next : step input s a = some t)
    (p : π) : t.count p ≤ (pierBytes (input p)).length := by
  obtain ⟨enabled, rfl⟩ := (step_eq_some input).mp next
  cases a with
  | write q n =>
      by_cases here : p = q
      · subst here
        simpa [effect, putBytes] using enabled.2.2.1
      · simpa [effect, putBytes, here] using counted p
  | refuse q | unlock q => simpa [effect, setPier] using counted p
  | creat k | mkfifo k | openRead k | timeout k | ready k | read k n | again k | eof k | closeRead k | openLock q
  | lock q | openWrite q | closeWrite q | answer q => exact counted p

/-- Where a `Connect` has forwarded as many bytes as its first requests have, these requests are whole. -/
theorem front_whole (exclusive : Exclusive s) (ordered : Ordered input s) (shares : Shares input s)
    (once : s.lockOrder.Nodup) (counted : ∀ p, s.count p ≤ (pierBytes (input p)).length) {k : κ} {done later : List π}
    (split : s.assigned k = done ++ later)
    (bytes : (done.flatMap fun p => pierBytes (input p)).length ≤ (s.forwarded k).length) :
    ∀ p ∈ done, s.count p = (pierBytes (input p)).length := by
  intro p member
  by_contra short
  have inside : p ∈ s.assigned k := split ▸ List.mem_append_left _ member
  have forwards : Forwards s k p := of_decide_eq_true (List.mem_filter.mp inside).2
  have some : s.count p ≠ 0 := fun nothing => untouched shares exclusive.conserved nothing k forwards
  have fewer : s.count p < (pierBytes (input p)).length := lt_of_le_of_ne (counted p) short
  -- The request is not whole, so its process holds the lock, and no request is behind it.
  have writing : s.pier p = .writing := by
    by_contra still
    have opened : (s.pier p).opened = true := by
      by_contra closed
      exact some (ordered.unopened p (by simpa using closed))
    exact short (ordered.whole p (wrote_of_opened opened still))
  have owner : s.owner = Option.some p := (ordered.owner p).mp (by rw [writing]; rfl)
  obtain ⟨earlier, order, -⟩ := ordered.finished
  rw [owner] at order
  have last : s.assigned k = (earlier.filter fun q => Forwards s k q) ++ [p] := by
    rw [assigned, order, List.filter_append]
    simp [forwards]
  have behind : later = [] := by
    have distinct : (done ++ later).Nodup := by
      rw [← split]
      exact once.filter _
    cases later using List.reverseRecOn with
    | nil => rfl
    | append_singleton front q =>
        have same : p = q := by
          rw [last, ← List.append_assoc] at split
          exact List.singleton_inj.mp (List.append_inj_right' split rfl)
        have apart := (List.nodup_append.mp distinct).2.2 p member q (by simp)
        exact absurd same apart
  rw [behind, List.append_nil] at split
  have less : ((s.assigned k).flatMap (share input s)).length <
      ((s.assigned k).flatMap fun p => pierBytes (input p)).length := by
    rw [List.length_flatMap, List.length_flatMap]
    apply List.sum_lt_sum
    · exact fun q _ => by simp [share]
    · exact ⟨p, inside, by simp [share, fewer]⟩
  have within := congrArg List.length (exclusive.forwarded_shares ordered k)
  rw [List.length_append] at within
  rw [split] at less within
  omega

/-- A `Connect` reads the requests in lock order, so it is assigned one request after the other. -/
theorem assigned_grows (exclusive : Exclusive t) (ordered : Ordered input t) (once : t.lockOrder.Nodup)
    (locks : s.lockOrder <+: t.lockOrder) (reads : s.readLog <+: t.readLog) (k : κ) :
    s.assigned k <+: t.assigned k := by
  have grows : ∀ p, Forwards s k p → Forwards t k p := fun p ⟨b, member⟩ => ⟨b, reads.subset member⟩
  have order : ∀ front p back, t.lockOrder = front ++ p :: back → Forwards t k p →
      (∃ q ∈ back, Forwards s k q) → Forwards s k p := by
    rintro front p back split ⟨b, read⟩ ⟨q, later, c, old⟩
    -- The shares up to this request are in front of a byte that has been read.
    have written : (front ++ [p]).flatMap (share input t) ++ back.flatMap (share input t) = t.written := by
      rw [ordered.order, split, ← List.flatMap_append, List.append_assoc]
      rfl
    have first : s.readLog.map Prod.snd <+: t.written :=
      (reads.map Prod.snd).trans ⟨t.fifo.content, exclusive.conserved⟩
    have earlier : (front ++ [p]).flatMap (share input t) <+: s.readLog.map Prod.snd := by
      apply (List.prefix_or_prefix_of_prefix ⟨_, written⟩ first).resolve_right
      intro short
      obtain ⟨r, here, share⟩ := List.mem_flatMap.mp (short.subset (List.mem_map_of_mem old))
      obtain rfl : q = r := share_writer share
      rw [split, List.append_cons] at once
      exact (List.nodup_append.mp once).2.2 q here q later rfl
    have mine : (p, b) ∈ share input t p := by
      have inside : (p, b) ∈ t.written := exclusive.conserved ▸ List.mem_append_left _ (List.mem_map_of_mem read)
      rw [ordered.order] at inside
      obtain ⟨r, -, share⟩ := List.mem_flatMap.mp inside
      obtain rfl : p = r := share_writer share
      exact share
    have before : (p, b) ∈ s.readLog.map Prod.snd :=
      earlier.subset (List.mem_flatMap.mpr ⟨p, by simp, mine⟩)
    obtain ⟨⟨k', r, d⟩, entry, same⟩ := List.mem_map.mp before
    obtain ⟨rfl, rfl⟩ := Prod.mk.inj same
    obtain rfl := exclusive.single k' k r ⟨d, reads.subset entry⟩ ⟨d, read⟩
    exact ⟨d, entry⟩
  apply List.IsPrefix.trans (locks.filter _)
  apply filter_grows
  · simpa using grows
  · simpa using order

/-- A step only adds to the order of the locks and to the reads. -/
theorem logs_grow (next : step input s a = some t) : s.lockOrder <+: t.lockOrder ∧ s.readLog <+: t.readLog := by
  obtain ⟨-, rfl⟩ := (step_eq_some input).mp next
  cases a with
  | lock p | read k n | refuse p | unlock p => simp [effect, setPier]
  | creat k | mkfifo k | openRead k | timeout k | ready k | again k | eof k | closeRead k | openLock p | openWrite p
  | write p n | closeWrite p | answer p => exact ⟨List.prefix_refl _, List.prefix_refl _⟩

end Piercloud.Cgi.Device
