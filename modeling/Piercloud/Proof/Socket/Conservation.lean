import Piercloud.Construction.Socket
import Piercloud.Library.Runs

namespace Piercloud.Socket

open CLib Runs

/-- A caller takes rows and counted buffers from a socket. -/
inductive Call where
  | row
  | buf (size : Nat)
  deriving DecidableEq, Repr

/-- `taken` records the returned rows with their newlines and the requested bytes, in call order. -/
structure Reader where
  soc : SocketT
  world : World
  taken : Bytes
  deriving DecidableEq, Repr

/-- A call that fails gives no state. -/
def call (s : Reader) : Call → Option Reader
  | .row =>
      match getRowFromSocket s.soc s.world with
      | (_, some row, soc, world) => some ⟨soc, world, s.taken ++ (row ++ [LF])⟩
      | (_, none, _, _) => none
  | .buf size =>
      match getBufFromSocket .null s.soc size s.world with
      | (r, .block block, soc, world) =>
          if 0 < r then some ⟨soc, world, s.taken ++ block.take size⟩ else none
      | _ => none

/-- The buffer holds no more bytes than a counted read asks for. -/
def Fits (s : Reader) : Call → Prop
  | .row => True
  | .buf size => s.soc.bufLen ≤ size

/-- The taken bytes and the buffered bytes are the received bytes. -/
def Conserved (s : Reader) : Prop := s.taken ++ held s.soc = s.world.received

instance : DecidablePred Conserved := fun _ => inferInstanceAs (Decidable (_ = _))

theorem receive_length {size : Nat} {reads rest : List ReadOutcome} {piece : Bytes}
    (read : receive size reads = (some piece, rest)) : piece.length ≤ size := by
  induction reads with
  | nil =>
      simp only [receive, Prod.mk.injEq, Option.some.injEq] at read
      simp [← read.1]
  | cons outcome reads ih =>
      cases outcome with
      | again => exact ih read
      | failed => simp [receive] at read
      | data whole =>
          simp only [receive] at read
          split at read
          · rename_i fits
            simp only [Prod.mk.injEq, Option.some.injEq] at read
            exact read.1 ▸ fits
          · simp only [Prod.mk.injEq, Option.some.injEq] at read
            simp [← read.1]

/-- The loop gives the first row of the buffered and the new bytes. -/
theorem getRowLoop_row {fuel : Nat} {r r' : Int} {soc next : SocketT} {world world' : World}
    {bytes row : Bytes} (holds : Holds soc bytes) (plenty : Plenty world)
    (done : getRowLoop fuel r soc world = (r', some row, next, world')) :
    ∃ fresh rest, world'.received = world.received ++ fresh ∧ bytes ++ fresh = row ++ LF :: rest ∧
      Holds next rest ∧ Plenty world' := by
  induction fuel generalizing r soc world bytes with
  | zero => simp [getRowLoop] at done
  | succ fuel ih =>
      rcases getRowAndCut_cases holds plenty with waits | ⟨row', rest, after, split, -, -, cut, kept⟩
      · rcases increaseSoc_cases readBufSize holds plenty with
          ⟨r, stuck, read, failed⟩ | ⟨piece, after, grown, -, real, read, kept, gained, enough⟩
        · simp [getRowLoop, waits, read, failed] at done
        · have positive : ¬ ((piece.length : Int) ≤ 0) := by
            have := List.length_pos_of_ne_nil real
            omega
          simp only [getRowLoop, waits, read, if_neg positive] at done
          obtain ⟨fresh, rest, received, same, kept, enough⟩ := ih kept enough done
          exact ⟨piece ++ fresh, rest, by simp [received, gained], by simpa using same, kept, enough⟩
      · simp only [getRowLoop, cut, Prod.mk.injEq, Option.some.injEq] at done
        obtain ⟨-, rfl, rfl, rfl⟩ := done
        exact ⟨[], rest, by simp, by simpa using split, kept, plenty⟩

/-- The loop reads only what is missing from the requested number of bytes. -/
theorem getBufLoop_bytes {fuel size : Nat} {r : Int} {soc next : SocketT} {world world' : World}
    {bytes : Bytes} (holds : Holds soc bytes) (plenty : Plenty world)
    (done : getBufLoop fuel soc size world = (r, next, world')) (positive : 0 < r) :
    ∃ fresh, world'.received = world.received ++ fresh ∧ Holds next (bytes ++ fresh) ∧ Plenty world' ∧
      (bytes ++ fresh).length = max size bytes.length := by
  induction fuel generalizing soc world bytes with
  | zero =>
      simp only [getBufLoop, Prod.mk.injEq] at done
      omega
  | succ fuel ih =>
      by_cases short : soc.bufLen < size
      · rcases increaseSoc_cases (size - soc.bufLen) holds plenty with
          ⟨r', stuck, read, failed⟩ | ⟨piece, after, grown, outcome, real, read, kept, gained, enough⟩
        · simp only [getBufLoop, short, if_true, read, failed, Prod.mk.injEq] at done
          omega
        · have more := List.length_pos_of_ne_nil real
          have within := receive_length outcome
          rw [holds.2] at short within
          have goesOn : ¬ ((piece.length : Int) ≤ 0) := by omega
          simp only [getBufLoop, holds.2, short, if_true] at done
          simp only [← holds.2, read, if_neg goesOn] at done
          obtain ⟨fresh, received, kept, enough, length⟩ := ih kept enough done
          refine ⟨piece ++ fresh, by simp [received, gained], by simpa using kept, enough, ?_⟩
          rw [← List.append_assoc, length, List.length_append]
          omega
      · simp only [getBufLoop, short, if_false, Prod.mk.injEq] at done
        obtain ⟨-, rfl, rfl⟩ := done
        rw [holds.2] at short
        exact ⟨[], by simp, by simpa using holds, plenty, by simp; omega⟩

/-- A successful row call takes the row and its newline off the stream. -/
theorem getRowFromSocket_row {r : Int} {soc next : SocketT} {world world' : World} {bytes row : Bytes}
    (holds : Holds soc bytes) (plenty : Plenty world)
    (done : getRowFromSocket soc world = (r, some row, next, world')) :
    ∃ fresh rest, world'.received = world.received ++ fresh ∧ bytes ++ fresh = row ++ LF :: rest ∧
      Holds next rest ∧ Plenty world' := by
  simp only [getRowFromSocket, holds.1, Option.isNone_some, Bool.false_eq_true, if_false] at done
  exact getRowLoop_row holds plenty done

/-- A successful counted read empties the buffer, whatever it held. -/
theorem getBufFromSocket_block {buf : Pointer} {size : Nat} {r : Int} {soc next : SocketT}
    {world world' : World} {bytes block : Bytes} (holds : Holds soc bytes) (plenty : Plenty world)
    (done : getBufFromSocket buf soc size world = (r, .block block, next, world')) (positive : 0 < r) :
    ∃ fresh, world'.received = world.received ++ fresh ∧ Holds next [] ∧ Plenty world' ∧
      block.take size = (bytes ++ fresh).take size ∧
      (bytes ++ fresh).length = max size bytes.length := by
  have count : ¬ ((size : Int) < 0) := by omega
  simp only [getBufFromSocket, holds.1, count, Option.isNone_some, Bool.false_eq_true, or_self,
    if_false] at done
  split at done
  · simp at done
  · rw [Int.toNat_natCast] at done
    rcases loop : getBufLoop (world.size + 1) soc size world with ⟨r', after, grown⟩
    simp only [loop] at done
    by_cases failed : r' ≤ 0
    · simp only [failed, if_true, Prod.mk.injEq] at done
      omega
    · obtain ⟨fresh, received, kept, enough, length⟩ := getBufLoop_bytes holds plenty loop (by omega)
      simp only [failed, if_false, malloc_plenty enough, Prod.mk.injEq, Pointer.block.injEq] at done
      obtain ⟨-, rfl, rfl, rfl⟩ := done
      refine ⟨fresh, received, ⟨rfl, rfl⟩, enough, ?_, length⟩
      have whole : (bytes ++ fresh ++ [NUL]).take (bytes ++ fresh).length = bytes ++ fresh := List.take_left
      have within : size ≤ (bytes ++ fresh).length := by omega
      rw [kept.1, kept.2, Option.getD_some, whole, List.take_set_of_le (le_refl size),
        List.take_append_of_le_length within]

/-- A successful call splits what it found and received into output, loss and new buffer. -/
theorem call_split {s t : Reader} {c : Call} {bytes : Bytes} (holds : Holds s.soc bytes)
    (plenty : Plenty s.world) (done : call s c = some t) :
    ∃ fresh out lost rest, t.world.received = s.world.received ++ fresh ∧
      bytes ++ fresh = out ++ lost ++ rest ∧ t.taken = s.taken ++ out ∧ Holds t.soc rest ∧
      Plenty t.world ∧ (lost = [] ↔ Fits s c) := by
  cases c with
  | row =>
      simp only [call] at done
      rcases result : getRowFromSocket s.soc s.world with ⟨r, _ | row, soc, world⟩
      · simp [result] at done
      · simp only [result, Option.some.injEq] at done
        obtain ⟨fresh, rest, received, same, kept, enough⟩ := getRowFromSocket_row holds plenty result
        subst t
        exact ⟨fresh, row ++ [LF], [], rest, received, by simpa using same, rfl, kept, enough, by simp [Fits]⟩
  | buf size =>
      simp only [call] at done
      rcases result : getBufFromSocket .null s.soc size s.world with ⟨r, buf, soc, world⟩
      rw [result] at done
      cases buf with
      | null => simp at done
      | freed => simp at done
      | block block =>
          by_cases positive : 0 < r
          · simp only [positive, if_true, Option.some.injEq] at done
            obtain ⟨fresh, received, kept, enough, taken, length⟩ :=
              getBufFromSocket_block holds plenty result positive
            subst t
            refine ⟨fresh, (bytes ++ fresh).take size, (bytes ++ fresh).drop size, [], received, by simp,
              by simp [taken], kept, enough, ?_⟩
            rw [List.drop_eq_nil_iff, length, Fits, holds.2]
            omega
          · simp [positive] at done

/-- A state is intact when its buffer is well formed and nothing is missing. -/
def Intact (s : Reader) : Prop :=
  ∃ bytes, Holds s.soc bytes ∧ Plenty s.world ∧ s.taken ++ bytes = s.world.received

/-- A state is short when bytes are missing for good. -/
def Short (s : Reader) : Prop :=
  ∃ bytes, Holds s.soc bytes ∧ Plenty s.world ∧ s.taken.length + bytes.length < s.world.received.length

theorem Intact.conserved {s : Reader} (intact : Intact s) : Conserved s := by
  obtain ⟨bytes, holds, -, same⟩ := intact
  rw [Conserved, holds.held_eq, same]

theorem Short.not_conserved {s : Reader} (short : Short s) : ¬ Conserved s := by
  obtain ⟨bytes, holds, -, less⟩ := short
  intro same
  have length := congrArg List.length same
  rw [holds.held_eq, List.length_append] at length
  omega

theorem call_keeps {s t : Reader} {c : Call} (intact : Intact s) (fits : Fits s c)
    (done : call s c = some t) : Intact t := by
  obtain ⟨bytes, holds, plenty, same⟩ := intact
  obtain ⟨fresh, out, lost, rest, received, split, taken, kept, enough, exact⟩ := call_split holds plenty done
  rw [exact.mpr fits, List.append_nil] at split
  exact ⟨rest, kept, enough, by rw [taken, received, ← same, List.append_assoc, ← split, List.append_assoc]⟩

theorem call_loses {s t : Reader} {c : Call} (intact : Intact s) (tooMuch : ¬ Fits s c)
    (done : call s c = some t) : Short t := by
  obtain ⟨bytes, holds, plenty, same⟩ := intact
  obtain ⟨fresh, out, lost, rest, received, split, taken, kept, enough, exact⟩ := call_split holds plenty done
  have gone := List.length_pos_of_ne_nil (mt exact.mp tooMuch)
  have before := congrArg List.length same
  have after := congrArg List.length split
  refine ⟨rest, kept, enough, ?_⟩
  simp only [taken, received, List.length_append] at before after ⊢
  omega

/-- No later call finds the missing bytes again. -/
theorem call_stays_short {s t : Reader} {c : Call} (short : Short s) (done : call s c = some t) : Short t := by
  obtain ⟨bytes, holds, plenty, less⟩ := short
  obtain ⟨fresh, out, lost, rest, received, split, taken, kept, enough, -⟩ := call_split holds plenty done
  have after := congrArg List.length split
  refine ⟨rest, kept, enough, ?_⟩
  simp only [taken, received, List.length_append] at after ⊢
  omega

theorem initSocket_intact {soc soc' : SocketT} {sd : Int} {ssl : Bool} {world world' : World}
    (plenty : Plenty world) (unread : world.received = [])
    (ready : initSocket soc sd ssl world = (0, soc', world')) : Intact ⟨soc', world', []⟩ := by
  simp only [initSocket, malloc_plenty plenty] at ready
  split at ready
  · simp only [Prod.mk.injEq, true_and] at ready
    obtain ⟨rfl, rfl⟩ := ready
    exact ⟨[], ⟨rfl, rfl⟩, plenty, by simp [unread]⟩
  · simp at ready

/-- A run of successful calls conserves the stream exactly when every counted read asks for all that the
buffer holds. -/
theorem socket_conserves_iff (soc soc' : SocketT) (sd : Int) (ssl : Bool) (reads : List ReadOutcome)
    (world : World) (calls : List Call) (t : Reader)
    (ready : initSocket soc sd ssl ⟨reads, [], []⟩ = (0, soc', world))
    (reached : run call ⟨soc', world, []⟩ calls = some t) :
    Conserved t ↔ Along call Fits ⟨soc', world, []⟩ calls := by
  have plenty : Plenty ⟨reads, [], []⟩ := rfl
  have start : Intact ⟨soc', world, []⟩ := initSocket_intact plenty rfl ready
  exact exact_along (fun _ _ _ => call_keeps) (fun _ _ _ => call_loses) (fun _ _ _ => call_stays_short)
    (fun _ => Intact.conserved) (fun _ => Short.not_conserved) start reached

/-- The size row and the data of one HTTP chunk arrive in two pieces, and the calls fit. -/
theorem socket_conserves_iff_chunk :
    Conserved ⟨⟨0, true, some [NUL], 0⟩, ⟨[], [], text "3\r\nabc"⟩, text "3\r\nabc"⟩ ↔
      Along call Fits ⟨⟨0, true, some [NUL], 0⟩, ⟨[.data (text "3\r\n"), .again, .data (text "abc")], [], []⟩, []⟩
        [.row, .buf 3] :=
  socket_conserves_iff ⟨0, false, none, 0⟩ ⟨0, true, some [NUL], 0⟩ 0 true
    [.data (text "3\r\n"), .again, .data (text "abc")] _ [.row, .buf 3] _ rfl rfl

/-- One read brings the chunk and the start of the next one, and the counted read drops what follows. -/
theorem socket_loses_bytes : ∃ soc world t,
    initSocket ⟨0, false, none, 0⟩ 0 true ⟨[.data (text "3\r\nabc\r\n2\r\nde\r\n")], [], []⟩ = (0, soc, world) ∧
      run call ⟨soc, world, []⟩ [.row, .buf 3] = some t ∧ ¬ Conserved t :=
  ⟨_, _, _, rfl, rfl, by decide⟩

end Piercloud.Socket
