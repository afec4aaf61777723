import Piercloud.Proof.Respond.Received

/-
This file tells when the sizes of the blocks for a body are computed without a wrap.
-/

namespace Piercloud.Client

open CLib Liblst Socket Loop

/-- The computed size is the sum, and the block takes the old bytes and the copied ones. -/
structure Growth.Exact (g : Growth) : Prop where
  sum : g.size = g.needed
  covers : g.len + g.chunkLen ≤ g.size

/-- The length is not negative, or it is so far below zero that the sum is as well. -/
def Growth.Fits (g : Growth) : Prop :=
  0 ≤ toSigned g.chunkLen ∨ (g.len + g.terminator : Int) + toSigned g.chunkLen < 0

/-- A sum that stays negative is a `size_t` without a wrap. -/
theorem Growth.exact_iff {g : Growth} (formed : g.Formed) : g.Exact ↔ g.Fits := by
  obtain ⟨len, chunkLen, terminator⟩ := formed
  have fits : g.Fits ↔ g.needed < 2 ^ 64 := by
    rw [Fits, toSigned, needed]
    split <;> omega
  rw [fits]
  constructor
  · rintro ⟨sum, -⟩
    rw [← sum]
    exact Nat.mod_lt _ (by decide)
  · intro small
    have sum : g.size = g.needed := Nat.mod_eq_of_lt small
    refine ⟨sum, ?_⟩
    rw [sum, needed]
    omega

/-- A copy that was made went into a block of the computed size. -/
theorem Growth.copy_exact {limit : Nat} {g : Growth} {chunk : Pointer} {bytes : Bytes}
    (copied : g.copy limit chunk = .ok bytes) : g.Exact := by
  have whole : g.needed ≤ g.size := by
    by_contra short
    rw [copy, if_pos (not_le.mp short)] at copied
    split at copied <;> simp at copied
  have within : g.size ≤ g.needed := Nat.mod_le _ _
  refine ⟨le_antisymm within whole, ?_⟩
  rw [needed] at whole
  omega

/-- This is the block that an iteration asks for. -/
def chunkGrowth (s : Content) : List Growth :=
  match sizeRow s.soc s.world with
  | (.size chunkLen, _, _) => if chunkLen = 0 then [] else [⟨s.content.length, chunkLen, 0⟩]
  | _ => []

/-- An iteration records its block, and it goes on only behind an exact one. -/
theorem chunkStep_growths (limit : Nat) (s : Content) :
    (∃ t, chunkStep limit s = .inl t ∧ t.growths = s.growths ++ chunkGrowth s ∧ ∀ g ∈ chunkGrowth s, g.Exact) ∨
      ∃ ending t, chunkStep limit s = .inr (ending, t) ∧ t.growths = s.growths ++ chunkGrowth s := by
  rcases row : sizeRow s.soc s.world with ⟨result, soc, world⟩
  simp only [chunkStep, chunkGrowth, row]
  cases result with
  | missing => exact Or.inr ⟨_, _, rfl, by simp⟩
  | blank => exact Or.inl ⟨_, rfl, by simp, by simp⟩
  | size chunkLen =>
      by_cases nothing : chunkLen = 0
      · simp only [nothing, if_true]
        exact Or.inr ⟨_, _, rfl, by simp⟩
      · simp only [if_neg nothing]
        rcases read : getBufFromSocket .null soc (toSigned chunkLen) world with ⟨r, data, next, world'⟩
        cases copy : Growth.copy limit ⟨s.content.length, chunkLen, 0⟩ data with
        | error ending =>
            simp only
            exact Or.inr ⟨_, _, rfl, rfl⟩
        | ok bytes =>
            simp only
            refine Or.inl ⟨_, rfl, rfl, fun g member => ?_⟩
            exact List.mem_singleton.mp member ▸ Growth.copy_exact copy

theorem chunkGrowth_formed {s : Content} {consumed : Bytes} (collected : Collected s consumed) :
    ∀ g ∈ chunkGrowth s, g.Formed := by
  obtain ⟨result, soc, world, -, row, -, -, words, -⟩ := sizeRow_cases collected.fed
  intro g member
  rw [chunkGrowth, row] at member
  cases result with
  | missing => simp at member
  | blank => simp at member
  | size chunkLen =>
      simp only at member
      split at member
      · simp at member
      · exact List.mem_singleton.mp member ▸ ⟨collected.small, words chunkLen rfl, Nat.zero_le 1⟩

/-- The blocks of the chunk loop are exact exactly when every block that is asked for fits. -/
theorem chunkLoop_exact {limit : Nat} (bounded : limit ≤ 2 ^ 63) {s : Content} {consumed : Bytes} {ending : Ending}
    {t : Content} (collected : Collected s consumed) (none : s.growths = [])
    (ends : Ends (chunkStep limit) s (ending, t)) :
    (∀ g ∈ t.growths, g.Exact) ↔ ∀ u, Visits (chunkStep limit) s u → ∀ g ∈ chunkGrowth u, g.Fits := by
  refine Ends.exact (fun u => (∃ consumed, Collected u consumed) ∧ ∀ g ∈ u.growths, g.Exact)
    (fun u => ∀ g ∈ chunkGrowth u, g.Fits) (fun r : Ending × Content => ∀ g ∈ r.2.growths, g.Exact) ?_ ?_ ?_
    ⟨⟨consumed, collected⟩, by simp [none]⟩ ends
  · rintro u v ⟨⟨consumed, collected⟩, exact⟩ - goesOn
    refine ⟨(chunkStep_next bounded ⟨consumed, collected⟩ goesOn).1, ?_⟩
    rcases chunkStep_growths limit u with ⟨t', next, growths, new⟩ | ⟨ending', t', stops, -⟩
    · obtain rfl := Sum.inl.inj (next.symm.trans goesOn)
      rw [growths]
      exact fun g member => (List.mem_append.mp member).elim (exact g) (new g)
    · simp [stops] at goesOn
  · rintro u r ⟨⟨consumed, collected⟩, exact⟩ fits stops
    rcases chunkStep_growths limit u with ⟨t', next, -⟩ | ⟨ending', t', stops', growths⟩
    · simp [next] at stops
    · obtain rfl := Sum.inr.inj (stops'.symm.trans stops)
      rw [growths]
      intro g member
      rcases List.mem_append.mp member with old | new
      · exact exact g old
      · exact (Growth.exact_iff (chunkGrowth_formed collected g new)).mpr (fits g new)
  · rintro u ⟨⟨consumed, collected⟩, -⟩ wraps
    have inexact : ¬ ∀ g ∈ chunkGrowth u, g.Exact := fun exact =>
      wraps fun g member => (Growth.exact_iff (chunkGrowth_formed collected g member)).mp (exact g member)
    rcases chunkStep_growths limit u with ⟨t', next, -, exact⟩ | ⟨ending', t', stops, growths⟩
    · exact absurd exact inexact
    · refine ⟨(ending', t'), stops, fun exact => inexact fun g member => exact g ?_⟩
      rw [growths]
      exact List.mem_append_right _ member

/-- A length below 2^63 behind an allocated block makes an exact one. -/
theorem Growth.exact_small {len chunkLen : Nat} (block : len < 2 ^ 63) (small : chunkLen < 2 ^ 63) :
    Growth.Exact ⟨len, chunkLen, 1⟩ := by
  have sum : Growth.size ⟨len, chunkLen, 1⟩ = len + chunkLen + 1 :=
    Nat.mod_eq_of_lt (show len + chunkLen + 1 < 2 ^ 64 by omega)
  refine ⟨sum, ?_⟩
  rw [sum]
  exact Nat.le_succ _

/-- The relayed content asks for one more block, which is exact. -/
theorem relayContent_growths {limit : Nat} (bounded : limit ≤ 2 ^ 63) (request : Buffer) (header : Bytes)
    {s : Content} (small : s.content.length < 2 ^ 63) :
    (∀ g ∈ (relayContent limit request Buffer.cleared header s).growths, g.Exact) ↔ ∀ g ∈ s.growths, g.Exact := by
  simp only [relayContent, replaceStrFormat_empty]
  generalize replaceStrFormat header (text "Content-Length: 0") _ ++ [LF] = header
  rcases appendHeader_cleared bounded header with ⟨-, exits⟩ | ⟨granted, respond, appended, holds⟩
  · simp only [exits]
  · have length := holds.1
    have last : Growth.Exact ⟨respond.len, s.content.length, 1⟩ := Growth.exact_small (by omega) small
    simp only [appended]
    split <;> simp [last, or_imp, forall_and]

/-- The lengths in a body fit. A refused header comes before the block of a plain body. -/
def BodyFits (cfg : Config) (limit : Nat) (rows : Rows) : Prop :=
  if rows.chunked then
    ∀ s, Visits (chunkStep limit) ⟨[], [], rows.soc, rows.world⟩ s → ∀ g ∈ chunkGrowth s, g.Fits
  else
    (redirected cfg rows.header).length + 2 < limit →
      Growth.Fits ⟨(redirected cfg rows.header).length + 1, rows.contentLen, 1⟩

theorem relayRows_growths (cfg : Config) {limit : Nat} (bounded : limit ≤ 2 ^ 63) (request : Buffer) {rows : Rows}
    {consumed : Bytes} (listed : Listed rows consumed) :
    ∃ relay, relayRows cfg limit request Buffer.cleared rows = some relay ∧
      ((∀ g ∈ relay.growths, g.Exact) ↔ BodyFits cfg limit rows) := by
  cases chunked : rows.chunked with
  | false =>
      refine ⟨relayPlain limit request Buffer.cleared rows (redirected cfg rows.header),
        by simp [relayRows, chunked], ?_⟩
      simp only [BodyFits, chunked, relayPlain, replaceStrFormat_empty]
      rcases appendHeader_cleared bounded (redirected cfg rows.header ++ [LF]) with
        ⟨refused, exits⟩ | ⟨granted, respond, appended, holds⟩
      · simp only [List.length_append, List.length_singleton] at refused
        simp only [exits, Relay.exited]
        simpa using fun granted => absurd granted (show ¬ _ < limit by omega)
      · have length : respond.len = (redirected cfg rows.header).length + 1 := by simpa using holds.1
        simp only [List.length_append, List.length_singleton] at granted
        have formed : Growth.Formed ⟨(redirected cfg rows.header).length + 1, rows.contentLen, 1⟩ :=
          ⟨show (redirected cfg rows.header).length + 1 < 2 ^ 63 by omega, listed.word, le_refl 1⟩
        simp only [appended, length, show (redirected cfg rows.header).length + 2 < limit from granted]
        rw [← Growth.exact_iff formed]
        split <;> simp
  | true =>
      have collected : Collected ⟨[], [], rows.soc, rows.world⟩ consumed :=
        ⟨listed.fed, List.nil_sublist _, by simp, by simp⟩
      obtain ⟨ending, t, consumed', found, after, -⟩ := chunkLoop_result bounded collected
        (held_fuel rows.soc rows.world)
      have exact := chunkLoop_exact bounded collected rfl (ends_of_loop found)
      simp only [BodyFits, relayRows, chunked, if_true, relayChunked, found]
      rw [← exact]
      cases ending with
      | returned => exact ⟨_, rfl, relayContent_growths bounded request (redirected cfg rows.header) after.small⟩
      | exited => exact ⟨_, rfl, Iff.rfl⟩
      | undefined => exact ⟨_, rfl, Iff.rfl⟩

/-- A counted read of the tunnel gives as many bytes as its row says, and a signed length is below 2^63. -/
theorem readInput_length {soc next : SocketT} {world world' : World} {bytes : Bytes} (formed : Formed soc)
    (read : readInput soc world = (.data bytes, next, world')) :
    ∃ row after between, getRowFromSocket soc world = (some row, after, between) ∧
      toSize (strtol (cstr (chopStr (row ++ [NUL]))) 16) = bytes.length ∧ bytes.length < 2 ^ 63 := by
  rcases found : getRowFromSocket soc world with ⟨_ | row, after, between⟩
  · simp [readInput, found] at read
  · refine ⟨row, after, between, rfl, ?_⟩
    have kept : Formed after := by
      rcases getRowFromSocket_outcome formed world with ⟨last, world₁, failed, -⟩ |
          ⟨r, row', rest, held, fresh, last, world₁, called, success, -, kept, -⟩
      · simp [getRowFromSocket, failed] at found
      · have notFailed : r ≠ -1 := by omega
        simp only [getRowFromSocket, called, if_neg notFailed, Prod.mk.injEq] at found
        exact found.2.1 ▸ Or.inr ⟨rest, kept⟩
    simp only [readInput, found] at read
    split at read
    · simp at read
    · generalize length : toSize (strtol (cstr (chopStr (row ++ [NUL]))) 16) = len at read ⊢
      have word : len < 2 ^ 64 := length ▸ toSize_lt _
      by_cases refused : toSigned len ≤ 0 ∨ after.buf = none
      · obtain ⟨r, done⟩ := getBufFromSocket_refused .freed refused between
        simp [done] at read
      · push Not at refused
        obtain ⟨held, holds⟩ := kept.resolve_left refused.2
        have small := toSigned_pos word refused.1
        rcases getBufFromSocket_supply .freed between holds refused.1 with ⟨-, r, last, world₁, done, -⟩ |
            ⟨left, r, last, world₁, -, -, done, -⟩ |
            ⟨left, fresh, memory, r, last, world₁, -, -, done, -, -, -, -, covers, front⟩
        · simp [done] at read
        · simp [done] at read
        · simp only [done] at read
          split at read
          · simp at read
          · obtain rfl : memory.take len = bytes := Input.data.inj (Prod.mk.inj read).1
            have sizes := congrArg List.length front
            rw [toSigned_of_lt small, Int.toNat_natCast] at sizes covers
            rw [List.length_take, List.length_take] at sizes
            rw [List.length_take]
            omega

/-- The blocks of the tunnel are exact: the data go to the end of an allocated buffer, and so does a body that is
taken from one. -/
def TunnelExact (limit : Nat) : Prop :=
  (∀ (soc next : SocketT) (world world' : World) (bytes : Bytes), Formed soc →
    readInput soc world = (.data bytes, next, world') → ∃ row after between,
      getRowFromSocket soc world = (some row, after, between) ∧
      toSize (strtol (cstr (chopStr (row ++ [NUL]))) 16) = bytes.length ∧
      ∀ b : Buffer, b.len < limit → Growth.Exact ⟨b.len, bytes.length, 1⟩) ∧
    ∀ (statics : Statics) (buf outBuf : Buffer), buf.len < limit → outBuf.len < limit →
      takeBody statics buf outBuf ≠ (0, statics, buf, outBuf) → Growth.Exact ⟨outBuf.len, statics.contentLen, 1⟩

theorem tunnelExact {limit : Nat} (bounded : limit ≤ 2 ^ 63) : TunnelExact limit := by
  constructor
  · intro soc next world world' bytes formed read
    obtain ⟨row, after, between, found, length, small⟩ := readInput_length formed read
    exact ⟨row, after, between, found, length, fun b block => Growth.exact_small (block.trans_le bounded) small⟩
  · intro statics buf outBuf source block taken
    have within : statics.contentLen ≤ buf.len := by
      by_contra incomplete
      exact taken (by simp [takeBody, incomplete])
    exact Growth.exact_small (block.trans_le bounded) (within.trans_lt (source.trans_le bounded))

/-- The sizes for a response are exact exactly when no negative length comes behind at least as many bytes. Those of
the tunnel always are. -/
theorem lengths_exact_iff (cfg : Config) (host : LocalHost) (request : Buffer) (world : World)
    (fresh : world.received = []) :
    (∃ relay, getLocalHostRespond cfg host request Buffer.cleared world = some relay ∧
      ((∀ g ∈ relay.growths, g.Exact) ↔ AtBody host world (BodyFits cfg host.limit))) ∧
      TunnelExact host.limit := by
  refine ⟨?_, tunnelExact host.bounded⟩
  apply getLocalHostRespond_exact request fresh
  · intro relay idle
    simp [idle.growths]
  · intro request rows consumed listed
    exact relayRows_growths cfg host.bounded request listed

theorem lengths_exact_iff_sample :
    (∃ relay, getLocalHostRespond deviceConfig localHost Buffer.cleared Buffer.cleared
          ⟨[.data (text "Content-Length: 3\r\n\r\nyes")], [], []⟩ = some relay ∧
      ((∀ g ∈ relay.growths, g.Exact) ↔ AtBody localHost ⟨[.data (text "Content-Length: 3\r\n\r\nyes")], [], []⟩
        (BodyFits deviceConfig localHost.limit))) ∧ TunnelExact localHost.limit :=
  lengths_exact_iff deviceConfig localHost Buffer.cleared _ rfl

/-- The header behind a length of -1 is put into a block of its own length, and nothing is left for the body. -/
theorem negative_length_wraps : ∃ (cfg : Config) (host : LocalHost) (request : Buffer) (world : World),
    world.received = [] ∧ (getLocalHostRespond cfg host request Buffer.cleared world).map (fun relay =>
      (relay.growths, relay.growths.map Growth.size, relay.ending)) =
        some ([⟨20, 2 ^ 64 - 1, 1⟩], [20], .undefined) :=
  ⟨deviceConfig, localHost, Buffer.cleared, ⟨[.data (text "Content-Length: -1\r\n\r\n")], [], []⟩, rfl,
    by decide +kernel⟩

end Piercloud.Client
