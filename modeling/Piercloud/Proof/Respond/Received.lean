import Piercloud.Construction.Respond
import Piercloud.Proof.Socket.Rows

/-
This file shows that the two loops of `getLocalHostRespond` end, and tells when every relayed byte was received.
-/

namespace Piercloud.Client

open CLib Liblst Socket Loop

/-- Every row that the wrapper gives is consumed, and a missing row frees the buffer. -/
theorem getRowFromSocket_cases {soc : SocketT} {world : World} {consumed : Bytes} (fed : Fed soc world consumed) :
    (∃ next world' consumed', getRowFromSocket soc world = (none, next, world') ∧ Fed next world' consumed' ∧
        consumed <+: consumed') ∨
      ∃ row next world', getRowFromSocket soc world = (some row, next, world') ∧
        Fed next world' (consumed ++ (row ++ [LF])) ∧
        world'.size + (held next).length < world.size + (held soc).length := by
  rcases getRowFromSocket_fed fed with ⟨next, world', consumed', read, later, longer⟩ |
      ⟨r, row, next, world', read, success, later, smaller⟩
  · exact Or.inl ⟨next, world', consumed', by simp [getRowFromSocket, read], later, longer⟩
  · have notFailed : r ≠ -1 := by omega
    exact Or.inr ⟨row, next, world', by simp [getRowFromSocket, read, notFailed], later, smaller⟩

/-- The data pointer behind the header loop is null or points to a freed row, and the length is a `size_t`. -/
structure Listed (s : Rows) (consumed : Bytes) : Prop where
  fed : Fed s.soc s.world consumed
  noBlock : ∀ memory, s.data ≠ .block memory
  word : s.contentLen < 2 ^ 64

theorem contentLength_lt {n : Nat} (word : n < 2 ^ 64) (line : Bytes) : contentLength n line < 2 ^ 64 := by
  rw [contentLength]
  split
  · exact toSize_lt _
  · exact word

/-- An iteration for a row consumes it, and any other one ends the loop. -/
theorem rowStep_cases {s : Rows} {consumed : Bytes} (listed : Listed s consumed) :
    (∃ t consumed', rowStep s = .inr t ∧ Listed t consumed') ∨
      ∃ t consumed', rowStep s = .inl t ∧ Listed t consumed' ∧
        t.world.size + (held t.soc).length < s.world.size + (held s.soc).length := by
  rcases getRowFromSocket_cases listed.fed with ⟨next, world', consumed', read, later, -⟩ |
      ⟨row, next, world', read, later, smaller⟩
  · exact Or.inl ⟨{ s with data := .null, soc := next, world := world' }, consumed', by simp only [rowStep, read],
      later, by simp, listed.word⟩
  · simp only [rowStep, read]
    by_cases empty : (cstr (chopStr (row ++ [NUL]))).isEmpty
    · rw [if_pos empty]
      exact Or.inl ⟨_, _, rfl, later, by simp, listed.word⟩
    · rw [if_neg empty]
      have word := contentLength_lt listed.word (statusLine (cstr (chopStr (row ++ [NUL]))))
      split
      · exact Or.inr ⟨_, _, rfl, ⟨later, by simp, word⟩, smaller⟩
      · exact Or.inr ⟨_, _, rfl, ⟨later, by simp, word⟩, smaller⟩

/-- The header loop has a result. -/
theorem headerLoop_result {s : Rows} {consumed : Bytes} {fuel : Nat} (listed : Listed s consumed)
    (enough : s.world.size + (held s.soc).length < fuel) :
    ∃ t consumed', loop rowStep fuel s = some t ∧ Listed t consumed' := by
  have kept : ∀ u v : Rows, (∃ consumed, Listed u consumed) → rowStep u = .inl v →
      (∃ consumed, Listed v consumed) ∧
        v.world.size + (held v.soc).length < u.world.size + (held u.soc).length := by
    rintro u v ⟨consumed, listed⟩ goesOn
    rcases rowStep_cases listed with ⟨t, consumed', stops, -⟩ | ⟨t, consumed', next, later, smaller⟩
    · simp [stops] at goesOn
    · obtain rfl := Sum.inl.inj (next.symm.trans goesOn)
      exact ⟨⟨consumed', later⟩, smaller⟩
  obtain ⟨t, last, found, ⟨consumed', before⟩, stops⟩ :=
    loop_result (fun u : Rows => u.world.size + (held u.soc).length) kept ⟨consumed, listed⟩ enough
  rcases rowStep_cases before with ⟨t', consumed'', stops', after⟩ | ⟨t', consumed'', next, -⟩
  · obtain rfl := Sum.inr.inj (stops'.symm.trans stops)
    exact ⟨t', consumed'', found, after⟩
  · simp [next] at stops

theorem sizeRow_cases {soc : SocketT} {world : World} {consumed : Bytes} (fed : Fed soc world consumed) :
    ∃ result next world' consumed', sizeRow soc world = (result, next, world') ∧ Fed next world' consumed' ∧
      consumed <+: consumed' ∧ (∀ chunkLen, result = .size chunkLen → chunkLen < 2 ^ 64) ∧ (result = .missing ∨
        world'.size + (held next).length < world.size + (held soc).length) := by
  rcases getRowFromSocket_cases fed with ⟨next, world', consumed', read, later, longer⟩ |
      ⟨row, next, world', read, later, smaller⟩
  · exact ⟨.missing, next, world', consumed', by simp [sizeRow, read], later, longer, by simp, Or.inl rfl⟩
  · simp only [sizeRow, read]
    split
    · exact ⟨.blank, next, world', _, rfl, later, List.prefix_append _ _, by simp, Or.inr smaller⟩
    · refine ⟨_, next, world', _, rfl, later, List.prefix_append _ _, ?_, Or.inr smaller⟩
      intro chunkLen same
      exact SizeRow.size.inj same ▸ toSize_lt _

/-- The operands of a block are lengths of blocks in memory and a `size_t`. -/
structure Growth.Formed (g : Growth) : Prop where
  len : g.len < 2 ^ 63
  chunkLen : g.chunkLen < 2 ^ 64
  terminator : g.terminator ≤ 1

/-- The copy behind a counted read has nothing to copy, or the read obtains the bytes, or the block is refused. -/
def Supplied (limit : Nat) (g : Growth) (soc : SocketT) (world : World) : Prop :=
  g.chunkLen = 0 ∨ Obtains soc (toSigned g.chunkLen) world ∨ limit ≤ g.size

/-- A supplied copy takes received bytes or exits, and any other one reads where nothing is. -/
theorem copy_cases (limit : Nat) {g : Growth} (formed : g.Formed) (buf : Pointer)
    (noBlock : ∀ memory, buf ≠ .block memory) {soc : SocketT} {world : World} {consumed : Bytes}
    (fed : Fed soc world consumed) :
    ∃ r data next world' consumed', getBufFromSocket buf soc (toSigned g.chunkLen) world = (r, data, next, world') ∧
      Fed next world' consumed' ∧ consumed <+: consumed' ∧
      world'.size + (held next).length ≤ world.size + (held soc).length ∧
      ((Supplied limit g soc world ∧ (g.copy limit data = .error .exited ∨
          ∃ bytes, g.copy limit data = .ok bytes ∧ bytes.length = g.chunkLen ∧ consumed ++ bytes <+: consumed' ∧
            g.needed < limit)) ∨
        ¬ Supplied limit g soc world ∧ g.copy limit data = .error .undefined) := by
  obtain ⟨r, data, next, world', consumed', read, later, longer, shrinks, outcome⟩ :=
    getBufFromSocket_fed noBlock fed (toSigned g.chunkLen)
  obtain ⟨small, word, terminator⟩ := formed
  refine ⟨r, data, next, world', consumed', read, later, longer, shrinks, ?_⟩
  by_cases refused : limit ≤ g.size
  · exact Or.inl ⟨Or.inr (Or.inr refused), Or.inl (by rw [Growth.copy, if_pos refused])⟩
  · have exact : ∀ n < 2 ^ 63, g.chunkLen = n → g.size = g.needed := by
      intro n fits same
      exact Nat.mod_eq_of_lt (by rw [Growth.needed]; omega)
    by_cases nothing : g.chunkLen = 0
    · have size := exact 0 (by decide) nothing
      refine Or.inl ⟨Or.inl nothing, Or.inr ⟨[], ?_, nothing.symm, by simpa using longer, by omega⟩⟩
      rw [Growth.copy, if_neg refused, if_neg (by omega), nothing]
      rfl
    · rcases outcome with ⟨obtains, memory, rfl, within, taken⟩ | ⟨never, missing⟩
      · have fits := toSigned_pos word obtains.1
        have size := exact g.chunkLen fits rfl
        rw [toSigned_of_lt fits, Int.toNat_natCast] at within taken
        refine Or.inl ⟨Or.inr (Or.inl obtains), Or.inr
          ⟨memory.take g.chunkLen, ?_, by simp [within], taken, by omega⟩⟩
        rw [Growth.copy, if_neg refused, if_neg (by omega), memcpy_block within]
      · right
        constructor
        · rintro (zero | obtains | large)
          · exact nothing zero
          · exact never obtains
          · exact refused large
        · have dry : memcpy data g.chunkLen = none := by
            cases data with
            | null => simp [memcpy, nothing]
            | freed => simp [memcpy, nothing]
            | block memory => exact absurd rfl (missing memory)
          rw [Growth.copy, if_neg refused, dry]
          split <;> rfl

/-- The content is a part of the consumed bytes, in their order. -/
structure Collected (s : Content) (consumed : Bytes) : Prop where
  fed : Fed s.soc s.world consumed
  received : s.content.Sublist consumed
  small : s.content.length < 2 ^ 63
  growths : ∀ g ∈ s.growths, g.Formed

/-- The next chunk, if there is one, is supplied. -/
def ChunkSupplied (limit : Nat) (s : Content) : Prop :=
  match sizeRow s.soc s.world with
  | (.size chunkLen, soc, world) => Supplied limit ⟨s.content.length, chunkLen, 0⟩ soc world
  | _ => True

/-- An iteration for a supplied chunk collects it or stops, and any other one copies from nowhere. -/
theorem chunkStep_cases {limit : Nat} (bounded : limit ≤ 2 ^ 63) {s : Content} {consumed : Bytes}
    (collected : Collected s consumed) :
    (ChunkSupplied limit s ∧ ((∃ ending t consumed', chunkStep limit s = .inr (ending, t) ∧ ending ≠ .undefined ∧
          Collected t consumed') ∨
        ∃ t consumed', chunkStep limit s = .inl t ∧ Collected t consumed' ∧
          t.world.size + (held t.soc).length < s.world.size + (held s.soc).length)) ∨
      ¬ ChunkSupplied limit s ∧ ∃ t consumed', chunkStep limit s = .inr (.undefined, t) ∧ Collected t consumed' := by
  obtain ⟨result, soc, world, consumed₁, row, fed, longer, words, progress⟩ := sizeRow_cases collected.fed
  have kept := collected.received.trans longer.sublist
  have waiting : Collected { s with soc := soc, world := world } consumed₁ :=
    ⟨fed, kept, collected.small, collected.growths⟩
  rw [ChunkSupplied, chunkStep, row]
  cases result with
  | missing => exact Or.inl ⟨trivial, Or.inl ⟨_, _, _, rfl, by simp, waiting⟩⟩
  | blank =>
      have smaller := progress.resolve_left (by simp)
      exact Or.inl ⟨trivial, Or.inr ⟨_, _, rfl, waiting, smaller⟩⟩
  | size chunkLen =>
      have smaller := progress.resolve_left (by simp)
      simp only
      by_cases nothing : chunkLen = 0
      · rw [if_pos nothing]
        exact Or.inl ⟨Or.inl nothing, Or.inl ⟨_, _, _, rfl, by simp, waiting⟩⟩
      · rw [if_neg nothing]
        have word := words chunkLen rfl
        have formed : Growth.Formed ⟨s.content.length, chunkLen, 0⟩ := ⟨collected.small, word, by simp⟩
        have growths : ∀ g ∈ s.growths ++ [⟨s.content.length, chunkLen, 0⟩], g.Formed :=
          List.forall_mem_append.mpr ⟨collected.growths, List.forall_mem_singleton.mpr formed⟩
        obtain ⟨r, data, next, world', consumed₂, read, fed', longer', shrinks, outcome⟩ :=
          copy_cases limit formed .null (by simp) fed
        simp only [read]
        rcases outcome with ⟨supplied, exits | ⟨bytes, copied, length, taken, fits⟩⟩ | ⟨starved, undefined⟩
        · simp only [exits]
          exact Or.inl ⟨supplied, Or.inl ⟨_, _, _, rfl, by simp,
            fed', kept.trans longer'.sublist, collected.small, growths⟩⟩
        · simp only [copied]
          refine Or.inl ⟨supplied, Or.inr ⟨_, _, rfl, ⟨fed', ?_, ?_, growths⟩, shrinks.trans_lt smaller⟩⟩
          · exact (kept.append (List.Sublist.refl bytes)).trans taken.sublist
          · simp only [Growth.needed] at fits
            simp only [List.length_append, length]
            omega
        · simp only [undefined]
          exact Or.inr ⟨starved, _, _, rfl, fed', kept.trans longer'.sublist, collected.small, growths⟩

/-- The content is a part of what was received. -/
theorem Collected.content_received {s : Content} {consumed : Bytes} (collected : Collected s consumed) :
    s.content.Sublist s.world.received :=
  collected.received.trans (List.IsPrefix.sublist ⟨held s.soc, collected.fed.received⟩)

/-- An iteration that goes on keeps the content collected and takes at least one byte. -/
theorem chunkStep_next {limit : Nat} (bounded : limit ≤ 2 ^ 63) {u v : Content}
    (collected : ∃ consumed, Collected u consumed) (goesOn : chunkStep limit u = .inl v) :
    (∃ consumed, Collected v consumed) ∧
      v.world.size + (held v.soc).length < u.world.size + (held u.soc).length := by
  obtain ⟨consumed, collected⟩ := collected
  rcases chunkStep_cases bounded collected with
    ⟨-, ⟨ending, t, consumed', stops, -⟩ | ⟨t, consumed', next, later, smaller⟩⟩ | ⟨-, t, consumed', stops, -⟩
  · simp [stops] at goesOn
  · obtain rfl := Sum.inl.inj (next.symm.trans goesOn)
    exact ⟨⟨consumed', later⟩, smaller⟩
  · simp [stops] at goesOn

/-- The last iteration keeps it as well, and it copies from nowhere exactly when its chunk is not supplied. -/
theorem chunkStep_last {limit : Nat} (bounded : limit ≤ 2 ^ 63) {u t : Content} {ending : Ending}
    (collected : ∃ consumed, Collected u consumed) (stops : chunkStep limit u = .inr (ending, t)) :
    (∃ consumed, Collected t consumed) ∧ (ending ≠ .undefined ↔ ChunkSupplied limit u) := by
  obtain ⟨consumed, collected⟩ := collected
  rcases chunkStep_cases bounded collected with
    ⟨supplied, ⟨ending', t', consumed', stops', good, after⟩ | ⟨t', consumed', next, -⟩⟩ |
    ⟨starved, t', consumed', stops', after⟩
  · obtain ⟨rfl, rfl⟩ := Prod.mk.inj (Sum.inr.inj (stops'.symm.trans stops))
    exact ⟨⟨consumed', after⟩, iff_of_true good supplied⟩
  · simp [next] at stops
  · obtain ⟨rfl, rfl⟩ := Prod.mk.inj (Sum.inr.inj (stops'.symm.trans stops))
    exact ⟨⟨consumed', after⟩, by simpa using starved⟩

/-- The chunk loop has a result whose content was received, and it copies from nowhere exactly when it comes to a
chunk that is not supplied. -/
theorem chunkLoop_result {limit : Nat} (bounded : limit ≤ 2 ^ 63) {s : Content} {consumed : Bytes} {fuel : Nat}
    (collected : Collected s consumed) (enough : s.world.size + (held s.soc).length < fuel) :
    ∃ ending t consumed', loop (chunkStep limit) fuel s = some (ending, t) ∧ Collected t consumed' ∧
      (ending ≠ .undefined ↔ ∀ u, Visits (chunkStep limit) s u → ChunkSupplied limit u) := by
  obtain ⟨⟨ending, t⟩, last, found, before, stops⟩ :=
    loop_result (fun u : Content => u.world.size + (held u.soc).length)
      (fun u v collected goesOn => chunkStep_next bounded collected goesOn) ⟨consumed, collected⟩ enough
  have ends := ends_of_loop found
  obtain ⟨⟨consumed', after⟩, -⟩ := chunkStep_last bounded before stops
  refine ⟨ending, t, consumed', found, after, ?_⟩
  refine Ends.exact (fun u => ∃ consumed, Collected u consumed) (ChunkSupplied limit) (fun r => r.1 ≠ .undefined)
    ?_ ?_ ?_ ⟨consumed, collected⟩ ends
  · exact fun u v collected _ goesOn => (chunkStep_next bounded collected goesOn).1
  · exact fun u r collected supplied stops => (chunkStep_last bounded collected stops).2.mpr supplied
  · rintro u ⟨consumed, collected⟩ starved
    rcases chunkStep_cases bounded collected with ⟨supplied, -⟩ | ⟨-, t', consumed'', stops, -⟩
    · exact absurd supplied starved
    · exact ⟨(.undefined, t'), stops, by simp⟩

/-- A relay copied only received bytes, and what it returned is the header in front of them. -/
structure Relay.Sound (relay : Relay) : Prop where
  received : relay.body.Sublist relay.world.received
  respond : relay.ending = .returned → relay.respond.Holds (relay.header ++ relay.body)
  growths : ∀ g ∈ relay.growths, g.Formed

/-- The header goes into the cleared buffer, or its block is refused. -/
theorem appendHeader_cleared {limit : Nat} (bounded : limit ≤ 2 ^ 63) (header : Bytes) :
    (limit ≤ header.length + 1 ∧ appendHeader limit Buffer.cleared header = .error .exited) ∨
      header.length + 1 < limit ∧ ∃ respond, appendHeader limit Buffer.cleared header = .ok respond ∧
        respond.Holds header := by
  by_cases refused : limit ≤ header.length + 1
  · exact Or.inl ⟨refused, if_pos refused⟩
  · refine Or.inr ⟨not_le.mp refused, increaseBuffer Buffer.cleared (header ++ [NUL]) header.length, ?_, ?_⟩
    · rw [appendHeader, if_neg refused]
      apply increaseBufferFrom_block bounded
      · simp
      · simpa [Buffer.cleared] using not_le.mp refused
    · simpa using increaseBuffer_holds_take Buffer.cleared_holds (le_refl header.length) [NUL]

theorem grownBuffer_holds {b : Buffer} {header : Bytes} (holds : b.Holds header) (bytes : Bytes) :
    (grownBuffer b bytes bytes.length).Holds (header ++ bytes) := by
  refine ⟨by simp [grownBuffer, holds.1], Or.inl ?_⟩
  simp [grownBuffer, holds.bytes_eq]

/-- A body of the announced length is copied from nowhere exactly when the header went into a block and the counted
read is not supplied. -/
theorem relayPlain_result {limit : Nat} (bounded : limit ≤ 2 ^ 63) (request : Buffer) {rows : Rows} {consumed : Bytes}
    (listed : Listed rows consumed) (header : Bytes) :
    (relayPlain limit request Buffer.cleared rows header).Sound ∧
      ((relayPlain limit request Buffer.cleared rows header).ending ≠ .undefined ↔
        (header.length + 2 < limit →
          Supplied limit ⟨header.length + 1, rows.contentLen, 1⟩ rows.soc rows.world)) := by
  simp only [relayPlain, replaceStrFormat_empty]
  rcases appendHeader_cleared bounded (header ++ [LF]) with ⟨refused, exits⟩ | ⟨granted, respond, appended, holds⟩
  · simp only [exits]
    refine ⟨⟨List.nil_sublist _, by simp, by simp [Relay.exited]⟩, ?_⟩
    simp only [List.length_append, List.length_singleton] at refused
    simp only [ne_eq, reduceCtorEq, not_false_iff, true_iff]
    omega
  · have length : respond.len = header.length + 1 := by simpa using holds.1
    simp only [List.length_append, List.length_singleton] at granted
    have formed : Growth.Formed ⟨header.length + 1, rows.contentLen, 1⟩ :=
      ⟨show header.length + 1 < 2 ^ 63 by omega, listed.word, le_refl 1⟩
    obtain ⟨r, data, next, world', consumed', read, fed, -, -, outcome⟩ :=
      copy_cases limit formed rows.data listed.noBlock listed.fed
    simp only [appended, length, read, show header.length + 2 < limit from granted, forall_true_left]
    rcases outcome with ⟨supplied, exits | ⟨bytes, copied, size, taken, -⟩⟩ | ⟨starved, undefined⟩
    · simp only [exits]
      exact ⟨⟨List.nil_sublist _, by simp, by simpa using formed⟩, by simpa using supplied⟩
    · simp only [copied]
      refine ⟨⟨?_, fun _ => ?_, by simpa using formed⟩, by simpa using supplied⟩
      · have part : bytes.Sublist (consumed ++ bytes) := List.sublist_append_right _ _
        exact part.trans (taken.trans ⟨held next, fed.received⟩).sublist
      · rw [show rows.contentLen = bytes.length from size.symm]
        exact grownBuffer_holds holds bytes
    · simp only [undefined]
      exact ⟨⟨List.nil_sublist _, by simp, by simpa using formed⟩, by simpa using starved⟩

/-- The collected content is never copied from nowhere. -/
theorem relayContent_result {limit : Nat} (bounded : limit ≤ 2 ^ 63) (request : Buffer) (header : Bytes) {s : Content}
    {consumed : Bytes} (collected : Collected s consumed) :
    (relayContent limit request Buffer.cleared header s).Sound ∧
      (relayContent limit request Buffer.cleared header s).ending ≠ .undefined := by
  have received := collected.content_received
  have small := collected.small
  simp only [relayContent, replaceStrFormat_empty]
  generalize replaceStrFormat header (text "Content-Length: 0") _ ++ [LF] = header
  rcases appendHeader_cleared bounded header with ⟨-, exits⟩ | ⟨granted, respond, appended, holds⟩
  · simp only [exits]
    exact ⟨⟨received, by simp, collected.growths⟩, by simp⟩
  · have length := holds.1
    have formed : Growth.Formed ⟨respond.len, s.content.length, 1⟩ :=
      ⟨show respond.len < 2 ^ 63 by omega, show s.content.length < 2 ^ 64 by omega, le_refl 1⟩
    have growths : ∀ g ∈ s.growths ++ [⟨respond.len, s.content.length, 1⟩], g.Formed :=
      List.forall_mem_append.mpr ⟨collected.growths, List.forall_mem_singleton.mpr formed⟩
    simp only [appended]
    by_cases refused : limit ≤ Growth.size ⟨respond.len, s.content.length, 1⟩
    · simp only [Growth.copy, if_pos refused]
      exact ⟨⟨received, by simp, growths⟩, by simp⟩
    · have size : Growth.size ⟨respond.len, s.content.length, 1⟩ = respond.len + s.content.length + 1 :=
        Nat.mod_eq_of_lt (show respond.len + s.content.length + 1 < 2 ^ 64 by omega)
      rw [size, not_le] at refused
      have copied := Growth.copy_block bounded
        (show Growth.needed ⟨respond.len, s.content.length, 1⟩ < limit from refused) (le_refl s.content.length)
      simp only [copied, List.take_length]
      exact ⟨⟨received, fun _ => grownBuffer_holds holds s.content, growths⟩, by simp⟩

/-- The copies of the body are supplied. A refused header comes before the copy of a plain body. -/
def BodySupplied (cfg : Config) (limit : Nat) (rows : Rows) : Prop :=
  if rows.chunked then
    ∀ s, Visits (chunkStep limit) ⟨[], [], rows.soc, rows.world⟩ s → ChunkSupplied limit s
  else
    (redirected cfg rows.header).length + 2 < limit →
      Supplied limit ⟨(redirected cfg rows.header).length + 1, rows.contentLen, 1⟩ rows.soc rows.world

/-- The child has sent the request and opened a socket for the response. -/
structure Opened (host : LocalHost) (world : World) (soc : SocketT) (start : World) : Prop where
  connected : host.c ≠ -1
  written : host.writeFails = false
  opened : initSocket ⟨0, false, none, 0⟩ host.c false world = (0, soc, start)

/-- The rows behind the header loop have a property, if the child comes to them at all. -/
def AtBody (host : LocalHost) (world : World) (holds : Rows → Prop) : Prop :=
  ∀ soc start rows, Opened host world soc start → headerRows soc start = some rows → holds rows

/-- An opened socket has received nothing. -/
theorem initSocket_cases (c : Int) (world : World) :
    (∃ soc world', initSocket ⟨0, false, none, 0⟩ c false world = (-1, soc, world')) ∨
      ∃ soc world', initSocket ⟨0, false, none, 0⟩ c false world = (0, soc, world') ∧ Holds soc [] ∧
        world'.received = world.received := by
  by_cases real : 0 < c
  · simp only [initSocket, malloc_eq, real, true_or, if_true]
    cases world.allocs.head?.getD true with
    | false => exact Or.inl ⟨_, _, rfl⟩
    | true => exact Or.inr ⟨_, _, rfl, ⟨rfl, rfl⟩, rfl⟩
  · exact Or.inl ⟨⟨0, false, none, 0⟩, world, by simp [initSocket, real]⟩

theorem Opened.unique {host : LocalHost} {world : World} {soc soc' : SocketT} {start start' : World}
    (first : Opened host world soc start) (second : Opened host world soc' start') : soc = soc' ∧ start = start' := by
  simpa using first.opened.symm.trans second.opened

/-- A relay of nothing has copied nothing. -/
structure Relay.Idle (relay : Relay) : Prop where
  defined : relay.ending ≠ .undefined
  body : relay.body = []
  growths : relay.growths = []
  respond : relay.ending = .returned → relay.respond.Holds relay.header

/-- Nothing is relayed, or the header loop runs on an opened socket. -/
theorem getLocalHostRespond_cases (cfg : Config) (host : LocalHost) (request : Buffer) (world : World) :
    ((∀ soc start, ¬ Opened host world soc start) ∧
        ∃ relay, getLocalHostRespond cfg host request Buffer.cleared world = some relay ∧ relay.Idle) ∨
      ∃ soc start, Opened host world soc start ∧ Holds soc [] ∧ start.received = world.received ∧
        ∀ rows, headerRows soc start = some rows →
          getLocalHostRespond cfg host request Buffer.cleared world =
            relayRows cfg host.limit (cutBuf request request.len) Buffer.cleared rows := by
  have exited : ∀ (request : Buffer) (world : World), (Relay.exited request Buffer.cleared world).Idle :=
    fun _ _ => ⟨by simp [Relay.exited], rfl, rfl, by simp [Relay.exited]⟩
  by_cases reached : host.c = -1
  · refine Or.inl ⟨fun soc start opened => opened.connected reached, ?_⟩
    refine ⟨{ Relay.exited request Buffer.cleared world with ending := .returned, rval := -1 }, ?_, by simp, rfl, rfl,
      fun _ => Buffer.cleared_holds⟩
    rw [getLocalHostRespond, if_pos reached]
  · cases failed : host.writeFails with
    | true =>
        refine Or.inl ⟨fun soc start opened => by simpa [failed] using opened.written, ?_⟩
        refine ⟨Relay.exited request Buffer.cleared world, ?_, exited _ _⟩
        rw [getLocalHostRespond, if_neg reached, if_pos failed]
    | false =>
        rcases initSocket_cases host.c world with ⟨soc, start, refused⟩ | ⟨soc, start, opened, holds, received⟩
        · refine Or.inl ⟨fun soc' start' opened => by simpa [refused] using opened.opened, ?_⟩
          refine ⟨Relay.exited (cutBuf request request.len) Buffer.cleared start, ?_, exited _ _⟩
          simp [getLocalHostRespond, reached, failed, refused]
        · refine Or.inr ⟨soc, start, ⟨reached, failed, opened⟩, holds, received, fun rows found => ?_⟩
          simp [getLocalHostRespond, reached, failed, opened, found]

theorem held_fuel (soc : SocketT) (world : World) :
    world.size + (held soc).length < world.size + soc.bufLen + 2 := by
  have short : (held soc).length ≤ soc.bufLen := List.length_take_le _ _
  omega

/-- Behind the header loop every relay is sound, and its body is copied from nowhere exactly when a copy is not
supplied. -/
theorem relayRows_result (cfg : Config) {limit : Nat} (bounded : limit ≤ 2 ^ 63) (request : Buffer) {rows : Rows}
    {consumed : Bytes} (listed : Listed rows consumed) :
    ∃ relay, relayRows cfg limit request Buffer.cleared rows = some relay ∧ relay.Sound ∧
      (relay.ending ≠ .undefined ↔ BodySupplied cfg limit rows) := by
  cases chunked : rows.chunked with
  | false =>
      obtain ⟨sound, exact⟩ := relayPlain_result bounded request listed (redirected cfg rows.header)
      exact ⟨_, by simp [relayRows, chunked], sound, by simpa [BodySupplied, chunked] using exact⟩
  | true =>
      have collected : Collected ⟨[], [], rows.soc, rows.world⟩ consumed :=
        ⟨listed.fed, List.nil_sublist _, by simp, by simp⟩
      obtain ⟨ending, t, consumed', found, after, exact⟩ := chunkLoop_result bounded collected
        (held_fuel rows.soc rows.world)
      simp only [BodySupplied, relayRows, chunked, if_true, relayChunked, found]
      rw [← exact]
      have received := after.content_received
      cases ending with
      | returned =>
          obtain ⟨sound, defined⟩ := relayContent_result bounded request (redirected cfg rows.header) after
          exact ⟨_, rfl, sound, by simpa using defined⟩
      | exited => exact ⟨_, rfl, ⟨received, by simp, after.growths⟩, by simp⟩
      | undefined => exact ⟨_, rfl, ⟨received, by simp, after.growths⟩, by simp⟩

/-- There is always a relay, and what is known about it behind the header loop is known about the whole run. -/
theorem getLocalHostRespond_exact {cfg : Config} {host : LocalHost} (request : Buffer) {world : World}
    (fresh : world.received = []) {wanted : Relay → Prop} {holds : Rows → Prop}
    (idle : ∀ relay, relay.Idle → wanted relay) (body : ∀ request rows consumed, Listed rows consumed →
      ∃ relay, relayRows cfg host.limit request Buffer.cleared rows = some relay ∧ (wanted relay ↔ holds rows)) :
    ∃ relay, getLocalHostRespond cfg host request Buffer.cleared world = some relay ∧
      (wanted relay ↔ AtBody host world holds) := by
  rcases getLocalHostRespond_cases cfg host request world with
    ⟨closed, relay, relayed, nothing⟩ | ⟨soc, start, opened, empty, received, later⟩
  · refine ⟨relay, relayed, iff_of_true (idle relay nothing) ?_⟩
    exact fun soc start rows opened => absurd opened (closed soc start)
  · have listed : Listed ⟨[], false, 0, .null, soc, start⟩ [] :=
      ⟨empty.fed (by rw [received, fresh]; rfl), by simp, by simp⟩
    obtain ⟨rows, consumed, found, listed⟩ := headerLoop_result listed (held_fuel soc start)
    obtain ⟨relay, relayed, exact⟩ := body (cutBuf request request.len) rows consumed listed
    refine ⟨relay, (later rows found).trans relayed, ?_⟩
    rw [exact]
    constructor
    · intro known soc' start' rows' opened' found'
      obtain ⟨rfl, rfl⟩ := opened.unique opened'
      obtain rfl := Option.some.inj (found.symm.trans found')
      exact known
    · exact fun known => known soc start rows opened found

/-- The body that is relayed was received, and it is copied from where it is, exactly when each copy behind a counted
read has nothing to take, gets its bytes from the reads and allocations, or has its block refused. -/
theorem relays_received_iff (cfg : Config) (host : LocalHost) (request : Buffer) (world : World)
    (fresh : world.received = []) :
    ∃ relay, getLocalHostRespond cfg host request Buffer.cleared world = some relay ∧
      ((relay.ending ≠ .undefined ∧ relay.body.Sublist relay.world.received ∧
          (relay.ending = .returned → relay.respond.Holds (relay.header ++ relay.body))) ↔
        AtBody host world (BodySupplied cfg host.limit)) := by
  apply getLocalHostRespond_exact request fresh
  · intro relay idle
    exact ⟨idle.defined, by simp [idle.body], fun returned => by simpa [idle.body] using idle.respond returned⟩
  · intro request rows consumed listed
    obtain ⟨relay, relayed, sound, exact⟩ := relayRows_result cfg host.bounded request listed
    refine ⟨relay, relayed, ?_⟩
    rw [← exact]
    exact ⟨And.left, fun defined => ⟨defined, sound.received, sound.respond⟩⟩

def deviceConfig : Config := ⟨text "8", text "a", text "b", fun _ => text "YTpi"⟩

/-- The local server is reached, and every block is allocated. -/
def localHost : LocalHost := ⟨5, false, 2 ^ 63, le_refl _⟩

theorem relays_received_iff_sample :
    ∃ relay, getLocalHostRespond deviceConfig localHost Buffer.cleared Buffer.cleared
          ⟨[.data (text "Content-Length: 2\r\n\r\nok")], [], []⟩ = some relay ∧
      ((relay.ending ≠ .undefined ∧ relay.body.Sublist relay.world.received ∧
          (relay.ending = .returned → relay.respond.Holds (relay.header ++ relay.body))) ↔
        AtBody localHost ⟨[.data (text "Content-Length: 2\r\n\r\nok")], [], []⟩
          (BodySupplied deviceConfig localHost.limit)) :=
  relays_received_iff deviceConfig localHost Buffer.cleared _ rfl

/-- An answer without a body still has its length, and the body is copied from the freed row. -/
theorem missing_body_copied : ∃ (cfg : Config) (host : LocalHost) (request : Buffer) (world : World),
    world.received = [] ∧ (getLocalHostRespond cfg host request Buffer.cleared world).map (fun relay =>
      (relay.ending, relay.growths.map Growth.chunkLen, relay.world.received)) =
        some (.undefined, [5], text "HTTP/1.1 304 Not Modified\r\nContent-Length: 5\r\n\r\n") :=
  ⟨deviceConfig, localHost, Buffer.cleared,
    ⟨[.data (text "HTTP/1.1 304 Not Modified\r\nContent-Length: 5\r\n\r\n")], [], []⟩, rfl, by decide +kernel⟩

end Piercloud.Client
