import Piercloud.Proof.Pointers.Header
import Piercloud.Proof.Pointers.Owned

/-
This file shows that `Pier` writes its header and frees all its blocks, and that a refused request uses its path after
it has been freed.
-/

namespace Piercloud.Pointers

open CLib Loop Liblst Blocks Piercloud.Lists Ownership Assertion Program Cgi

section Then

variable {α : Type} {P : Assertion Content} {Q : α → Assertion Content} {allocs : Allocs} {v q : Nat}
  {header str : Bytes} {strs : List Bytes} {env : Ptr}

theorem addHeader_then {a : Nat} (clean : NUL ∉ header) (cleanStrs : ∀ s ∈ strs, NUL ∉ s) (met : false ∉ allocs)
    {k : Bool × Allocs → Program Content α}
    (rest : ∀ q' strs' allocs', false ∉ allocs' → Triple (isList (some a) strs' *
      (held ⟨v, q', Cgi.addHeader header strs ++ [NUL]⟩ * P)) (k (true, allocs')) Q) :
    Triple (isList (some a) strs * (held ⟨v, q, header ++ [NUL]⟩ * P)) (addHeader v (some a) allocs >>= k) Q := by
  rw [← mul_assoc]
  have adds : Triple (isList (some a) strs * held ⟨v, q, header ++ [NUL]⟩) (addHeader v (some a) allocs)
      fun r => any fun x : Nat × List Bytes => fact (r.1 = true ∧ false ∉ r.2) * (isList (some a) x.2 *
        held ⟨v, x.1, Cgi.addHeader header strs ++ [NUL]⟩) := by
    rw [isList, any_star]
    apply Triple.any
    intro owned
    rw [mul_assoc]
    apply Triple.fact
    rintro rfl
    unfold addHeader
    rw [listAt, mul_assoc]
    apply loadCells_then
    rw [← mul_assoc, ← listAt]
    have enough : owned.length - 0 < (pointers owned).length + 1 := by simp [pointers]
    apply (Triple.repeatUntil (fun s => owned.length - s.1) (addHeaderNext_adds clean cleanStrs) enough).mono
    · exact fun h holds => ⟨(q, owned), fact_star.mpr ⟨⟨Nat.zero_le _, rfl, rfl, met⟩, holds⟩⟩
    · exact fun _ => le_rfl
  apply Triple.call adds
  rintro ⟨done, allocs'⟩
  rw [any_star]
  apply Triple.any
  rintro ⟨q', strs'⟩
  rw [mul_assoc, mul_assoc]
  apply Triple.fact
  rintro ⟨rfl, met'⟩
  exact rest q' strs' allocs' met'

/-- The rows of the environment that match are added to the header. -/
theorem addRows_then {mark : Bytes} (clean : NUL ∉ header) (cleanStrs : ∀ s ∈ strs, NUL ∉ s) (met : false ∉ allocs)
    {k : Option (Ptr × Allocs) → Program Content α}
    (rest : ∀ lst rows q' allocs', false ∉ allocs' → Triple (isList lst rows * (isList env strs *
      (held ⟨v, q', Cgi.addHeader header (Liblst.lstEgrep strs mark) ++ [NUL]⟩ * P))) (k (some (lst, allocs'))) Q) :
    Triple (isList env strs * (held ⟨v, q, header ++ [NUL]⟩ * P)) (addRows v mark env allocs >>= k) Q := by
  rw [addRows, bind_assoc]
  apply Triple.call (lstEgrep_matches (regexec mark) cleanStrs allocs)
  rintro ⟨lst, allocs'⟩
  rw [any_star]
  apply Triple.any
  intro rows
  rw [mul_assoc, mul_assoc]
  apply Triple.fact
  rintro ⟨matched, met'⟩
  have every : rows = Liblst.lstEgrep strs mark := matched.resolve_right fun failed => met failed.2
  have cleanRows : ∀ s ∈ rows, NUL ∉ s := fun s member => by
    rw [every] at member
    exact cleanStrs s (List.mem_of_mem_filter member)
  cases lst with
  | none =>
      rw [isList]
      apply Triple.fact
      intro nothing
      have added := rest none rows q allocs' (met' met)
      rw [← every, nothing, isList, fact_of rfl, one_mul] at added
      exact added
  | some a =>
      rw [mul_left_comm (isList env strs)]
      dsimp only
      rw [bind_assoc]
      apply addHeader_then clean cleanRows (met' met)
      intro q' rows' allocs'' met''
      rw [mul_left_comm (held _), every]
      exact rest (some a) rows' q' allocs'' met''

theorem textOf_then (clean : NUL ∉ str) {k : Bytes → Program Content α}
    (rest : Triple (held ⟨v, q, str ++ [NUL]⟩ * P) (k str) Q) :
    Triple (held ⟨v, q, str ++ [NUL]⟩ * P) (textOf v >>= k) Q := by
  rw [held_eq, mul_assoc] at rest ⊢
  rw [textOf, bind_assoc]
  apply cellAt_then (by rfl)
  rw [mul_left_comm] at rest ⊢
  exact loadText_then (Block.stringAt_zero clean []) rest

/-- The rows are read, and their blocks stay as they are. -/
theorem rowsAt_then {owned : List (Nat × Bytes)} (clean : ∀ s ∈ owned.map Prod.snd, NUL ∉ s)
    {k : List Bytes → Program Content α} (rest : Triple (strings owned * P) (k (owned.map Prod.snd)) Q) :
    Triple (strings owned * P) (rowsAt (pointers owned) >>= k) Q := by
  induction owned generalizing P k with
  | nil => exact rest
  | cons entry owned ih =>
      rw [List.map_cons, List.forall_mem_cons] at clean
      have parts : strings (entry :: owned) = pointsTo entry.1 (.chars (entry.2 ++ [NUL])) * strings owned := rfl
      have cells : pointers (entry :: owned) = some entry.1 :: pointers owned := rfl
      rw [parts, mul_assoc] at rest ⊢
      rw [cells, rowsAt, bind_assoc]
      apply loadText_then (Block.stringAt_zero clean.1 [])
      rw [bind_assoc, mul_left_comm]
      apply ih clean.2
      rw [mul_left_comm]
      exact rest

end Then

section Names

variable {α : Type} {P : Assertion Content} {Q : α → Assertion Content}

/-- These are the variables of the names. -/
def variablesOf (names : List (Nat × Bytes)) : Assertion Content := (names.map fun name => variableAt name.1).prod

/-- Each variable has a string with its name. -/
def Named (names : List (Nat × Bytes)) (entries : List Entry) : Prop :=
  entries.map (fun entry => (entry.ptr, entry.bytes)) = names.map fun name => (name.1, name.2 ++ [NUL])

theorem namedAll_then {names : List (Nat × Bytes)} {gc : Ptr} {entries : List Entry} {allocs : Allocs}
    (met : false ∉ allocs) {k : Option (Ptr × Allocs) → Program Content α}
    (rest : ∀ gc' named allocs', Named names named → false ∉ allocs' →
      Triple (isGc gc' (entries ++ named) * P) (k (some (gc', allocs'))) Q) :
    Triple (variablesOf names * (isGc gc entries * P)) (namedAll names gc allocs >>= k) Q := by
  induction names generalizing gc entries allocs with
  | nil =>
      have start := rest gc [] allocs rfl met
      rw [List.append_nil] at start
      rw [variablesOf, List.map_nil, List.prod_nil, one_mul]
      exact start
  | cons name names ih =>
      have parts : variablesOf (name :: names) = variableAt name.1 * variablesOf names := rfl
      rw [parts, mul_assoc, mul_left_comm (variablesOf names), namedAll, bind_assoc]
      apply named_then met
      intro g q allocs' met'
      rw [mul_left_comm]
      apply ih met'
      intro gc' named allocs'' same met''
      have all := rest gc' (⟨name.1, q, name.2 ++ [NUL]⟩ :: named) allocs''
        (by rw [Named, List.map_cons, List.map_cons, same]) met''
      rw [List.append_assoc]
      exact all

/-- The variables have any addresses when their strings have been freed. -/
theorem allDangling_le {names : List (Nat × Bytes)} {entries : List Entry} (named : Named names entries) :
    allDangling entries ≤ variablesOf names := by
  have ptrs : entries.map Entry.ptr = names.map Prod.fst := by
    have firsts := congrArg (List.map Prod.fst) named
    simpa [Function.comp_def] using firsts
  have same : variablesOf names = ((entries.map Entry.ptr).map variableAt).prod := by
    rw [ptrs, List.map_map]
    rfl
  rw [same, allDangling]
  clear same ptrs named
  induction entries with
  | nil => exact le_rfl
  | cons entry entries ih =>
      simp only [List.map_cons, List.prod_cons]
      exact mul_le_mul' (dangling_le entry) ih

end Names

section Clean

theorem clean_append' {a b : Bytes} (first : NUL ∉ a) (second : NUL ∉ b) : NUL ∉ a ++ b := by
  rw [List.mem_append, not_or]
  exact ⟨first, second⟩

theorem signedDecimal_clean (value : Int) : NUL ∉ signedDecimal value := by
  have digits : ∀ n, NUL ∉ decimal n := fun n => decimal_absent n (by decide)
  unfold signedDecimal
  split
  · rw [List.mem_cons, not_or]
    exact ⟨by decide, digits _⟩
  · exact digits _

theorem devicePath_clean (device : Int) {rest : Bytes} (clean : NUL ∉ rest) : NUL ∉ devicePath device rest := by
  have root : NUL ∉ runPath ++ text "/" := by decide
  rw [devicePath, List.mem_append, List.mem_append, not_or, not_or]
  exact ⟨⟨root, signedDecimal_clean device⟩, clean⟩

theorem getenv_clean {rows : List Bytes} (clean : ∀ s ∈ rows, NUL ∉ s) (name : Bytes) {default : Bytes}
    (cleanDefault : NUL ∉ default) : NUL ∉ (getenv rows name).getD default := by
  cases found : getenv rows name with
  | none => exact cleanDefault
  | some value =>
      obtain ⟨row, here, rfl⟩ := Option.map_eq_some_iff.mp found
      exact fun member => clean row (List.mem_of_find?_eq_some here) (List.mem_of_mem_drop member)

theorem requestRow_clean {rows : List Bytes} (clean : ∀ s ∈ rows, NUL ∉ s) : NUL ∉ requestRow rows := by
  have space : NUL ∉ text " " := by decide
  have ending : NUL ∉ NL := by decide
  simp only [requestRow, List.mem_append, not_or]
  refine ⟨⟨⟨⟨⟨?_, space⟩, ?_⟩, space⟩, ?_⟩, ending⟩
  · exact getenv_clean clean _ (by decide)
  · exact getenv_clean clean _ (by decide)
  · exact getenv_clean clean _ (by decide)

end Clean

section Pier

variable {l : Locals} {connect : Int} {myPid : Nat} {e : Nat} {owned : List (Nat × Bytes)} {allocs : Allocs}
  {entries : List Entry}

/-- The variables are those of the four names. -/
theorem Named.four (named : Named (pierNames l connect myPid) entries) : ∃ q₁ q₂ q₃ q₄,
    entries = [⟨l.Rpath, q₁, devicePath connect (text ".0") ++ [NUL]⟩,
      ⟨l.Rfifo, q₂, devicePath connect (text ".0/" ++ signedDecimal myPid) ++ [NUL]⟩,
      ⟨l.Wfifo, q₃, devicePath connect [] ++ [NUL]⟩,
      ⟨l.lockName, q₄, devicePath connect (text ".lock") ++ [NUL]⟩] := by
  rw [Named, pierNames] at named
  rcases entries with _ | ⟨⟨p₁, q₁, b₁⟩, _ | ⟨⟨p₂, q₂, b₂⟩, _ | ⟨⟨p₃, q₃, b₃⟩, _ | ⟨⟨p₄, q₄, b₄⟩, _ | _⟩⟩⟩⟩
  all_goals
    simp only [List.map_cons, List.map_nil, List.cons.injEq, reduceCtorEq, and_false, and_true, Prod.mk.injEq] at named
  obtain ⟨⟨rfl, rfl⟩, ⟨rfl, rfl⟩, ⟨rfl, rfl⟩, ⟨rfl, rfl⟩⟩ := named
  exact ⟨q₁, q₂, q₃, q₄, rfl⟩

/-- The blocks of the other variables are apart from those of the path. -/
theorem allHeld_second (a b c d : Entry) : allHeld [a, b, c, d] = held b * allHeld [a, c, d] := by
  simp only [allHeld_cons]
  exact mul_left_comm _ _ _

/-- The array and its strings are freed, and the variables are left. -/
theorem gcClean_last (named : Named (pierNames l connect myPid) entries) (g : Nat) (last : Entry) :
    Triple (gcWith g entries last.ptr * held last) (gcClean (some g))
      fun _ => variablesOf (pierNames l connect myPid) * variableAt last.ptr := by
  rw [← isGc_last]
  apply (gcClean_frees (some g) (entries ++ [last])).mono le_rfl
  intro _
  rw [allDangling_concat]
  exact mul_le_mul' (allDangling_le named) (dangling_le last)

/-- The header is read, and then the lists and the strings are freed. -/
theorem pierAnswer_frees {lstEnv lstHttpEnv lstContentEnv : Ptr} {env http content : List Bytes} {g q : Nat}
    {str : Bytes} {R : Assertion Content} (clean : NUL ∉ str) (named : Named (pierNames l connect myPid) entries) :
    Triple (held ⟨l.header, q, str ++ [NUL]⟩ * (gcWith g entries l.header * (isList lstEnv env *
        (isList lstHttpEnv http * (isList lstContentEnv content * R)))))
      (do
        let header ← textOf l.header
        let _ ← textOf l.Rfifo
        lstFree lstEnv
        lstFree lstHttpEnv
        lstFree lstContentEnv
        gcClean (some g)
        return PierEnd.answered header)
      fun r => fact (r = PierEnd.answered str) *
        (variablesOf (pierNames l connect myPid) * (variableAt l.header * R)) := by
  have cleanPath : NUL ∉ devicePath connect (text ".0/" ++ signedDecimal myPid) :=
    devicePath_clean connect (clean_append' (by decide) (signedDecimal_clean myPid))
  apply textOf_then clean
  obtain ⟨q₁, q₂, q₃, q₄, four⟩ := named.four
  have path : gcWith g entries l.header =
      held ⟨l.Rfifo, q₂, devicePath connect (text ".0/" ++ signedDecimal myPid) ++ [NUL]⟩ *
        (pointsTo g (.cells (ptrs entries ++ [some l.header, none])) *
          allHeld [⟨l.Rpath, q₁, devicePath connect (text ".0") ++ [NUL]⟩,
            ⟨l.Wfifo, q₃, devicePath connect [] ++ [NUL]⟩,
            ⟨l.lockName, q₄, devicePath connect (text ".lock") ++ [NUL]⟩]) := by
    rw [gcWith, four, allHeld_second]
    exact mul_left_comm _ _ _
  rw [mul_left_comm, path, mul_assoc]
  apply textOf_then cleanPath
  rw [← mul_assoc (held ⟨l.Rfifo, _, _⟩), ← path]
  have order : gcWith g entries l.header * (held ⟨l.header, q, str ++ [NUL]⟩ * (isList lstEnv env *
      (isList lstHttpEnv http * (isList lstContentEnv content * R)))) =
        isList lstEnv env * (isList lstHttpEnv http * (isList lstContentEnv content *
          (gcWith g entries l.header * held ⟨l.header, q, str ++ [NUL]⟩ * R))) := by
    ac_rfl
  apply Triple.order order
  apply Triple.call (lstFree_frees lstEnv env)
  intro _
  rw [one_mul]
  apply Triple.call (lstFree_frees lstHttpEnv http)
  intro _
  rw [one_mul]
  apply Triple.call (lstFree_frees lstContentEnv content)
  intro _
  rw [one_mul]
  apply Triple.call (gcClean_last named g ⟨l.header, q, str ++ [NUL]⟩)
  intro _
  apply Triple.ret
  rw [fact_of rfl, one_mul, mul_assoc]

theorem pierAnswer_answers {gc lstEnv : Ptr} (clean : ∀ s ∈ owned.map Prod.snd, NUL ∉ s)
    (named : Named (pierNames l connect myPid) entries) (met : false ∉ allocs) :
    Triple (variableAt l.header * (isGc gc entries * (isList lstEnv (owned.map Prod.snd) * listAt e owned)))
      (pierAnswer l (some e) lstEnv gc myPid allocs)
      fun r => fact (r = .answered (pierHeader ⟨myPid, owned.map Prod.snd, []⟩)) *
        (variablesOf (pierNames l connect myPid) * (variableAt l.header * listAt e owned)) := by
  have ending : NUL ∉ NL := by decide
  have cleanPid : NUL ∉ decimal myPid ++ NL := by
    rw [List.mem_append, not_or]
    exact ⟨decimal_absent myPid (by decide), ending⟩
  have cleanRow := clean_append' cleanPid (requestRow_clean clean)
  have cleanRows : ∀ mark, ∀ s ∈ Liblst.lstEgrep (owned.map Prod.snd) mark, NUL ∉ s := fun mark s member =>
    clean s (List.mem_of_mem_filter member)
  let header₁ := Cgi.addHeader (decimal myPid ++ NL ++ requestRow (owned.map Prod.snd))
    (Liblst.lstEgrep (owned.map Prod.snd) (text "HTTP_"))
  let header₂ := Cgi.addHeader header₁ (Liblst.lstEgrep (owned.map Prod.snd) (text "CONTENT_"))
  have cleanHttp : NUL ∉ header₁ := addHeader_clean cleanRow (cleanRows (text "HTTP_"))
  have cleanContent : NUL ∉ header₂ := addHeader_clean cleanHttp (cleanRows (text "CONTENT_"))
  unfold pierAnswer
  apply named_then met
  intro g q allocs₁ met₁
  rw [isGc_last]
  have reads : gcWith g entries l.header * held ⟨l.header, q, decimal myPid ++ NL ++ [NUL]⟩ *
      (isList lstEnv (owned.map Prod.snd) * listAt e owned) =
        pointsTo e (.cells (pointers owned)) * (strings owned * (held ⟨l.header, q, decimal myPid ++ NL ++ [NUL]⟩ *
          (isList lstEnv (owned.map Prod.snd) * gcWith g entries l.header))) := by
    rw [listAt]
    ac_rfl
  apply Triple.order reads
  apply loadCells_then
  rw [mul_left_comm]
  apply rowsAt_then clean
  have row : strings owned * (pointsTo e (.cells (pointers owned)) *
      (held ⟨l.header, q, decimal myPid ++ NL ++ [NUL]⟩ *
        (isList lstEnv (owned.map Prod.snd) * gcWith g entries l.header))) =
          held ⟨l.header, q, decimal myPid ++ NL ++ [NUL]⟩ *
            (isList lstEnv (owned.map Prod.snd) * (gcWith g entries l.header * listAt e owned)) := by
    rw [listAt]
    ac_rfl
  apply Triple.order row
  apply replaceStrFormat_then cleanPid met₁
  intro q₂ allocs₂ met₂
  rw [mul_left_comm]
  apply addRows_then cleanRow clean met₂
  intro lstHttpEnv http q₃ allocs₃ met₃
  rw [mul_left_comm, mul_left_comm (isList lstHttpEnv http)]
  apply addRows_then cleanHttp clean met₃
  intro lstContentEnv content q₄ allocs₄ met₄
  have last : isList lstContentEnv content * (isList lstEnv (owned.map Prod.snd) *
      (held ⟨l.header, q₄, header₂ ++ [NUL]⟩ *
        (isList lstHttpEnv http * (gcWith g entries l.header * listAt e owned)))) =
          held ⟨l.header, q₄, header₂ ++ [NUL]⟩ * (gcWith g entries l.header * (isList lstEnv (owned.map Prod.snd) *
            (isList lstHttpEnv http * (isList lstContentEnv content * listAt e owned)))) := by
    ac_rfl
  apply Triple.order last
  apply replaceStrFormat_then cleanContent met₄
  intro q₅ allocs₅ met₅
  have written : pierHeader ⟨myPid, owned.map Prod.snd, []⟩ = header₂ ++ NL := by
    simp only [pierHeader, replaceStrFormat_empty, header₂, header₁]
  rw [written]
  exact pierAnswer_frees (clean_append' cleanContent ending) named

/-- The answer is written, and the list and the strings are freed. -/
theorem pierRefuse_refuses {gc lstEnv : Ptr} {env : List Bytes} {R : Assertion Content} (met : false ∉ allocs) :
    Triple (variableAt l.answer * (isGc gc entries * (isList lstEnv env * R))) (pierRefuse l lstEnv gc allocs)
      fun r => fact (r = .refused refusal) * (allDangling entries * (variableAt l.answer * R)) := by
  have clean : NUL ∉ refusal := by decide +kernel
  rw [variableAt, any_star]
  apply Triple.any
  intro old
  unfold pierRefuse
  apply String_then met
  intro q allocs₁ met₁
  rw [mul_left_comm]
  apply setCell_then (by simp)
  have order : pointsTo l.answer (Content.cells [some q]) * (pointsTo q (.chars (refusal ++ [NUL])) *
      (isGc gc entries * (isList lstEnv env * R))) =
        isGc gc entries * held ⟨l.answer, q, refusal ++ [NUL]⟩ * (isList lstEnv env * R) := by
    rw [held_eq]
    ac_rfl
  apply Triple.order order
  apply gcCollect_then met₁
  intro g allocs₂ met₂
  rw [isGc_last]
  have reads : gcWith g entries l.answer * held ⟨l.answer, q, refusal ++ [NUL]⟩ * (isList lstEnv env * R) =
      held ⟨l.answer, q, refusal ++ [NUL]⟩ * (isList lstEnv env * (gcWith g entries l.answer * R)) := by
    ac_rfl
  apply Triple.order reads
  apply textOf_then clean
  rw [mul_left_comm]
  apply Triple.call (lstFree_frees lstEnv env)
  intro _
  have whole : 1 * (held ⟨l.answer, q, refusal ++ [NUL]⟩ * (gcWith g entries l.answer * R)) =
      isGc (some g) (entries ++ [⟨l.answer, q, refusal ++ [NUL]⟩]) * R := by
    rw [isGc_last, one_mul]
    ac_rfl
  apply Triple.order whole
  apply Triple.call (gcClean_frees _ _)
  intro _
  apply Triple.ret
  rw [fact_of rfl, one_mul, allDangling_concat, mul_assoc]
  exact mul_le_mul' le_rfl (mul_le_mul' (dangling_le _) le_rfl)

/-- The variables of `Pier` are at their addresses. -/
def locals (l : Locals) : Assertion Content :=
  variableAt l.Rpath * variableAt l.Rfifo * variableAt l.Wfifo * variableAt l.lockName * variableAt l.answer *
    variableAt l.header

theorem locals_eq (l : Locals) (connect : Int) (myPid : Nat) :
    locals l = variablesOf (pierNames l connect myPid) * (variableAt l.answer * variableAt l.header) := by
  simp only [locals, variablesOf, pierNames, List.map_cons, List.map_nil, List.prod_cons, List.prod_nil, mul_one]
  ac_rfl

/-- The list of the environment and the four names are made in front of the three calls that may refuse. -/
theorem pierServe_begins {opened : Opened} {R : Assertion Content} {Q : PierEnd → Assertion Content}
    (device : connect ≠ 0) (rows : owned ≠ []) (clean : ∀ s ∈ owned.map Prod.snd, NUL ∉ s) (met : false ∉ allocs)
    (rest : ∀ lstEnv gc entries allocs', Named (pierNames l connect myPid) entries → false ∉ allocs' →
      Triple (isGc gc entries * (isList lstEnv (owned.map Prod.snd) *
          (variableAt l.answer * variableAt l.header * (listAt e owned * R))))
        (if opened.Lfd = false then pierRefuse l lstEnv gc allocs'
          else if opened.locked = false then pierRefuse l lstEnv gc allocs'
          else if opened.Wfd = false then pierRefuse l lstEnv gc allocs'
          else pierAnswer l (some e) lstEnv gc myPid allocs') Q) :
    Triple (locals l * (listAt e owned * R)) (pierServe l (some e) connect myPid opened allocs) Q := by
  unfold pierServe
  rw [if_neg device, mul_left_comm]
  apply Triple.call (getEnv_gathers clean allocs)
  rintro ⟨lstEnv, allocs₁⟩
  rw [any_star]
  apply Triple.any
  intro strs
  rw [mul_assoc, mul_assoc]
  apply Triple.fact
  rintro ⟨-, full⟩
  obtain ⟨rfl, met₁⟩ := full met
  cases lstEnv with
  | none =>
      rw [isList]
      apply Triple.fact
      intro nothing
      exact absurd (List.map_eq_nil_iff.mp nothing) rows
  | some a =>
      have order : isList (some a) (owned.map Prod.snd) * (listAt e owned * (locals l * R)) =
          variablesOf (pierNames l connect myPid) * (isGc none [] * (isList (some a) (owned.map Prod.snd) *
            (variableAt l.answer * variableAt l.header * (listAt e owned * R)))) := by
        rw [locals_eq l connect myPid, isGc, fact_of rfl, one_mul]
        ac_rfl
      apply Triple.order order
      apply namedAll_then met₁
      intro gc entries allocs₂ named met₂
      exact rest (some a) gc entries allocs₂ named met₂

/-- When its device answers, `Pier` writes the header of its request, and it frees every block that it has made. -/
theorem pier_answered (l : Locals) {connect : Int} (device : connect ≠ 0) (myPid e : Nat) {owned : List (Nat × Bytes)}
    (rows : owned ≠ []) (clean : ∀ s ∈ owned.map Prod.snd, NUL ∉ s) {allocs : Allocs} (met : false ∉ allocs) :
    Triple (locals l * listAt e owned) (pier l (some e) connect myPid ⟨true, true, true⟩ allocs)
      fun r => fact (r = .answered (pierHeader ⟨myPid, owned.map Prod.snd, []⟩)) * (locals l * listAt e owned) := by
  have serves : Triple (locals l * (listAt e owned * 1)) (pierServe l (some e) connect myPid ⟨true, true, true⟩ allocs)
      fun r => fact (r = .answered (pierHeader ⟨myPid, owned.map Prod.snd, []⟩)) * (locals l * listAt e owned) := by
    apply pierServe_begins device rows clean met
    intro lstEnv gc entries allocs' named met'
    have order : isGc gc entries * (isList lstEnv (owned.map Prod.snd) *
        (variableAt l.answer * variableAt l.header * (listAt e owned * 1))) =
          variableAt l.header * (isGc gc entries * (isList lstEnv (owned.map Prod.snd) * listAt e owned)) *
            variableAt l.answer := by
      rw [mul_one]
      ac_rfl
    apply Triple.order order
    apply ((pierAnswer_answers clean named met').frame (variableAt l.answer)).mono le_rfl
    intro r
    rw [locals_eq l connect myPid]
    apply le_of_eq
    ac_rfl
  rw [mul_one] at serves
  apply Triple.bind serves
  intro r
  apply Triple.fact
  rintro rfl
  apply Triple.ret
  rw [fact_of rfl, one_mul]

def requestLocals : Locals := ⟨3, 4, 5, 6, 7, 8⟩

theorem pier_answered_host :
    Triple (locals requestLocals * listAt 2 environRows) (pier requestLocals (some 2) 5 77 ⟨true, true, true⟩ [])
      fun r => fact (r = .answered (pierHeader ⟨77, environRows.map Prod.snd, []⟩)) *
        (locals requestLocals * listAt 2 environRows) :=
  pier_answered requestLocals (by decide) 77 2 (by decide) (by decide) (by decide)

/-- The blocks of the variables, of the environment and of the rest are at fixed addresses. -/
theorem fixed_blocks (l : Locals) (e : Nat) (owned : List (Nat × Bytes)) (rest : Heap Content) :
    Fixed (locals l * (listAt e owned * exactly rest)) := by
  have at' : ∀ ptr, Fixed (variableAt ptr) := fun ptr => Fixed.pointsTo ptr fun q : Ptr => Content.cells [q]
  have each : Fixed (strings owned) := Fixed.prod fun P member => by
    obtain ⟨entry, -, rfl⟩ := List.mem_map.mp member
    exact Fixed.block _ _
  exact ((((((at' _).star (at' _)).star (at' _)).star (at' _)).star (at' _)).star (at' _)).star
    (((Fixed.block _ _).star each).star (Fixed.exactly rest))

/-- A request that is refused leaves its path in a variable without a block. -/
theorem pierServe_refused {opened : Opened} (refused : opened ≠ ⟨true, true, true⟩) (device : connect ≠ 0)
    (rows : owned ≠ []) (clean : ∀ s ∈ owned.map Prod.snd, NUL ∉ s) (met : false ∉ allocs) (rest : Heap Content) :
    Triple (locals l * (listAt e owned * exactly rest)) (pierServe l (some e) connect myPid opened allocs)
      fun r => any fun q : Nat => fact (r = .refused refusal ∧
        ∀ h, (locals l * (listAt e owned * exactly rest)) h → h q = none) *
          (pointsTo l.Rfifo (.cells [some q]) * (variableAt l.Rpath * variableAt l.Wfifo * variableAt l.lockName *
            variableAt l.answer * variableAt l.header * (listAt e owned * exactly rest))) := by
  apply pierServe_begins device rows clean met
  intro lstEnv gc entries allocs' named met'
  obtain ⟨q₁, q₂, q₃, q₄, four⟩ := named.four
  have branch : (if opened.Lfd = false then pierRefuse l lstEnv gc allocs'
      else if opened.locked = false then pierRefuse l lstEnv gc allocs'
      else if opened.Wfd = false then pierRefuse l lstEnv gc allocs'
      else pierAnswer l (some e) lstEnv gc myPid allocs') = pierRefuse l lstEnv gc allocs' := by
    rcases opened with ⟨_ | _, _ | _, _ | _⟩
    all_goals first | rfl | contradiction
  rw [branch]
  cases gc with
  | none =>
      rw [isGc]
      apply Triple.fact
      intro nothing
      rw [four] at nothing
      contradiction
  | some g =>
      let kept := pointsTo l.Rpath (Content.cells [some q₁]) * pointsTo l.Rfifo (.cells [some q₂]) *
        pointsTo l.Wfifo (.cells [some q₃]) * pointsTo l.lockName (.cells [some q₄]) * variableAt l.answer *
        variableAt l.header * (listAt e owned * exactly rest)
      have below : kept ≤ locals l * (listAt e owned * exactly rest) := by
        exact mul_le_mul' (mul_le_mul' (mul_le_mul' (mul_le_mul' (mul_le_mul' (mul_le_mul' (cell_le _ _) (cell_le _ _))
          (cell_le _ _)) (cell_le _ _)) le_rfl) le_rfl) le_rfl
      let others := pointsTo g (Content.cells (collected entries)) * isList lstEnv (owned.map Prod.snd) *
        pointsTo q₁ (.chars (devicePath connect (text ".0") ++ [NUL])) *
        pointsTo q₃ (.chars (devicePath connect [] ++ [NUL])) *
        pointsTo q₄ (.chars (devicePath connect (text ".lock") ++ [NUL]))
      have order : isGc (some g) entries * (isList lstEnv (owned.map Prod.snd) *
          (variableAt l.answer * variableAt l.header * (listAt e owned * exactly rest))) =
            pointsTo q₂ (.chars (devicePath connect (text ".0/" ++ signedDecimal myPid) ++ [NUL])) *
              (kept * others) := by
        have parts : allHeld entries = _ := congrArg allHeld four
        simp only [isGc, parts, allHeld_cons, held_eq, kept, others]
        rw [show allHeld [] = 1 from rfl, mul_one]
        ac_rfl
      apply Triple.order order
      apply Triple.distinct (fixed_blocks l e owned rest) below
      intro freed
      rw [← order]
      have order' : isGc (some g) entries * (isList lstEnv (owned.map Prod.snd) *
          (variableAt l.answer * variableAt l.header * (listAt e owned * exactly rest))) =
            variableAt l.answer * (isGc (some g) entries * (isList lstEnv (owned.map Prod.snd) *
              (variableAt l.header * (listAt e owned * exactly rest)))) := by
        ac_rfl
      apply Triple.order order'
      apply (pierRefuse_refuses met').mono le_rfl
      intro r h holds
      rw [fact_star] at holds
      refine ⟨q₂, fact_star.mpr ⟨⟨holds.1, freed⟩, ?_⟩⟩
      have dangles : allDangling entries ≤ pointsTo l.Rfifo (.cells [some q₂]) *
          (variableAt l.Rpath * variableAt l.Wfifo * variableAt l.lockName) := by
        have parts : allDangling entries = _ := congrArg allDangling four
        simp only [allDangling, List.map_cons, List.map_nil, List.prod_cons, List.prod_nil, mul_one] at parts
        rw [allDangling, parts, mul_left_comm, mul_assoc (variableAt l.Rpath)]
        exact mul_le_mul' le_rfl (mul_le_mul' (dangling_le _) (mul_le_mul' (dangling_le _) (dangling_le _)))
      have result := mul_le_mul_left dangles
        (variableAt l.answer * (variableAt l.header * (listAt e owned * exactly rest))) h holds.2
      have order'' : pointsTo l.Rfifo (Content.cells [some q₂]) * (variableAt l.Rpath * variableAt l.Wfifo *
          variableAt l.lockName) * (variableAt l.answer * (variableAt l.header * (listAt e owned * exactly rest))) =
            pointsTo l.Rfifo (.cells [some q₂]) * (variableAt l.Rpath * variableAt l.Wfifo * variableAt l.lockName *
              variableAt l.answer * variableAt l.header * (listAt e owned * exactly rest)) := by
        ac_rfl
      rwa [order''] at result

/-- A request that is refused is answered, and every block that `Pier` has made is freed, its path too. The `unlink`
behind these calls reads the path, so it uses an address without a block. -/
theorem pier_refused (l : Locals) {opened : Opened} (refused : opened ≠ ⟨true, true, true⟩) {connect : Int}
    (device : connect ≠ 0) (myPid e : Nat) {owned : List (Nat × Bytes)} (rows : owned ≠ [])
    (clean : ∀ s ∈ owned.map Prod.snd, NUL ∉ s) {allocs : Allocs} (met : false ∉ allocs) (rest : Heap Content)
    {m : Memory Content}
    (holds : (locals l * (listAt e owned * exactly rest)) m.heap) :
    (∃ m', pierServe l (some e) connect myPid opened allocs m = some (.refused refusal, m') ∧
      (locals l * (listAt e owned * exactly rest)) m'.heap) ∧
    pier l (some e) connect myPid opened allocs m = none := by
  obtain ⟨r, m', ran, q, result⟩ := (pierServe_refused refused device rows clean met rest).whole holds
  rw [fact_star] at result
  obtain ⟨⟨rfl, freed⟩, left⟩ := result
  have all : (locals l * (listAt e owned * exactly rest)) m'.heap := by
    have order : variableAt l.Rfifo * (variableAt l.Rpath * variableAt l.Wfifo * variableAt l.lockName *
        variableAt l.answer * variableAt l.header * (listAt e owned * exactly rest)) =
          locals l * (listAt e owned * exactly rest) := by
      rw [locals]
      ac_rfl
    rw [← order]
    exact mul_le_mul_left (cell_le l.Rfifo q) _ m'.heap left
  refine ⟨⟨m', ran, all⟩, ?_⟩
  have absent : m'.heap q = none := freed m'.heap all
  have here : m'.heap l.Rfifo = some (.cells [some q]) := (pointsTo_star.mp left).1
  change (pierServe l (some e) connect myPid opened allocs m).bind _ = none
  rw [ran]
  have cell : cellAt (some l.Rfifo) 0 m' = some (some q, m') := by
    simp [cellAt, loadCells, load, bind, here, Program.get, Pure.pure]
  have reads : loadText (q, 0) m' = none := by
    simp [loadText, loadChars, load, bind, absent]
  have faults : textOf l.Rfifo m' = none := by
    change (cellAt (some l.Rfifo) 0 m').bind _ = none
    rw [cell]
    exact reads
  change (textOf l.Rfifo m').bind _ = none
  rw [faults]
  rfl

def requestMemory : Memory Content :=
  (((((environMemory.push (.cells [none])).push (.cells [none])).push (.cells [none])).push (.cells [none])).push
    (.cells [none])).push (.cells [none])

theorem requestMemory_locals :
    (locals requestLocals * (listAt 2 environRows * exactly Heap.empty) : Assertion Content) requestMemory.heap := by
  have push : ∀ {m : Memory Content} {P : Assertion Content}, P m.heap →
      (variableAt m.next * P) (m.push (.cells [none])).heap := fun {m P} holds => by
    have null : pointsTo m.next (Content.cells [none]) ≤ variableAt m.next := fun _ here => ⟨none, here⟩
    exact star_mono null le_rfl _ (Memory.push_owned holds (.cells [none]))
  have owned := push (push (push (push (push (push environMemory_rows)))))
  have order : locals requestLocals * (listAt 2 environRows * exactly Heap.empty) =
      variableAt 8 * (variableAt 7 * (variableAt 6 * (variableAt 5 * (variableAt 4 * (variableAt 3 *
        (listAt 2 environRows * exactly Heap.empty)))))) := by
    simp only [locals, requestLocals]
    ac_rfl
  rw [order]
  exact owned

theorem pier_refused_host :
    (∃ m', pierServe requestLocals (some 2) 5 77 ⟨true, true, false⟩ [] requestMemory = some (.refused refusal, m') ∧
      (locals requestLocals * (listAt 2 environRows * exactly Heap.empty) : Assertion Content) m'.heap) ∧
    pier requestLocals (some 2) 5 77 ⟨true, true, false⟩ [] requestMemory = none :=
  pier_refused requestLocals (by decide) (by decide) 77 2 (by decide) (by decide) (by decide) Heap.empty
    requestMemory_locals

end Pier

end Piercloud.Pointers
