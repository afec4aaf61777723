import Piercloud.Proof.Lists.Pushing

/-
This file says which values the lookups give, for a map that is built by pushes, and when a push that fails leaves
the map as it was.
-/

namespace Piercloud.Lists

open CLib Loop Liblst Blocks

/-- The keys and the values stand in turn. -/
def flat (pairs : List (Bytes × Bytes)) : List Bytes := pairs.flatMap fun pair => [pair.1, pair.2]

@[simp] theorem flat_nil : flat [] = [] := rfl

@[simp] theorem flat_cons (pair : Bytes × Bytes) (pairs : List (Bytes × Bytes)) :
    flat (pair :: pairs) = pair.1 :: pair.2 :: flat pairs := rfl

theorem flat_append (pairs more : List (Bytes × Bytes)) : flat (pairs ++ more) = flat pairs ++ flat more :=
  List.flatMap_append

theorem length_flat (pairs : List (Bytes × Bytes)) : (flat pairs).length = 2 * pairs.length := by
  induction pairs with
  | nil => rfl
  | cons pair pairs ih =>
      simp only [flat_cons, List.length_cons, ih]
      omega

/-- A map without a pair may be `NULL`. -/
theorem Holds.pairs {map : Lst} {pairs : List (Bytes × Bytes)} (holds : Holds map (flat pairs)) :
    map = none ∧ pairs = [] ∨ map = some (array (flat pairs)) := by
  apply holds.cells.imp_left
  rintro ⟨null, empty⟩
  cases pairs with
  | nil => exact ⟨null, rfl⟩
  | cons pair pairs => simp at empty

/-- The values of a key in the order of the pairs. -/
def values (pairs : List (Bytes × Bytes)) (key : Bytes) : List Bytes :=
  (pairs.filter fun pair => pair.1 = key).map Prod.snd

theorem array_cons (str : Bytes) (strings : List Bytes) : array (str :: strings) = some str :: array strings := rfl

/-- The walk stops at the first pair with the key. -/
theorem findValue_flat (pairs : List (Bytes × Bytes)) (key : Bytes) :
    findValue key (array (flat pairs)) = .ok (values pairs key).head? := by
  induction pairs with
  | nil => rfl
  | cons pair pairs ih =>
      rw [flat_cons, array_cons, array_cons, findValue]
      by_cases same : pair.1 = key
      · rw [if_pos same, values, List.filter_cons_of_pos (by simpa using same)]
        rfl
      · rw [if_neg same, ih, values, values, List.filter_cons_of_neg (by simpa using same)]

/-- A lookup gives the value of the first pair with the key. -/
theorem getMapValue_flat {map : Lst} {pairs : List (Bytes × Bytes)} (holds : Holds map (flat pairs)) (key : Bytes) :
    getMapValue map (some key) = .ok (values pairs (cstr key)).head? := by
  rcases holds.pairs with ⟨rfl, rfl⟩ | rfl
  · rfl
  · simp only [getMapValue, holds.size, bind, Except.bind, length_flat, Nat.mul_mod_right, ne_eq, not_true, if_false]
    exact findValue_flat pairs (cstr key)

/-- The walk collects the values behind those that it has. -/
theorem collectValues_flat (pairs : List (Bytes × Bytes)) (clean : ∀ str ∈ flat pairs, NUL ∉ str) (key : Bytes)
    (found : List Bytes) (cleanFound : ∀ str ∈ found, NUL ∉ str) :
    collectValues key (array (flat pairs)) (ofStrings found) [] = .ok (ofStrings (found ++ values pairs key), []) := by
  induction pairs generalizing found with
  | nil => simp [array, collectValues, values, pure, Except.pure]
  | cons pair pairs ih =>
      have cleanPair : NUL ∉ pair.2 := clean pair.2 (by simp)
      have cleanRest : ∀ str ∈ flat pairs, NUL ∉ str := fun str member => clean str (by simp [member])
      rw [flat_cons, array_cons, array_cons, collectValues]
      by_cases same : pair.1 = key
      · have cleanMore : ∀ str ∈ found ++ [pair.2], NUL ∉ str := clean_append cleanFound (by simpa using cleanPair)
        simp only [if_pos same, lstPush_ofStrings cleanFound cleanPair, bind, Except.bind]
        rw [ih cleanRest _ cleanMore, values, values, List.filter_cons_of_pos (by simpa using same)]
        simp
      · rw [if_neg same, ih cleanRest found cleanFound, values, values, List.filter_cons_of_neg (by simpa using same)]

/-- The other lookup gives the values of all the pairs with the key. -/
theorem getMapValues_flat {map : Lst} {pairs : List (Bytes × Bytes)} (holds : Holds map (flat pairs)) (key : Bytes) :
    getMapValues map (some key) [] = .ok (ofStrings (values pairs (cstr key)), []) := by
  have clean := holds.clean
  rcases holds.pairs with ⟨rfl, rfl⟩ | rfl
  · rfl
  · simp only [getMapValues, holds.size, bind, Except.bind, length_flat, Nat.mul_mod_right, ne_eq, not_true, if_false]
    exact collectValues_flat pairs clean (cstr key) [] (by simp)

/-- Equal pairs give equal answers. -/
theorem lookups_eq {map map' : Lst} {pairs : List (Bytes × Bytes)} (holds : Holds map (flat pairs))
    (holds' : Holds map' (flat pairs)) (key : Option Bytes) :
    getMapValue map' key = getMapValue map key ∧ getMapValues map' key [] = getMapValues map key [] := by
  cases key with
  | none => cases map <;> cases map' <;> exact ⟨rfl, rfl⟩
  | some key =>
      rw [getMapValue_flat holds, getMapValue_flat holds', getMapValues_flat holds, getMapValues_flat holds']
      exact ⟨rfl, rfl⟩

/-- The push is done and the pair stands behind the old ones, or it fails and the map answers as before. -/
structure Atomic (map : Lst) (pairs : List (Bytes × Bytes)) (key value : Option Bytes) (pushed : Except Nat Nat)
    (map' : Lst) : Prop where
  done : ∀ i, pushed = .ok i → ∃ k v, key = some k ∧ value = some v ∧
    Holds map' (flat (pairs ++ [(cstr k, cstr v)]))
  failed : ∀ errno, pushed = .error errno → Holds map' (flat pairs) ∧ ∀ other,
    getMapValue map' other = getMapValue map other ∧ getMapValues map' other [] = getMapValues map other []

/-- A push is atomic exactly when it does not fail between the key and the value. -/
theorem mapPush_atomic_iff {map : Lst} {pairs : List (Bytes × Bytes)} (holds : Holds map (flat pairs))
    (key value : Option Bytes) (allocs : Allocs) :
    (∃ pushed map' allocs', mapPush map key value allocs = .ok (pushed, map', allocs') ∧
        Atomic map pairs key value pushed map') ↔
      key = none ∨ false ∈ allocs.take (needs map) ∨
        value ≠ none ∧ false ∉ (allocs.drop (needs map)).take 2 := by
  obtain ⟨first, errno, map', allocs', stops, same⟩ |
      ⟨k, rfl, memory, half | ⟨v, rfl, more, i, map', allocs', done, whole⟩⟩ := mapPush_cases holds key value allocs
  · apply iff_of_true
    · exact ⟨_, map', allocs', stops, by simp, fun _ _ => ⟨same, lookups_eq holds same⟩⟩
    · exact first.imp_right Or.inl
  · obtain ⟨second, errno, map', allocs', stops, odd⟩ := half
    apply iff_of_false
    · rintro ⟨pushed, map'', allocs'', result, atomic⟩
      obtain ⟨rfl, rfl, rfl⟩ : pushed = .error errno ∧ map'' = map' ∧ allocs'' = allocs' := by
        simpa [stops, eq_comm] using result
      have longer := odd.unique (atomic.failed errno rfl).1
      simpa using congrArg List.length longer
    · simp only [reduceCtorEq, memory, false_or]
      rintro ⟨real, found⟩
      exact second.elim real found
  · apply iff_of_true
    · refine ⟨_, map', allocs', done, fun _ _ => ⟨k, v, rfl, rfl, ?_⟩, by simp⟩
      rw [flat_append]
      exact whole
    · exact Or.inr (Or.inr ⟨by simp, more⟩)

theorem mapPush_atomic_null : ∃ pushed map' allocs',
    mapPush none (some (text "key")) (some (text "value")) [true, false] = .ok (pushed, map', allocs') ∧
      Atomic none [] (some (text "key")) (some (text "value")) pushed map' :=
  (mapPush_atomic_iff Holds.null _ _ _).mpr (Or.inr (Or.inl (by decide)))

/-- A key without a value makes the map odd, and no key is found in it any more. -/
theorem mapPush_odd :
    mapPush (some (array [text "a", text "b"])) (some (text "c")) none [] =
        .ok (.error EINVAL, some (array [text "a", text "b", text "c"]), []) ∧
      getMapValue (some (array [text "a", text "b"])) (some (text "a")) = .ok (some (text "b")) ∧
      getMapValue (some (array [text "a", text "b", text "c"])) (some (text "a")) = .ok none ∧
      ¬ Atomic (some (array [text "a", text "b"])) [(text "a", text "b")] (some (text "c")) none (.error EINVAL)
        (some (array [text "a", text "b", text "c"])) := by
  have before : getMapValue (some (array [text "a", text "b"])) (some (text "a")) = .ok (some (text "b")) := rfl
  have after : getMapValue (some (array [text "a", text "b", text "c"])) (some (text "a")) = .ok none := rfl
  refine ⟨rfl, before, after, fun atomic => ?_⟩
  have same := ((atomic.failed EINVAL rfl).2 (some (text "a"))).1
  rw [before, after] at same
  simp at same

/-- The pairs are pushed from `NULL` on, and no push fails. -/
inductive Built : List (Bytes × Bytes) → Lst → Prop where
  | null : Built [] none
  | push {pairs : List (Bytes × Bytes)} {map map' : Lst} {key value : Bytes} {allocs allocs' : Allocs} {i : Nat}
      (built : Built pairs map)
      (done : mapPush map (some key) (some value) allocs = .ok (.ok i, map', allocs')) :
      Built (pairs ++ [(cstr key, cstr value)]) map'

/-- A map that is built holds its pairs. -/
theorem Built.holds {pairs : List (Bytes × Bytes)} {map : Lst} (built : Built pairs map) : Holds map (flat pairs) := by
  induction built with
  | null => exact Holds.null
  | @push pairs map map' key value allocs allocs' i _ done ih =>
      obtain ⟨-, errno, _, _, stops, -⟩ |
          ⟨k, same, -, ⟨-, errno, _, _, stops, -⟩ | ⟨v, same', -, _, _, _, done', whole⟩⟩ :=
        mapPush_cases ih (some key) (some value) allocs
      · simp [stops] at done
      · simp [stops] at done
      · obtain rfl := Option.some.inj same
        obtain rfl := Option.some.inj same'
        obtain ⟨-, rfl, -⟩ := by simpa [done'] using done
        rw [flat_append]
        exact whole

/-- A key without a pair has no value. -/
theorem values_eq_nil_iff (pairs : List (Bytes × Bytes)) (key : Bytes) :
    values pairs key = [] ↔ ∀ pair ∈ pairs, pair.1 ≠ key := by
  simp [values, List.filter_eq_nil_iff]

theorem head_values (pairs : List (Bytes × Bytes)) (key : Bytes) :
    (values pairs key).head? = (pairs.find? fun pair => pair.1 = key).map Prod.snd := by
  rw [values, List.head?_map, List.head?_filter]

/-- The first value of a key stands for the default. -/
theorem getConfigValue_flat {map : Lst} {pairs : List (Bytes × Bytes)} (holds : Holds map (flat pairs)) (key : Bytes)
    (dval : Option Bytes) :
    getConfigValue map (some key) dval = .ok ((values pairs (cstr key)).head? <|> dval) := by
  have found := getMapValue_flat holds key
  cases map with
  | none =>
      simp only [getMapValue, pure, Except.pure, Except.ok.injEq] at found
      rw [← found]
      rfl
  | some cells =>
      simp only [getConfigValue, found, bind, Except.bind]
      rfl

/-- The first lookup gives the first value of a key, the second one all of them, and the default is for the other
keys. -/
theorem lookup_laws {pairs : List (Bytes × Bytes)} {map : Lst} (built : Built pairs map) (key : Bytes) :
    getMapValue map (some key) = .ok ((pairs.find? fun pair => pair.1 = cstr key).map Prod.snd) ∧
      getMapValues map (some key) [] = .ok (ofStrings (values pairs (cstr key)), []) ∧
      getMapValue map (some key) = .ok (values pairs (cstr key)).head? ∧
      ((∀ pair ∈ pairs, pair.1 ≠ cstr key) →
        getMapValue map (some key) = .ok none ∧ getMapValues map (some key) [] = .ok (none, [])) ∧
      ((∀ dval, getConfigValue map (some key) dval = .ok dval) ↔ ∀ pair ∈ pairs, pair.1 ≠ cstr key) := by
  have first := getMapValue_flat built.holds key
  have all := getMapValues_flat built.holds key
  refine ⟨head_values pairs _ ▸ first, all, first, ?_, ?_⟩
  · intro absent
    rw [first, all, (values_eq_nil_iff pairs _).mpr absent]
    exact ⟨rfl, rfl⟩
  · rw [← values_eq_nil_iff]
    constructor
    · intro defaults
      have missing := defaults none
      rw [getConfigValue_flat built.holds] at missing
      simpa using missing
    · intro none dval
      rw [getConfigValue_flat built.holds, none]
      rfl

/-- Every sequence of pairs can be pushed. -/
theorem built_exists (pairs : List (Bytes × Bytes)) :
    ∃ map, Built (pairs.map fun pair => (cstr pair.1, cstr pair.2)) map := by
  induction pairs using List.reverseRecOn with
  | nil => exact ⟨none, .null⟩
  | append_singleton pairs pair ih =>
      obtain ⟨map, built⟩ := ih
      obtain ⟨absurd, -⟩ | ⟨k, same, -, ⟨absurd, -⟩ | ⟨v, same', -, i, map', allocs', done, -⟩⟩ :=
        mapPush_cases built.holds (some pair.1) (some pair.2) []
      · simp at absurd
      · simp at absurd
      · obtain rfl := Option.some.inj same
        obtain rfl := Option.some.inj same'
        refine ⟨map', ?_⟩
        rw [List.map_append]
        exact .push built done

/-- A value stands for the other key too. -/
theorem lookup_laws_twice :
    ∃ map, getMapValue map (some (text "a")) = .ok (some (text "b")) ∧
      getMapValues map (some (text "a")) [] = .ok (ofStrings [text "b", text "d"], []) ∧
      getMapValue map (some (text "d")) = .ok none := by
  obtain ⟨map, built⟩ := built_exists [(text "a", text "b"), (text "b", text "c"), (text "a", text "d")]
  exact ⟨map, (lookup_laws built (text "a")).1, (lookup_laws built (text "a")).2.1,
    ((lookup_laws built (text "d")).2.2.2.1 (by decide)).1⟩

end Piercloud.Lists
