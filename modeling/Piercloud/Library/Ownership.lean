import Mathlib.Algebra.Order.Monoid.Defs
import Piercloud.Library.Loop

namespace Ownership

variable {β : Type}

/-- A part of the memory has blocks at some of the addresses. -/
abbrev Heap (β : Type) := Nat → Option β

namespace Heap

def empty : Heap β := fun _ => none

def single (a : Nat) (b : β) : Heap β := Function.update empty a (some b)

/-- No address belongs to both parts. -/
def Apart (h h' : Heap β) : Prop := ∀ a, h a = none ∨ h' a = none

def join (h h' : Heap β) : Heap β := fun a => (h a).or (h' a)

theorem join_assoc (h h' h'' : Heap β) : join (join h h') h'' = join h (join h' h'') := by
  funext a
  exact Option.or_assoc

@[simp] theorem empty_join (h : Heap β) : join empty h = h := rfl

@[simp] theorem join_empty (h : Heap β) : join h empty = h := by
  funext a
  exact Option.or_none

theorem apart_comm {h h' : Heap β} : Apart h h' ↔ Apart h' h := forall_congr' fun _ => or_comm

@[simp] theorem empty_apart (h : Heap β) : Apart empty h := fun _ => Or.inl rfl

theorem join_comm {h h' : Heap β} (apart : Apart h h') : join h h' = join h' h := by
  funext a
  rcases apart a with none | none <;> simp [join, none]

theorem apart_join {h h' h'' : Heap β} : Apart h (join h' h'') ↔ Apart h h' ∧ Apart h h'' := by
  constructor
  · intro apart
    constructor
    all_goals
      intro a
      rcases apart a with none | none
      · exact Or.inl none
      · rw [join, Option.or_eq_none_iff] at none
        exact Or.inr (by simp [none])
  · rintro ⟨first, second⟩ a
    rcases first a with none | none
    · exact Or.inl none
    · rcases second a with none' | none'
      · exact Or.inl none'
      · exact Or.inr (by simp [join, none, none'])

theorem join_apart {h h' h'' : Heap β} : Apart (join h h') h'' ↔ Apart h h'' ∧ Apart h' h'' := by
  rw [apart_comm, apart_join, apart_comm, apart_comm (h := h'')]

end Heap

/-- An assertion holds of a part of the memory. -/
def Assertion (β : Type) := Heap β → Prop

namespace Assertion

open Heap

/-- An assertion is better when it holds of fewer parts. -/
instance : PartialOrder (Assertion β) := inferInstanceAs (PartialOrder (Heap β → Prop))

/-- Each of the assertions owns a part of its own. -/
def star (P Q : Assertion β) : Assertion β := fun h =>
  ∃ own other, Apart own other ∧ join own other = h ∧ P own ∧ Q other

instance : One (Assertion β) := ⟨fun h => h = empty⟩

instance : Mul (Assertion β) := ⟨star⟩

theorem one_iff {h : Heap β} : (1 : Assertion β) h ↔ h = empty := Iff.rfl

theorem star_comm_le (P Q : Assertion β) : P * Q ≤ Q * P := by
  rintro h ⟨own, other, apart, rfl, left, right⟩
  exact ⟨other, own, apart_comm.mp apart, (join_comm apart).symm, right, left⟩

theorem star_assoc_le (P Q R : Assertion β) : P * Q * R ≤ P * (Q * R) := by
  rintro h ⟨front, last, apart, rfl, ⟨own, other, apart', rfl, first, second⟩, third⟩
  obtain ⟨far, near⟩ := join_apart.mp apart
  exact ⟨own, join other last, apart_join.mpr ⟨apart', far⟩, (join_assoc _ _ _).symm, first, other, last, near, rfl,
    second, third⟩

/-- Separating conjunction is associative and commutative, and the empty part is its unit. -/
instance : CommMonoid (Assertion β) where
  mul_comm P Q := le_antisymm (star_comm_le P Q) (star_comm_le Q P)
  mul_assoc P Q R := by
    have comm : ∀ P Q : Assertion β, P * Q = Q * P := fun P Q => le_antisymm (star_comm_le P Q) (star_comm_le Q P)
    apply le_antisymm (star_assoc_le P Q R)
    rw [comm P (Q * R), comm Q R, comm (P * Q) R, comm P Q]
    exact star_assoc_le R Q P
  one_mul P := by
    funext h
    apply propext
    constructor
    · rintro ⟨own, other, -, rfl, rfl, holds⟩
      exact holds
    · exact fun holds => ⟨empty, h, empty_apart h, rfl, rfl, holds⟩
  mul_one P := by
    funext h
    apply propext
    constructor
    · rintro ⟨own, other, -, rfl, holds, rfl⟩
      rwa [join_empty]
    · exact fun holds => ⟨h, empty, apart_comm.mpr (empty_apart h), join_empty h, holds, rfl⟩

/-- A better assertion for a part is a better assertion for the whole. -/
theorem star_mono {P P' Q Q' : Assertion β} (left : P ≤ P') (right : Q ≤ Q') : P * Q ≤ P' * Q' := by
  rintro h ⟨own, other, apart, rfl, first, second⟩
  exact ⟨own, other, apart, rfl, left own first, right other second⟩

instance : IsOrderedMonoid (Assertion β) where
  mul_le_mul_left _ _ better R := star_mono better (le_refl R)

/-- The assertion holds for some choice. -/
def any {ι : Sort*} (P : ι → Assertion β) : Assertion β := fun h => ∃ i, P i h

theorem any_star {ι : Sort*} (P : ι → Assertion β) (Q : Assertion β) : any P * Q = any fun i => P i * Q := by
  funext h
  apply propext
  constructor
  · rintro ⟨own, other, apart, rfl, ⟨i, first⟩, second⟩
    exact ⟨i, own, other, apart, rfl, first, second⟩
  · rintro ⟨i, own, other, apart, rfl, first, second⟩
    exact ⟨own, other, apart, rfl, ⟨i, first⟩, second⟩

/-- A fact says nothing about the memory. -/
def fact (φ : Prop) : Assertion β := fun h => φ ∧ h = empty

theorem fact_star {φ : Prop} {P : Assertion β} {h : Heap β} : (fact φ * P : Assertion β) h ↔ φ ∧ P h := by
  constructor
  · rintro ⟨own, other, -, rfl, ⟨holds, rfl⟩, rest⟩
    exact ⟨holds, rest⟩
  · rintro ⟨holds, rest⟩
    exact ⟨empty, h, empty_apart h, rfl, ⟨holds, rfl⟩, rest⟩

theorem fact_of {φ : Prop} (holds : φ) : (fact φ : Assertion β) = 1 := by
  funext h
  simp [fact, one_iff, holds]

/-- The part is this one. -/
def exactly (own : Heap β) : Assertion β := fun h => h = own

/-- There is one block at this address and no other block. -/
def pointsTo (a : Nat) (b : β) : Assertion β := fun h => h = single a b

section PointsTo

variable {a : Nat} {b c : β} {P : Assertion β} {h : Heap β}

theorem pointsTo_star : (pointsTo a b * P) h ↔ h a = some b ∧ P (Function.update h a none) := by
  constructor
  · rintro ⟨own, other, apart, rfl, rfl, rest⟩
    have absent : other a = none := (apart a).resolve_left (by simp [single])
    have same : Function.update (join (single a b) other) a none = other := by
      funext x
      by_cases here : x = a
      · subst here
        simp [absent]
      · simp [here, join, single, empty]
    constructor
    · simp [join, single]
    · rwa [same]
  · rintro ⟨here, rest⟩
    refine ⟨single a b, Function.update h a none, ?_, ?_, rfl, rest⟩
    · intro x
      by_cases same : x = a
      · simp [same]
      · simp [single, same, empty]
    · funext x
      by_cases same : x = a
      · simp [join, single, same, here]
      · simp [join, single, same, empty]

theorem pointsTo_update (owned : (pointsTo a b * P) h) : (pointsTo a c * P) (Function.update h a (some c)) := by
  rw [pointsTo_star] at owned ⊢
  simpa using owned.2

theorem pointsTo_fresh (fresh : h a = none) (rest : P h) : (pointsTo a b * P) (Function.update h a (some b)) := by
  rw [pointsTo_star]
  refine ⟨by simp, ?_⟩
  rwa [Function.update_idem, Function.update_eq_self_iff.mpr fresh.symm]

/-- A block that is back beside the others makes the part whole. -/
theorem pointsTo_whole (here : h a = some b) : pointsTo a b * exactly (Function.update h a none) = exactly h := by
  funext h'
  apply propext
  rw [pointsTo_star]
  constructor
  · rintro ⟨there, same⟩
    have back : Function.update h' a (some b) = h' := by rw [← there, Function.update_eq_self]
    change h' = h
    rw [← back, ← Function.update_idem, show Function.update h' a none = Function.update h a none from same,
      Function.update_idem, ← here, Function.update_eq_self]
  · rintro rfl
    exact ⟨here, rfl⟩

end PointsTo

/-- All parts with this assertion have their blocks at the same addresses. -/
def Fixed (P : Assertion β) : Prop := ∀ h h', P h → P h' → ∀ a, h a = none → h' a = none

namespace Fixed

theorem one : Fixed (1 : Assertion β) := by
  rintro h h' - rfl a -
  rfl

theorem exactly (own : Heap β) : Fixed (exactly own) := by
  rintro h h' rfl rfl a absent
  exact absent

theorem pointsTo {ι : Sort*} (a : Nat) (content : ι → β) : Fixed (any fun i => Assertion.pointsTo a (content i)) := by
  rintro h h' ⟨i, rfl⟩ ⟨j, rfl⟩ x absent
  by_cases here : x = a
  · subst here
    simp [single] at absent
  · simp [single, here, empty]

theorem mono {P Q : Assertion β} (fixed : Fixed Q) (below : P ≤ Q) : Fixed P := fun h h' holds holds' =>
  fixed h h' (below h holds) (below h' holds')

theorem block (a : Nat) (b : β) : Fixed (Assertion.pointsTo a b) :=
  (pointsTo a fun _ : Unit => b).mono fun _ holds => ⟨(), holds⟩

theorem star {P Q : Assertion β} (left : Fixed P) (right : Fixed Q) : Fixed (P * Q) := by
  rintro h h' ⟨own, other, -, rfl, first, second⟩ ⟨own', other', -, rfl, first', second'⟩ a absent
  rw [join, Option.or_eq_none_iff] at absent ⊢
  exact ⟨left own own' first first' a absent.1, right other other' second second' a absent.2⟩

theorem prod {l : List (Assertion β)} (each : ∀ P ∈ l, Fixed P) : Fixed l.prod := by
  induction l with
  | nil => exact one
  | cons P l ih =>
      rw [List.prod_cons]
      exact star (each P (List.mem_cons_self ..)) (ih fun Q member => each Q (List.mem_cons_of_mem P member))

end Fixed

end Assertion

/-- New blocks are at addresses that no block has had. -/
structure Memory (β : Type) where
  heap : Heap β
  next : Nat
  fresh : ∀ a, next ≤ a → heap a = none

namespace Memory

/-- There is no block yet. -/
def start : Memory β := ⟨Heap.empty, 0, fun _ _ => rfl⟩

variable (m : Memory β)

def push (b : β) : Memory β where
  heap := Function.update m.heap m.next (some b)
  next := m.next + 1
  fresh := by
    intro a later
    rw [Function.update_of_ne (by omega)]
    exact m.fresh a (by omega)

def drop (a : Nat) : Memory β where
  heap := Function.update m.heap a none
  next := m.next
  fresh := by
    intro x later
    by_cases here : x = a
    · simp [here]
    · rw [Function.update_of_ne here]
      exact m.fresh x later

/-- The block at this address gets a new content. -/
def write (a : Nat) (b : β) (here : m.heap a ≠ none) : Memory β where
  heap := Function.update m.heap a (some b)
  next := m.next
  fresh := by
    intro x later
    have other : x ≠ a := by
      rintro rfl
      exact here (m.fresh x later)
    rw [Function.update_of_ne other]
    exact m.fresh x later

end Memory

/-- A new block is apart from the others. -/
theorem Memory.push_owned {m : Memory β} {P : Assertion β} (holds : P m.heap) (b : β) :
    (Assertion.pointsTo m.next b * P) (m.push b).heap :=
  Assertion.pointsTo_fresh (m.fresh m.next le_rfl) holds

/-- A program has no result when it uses an address without a block. -/
def Program (β α : Type) := Memory β → Option (α × Memory β)

namespace Program

variable {α γ : Type}

instance : Monad (Program β) where
  pure x := fun m => some (x, m)
  bind c k := fun m => (c m).bind fun r => k r.1 r.2

def fault : Program β α := fun _ => none

/-- A value that is missing is a fault. -/
def get (x : Option α) : Program β α := fun m => x.map fun x => (x, m)

/-- A call for memory finds it or not. -/
def malloc (found : Bool) (b : β) : Program β (Option Nat) := fun m =>
  if found then some (some m.next, m.push b) else some (none, m)

def load (p : Option Nat) : Program β β := fun m => (p.bind m.heap).map fun b => (b, m)

def store (p : Option Nat) (b : β) : Program β Unit := fun m =>
  match p with
  | none => none
  | some a => if here : m.heap a = none then none else some ((), m.write a b here)

def free (p : Option Nat) : Program β Unit := fun m =>
  match p with
  | none => some ((), m)
  | some a => if m.heap a = none then none else some ((), m.drop a)

/-- A block that grows moves to a new address. -/
def realloc (found : Bool) (p : Option Nat) (grow : Option β → β) : Program β (Option Nat) :=
  match p with
  | none => malloc found (grow none)
  | some _ => do
      let b ← load p
      match ← malloc found (grow (some b)) with
      | none => pure none
      | some q => do
          free p
          pure (some q)

theorem bind_assoc {δ : Type} (c : Program β α) (k : α → Program β γ) (k' : γ → Program β δ) :
    c >>= k >>= k' = c >>= fun x => k x >>= k' := by
  funext m
  exact Option.bind_assoc _ _ _

/-- The body runs until it has a result. -/
def repeatUntil {σ : Type} (body : σ → Program β (σ ⊕ α)) : Nat → σ → Program β α
  | 0, _ => fault
  | fuel + 1, s => do
      match ← body s with
      | .inl s => repeatUntil body fuel s
      | .inr r => pure r

end Program

/-- From every memory with a part for `P` the program ends, and it leaves the other parts as they are. -/
def Triple {α : Type} (P : Assertion β) (c : Program β α) (Q : α → Assertion β) : Prop :=
  ∀ (F : Assertion β) (m : Memory β), (P * F) m.heap → ∃ r m', c m = some (r, m') ∧ (Q r * F) m'.heap

namespace Triple

open Assertion Program

variable {α γ : Type} {P P' R : Assertion β} {Q Q' : α → Assertion β} {c : Program β α}

theorem frame (triple : Triple P c Q) (R : Assertion β) : Triple (P * R) c fun r => Q r * R := by
  intro F m holds
  rw [mul_assoc] at holds
  obtain ⟨r, m', ran, result⟩ := triple (R * F) m holds
  exact ⟨r, m', ran, by rwa [mul_assoc]⟩

theorem mono (triple : Triple P c Q) (stronger : P' ≤ P) (weaker : ∀ r, Q r ≤ Q' r) : Triple P' c Q' := by
  intro F m holds
  obtain ⟨r, m', ran, result⟩ := triple F m (star_mono stronger le_rfl _ holds)
  exact ⟨r, m', ran, star_mono (weaker r) le_rfl _ result⟩

theorem pure {x : α} : Triple (Q x) (Pure.pure x) Q := fun _ m holds => ⟨x, m, rfl, holds⟩

theorem bind {k : α → Program β γ} {R : γ → Assertion β} (first : Triple P c Q) (second : ∀ r, Triple (Q r) (k r) R) :
    Triple P (c >>= k) R := by
  intro F m holds
  obtain ⟨r, m', ran, middle⟩ := first F m holds
  obtain ⟨r', m'', ran', last⟩ := second r F m' middle
  refine ⟨r', m'', ?_, last⟩
  change (c m).bind _ = _
  rw [ran]
  exact ran'

theorem any {ι : Sort*} {P : ι → Assertion β} (each : ∀ i, Triple (P i) c Q) : Triple (Assertion.any P) c Q := by
  intro F m holds
  rw [any_star] at holds
  obtain ⟨i, holds⟩ := holds
  exact each i F m holds

theorem fact {φ : Prop} (given : φ → Triple P c Q) : Triple (Assertion.fact φ * P) c Q := by
  intro F m holds
  rw [mul_assoc, fact_star] at holds
  exact given holds.1 F m holds.2

/-- From a memory that the assertion describes whole, the program ends in a memory that is described whole. -/
theorem whole {m : Memory β} (triple : Triple P c Q) (holds : P m.heap) : ∃ r m', c m = some (r, m') ∧ Q r m'.heap := by
  obtain ⟨r, m', ran, result⟩ := triple 1 m (by rwa [mul_one])
  exact ⟨r, m', ran, by rwa [mul_one] at result⟩

/-- The parts may be given in another order. -/
theorem order (same : P = P') (triple : Triple P' c Q) : Triple P c Q := same ▸ triple

/-- A block is not at an address of a part with other blocks. -/
theorem distinct {a : Nat} {b : β} {D D' : Assertion β} (fixed : Fixed D) (below : D' ≤ D)
    (triple : (∀ h, D h → h a = none) → Triple (pointsTo a b * (D' * P)) c Q) :
    Triple (pointsTo a b * (D' * P)) c Q := by
  intro F m holds
  apply triple _ F m holds
  intro h whole
  rw [mul_assoc] at holds
  obtain ⟨own, other, apart, -, rfl, others⟩ := holds
  rw [mul_assoc] at others
  obtain ⟨own', other', -, rfl, part, -⟩ := others
  have absent : own' a = none := by
    have away := (apart a).resolve_left (by simp [Heap.single])
    rw [Heap.join, Option.or_eq_none_iff] at away
    exact away.1
  exact fixed own' h (below own' part) whole a absent

/-- A returned value meets what is left to show. -/
theorem ret {x : α} (met : P ≤ Q x) : Triple P (Pure.pure x) Q := fun _ m holds =>
  ⟨x, m, rfl, star_mono met le_rfl _ holds⟩

/-- A call changes its own part, and the program goes on with all parts. -/
theorem call {k : α → Program β γ} {S : γ → Assertion β} (triple : Triple P c Q)
    (rest : ∀ r, Triple (Q r * R) (k r) S) : Triple (P * R) (c >>= k) S :=
  (triple.frame R).bind rest

section Then

variable {a : Nat} {b b' : β}

theorem pure_then {x : α} {k : α → Program β γ} {S : γ → Assertion β} (rest : Triple P (k x) S) :
    Triple P (Pure.pure x >>= k) S :=
  fun F m holds => rest F m holds

theorem get_then {x : α} {k : α → Program β γ} {S : γ → Assertion β} (rest : Triple P (k x) S) :
    Triple P (get (some x) >>= k) S :=
  fun F m holds => rest F m holds

theorem malloc_then {found : Bool} {k : Option Nat → Program β γ} {S : γ → Assertion β}
    (missing : found = false → Triple P (k none) S)
    (placed : found = true → ∀ a, Triple (pointsTo a b * P) (k (some a)) S) : Triple P (malloc found b >>= k) S := by
  intro F m holds
  cases found with
  | false => exact missing rfl F m holds
  | true =>
      have new := Memory.push_owned holds b
      rw [← mul_assoc] at new
      exact placed rfl m.next F (m.push b) new

theorem load_then {k : β → Program β γ} {S : γ → Assertion β} (rest : Triple (pointsTo a b * P) (k b) S) :
    Triple (pointsTo a b * P) (load (some a) >>= k) S := by
  intro F m holds
  have here : m.heap a = some b := by
    rw [mul_assoc] at holds
    exact (pointsTo_star.mp holds).1
  have run : (load (some a) >>= k) m = k b m := by
    change (Option.map _ (m.heap a)).bind _ = _
    rw [here]
    rfl
  rw [run]
  exact rest F m holds

theorem store_then {k : Unit → Program β γ} {S : γ → Assertion β} (rest : Triple (pointsTo a b' * P) (k ()) S) :
    Triple (pointsTo a b * P) (store (some a) b' >>= k) S := by
  intro F m holds
  rw [mul_assoc] at holds
  have here : m.heap a ≠ none := by
    rw [(pointsTo_star.mp holds).1]
    exact Option.some_ne_none b
  have run : (store (some a) b' >>= k) m = k () (m.write a b' here) := by
    change (dite _ _ _ : Option _).bind _ = _
    rw [dif_neg here]
    rfl
  rw [run]
  apply rest F
  rw [mul_assoc]
  exact pointsTo_update holds

/-- A block is freed, and its owner has nothing left. -/
theorem free : Triple (pointsTo a b) (Program.free (some a)) fun _ => 1 := by
  intro F m holds
  obtain ⟨here, others⟩ := pointsTo_star.mp holds
  refine ⟨(), m.drop a, ?_, by rwa [one_mul]⟩
  change ite _ _ _ = _
  rw [if_neg (by simp [here])]

theorem free_then {k : Unit → Program β γ} {S : γ → Assertion β} (rest : Triple P (k ()) S) :
    Triple (pointsTo a b * P) (Program.free (some a) >>= k) S :=
  call free fun _ => by rwa [one_mul]

theorem realloc_then {found : Bool} {grow : Option β → β} {k : Option Nat → Program β γ} {S : γ → Assertion β}
    (missing : found = false → Triple (pointsTo a b * P) (k none) S)
    (moved : found = true → ∀ a', Triple (pointsTo a' (grow (some b)) * P) (k (some a')) S) :
    Triple (pointsTo a b * P) (realloc found (some a) grow >>= k) S := by
  rw [realloc, bind_assoc]
  apply load_then
  rw [bind_assoc]
  apply malloc_then
  · exact missing
  · intro enough a'
    rw [bind_assoc, mul_left_comm]
    apply free_then
    exact moved enough a'

end Then

/-- A loop keeps its invariant, and each round comes nearer to its end. -/
theorem repeatUntil {σ : Type} {body : σ → Program β (σ ⊕ α)} {I : σ → Assertion β} (left : σ → Nat)
    (round : ∀ s, Triple (I s) (body s) (Sum.elim (fun s' => Assertion.fact (left s' < left s) * I s') Q))
    {fuel : Nat} {s : σ} (enough : left s < fuel) :
    Triple (I s) (Program.repeatUntil body fuel s) Q := by
  induction fuel generalizing s with
  | zero => omega
  | succ fuel ih =>
      refine (round s).bind fun r => ?_
      cases r with
      | inl s' => exact fact fun nearer => ih (by omega)
      | inr r => exact pure

/-- A loop on the memory that goes with a loop on values, round by round, ends with the result of the other. -/
theorem repeatUntil_loop {σ τ ρ : Type} {body : σ → Program β (σ ⊕ α)} {step : τ → τ ⊕ ρ} {I : σ → τ → Assertion β}
    {result : ρ} (round : ∀ s v, (∀ r, step v = .inr r → r = result) →
      Triple (I s v) (body s)
        (Sum.elim (fun s' => Assertion.any fun v' => Assertion.fact (step v = .inl v') * I s' v') Q))
    {fuel : Nat} {s : σ} {v : τ} (returns : Loop.loop step fuel v = some result) :
    Triple (I s v) (Program.repeatUntil body fuel s) Q := by
  induction fuel generalizing s v with
  | zero => simp [Loop.loop] at returns
  | succ fuel ih =>
      have last : ∀ r, step v = .inr r → r = result := by
        intro r stops
        rw [Loop.loop, stops] at returns
        exact Option.some.inj returns
      refine (round s v last).bind fun r => ?_
      cases r with
      | inl s' =>
          refine any fun v' => fact fun goesOn => ih ?_
          rwa [Loop.loop, goesOn] at returns
      | inr r => exact pure

end Triple

/-- From every memory with this assertion the program faults. -/
def Faults {α : Type} (P : Assertion β) (c : Program β α) : Prop := ∀ m, P m.heap → c m = none

namespace Faults

open Assertion Program

variable {α γ : Type} {P : Assertion β} {Q : α → Assertion β} {c : Program β α} {k : α → Program β γ}

theorem first (faults : Faults P c) : Faults P (c >>= k) := by
  intro m holds
  change (c m).bind _ = none
  rw [faults m holds]
  rfl

theorem later (triple : Triple P c Q) (faults : ∀ r, Faults (Q r) (k r)) : Faults P (c >>= k) := by
  intro m holds
  obtain ⟨r, m', ran, result⟩ := triple 1 m (by rwa [mul_one])
  rw [mul_one] at result
  change (c m).bind _ = none
  rw [ran]
  exact faults r m' result

theorem load {a : Nat} (missing : ∀ h, P h → h a = none) : Faults P (Program.load (some a)) := by
  intro m holds
  change Option.map _ (m.heap a) = none
  rw [missing m.heap holds]
  rfl

end Faults

end Ownership
