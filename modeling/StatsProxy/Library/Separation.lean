import Mathlib.Algebra.Group.Defs
import Mathlib.Algebra.Order.Monoid.Defs
import Mathlib.Logic.Function.Basic
import Mathlib.Order.Basic

/-! Commands that work on cells, and what they may touch. An assertion describes a store
exactly; the product of two assertions describes a store that splits into two parts. What
holds of a command on its own cells holds with any other cells beside them, and a command
that accesses a cell which does not exist has no result. -/
namespace StatsProxy.Separation

variable {ℓ χ ν α β : Type}

/-- The cells that exist, with what they hold. -/
abbrev Store (ℓ ν : Type) := ℓ → Option ν

/-- The store consists of two parts that share no cell. -/
def Splits (s a b : Store ℓ ν) : Prop :=
  ∀ l, (a l = none ∧ s l = b l) ∨ (b l = none ∧ s l = a l)

def Assertion (ℓ ν : Type) : Type := Store ℓ ν → Prop

def Assertion.Holds (P : Assertion ℓ ν) (s : Store ℓ ν) : Prop := P s

instance : Mul (Assertion ℓ ν) where
  mul P Q s := ∃ a b, Splits s a b ∧ P a ∧ Q b

/-- No cell exists. -/
instance : One (Assertion ℓ ν) where
  one s := ∀ l, s l = none

/-- This cell exists and no other. -/
def cell (l : ℓ) (v : ν) : Assertion ℓ ν := fun s => s l = some v ∧ ∀ l', l' ≠ l → s l' = none

/-- A fact that needs no cell. -/
def fact (p : Prop) : Assertion ℓ ν := fun s => p ∧ ∀ l, s l = none

/-- One of these assertions holds. -/
def any (P : β → Assertion ℓ ν) : Assertion ℓ ν := fun s => ∃ b, P b s

theorem Splits.symm {s a b : Store ℓ ν} (h : Splits s a b) : Splits s b a :=
  fun l => (h l).symm

/-- Three parts can be taken together the other way. -/
theorem Splits.assoc {s ab a b c : Store ℓ ν} (h : Splits s ab c) (h' : Splits ab a b) :
    ∃ bc, Splits s a bc ∧ Splits bc b c := by
  refine ⟨fun l => (b l).or (c l), fun l => ?_, fun l => ?_⟩
  · dsimp only
    rcases h l with ⟨hab, hs⟩ | ⟨hc, hs⟩
    · rcases h' l with ⟨ha, hb⟩ | ⟨hb, ha⟩
      · exact Or.inl ⟨ha, by rw [hs, ← hb, hab, Option.none_or]⟩
      · exact Or.inl ⟨by rw [← ha, hab], by rw [hs, hb, Option.none_or]⟩
    · rw [hc, Option.or_none, hs]
      exact h' l
  · dsimp only
    rcases h l with ⟨hab, -⟩ | ⟨hc, -⟩
    · have hb : b l = none := by
        rcases h' l with ⟨-, hb⟩ | ⟨hb, -⟩
        · rw [← hb, hab]
        · exact hb
      exact Or.inl ⟨hb, by rw [hb, Option.none_or]⟩
    · exact Or.inr ⟨hc, by rw [hc, Option.or_none]⟩

theorem splits_none {s a b : Store ℓ ν} (ha : ∀ l, a l = none) (h : Splits s a b) : s = b := by
  funext l
  rcases h l with ⟨-, hs⟩ | ⟨hb, hs⟩
  · exact hs
  · rw [hs, hb, ha l]

theorem mul_comm' (P Q : Assertion ℓ ν) : P * Q = Q * P := by
  funext s
  apply propext
  constructor
  · rintro ⟨a, b, hs, hp, hq⟩
    exact ⟨b, a, hs.symm, hq, hp⟩
  · rintro ⟨a, b, hs, hp, hq⟩
    exact ⟨b, a, hs.symm, hq, hp⟩

theorem one_mul' (P : Assertion ℓ ν) : 1 * P = P := by
  funext s
  apply propext
  constructor
  · rintro ⟨a, b, hs, ha, hp⟩
    rwa [splits_none ha hs]
  · intro hp
    exact ⟨fun _ => none, s, fun l => Or.inl ⟨rfl, rfl⟩, fun _ => rfl, hp⟩

instance : CommMonoid (Assertion ℓ ν) where
  mul_assoc P Q R := by
    have hleft : ∀ (P Q R : Assertion ℓ ν) (s : Store ℓ ν),
        (P * Q * R).Holds s → (P * (Q * R)).Holds s := by
      rintro P Q R s ⟨ab, c, hs, ⟨a, b, hab, hp, hq⟩, hr⟩
      obtain ⟨bc, hs', hbc⟩ := hs.assoc hab
      exact ⟨a, bc, hs', hp, b, c, hbc, hq, hr⟩
    funext s
    apply propext
    apply Iff.intro (hleft P Q R s)
    intro h
    rw [mul_comm' (P * Q) R, mul_comm' P Q]
    rw [mul_comm' P (Q * R), mul_comm' Q R] at h
    exact hleft R Q P s h
  mul_comm := mul_comm'
  one_mul := one_mul'
  mul_one P := by rw [mul_comm', one_mul']

instance : PartialOrder (Assertion ℓ ν) where
  le P Q := ∀ s, P.Holds s → Q.Holds s
  le_refl P s h := h
  le_trans P Q R hpq hqr s h := hqr s (hpq s h)
  le_antisymm P Q hpq hqp := funext fun s => propext ⟨hpq s, hqp s⟩

instance : IsOrderedMonoid (Assertion ℓ ν) where
  mul_le_mul_left P Q h R := by
    rintro s ⟨a, b, hs, hp, hr⟩
    exact ⟨a, b, hs, h a hp, hr⟩

section

variable {P Q : Assertion ℓ ν} {p : Prop}

theorem fact_mul {s : Store ℓ ν} : (fact p * P).Holds s ↔ p ∧ P.Holds s := by
  constructor
  · rintro ⟨a, b, hs, ⟨hp, ha⟩, h⟩
    refine ⟨hp, ?_⟩
    rwa [splits_none ha hs]
  · rintro ⟨hp, h⟩
    exact ⟨fun _ => none, s, fun l => Or.inl ⟨rfl, rfl⟩, ⟨hp, fun _ => rfl⟩, h⟩

theorem fact_mono {p' : Prop} (h : p → p') : (fact p : Assertion ℓ ν) ≤ fact p' :=
  fun _ hs => ⟨h hs.1, hs.2⟩

theorem le_mul_fact (h : p) : P ≤ P * fact p := by
  intro s hs
  rw [mul_comm]
  exact fact_mul.mpr ⟨h, hs⟩

theorem fact_false : (fact False * P : Assertion ℓ ν) = fact False :=
  funext fun _ => propext ⟨fun h => (fact_mul.mp h).1.elim, fun h => h.1.elim⟩

theorem any_mul {P : β → Assertion ℓ ν} : any P * Q = any fun b => P b * Q := by
  funext s
  apply propext
  constructor
  · rintro ⟨a, b, hs, ⟨x, hp⟩, hq⟩
    exact ⟨x, a, b, hs, hp, hq⟩
  · rintro ⟨x, a, b, hs, hp, hq⟩
    exact ⟨a, b, hs, ⟨x, hp⟩, hq⟩

theorem le_any {P : β → Assertion ℓ ν} (b : β) : P b ≤ any P := fun _ h => ⟨b, h⟩

end

section

variable {l : ℓ} {v w : ν} {P : Assertion ℓ ν} {s : Store ℓ ν}

theorem cell_lookup (h : (cell l v * P).Holds s) : s l = some v := by
  obtain ⟨a, b, hs, hcell, -⟩ := h
  rcases hs l with ⟨ha, -⟩ | ⟨-, hsl⟩
  · rw [hcell.1] at ha
    contradiction
  · rw [hsl, hcell.1]

variable [DecidableEq ℓ]

/-- The parts beside a cell do not have it. -/
theorem cell_erase (h : (cell l v * P).Holds s) : P.Holds (Function.update s l none) := by
  obtain ⟨a, b, hs, hcell, hp⟩ := h
  have heq : Function.update s l none = b := by
    funext l'
    by_cases hl : l' = l
    · subst hl
      rw [Function.update_self]
      rcases hs l' with ⟨ha, -⟩ | ⟨hb, -⟩
      · rw [hcell.1] at ha
        contradiction
      · exact hb.symm
    · rw [Function.update_of_ne hl]
      rcases hs l' with ⟨-, hsl⟩ | ⟨hb, hsl⟩
      · exact hsl
      · rw [hsl, hcell.2 l' hl, hb]
  rwa [heq]

theorem cell_create (h : P.Holds s) (hl : s l = none) :
    (cell l v * P).Holds (Function.update s l (some v)) := by
  refine ⟨Function.update (fun _ => none) l (some v), s, ?_, ?_, h⟩
  · intro l'
    by_cases hne : l' = l
    · subst hne
      exact Or.inr ⟨hl, by rw [Function.update_self, Function.update_self]⟩
    · exact Or.inl ⟨by rw [Function.update_of_ne hne], by rw [Function.update_of_ne hne]⟩
  · exact ⟨Function.update_self .., fun l' hne => Function.update_of_ne hne ..⟩

theorem cell_update (h : (cell l v * P).Holds s) :
    (cell l w * P).Holds (Function.update s l (some w)) := by
  have hcreate := cell_create (v := w) (cell_erase h) (Function.update_self l none s)
  rwa [Function.update_idem] at hcreate

end

/-- A variable, or a block of the heap. -/
inductive Address (χ : Type) where
  | static (q : χ)
  | block (n : Nat)
deriving DecidableEq

/-- Blocks are numbered as they are allocated, and no number is used again. -/
structure Memory (χ ν : Type) where
  store : Store (Address χ) ν
  fresh : Nat
  dead : ∀ n, fresh ≤ n → store (.block n) = none

abbrev Command (χ ν α : Type) := StateT (Memory χ ν) Option α

section

variable [DecidableEq χ]

/-- A cell that exists holds another value, or none exists any more. -/
def Memory.set (m : Memory χ ν) (a : Address χ) (v : Option ν) (ha : (m.store a).isSome) :
    Memory χ ν where
  store := Function.update m.store a v
  fresh := m.fresh
  dead n hn := by
    have hne : Address.block n ≠ a := by
      rintro rfl
      rw [m.dead n hn] at ha
      contradiction
    rw [Function.update_of_ne hne, m.dead n hn]

def read (a : Address χ) : Command χ ν ν := fun m => (m.store a).map (·, m)

def write (a : Address χ) (v : ν) : Command χ ν Unit := fun m =>
  if ha : (m.store a).isSome then some ((), m.set a (some v) ha) else none

/-- The next block. -/
def Memory.extend (m : Memory χ ν) (v : ν) : Memory χ ν where
  store := Function.update m.store (.block m.fresh) (some v)
  fresh := m.fresh + 1
  dead n hn := by
    have hne : n ≠ m.fresh := by omega
    rw [Function.update_of_ne (by simpa using hne), m.dead n (by omega)]

def alloc (v : ν) : Command χ ν Nat := fun m => some (m.fresh, m.extend v)

def free (n : Nat) : Command χ ν Unit := fun m =>
  if hn : (m.store (.block n)).isSome then some ((), m.set (.block n) none hn) else none

end

/-- The command has a result on the cells of `P`, whatever other cells there are, and
leaves those of `Q`. -/
def Triple (P : Assertion (Address χ) ν) (c : Command χ ν α) (Q : α → Assertion (Address χ) ν) :
    Prop :=
  ∀ (m : Memory χ ν) (R : Assertion (Address χ) ν), (P * R).Holds m.store →
    ∃ a m', c m = some (a, m') ∧ (Q a * R).Holds m'.store

section

variable {P P' R : Assertion (Address χ) ν} {Q Q' : α → Assertion (Address χ) ν}
  {S : β → Assertion (Address χ) ν} {c : Command χ ν α} {k : α → Command χ ν β}

theorem Triple.run (h : Triple P c Q) {m : Memory χ ν} (hm : P.Holds m.store) :
    ∃ a m', c m = some (a, m') ∧ (Q a).Holds m'.store := by
  obtain ⟨a, m', hc, hq⟩ := h m 1 (by rwa [mul_one])
  exact ⟨a, m', hc, by rwa [mul_one] at hq⟩

theorem Triple.frame (h : Triple P c Q) (R : Assertion (Address χ) ν) :
    Triple (P * R) c fun a => Q a * R := by
  intro m R' hm
  rw [mul_assoc] at hm
  obtain ⟨a, m', hc, hq⟩ := h m (R * R') hm
  exact ⟨a, m', hc, by rwa [mul_assoc]⟩

theorem Triple.pre (h : Triple P c Q) (hp : P' ≤ P) : Triple P' c Q :=
  fun m R hm => h m R (mul_le_mul_left hp R _ hm)

theorem Triple.post (h : Triple P c Q) (hq : ∀ a, Q a ≤ Q' a) : Triple P c Q' := by
  intro m R hm
  obtain ⟨a, m', hc, hend⟩ := h m R hm
  exact ⟨a, m', hc, mul_le_mul_left (hq a) R _ hend⟩

theorem triple_pure {a : α} (h : P ≤ Q a) : Triple P (pure a) Q :=
  fun m R hm => ⟨a, m, rfl, mul_le_mul_left h R _ hm⟩

theorem triple_bind (h : Triple P c Q) (hk : ∀ a, Triple (Q a) (k a) S) :
    Triple P (c >>= k) S := by
  intro m R hm
  obtain ⟨a, m', hc, hq⟩ := h m R hm
  obtain ⟨b, m'', hk', hend⟩ := hk a m' R hq
  refine ⟨b, m'', ?_, hend⟩
  show (c m).bind _ = _
  rw [hc]
  exact hk'

/-- A call works on its own cells. -/
theorem triple_call (h : Triple P c Q) (hk : ∀ a, Triple (Q a * R) (k a) S) :
    Triple (P * R) (c >>= k) S :=
  triple_bind (h.frame R) hk

theorem triple_any {P : β → Assertion (Address χ) ν} (h : ∀ b, Triple (P b) c Q) :
    Triple (any P) c Q := by
  intro m R hm
  rw [any_mul] at hm
  obtain ⟨b, hb⟩ := hm
  exact h b m R hb

theorem triple_fact {p : Prop} (h : p → Triple P c Q) : Triple (fact p * P) c Q := by
  intro m R hm
  rw [mul_assoc] at hm
  obtain ⟨hp, hm⟩ := fact_mul.mp hm
  exact h hp m R hm

variable [DecidableEq χ] {a : Address χ} {v w : ν}

omit [DecidableEq χ] in
theorem triple_read {k : ν → Command χ ν β} (h : Triple (cell a v * P) (k v) S) :
    Triple (cell a v * P) (read a >>= k) S := by
  intro m R hm
  obtain ⟨b, m', hk, hend⟩ := h m R hm
  rw [mul_assoc] at hm
  refine ⟨b, m', ?_, hend⟩
  show ((m.store a).map (·, m)).bind _ = _
  rw [cell_lookup hm]
  exact hk

theorem triple_write {k : Unit → Command χ ν β} (h : Triple (cell a w * P) (k ()) S) :
    Triple (cell a v * P) (write a w >>= k) S := by
  intro m R hm
  rw [mul_assoc] at hm
  have ha : (m.store a).isSome := by rw [cell_lookup hm]; rfl
  obtain ⟨b, m', hk, hend⟩ := h (m.set a (some w) ha) R (by
    rw [mul_assoc]
    exact cell_update hm)
  refine ⟨b, m', ?_, hend⟩
  show (if ha : (m.store a).isSome then some ((), m.set a (some w) ha) else none).bind _ = _
  rw [dif_pos ha]
  exact hk

theorem triple_alloc {k : Nat → Command χ ν β}
    (h : ∀ n, Triple (cell (.block n) v * P) (k n) S) : Triple P (alloc v >>= k) S := by
  intro m R hm
  obtain ⟨b, m', hk, hend⟩ := h m.fresh (m.extend v) R (by
    rw [mul_assoc]
    exact cell_create hm (m.dead m.fresh (Nat.le_refl _)))
  exact ⟨b, m', hk, hend⟩

theorem triple_free {n : Nat} {k : Unit → Command χ ν β} (h : Triple P (k ()) S) :
    Triple (cell (.block n) v * P) (free n >>= k) S := by
  intro m R hm
  rw [mul_assoc] at hm
  have hn : (m.store (.block n)).isSome := by rw [cell_lookup hm]; rfl
  obtain ⟨b, m', hk, hend⟩ := h (m.set (.block n) none hn) R (cell_erase hm)
  refine ⟨b, m', ?_, hend⟩
  show (if hn : (m.store (.block n)).isSome then
    some ((), m.set (.block n) none hn) else none).bind _ = _
  rw [dif_pos hn]
  exact hk

end

end StatsProxy.Separation
