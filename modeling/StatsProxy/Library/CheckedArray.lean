import Mathlib.Data.List.Infix

/-! Arrays of a fixed size whose accesses are checked. An access outside of the array fails
with its index. -/
namespace StatsProxy.CheckedArray

variable {α : Type} {n : Nat}

def store (array : Vector α n) (i : Nat) (x : α) : Except Nat (Vector α n) :=
  if h : i < n then .ok (array.set i x h) else .error i

def load (array : Vector α n) (i : Nat) : Except Nat α :=
  if h : i < n then .ok array[i] else .error i

/-- The first entries, read one after the other. -/
def loads (array : Vector α n) : Nat → Except Nat (List α)
  | 0 => .ok []
  | count+1 => do
    let entries ← loads array count
    let entry ← load array count
    return entries ++ [entry]

def front (array : Vector α n) (count : Nat) : List α := array.toList.take count

theorem store_ok {i : Nat} (h : i < n) (array : Vector α n) (x : α) :
    store array i x = .ok (array.set i x h) := dif_pos h

theorem load_ok {i : Nat} (h : i < n) (array : Vector α n) :
    load array i = .ok array[i] := dif_pos h

theorem front_length {count : Nat} (h : count ≤ n) (array : Vector α n) :
    (front array count).length = count := by
  rw [front, List.length_take, Vector.length_toList]
  exact Nat.min_eq_left h

theorem front_succ {count : Nat} (h : count < n) (array : Vector α n) :
    front array (count + 1) = front array count ++ [array[count]] := by
  rw [front, List.take_succ_eq_append_getElem (by rwa [Vector.length_toList]), front,
    Vector.getElem_toList]

theorem loads_ok {count : Nat} (h : count ≤ n) (array : Vector α n) :
    loads array count = .ok (front array count) := by
  induction count with
  | zero => rfl
  | succ count ih =>
    rw [loads, ih (Nat.le_of_succ_le h), load_ok h, front_succ h]
    rfl

/-- A write behind the front leaves it as it is. -/
theorem front_set {i : Nat} (h : i < n) (array : Vector α n) (x : α) :
    front (array.set i x h) i = front array i := by
  rw [front, Vector.toList_set, List.take_set_of_le (Nat.le_refl i), front]

theorem front_set_succ {i : Nat} (h : i < n) (array : Vector α n) (x : α) :
    front (array.set i x h) (i + 1) = front array i ++ [x] := by
  rw [front_succ h, front_set, Vector.getElem_set_self]

end StatsProxy.CheckedArray
