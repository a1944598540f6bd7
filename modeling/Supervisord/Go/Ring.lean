import Mathlib.Algebra.Group.Fin.Basic
import Mathlib.Data.List.DropRight
import Mathlib.Data.List.OfFn

/-!
# Rings

The rings of the package `container/ring`.  A ring has no beginning and no end: a pointer to any
of its elements stands for it, and `nil` for a ring without elements.  A ring buffer is such a ring
as a list of cells: a new item goes into the cell that has been written longest ago, so it holds the
newest items.
-/

universe u

namespace Go

/-- A pointer to an element of a ring that has `last` more of them. -/
structure Ring (α : Type u) where
  last : Nat
  value : Fin (last + 1) → Option α
  here : Fin (last + 1)

namespace Ring

variable {α : Type u}

/-- `New`. -/
def new (α : Type u) (n : Int) : Option (Ring α) :=
  if n ≤ 0 then none else some ⟨(n - 1).toNat, fun _ ↦ none, 0⟩

/-- `Len`. -/
def len : Option (Ring α) → Nat
  | none => 0
  | some r => r.last + 1

/-- `Next`. -/
def next (r : Ring α) : Ring α := { r with here := r.here + 1 }

/-- The value of the element is assigned. -/
def assign (r : Ring α) (x : α) : Ring α :=
  { r with value := Function.update r.value r.here (some x) }

/-- The values for which `Do` calls its function, in this order. -/
def values : Option (Ring α) → List (Option α)
  | none => []
  | some r => List.ofFn fun i ↦ r.value (r.here + i)

theorem new_of_pos {n : Int} (h : 0 < n) :
    new α n = some ⟨(n - 1).toNat, fun _ ↦ none, 0⟩ := if_neg (Int.not_le.mpr h)

theorem length_values (r : Option (Ring α)) : (values r).length = len r := by
  cases r with
  | none => rfl
  | some r => exact List.length_ofFn

theorem values_new (α : Type u) (n : Int) : values (new α n) = List.replicate n.toNat none := by
  rcases Int.lt_or_le 0 n with h | h
  · have hn : (n - 1).toNat + 1 = n.toNat := by omega
    rw [new_of_pos h, ← hn]
    exact List.ofFn_const _ _
  · rw [new, if_pos h, Int.toNat_of_nonpos h]
    rfl

/-- The element becomes the last one. -/
theorem values_assign_next (r : Ring α) (x : α) :
    values (some (r.assign x).next) = (values (some r)).tail ++ [some x] := by
  obtain ⟨last, value, here⟩ := r
  have hlast : here + 1 + Fin.last last = here := by
    rw [add_assoc, add_comm 1, Fin.last_add_one, add_zero]
  have hinner (i : Fin last) : here + 1 + i.castSucc = here + i.succ := by
    rw [add_assoc, add_comm 1, Fin.coeSucc_eq_succ]
  have hne (i : Fin last) : here + i.succ ≠ here := by
    rw [Ne, add_eq_left]
    exact Fin.succ_ne_zero i
  show List.ofFn (fun i : Fin (last + 1) ↦ Function.update value here (some x) (here + 1 + i)) =
    (List.ofFn fun i : Fin (last + 1) ↦ value (here + i)).tail ++ [some x]
  rw [List.ofFn_succ_last, List.ofFn_succ, List.tail_cons, hlast, Function.update_self]
  congr 2
  funext i
  rw [hinner, Function.update_of_ne (hne i)]

end Ring

end Go

/-! ## Ring buffers -/

/-- The cells from the current one on; a cell that has not been written holds nothing. -/
abbrev RingBuffer (α : Type u) := List (Option α)

namespace RingBuffer

variable {α : Type u} {n : Nat}

def new (α : Type u) (n : Nat) : RingBuffer α := List.replicate n none

/-- The current cell is written, and the next one becomes the current one. -/
def put (r : RingBuffer α) (x : α) : RingBuffer α := r.tail ++ [some x]

/-- The ring of `n` cells after these items. -/
def holding (n : Nat) (xs : List α) : RingBuffer α :=
  List.replicate (n - xs.length) none ++ (xs.rtake n).map some

theorem holding_nil : holding n [] = new α n := by
  rw [holding, List.rtake_nil, List.map_nil, List.append_nil]
  rfl

theorem length_holding (n : Nat) (xs : List α) : (holding n xs).length = n := by
  rw [holding, List.length_append, List.length_replicate, List.length_map, List.rtake,
    List.length_drop]
  omega

/-- What has been written is the newest items, in order. -/
theorem filterMap_holding (n : Nat) (xs : List α) :
    (holding n xs).filterMap id = xs.rtake n := by
  rw [holding, List.filterMap_append, List.filterMap_replicate_of_none rfl, List.nil_append,
    List.filterMap_map]
  exact List.filterMap_some

/-- **One item.** -/
theorem put_holding (hn : 0 < n) (xs : List α) (x : α) :
    (holding n xs).put x = holding n (xs ++ [x]) := by
  obtain ⟨n, rfl⟩ := Nat.exists_eq_add_of_lt hn
  rw [Nat.zero_add, put, holding, holding, List.length_append, List.length_singleton,
    List.rtake_concat_succ, List.map_append, ← List.append_assoc, List.map_singleton]
  congr 1
  rcases Nat.lt_or_ge n xs.length with hlt | hle
  · -- every cell has been written
    rw [Nat.sub_eq_zero_of_le hlt, Nat.sub_eq_zero_of_le (Nat.le_succ_of_le hlt),
      List.replicate_zero, List.nil_append, List.nil_append, ← List.map_tail, List.rtake,
      List.rtake, List.tail_drop]
    congr 2
    omega
  · have hall : xs.rtake (n + 1) = xs.rtake n := by
      rw [List.rtake, List.rtake, Nat.sub_eq_zero_of_le hle,
        Nat.sub_eq_zero_of_le (Nat.le_succ_of_le hle)]
    rw [hall, Nat.succ_sub hle, List.replicate_succ, List.cons_append, List.tail_cons,
      Nat.succ_sub_succ]

end RingBuffer
