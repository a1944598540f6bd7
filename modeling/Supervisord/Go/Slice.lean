import Mathlib.Data.List.Basic

/-!
# Slices

The expression `s[lo:hi]` of strings and slices, which panics where the bounds are not in order.
-/

namespace Go

universe u

variable {α : Type u} {s t : List α} {lo hi : Int}

def slice (s : List α) (lo hi : Int) : Option (List α) :=
  if 0 ≤ lo ∧ lo ≤ hi ∧ hi ≤ s.length then some ((s.take hi.toNat).drop lo.toNat) else none

theorem slice_eq_some_iff : slice s lo hi = some t ↔
    ∃ a b, s = a ++ t ++ b ∧ lo = a.length ∧ hi = a.length + t.length := by
  unfold slice
  constructor
  · intro h
    split at h
    · rename_i hb
      obtain ⟨h0, hle, hlen⟩ := hb
      cases h
      refine ⟨s.take lo.toNat, s.drop hi.toNat, ?_, ?_, ?_⟩
      · have htake : s.take lo.toNat = (s.take hi.toNat).take lo.toNat := by
          rw [List.take_take, Nat.min_eq_left (by omega)]
        rw [htake, List.take_append_drop, List.take_append_drop]
      · rw [List.length_take]
        omega
      · rw [List.length_drop, List.length_take, List.length_take]
        omega
    · cases h
  · rintro ⟨a, b, rfl, rfl, rfl⟩
    rw [if_pos (by simp only [List.length_append]; omega)]
    have ht : (a ++ t ++ b).take (a ++ t).length = a ++ t := List.take_left
    rw [← Int.natCast_add, Int.toNat_natCast, Int.toNat_natCast, ← List.length_append, ht,
      List.drop_left]

theorem length_of_slice (h : slice s lo hi = some t) : (t.length : Int) = hi - lo := by
  obtain ⟨a, b, -, rfl, rfl⟩ := slice_eq_some_iff.mp h
  omega

theorem slice_eq_none_iff : slice s lo hi = none ↔ lo < 0 ∨ hi < lo ∨ s.length < hi := by
  unfold slice
  split
  · simp only [reduceCtorEq, false_iff]
    omega
  · simp only [true_iff]
    omega

/-- The expression `s[i:]`. -/
theorem slice_to_end {i : Nat} (h : i ≤ s.length) : slice s i s.length = some (s.drop i) := by
  refine slice_eq_some_iff.mpr ⟨s.take i, [], ?_, ?_, ?_⟩
  · rw [List.take_append_drop, List.append_nil]
  · rw [List.length_take, Nat.min_eq_left h]
  · rw [List.length_take, List.length_drop]
    omega

end Go
