import Mathlib.Order.Defs.LinearOrder

/-!
# Streaks

How many of the latest positions of a sequence are good, counted anew after a marked one.  A
counter that a good position raises and any other sets back to zero is such a number; which
positions it counts is what `Since` states.
-/

namespace Streak

variable {good mark : Nat → Prop} {i j k n : Nat}

/-- The positions from `j` on and before `i` are good and not marked, and none before `j`
belongs to them. -/
structure Since (good mark : Nat → Prop) (j i : Nat) : Prop where
  le : j ≤ i
  inner (k : Nat) : j ≤ k → k < i → good k ∧ ¬mark k
  first : j = 0 ∨ ¬good (j - 1) ∨ mark (j - 1)

/-- No two positions begin the same streak. -/
theorem Since.unique (hj : Since good mark j i) (hk : Since good mark k i) : j = k := by
  have aux : ∀ {j k : Nat}, Since good mark j i → Since good mark k i → ¬j < k := by
    intro j k hj hk hlt
    have hle := hk.le
    obtain h | h | h := hk.first
    · omega
    · exact h (hj.inner (k - 1) (by omega) (by omega)).1
    · exact (hj.inner (k - 1) (by omega) (by omega)).2 h
  exact Nat.le_antisymm (Nat.not_lt.mp (aux hk hj)) (Nat.not_lt.mp (aux hj hk))

variable [DecidablePred good] [DecidablePred mark]

/-- The number of latest positions before `i` that are good, since the last marked one. -/
def length (good mark : Nat → Prop) [DecidablePred good] [DecidablePred mark] : Nat → Nat
  | 0 => 0
  | i + 1 => if good i ∧ ¬mark i then length good mark i + 1 else 0

theorem length_le (good mark : Nat → Prop) [DecidablePred good] [DecidablePred mark] (i : Nat) :
    length good mark i ≤ i := by
  induction i with
  | zero => exact Nat.le_refl 0
  | succ i ih =>
      rw [length]
      split
      · exact Nat.succ_le_succ ih
      · exact Nat.zero_le _

theorem since_length (good mark : Nat → Prop) [DecidablePred good] [DecidablePred mark] (i : Nat) :
    Since good mark (i - length good mark i) i := by
  induction i with
  | zero => exact ⟨Nat.le_refl _, fun k _ hk ↦ absurd hk (Nat.not_lt_zero k), .inl rfl⟩
  | succ i ih =>
      by_cases h : good i ∧ ¬mark i
      · rw [length, if_pos h, Nat.add_sub_add_right]
        refine ⟨Nat.le_succ_of_le ih.le, fun k hj hk ↦ ?_, ih.first⟩
        obtain rfl | hk := Nat.eq_or_lt_of_le (Nat.le_of_lt_succ hk)
        · exact h
        · exact ih.inner k hj hk
      · rw [length, if_neg h]
        refine ⟨Nat.le_refl _, fun k hj hk ↦ absurd hk (Nat.not_lt.mpr hj), .inr ?_⟩
        by_cases hg : good i
        · exact .inr (Classical.not_not.mp fun hm ↦ h ⟨hg, hm⟩)
        · exact .inl hg

theorem Since.length_eq (h : Since good mark j i) : length good mark i = i - j := by
  have heq := h.unique (since_length good mark i)
  have hle := length_le good mark i
  omega

/-- The last `n` positions are good and not marked. -/
theorem le_length_iff : n ≤ length good mark i ↔
    n ≤ i ∧ ∀ k, i ≤ k + n → k < i → good k ∧ ¬mark k := by
  have hs := since_length good mark i
  have hle := length_le good mark i
  constructor
  · intro h
    exact ⟨Nat.le_trans h hle, fun k hk hi ↦ hs.inner k (by omega) hi⟩
  · rintro ⟨hn, h⟩
    by_contra hlt
    obtain hf | hf | hf := hs.first
    · omega
    · exact hf (h (i - length good mark i - 1) (by omega) (by omega)).1
    · exact (h (i - length good mark i - 1) (by omega) (by omega)).2 hf

end Streak
