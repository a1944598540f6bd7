import Mathlib.Data.Int.Order.Basic
import Mathlib.Data.List.Basic
import Mathlib.Order.Basic

/-!
# Watching a value

What is looked at from time to time, and compared with what it was at the last look, is seen to
change at each look that finds another value.  `changes` are these looks.  A value that only grows
has at most as many changes as it grows by, and as many if no value is left out.
-/

universe u v w

namespace Watch

variable {α : Type u} {β : Type v} {γ : Type w} [DecidableEq β] [DecidableEq γ] {f : α → β}
  {g : α → γ} {v : β} {u : γ} {l : List α}

/-- The looks at which the value is another one than before. -/
def changes (f : α → β) : β → List α → List α
  | _, [] => []
  | v, a :: l => if v = f a then changes f v l else a :: changes f (f a) l

theorem changes_cons_of_eq {a : α} (h : v = f a) : changes f v (a :: l) = changes f v l := if_pos h

theorem changes_cons_of_ne {a : α} (h : v ≠ f a) :
    changes f v (a :: l) = a :: changes f (f a) l :=
  if_neg h

/-- No change of what is known from the value is seen but where the value changes. -/
theorem changes_sublist_of_imp (h : ∀ a b, f a = f b → g a = g b) {a : α} (l : List α) :
    (changes g (g a) l).Sublist (changes f (f a) l) := by
  induction l generalizing a with
  | nil => exact .refl []
  | cons b l ih =>
      by_cases hf : f a = f b
      · rw [changes_cons_of_eq hf, changes_cons_of_eq (h a b hf)]
        exact ih
      · rw [changes_cons_of_ne hf]
        by_cases hg : g a = g b
        · rw [changes_cons_of_eq hg, hg]
          exact ih.cons b
        · rw [changes_cons_of_ne hg]
          exact ih.cons_cons b

/-! ## A value that grows -/

/-- No value is seen twice. -/
theorem isChain_changes [PartialOrder β] (h : (v :: l.map f).IsChain (· ≤ ·)) :
    (v :: (changes f v l).map f).IsChain (· < ·) := by
  induction l generalizing v with
  | nil => exact .singleton v
  | cons a l ih =>
      obtain ⟨hle, h⟩ := List.isChain_cons_cons.mp h
      by_cases hv : v = f a
      · rw [changes_cons_of_eq hv]
        exact ih (hv ▸ h)
      · rw [changes_cons_of_ne hv]
        exact .cons_cons (lt_of_le_of_ne hle hv) (ih h)

variable {f : α → Int} {v : Int}

/-- How many changes there are of a number that grows. -/
theorem length_changes (h : (v :: l.map f).IsChain (· ≤ ·)) :
    (changes f v l).length ≤ (l.map f).getLastD v - v ∧
      ((changes f v l).length = (l.map f).getLastD v - v ↔
        (v :: l.map f).IsChain fun a b ↦ b ≤ a + 1) := by
  induction l generalizing v with
  | nil => simp [changes]
  | cons a l ih =>
      obtain ⟨hle, h⟩ := List.isChain_cons_cons.mp h
      obtain ⟨hlen, heq⟩ := ih h
      rw [List.map_cons, List.getLastD_cons, List.isChain_cons_cons, ← heq]
      by_cases hv : v = f a
      · rw [changes_cons_of_eq hv, hv]
        refine ⟨hlen, (and_iff_right ?_).symm⟩
        omega
      · rw [changes_cons_of_ne hv, List.length_cons]
        push_cast
        omega

end Watch
