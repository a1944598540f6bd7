import Mathlib.Algebra.BigOperators.Group.List.Basic
import Mathlib.Algebra.GroupWithZero.Nat
import Mathlib.Data.List.Induction

/-!
# Segments

A log cut into segments.  Items have weights, and the current segment is closed as soon as the
items in it weigh as much as a limit.
-/

universe u

/-- The closed segments, the newest first, and the current one. -/
structure Segments (α : Type u) where
  closed : List (List α) := []
  current : List α := []

namespace Segments

variable {α : Type u} (weight : α → Nat) (limit : Nat)

/-- What a segment weighs. -/
def size (seg : List α) : Nat := (seg.map weight).sum

/-- An item is added to the current segment. -/
def push (s : Segments α) (x : α) : Segments α :=
  if limit ≤ size weight (s.current ++ [x]) then
    { closed := (s.current ++ [x]) :: s.closed }
  else { s with current := s.current ++ [x] }

/-- The segments of a sequence of items. -/
def ofItems (xs : List α) : Segments α := xs.foldl (push weight limit) {}

/-- All items, in order. -/
def items (s : Segments α) : List α := s.closed.reverse.flatten ++ s.current

variable {weight limit}

theorem push_of_le {s : Segments α} {x : α} (h : limit ≤ size weight (s.current ++ [x])) :
    s.push weight limit x = { closed := (s.current ++ [x]) :: s.closed } :=
  if_pos h

theorem push_of_lt {s : Segments α} {x : α} (h : size weight (s.current ++ [x]) < limit) :
    s.push weight limit x = { s with current := s.current ++ [x] } :=
  if_neg (Nat.not_le.mpr h)

theorem ofItems_concat (xs : List α) (x : α) :
    ofItems weight limit (xs ++ [x]) = (ofItems weight limit xs).push weight limit x :=
  List.foldl_append

theorem items_push (s : Segments α) (x : α) : (s.push weight limit x).items = s.items ++ [x] := by
  unfold push
  split
  · simp [items]
  · simp [items]

/-- The items up to the end of the `k`th newest closed segment, and those after it. -/
theorem items_eq (s : Segments α) (k : Nat) : s.items =
    (s.closed.drop k).reverse.flatten ++ ((s.closed.take k).reverse.flatten ++ s.current) := by
  rw [← List.append_assoc, ← List.flatten_append, ← List.reverse_append, List.take_append_drop]
  rfl

/-- A closed segment ends where the newer segments begin. -/
theorem exists_cut (s : Segments α) {i : Nat} (hi : i < s.closed.length) :
    ∃ m ≤ s.items.length, s.closed[i] <:+ s.items.take m ∧
      s.items.drop m = (s.closed.take i).reverse.flatten ++ s.current := by
  have hend : (s.closed.drop i).reverse.flatten =
      (s.closed.drop (i + 1)).reverse.flatten ++ s.closed[i] := by
    rw [List.drop_eq_getElem_cons hi, List.reverse_cons, List.flatten_append,
      List.flatten_singleton]
  refine ⟨(s.closed.drop i).reverse.flatten.length, ?_, ?_, ?_⟩
  · rw [s.items_eq i, List.length_append]
    exact Nat.le_add_right _ _
  · rw [s.items_eq i, List.take_left, hend]
    exact List.suffix_append _ _
  · rw [s.items_eq i, List.drop_left]

/-- **Nothing is lost.** -/
theorem items_ofItems (weight : α → Nat) (limit : Nat) (xs : List α) :
    (ofItems weight limit xs).items = xs := by
  induction xs using List.reverseRecOn with
  | nil => rfl
  | append_singleton xs x ih => rw [ofItems_concat, items_push, ih]

/-- A closed segment has the limit. -/
theorem le_size_of_closed (weight : α → Nat) (limit : Nat) (xs : List α) :
    ∀ seg ∈ (ofItems weight limit xs).closed, limit ≤ size weight seg := by
  induction xs using List.reverseRecOn with
  | nil => exact fun _ h ↦ (nomatch h)
  | append_singleton xs x ih =>
      rw [ofItems_concat]
      unfold push
      split
      · rename_i h
        exact List.forall_mem_cons.mpr ⟨h, ih⟩
      · exact ih

/-- The current segment has not. -/
theorem size_current_lt (weight : α → Nat) (hl : 0 < limit) (xs : List α) :
    size weight (ofItems weight limit xs).current < limit := by
  induction xs using List.reverseRecOn with
  | nil => exact hl
  | append_singleton xs x _ =>
      rw [ofItems_concat]
      unfold push
      split
      · exact hl
      · exact Nat.not_le.mp ‹_›

end Segments
