import Supervisord.Go.Range

/-!
# Maps of sets

A set is a map to `true`.  A map of sets relates keys to elements; `Has` is this relation, and the
lemmas say what adding and deleting do to it.
-/

namespace Go

/-- A map of sets. -/
abbrev Multimap (κ ι : Type) := Map κ (Map ι Bool)

namespace Multimap

variable {κ ι : Type} [DecidableEq κ] {m : Multimap κ ι} {ks : List κ} {k k' : κ} {i i' : ι}

/-- The set of a key has an element. -/
def Has (m : Multimap κ ι) (k : κ) (i : ι) : Prop := ∃ s, m.lookup k = some s ∧ i ∈ s

/-- Add an element to the set of a key, which is made where there is none. -/
def add [DecidableEq ι] (m : Multimap κ ι) (k : κ) (i : ι) : Multimap κ ι :=
  m.insert k (((m.lookup k).getD ∅).insert i true)

/-- Delete an element from the set of a key. -/
def drop [DecidableEq ι] (m : Multimap κ ι) (k : κ) (i : ι) : Multimap κ ι :=
  match m.lookup k with
  | some s => m.insert k (s.erase i)
  | none => m

theorem has_empty : ¬Has (∅ : Multimap κ ι) k i := by
  rintro ⟨s, hs, -⟩
  rw [AList.lookup_empty] at hs
  cases hs

theorem Has.mem (h : Has m k i) : k ∈ m := by
  obtain ⟨s, hs, -⟩ := h
  rw [← AList.lookup_isSome, hs]
  rfl

variable [DecidableEq ι]

theorem has_add : Has (add m k i) k' i' ↔ k' = k ∧ i' = i ∨ Has m k' i' := by
  by_cases hk : k' = k
  · subst hk
    unfold Has add
    rw [AList.lookup_insert]
    cases m.lookup k' with
    | none => simp [AList.mem_keys]
    | some s => simp [AList.mem_insert]
  · unfold Has add
    rw [AList.lookup_insert_ne hk]
    simp [hk]

theorem has_drop : Has (drop m k i) k' i' ↔ Has m k' i' ∧ ¬(k' = k ∧ i' = i) := by
  by_cases hk : k' = k
  · subst hk
    unfold drop Has
    cases hm : m.lookup k' with
    | none => simp [hm]
    | some s => simp [AList.lookup_insert, AList.mem_erase, and_comm]
  · unfold drop Has
    split
    · rw [AList.lookup_insert_ne hk]
      simp [hk]
    · simp [hk]

theorem has_foldl_add : Has (ks.foldl (fun m k ↦ add m k i) m) k' i' ↔
    k' ∈ ks ∧ i' = i ∨ Has m k' i' := by
  induction ks generalizing m with
  | nil => simp
  | cons k ks ih =>
      rw [List.foldl_cons, ih, has_add, List.mem_cons]
      tauto

theorem has_foldl_drop : Has (ks.foldl (fun m k ↦ drop m k i) m) k' i' ↔
    Has m k' i' ∧ ¬(k' ∈ ks ∧ i' = i) := by
  induction ks generalizing m with
  | nil => simp
  | cons k ks ih =>
      rw [List.foldl_cons, ih, has_drop, List.mem_cons]
      tauto

end Multimap

end Go
