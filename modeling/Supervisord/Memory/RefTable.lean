import Mathlib.Data.List.AList
import Mathlib.Logic.Function.Basic

/-!
# Tables of references

A `RefTable` is a map from keys to cells of memory, as a program has it that keeps pointers to
mutable values in a map.  Two keys never share a cell, and a cell once handed out keeps its
address, so that a pointer held elsewhere sees the updates.  Read by value (`get`), the table is
a function, and its operations are updates of this function.
-/

universe u v

/-- A map to cells, with the cells in use below `next`. -/
structure RefTable (κ : Type u) (β : Type v) [DecidableEq κ] where
  refs : AList fun _ : κ ↦ Nat
  cells : Nat → β
  next : Nat
  lt_next : ∀ k p, refs.lookup k = some p → p < next
  injective : ∀ k k' p, refs.lookup k = some p → refs.lookup k' = some p → k = k'

namespace RefTable

variable {κ : Type u} {β : Type v} [DecidableEq κ] {t : RefTable κ β} {k k' : κ} {p q : Nat}
  {b : β}

/-- The table without keys. -/
def empty (b : β) : RefTable κ β where
  refs := ∅
  cells _ := b
  next := 0
  lt_next k p h := by cases h
  injective k k' p h := by cases h

/-- The value stored under a key. -/
def get (t : RefTable κ β) (k : κ) : Option β := (t.refs.lookup k).map t.cells

/-- The cell of a key, which is a new one if there is none yet. -/
def create (t : RefTable κ β) (k : κ) (b : β) : RefTable κ β × Nat :=
  match h : t.refs.lookup k with
  | some p => (t, p)
  | none => ({
      refs := t.refs.insert k t.next
      cells := Function.update t.cells t.next b
      next := t.next + 1
      lt_next k' p hp := by
        by_cases hk : k' = k
        · subst hk
          rw [AList.lookup_insert, Option.some.injEq] at hp
          exact hp ▸ Nat.lt_succ_self _
        · rw [AList.lookup_insert_ne hk] at hp
          exact Nat.lt_succ_of_lt (t.lt_next k' p hp)
      injective k₁ k₂ p h₁ h₂ := by
        by_cases hk₁ : k₁ = k <;> by_cases hk₂ : k₂ = k
        · rw [hk₁, hk₂]
        · subst hk₁
          rw [AList.lookup_insert, Option.some.injEq] at h₁
          rw [AList.lookup_insert_ne hk₂] at h₂
          exact absurd (t.lt_next k₂ p h₂) (h₁ ▸ Nat.lt_irrefl _)
        · subst hk₂
          rw [AList.lookup_insert, Option.some.injEq] at h₂
          rw [AList.lookup_insert_ne hk₁] at h₁
          exact absurd (t.lt_next k₁ p h₁) (h₂ ▸ Nat.lt_irrefl _)
        · rw [AList.lookup_insert_ne hk₁] at h₁
          rw [AList.lookup_insert_ne hk₂] at h₂
          exact t.injective k₁ k₂ p h₁ h₂ }, t.next)

/-- Change the value of a cell. -/
def modify (t : RefTable κ β) (p : Nat) (f : β → β) : RefTable κ β :=
  { t with cells := Function.update t.cells p (f (t.cells p)) }

/-- Remove a key. -/
def erase (t : RefTable κ β) (k : κ) : RefTable κ β where
  refs := t.refs.erase k
  cells := t.cells
  next := t.next
  lt_next k' p hp := by
    by_cases hk : k' = k
    · subst hk
      rw [AList.lookup_erase] at hp
      cases hp
    · rw [AList.lookup_erase_ne hk] at hp
      exact t.lt_next k' p hp
  injective k₁ k₂ p h₁ h₂ := by
    by_cases hk₁ : k₁ = k
    · subst hk₁
      rw [AList.lookup_erase] at h₁
      cases h₁
    · by_cases hk₂ : k₂ = k
      · subst hk₂
        rw [AList.lookup_erase] at h₂
        cases h₂
      · rw [AList.lookup_erase_ne hk₁] at h₁
        rw [AList.lookup_erase_ne hk₂] at h₂
        exact t.injective k₁ k₂ p h₁ h₂

/-! ## Keys and cells -/

/-- The cells that the keys of `t` have are the cells that they have in `t'`. -/
def Extends (t t' : RefTable κ β) : Prop :=
  ∀ k p, t.refs.lookup k = some p → t'.refs.lookup k = some p

theorem Extends.refl (t : RefTable κ β) : t.Extends t := fun _ _ h ↦ h

theorem Extends.trans {t₁ t₂ t₃ : RefTable κ β} (h : t₁.Extends t₂) (h' : t₂.Extends t₃) :
    t₁.Extends t₃ :=
  fun k p hp ↦ h' k p (h k p hp)

theorem extends_create (t : RefTable κ β) (k : κ) (b : β) : t.Extends (t.create k b).1 := by
  intro k' p hp
  unfold create
  split
  · exact hp
  · rename_i hk
    have hne : k' ≠ k := fun h ↦ by
      rw [h, hk] at hp
      cases hp
    exact (AList.lookup_insert_ne hne).trans hp

theorem extends_modify (t : RefTable κ β) (p : Nat) (f : β → β) : t.Extends (t.modify p f) :=
  fun _ _ h ↦ h

/-- The cell `create` returns is that of the key. -/
theorem lookup_create : (t.create k b).1.refs.lookup k = some (t.create k b).2 := by
  unfold create
  split
  · assumption
  · exact AList.lookup_insert _

theorem get_eq_some : t.get k = some b ↔ ∃ p, t.refs.lookup k = some p ∧ t.cells p = b :=
  Option.map_eq_some_iff

theorem get_of_lookup (h : t.refs.lookup k = some p) : t.get k = some (t.cells p) := by
  rw [get, h, Option.map_some]

/-! ## The table by value -/

@[simp]
theorem get_empty : (empty b : RefTable κ β).get k = none := rfl

theorem get_create_of_ne (h : k' ≠ k) : (t.create k b).1.get k' = t.get k' := by
  unfold create
  split
  · rfl
  · simp only [get, AList.lookup_insert_ne h]
    cases hp : t.refs.lookup k' with
    | none => rfl
    | some p =>
        have hne : p ≠ t.next := Nat.ne_of_lt (t.lt_next k' p hp)
        simp [Function.update_of_ne hne]

/-- The cell of a key that is not new keeps its value. -/
theorem cells_create : (t.create k b).1.cells (t.create k b).2 = (t.get k).getD b := by
  unfold create get
  split
  · rename_i p hp
    simp [hp]
  · rename_i hp
    simp [hp]

theorem get_modify (h : t.refs.lookup k = some p) (f : β → β) :
    (t.modify p f).get = Function.update t.get k (some (f (t.cells p))) := by
  funext k'
  by_cases hk : k' = k
  · subst hk
    rw [Function.update_self]
    exact (get_of_lookup (t := t.modify p f) h).trans (by simp [modify])
  · rw [Function.update_of_ne hk]
    unfold get modify
    cases hp : t.refs.lookup k' with
    | none => rfl
    | some q =>
        have hne : q ≠ p := fun hq ↦ hk (t.injective k' k p (hq ▸ hp) h)
        simp [Function.update_of_ne hne]

/-- **Writing.**  To create a key and change its cell is an update of the table by value. -/
theorem get_modify_create (f : β → β) :
    ((t.create k b).1.modify (t.create k b).2 f).get =
      Function.update t.get k (some (f ((t.get k).getD b))) := by
  rw [get_modify lookup_create, cells_create]
  funext k'
  by_cases hk : k' = k
  · subst hk
    rw [Function.update_self, Function.update_self]
  · rw [Function.update_of_ne hk, Function.update_of_ne hk, get_create_of_ne hk]

theorem modify_modify (t : RefTable κ β) (p : Nat) (f g : β → β) :
    (t.modify p f).modify p g = t.modify p fun b ↦ g (f b) := by
  simp [modify]

end RefTable
