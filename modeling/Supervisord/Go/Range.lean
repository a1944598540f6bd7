import Mathlib.Data.List.AList
import Mathlib.Data.List.FinRange
import Mathlib.Data.List.Sort
import Supervisord.Go.Strings

/-!
# Iterating over maps

The order in which a `range` statement visits the keys of a map is chosen by the runtime, anew
each time the statement is executed, and so is the order of equal elements in what `sort.Sort`
leaves.  A `Runtime` holds all these choices: each statement executed in the course of a call has
a path of its own, and the runtime has a permutation for every path and every length.  A function
that iterates over a map takes the runtime as a parameter; a statement about every runtime is one
about every order.
-/

universe u

namespace Go

/-- A map. -/
abbrev Map (κ : Type u) (β : Type u) := AList fun _ : κ ↦ β

/-- To delete keys one after the other. -/
theorem lookup_foldl_erase {κ β : Type u} [DecidableEq κ] (m : Map κ β) (l : List κ) (k : κ) :
    (l.foldl (·.erase ·) m).lookup k = if k ∈ l then none else m.lookup k := by
  induction l generalizing m with
  | nil => rfl
  | cons x l ih =>
      rw [List.foldl_cons, ih]
      by_cases hl : k ∈ l
      · rw [if_pos hl, if_pos (List.mem_cons_of_mem x hl)]
      · rw [if_neg hl]
        by_cases hk : k = x
        · subst hk
          rw [if_pos List.mem_cons_self, AList.lookup_erase]
        · rw [if_neg (by simp [hk, hl]), AList.lookup_erase_ne hk]

/-- To copy a map. -/
theorem lookup_foldl_insert {κ β : Type u} [DecidableEq κ] (m : Map κ β) {l : List ((_ : κ) × β)}
    (hl : l.NodupKeys) (k : κ) :
    (l.foldl (fun m e ↦ m.insert e.1 e.2) m).lookup k = (l.dlookup k).or (m.lookup k) := by
  induction l generalizing m with
  | nil => rfl
  | cons e l ih =>
      obtain ⟨hnot, hl⟩ := List.nodupKeys_cons.mp hl
      rw [List.foldl_cons, ih _ hl]
      by_cases hk : k = e.1
      · subst hk
        rw [List.dlookup_eq_none.mpr hnot, AList.lookup_insert, List.dlookup_cons_eq]
        rfl
      · rw [AList.lookup_insert_ne hk, List.dlookup_cons_ne _ _ hk]

/-! ## Pairs -/

section Pairs

variable {α : Type u} {l : List α} {a b : α}

/-- Of two elements of a list, one comes before the other. -/
theorem pair_sublist_or (ha : a ∈ l) (hb : b ∈ l) (hne : a ≠ b) :
    [a, b].Sublist l ∨ [b, a].Sublist l := by
  obtain ⟨s, t, rfl⟩ := List.append_of_mem ha
  rcases List.mem_append.mp hb with hb | hb
  · exact .inr ((List.singleton_sublist.mpr hb).append (List.singleton_sublist.mpr
      List.mem_cons_self))
  · have hbt : b ∈ t := (List.mem_cons.mp hb).resolve_left hne.symm
    exact .inl (((List.singleton_sublist.mpr hbt).cons_cons a).trans
      (List.sublist_append_right s _))

/-- But not the other before it, too. -/
theorem not_pair_sublist (hl : l.Nodup) (h : [a, b].Sublist l) : ¬[b, a].Sublist l := by
  induction l with
  | nil => cases h
  | cons x l ih =>
      obtain ⟨hx, hl⟩ := List.nodup_cons.mp hl
      intro h'
      have hmem {y z : α} (h : [y, z].Sublist (x :: l)) : z ∈ l := by
        cases h with
        | cons _ h => exact h.subset (List.mem_cons_of_mem _ List.mem_cons_self)
        | cons_cons _ h => exact h.subset List.mem_cons_self
      have htail {y z : α} (hy : y ∈ l) (h : [y, z].Sublist (x :: l)) : [y, z].Sublist l := by
        cases h with
        | cons _ h => exact h
        | cons_cons => exact absurd hy hx
      exact ih hl (htail (hmem h') h) (htail (hmem h) h')

end Pairs

/-! ## Loops -/

/-- A loop whose rounds each add to what satisfies a property. -/
theorem foldl_iff {α β : Type u} {P : β → Prop} {Q : α → Prop} {f : β → α → β} {l : List α} {b : β}
    (h : ∀ b a, P (f b a) ↔ P b ∨ Q a) : P (l.foldl f b) ↔ P b ∨ ∃ a ∈ l, Q a := by
  induction l generalizing b with
  | nil => simp
  | cons a l ih =>
      rw [List.foldl_cons, ih, h, or_assoc]
      simp

/-- The choices of the runtime: for the statement at a path, where each of `n` positions is to
be taken from. -/
abbrev Runtime := List Nat → (n : Nat) → Equiv.Perm (Fin n)

namespace Runtime

variable {α : Type u} {rt : Runtime} {l : List α} {a : α}

/-- The choices left to the `i`-th of the statements, calls or rounds of a function. -/
def fork (rt : Runtime) (i : Nat) : Runtime := fun path ↦ rt (i :: path)

/-- The elements in the order in which a `range` statement visits them. -/
def range (rt : Runtime) (l : List α) : List α := List.ofFn (l.get ∘ rt [] l.length)

theorem range_perm (rt : Runtime) (l : List α) : (rt.range l).Perm l := by
  have h : (List.ofFn (l.get ∘ rt [] l.length)).Perm (List.ofFn l.get) :=
    Equiv.Perm.ofFn_comp_perm _ _
  rwa [List.ofFn_get] at h

@[simp]
theorem mem_range : a ∈ rt.range l ↔ a ∈ l := (rt.range_perm l).mem_iff

@[simp]
theorem length_range : (rt.range l).length = l.length := (rt.range_perm l).length_eq

/-- `sort.Sort`: which of two equal elements comes first is left to the runtime. -/
def sort (rt : Runtime) (key : α → Int) (l : List α) : List α :=
  (rt.range l).insertionSort fun a b ↦ key a ≤ key b

theorem sort_perm (rt : Runtime) (key : α → Int) (l : List α) : (rt.sort key l).Perm l :=
  (List.perm_insertionSort _ _).trans (rt.range_perm l)

/-- It sorts. -/
theorem sort_pair {b : α} {key : α → Int} (ha : a ∈ l) (hb : b ∈ l) (hlt : key a < key b) :
    [a, b].Sublist (rt.sort key l) := by
  have hmem {c : α} (hc : c ∈ l) : c ∈ rt.sort key l := (rt.sort_perm key l).mem_iff.mpr hc
  have hne : a ≠ b := fun h ↦ absurd (congrArg key h) (Int.ne_of_lt hlt)
  refine (pair_sublist_or (hmem ha) (hmem hb) hne).resolve_right fun h ↦ ?_
  have : Std.Total fun a b : α ↦ key a ≤ key b := ⟨fun a b ↦ Int.le_total (key a) (key b)⟩
  have : IsTrans α fun a b ↦ key a ≤ key b := ⟨fun _ _ _ ↦ Int.le_trans⟩
  have hle : key b ≤ key a :=
    List.pairwise_iff_forall_sublist.mp (List.pairwise_insertionSort _ (rt.range l)) h
  exact Int.not_le.mpr hlt hle

/-- The runtime that keeps every order as it is. -/
def inOrder : Runtime := fun _ _ ↦ .refl _

/-- The runtime that keeps every order as it is, but reverses the one of the statement at a
path. -/
def reverseAt (path : List Nat) : Runtime := fun path' _ ↦
  if path' = path then Fin.revPerm else .refl _

theorem reverseAt_self (path : List Nat) (n : Nat) : reverseAt path path n = Fin.revPerm :=
  if_pos rfl

theorem reverseAt_of_ne {path path' : List Nat} (h : path' ≠ path) (n : Nat) :
    reverseAt path path' n = .refl _ :=
  if_neg h

theorem range_inOrder (l : List α) : inOrder.range l = l := List.ofFn_get l

theorem range_eq_reverse (h : ∀ n, rt [] n = Fin.revPerm) (l : List α) :
    rt.range l = l.reverse := by
  refine List.ext_getElem (by rw [length_range, List.length_reverse]) fun i _ _ ↦ ?_
  rw [List.getElem_reverse]
  simp only [range, h, List.getElem_ofFn, Function.comp_apply, Fin.revPerm_apply,
    List.get_eq_getElem, Fin.val_rev]
  congr 1
  omega

end Runtime

end Go

/-! ## Sorting by strings

`sort.Slice` and `sort.Sort` where the elements are compared by strings. -/

namespace Go.Runtime

variable {α : Type u} (rt : Runtime) (key : α → Str) (l : List α)

/-- Which of two elements with the same string comes first is left to the runtime. -/
def sortStr : List α := (rt.range l).insertionSort fun a b ↦ key a ≤ key b

theorem sortStr_perm : (rt.sortStr key l).Perm l :=
  (List.perm_insertionSort _ _).trans (rt.range_perm l)

@[simp]
theorem mem_sortStr {rt : Runtime} {key : α → Str} {l : List α} {a : α} :
    a ∈ rt.sortStr key l ↔ a ∈ l :=
  (rt.sortStr_perm key l).mem_iff

theorem pairwise_sortStr : (rt.sortStr key l).Pairwise fun a b ↦ key a ≤ key b := by
  have : Std.Total fun a b : α ↦ key a ≤ key b := ⟨fun a b ↦ List.le_total (key a) (key b)⟩
  have : IsTrans α fun a b ↦ key a ≤ key b := ⟨fun _ _ _ ↦ List.le_trans⟩
  exact List.pairwise_insertionSort _ _

end Go.Runtime
