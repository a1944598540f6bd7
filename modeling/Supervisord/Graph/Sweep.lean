import Mathlib.Data.Fintype.Card
import Mathlib.Data.Set.Finite.Basic
import Mathlib.Logic.Relation
import Mathlib.Order.WellFounded

/-!
# Ordering a graph by sweeps

A list is `Topological` when each element comes after everything it depends on.  Such an order
is found by sweeping over the elements, in any order, again and again, each time taking those
whose dependencies have all been taken.  Every sweep takes at least one element as long as the
dependencies are `Acyclic` and something is left (`length_lt_sweep`), whatever the order of the
sweep is, so that `sweeps` comes to an end; and an order that contains every element that
depends on something shows that there was no cycle (`Topological.acyclic`).
-/

universe u

namespace Sweep

variable {κ : Type u} {r : κ → κ → Prop} {l : List κ} {a : κ}

/-! ## Orders -/

/-- Nothing depends on itself, directly or through others. -/
def Acyclic (r : κ → κ → Prop) : Prop := ∀ a, ¬ Relation.TransGen r a a

/-- Every element comes after all it depends on. -/
def Topological (r : κ → κ → Prop) (l : List κ) : Prop :=
  ∀ l₁ a l₂, l = l₁ ++ a :: l₂ → ∀ b, r a b → b ∈ l₁

theorem Acyclic.mono {r' : κ → κ → Prop} (h : ∀ a b, r' a b → r a b) (hr : Acyclic r) :
    Acyclic r' :=
  fun a ha ↦ hr a (Relation.TransGen.mono h a a ha)

theorem topological_of_forall (h : ∀ a ∈ l, ∀ b, ¬ r a b) : Topological r l := by
  rintro l₁ a l₂ rfl b hb
  exact absurd hb (h a (List.mem_append_right _ List.mem_cons_self) b)

theorem Topological.append {l' : List κ} (hl : Topological r l)
    (hl' : ∀ a ∈ l', ∀ b, r a b → b ∈ l) : Topological r (l ++ l') := by
  intro l₁ a l₂ h b hb
  rcases List.append_eq_append_iff.mp h with ⟨m, rfl, hm⟩ | ⟨m, rfl, hm⟩
  · -- `a` lies in `l'`
    have ha : a ∈ l' := hm ▸ List.mem_append_right _ List.mem_cons_self
    exact List.mem_append_left _ (hl' a ha b hb)
  · cases m with
    | nil =>
        rw [List.nil_append] at hm
        have ha : a ∈ l' := hm ▸ List.mem_cons_self
        simpa using hl' a ha b hb
    | cons x m =>
        rw [List.cons_append, List.cons.injEq] at hm
        obtain ⟨rfl, rfl⟩ := hm
        exact hl l₁ a m rfl b hb

theorem Topological.concat (hl : Topological r l) (ha : ∀ b, r a b → b ∈ l) :
    Topological r (l ++ [a]) := by
  refine hl.append fun x hx ↦ ?_
  obtain rfl := List.mem_singleton.mp hx
  exact ha

theorem Topological.of_append {l' : List κ} (h : Topological r (l ++ l')) : Topological r l := by
  rintro l₁ a l₂ rfl b hb
  exact h l₁ a (l₂ ++ l') (by simp) b hb

/-- Elements that stand for others can be put in the order of these. -/
theorem Topological.flatMap {α : Type u} {r' : α → α → Prop} {f : κ → List α}
    (hl : Topological r l) (h : ∀ a ∈ l, ∀ x ∈ f a, ∀ y, r' x y → ∃ b, r a b ∧ y ∈ f b) :
    Topological r' (l.flatMap f) := by
  induction l using List.reverseRecOn with
  | nil => exact topological_of_forall fun _ hx ↦ by cases hx
  | append_singleton l a ih =>
      have hinit : Topological r' (l.flatMap f) :=
        ih hl.of_append fun b hb ↦ h b (List.mem_append_left _ hb)
      rw [List.flatMap_append, List.flatMap_singleton]
      refine hinit.append fun x hx y hxy ↦ ?_
      obtain ⟨b, hab, hy⟩ := h a (List.mem_append_right _ List.mem_cons_self) x hx y hxy
      exact List.mem_flatMap.mpr ⟨b, hl l a [] rfl b hab, hy⟩

/-- A dependency of an element is the earlier one of the two. -/
theorem Topological.idxOf_lt [DecidableEq κ] (hl : Topological r l) (ha : a ∈ l) {b : κ}
    (hb : r a b) : l.idxOf b < l.idxOf a := by
  obtain ⟨l₁, l₂, rfl, ha₁⟩ := List.eq_append_cons_of_mem ha
  have hb₁ : b ∈ l₁ := hl l₁ a l₂ rfl b hb
  rw [List.idxOf_append_of_mem hb₁, List.idxOf_append_of_notMem ha₁, List.idxOf_cons_self]
  exact Nat.lt_of_lt_of_le (List.idxOf_lt_length_of_mem hb₁) (Nat.le_add_right _ _)

/-- Where all that depends on something can be ordered, there is no cycle. -/
theorem Topological.acyclic [DecidableEq κ] (hl : Topological r l)
    (hr : ∀ a b, r a b → a ∈ l) : Acyclic r := by
  have lt : ∀ a b, Relation.TransGen r a b → l.idxOf b < l.idxOf a := by
    intro a b hab
    induction hab with
    | single hb => exact hl.idxOf_lt (hr _ _ hb) hb
    | tail _ hc ih => exact Nat.lt_trans (hl.idxOf_lt (hr _ _ hc) hc) ih
  exact fun a ha ↦ Nat.lt_irrefl _ (lt a a ha)

/-- Among the elements of a list that lack a property, one has only dependencies in the list
that have it. -/
theorem Acyclic.exists_minimal (hr : Acyclic r) {p : κ → Prop} (h : ∃ a ∈ l, ¬ p a) :
    ∃ a ∈ l, ¬ p a ∧ ∀ b ∈ l, r a b → p b := by
  classical
  let R : {a // a ∈ l} → {a // a ∈ l} → Prop := fun b a ↦ Relation.TransGen r a b
  have : IsTrans {a // a ∈ l} R := ⟨fun a b c hab hbc ↦ hbc.trans hab⟩
  have : Std.Irrefl R := ⟨fun a ↦ hr a⟩
  have : Finite {a // a ∈ l} := List.finite_toSet l
  have wf : WellFounded R := Finite.wellFounded_of_trans_of_irrefl R
  obtain ⟨a, ha, hpa⟩ := h
  obtain ⟨m, hm, hmin⟩ := wf.has_min {a | ¬ p a} ⟨⟨a, ha⟩, hpa⟩
  refine ⟨m, m.2, hm, fun b hb hab ↦ ?_⟩
  by_contra hpb
  exact hmin ⟨b, hb⟩ hpb (.single hab)

/-! ## Sweeps -/

variable [DecidableEq κ] {deps : κ → List κ} {done ks all : List κ}

/-- Take an element if it has not been taken and its dependencies have. -/
def visit (deps : κ → List κ) (done : List κ) (a : κ) : List κ :=
  if a ∉ done ∧ ∀ b ∈ deps a, b ∈ done then done ++ [a] else done

/-- Visit the elements of a list one after the other. -/
def sweep (deps : κ → List κ) (done ks : List κ) : List κ := ks.foldl (visit deps) done

/-- Sweep until `total` elements are taken.  `ks i` is the order of the `i`-th sweep, and the
number is how often it is looked whether enough of them are. -/
def sweeps (deps : κ → List κ) (ks : Nat → List κ) (total : Nat) :
    Nat → Nat → List κ → Option (List κ)
  | 0, _, _ => none
  | n + 1, i, done =>
    if done.length < total then sweeps deps ks total n (i + 1) (sweep deps done (ks i))
    else some done

/-- What `sweep` keeps of a list of elements taken. -/
structure Taken (deps : κ → List κ) (all done : List κ) : Prop where
  nodup : done.Nodup
  subset : done ⊆ all
  topological : Topological (fun a b ↦ b ∈ deps a) done

theorem Taken.visit (h : Taken deps all done) (ha : a ∈ all) :
    Taken deps all (visit deps done a) := by
  unfold Sweep.visit
  split
  · rename_i hv
    refine ⟨?_, ?_, h.topological.concat hv.2⟩
    · exact List.nodup_append'.mpr ⟨h.nodup, List.nodup_singleton a, by simpa using hv.1⟩
    · exact List.append_subset.mpr ⟨h.subset, by simpa using ha⟩
  · exact h

theorem Taken.sweep (h : Taken deps all done) (hks : ks ⊆ all) :
    Taken deps all (sweep deps done ks) := by
  induction ks generalizing done with
  | nil => exact h
  | cons a ks ih =>
      rw [List.cons_subset] at hks
      exact ih (h.visit hks.1) hks.2

theorem prefix_visit (deps : κ → List κ) (done : List κ) (a : κ) :
    done <+: visit deps done a := by
  unfold visit
  split
  · exact List.prefix_append _ _
  · exact List.prefix_rfl

theorem prefix_sweep (deps : κ → List κ) (done ks : List κ) : done <+: sweep deps done ks := by
  induction ks generalizing done with
  | nil => exact List.prefix_rfl
  | cons a ks ih => exact (prefix_visit deps done a).trans (ih _)

theorem mem_visit (h : ∀ b ∈ deps a, b ∈ done) : a ∈ visit deps done a := by
  by_cases ha : a ∈ done
  · exact (prefix_visit deps done a).subset ha
  · rw [visit, if_pos ⟨ha, h⟩]
    exact List.mem_append_right _ List.mem_cons_self

/-- A sweep takes all that could be taken when it began. -/
theorem mem_sweep (ha : a ∈ ks) (h : ∀ b ∈ deps a, b ∈ done) : a ∈ sweep deps done ks := by
  induction ks generalizing done with
  | nil => cases ha
  | cons x ks ih =>
      rcases List.mem_cons.mp ha with rfl | ha
      · exact (prefix_sweep deps _ ks).subset (mem_visit h)
      · exact ih ha fun b hb ↦ (prefix_visit deps done x).subset (h b hb)

/-- **Progress.**  As long as something is left, a sweep over all of it takes some. -/
theorem length_lt_sweep (hr : Acyclic fun a b ↦ b ∈ deps a)
    (hdeps : ∀ a ∈ ks, deps a ⊆ all) (hks : ∀ a ∈ all, a ∉ done → a ∈ ks)
    (hlt : done.length < all.length) (hall : all.Nodup) :
    done.length < (sweep deps done ks).length := by
  have hex : ∃ a ∈ all, a ∉ done := by
    by_contra hno
    push Not at hno
    exact Nat.not_lt_of_le (hall.subperm hno).length_le hlt
  obtain ⟨a, ha, had, hmin⟩ := hr.exists_minimal hex
  have hak : a ∈ ks := hks a ha had
  have hmem : a ∈ sweep deps done ks :=
    mem_sweep hak fun b hb ↦ hmin b (hdeps a hak hb) hb
  have hpre : done <+: sweep deps done ks := prefix_sweep deps done ks
  refine Nat.lt_of_le_of_ne hpre.length_le fun hlen ↦ had ?_
  rwa [hpre.eq_of_length hlen]

/-- Sweeping comes to an end. -/
theorem exists_sweeps {ks : Nat → List κ} (hr : Acyclic fun a b ↦ b ∈ deps a)
    (hall : all.Nodup) (hsub : ∀ i, ks i ⊆ all) (hdeps : ∀ i, ∀ a ∈ ks i, deps a ⊆ all)
    (hks : ∀ i, ∀ a ∈ all, a ∉ done → a ∈ ks i) (hdone : Taken deps all done) (i : Nat) :
    ∃ n l, sweeps deps ks all.length n i done = some l := by
  induction hk : all.length - done.length using Nat.strong_induction_on generalizing done i with
  | _ k ih =>
      by_cases hlt : done.length < all.length
      · have hpre : done <+: sweep deps done (ks i) := prefix_sweep deps done (ks i)
        have hlt' := length_lt_sweep hr (hdeps i) (hks i) hlt hall
        obtain ⟨n, l, hl⟩ := ih (all.length - (sweep deps done (ks i)).length) (by omega)
          (fun j a ha had ↦ hks j a ha fun h ↦ had (hpre.subset h)) (hdone.sweep (hsub i))
          (i + 1) rfl
        exact ⟨n + 1, l, by rw [sweeps, if_pos hlt, hl]⟩
      · exact ⟨1, done, by rw [sweeps, if_neg hlt]⟩

theorem sweeps_mono {ks : Nat → List κ} {total n m i : Nat}
    (h : sweeps deps ks total n i done = some l) (hnm : n ≤ m) :
    sweeps deps ks total m i done = some l := by
  induction n generalizing m i done with
  | zero => cases h
  | succ n ih =>
      obtain ⟨m, rfl⟩ := Nat.exists_eq_add_of_le' (Nat.lt_of_lt_of_le (Nat.succ_pos n) hnm)
      rw [sweeps] at h ⊢
      split at h
      · rename_i hlt
        rw [if_pos hlt]
        exact ih h (Nat.le_of_succ_le_succ hnm)
      · rename_i hlt
        rwa [if_neg hlt]

theorem prefix_sweeps {ks : Nat → List κ} {total n i : Nat}
    (h : sweeps deps ks total n i done = some l) : done <+: l := by
  induction n generalizing i done with
  | zero => cases h
  | succ n ih =>
      rw [sweeps] at h
      by_cases hlt : done.length < total
      · rw [if_pos hlt] at h
        exact (prefix_sweep deps done (ks i)).trans (ih h)
      · rw [if_neg hlt] at h
        cases h
        exact List.prefix_rfl

/-- What sweeping ends with is all the elements, in an order. -/
theorem Taken.sweeps {ks : Nat → List κ} {n i : Nat} (hdone : Taken deps all done)
    (hsub : ∀ i, ks i ⊆ all) (hl : sweeps deps ks all.length n i done = some l) :
    Taken deps all l ∧ l.Perm all := by
  induction n generalizing i done with
  | zero => cases hl
  | succ n ih =>
      rw [Sweep.sweeps] at hl
      split at hl
      · exact ih (hdone.sweep (hsub i)) hl
      · rename_i hlen
        obtain rfl := Option.some.inj hl
        exact ⟨hdone, (hdone.nodup.subperm hdone.subset).perm_of_length_le (by omega)⟩

end Sweep
