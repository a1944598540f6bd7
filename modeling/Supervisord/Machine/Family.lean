import Supervisord.Machine.Basic

/-!
# Machines side by side

A `family` runs one machine for each index, in any interleaving.  The components share nothing,
apart from a broadcast: an action that is `loud` is also heard by all other components, where it
takes the place of an `echo` of their own.

`Reach.component` is the projection: what one component goes through in a run of the family is a
run of its machine, in which the loud actions of the others have become echoes.  What holds in
every run of the machine therefore holds of each component, whatever the others do.
-/

universe u v w

namespace Machine

variable {ι : Type u} {σ : Type v} {α : Type w} [DecidableEq ι] {m : ι → Machine σ α}
  {loud : α → Bool} {echo : α}

/-- A component hears the loud action of another one. -/
def hear (m : Machine σ α) (echo : α) (s : σ) : σ := (m.step s echo).getD s

/-- Machines side by side, an action that is `loud` being heard by all the others as `echo`. -/
def family (m : ι → Machine σ α) (loud : α → Bool) (echo : α) : Machine (ι → σ) (ι × α) where
  init i := (m i).init
  step w x := ((m x.1).step (w x.1) x.2).map fun s ↦
    Function.update (if loud x.2 then fun j ↦ (m j).hear echo (w j) else w) x.1 s

variable {w w' : ι → σ} {i j : ι} {a : α}

theorem family_step_eq_some :
    (family m loud echo).step w (i, a) = some w' ↔ ∃ s, (m i).step (w i) a = some s ∧
      w' = Function.update (if loud a then fun j ↦ (m j).hear echo (w j) else w) i s := by
  simp only [family, Option.map_eq_some_iff]
  exact exists_congr fun s ↦ and_congr_right fun _ ↦ eq_comm

/-- What a step of the family is for a component. -/
inductive ComponentStep (m : Machine σ α) (echo : α) (s s' : σ) : Prop
  | same (h : s' = s)
  | heard (h : m.step s echo = some s')

theorem component_of_ne (h : (family m loud echo).step w (i, a) = some w') (hj : j ≠ i) :
    ComponentStep (m j) echo (w j) (w' j) := by
  obtain ⟨s, -, rfl⟩ := family_step_eq_some.mp h
  rw [Function.update_of_ne hj]
  cases loud a with
  | false => exact .same rfl
  | true =>
      show ComponentStep (m j) echo (w j) ((m j).hear echo (w j))
      unfold hear
      cases hs : (m j).step (w j) echo with
      | none => exact .same rfl
      | some s' => exact .heard hs

/-- **Projection.**  What a component goes through in a run of a family is a run of its machine. -/
theorem Reach.component {ok : (ι → σ) → ι × α → Prop} {ok' : ι → σ → α → Prop}
    (hown : ∀ w i a, ok w (i, a) → ok' i (w i) a) (hecho : ∀ i s, ok' i s echo)
    (hw : (family m loud echo).Reach ok w) (i : ι) : (m i).Reach (ok' i) (w i) := by
  induction hw with
  | init => exact .init
  | @step w x w' _ hok hst ih =>
      obtain ⟨j, a⟩ := x
      by_cases hij : i = j
      · subst hij
        obtain ⟨s, hs, rfl⟩ := family_step_eq_some.mp hst
        rw [Function.update_self]
        exact .step ih (hown _ _ _ hok) hs
      · cases component_of_ne hst hij with
        | same h => exact h ▸ ih
        | heard h => exact .step ih (hecho _ _) h

end Machine
