import Supervisord.Machine.Trace

/-!
# Exact conditions

A property may hold all along a run if and only if each action of the run meets a condition in the
state before it.  `along_iff_meets` is the rule that derives this from single steps, each of them
from a state with the property.
-/

universe u v

namespace Machine

variable {σ : Type u} {α : Type v} {m : Machine σ α} {P : σ → Prop} {ok : σ → α → Prop}
  {as : List α} {a : α} {s s' : σ}

/-- The property holds in all states of the run. -/
def Along (m : Machine σ α) (P : σ → Prop) (as : List α) : Prop :=
  ∀ pre, pre <+: as → ∀ s, m.exec m.init pre = some s → P s

/-- Each action of the run meets the condition in the state before it. -/
def Meets (m : Machine σ α) (ok : σ → α → Prop) (as : List α) : Prop :=
  ∀ pre a, pre ++ [a] <+: as → ∀ s, m.exec m.init pre = some s → ok s a

theorem reachable_of_exec (h : m.exec m.init as = some s) : m.Reachable s :=
  .of_execWhile .init (fun _ _ _ _ ↦ trivial) h

theorem along_nil : m.Along P [] ↔ P m.init := by
  constructor
  · exact fun h ↦ h [] List.nil_prefix _ rfl
  · rintro h pre hpre s hs
    obtain rfl := List.prefix_nil.mp hpre
    cases hs
    exact h

theorem along_concat (h : m.exec m.init (as ++ [a]) = some s') :
    m.Along P (as ++ [a]) ↔ m.Along P as ∧ P s' := by
  constructor
  · intro hP
    exact ⟨fun pre hpre ↦ hP pre (hpre.trans (List.prefix_append as [a])),
      hP _ List.prefix_rfl _ h⟩
  · rintro ⟨hP, hs'⟩ pre hpre s hs
    rcases List.prefix_concat_iff.mp hpre with rfl | hpre
    · rw [h] at hs
      cases hs
      exact hs'
    · exact hP pre hpre s hs

theorem meets_concat (h : m.exec m.init as = some s) :
    m.Meets ok (as ++ [a]) ↔ m.Meets ok as ∧ ok s a := by
  constructor
  · intro hok
    exact ⟨fun pre b hpre ↦ hok pre b (hpre.trans (List.prefix_append as [a])),
      hok as a List.prefix_rfl s h⟩
  · rintro ⟨hok, ha⟩ pre b hpre t ht
    rcases List.prefix_concat_iff.mp hpre with he | hpre
    · obtain ⟨rfl, hb⟩ := List.append_inj' he rfl
      cases hb
      rw [h] at ht
      cases ht
      exact ha
    · exact hok pre b hpre t ht

/-- **The exact rule.**  A property that holds initially, and that a step keeps if and only if it
meets a condition, holds all along a run if and only if all steps of the run meet it. -/
theorem along_iff_meets (hinit : P m.init)
    (hstep : ∀ s a s', m.Reachable s → P s → m.step s a = some s' → (P s' ↔ ok s a))
    (h : m.exec m.init as = some s) : m.Along P as ↔ m.Meets ok as := by
  induction as using List.reverseRecOn generalizing s with
  | nil =>
      refine iff_of_true (along_nil.mpr hinit) fun pre a hpre ↦ ?_
      exact absurd (List.prefix_nil.mp hpre) (List.append_ne_nil_of_right_ne_nil _ (by simp))
  | append_singleton as a ih =>
      obtain ⟨t, ht, hst⟩ := exec_concat.mp h
      rw [along_concat h, meets_concat ht, ← ih ht]
      refine and_congr_right fun hP ↦ ?_
      exact hstep t a s (reachable_of_exec ht) (hP as List.prefix_rfl t ht) hst

end Machine
