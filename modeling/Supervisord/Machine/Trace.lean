import Mathlib.Data.List.Induction
import Supervisord.Machine.Basic

/-!
# Traces

The outside sees of a step a list of labels, of a step that is internal none.  The labels of a run,
one after the other, are its trace.  Where the labels are the actions of another machine, that
machine can serve as a specification: `Reach.exec_trace` is the rule that every trace is one of its
runs, and `exec_induction` proves something of all its runs at once.
-/

universe u v w x

namespace Machine

variable {σ : Type u} {α : Type v} {τ : Type w} {β : Type x} {m : Machine σ α}
  {spec : Machine τ β} {seen : σ → α → List β}

/-- The machine run beside its trace, the latest label last. -/
def traced (m : Machine σ α) (seen : σ → α → List β) : Machine (σ × List β) α :=
  m.observe [] fun h s a _ ↦ h ++ seen s a

theorem traced_step_eq_some {w w' : σ × List β} {a : α} :
    (m.traced seen).step w a = some w' ↔
      ∃ s', m.step w.1 a = some s' ∧ w' = (s', w.2 ++ seen w.1 a) :=
  observe_step_eq_some

/-- The invariant rule for a machine and its trace. -/
theorem Reach.traced_invariant {ok : σ × List β → α → Prop} {P : σ → List β → Prop}
    (hinit : P m.init [])
    (hstep : ∀ {s h a s'}, (m.traced seen).Reach ok (s, h) → P s h → ok (s, h) a →
      m.step s a = some s' → P s' (h ++ seen s a))
    {w : σ × List β} (hw : (m.traced seen).Reach ok w) : P w.1 w.2 := by
  refine hw.invariant (P := fun w ↦ P w.1 w.2) hinit ?_
  intro w a w' hr hp hok hst
  obtain ⟨s', hs', rfl⟩ := traced_step_eq_some.mp hst
  exact hstep hr hp hok hs'

/-- **Trace inclusion.**  A machine each of whose steps is, by its labels, a run of the
specification between the states it stands for, has only traces that are runs of the
specification. -/
theorem Reach.exec_trace {ok : σ × List β → α → Prop} {f : σ → τ}
    (hinit : f m.init = spec.init)
    (hstep : ∀ {s h a s'}, (m.traced seen).Reach ok (s, h) → ok (s, h) a →
      m.step s a = some s' → spec.exec (f s) (seen s a) = some (f s'))
    {w : σ × List β} (hw : (m.traced seen).Reach ok w) :
    spec.exec spec.init w.2 = some (f w.1) := by
  refine hw.traced_invariant (P := fun s h ↦ spec.exec spec.init h = some (f s)) ?_ ?_
  · rw [hinit]
    rfl
  · intro s h a s' hr ih hok hst
    rw [exec_append ih]
    exact hstep hr hok hst

theorem exec_append_eq (t : τ) (h l : List β) :
    spec.exec t (h ++ l) = (spec.exec t h).bind fun s ↦ spec.exec s l := by
  induction h generalizing t with
  | nil => rfl
  | cons b h ih =>
      have hcons (l : List β) : spec.exec t (b :: l) =
          (spec.step t b).bind fun s ↦ spec.exec s l := rfl
      rw [List.cons_append, hcons, hcons, Option.bind_assoc]
      exact congrArg _ (funext ih)

theorem exec_concat {t t' : τ} {h : List β} {b : β} :
    spec.exec t (h ++ [b]) = some t' ↔ ∃ s, spec.exec t h = some s ∧ spec.step s b = some t' := by
  have hone (s : τ) : spec.exec s [b] = (spec.step s b).bind some := rfl
  simp [exec_append_eq, hone, Option.bind_eq_some_iff]

theorem exec_of_step {t t' : τ} {b : β} (h : spec.step t b = some t') :
    spec.exec t [b] = some t' := by
  have hone : spec.exec t [b] = (spec.step t b).bind some := rfl
  rw [hone, h, Option.bind_some]

/-- Induction along the runs of a specification, from the first label to the last. -/
theorem exec_induction {P : List β → τ → Prop} (hinit : P [] spec.init)
    (hstep : ∀ h t b t', spec.exec spec.init h = some t → P h t → spec.step t b = some t' →
      P (h ++ [b]) t')
    {h : List β} {t : τ} (he : spec.exec spec.init h = some t) : P h t := by
  induction h using List.reverseRecOn generalizing t with
  | nil => cases he; exact hinit
  | append_singleton h b ih =>
      obtain ⟨s, hs, hst⟩ := exec_concat.mp he
      exact hstep h s b t hs (ih hs) hst

end Machine
