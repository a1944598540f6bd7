import Mathlib.Logic.Function.Basic
import Mathlib.Logic.Relation

/-!
# Machines with executable steps

A `Machine σ α` has an initial state and, for each action a scheduler may pick, a
partial next state.  Nondeterminism lives in the choice of the action alone: `step`
is a function, so that a run can be evaluated, and an interleaving is a list of
actions.

`Reach ok s` collects the states of all runs each of whose steps meets `ok`.  The
unrestricted case is `Reachable`.  Restricting the *steps* and not the states is what
makes a conditional result say "in every run in which the race does not happen";
`Reach.mono` lets the condition grow.

Invariants are proved by `Reach.invariant` (relative to facts already known of every
reachable state), and a concrete run is turned into a reachability fact by
`exists_reachable`, or by `exists_reach` where a condition has to be met on the way.
-/

universe u v w

/-- An initial state and a partial step function indexed by actions. -/
structure Machine (σ : Type u) (α : Type v) where
  /-- The state every run starts from. -/
  init : σ
  /-- The state after an action, `none` where the action is not enabled. -/
  step : σ → α → Option σ

namespace Machine

variable {σ : Type u} {α : Type v} {η : Type w} {m : Machine σ α}
  {ok ok' : σ → α → Prop} {s s' : σ} {a : α}

/-! ## Runs -/

/-- The states reached by runs all of whose steps meet `ok`. -/
inductive Reach (m : Machine σ α) (ok : σ → α → Prop) : σ → Prop
  | init : Reach m ok m.init
  | step {s : σ} {a : α} {s' : σ} :
      Reach m ok s → ok s a → m.step s a = some s' → Reach m ok s'

/-- The states reached by any run. -/
abbrev Reachable (m : Machine σ α) : σ → Prop := m.Reach fun _ _ ↦ True

theorem Reach.mono (h : ∀ s a, ok s a → ok' s a) (hs : m.Reach ok s) : m.Reach ok' s := by
  induction hs with
  | init => exact .init
  | step _ hok hst ih => exact .step ih (h _ _ hok) hst

theorem Reach.reachable (hs : m.Reach ok s) : m.Reachable s := hs.mono fun _ _ _ ↦ trivial

/-- **The invariant rule.**  What holds initially and is preserved by every permitted
step from a state reached by a permitted run holds of every state so reached. -/
theorem Reach.invariant {P : σ → Prop} (hinit : P m.init)
    (hstep : ∀ s a s', m.Reach ok s → P s → ok s a → m.step s a = some s' → P s')
    (hs : m.Reach ok s) : P s := by
  induction hs with
  | init => exact hinit
  | step hr hok hst ih => exact hstep _ _ _ hr ih hok hst

/-! ## Concrete runs -/

/-- Run a list of actions, failing at the first one that is not enabled or not permitted. -/
def execWhile (m : Machine σ α) (perm : σ → α → Bool) : σ → List α → Option σ
  | s, [] => some s
  | s, a :: as => if perm s a then (m.step s a).bind fun s' ↦ execWhile m perm s' as else none

/-- Run a list of actions, failing at the first one that is not enabled. -/
abbrev exec (m : Machine σ α) : σ → List α → Option σ := m.execWhile fun _ _ ↦ true

theorem exec_cons {as : List α} (hst : m.step s a = some s') :
    m.exec s (a :: as) = m.exec s' as := by
  show (m.step s a).bind (fun s' ↦ m.exec s' as) = m.exec s' as
  rw [hst, Option.bind_some]

theorem exec_append {as bs : List α} (ha : m.exec s as = some s') :
    m.exec s (as ++ bs) = m.exec s' bs := by
  induction as generalizing s with
  | nil => cases ha; rfl
  | cons a as ih =>
      obtain ⟨t, ht, ha⟩ := Option.bind_eq_some_iff.mp ha
      have hb : m.exec s (a :: as ++ bs) = (m.step s a).bind fun s' ↦ m.exec s' (as ++ bs) := rfl
      rw [hb, ht]
      exact ih ha

theorem Reach.of_execWhile {perm : σ → α → Bool} {as : List α} (hs : m.Reach ok s)
    (hperm : ∀ s a, m.Reach ok s → perm s a → ok s a)
    (he : m.execWhile perm s as = some s') : m.Reach ok s' := by
  induction as generalizing s with
  | nil => cases he; exact hs
  | cons a as ih =>
      rw [execWhile] at he
      split at he
      · rename_i hp
        obtain ⟨t, ht, he⟩ := Option.bind_eq_some_iff.mp he
        exact ih (.step hs (hperm _ _ hs hp) ht) he
      · cases he

/-- A concrete run shows that a state with a property is reached under a condition. -/
theorem exists_reach (perm : σ → α → Bool) (p : σ → Bool) (as : List α)
    (hperm : ∀ s a, m.Reach ok s → perm s a → ok s a)
    (he : (m.execWhile perm m.init as).any p = true) : ∃ s, m.Reach ok s ∧ p s = true := by
  obtain ⟨s, hs, hp⟩ := (Option.any_eq_true p _).mp he
  exact ⟨s, .of_execWhile .init hperm hs, hp⟩

/-- A concrete run shows that a state with a property is reached. -/
theorem exists_reachable (p : σ → Bool) (as : List α)
    (he : (m.exec m.init as).any p = true) : ∃ s, m.Reachable s ∧ p s = true :=
  exists_reach _ p as (fun _ _ _ _ ↦ trivial) he

/-! ## History variables

A property of runs that speaks about the past — "no stop was requested since the last
start" — needs a memory the machine does not have.  `observe` runs the machine beside an
observer that sees each step and never influences one. -/

/-- The machine run beside an observer with memory `η`. -/
def observe (m : Machine σ α) (h₀ : η) (next : η → σ → α → σ → η) : Machine (σ × η) α where
  init := (m.init, h₀)
  step w a := (m.step w.1 a).map fun s' ↦ (s', next w.2 w.1 a s')

variable {h₀ : η} {next : η → σ → α → σ → η} {w w' : σ × η}

theorem observe_step_eq_some :
    (m.observe h₀ next).step w a = some w' ↔
      ∃ s', m.step w.1 a = some s' ∧ w' = (s', next w.2 w.1 a s') := by
  simp only [observe, Option.map_eq_some_iff]
  exact exists_congr fun s' ↦ and_congr_right fun _ ↦ eq_comm

/-- Forgetting the history of an observed run leaves a run of the machine, and of the
conditions on the steps those that are about the machine. -/
theorem Reach.fst_of {ok : σ × η → α → Prop} {ok' : σ → α → Prop}
    (h : ∀ w a, ok w a → ok' w.1 a) (hw : (m.observe h₀ next).Reach ok w) : m.Reach ok' w.1 := by
  induction hw with
  | init => exact .init
  | step _ hok hst ih =>
      obtain ⟨s', hs', rfl⟩ := observe_step_eq_some.mp hst
      exact .step ih (h _ _ hok) hs'

theorem Reach.fst {ok : σ × η → α → Prop} (hw : (m.observe h₀ next).Reach ok w) :
    m.Reachable w.1 :=
  hw.fst_of fun _ _ _ ↦ trivial

end Machine
