import Supervisord.Process.Frame

/-!
# Calls that start nothing

A child is spawned by a start loop, and a start loop is launched by a call of `Start`.  So the
calls of a goroutine that only ever calls `Stop` spawn nothing, whatever else happens to the
process (`neverSpawns_of_stops`).
-/

namespace Supervisord.Process

/-- The calls of the goroutines `own` are among `ops`. -/
def CallsOnly (own : Tid → Prop) (ops : List Op) (_ : Sys) (a : Act) : Prop :=
  ∀ t op, a = .call t op → own t → op ∈ ops

/-- In no run in which the goroutines `own` call nothing but `ops` does a start loop of theirs
spawn a child. -/
def NeverSpawns (ops : List Op) : Prop :=
  ∀ (cfg : Config) (own : Tid → Prop) (s s' : Sys) (a : Act),
    (machine cfg).Reach (CallsOnly own ops) s → s.step cfg a = some s' →
      ∀ t, own t → s.label a ≠ .spawned t

/-- There is no call, or it is one of `Stop` that nothing follows. -/
def CallerPc.onlyStops : CallerPc → Bool
  | .idle | .stopEnter _ false | .stopCheck _ false | .stopChange _ false _ | .stopLaunch _ false
  | .stopWait false | .done | .crashed => true
  | _ => false

namespace Sys

variable {cfg : Config} {s s' : Sys} {a : Act} {t u : Tid} {ch : Choice}

theorem callerStep_onlyStops (h : s.callerStep cfg t ch = some s')
    (ht : (s.callers t).onlyStops) : (s'.callers t).onlyStops := by
  have hgo (s₁ : Sys) (pc : CallerPc) : (s₁.goCaller t pc).callers t = pc :=
    Function.update_self _ _ _
  unfold callerStep at h
  cases hp : s.callers t with
  | idle | condWait | done | crashed => simp [hp] at h
  | stopEnter wait restart | stopCheck wait restart | stopWait restart =>
      cases restart with
      | true => simp [hp, CallerPc.onlyStops] at ht
      | false =>
          simp only [hp] at h
          split at h <;> cases h <;> rw [hgo] <;> rfl
  | stopChange wait restart ph =>
      cases restart with
      | true => simp [hp, CallerPc.onlyStops] at ht
      | false =>
          cases ph <;> simp only [hp] at h
          case emit => split at h <;> cases h <;> rw [hgo] <;> rfl
          all_goals
            cases h
            rw [hgo]
            rfl
  | stopLaunch wait restart =>
      cases restart with
      | true => simp [hp, CallerPc.onlyStops] at ht
      | false =>
          simp only [hp] at h
          cases h
          rw [hgo]
          cases wait <;> rfl
  | startEnter | cronCheck | livenessCheck | checking | access | accessRead | signalEnter
  | signalling => simp [hp, CallerPc.onlyStops] at ht

theorem step_onlyStops {own : Tid → Prop} {ops : List Op} (h : s.step cfg a = some s')
    (hok : CallsOnly own ops s a) (hops : ∀ op ∈ ops, ∃ wait, op = .stop wait) (hown : own t)
    (ht : (s.callers t).onlyStops) : (s'.callers t).onlyStops := by
  rcases step_callers h t with ⟨op, rfl, -, hop⟩ | ⟨ch, rfl⟩ | ha
  · obtain ⟨wait, rfl⟩ := hops op (hok t op rfl hown)
    rw [hop]
    rfl
  · exact callerStep_onlyStops h ht
  · revert ha ht
    generalize s.callers t = pc
    generalize s'.callers t = pc'
    intro ht ha
    cases ha with
    | refl => exact ht
    | wake | raise => cases ht

theorem startEnter_of_start {accepted : Bool} (h : s.label a = .start t accepted) :
    ∃ wait, s.callers t = .startEnter wait := by
  cases a with
  | caller u ch =>
      simp only [label] at h
      split at h <;> (try split at h) <;> cases h
      exact ⟨_, ‹_›⟩
  | loop u ch | call | monitor | waiter =>
      simp only [label] at h
      split at h <;> (try split at h) <;> cases h
  | stopper | closer | exit | sigchld => cases h

/-- Nothing but `Start` launches a start loop. -/
theorem step_loops_off (hm : Move cfg s.toCore (s.label a) s'.toCore)
    (h : s.step cfg a = some s') (ht : (s.callers t).onlyStops) (hl : (s.loops t).pc = .off) :
    (s'.loops t).pc = .off := by
  by_cases hloop : (s.label a).loop = some t
  · rcases label_loop hloop with ⟨ch, rfl⟩ | hstart
    · simp [step, loopStep, hl] at h
    · obtain ⟨wait, hwait⟩ := startEnter_of_start hstart
      rw [hwait] at ht
      cases ht
  · rw [hm.loops_eq hloop, hl]

end Sys

/-- **Stopping spawns nothing.**  Goroutines that only call `Stop` spawn no child, in any run. -/
theorem neverSpawns_of_stops {ops : List Op} (hops : ∀ op ∈ ops, ∃ wait, op = .stop wait) :
    NeverSpawns ops := by
  intro cfg own s s' a hs _ t hown hspawn
  have hquiet : (s.callers t).onlyStops = true ∧ (s.loops t).pc = .off := by
    refine hs.invariant (P := fun s ↦ (s.callers t).onlyStops = true ∧ (s.loops t).pc = .off)
      ⟨rfl, rfl⟩ fun s a s' hs ht hok h ↦ ?_
    exact ⟨Sys.step_onlyStops h hok hops hown ht.1,
      Sys.step_loops_off ((reachable_inv hs.reachable).step_move h) h ht.1 ht.2⟩
  have hstage := Sys.stage_of_spawned hspawn
  rw [Loop.stage, hquiet.2] at hstage
  cases hstage

end Supervisord.Process
