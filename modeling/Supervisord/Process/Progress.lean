import Supervisord.Process.Holders
import Supervisord.Process.Logs
import Supervisord.Process.Retries

/-!
# Who waits for whom

The goroutines of a process wait for the lock, for one another and for their children.  A state is
`Quiet` when none of them can take a step.  `quiet_iff` says which reachable states are: the lock is
free, and the start loop and the goroutines of a child wait for nothing but a living child.  There
are two kinds of calls that may wait for ever: a `Start` whose finish callback does not come, and a
`Stop` that finds the process running where nobody will change its state (so does the goroutine that
closes the logs).  No other goroutine waits for them.
-/

namespace Supervisord.Process

/-! ## The monitors -/

namespace Core

variable {cfg : Config} {c c' : Core} {t : Tid} {k : Label}

/-- A child that need not stay up has no monitor until `run` has stored `Running`. -/
def Unmonitored (c : Core) : Prop :=
  ∀ t, (c.loops t).stage = .launching → (c.monitors (c.loops t).att).stage = .off

theorem Unmonitored.move (hu : c.Unmonitored) (hc : c.Inv) (h : Move cfg c k c') :
    c'.Unmonitored := by
  intro t hs
  have hu := hu t
  rcases hc.turns.own_or_none h (by rw [hs]; exact Stage.noConfusion) with hk | ⟨hk, hl⟩
  · cases h with
    | spawn _ hl ha =>
        cases hk
        rcases hl with ⟨hl, -⟩ | ⟨-, hw⟩
        · simp only [Function.update_self, hl] at hs
          cases hs
        · simp only [Function.update_self, ha.1]
          exact hw
    | loop hl _ ha =>
        cases hk
        simp only [Function.update_self, ha.1] at hs ⊢
        exact hu (hl ▸ hs)
    | pass _ _ hl | rest _ hl | decide _ hl =>
        cases hk
        simp only [Function.update_self, hl] at hs
        split_ifs at hs
    | accept _ _ hl | pause _ hl | release _ hl | leave _ hl | see _ _ hl | tell _ hl
    | enter _ _ hl | refused _ _ hl | busy _ hl | clear _ _ hl | quit _ _ hl | resume _ _ hl
    | starting _ hl | create _ hl | fail _ hl | createFatal _ hl | spawnFatal _ hl | retry _ hl
    | up _ hl | relock _ _ hl | excuse _ _ hl | blame _ _ hl | verdict _ hl | closeExited _ hl
    | closeStopped _ hl | backoff _ _ hl | exhaust _ _ hl | retryFatal _ hl | gaveUp _ hl
    | finish _ _ hl =>
        cases hk
        simp only [Function.update_self, hl] at hs
        cases hs
    | _ => cases hk
  · rw [hl] at hs ⊢
    have hoff := hu hs
    cases h with
    | monitor | monEnter | monPass | monDrop | monRunning | monLeave | answer =>
        simp only [Function.update_apply]
        grind -linarith
    | _ => first | exact hoff | cases hk

/-- `run` waits for the exit of a child that it has handed to `waitForExit`. -/
theorem watching_move (hc : c.Inv) (h : Move cfg c k c') (hs : (c'.loops t).stage = .watching) :
    (c.loops t).stage = .watching ∧ (c'.loops t).att = (c.loops t).att ∨
      c'.waiters (c'.loops t).att = .call := by
  rcases hc.turns.own_or_none h (by rw [hs]; exact Stage.noConfusion) with hk | ⟨hk, hl⟩
  · cases h with
    | release _ _ ha =>
        cases hk
        simp only [Function.update_self, ha.1]
        exact .inr trivial
    | loop hl _ ha =>
        cases hk
        simp only [Function.update_self] at hs ⊢
        exact .inl ⟨hl ▸ hs, ha.1⟩
    | pass _ _ hl | rest _ hl | decide _ hl =>
        cases hk
        simp only [Function.update_self, hl] at hs
        split_ifs at hs
    | spawn _ hl =>
        cases hk
        rcases hl with ⟨hl, -⟩ | ⟨hl, -⟩ <;> simp only [Function.update_self, hl] at hs <;> cases hs
    | accept _ _ hl | pause _ hl | leave _ hl | see _ _ hl | tell _ hl
    | enter _ _ hl | refused _ _ hl | busy _ hl | clear _ _ hl | quit _ _ hl | resume _ _ hl
    | starting _ hl | create _ hl | fail _ hl | createFatal _ hl | spawnFatal _ hl | retry _ hl
    | up _ hl | relock _ _ hl | excuse _ _ hl | blame _ _ hl | verdict _ hl | closeExited _ hl
    | closeStopped _ hl | backoff _ _ hl | exhaust _ _ hl | retryFatal _ hl | gaveUp _ hl
    | finish _ _ hl =>
        cases hk
        simp only [Function.update_self, hl] at hs
        cases hs
    | _ => cases hk
  · rw [hl] at hs ⊢
    exact .inl ⟨hs, rfl⟩

end Core

/-- The monitor has set `monitorExited`, or will do so without waiting for anybody. -/
def Monitor.prompt (w : Monitor) : Bool := w.monitorExited || w.pc = .poll || w.pc = .leave

theorem MonitorPc.eq_off {pc : MonitorPc} (h : pc.stage = .off) : pc = .off := by
  cases pc <;> first | rfl | cases h

namespace Sys

variable {cfg : Config} {s s' : Sys} {a : Act} {t : Tid} {ch : Choice} {c i : CmdId}

/-- The goroutines `run` waits for are on their way. -/
structure Prompt (s : Sys) : Prop where
  unmonitored : s.Unmonitored
  monitor : ∀ i, (s.cmds i).started → (s.monitors i).prompt
  sound : ∀ i, (s.monitors i).pc ≠ .crashed
  watched : ∀ t, (s.loops t).stage = .watching → s.waiters (s.loops t).att ≠ .off
  waiting : ∀ i, s.waiters i ≠ .crashed

theorem prompt_loopStep (hs : s.Prompt) (h : s.loopStep cfg t ch = some s') (i : CmdId) :
    ((s'.cmds i).started → (s'.monitors i).prompt) ∧ (s'.monitors i).pc ≠ .crashed := by
  have hm := hs.monitor i
  have hn := hs.sound i
  have hu := hs.unmonitored t
  unfold loopStep at h
  cases hp : (s.loops t).pc with
  | off | done | crashed => simp [hp] at h
  | enter | paused | relock =>
      simp only [hp, Option.map_eq_some_iff] at h
      obtain ⟨_, _, rfl⟩ := h
      exact ⟨hm, hn⟩
  | create =>
      cases ch <;> simp only [hp] at h <;> cases h
      · refine ⟨?_, hn⟩
        simp only [Function.update_apply]
        split
        · exact fun h ↦ by cases h
        · exact hm
      · exact ⟨hm, hn⟩
  | setUser =>
      cases ch <;> simp only [hp] at h <;> cases h <;> exact ⟨hm, hn⟩
  | spawn =>
      cases ch <;> simp only [hp] at h <;> cases h
      · simp only [spawned, goLoop, Function.update_apply]
        by_cases hi : i = (s.loops t).att
        · simp only [hi, if_true, Monitor.prompt]
          by_cases hw : 0 < cfg.startsecs <;> simp [hw]
        · simp only [hi, if_false]
          exact ⟨hm, hn⟩
      · exact ⟨hm, hn⟩
  | change k ph =>
      cases ph with
      | emit old =>
          simp only [hp] at h
          split at h <;> cases h
          · rename_i he
            have hcore := emit_toCore he
            simp only [goLoop, hcore]
            exact ⟨hm, hn⟩
          · exact ⟨hm, hn⟩
      | load =>
          simp only [hp] at h
          cases h
          exact ⟨hm, hn⟩
      | store =>
          simp only [hp] at h
          cases h
          cases k with
          | running =>
              -- the child has no monitor, and `monitorExited` has been set when it was spawned
              have hoff := hu (by rw [Loop.stage, hp]; rfl)
              simp only [changed, goMonitor, goLoop, Function.update_apply]
              split
              · rename_i hi
                subst hi
                refine ⟨fun hst ↦ ?_, MonitorPc.noConfusion⟩
                have he := hm hst
                rw [Monitor.prompt, MonitorPc.eq_off hoff] at he
                rw [Monitor.prompt]
                simpa using he
              · exact ⟨hm, hn⟩
          | _ => exact ⟨hm, hn⟩
  | fatalCb =>
      simp only [hp] at h
      cases h
      simp only [goLoop, finishCbWrapper_toCore]
      exact ⟨hm, hn⟩
  | seen =>
      simp only [hp] at h
      cases h
      simp only [goLoop, Function.update_apply]
      split
      · rename_i hi
        subst hi
        exact ⟨hm, hn⟩
      · exact ⟨hm, hn⟩
  | _ =>
      simp only [hp] at h
      repeat' split at h
      all_goals cases h
      all_goals exact ⟨hm, hn⟩

theorem prompt_monitorStep (hs : s.Prompt) (hpid : (s.monitors c).stage = .passed → s.pid ≠ none)
    (h : s.monitorStep cfg c = some s') (i : CmdId) :
    ((s'.cmds i).started → (s'.monitors i).prompt) ∧ (s'.monitors i).pc ≠ .crashed := by
  have hm := hs.monitor i
  have hn := hs.sound i
  have hgo {w : Monitor} (hw : (s.monitors c).prompt → w.prompt) (hc : w.pc ≠ .crashed) :
      ((s.cmds i).started → (Function.update s.monitors c w i).prompt) ∧
        (Function.update s.monitors c w i).pc ≠ .crashed := by
    rw [Function.update_apply]
    split
    · rename_i hi
      subst hi
      exact ⟨fun hst ↦ hw (hm hst), hc⟩
    · exact ⟨hm, hn⟩
  have hprompt {pc : MonitorPc} (h : (s.monitors c).pc ≠ .poll ∧ (s.monitors c).pc ≠ .leave ∨
      pc = .leave) (hw : (s.monitors c).prompt) : ({ s.monitors c with pc := pc }).prompt := by
    simp only [Monitor.prompt] at hw ⊢
    grind
  unfold monitorStep at h
  cases hp : (s.monitors c).pc with
  | off | done | crashed => simp [hp] at h
  | leave =>
      simp only [hp] at h
      cases h
      exact hgo (fun _ ↦ rfl) MonitorPc.noConfusion
  | enter =>
      simp only [hp, Option.map_eq_some_iff] at h
      obtain ⟨_, _, rfl⟩ := h
      exact hgo (hprompt (by simp [hp])) MonitorPc.noConfusion
  | checkExited | checkState =>
      simp only [hp] at h
      cases h
      refine hgo (hprompt (by simp [hp])) ?_
      split <;> exact MonitorPc.noConfusion
  | change ph =>
      cases ph with
      | emit old =>
          simp only [hp] at h
          split at h <;> cases h
          · rename_i he
            simp only [goMonitor, emit_toCore he]
            exact hgo (hprompt (by simp [hp])) MonitorPc.noConfusion
          · rename_i he
            exact absurd (emit_eq_none he).1 (hpid (by rw [Monitor.stage, hp]; rfl))
      | load | store =>
          simp only [hp] at h
          cases h
          exact hgo (hprompt (by simp [hp])) MonitorPc.noConfusion
  | callback =>
      simp only [hp] at h
      cases h
      simp only [goMonitor, finishCbWrapper_toCore]
      exact hgo (hprompt (by simp [hp])) MonitorPc.noConfusion
  | poll | unlock =>
      simp only [hp] at h
      cases h
      exact hgo (hprompt (by simp [hp])) MonitorPc.noConfusion

/-- The calls and the stopping goroutines leave the children and their monitors alone. -/
structure SameChildren (s s' : Sys) : Prop where
  monitors : s'.monitors = s.monitors
  cmds : s'.cmds = s.cmds

theorem SameChildren.of_toCore (h : s'.toCore = s.toCore) : SameChildren s s' :=
  ⟨by rw [h], by rw [h]⟩

theorem callerStep_children (h : s.callerStep cfg t ch = some s') : SameChildren s s' := by
  unfold callerStep at h
  cases hp : s.callers t with
  | stopChange wait restart ph =>
      cases ph with
      | emit old =>
          simp only [hp] at h
          split at h <;> cases h
          · rename_i he
            have hc := emit_toCore he
            exact ⟨congrArg Core.monitors hc, congrArg Core.cmds hc⟩
          · exact ⟨rfl, rfl⟩
      | load | store =>
          simp only [hp] at h
          cases h
          exact ⟨rfl, rfl⟩
  | checking =>
      cases ch <;> simp only [hp] at h <;> cases h <;> exact ⟨rfl, rfl⟩
  | signalEnter checked sigs =>
      simp only [hp, Option.map_eq_some_iff] at h
      obtain ⟨k, _, rfl⟩ := h
      repeat' split
      all_goals exact ⟨rfl, rfl⟩
  | signalling job =>
      simp only [hp, Option.map_eq_some_iff] at h
      obtain ⟨res, _, rfl⟩ := h
      cases res with
      | more job' sent => exact .of_toCore (kill_toCore (t := t) _ _ sent)
      | done | crash => exact ⟨rfl, rfl⟩
  | _ =>
      simp only [hp] at h
      repeat' split at h
      all_goals cases h
      all_goals exact ⟨rfl, rfl⟩

theorem stopperStep_children (h : s.stopperStep cfg t ch = some s') : SameChildren s s' := by
  unfold stopperStep at h
  cases hp : s.stoppers t with
  | off | done | crashed => simp [hp] at h
  | check =>
      simp only [hp] at h
      cases h
      exact ⟨rfl, rfl⟩
  | send kill =>
      simp only [hp, Option.map_eq_some_iff] at h
      obtain ⟨k, _, rfl⟩ := h
      split <;> exact ⟨rfl, rfl⟩
  | killing kill job =>
      simp only [hp, Option.map_eq_some_iff] at h
      obtain ⟨res, _, rfl⟩ := h
      cases res with
      | more job' sent => exact .of_toCore (kill_toCore (t := t) _ _ sent)
      | done | crash => exact ⟨rfl, rfl⟩

theorem Prompt.monitors_step (hs : s.Prompt) (hc : s.toCore.Inv) (h : s.step cfg a = some s')
    (i : CmdId) : ((s'.cmds i).started → (s'.monitors i).prompt) ∧
      (s'.monitors i).pc ≠ .crashed := by
  have hm := hs.monitor i
  have hn := hs.sound i
  have hsame (h : SameChildren s s') : ((s'.cmds i).started → (s'.monitors i).prompt) ∧
      (s'.monitors i).pc ≠ .crashed := by
    rw [h.1, h.2]
    exact ⟨hm, hn⟩
  cases a with
  | loop t ch => exact prompt_loopStep hs h i
  | monitor c =>
      refine prompt_monitorStep hs (fun hp ↦ ?_) h i
      obtain ⟨t, -, ht⟩ := hc.watch.passed c hp
      rw [hc.child.pid (t := t) (by rcases ht with ht | ht | ht <;> rw [ht] <;> rfl)]
      exact Option.some_ne_none _
  | caller t ch => exact hsame (callerStep_children h)
  | stopper t ch => exact hsame (stopperStep_children h)
  | closer c => exact hsame (.of_toCore (closerStep_toCore h))
  | call t op =>
      simp only [step] at h
      split at h <;> cases h
      exact ⟨hm, hn⟩
  | waiter c =>
      have hsame := Core.same_of_none (hc.step_move h) (by simp only [label]; split <;> rfl)
      rw [(waiterStep_same h).2, hsame.started]
      exact ⟨hm, hn⟩
  | exit c st =>
      simp only [step, exitStep] at h
      split at h <;> cases h
      refine ⟨fun hst ↦ hm ?_, hn⟩
      simp only [raise, Function.update_apply] at hst
      grind
  | sigchld =>
      cases h
      exact ⟨hm, hn⟩

theorem waiterStep_self (hc : s.toCore.Inv) (h : s.waiterStep c = some s') :
    s'.waiters c ≠ .off ∧ s'.waiters c ≠ .crashed := by
  have hgo (s₁ : Sys) (pc : WaiterPc) : (s₁.goWaiter c pc).waiters c = pc :=
    Function.update_self _ _ _
  unfold waiterStep at h
  cases hp : s.waiters c with
  | off | done | crashed => simp [hp] at h
  | call =>
      -- the start loop that has called `waitForExit` still has its command
      obtain ⟨t, ht, -⟩ := hc.child.waiter c (by rw [hp]; rfl)
      simp only [hp, hc.child.cmd t (by rw [ht]; rfl)] at h
      cases h
      rw [hgo]
      exact ⟨WaiterPc.noConfusion, WaiterPc.noConfusion⟩
  | waiting j =>
      simp only [hp] at h
      obtain ⟨-, -, rfl⟩ | ⟨-, rfl⟩ := wait_eq_some h <;> rw [hgo] <;>
        exact ⟨WaiterPc.noConfusion, WaiterPc.noConfusion⟩
  | closeLogs =>
      simp only [hp] at h
      split at h <;> cases h
      rw [hgo]
      exact ⟨WaiterPc.noConfusion, WaiterPc.noConfusion⟩
  | copying | store | closeChan =>
      simp only [hp] at h
      cases h
      rw [hgo]
      exact ⟨WaiterPc.noConfusion, WaiterPc.noConfusion⟩

/-- A step that moves a `waitForExit` on takes it neither back nor into a crash. -/
theorem step_waiters (hc : s.toCore.Inv) (h : s.step cfg a = some s') (i : CmdId) :
    s'.waiters i = s.waiters i ∨ s'.waiters i ≠ .off ∧ s'.waiters i ≠ .crashed := by
  cases step_logs h with
  | keep _ _ _ hw => exact .inl (by rw [hw])
  | setStdout _ hs | setStderr _ hs | spawn _ hs | poll _ _ hs => exact .inl (by rw [hs]; rfl)
  | stdout _ hs => exact .inl (by rw [hs, closeStdout_eq]; rfl)
  | stderr _ hs => exact .inl (by rw [hs, closeStderr_eq]; rfl)
  | release _ hs =>
      rw [hs]
      simp only [goLoop, Function.update_apply]
      split
      · exact .inr ⟨WaiterPc.noConfusion, WaiterPc.noConfusion⟩
      · exact .inl rfl
  | @waiter c _ _ _ _ hs =>
      by_cases hi : i = c
      · subst hi
        exact .inr (waiterStep_self hc hs)
      · exact .inl (waiterStep_waiters hs hi)

theorem Prompt.step (hs : s.Prompt) (hc : s.toCore.Inv) (h : s.step cfg a = some s') :
    s'.Prompt where
  unmonitored := hs.unmonitored.move hc (hc.step_move h)
  monitor i := (hs.monitors_step hc h i).1
  sound i := (hs.monitors_step hc h i).2
  watched t ht := by
    rcases Core.watching_move hc (hc.step_move h) ht with ⟨hw, ha⟩ | hw
    · rcases step_waiters hc h (s'.loops t).att with he | he
      · rw [he, ha]
        exact hs.watched t hw
      · exact he.1
    · rw [hw]
      exact WaiterPc.noConfusion
  waiting i := by
    rcases step_waiters hc h i with he | he
    · rw [he]
      exact hs.waiting i
    · exact he.2

end Sys

theorem reachable_prompt {cfg : Config} {s : Sys} (h : (machine cfg).Reachable s) : s.Prompt := by
  refine h.invariant (P := fun s ↦ s.Prompt) ?_ fun s a s' hr hp _ hst ↦ ?_
  · refine ⟨fun t ht ↦ ?_, fun i hi ↦ ?_, fun i ↦ MonitorPc.noConfusion, fun t ht ↦ ?_,
      fun i ↦ WaiterPc.noConfusion⟩
    · cases ht
    · cases hi
    · cases ht
  · exact hp.step (reachable_inv hr) hst

/-! ## States in which nothing moves -/

/-- In `cmd.Wait`, with the process reaped. -/
def WaiterPc.copies : WaiterPc → Bool
  | .copying _ => true
  | _ => false

/-- A step of a goroutine of the process.  Requests and children are the environment, and so is the
end of the output of a child that has exited, which others may hold open. -/
def Sys.internal (s : Sys) : Act → Bool
  | .caller _ _ | .loop _ _ | .stopper _ _ | .monitor _ | .closer _ => true
  | .waiter c => !(s.waiters c).copies
  | .call _ _ | .exit _ _ | .sigchld => false

/-- No goroutine of the process can take a step. -/
def Sys.Quiet (cfg : Config) (s : Sys) : Prop :=
  ∀ a : Act, s.internal a → s.step cfg a = none

/-- The child runs: it has been spawned and has not exited. -/
def Cmd.runs (k : Cmd) : Bool := k.started && !k.exited

/-- A child that is alive is that of a start loop in an attempt, and the state is a running one. -/
theorem Core.Inv.attempt_of_alive {c : Core} (hc : c.Inv) {i : CmdId} (h : (c.cmds i).alive) :
    ∃ t, (c.loops t).att = i ∧ (c.loops t).stage.hasChild ∧ c.state.isRunning ∧
      ((c.loops t).stage = .watching → (c.waiters i).awaits) := by
  obtain ⟨t, hat, hst⟩ := hc.child.alive i h
  refine ⟨t, hat, ?_, ?_, fun hw ↦ ?_⟩
  · rcases hst with hst | ⟨hst, -⟩
    · rcases Stage.eq_of_newborn hst with hst | hst <;> rw [hst] <;> rfl
    · rw [hst]
      rfl
  · refine hc.child.up t (.inr (.inr ?_))
    rcases hst with hst | ⟨hst, hw⟩
    · exact .inl hst
    · exact .inr ⟨hst, hat ▸ WaiterPc.pre_of_awaits hw⟩
  · rcases hst with hst | ⟨-, hst⟩
    · rw [hw] at hst
      cases hst
    · exact hst

theorem Core.Inv.alive_of_runs {c : Core} (hc : c.Inv) {i : CmdId} (h : (c.cmds i).runs) :
    (c.cmds i).alive := by
  rw [Cmd.runs, Bool.and_eq_true, Bool.not_eq_true'] at h
  exact hc.ids.alive h.1 h.2

theorem Core.Inv.alive_of_copying {c : Core} (hc : c.Inv) {i : CmdId}
    (h : c.waiters i = .copying i) : (c.cmds i).alive := by
  obtain ⟨hr, hw⟩ := hc.ids.copying i h
  rw [Cmd.alive, (hc.ids.reaped i hr).1, hw]
  rfl

theorem Stage.inRun_of_holds {s : Stage} (h : s.holds) : s.inRun := by
  cases s <;> first | rfl | cases h

/-- A call has not begun or is over. -/
def CallerPc.over : CallerPc → Bool
  | .idle | .done | .crashed => true
  | _ => false

/-- A call waits for what no goroutine has to do: for its finish callback, or for a state that is
not a running one. -/
def CallerPc.hangs (st : State) : CallerPc → Bool
  | .condWait => true
  | .stopWait _ => st.isRunning
  | _ => false

def StopperPc.over : StopperPc → Bool
  | .off | .done | .crashed => true
  | _ => false

def CloserPc.over : CloserPc → Bool
  | .off | .done => true
  | _ => false

def WaiterPc.over : WaiterPc → Bool
  | .off | .done => true
  | _ => false

/-- Nobody waits for the lock.  The start loop and `waitForExit` are over or wait for a child that
is alive, which runs or has left its output behind; calls are over or hang, and so do the goroutines
that close the logs. -/
structure Sys.AtRest (s : Sys) : Prop where
  lock : s.lock = .free
  loop : ∀ t, (s.loops t).active → (s.loops t).pc = .poll ∧ (s.cmds (s.loops t).att).alive
  monitor : ∀ i, (s.monitors i).pc = .off ∨ (s.monitors i).pc = .done
  waiter : ∀ i, (s.waiters i).over ∨ s.waiters i = .waiting i ∧ (s.cmds i).runs ∨
    s.waiters i = .copying i
  caller : ∀ t, (s.callers t).over ∨ (s.callers t).hangs s.state
  stopper : ∀ t, (s.stoppers t).over
  closer : ∀ i, (s.closers i).over ∨ s.closers i = .poll ∧ s.state.isRunning

namespace Sys

variable {cfg : Config} {s s' : Sys} {a : Act} {t : Tid} {ch : Choice} {c i : CmdId}

theorem Quiet.caller (h : s.Quiet cfg) (t : Tid) (ch : Choice) : s.callerStep cfg t ch = none :=
  h (.caller t ch) rfl

theorem Quiet.loop (h : s.Quiet cfg) (t : Tid) (ch : Choice) : s.loopStep cfg t ch = none :=
  h (.loop t ch) rfl

theorem Quiet.stopper (h : s.Quiet cfg) (t : Tid) (ch : Choice) : s.stopperStep cfg t ch = none :=
  h (.stopper t ch) rfl

theorem Quiet.monitor (h : s.Quiet cfg) (i : CmdId) : s.monitorStep cfg i = none :=
  h (.monitor i) rfl

theorem Quiet.waiter (h : s.Quiet cfg) (i : CmdId) (hi : (s.waiters i).copies = false) :
    s.waiterStep i = none :=
  h (.waiter i) (by rw [internal, hi]; rfl)

theorem Quiet.closer (h : s.Quiet cfg) (i : CmdId) : s.closerStep i = none := h (.closer i) rfl

/-- `signals.Kill` waits for nobody but the timer. -/
theorem kill_step {job : KillJob} (h : ∀ ch, job.step ch = none) : False := by
  unfold KillJob.step at h
  cases hw : job.waiting with
  | true => simpa [hw] using h .timeout
  | false =>
      have hok := h .ok
      cases hs : job.sigs with
      | nil => simp [hw, hs] at hok
      | cons sig rest => cases hp : job.process <;> simp [hw, hs, hp] at hok

theorem Quiet.lock_free (h : s.Quiet cfg) (hr : (machine cfg).Reachable s) : s.lock = .free := by
  have ho := reachable_owned hr
  refine RWLock.eq_free (fun o hl ↦ ?_) fun r hm ↦ ?_
  · cases o with
    | loop t =>
        have hh := ho.loop t hl
        rcases @loopStep_isSome cfg _ _ (Stage.inRun_of_holds hh)
          (reachable_not_crashed hr t) with ⟨s', hs'⟩ | hw
        · rw [h _ rfl] at hs'
          cases hs'
        · rw [Loop.stage] at hh
          rcases hw with ⟨hp | hp, -⟩ | ⟨hp, -⟩ | ⟨hp, -⟩ <;> rw [hp] at hh <;> cases hh
    | monitor i =>
        have hh := ho.monitor i hl
        have hm := h.monitor i
        rw [Monitor.stage] at hh
        unfold monitorStep at hm
        cases hp : (s.monitors i).pc with
        | change ph =>
            cases ph with
            | emit old =>
                simp only [hp] at hm
                split at hm <;> cases hm
            | load | store => simp [hp] at hm
        | checkExited | checkState | unlock => simp [hp] at hm
        | _ => rw [hp] at hh; cases hh
  · have hreads := ((reachable_reads hr).iff r).mp hm
    cases r with
    | caller t =>
        have hc := h.caller t
        simp only [reads] at hreads
        cases hp : s.callers t with
        | signalling job =>
            simp only [callerStep, hp, Option.map_eq_none_iff] at hc
            exact (kill_step hc).elim
        | _ => rw [hp] at hreads; cases hreads
    | stopper t =>
        have hc := h.stopper t
        simp only [reads] at hreads
        cases hp : s.stoppers t with
        | killing kill job =>
            simp only [stopperStep, hp, Option.map_eq_none_iff] at hc
            exact (kill_step hc).elim
        | _ => rw [hp] at hreads; cases hreads

theorem Quiet.monitor_rests (h : s.Quiet cfg) (hr : (machine cfg).Reachable s) (i : CmdId) :
    (s.monitors i).pc = .off ∨ (s.monitors i).pc = .done := by
  have hm := h.monitor i
  have hsound := (reachable_prompt hr).sound i
  unfold monitorStep at hm
  cases hp : (s.monitors i).pc with
  | off => exact .inl rfl
  | done => exact .inr rfl
  | crashed => exact absurd hp hsound
  | change ph =>
      cases ph with
      | emit old =>
          simp only [hp] at hm
          split at hm <;> cases hm
      | load | store => simp [hp] at hm
  | enter => simp [hp, h.lock_free hr, RWLock.lock] at hm
  | _ => simp [hp] at hm

theorem Quiet.waiter_rests (h : s.Quiet cfg) (hr : (machine cfg).Reachable s) (i : CmdId) :
    (s.waiters i).over ∨ s.waiters i = .waiting i ∧ (s.cmds i).runs ∨ s.waiters i = .copying i := by
  have hc := reachable_inv hr
  have hw := h.waiter i
  unfold waiterStep at hw
  cases hp : s.waiters i with
  | off | done => exact .inl rfl
  | crashed => exact absurd hp ((reachable_prompt hr).waiting i)
  | closeLogs => simp [hp, h.lock_free hr, WaiterPc.copies] at hw
  | call | store | closeChan => simp [hp, WaiterPc.copies] at hw
  | waiting j =>
      obtain ⟨rfl, hpid⟩ := hc.hasPid_of_waiting hp
      have hs := Cmd.hasPid_iff.mp hpid
      have hw := hw (by rw [hp]; rfl)
      simp only [hp, wait, if_pos hs] at hw
      split at hw
      · cases hw
      · rename_i he
        exact .inr (.inl ⟨rfl, by simp [Cmd.runs, hs.1, he]⟩)
  | copying j =>
      obtain rfl := hc.child.target i j (.inr hp)
      exact .inr (.inr rfl)

theorem Quiet.loop_rests (h : s.Quiet cfg) (hr : (machine cfg).Reachable s) (t : Tid)
    (ht : (s.loops t).active) :
    (s.loops t).pc = .poll ∧ (s.cmds (s.loops t).att).alive := by
  have hc := reachable_inv hr
  have hl := h.loop t .ok
  have hfree := h.lock_free hr
  by_cases hin : (s.loops t).stage.inRun
  · rcases @loopStep_isSome cfg _ _ hin (reachable_not_crashed hr t) with ⟨s', hs'⟩ | hw
    · rw [h _ rfl] at hs'
      cases hs'
    · rcases hw with ⟨-, hk⟩ | ⟨hp, hd, -⟩ | ⟨hp, he⟩
      · exact absurd hfree hk
      · have hst : (s.loops t).stage = .watching := by rw [Loop.stage, hp]; rfl
        rcases h.waiter_rests hr (s.loops t).att with hw | ⟨-, hw⟩ | hw
        · cases hq : s.waiters (s.loops t).att with
          | off => exact absurd hq ((reachable_prompt hr).watched t hst)
          | done => exact absurd hq hd
          | _ => rw [hq] at hw; cases hw
        · exact ⟨hp, hc.alive_of_runs hw⟩
        · exact ⟨hp, hc.alive_of_copying hw⟩
      · -- the monitor has set `monitorExited` long ago
        have hst := hc.child.started t (by rw [Loop.stage, hp]; rfl)
        have hm := (reachable_prompt hr).monitor _ hst
        rcases h.monitor_rests hr (s.loops t).att with ho | ho <;>
          simp [Monitor.prompt, he, ho] at hm
  · unfold loopStep at hl
    cases hp : (s.loops t).pc with
    | off | done => simp [Loop.active, hp] at ht
    | enter | rested | auto | finish => simp [hp, hfree, RWLock.lock] at hl
    | change k ph =>
        rw [Loop.stage, hp] at hin
        cases k <;> exact absurd rfl hin
    | _ =>
        rw [Loop.stage, hp] at hin
        exact absurd rfl hin

theorem Quiet.caller_rests (h : s.Quiet cfg) (hr : (machine cfg).Reachable s) (t : Tid) :
    (s.callers t).over ∨ (s.callers t).hangs s.state := by
  have hfree := h.lock_free hr
  have hc := h.caller t .ok
  unfold callerStep at hc
  cases hp : s.callers t with
  | idle | done | crashed => exact .inl rfl
  | condWait => exact .inr rfl
  | stopWait restart =>
      simp only [hp] at hc
      split at hc
      · exact .inr ‹_›
      · cases hc
  | signalling job =>
      have hk := h.caller t
      simp only [callerStep, hp, Option.map_eq_none_iff] at hk
      exact (kill_step hk).elim
  | stopChange wait restart ph =>
      cases ph with
      | emit old =>
          simp only [hp] at hc
          split at hc <;> cases hc
      | load | store => simp [hp] at hc
  | startEnter =>
      simp only [hp, hfree, if_true] at hc
      split at hc <;> cases hc
  | signalEnter => simp [hp, hfree, RWLock.rlock] at hc
  | stopCheck =>
      simp only [hp] at hc
      split at hc <;> cases hc
  | _ => simp [hp, hfree] at hc

theorem Quiet.stopper_rests (h : s.Quiet cfg) (hr : (machine cfg).Reachable s) (t : Tid) :
    (s.stoppers t).over := by
  have hc := h.stopper t
  cases hp : s.stoppers t with
  | off | done | crashed => rfl
  | send => simpa [stopperStep, hp, h.lock_free hr, RWLock.rlock] using hc .ok
  | check => simpa [stopperStep, hp] using hc .ok
  | killing kill job =>
      simp only [stopperStep, hp, Option.map_eq_none_iff] at hc
      exact (kill_step hc).elim

theorem Quiet.closer_rests (h : s.Quiet cfg) (i : CmdId) :
    (s.closers i).over ∨ s.closers i = .poll ∧ s.state.isRunning := by
  have hc := h.closer i
  unfold closerStep at hc
  cases hp : s.closers i with
  | off | done => exact .inl rfl
  | poll =>
      simp only [hp] at hc
      split at hc
      · exact .inr ⟨rfl, ‹_›⟩
      · cases hc
  | closeStdout | closeStderr => simp [hp] at hc

theorem Quiet.atRest (h : s.Quiet cfg) (hr : (machine cfg).Reachable s) : s.AtRest where
  lock := h.lock_free hr
  loop := h.loop_rests hr
  monitor := h.monitor_rests hr
  waiter := h.waiter_rests hr
  caller := h.caller_rests hr
  stopper := h.stopper_rests hr
  closer := h.closer_rests

/-- Whoever waits for a living child or hangs cannot go on. -/
theorem AtRest.quiet (h : s.AtRest) (hr : (machine cfg).Reachable s) : s.Quiet cfg := by
  have hc := reachable_inv hr
  rintro (⟨t, op⟩ | ⟨t, ch⟩ | ⟨t, ch⟩ | ⟨t, ch⟩ | i | i | i | ⟨i, st⟩ | _) ha
  · cases ha
  · have hp := h.caller t
    simp only [step, callerStep]
    cases hq : s.callers t with
    | idle | condWait | done | crashed => rfl
    | stopWait restart =>
        rw [hq] at hp
        rcases hp with hp | hp
        · cases hp
        · exact if_pos hp
    | _ =>
        rw [hq] at hp
        rcases hp with hp | hp <;> cases hp
  · simp only [step, loopStep]
    by_cases ht : (s.loops t).active
    · obtain ⟨hp, hal⟩ := h.loop t ht
      obtain ⟨u, -, hu, hrun, hwait⟩ := hc.attempt_of_alive hal
      have hst : (s.loops t).stage = .watching := by rw [Loop.stage, hp]; rfl
      obtain rfl := hc.turns.one t u (by rw [hst]; exact Stage.noConfusion)
        (Stage.ne_idle_of_hasCmd (Stage.hasCmd_of_hasChild hu))
      simp only [hp]
      rw [if_neg]
      rintro (hd | hd)
      · have hw := hwait hst
        rw [hd] at hw
        cases hw
      · rw [hrun] at hd
        cases hd
    · simp only [Loop.active, decide_eq_true_eq, not_and_or, not_not] at ht
      rcases ht with hp | hp <;> rw [hp]
  · have hp := h.stopper t
    simp only [step, stopperStep]
    cases hq : s.stoppers t with
    | off | done | crashed => rfl
    | _ => rw [hq] at hp; cases hp
  · simp only [step, monitorStep]
    rcases h.monitor i with hp | hp <;> rw [hp]
  · simp only [step, waiterStep]
    rcases h.waiter i with hp | ⟨hp, hw⟩ | hp
    · cases hq : s.waiters i <;> rw [hq] at hp <;> first | rfl | cases hp
    · obtain ⟨-, hpid⟩ := hc.hasPid_of_waiting hp
      simp only [Cmd.runs, Bool.and_eq_true, Bool.not_eq_true'] at hw
      simp [hp, wait, Cmd.hasPid_iff.mp hpid, hw.2]
    · rw [internal, hp] at ha
      cases ha
  · have hp := h.closer i
    simp only [step, closerStep]
    cases hq : s.closers i with
    | off | done => rfl
    | poll =>
        rw [hq] at hp
        rcases hp with hp | ⟨-, hp⟩
        · cases hp
        · exact if_pos hp
    | _ =>
        rw [hq] at hp
        rcases hp with hp | ⟨hp, -⟩ <;> cases hp
  · cases ha
  · cases ha

end Sys

/-- **A child that is alive is reported.**  The state is a running one and the pid is that of the
child, so that a `Stop` that waits does not return. -/
theorem alive_reported {cfg : Config} {s : Sys} {i : CmdId} (h : (machine cfg).Reachable s)
    (ha : (s.cmds i).alive) : s.pid = some i ∧ s.state.isRunning ∧
      ∀ t restart ch, s.callers t = .stopWait restart → s.step cfg (.caller t ch) = none := by
  have hc := reachable_inv h
  obtain ⟨u, rfl, hu, hrun, -⟩ := hc.attempt_of_alive ha
  refine ⟨hc.child.pid hu, hrun, fun t restart ch hp ↦ ?_⟩
  simp only [Sys.step, Sys.callerStep, hp, hrun, if_true]

/-- The child of a program that has been told to stop is still the one reported. -/
theorem alive_reported_stopping : ∃ s : Sys, (machine {}).Reachable s ∧ s.pid = some 0 ∧
    s.callers 1 = .stopWait false ∧ s.step {} (.caller 1 .ok) = none := by
  obtain ⟨s, hs, hp⟩ := Machine.exists_reachable (m := machine {})
    (fun s ↦ (s.cmds 0).alive && decide (s.callers 1 = .stopWait false))
    (startAndRun ++ .call 1 (.stop true) :: .replicate 6 (.caller 1 .ok)) (by decide +kernel)
  obtain ⟨ha, hw⟩ := Bool.and_eq_true_iff.mp hp
  have hw := of_decide_eq_true hw
  obtain ⟨hpid, -, hn⟩ := alive_reported hs ha
  exact ⟨s, hs, hpid, hw, hn 1 false .ok hw⟩

end Supervisord.Process
