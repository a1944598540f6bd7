import Supervisord.Process.Invariant

/-!
# What a step does to the loggers

`run` sets `p.StdoutLog` and `p.StderrLog` in each attempt, and two goroutines close what they
find there: `waitForExit` and the one that polls `IsRunning`.  `Logs` collects all that a step
can do to the loggers and to these goroutines, and `step_logs` says that it does nothing else.
-/

namespace Supervisord.Process

/-- `waitForExit` has not closed the logs yet. -/
def WaiterPc.open : WaiterPc → Bool
  | .call | .waiting _ | .copying _ | .store | .closeLogs => true
  | .off | .closeChan | .done | .crashed => false

theorem WaiterPc.pre_of_open {w : WaiterPc} (h : w.open) (hw : w ≠ .closeLogs) : w.pre := by
  cases w <;> first | rfl | exact absurd rfl hw | cases h

/-- The goroutine that closes the logs is not through. -/
def CloserPc.open : CloserPc → Bool
  | .poll | .closeStdout | .closeStderr => true
  | .off | .done => false

/-- The attempt has set its stdout logger, and the child is not handed to its goroutines yet. -/
def LoopPc.hasStdoutLog : LoopPc → Bool
  | .setStderrLog | .spawn | .change .running _ | .release => true
  | _ => false

/-- The same for the stderr logger. -/
def LoopPc.hasStderrLog : LoopPc → Bool
  | .spawn | .change .running _ | .release => true
  | _ => false

attribute [grind] LoopPc.stage WaiterPc.open CloserPc.open LoopPc.hasStdoutLog LoopPc.hasStderrLog

namespace Sys

/-- The action is a step of a goroutine of the child `c` that calls `Close` on a logger created
for the command `l`. -/
inductive Closes (s : Sys) : Act → CmdId → CmdId → Prop
  | waiter {c l : CmdId} (hp : s.waiters c = .closeLogs)
      (hl : s.stdoutLog = some l ∨ s.stderrLog = some l) : Closes s (.waiter c) c l
  | stdout {c l : CmdId} (hp : s.closers c = .closeStdout) (hl : s.stdoutLog = some l) :
      Closes s (.closer c) c l
  | stderr {c l : CmdId} (hp : s.closers c = .closeStderr) (hl : s.stderrLog = some l) :
      Closes s (.closer c) c l

/-- What a step does to the loggers and to the goroutines that close them. -/
inductive Logs (cfg : Config) (s s' : Sys) : Act → Prop
  | keep {a : Act} (ho : s'.stdoutLog = s.stdoutLog) (he : s'.stderrLog = s.stderrLog)
      (hc : s'.closers = s.closers) (hw : s'.waiters = s.waiters)
      (hx : s'.stdoutClosed = s.stdoutClosed ∧ s'.stderrClosed = s.stderrClosed)
      (hl : ∀ t, (s'.loops t).pc.hasStdoutLog → s'.loops t = s.loops t ∨
        (s'.loops t).att = (s.loops t).att ∧ (s.loops t).pc.hasStderrLog ∧
          (s'.loops t).pc ≠ .setStderrLog) : Logs cfg s s' a
  | setStdout {t : Tid} {ch : Choice} (hp : (s.loops t).pc = .setStdoutLog)
      (hs : s' = { s with stdoutLog := if cfg.isProgram then some (s.loops t).att
        else s.stdoutLog }.goLoop t .setStderrLog) : Logs cfg s s' (.loop t ch)
  | setStderr {t : Tid} {ch : Choice} (hp : (s.loops t).pc = .setStderrLog)
      (hs : s' = { s with stderrLog := if cfg.isProgram then some (s.loops t).att
        else s.stderrLog }.goLoop t .spawn) : Logs cfg s s' (.loop t ch)
  | spawn {t : Tid} {ch : Choice} (hp : (s.loops t).pc = .spawn) (hs : s' = s.spawned cfg t) :
      Logs cfg s s' (.loop t ch)
  | release {t : Tid} {ch : Choice} (hp : (s.loops t).pc = .release)
      (hs : s' = { s with
        lock := .free
        waiters := Function.update s.waiters (s.loops t).att .call }.goLoop t .poll) :
      Logs cfg s s' (.loop t ch)
  | waiter {c : CmdId} (ho : s'.stdoutLog = s.stdoutLog) (he : s'.stderrLog = s.stderrLog)
      (hc : s'.closers = s.closers) (hl : s'.loops = s.loops) (hs : s.waiterStep c = some s') :
      Logs cfg s s' (.waiter c)
  | poll {c : CmdId} (hp : s.closers c = .poll) (hr : s.state.isRunning = false)
      (hs : s' = s.goCloser c .closeStdout) : Logs cfg s s' (.closer c)
  | stdout {c : CmdId} (hp : s.closers c = .closeStdout)
      (hs : s' = s.closeStdout.goCloser c .closeStderr) : Logs cfg s s' (.closer c)
  | stderr {c : CmdId} (hp : s.closers c = .closeStderr)
      (hs : s' = s.closeStderr.goCloser c .done) : Logs cfg s s' (.closer c)

variable {cfg : Config} {s s' s₁ : Sys} {a : Act} {t : Tid} {ch : Choice} {c : CmdId} {r : Nat}

/-- The loggers and the goroutines that close them are as they were. -/
structure SameLogs (s s' : Sys) : Prop where
  stdout : s'.stdoutLog = s.stdoutLog
  stderr : s'.stderrLog = s.stderrLog
  closers : s'.closers = s.closers
  waiters : s'.waiters = s.waiters
  stdoutClosed : s'.stdoutClosed = s.stdoutClosed
  stderrClosed : s'.stderrClosed = s.stderrClosed

theorem SameLogs.logs (h : SameLogs s s') (hl : s'.loops = s.loops) : Logs cfg s s' a :=
  .keep h.1 h.2 h.3 h.4 ⟨h.5, h.6⟩ fun t _ ↦ .inl (by rw [hl])

/-- A step of a start loop that does not take it up to a logger. -/
theorem SameLogs.goLoop (h : SameLogs s s') {l : Loop} (hl : s'.loops = Function.update s.loops t l)
    (hp : l.pc.hasStdoutLog → l.att = (s.loops t).att ∧ (s.loops t).pc.hasStderrLog ∧
      l.pc ≠ .setStderrLog) : Logs cfg s s' a := by
  refine .keep h.1 h.2 h.3 h.4 ⟨h.5, h.6⟩ fun u hu ↦ ?_
  rw [hl, Function.update_apply] at hu ⊢
  split at hu
  · rename_i htu
    rw [if_pos htu, htu]
    exact .inr (hp hu)
  · rename_i htu
    rw [if_neg htu]
    exact .inl rfl

/-- The same after what leaves the start loops alone. -/
theorem SameLogs.goLoop_of_eq (h : SameLogs s s₁) (hl : s₁.loops = s.loops) {pc : LoopPc}
    (hp : pc.hasStdoutLog → (s.loops t).pc.hasStderrLog ∧ pc ≠ .setStderrLog) :
    Logs cfg s (s₁.goLoop t pc) a := by
  refine goLoop (l := { s.loops t with pc := pc }) ⟨h.1, h.2, h.3, h.4, h.5, h.6⟩ ?_
    fun hc ↦ ⟨rfl, hp hc⟩
  simp only [Sys.goLoop, hl]

theorem emit_sameLogs {new old : State} (h : s.emit cfg new old = some s') : SameLogs s s' := by
  unfold emit at h
  split at h
  · obtain ⟨e, _, rfl⟩ := Option.map_eq_some_iff.mp h
    exact ⟨rfl, rfl, rfl, rfl, rfl, rfl⟩
  · cases h
    exact ⟨rfl, rfl, rfl, rfl, rfl, rfl⟩

theorem finishCbWrapper_sameLogs : SameLogs s (s.finishCbWrapper t r) := by
  unfold finishCbWrapper
  split <;> exact ⟨rfl, rfl, rfl, rfl, rfl, rfl⟩

theorem hasLog_change {k : Change} {ph' : Phase} (h : (LoopPc.change k ph').hasStdoutLog)
    (ph : Phase) : (LoopPc.change k ph).hasStderrLog := by
  cases k <;> first | rfl | cases h

theorem changed_logs {k : Change} (hp : (s.loops t).pc = .change k .store) :
    Logs cfg s (s.changed cfg t k) a := by
  cases k with
  | running =>
      refine SameLogs.goLoop ⟨rfl, rfl, rfl, rfl, rfl, rfl⟩ rfl fun _ ↦ ?_
      rw [hp]
      exact ⟨rfl, rfl, nofun⟩
  | exitBackoff =>
      refine SameLogs.goLoop ⟨rfl, rfl, rfl, rfl, rfl, rfl⟩ rfl fun hc ↦ ?_
      dsimp only at hc
      split at hc <;> cases hc
  | starting | createFatal | spawnFatal | spawnBackoff | exited | stopped | retryFatal =>
      exact SameLogs.goLoop ⟨rfl, rfl, rfl, rfl, rfl, rfl⟩ rfl nofun

theorem loopStep_logs (h : s.loopStep cfg t ch = some s') : Logs cfg s s' (.loop t ch) := by
  have hs : SameLogs s s := ⟨rfl, rfl, rfl, rfl, rfl, rfl⟩
  unfold loopStep at h
  cases hp : (s.loops t).pc with
  | setStdoutLog =>
      simp only [hp] at h
      cases h
      exact .setStdout hp rfl
  | setStderrLog =>
      simp only [hp] at h
      cases h
      exact .setStderr hp rfl
  | spawn =>
      cases ch <;> simp only [hp] at h <;> cases h
      · exact .spawn hp rfl
      · refine hs.goLoop_of_eq rfl fun hc ↦ ?_
        split at hc <;> cases hc
  | change k ph =>
      have hph (ph' : Phase) (hc : (LoopPc.change k ph').hasStdoutLog) :
          (s.loops t).pc.hasStderrLog ∧ LoopPc.change k ph' ≠ .setStderrLog := by
        rw [hp]
        exact ⟨hasLog_change hc ph, nofun⟩
      cases ph with
      | emit old =>
          simp only [hp] at h
          split at h
          · rename_i s₁ he
            cases h
            have hl : s₁.toCore = s.toCore := emit_toCore he
            exact (emit_sameLogs he).goLoop_of_eq (by rw [hl]) (hph _)
          · cases h
            exact hs.goLoop_of_eq rfl nofun
      | load =>
          simp only [hp] at h
          cases h
          exact hs.goLoop_of_eq rfl (hph _)
      | store =>
          simp only [hp] at h
          cases h
          exact changed_logs hp
  | release =>
      simp only [hp] at h
      cases h
      exact .release hp rfl
  | enter | paused | relock =>
      simp only [hp, Option.map_eq_some_iff] at h
      obtain ⟨_, _, rfl⟩ := h
      exact SameLogs.goLoop ⟨rfl, rfl, rfl, rfl, rfl, rfl⟩ rfl nofun
  | create | setUser =>
      cases ch <;> simp only [hp] at h <;> cases h <;>
        exact SameLogs.goLoop ⟨rfl, rfl, rfl, rfl, rfl, rfl⟩ rfl nofun
  | fatalCb =>
      simp only [hp] at h
      cases h
      refine finishCbWrapper_sameLogs.goLoop_of_eq ?_ nofun
      rw [finishCbWrapper_toCore]
  | _ =>
      simp only [hp] at h
      repeat' split at h
      all_goals cases h
      all_goals exact SameLogs.goLoop ⟨rfl, rfl, rfl, rfl, rfl, rfl⟩ rfl nofun

theorem kill_sameLogs {b g : Bool} {sent : Option (CmdId × String × Bool)} :
    SameLogs s (s.kill t b g sent) := by
  cases sent <;> exact ⟨rfl, rfl, rfl, rfl, rfl, rfl⟩

theorem callerStep_logs (h : s.callerStep cfg t ch = some s') : Logs cfg s s' a := by
  have hgo {s₁ : Sys} (hs : SameLogs s s₁) (hl : s₁.loops = s.loops) (pc : CallerPc) :
      Logs cfg s (s₁.goCaller t pc) a :=
    SameLogs.logs ⟨hs.1, hs.2, hs.3, hs.4, hs.5, hs.6⟩ hl
  have hs : SameLogs s s := ⟨rfl, rfl, rfl, rfl, rfl, rfl⟩
  unfold callerStep at h
  cases hp : s.callers t with
  | startEnter wait =>
      simp only [hp] at h
      repeat' split at h
      all_goals cases h
      · exact hgo hs rfl _
      all_goals exact SameLogs.goLoop ⟨rfl, rfl, rfl, rfl, rfl, rfl⟩ rfl nofun
  | stopChange wait restart ph =>
      cases ph with
      | emit old =>
          simp only [hp] at h
          split at h
          · rename_i he
            cases h
            exact hgo (emit_sameLogs he) (by rw [emit_toCore he]) _
          · cases h
            exact hgo hs rfl _
      | load | store =>
          simp only [hp] at h
          cases h
          exact SameLogs.logs ⟨rfl, rfl, rfl, rfl, rfl, rfl⟩ rfl
  | checking =>
      cases ch <;> simp only [hp] at h <;> cases h <;> exact hgo hs rfl _
  | signalEnter checked sigs =>
      simp only [hp, Option.map_eq_some_iff] at h
      obtain ⟨k, _, rfl⟩ := h
      split
      · exact hgo hs rfl _
      · split <;> exact SameLogs.logs ⟨rfl, rfl, rfl, rfl, rfl, rfl⟩ rfl
  | signalling job =>
      simp only [hp, Option.map_eq_some_iff] at h
      obtain ⟨res, _, rfl⟩ := h
      cases res with
      | more job' sent => exact hgo kill_sameLogs (by rw [kill_toCore]) _
      | done | crash => exact SameLogs.logs ⟨rfl, rfl, rfl, rfl, rfl, rfl⟩ rfl
  | _ =>
      simp only [hp] at h
      repeat' split at h
      all_goals cases h
      all_goals exact SameLogs.logs ⟨rfl, rfl, rfl, rfl, rfl, rfl⟩ rfl

theorem stopperStep_logs (h : s.stopperStep cfg t ch = some s') : Logs cfg s s' a := by
  unfold stopperStep at h
  cases hp : s.stoppers t with
  | off | done | crashed => simp [hp] at h
  | check =>
      simp only [hp] at h
      cases h
      exact SameLogs.logs ⟨rfl, rfl, rfl, rfl, rfl, rfl⟩ rfl
  | send kill =>
      simp only [hp, Option.map_eq_some_iff] at h
      obtain ⟨k, _, rfl⟩ := h
      split <;> exact SameLogs.logs ⟨rfl, rfl, rfl, rfl, rfl, rfl⟩ rfl
  | killing kill job =>
      simp only [hp, Option.map_eq_some_iff] at h
      obtain ⟨res, _, rfl⟩ := h
      cases res with
      | more job' sent =>
          have hs : SameLogs s (s.kill t true job.sigChildren sent) := kill_sameLogs
          refine SameLogs.logs ⟨hs.1, hs.2, hs.3, hs.4, hs.5, hs.6⟩ ?_
          exact congrArg Core.loops (kill_toCore _ _ _)
      | done | crash => exact SameLogs.logs ⟨rfl, rfl, rfl, rfl, rfl, rfl⟩ rfl

theorem monitorStep_logs (h : s.monitorStep cfg c = some s') : Logs cfg s s' a := by
  have hgo {s₁ : Sys} (hs : SameLogs s s₁) (hl : s₁.loops = s.loops) (pc : MonitorPc) :
      Logs cfg s (s₁.goMonitor c pc) a :=
    SameLogs.logs ⟨hs.1, hs.2, hs.3, hs.4, hs.5, hs.6⟩ hl
  unfold monitorStep at h
  cases hp : (s.monitors c).pc with
  | change ph =>
      cases ph with
      | emit old =>
          simp only [hp] at h
          split at h
          · rename_i he
            cases h
            exact hgo (emit_sameLogs he) (by rw [emit_toCore he]) _
          · cases h
            exact SameLogs.logs ⟨rfl, rfl, rfl, rfl, rfl, rfl⟩ rfl
      | load | store =>
          simp only [hp] at h
          cases h
          exact SameLogs.logs ⟨rfl, rfl, rfl, rfl, rfl, rfl⟩ rfl
  | callback =>
      simp only [hp] at h
      cases h
      exact hgo finishCbWrapper_sameLogs (by rw [finishCbWrapper_toCore]) _
  | enter =>
      simp only [hp, Option.map_eq_some_iff] at h
      obtain ⟨_, _, rfl⟩ := h
      exact SameLogs.logs ⟨rfl, rfl, rfl, rfl, rfl, rfl⟩ rfl
  | _ =>
      simp only [hp] at h
      cases h
      all_goals exact SameLogs.logs ⟨rfl, rfl, rfl, rfl, rfl, rfl⟩ rfl

theorem closeStdout_eq : s.closeStdout =
    { s with stdoutClosed := s.closeStdout.stdoutClosed } := by
  unfold closeStdout
  split <;> rfl

theorem closeStderr_eq : s.closeStderr =
    { s with stderrClosed := s.closeStderr.stderrClosed } := by
  unfold closeStderr
  split <;> rfl

theorem waiterStep_logs (h : s.waiterStep c = some s') : Logs cfg s s' (.waiter c) := by
  have hs := h
  unfold waiterStep at h
  cases hp : s.waiters c with
  | off | done | crashed => simp [hp] at h
  | waiting l =>
      simp only [hp] at h
      obtain ⟨-, -, rfl⟩ | ⟨-, rfl⟩ := wait_eq_some h <;> exact .waiter rfl rfl rfl rfl hs
  | closeLogs =>
      simp only [hp] at h
      split at h <;> cases h
      rw [closeStderr_eq, closeStdout_eq] at hs ⊢
      exact .waiter rfl rfl rfl rfl hs
  | call | copying | store | closeChan =>
      simp only [hp] at h
      cases h
      exact .waiter rfl rfl rfl rfl hs

theorem closerStep_logs (h : s.closerStep c = some s') : Logs cfg s s' (.closer c) := by
  unfold closerStep at h
  cases hp : s.closers c with
  | off | done => simp [hp] at h
  | poll =>
      simp only [hp] at h
      split at h <;> cases h
      rename_i hr
      exact .poll hp (Bool.eq_false_iff.mpr hr) rfl
  | closeStdout =>
      simp only [hp] at h
      cases h
      exact .stdout hp rfl
  | closeStderr =>
      simp only [hp] at h
      cases h
      exact .stderr hp rfl

/-- **What a step does to the loggers.** -/
theorem step_logs (h : s.step cfg a = some s') : Logs cfg s s' a := by
  cases a with
  | call u op =>
      simp only [step] at h
      split at h <;> cases h
      exact SameLogs.logs ⟨rfl, rfl, rfl, rfl, rfl, rfl⟩ rfl
  | caller u ch => exact callerStep_logs h
  | loop u ch => exact loopStep_logs h
  | stopper u ch => exact stopperStep_logs h
  | monitor c => exact monitorStep_logs h
  | waiter c => exact waiterStep_logs h
  | closer c => exact closerStep_logs h
  | exit c status =>
      simp only [step, exitStep] at h
      split at h <;> cases h
      exact SameLogs.logs ⟨rfl, rfl, rfl, rfl, rfl, rfl⟩ rfl
  | sigchld =>
      cases h
      exact SameLogs.logs ⟨rfl, rfl, rfl, rfl, rfl, rfl⟩ rfl

/-! ## What becomes of the goroutines and of the loggers -/

/-- What a step can do to the goroutine that closes the logs of `c`. -/
inductive ClosersTo (cfg : Config) (s s' : Sys) (c : CmdId) : Prop
  | same (he : s'.closers c = s.closers c)
  | launch (t : Tid) (hp : (s.loops t).pc = .spawn) (hc : (s.loops t).att = c)
      (hs : s' = s.spawned cfg t) (he : s'.closers c = .poll)
  | seen (hp : s.closers c = .poll) (hr : s.state.isRunning = false)
      (he : s'.closers c = .closeStdout)
  | next (hp : s.closers c = .closeStdout) (he : s'.closers c = .closeStderr)
  | done (hp : s.closers c = .closeStderr) (he : s'.closers c = .done)

theorem Logs.closersTo (h : Logs cfg s s' a) (c : CmdId) : ClosersTo cfg s s' c := by
  cases h with
  | keep _ _ hcl | waiter _ _ hcl => exact .same (by rw [hcl])
  | setStdout _ hs | setStderr _ hs | release _ hs => exact .same (by rw [hs]; rfl)
  | spawn hp hs =>
      rename_i t ch
      by_cases hc : c = (s.loops t).att
      · exact .launch t hp hc.symm hs (by rw [hs, hc]; exact Function.update_self _ _ _)
      · exact .same (by rw [hs]; exact Function.update_of_ne hc _ _)
  | poll hp hr hs =>
      rename_i i
      by_cases hc : c = i
      · rw [← hc] at hp
        exact .seen hp hr (by rw [hs, hc]; exact Function.update_self _ _ _)
      · exact .same (by rw [hs]; exact Function.update_of_ne hc _ _)
  | stdout hp hs =>
      rename_i i
      by_cases hc : c = i
      · rw [← hc] at hp
        exact .next hp (by rw [hs, hc]; exact Function.update_self _ _ _)
      · refine .same ?_
        rw [hs, closeStdout_eq]
        exact Function.update_of_ne hc _ _
  | stderr hp hs =>
      rename_i i
      by_cases hc : c = i
      · rw [← hc] at hp
        exact .done hp (by rw [hs, hc]; exact Function.update_self _ _ _)
      · refine .same ?_
        rw [hs, closeStderr_eq]
        exact Function.update_of_ne hc _ _

/-- What a step can do to `waitForExit` for `c`. -/
inductive WaitersTo (s s' : Sys) (c : CmdId) : Prop
  | same (he : s'.waiters c = s.waiters c)
  | launch (t : Tid) (hp : (s.loops t).pc = .release) (hc : (s.loops t).att = c)
      (he : s'.waiters c = .call)
  | wait (l : CmdId) (hp : s.waiters c = .waiting l) (hs : s.wait c l = some s')
  | returned (l : CmdId) (hp : s.waiters c = .copying l) (hs : s'.cmds = (s.waited l).cmds)
  | stored (hp : s.waiters c = .store) (hs : s'.cmds = s.cmds)
  | step (ho : (s'.waiters c).open → (s.waiters c).open)
      (he : s'.waiters c ≠ .store ∧ s'.waiters c ≠ .closeLogs)

theorem waiterStep_waiters (h : s.waiterStep c = some s') {i : CmdId} (hi : i ≠ c) :
    s'.waiters i = s.waiters i := by
  unfold waiterStep at h
  cases hp : s.waiters c with
  | off | done | crashed => simp [hp] at h
  | waiting l =>
      simp only [hp] at h
      obtain ⟨-, -, rfl⟩ | ⟨-, rfl⟩ := wait_eq_some h <;> exact Function.update_of_ne hi _ _
  | closeLogs =>
      simp only [hp] at h
      split at h <;> cases h
      rw [closeStderr_eq, closeStdout_eq]
      exact Function.update_of_ne hi _ _
  | call | copying | store | closeChan =>
      simp only [hp] at h
      cases h
      exact Function.update_of_ne hi _ _

theorem waiterStep_to (h : s.waiterStep c = some s') : WaitersTo s s' c := by
  unfold waiterStep at h
  cases hp : s.waiters c with
  | off | done | crashed => simp [hp] at h
  | waiting l =>
      simp only [hp] at h
      exact .wait l hp h
  | copying l =>
      simp only [hp] at h
      cases h
      exact .returned l hp rfl
  | store =>
      simp only [hp] at h
      cases h
      exact .stored hp rfl
  | closeLogs =>
      simp only [hp] at h
      split at h <;> cases h
      have he : (s.closeStdout.closeStderr.goWaiter c .closeChan).waiters c = .closeChan :=
        Function.update_self _ _ _
      refine .step ?_ ?_ <;> rw [he] <;> simp [WaiterPc.open]
  | call =>
      simp only [hp] at h
      cases h
      refine .step (fun _ ↦ by rw [hp]; rfl) ?_
      rw [show (s.goWaiter c _).waiters c = _ from Function.update_self _ _ _]
      split <;> simp
  | closeChan =>
      simp only [hp] at h
      cases h
      have he : (s.goWaiter c .done).waiters c = .done := Function.update_self _ _ _
      refine .step ?_ ?_ <;> rw [he] <;> simp [WaiterPc.open]

theorem waiterStep_open (h : s.waiterStep c = some s') {i : CmdId}
    (hi : (s'.waiters i).open) : (s.waiters i).open := by
  by_cases hc : i = c
  · subst hc
    cases hp : s.waiters i with
    | off | done | crashed => simp [waiterStep, hp] at h
    | call | waiting | copying | store | closeLogs => rfl
    | closeChan =>
        simp only [waiterStep, hp] at h
        cases h
        simp [goWaiter, WaiterPc.open] at hi
  · rw [waiterStep_waiters h hc] at hi
    exact hi

theorem Logs.waitersTo (h : Logs cfg s s' a) (c : CmdId) : WaitersTo s s' c := by
  cases h with
  | keep _ _ _ hw => exact .same (by rw [hw])
  | setStdout _ hs | setStderr _ hs | spawn _ hs | poll _ _ hs => exact .same (by rw [hs]; rfl)
  | stdout _ hs => exact .same (by rw [hs, closeStdout_eq]; rfl)
  | stderr _ hs => exact .same (by rw [hs, closeStderr_eq]; rfl)
  | release hp hs =>
      rename_i t ch
      by_cases hc : c = (s.loops t).att
      · exact .launch t hp hc.symm (by rw [hs, hc]; exact Function.update_self _ _ _)
      · exact .same (by rw [hs]; exact Function.update_of_ne hc _ _)
  | @waiter i _ _ _ _ hs =>
      by_cases hc : c = i
      · rw [hc]
        exact waiterStep_to hs
      · exact .same (waiterStep_waiters hs hc)

theorem closeStdout_closed (hl : s.closeStdout.stdoutClosed c = true) :
    s.stdoutClosed c = true ∨ s.stdoutLog = some c := by
  unfold closeStdout at hl
  split at hl
  · rename_i i hi
    by_cases hc : c = i
    · exact .inr (hc ▸ hi)
    · dsimp only at hl
      rw [Function.update_of_ne hc] at hl
      exact .inl hl
  · exact .inl hl

theorem closeStderr_closed (hl : s.closeStderr.stderrClosed c = true) :
    s.stderrClosed c = true ∨ s.stderrLog = some c := by
  unfold closeStderr at hl
  split at hl
  · rename_i i hi
    by_cases hc : c = i
    · exact .inr (hc ▸ hi)
    · dsimp only at hl
      rw [Function.update_of_ne hc] at hl
      exact .inl hl
  · exact .inl hl

theorem waiterStep_closed (h : s.waiterStep c = some s') {l : CmdId}
    (hl : s'.stdoutClosed l = true ∨ s'.stderrClosed l = true) :
    (s.stdoutClosed l = true ∨ s.stderrClosed l = true) ∨ s.Closes (.waiter c) c l := by
  unfold waiterStep at h
  cases hp : s.waiters c with
  | off | done | crashed => simp [hp] at h
  | waiting l =>
      simp only [hp] at h
      obtain ⟨-, -, rfl⟩ | ⟨-, rfl⟩ := wait_eq_some h <;> exact .inl hl
  | closeLogs =>
      simp only [hp] at h
      split at h <;> cases h
      rcases hl with hl | hl
      · have hl : s.closeStdout.stdoutClosed l = true := by
          rw [closeStderr_eq] at hl
          exact hl
        rcases closeStdout_closed hl with hl | hl
        · exact .inl (.inl hl)
        · exact .inr (.waiter hp (.inl hl))
      · rcases closeStderr_closed (s := s.closeStdout) hl with hl | hl <;>
          rw [closeStdout_eq] at hl
        · exact .inl (.inr hl)
        · exact .inr (.waiter hp (.inr hl))
  | call | copying | store | closeChan =>
      simp only [hp] at h
      cases h
      exact .inl hl

/-- The loggers `Close` is called on are those of `Closes`. -/
theorem closes_of_closed (h : s.step cfg a = some s') {l : CmdId}
    (hl : s'.stdoutClosed l = true ∨ s'.stderrClosed l = true) :
    (s.stdoutClosed l = true ∨ s.stderrClosed l = true) ∨ ∃ c, s.Closes a c l := by
  cases step_logs h with
  | keep _ _ _ _ hx => rw [hx.1, hx.2] at hl; exact .inl hl
  | setStdout _ hs | setStderr _ hs | spawn _ hs | release _ hs | poll _ _ hs =>
      subst hs
      exact .inl hl
  | waiter _ _ _ _ hs => exact (waiterStep_closed hs hl).imp id fun hc ↦ ⟨_, hc⟩
  | stdout hp hs =>
      subst hs
      rcases hl with hl | hl
      · exact (closeStdout_closed hl).imp .inl fun hl ↦ ⟨_, .stdout hp hl⟩
      · rw [closeStdout_eq] at hl
        exact .inl (.inr hl)
  | stderr hp hs =>
      subst hs
      rcases hl with hl | hl
      · rw [closeStderr_eq] at hl
        exact .inl (.inl hl)
      · exact (closeStderr_closed hl).imp .inr fun hl ↦ ⟨_, .stderr hp hl⟩

end Sys

end Supervisord.Process
