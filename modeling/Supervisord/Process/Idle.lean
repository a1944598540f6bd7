import Supervisord.Process.Frame
import Supervisord.Process.Requests

/-!
# An idle process can be started

`Stop` tests `IsRunning` and stores `Stopping` later, and it holds no lock when it does.  Where
the start loop has come to its end in between, the process is left in `Stopping` with nobody to
store another state, and `run` will not start it again.  `idle_not_running` says that this late
store is all that can leave an idle process in a running state.
-/

namespace Supervisord.Process

/-- The stages in which `run` is still to store a state that is not a running one. -/
def Stage.underway : Stage → Bool
  | .pausing | .paused | .trying | .making | .made | .failed _ | .launching | .born | .watching
  | .seen | .settling | .judging | .excused | .judged _ | .exhausted => true
  | .idle | .entering | .checking | .refusing | .head | .failing | .over | .rested | .deciding
  | .ending => false

attribute [grind] Stage.underway

/-- `run` is still to store a state, or about to go on with an attempt. -/
def Core.Underway (c : Core) : Prop :=
  ∃ t, (c.loops t).stage.underway ∨ (c.loops t).stage = .head ∧ c.stopByUser = false

/-- `Stop` only stores `Stopping` while `run` is still to store a state. -/
def InTime (s : Sys) (a : Act) : Prop := ∀ t, s.label a = .stopping t → s.Underway

variable {cfg : Config} {c c' : Core} {k : Label}

theorem Core.Underway.move (hc : c.Inv) (hu : c.state.isRunning → c.Underway)
    (hi : ∀ t, k = .stopping t → c.Underway) (hm : Move cfg c k c')
    (hr : c'.state.isRunning) : c'.Underway := by
  by_cases hun : c.Underway
  · obtain ⟨t, ht⟩ := hun
    refine ⟨t, ?_⟩
    by_cases hk : k.loop = some t
    · -- it goes on, or it stores a state that is not a running one
      cases hm with
      | loop hs =>
          cases hk
          simp only [Function.update_self, hs]
          exact ht
      | accept _ hnot =>
          cases hk
          have hin := hc.turns.inStart t fun hidle ↦ by
            rw [hidle] at ht
            rcases ht with ht | ⟨ht, -⟩ <;> cases ht
          rw [hnot] at hin
          cases hin
      | quit hs hstop =>
          cases hk
          rw [hs, hstop] at ht
          rcases ht with ht | ⟨-, ht⟩ <;> cases ht
      | pass _ _ hl =>
          cases hk
          simp only [Function.update_self, hl]
          left
          split <;> rfl
      | createFatal | spawnFatal | retry | closeExited | closeStopped | backoff | exhaust
      | retryFatal => cases hr
      | spawn _ hl =>
          cases hk
          rcases hl with ⟨hl, -⟩ | ⟨hl, -⟩
          all_goals
            simp only [Function.update_self, hl]
            exact .inl rfl
      | pause _ hl | resume _ _ hl | starting _ hl | create _ hl | fail _ hl | up _ hl
      | release _ hl | see _ _ hl | tell _ hl | relock _ _ hl | excuse _ _ hl | blame _ _ hl
      | verdict _ hl =>
          cases hk
          simp only [Function.update_self, hl]
          exact .inl rfl
      | enter _ hs | refused hs | busy hs | clear hs | gaveUp hs | leave hs | rest hs | decide hs
      | finish _ hs =>
          cases hk
          rw [hs] at ht
          rcases ht with ht | ⟨ht, -⟩ <;> cases ht
      | _ => cases hk
    · rw [hm.loops_eq hk]
      cases hm with
      | accept => exact ht.imp_right fun h ↦ ⟨h.1, rfl⟩
      | stop hfree =>
          refine ht.imp_right fun h ↦ ?_
          have hheld := hc.locks.loop t (by rw [h.1]; rfl)
          rw [hfree] at hheld
          cases hheld
      | _ => exact ht
  · have hno : ¬c.state.isRunning := fun h ↦ hun (hu h)
    cases hm with
    | @starting t _ _ hl =>
        refine ⟨t, .inl ?_⟩
        simp only [Function.update_self, hl]
        rfl
    | stopping => exact absurd (hi _ rfl) hun
    | up hs => exact absurd ⟨_, .inl (by rw [hs]; rfl)⟩ hun
    | monRunning hs =>
        obtain ⟨t, -, ht⟩ := hc.watch.passed _ hs
        refine absurd ⟨t, .inl ?_⟩ hun
        rcases ht with ht | ht | ht <;> rw [ht] <;> rfl
    | _ => first | exact absurd hr hno | cases hr

/-- Where the state is a running one, somebody is still to store another. -/
theorem underway_of_running {s : Sys} (hs : (machine cfg).Reach InTime s)
    (hr : s.state.isRunning) : s.Underway := by
  refine hs.invariant (P := fun s ↦ s.state.isRunning → s.Underway) nofun ?_ hr
  intro s a s' hs hu hi hst
  have hc := reachable_inv hs.reachable
  exact Core.Underway.move hc hu hi (hc.step_move hst)

theorem Core.Underway.inStart (hc : c.Inv) (hu : c.Underway) : c.inStart = true := by
  obtain ⟨t, ht⟩ := hu
  refine hc.turns.inStart t fun hi ↦ ?_
  rw [hi] at ht
  rcases ht with ht | ⟨ht, -⟩ <;> cases ht

/-- A process between two start loops, seen from outside. -/
structure Sys.Idle (s : Sys) : Prop where
  child : ∀ i, (s.cmds i).alive = false
  inStart : s.inStart = false
  stops : ∀ t wait restart ph, s.callers t ≠ .stopChange wait restart ph

theorem exec_start (cfg : Config) {s : Sys} {t : Tid} (hi : s.inStart = false) (hk : s.lock = .free)
    (ht : s.callers t = .idle) : ∃ s', (machine cfg).exec s
      [.call t (.start false), .caller t .ok] = some s' ∧ (s'.loops t).pc = .enter ∧
        s'.stopByUser = false ∧ s'.lock = .free ∧ s'.state = s.state := by
  simp [Machine.exec, Machine.execWhile, machine, Sys.step, ht, Sys.goCaller, Sys.opEnter,
    Sys.callerStep, hk, hi, Sys.goLoop]

theorem exec_attempt (cfg : Config) {s : Sys} {t : Tid} (hp : (s.loops t).pc = .enter)
    (hu : s.stopByUser = false) (hk : s.lock = .free) (hr : s.state.isRunning = false) :
    ∃ s', (machine cfg).exec s (.replicate 6 (.loop t .ok)) = some s' ∧
      (s'.loops t).pc = .create := by
  -- `run` begins
  obtain ⟨s₁, h₁, hp₁, hu₁, hr₁⟩ : ∃ s₁, s.loopStep cfg t .ok = some s₁ ∧
      (s₁.loops t).pc = .check ∧ s₁.stopByUser = false ∧ s₁.state.isRunning = false := by
    simp [Sys.loopStep, hp, RWLock.lock, hk, hu, hr]
  obtain ⟨s₂, h₂, hp₂, hu₂, hn₂⟩ : ∃ s₂, s₁.loopStep cfg t .ok = some s₂ ∧
      (s₂.loops t).pc = .test ∧ s₂.stopByUser = false ∧ s₂.retryTimes = 0 := by
    simp [Sys.loopStep, hp₁, hr₁, hu₁, Sys.goLoop]
  obtain ⟨s₃, h₃, hp₃⟩ : ∃ s₃, s₂.loopStep cfg t .ok = some s₃ ∧
      (s₃.loops t).pc = .change .starting .load := by
    simp [Sys.loopStep, hp₂, hu₂, hn₂, Sys.goLoop]
  -- the state is `Starting`
  obtain ⟨s₄, h₄, hp₄⟩ : ∃ s₄, s₃.loopStep cfg t .ok = some s₄ ∧
      (s₄.loops t).pc = .change .starting (.emit s₃.state) := by
    simp [Sys.loopStep, hp₃, Sys.goLoop]
  obtain ⟨s₅, h₅, hp₅⟩ : ∃ s₅, s₄.loopStep cfg t .ok = some s₅ ∧
      (s₅.loops t).pc = .change .starting .store := by
    cases hg : cfg.isProgram <;>
      simp [Sys.loopStep, hp₄, Sys.goLoop, Sys.emit, Sys.event, hg, Change.target]
  obtain ⟨s₆, h₆, hp₆⟩ : ∃ s₆, s₅.loopStep cfg t .ok = some s₆ ∧
      (s₆.loops t).pc = .create := by
    simp [Sys.loopStep, hp₅, Sys.changed, Sys.goLoop]
  refine ⟨s₆, ?_, hp₆⟩
  rw [List.replicate, Machine.exec_cons h₁, List.replicate, Machine.exec_cons h₂, List.replicate,
    Machine.exec_cons h₃, List.replicate, Machine.exec_cons h₄, List.replicate,
    Machine.exec_cons h₅, List.replicate, Machine.exec_cons h₆]
  rfl

theorem exec_spawn (cfg : Config) {s : Sys} {t : Tid} (hp : (s.loops t).pc = .create) :
    ∃ s', (machine cfg).exec s (.replicate 5 (.loop t .ok)) = some s' ∧
      (s'.cmds s.nextCmd).alive = true := by
  obtain ⟨s₁, h₁, hp₁, ha₁, hc₁⟩ : ∃ s₁, s.loopStep cfg t .ok = some s₁ ∧
      (s₁.loops t).pc = .setUser ∧ (s₁.loops t).att = s.nextCmd ∧ s₁.cmds s.nextCmd = {} := by
    simp [Sys.loopStep, hp]
  obtain ⟨s₂, h₂, hp₂, ha₂, hc₂⟩ : ∃ s₂, s₁.loopStep cfg t .ok = some s₂ ∧
      (s₂.loops t).pc = .setStdoutLog ∧ (s₂.loops t).att = s.nextCmd ∧
        s₂.cmds s.nextCmd = {} := by
    simp [Sys.loopStep, hp₁, ha₁, hc₁, Sys.goLoop]
  obtain ⟨s₃, h₃, hp₃, ha₃, hc₃⟩ : ∃ s₃, s₂.loopStep cfg t .ok = some s₃ ∧
      (s₃.loops t).pc = .setStderrLog ∧ (s₃.loops t).att = s.nextCmd ∧
        s₃.cmds s.nextCmd = {} := by
    simp [Sys.loopStep, hp₂, ha₂, hc₂, Sys.goLoop]
  obtain ⟨s₄, h₄, hp₄, ha₄, hc₄⟩ : ∃ s₄, s₃.loopStep cfg t .ok = some s₄ ∧
      (s₄.loops t).pc = .spawn ∧ (s₄.loops t).att = s.nextCmd ∧
        s₄.cmds s.nextCmd = {} := by
    simp [Sys.loopStep, hp₃, ha₃, hc₃, Sys.goLoop]
  obtain ⟨s₅, h₅, halive⟩ : ∃ s₅, s₄.loopStep cfg t .ok = some s₅ ∧
      (s₅.cmds s.nextCmd).alive = true := by
    simp [Sys.loopStep, hp₄, ha₄, hc₄, Sys.spawned, Sys.goLoop, Cmd.alive]
  refine ⟨s₅, ?_, halive⟩
  rw [List.replicate, Machine.exec_cons h₁, List.replicate, Machine.exec_cons h₂, List.replicate,
    Machine.exec_cons h₃, List.replicate, Machine.exec_cons h₄, List.replicate,
    Machine.exec_cons h₅]
  rfl

/-- A process that is not running can be started, and then has a child. -/
theorem can_spawn {s : Sys} {t : Tid} (hi : s.inStart = false) (hr : s.state.isRunning = false)
    (hk : s.lock = .free) (ht : s.callers t = .idle) :
    ∃ as s' i, (machine cfg).exec s (.call t (.start false) :: as) = some s' ∧
      (s'.cmds i).alive = true := by
  obtain ⟨s₁, h₁, hp₁, hu₁, hk₁, hs₁⟩ := exec_start cfg hi hk ht
  obtain ⟨s₂, h₂, hp₂⟩ := exec_attempt cfg hp₁ hu₁ hk₁ (hs₁ ▸ hr)
  obtain ⟨s₃, h₃, ha₃⟩ := exec_spawn cfg hp₂
  refine ⟨.caller t .ok :: (.replicate 6 (.loop t .ok) ++ .replicate 5 (.loop t .ok)), s₃,
    s₂.nextCmd, ?_, ha₃⟩
  rw [← h₃, ← Machine.exec_append h₂, ← Machine.exec_append h₁]
  rfl

/-- **An idle process is not running, and can be started**, if every `Stop` that has seen the
process running stores `Stopping` before `run` has stored the outcome. -/
theorem idle_not_running {s : Sys} (hs : (machine cfg).Reach InTime s) (hi : s.Idle) :
    s.state.isRunning = false ∧ ∀ t, s.lock = .free → s.callers t = .idle →
      ∃ as s' i, (machine cfg).exec s (.call t (.start false) :: as) = some s' ∧
        (s'.cmds i).alive = true := by
  have hr : s.state.isRunning = false := by
    by_contra hr
    have hu := underway_of_running hs (by simpa using hr)
    have hin := hu.inStart (reachable_inv hs.reachable)
    rw [hi.inStart] at hin
    cases hin
  exact ⟨hr, fun t hk ht ↦ can_spawn hi.inStart hr hk ht⟩

/-- No child is alive where no start loop is active. -/
theorem Core.Inv.not_alive (hc : c.Inv) (hi : c.inStart = false) (i : CmdId) :
    (c.cmds i).alive = false := by
  by_contra ha
  obtain ⟨t, -, ht⟩ := hc.child.alive i (by simpa using ha)
  have hin := hc.turns.inStart t fun hi ↦ by
    rw [hi] at ht
    rcases ht with ht | ⟨ht, -⟩ <;> cases ht
  rw [hi] at hin
  cases hin

set_option maxRecDepth 4000 in
/-- A program is stopped and its start loop ends. -/
theorem idle_not_running_stopped : ∃ s : Sys, (machine {}).Reach InTime s ∧ s.Idle ∧
    s.state.isRunning = false := by
  obtain ⟨s, hs, hp⟩ : ∃ s, (machine {}).Reach (fun s a ↦ InTime s a ∧ CallsBelow 2 a) s ∧ _ :=
    Machine.exists_reach
    (fun s a ↦ CallsBelow 2 a && match s.label a with
      | .stopping _ => (s.loops 0).stage = .watching
      | _ => true)
    (fun s ↦ s.inStart = false ∧ s.callers 0 = .done ∧ s.callers 1 = .done)
    (List.flatten [startAndRun, [.call 1 (.stop false)], .replicate 6 (.caller 1 .ok),
      [.exit 0 (some 0)], .replicate 6 (.waiter 0), .replicate 12 (.loop 0 .ok)])
    (fun s a _ hp ↦ by
      obtain ⟨hb, hw⟩ := Bool.and_eq_true_iff.mp hp
      refine ⟨fun t ht ↦ ⟨0, .inl ?_⟩, hb⟩
      rw [ht] at hw
      rw [of_decide_eq_true hw]
      rfl)
    (by decide +kernel)
  obtain ⟨hin, h₀, h₁⟩ := of_decide_eq_true hp
  have hidle : s.Idle :=
    { child := (reachable_inv hs.reachable).not_alive hin
      inStart := hin
      stops := by
        intro t wait restart ph
        match t with
        | 0 => rw [h₀]; exact nofun
        | 1 => rw [h₁]; exact nofun
        | t + 2 => rw [callers_idle hs (fun _ _ h ↦ h.2) (Nat.le_add_left 2 t)]; exact nofun }
  have hs := hs.mono fun _ _ h ↦ h.1
  exact ⟨s, hs, hidle, (idle_not_running hs hidle).1⟩

set_option maxRecDepth 4000 in
/-- A `Stop` that stores `Stopping` when the start loop has ended leaves the process stopping
for ever. -/
theorem idle_stopping : ¬∀ (cfg : Config) (s : Sys), (machine cfg).Reachable s → s.Idle →
    s.state.isRunning = false := by
  intro h
  obtain ⟨s, hs, hp⟩ : ∃ s, (machine {}).Reach (fun _ a ↦ CallsBelow 2 a) s ∧ _ :=
    Machine.exists_reach (fun _ a ↦ CallsBelow 2 a)
    (fun s ↦ s.inStart = false ∧ s.callers 0 = .done ∧ s.callers 1 = .stopLaunch false false ∧
      s.state = .stopping)
    (List.flatten [startAndRun, [.call 1 (.stop false)], .replicate 4 (.caller 1 .ok),
      [.exit 0 (some 0)], .replicate 6 (.waiter 0), .replicate 12 (.loop 0 .ok),
      [.caller 1 .ok]]) (fun _ _ _ h ↦ h) (by decide +kernel)
  obtain ⟨hin, h₀, h₁, hst⟩ := of_decide_eq_true hp
  have hidle : s.Idle :=
    { child := (reachable_inv hs.reachable).not_alive hin
      inStart := hin
      stops := by
        intro t wait restart ph
        match t with
        | 0 => rw [h₀]; exact nofun
        | 1 => rw [h₁]; exact nofun
        | t + 2 => rw [callers_idle hs (fun _ _ h ↦ h) (Nat.le_add_left 2 t)]; exact nofun }
  have hr := h {} s hs.reachable hidle
  rw [hst] at hr
  cases hr

end Supervisord.Process
