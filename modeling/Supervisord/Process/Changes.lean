import Supervisord.Process.Frame

/-!
# Who changes the state

The state is stored by `changeStateTo`, which `run`, `monitorProgramIsRunning` and `Stop` call,
and behind its back by `waitForExit`.  `changeStateTo` loads the state, emits an event and stores
the new state, in three steps between which other goroutines may move: `Stop` calls it without the
lock.

`Changing` is what a goroutine that may call `changeStateTo` does in a step of its own, and
`step_changing_of_ne` says that nobody else moves it.
-/

namespace Supervisord.Process

/-- A goroutine that may call `changeStateTo`. -/
inductive Changer where
  | loop (t : Tid)
  | monitor (c : CmdId)
  | caller (t : Tid)
deriving DecidableEq

/-- The goroutine that moves. -/
def Act.changer : Act → Option Changer
  | .loop t _ => some (.loop t)
  | .monitor c => some (.monitor c)
  | .caller t _ => some (.caller t)
  | .call _ _ | .stopper _ _ | .waiter _ | .closer _ | .exit _ _ | .sigchld => none

/-! ## Inside of `changeStateTo` -/

/-- The state `changeStateTo` was called with, and how far it has come. -/
def LoopPc.changing : LoopPc → Option (State × Phase)
  | .change k ph => some (k.target, ph)
  | _ => none

def MonitorPc.changing : MonitorPc → Option (State × Phase)
  | .change ph => some (.running, ph)
  | _ => none

def CallerPc.changing : CallerPc → Option (State × Phase)
  | .stopChange _ _ ph => some (.stopping, ph)
  | _ => none

namespace Sys

/-- The call of `changeStateTo` a goroutine is in. -/
def changing (s : Sys) : Changer → Option (State × Phase)
  | .loop t => (s.loops t).pc.changing
  | .monitor c => (s.monitors c).pc.changing
  | .caller t => (s.callers t).changing

/-- What a goroutine does in a step of its own to the state and to the events, and where it stands
in `changeStateTo`. -/
inductive Changing (cfg : Config) (s s' : Sys) (x : Changer) : Prop
  | outside (h : s.changing x = none) (hs : s'.state = s.state) (he : s'.events = s.events)
      (hx : ∀ st ph, s'.changing x = some (st, ph) → ph = .load)
      (hm : ∀ c, x = .monitor c → s'.changing x ≠ none → s.state = .starting)
  | load {st : State} (h : s.changing x = some (st, .load)) (hs : s'.state = s.state)
      (he : s'.events = s.events) (hx : s'.changing x = some (st, .emit s.state))
  | emit {st old : State} (h : s.changing x = some (st, .emit old)) (hs : s'.state = s.state)
      (he : cfg.isProgram = true → ∃ e : Event, e.newState = st ∧ e.fromState = old ∧
        s'.events = s.events ++ [e]) (hx : s'.changing x = some (st, .store))
  | crash {st old : State} (h : s.changing x = some (st, .emit old)) (hs : s'.state = s.state)
      (he : s'.events = s.events) (hx : s'.changing x = none)
  | store {st : State} (h : s.changing x = some (st, .store)) (hs : s'.state = st)
      (he : s'.events = s.events) (hx : ∀ st ph, s'.changing x = some (st, ph) → ph = .load)

attribute [simp] LoopPc.changing MonitorPc.changing CallerPc.changing

variable {cfg : Config} {s s' s₁ : Sys} {a : Act} {t u : Tid} {ch : Choice} {c : CmdId}

@[simp] theorem changing_goLoop (pc : LoopPc) :
    (s.goLoop t pc).changing (.loop t) = pc.changing := by
  simp [changing, goLoop]

@[simp] theorem changing_goMonitor (pc : MonitorPc) :
    (s.goMonitor c pc).changing (.monitor c) = pc.changing := by
  simp [changing, goMonitor]

@[simp] theorem changing_goCaller (pc : CallerPc) :
    (s.goCaller t pc).changing (.caller t) = pc.changing := by
  simp [changing, goCaller]

theorem event_states {new old : State} {e : Event} (h : s.event cfg new old = some e) :
    e.newState = new ∧ e.fromState = old := by
  unfold event at h
  cases new with
  | starting | backoff | fatal | unknown =>
      cases h
      exact ⟨rfl, rfl⟩
  | running | stopping | stopped | exited =>
      obtain ⟨i, -, rfl⟩ := Option.map_eq_some_iff.mp h
      exact ⟨rfl, rfl⟩

theorem emit_events {new old : State} (h : s.emit cfg new old = some s') (hp : cfg.isProgram) :
    ∃ e : Event, e.newState = new ∧ e.fromState = old ∧ s'.events = s.events ++ [e] := by
  rw [emit, if_pos hp] at h
  obtain ⟨e, he, rfl⟩ := Option.map_eq_some_iff.mp h
  obtain ⟨hn, ho⟩ := event_states he
  exact ⟨e, hn, ho, rfl⟩

theorem emit_state {new old : State} (h : s.emit cfg new old = some s') :
    s'.state = s.state := by
  rw [emit_toCore h]

theorem finishCbWrapper_state {r : Nat} : (s.finishCbWrapper t r).state = s.state := by
  rw [finishCbWrapper_toCore]

theorem finishCbWrapper_events {r : Nat} : (s.finishCbWrapper t r).events = s.events := by
  unfold finishCbWrapper
  split <;> rfl

@[simp] theorem kill_events (b g : Bool) (sent : Option (CmdId × String × Bool)) :
    (s.kill t b g sent).events = s.events := by
  cases sent <;> rfl

@[simp] theorem closeStdout_events : s.closeStdout.events = s.events := by
  unfold closeStdout
  split <;> rfl

@[simp] theorem closeStderr_events : s.closeStderr.events = s.events := by
  unfold closeStderr
  split <;> rfl

/-! ## The own steps -/

/-- A start loop that goes on outside of `changeStateTo`, or enters it. -/
theorem outside_loop (hp : (s.loops t).pc.changing = none) (hs : s'.state = s.state)
    (he : s'.events = s.events) (hpc : ∀ k ph, (s'.loops t).pc = .change k ph → ph = .load) :
    Changing cfg s s' (.loop t) := by
  refine .outside hp hs he (fun st ph h ↦ ?_) nofun
  simp only [changing] at h
  cases hq : (s'.loops t).pc with
  | change k ph' =>
      rw [hq] at h
      cases h
      exact hpc k ph hq
  | _ =>
      rw [hq] at h
      cases h

/-- A start loop stores no state but in `changeStateTo`. -/
theorem loopStep_changing (h : s.loopStep cfg t ch = some s') : Changing cfg s s' (.loop t) := by
  unfold loopStep at h
  cases hp : (s.loops t).pc with
  | change k ph =>
      have hx : s.changing (.loop t) = some (k.target, ph) := by simp [changing, hp]
      cases ph with
      | load =>
          simp only [hp] at h
          cases h
          exact .load hx rfl rfl (changing_goLoop _)
      | emit old =>
          simp only [hp] at h
          split at h
          · rename_i s₁ he
            cases h
            have hs := emit_state he
            have hev := emit_events he
            exact .emit hx hs hev (changing_goLoop _)
          · cases h
            exact .crash hx rfl rfl (changing_goLoop _)
      | store =>
          simp only [hp] at h
          cases h
          cases k with
          | exitBackoff =>
              refine .store hx rfl rfl fun st ph h ↦ ?_
              simp only [changed, changing_goLoop] at h
              split at h <;> cases h
              rfl
          | _ => exact .store hx rfl rfl (by simp [changed])
  | off | done | crashed => simp [hp] at h
  | create | setUser =>
      cases ch <;> simp only [hp] at h <;> cases h <;>
        exact outside_loop (by rw [hp]; rfl) rfl rfl (by simp [goLoop])
  | spawn =>
      have hn : (s.loops t).pc.changing = none := by rw [hp]; rfl
      cases ch <;> simp only [hp] at h <;> cases h
      · refine outside_loop hn rfl rfl fun k ph h ↦ ?_
        simp only [spawned, goLoop, Function.update_self] at h
        split at h <;> cases h
        rfl
      · exact outside_loop hn rfl rfl (by simp [goLoop])
  | fatalCb =>
      simp only [hp] at h
      cases h
      exact outside_loop (by rw [hp]; rfl) finishCbWrapper_state finishCbWrapper_events
        (by simp [goLoop])
  | enter | paused | relock =>
      simp only [hp, Option.map_eq_some_iff] at h
      obtain ⟨_, _, rfl⟩ := h
      exact outside_loop (by rw [hp]; rfl) rfl rfl (by simp [goLoop])
  | _ =>
      simp only [hp] at h
      repeat' split at h
      all_goals cases h
      all_goals exact outside_loop (by rw [hp]; rfl) rfl rfl (by simp [goLoop])

theorem monitorStep_changing (h : s.monitorStep cfg c = some s') :
    Changing cfg s s' (.monitor c) := by
  have hout (s₁ : Sys) (pc : MonitorPc) (hp : (s.monitors c).pc.changing = none)
      (hs : s₁.state = s.state) (he : s₁.events = s.events) (hpc : ∀ ph, pc ≠ .change ph) :
      Changing cfg s (s₁.goMonitor c pc) (.monitor c) := by
    have hn : (s₁.goMonitor c pc).changing (.monitor c) = none := by
      rw [changing_goMonitor]
      cases pc with
      | change ph => exact absurd rfl (hpc ph)
      | _ => rfl
    exact .outside hp hs he (by simp [hn]) fun _ _ hne ↦ absurd hn hne
  unfold monitorStep at h
  cases hp : (s.monitors c).pc with
  | off | done | crashed => simp [hp] at h
  | change ph =>
      have hx : s.changing (.monitor c) = some (.running, ph) := by simp [changing, hp]
      cases ph with
      | load =>
          simp only [hp] at h
          cases h
          exact .load hx rfl rfl (changing_goMonitor _)
      | emit old =>
          simp only [hp] at h
          split at h
          · rename_i s₁ he
            cases h
            have hs := emit_state he
            have hev := emit_events he
            exact .emit hx hs hev (changing_goMonitor _)
          · cases h
            exact .crash hx rfl rfl (changing_goMonitor _)
      | store =>
          simp only [hp] at h
          cases h
          exact .store hx rfl rfl (by simp)
  | checkState =>
      simp only [hp] at h
      cases h
      refine .outside (by simp [changing, hp]) rfl rfl (fun st ph h ↦ ?_) fun _ _ hne ↦ ?_
      · rw [changing_goMonitor] at h
        split at h <;> cases h
        rfl
      · by_contra hs
        rw [changing_goMonitor, if_neg hs] at hne
        exact hne rfl
  | leave =>
      simp only [hp] at h
      cases h
      exact .outside (by simp [changing, hp]) rfl rfl (by simp [changing]) fun _ _ hne ↦
        absurd (by simp [changing]) hne
  | callback =>
      simp only [hp] at h
      cases h
      exact hout _ _ (by rw [hp]; rfl) finishCbWrapper_state finishCbWrapper_events
        nofun
  | enter =>
      simp only [hp, Option.map_eq_some_iff] at h
      obtain ⟨_, _, rfl⟩ := h
      exact hout _ _ (by rw [hp]; rfl) rfl rfl nofun
  | checkExited =>
      simp only [hp] at h
      cases h
      refine hout _ _ (by rw [hp]; rfl) rfl rfl fun ph ↦ ?_
      split <;> exact nofun
  | poll | unlock =>
      simp only [hp] at h
      cases h
      exact hout _ _ (by rw [hp]; rfl) rfl rfl nofun

theorem callerStep_changing (h : s.callerStep cfg t ch = some s') :
    Changing cfg s s' (.caller t) := by
  have hout (s₁ : Sys) (pc : CallerPc) (hp : (s.callers t).changing = none)
      (hs : s₁.state = s.state) (he : s₁.events = s.events)
      (hpc : ∀ wait restart ph, pc = .stopChange wait restart ph → ph = .load) :
      Changing cfg s (s₁.goCaller t pc) (.caller t) := by
    refine .outside hp hs he (fun st ph h ↦ ?_) nofun
    rw [changing_goCaller] at h
    cases pc with
    | stopChange wait restart ph' =>
        cases h
        exact hpc wait restart ph rfl
    | _ => cases h
  unfold callerStep at h
  cases hp : s.callers t with
  | idle | condWait | done | crashed => simp [hp] at h
  | stopChange wait restart ph =>
      have hx : s.changing (.caller t) = some (.stopping, ph) := by simp [changing, hp]
      cases ph with
      | load =>
          simp only [hp] at h
          cases h
          exact .load hx rfl rfl (changing_goCaller _)
      | emit old =>
          simp only [hp] at h
          split at h
          · rename_i s₁ he
            cases h
            have hs := emit_state he
            have hev := emit_events he
            exact .emit hx hs hev (changing_goCaller _)
          · cases h
            exact .crash hx rfl rfl (changing_goCaller _)
      | store =>
          simp only [hp] at h
          cases h
          exact .store hx rfl rfl (by simp)
  | checking =>
      cases ch <;> simp only [hp] at h <;> cases h <;>
        refine hout _ _ (by rw [hp]; rfl) rfl rfl ?_ <;> (repeat' split) <;> exact nofun
  | signalEnter checked sigs =>
      simp only [hp, Option.map_eq_some_iff] at h
      obtain ⟨k, _, rfl⟩ := h
      split
      · exact hout _ _ (by rw [hp]; rfl) rfl rfl nofun
      · split <;> exact hout _ _ (by rw [hp]; rfl) rfl rfl nofun
  | signalling job =>
      simp only [hp, Option.map_eq_some_iff] at h
      obtain ⟨res, _, rfl⟩ := h
      cases res with
      | more job' sent =>
          exact hout _ _ (by rw [hp]; rfl) (congrArg Core.state (kill_toCore _ _ _))
            (kill_events _ _ _) nofun
      | done | crash => exact hout _ _ (by rw [hp]; rfl) rfl rfl nofun
  | stopCheck wait restart | stopWait restart =>
      simp only [hp] at h
      split at h <;> cases h <;> refine hout _ _ (by rw [hp]; rfl) rfl rfl ?_ <;>
        cases restart <;> simp [CallerPc.stopReturn]
  | stopLaunch wait restart =>
      simp only [hp] at h
      cases h
      refine hout _ _ (by rw [hp]; rfl) rfl rfl ?_
      cases wait <;> cases restart <;> simp [CallerPc.stopReturn]
  | _ =>
      simp only [hp] at h
      repeat' split at h
      all_goals cases h
      all_goals refine hout _ _ (by rw [hp]; rfl) rfl rfl ?_
      all_goals exact nofun

/-- Every step of a goroutine that may call `changeStateTo`. -/
theorem step_changing {x : Changer} (h : s.step cfg a = some s') (ha : a.changer = some x) :
    Changing cfg s s' x := by
  cases a with
  | loop t ch =>
      cases ha
      exact loopStep_changing h
  | monitor c =>
      cases ha
      exact monitorStep_changing h
  | caller t ch =>
      cases ha
      exact callerStep_changing h
  | _ => cases ha

/-! ## The steps of others -/

/-- What the steps of the other goroutines do: only `waitForExit` stores a state. -/
structure Bystands (s s' : Sys) (a : Act) : Prop where
  events : s'.events = s.events
  monitors : s'.monitors = s.monitors
  state : s'.state = s.state ∨ ∃ c, s.label a = .stopped c ∧ s'.state = .stopped

theorem step_bystands (h : s.step cfg a = some s') (ha : a.changer = none) :
    Bystands s s' a := by
  have hcore (he : s'.events = s.events) (hc : s'.toCore = s.toCore) : Bystands s s' a :=
    ⟨he, congrArg Core.monitors hc, .inl (congrArg Core.state hc)⟩
  cases a with
  | loop | monitor | caller => cases ha
  | call u op =>
      simp only [step] at h
      split at h <;> cases h
      exact hcore rfl rfl
  | stopper u ch =>
      simp only [step, stopperStep] at h
      cases hp : s.stoppers u with
      | off | done | crashed => simp [hp] at h
      | check =>
          simp only [hp] at h
          cases h
          exact hcore rfl rfl
      | send kill =>
          simp only [hp, Option.map_eq_some_iff] at h
          obtain ⟨k, _, rfl⟩ := h
          split <;> exact ⟨rfl, rfl, .inl rfl⟩
      | killing kill job =>
          simp only [hp, Option.map_eq_some_iff] at h
          obtain ⟨res, _, rfl⟩ := h
          cases res with
          | more job' sent => exact hcore (kill_events _ _ _) (kill_toCore _ _ _)
          | done | crash => exact ⟨rfl, rfl, .inl rfl⟩
  | waiter c =>
      simp only [step, waiterStep] at h
      cases hp : s.waiters c with
      | off | done | crashed => simp [hp] at h
      | waiting l =>
          simp only [hp] at h
          obtain ⟨-, -, rfl⟩ | ⟨-, rfl⟩ := wait_eq_some h <;> exact ⟨rfl, rfl, .inl rfl⟩
      | store =>
          simp only [hp] at h
          cases h
          exact ⟨rfl, rfl, .inr ⟨c, by simp [label, hp], rfl⟩⟩
      | closeLogs =>
          simp only [hp] at h
          split at h <;> cases h
          have hsame : s.closeStdout.closeStderr.toCore = s.toCore :=
            closeStderr_toCore.trans closeStdout_toCore
          refine ⟨closeStderr_events.trans closeStdout_events, ?_, .inl ?_⟩
          · exact (congrArg Core.monitors hsame :)
          · exact (congrArg Core.state hsame :)
      | call | copying | closeChan =>
          simp only [hp] at h
          cases h
          exact ⟨rfl, rfl, .inl rfl⟩
  | closer c =>
      refine hcore ?_ (closerStep_toCore h)
      simp only [step, closerStep] at h
      repeat' split at h
      all_goals cases h
      · rfl
      · exact closeStdout_events
      · exact closeStderr_events
  | exit c status =>
      simp only [step, exitStep] at h
      split at h <;> cases h
      exact ⟨rfl, rfl, .inl rfl⟩
  | sigchld =>
      cases h
      exact ⟨rfl, rfl, .inl rfl⟩

/-- A monitor that stores `Running` watches the child of a start loop. -/
theorem passed_of_changing (h : (s.monitors c).pc.changing ≠ none) :
    (s.monitors c).stage = .passed := by
  rw [Monitor.stage]
  cases hp : (s.monitors c).pc with
  | change ph => rfl
  | _ => simp [hp] at h

theorem loopStep_monitors (hc : s.toCore.Inv) (h : s.loopStep cfg t ch = some s') (c : CmdId) :
    (s'.monitors c).pc.changing = (s.monitors c).pc.changing := by
  have hnone (hi : c = (s.loops t).att) (hs : (s.loops t).stage = .made ∨
      (s.loops t).stage = .launching) : (s.monitors c).pc.changing = none := by
    by_contra hne
    have hm := passed_of_changing hne
    rcases hs with hs | hs
    · have hst := hc.ids.monitor c (by rw [hm]; exact nofun)
      rw [hi, hc.ids.made t hs] at hst
      cases hst
    · obtain ⟨u, -, hu⟩ := hc.watch.passed c hm
      have htu := hc.turns.one t u (by rw [hs]; exact nofun)
        (by rcases hu with hu | hu | hu <;> rw [hu] <;> exact nofun)
      rw [← htu, hs] at hu
      rcases hu with hu | hu | hu <;> cases hu
  have hupd (w : Monitor) (hw : w.pc.changing = none) (hs : (s.loops t).stage = .made ∨
      (s.loops t).stage = .launching) :
      (Function.update s.monitors (s.loops t).att w c).pc.changing =
        (s.monitors c).pc.changing := by
    by_cases hi : c = (s.loops t).att
    · rw [hnone hi hs, hi, Function.update_self, hw]
    · rw [Function.update_of_ne hi]
  unfold loopStep at h
  cases hp : (s.loops t).pc with
  | change k ph =>
      cases ph with
      | emit old =>
          simp only [hp] at h
          split at h
          · rename_i s₁ he
            cases h
            show (s₁.monitors c).pc.changing = _
            rw [emit_toCore he]
          · cases h
            rfl
      | load =>
          simp only [hp] at h
          cases h
          rfl
      | store =>
          simp only [hp] at h
          cases h
          cases k with
          | running => exact hupd _ rfl (.inr (by rw [Loop.stage, hp]; rfl))
          | _ => rfl
  | off | done | crashed => simp [hp] at h
  | create | setUser =>
      cases ch <;> simp only [hp] at h <;> cases h <;> rfl
  | spawn =>
      cases ch <;> simp only [hp] at h <;> cases h
      · refine hupd _ ?_ (.inl (by rw [Loop.stage, hp]; rfl))
        dsimp only
        split <;> rfl
      · rfl
  | seen =>
      simp only [hp] at h
      cases h
      simp only [goLoop, Function.update_apply]
      split
      · rename_i hi
        rw [hi]
      · rfl
  | fatalCb =>
      simp only [hp] at h
      cases h
      show ((s.finishCbWrapper t (s.loops t).rid).monitors c).pc.changing = _
      rw [finishCbWrapper_toCore]
  | enter | paused | relock =>
      simp only [hp, Option.map_eq_some_iff] at h
      obtain ⟨_, _, rfl⟩ := h
      rfl
  | _ =>
      simp only [hp] at h
      repeat' split at h
      all_goals cases h
      all_goals rfl

theorem monitorStep_monitors (h : s.monitorStep cfg c = some s') {d : CmdId} (hd : d ≠ c) :
    s'.monitors d = s.monitors d := by
  have hgo (s₁ : Sys) (pc : MonitorPc) (hs : s₁.monitors = s.monitors) :
      (s₁.goMonitor c pc).monitors d = s.monitors d := by
    rw [← hs]
    exact Function.update_of_ne hd _ _
  unfold monitorStep at h
  cases hp : (s.monitors c).pc with
  | off | done | crashed => simp [hp] at h
  | change ph =>
      cases ph <;> simp only [hp] at h
      case emit =>
        split at h <;> cases h
        · exact hgo _ _ (congrArg Core.monitors (emit_toCore ‹_›))
        · exact hgo _ _ rfl
      all_goals
        cases h
        exact hgo _ _ rfl
  | callback =>
      simp only [hp] at h
      cases h
      refine hgo _ _ ?_
      rw [finishCbWrapper_toCore]
  | enter =>
      simp only [hp, Option.map_eq_some_iff] at h
      obtain ⟨_, _, rfl⟩ := h
      exact hgo _ _ rfl
  | leave =>
      simp only [hp] at h
      cases h
      exact Function.update_of_ne hd _ _
  | poll | checkExited | checkState | unlock =>
      simp only [hp] at h
      cases h
      exact hgo _ _ rfl

theorem callerStep_monitors (h : s.callerStep cfg t ch = some s') :
    s'.monitors = s.monitors := by
  unfold callerStep at h
  cases hp : s.callers t with
  | stopChange wait restart ph =>
      cases ph <;> simp only [hp] at h
      case emit =>
        split at h <;> cases h
        · rename_i s₁ he
          show s₁.monitors = s.monitors
          rw [emit_toCore he]
        · rfl
      all_goals
        cases h
        rfl
  | checking =>
      cases ch <;> simp only [hp] at h <;> cases h <;> rfl
  | signalEnter checked sigs =>
      simp only [hp, Option.map_eq_some_iff] at h
      obtain ⟨k, _, rfl⟩ := h
      repeat' split
      all_goals rfl
  | signalling job =>
      simp only [hp, Option.map_eq_some_iff] at h
      obtain ⟨res, _, rfl⟩ := h
      cases res with
      | more job' sent => exact congrArg Core.monitors (kill_toCore _ _ _)
      | done | crash => rfl
  | _ =>
      simp only [hp] at h
      repeat' split at h
      all_goals cases h
      all_goals rfl

/-- Nobody else moves a goroutine in `changeStateTo`, or into it. -/
theorem step_changing_of_ne (hc : s.toCore.Inv) {x : Changer} (h : s.step cfg a = some s')
    (hx : a.changer ≠ some x) : s'.changing x = s.changing x := by
  cases x with
  | monitor c =>
      simp only [changing]
      cases a with
      | loop u ch => exact loopStep_monitors hc h c
      | caller u ch => rw [callerStep_monitors h]
      | monitor d =>
          have hcd : c ≠ d := by
            rintro rfl
            exact hx rfl
          rw [monitorStep_monitors h hcd]
      | _ => rw [(step_bystands h rfl).monitors]
  | loop t =>
      simp only [changing]
      by_cases hl : (s.label a).loop = some t
      · rcases label_loop hl with ⟨ch, rfl⟩ | hl
        · exact absurd rfl hx
        · -- a start loop is launched where there is none
          have hm := hc.step_move h
          rw [hl] at hm
          have hn : ∀ {pc : LoopPc}, pc.stage = .idle ∨ pc.stage = .entering →
              pc.changing = none := by
            intro pc hp
            cases pc with
            | change k ph => cases k <;> rcases hp with hp | hp <;> cases hp
            | _ => rfl
          have hold : (s.loops t).stage = .idle := by
            by_contra hi
            have hin := hc.turns.inStart t hi
            generalize s'.toCore = c' at hm
            cases hm with
            | accept hk hi => rw [hi] at hin; cases hin
          have hnew : (s'.loops t).stage = .entering := by
            generalize s'.toCore = c' at hm
            cases hm with
            | accept hk hi hl =>
                show (Function.update s.loops t _ t).stage = _
                rw [Function.update_self]
                exact hl
          rw [hn (.inl hold), hn (.inr hnew)]
      · rw [(hc.step_move h).loops_eq hl]
  | caller t =>
      simp only [changing]
      rcases step_callers h t with ⟨op, -, hi, hop⟩ | ⟨ch, rfl⟩ | ha
      · rw [hi, hop]
        cases op <;> rfl
      · exact absurd rfl hx
      · generalize s.callers t = pc at ha
        generalize s'.callers t = pc' at ha
        cases ha <;> rfl

end Sys

end Supervisord.Process
