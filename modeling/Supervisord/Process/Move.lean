import Supervisord.Process.Step

/-!
# What a step can do to the core

The steps of `Supervisord.Process.Step` have some seventy branches.  What they do to the
`Core` — the part of the state `run`, `waitForExit`, `monitorProgramIsRunning` and `Stop` race
for — comes down to the moves of this file, in which a start loop is only known by its
`Stage` and a monitor by its `MonitorStage`.

`Move` is the protocol these goroutines follow, with the guards each of them has checked, and
`step_move` says that every step of a process is one of its moves.  The invariants of
`Supervisord.Process.Invariant` are proved of moves and never look at a branch again.
-/

namespace Supervisord.Process

/-! ## Stages -/

/-- How far a start loop has come. -/
inductive Stage where
  /-- Not launched, or ended. -/
  | idle
  /-- Entering `run`. -/
  | entering
  /-- In `run` under the lock, about to test `IsRunning`. -/
  | checking
  /-- Already running, about to call `finishCb`. -/
  | refusing
  /-- At the head of the retry loop, about to test `stopByUser`. -/
  | head
  /-- Bound for an attempt, about to unlock for the restart pause. -/
  | pausing
  /-- In the restart pause. -/
  | paused
  /-- Bound for an attempt, about to store `Starting` under the lock. -/
  | trying
  /-- In an attempt, under the lock, about to create the command. -/
  | making
  /-- In an attempt, under the lock, with a command not started yet. -/
  | made
  /-- The attempt has failed, the state not stored yet. -/
  | failed (k : Change)
  /-- The child is spawned, `Running` not stored yet where it need not stay up. -/
  | launching
  /-- The child is spawned, the lock still held. -/
  | born
  /-- Waiting for the exit. -/
  | watching
  /-- The exit is seen, the monitor not told yet. -/
  | seen
  /-- Waiting for the monitor, then for the lock. -/
  | settling
  /-- About to load the state that classifies the exit, under the lock. -/
  | judging
  /-- The state was running or stopping. -/
  | excused
  /-- The exit is classified, the state not stored yet. -/
  | judged (k : Change)
  /-- No retry is left, `Fatal` not stored yet. -/
  | exhausted
  /-- `Fatal` is stored, the finish callback not called yet. -/
  | failing
  /-- On the way out of `run`, under the lock. -/
  | over
  /-- Behind `run`, about to test `stopByUser`. -/
  | rested
  /-- About to evaluate `isAutoRestart`. -/
  | deciding
  /-- About to reset `inStart`. -/
  | ending
deriving DecidableEq

/-- The stages in which the start loop holds the lock. -/
def Stage.holds : Stage → Bool
  | .checking | .refusing | .head | .pausing | .trying | .making | .made | .failed _ | .launching
  | .born | .judging | .excused | .judged _ | .exhausted | .failing | .over => true
  | .idle | .entering | .paused | .watching | .seen | .settling | .rested | .deciding
  | .ending => false

/-- The stages in which `p.cmd` is the command of the start loop. -/
def Stage.hasCmd : Stage → Bool
  | .made | .launching | .born | .watching | .seen | .settling | .judging | .excused | .judged _
  | .exhausted => true
  | .idle | .entering | .checking | .refusing | .head | .pausing | .paused | .trying | .making
  | .failed _ | .failing | .over | .rested | .deciding | .ending => false

/-- The stages in which this command has been started. -/
def Stage.hasChild : Stage → Bool
  | .launching | .born | .watching | .seen | .settling | .judging | .excused | .judged _
  | .exhausted => true
  | .idle | .entering | .checking | .refusing | .head | .pausing | .paused | .trying | .making
  | .made | .failed _ | .failing | .over | .rested | .deciding | .ending => false

/-- The stages in which the child is spawned and the lock still held. -/
def Stage.newborn : Stage → Bool
  | .launching | .born => true
  | .idle | .entering | .checking | .refusing | .head | .pausing | .paused | .trying | .making
  | .made | .failed _ | .watching | .seen | .settling | .judging | .excused | .judged _
  | .exhausted | .failing | .over | .rested | .deciding | .ending => false

@[grind →] theorem Stage.eq_of_newborn {s : Stage} (h : s.newborn) :
    s = .launching ∨ s = .born := by
  cases s <;> first | exact .inl rfl | exact .inr rfl | cases h

theorem Stage.hasCmd_of_newborn {s : Stage} (h : s.newborn) : s.hasCmd := by
  cases s <;> first | rfl | cases h

theorem Stage.hasCmd_of_hasChild {s : Stage} (h : s.hasChild) : s.hasCmd := by
  cases s <;> first | rfl | cases h

/-- The stage of a control point. -/
def LoopPc.stage : LoopPc → Stage
  | .off | .done => .idle
  | .enter => .entering
  | .check => .checking
  | .test => .head
  | .pause => .pausing
  | .paused => .paused
  | .create => .making
  | .setUser | .setStdoutLog | .setStderrLog | .spawn => .made
  | .release => .born
  | .poll => .watching
  | .seen => .seen
  | .settle | .relock => .settling
  | .classify => .judging
  | .verdict => .excused
  | .runningCb => .refusing
  | .fatalCb => .failing
  | .leave | .crashed => .over
  | .rested => .rested
  | .auto => .deciding
  | .finish => .ending
  | .change k _ => match k with
    | .starting => .trying
    | .createFatal | .spawnFatal | .spawnBackoff => .failed k
    | .running => .launching
    | .exited | .stopped | .exitBackoff => .judged k
    | .retryFatal => .exhausted

/-- How far the monitor of a child has come. -/
inductive MonitorStage where
  /-- Not launched. -/
  | off
  /-- Before the lock. -/
  | early
  /-- Under the lock, about to load `programExited`. -/
  | checking
  /-- Under the lock, `programExited` was not set. -/
  | passed
  /-- Under the lock, nothing left to do. -/
  | ending
  /-- About to call the finish callback. -/
  | calling
  | done
deriving DecidableEq

def MonitorStage.holds : MonitorStage → Bool
  | .checking | .passed | .ending => true
  | .off | .early | .calling | .done => false

def MonitorPc.stage : MonitorPc → MonitorStage
  | .off => .off
  | .poll | .leave | .enter => .early
  | .checkExited => .checking
  | .checkState | .change _ => .passed
  | .unlock => .ending
  | .callback => .calling
  | .done | .crashed => .done

/-- `waitForExit` has not stored `Stopped` yet. -/
def WaiterPc.pre : WaiterPc → Bool
  | .call | .waiting _ | .copying _ | .store => true
  | .off | .closeLogs | .closeChan | .done | .crashed => false

/-- `waitForExit` is on its way to the return of `wait4`. -/
def WaiterPc.early : WaiterPc → Bool
  | .call | .waiting _ => true
  | .off | .copying _ | .store | .closeLogs | .closeChan | .done | .crashed => false

/-- `waitForExit` is on its way to the return of `cmd.Wait`. -/
def WaiterPc.awaits : WaiterPc → Bool
  | .call | .waiting _ | .copying _ => true
  | .off | .store | .closeLogs | .closeChan | .done | .crashed => false

@[grind →] theorem WaiterPc.awaits_of_early {w : WaiterPc} (h : w.early) : w.awaits := by
  cases w <;> first | rfl | cases h

@[grind →] theorem WaiterPc.pre_of_awaits {w : WaiterPc} (h : w.awaits) : w.pre := by
  cases w <;> first | rfl | cases h

abbrev Loop.stage (l : Loop) : Stage := l.pc.stage

abbrev Monitor.stage (w : Monitor) : MonitorStage := w.pc.stage

/-- The callback is called through its wrapper. -/
def Callback.once (b : Callback) : Callback := if b.fired then b else { b.call with fired := true }

/-- Only the control point of a start loop has changed. -/
def Loop.Keeps (l l' : Loop) : Prop := l.att = l'.att ∧ l.rid = l'.rid

/-- Only the control point of a monitor has changed, or `monitorExited`. -/
def Monitor.Keeps (w w' : Monitor) : Prop :=
  w.programExited = w'.programExited ∧ w.loop = w'.loop ∧ w.rid = w'.rid

/-! ## Moves -/

/-- What an observer sees of a step. -/
inductive Label where
  | tau
  /-- A start loop takes a step that is none of those below. -/
  | run (t : Tid)
  /-- `Start` is called. -/
  | issue (t : Tid)
  /-- `Start` holds the lock; it is refused while `inStart` is set. -/
  | start (t : Tid) (accepted : Bool)
  /-- `Stop` holds the lock and sets `stopByUser`. -/
  | stop (t : Tid)
  /-- `Stop` stores `Stopping`. -/
  | stopping (t : Tid)
  /-- `run` is entered. -/
  | enter (t : Tid)
  /-- `run` tests `IsRunning`. -/
  | check (t : Tid)
  /-- `run` calls `finishCb`, the process is running already. -/
  | busy (t : Tid)
  /-- `failToStartProgram` calls the finish callback. -/
  | gaveUp (t : Tid)
  /-- `run` tests `stopByUser` at the head of its retry loop. -/
  | test (t : Tid)
  /-- `run` stores a state. -/
  | stored (t : Tid) (k : Change)
  /-- `run` replaces `p.cmd`. -/
  | created (t : Tid)
  /-- `cmd.Start` succeeds. -/
  | spawned (t : Tid)
  /-- `run` loads the state that classifies an exit. -/
  | classify (t : Tid)
  /-- The start loop tests `stopByUser`. -/
  | rest (t : Tid)
  /-- The start loop evaluates `isAutoRestart`. -/
  | decide (t : Tid)
  /-- The monitor of a child stores `Running`. -/
  | running (c : CmdId)
  /-- The goroutine of a monitor calls the finish callback. -/
  | answer (c : CmdId)
  /-- `waitForExit` stores `Stopped`. -/
  | stopped (c : CmdId)
  /-- A child exits. -/
  | exit (c : CmdId)
deriving DecidableEq

/-- The start loop that takes the step, or is launched by it. -/
def Label.loop : Label → Option Tid
  | .run t | .start t true | .enter t | .check t | .busy t | .gaveUp t | .test t | .stored t _
  | .created t | .spawned t | .classify t | .rest t | .decide t => some t
  | .tau | .issue _ | .start _ false | .stop _ | .stopping _ | .running _ | .answer _ | .stopped _
  | .exit _ => none

namespace Core

abbrev setLoop (c : Core) (t : Tid) (l : Loop) : Core :=
  { c with loops := Function.update c.loops t l }

abbrev setMonitor (c : Core) (i : CmdId) (w : Monitor) : Core :=
  { c with monitors := Function.update c.monitors i w }

abbrev setWaiter (c : Core) (i : CmdId) (w : WaiterPc) : Core :=
  { c with waiters := Function.update c.waiters i w }

abbrev setCmd (c : Core) (i : CmdId) (k : Cmd) : Core :=
  { c with cmds := Function.update c.cmds i k }

abbrev setCallback (c : Core) (r : Nat) (b : Callback) : Core :=
  { c with callbacks := Function.update c.callbacks r b }

end Core

/-- The moves of the core. -/
inductive Move (cfg : Config) : Core → Label → Core → Prop
  | stutter (c : Core) : Move cfg c .tau c
  -- Start and Stop
  | issue (c : Core) (t : Tid) : Move cfg c (.issue t) c
  | accept {c : Core} {t : Tid} {l : Loop} (hk : c.lock = .free) (hi : c.inStart = false)
      (hl : l.stage = .entering) (ha : l.Keeps (c.loops t)) :
      Move cfg c (.start t true) ({ c with inStart := true, stopByUser := false }.setLoop t l)
  | refuse {c : Core} {t : Tid} (hk : c.lock = .free) (hi : c.inStart = true) :
      Move cfg c (.start t false) c
  | stop {c : Core} {t : Tid} (hk : c.lock = .free) :
      Move cfg c (.stop t) { c with stopByUser := true }
  | stopping {c : Core} {t : Tid} : Move cfg c (.stopping t) { c with state := .stopping }
  | readers {c : Core} {k : RWLock Holder Reader} (hk : c.lock.readable) (hk' : k.readable) :
      Move cfg c .tau { c with lock := k }
  -- the start loop
  | loop {c : Core} {t : Tid} {l : Loop} (hs : l.stage = (c.loops t).stage)
      (hi : (c.loops t).stage ≠ .idle) (ha : l.Keeps (c.loops t)) :
      Move cfg c (.run t) (c.setLoop t l)
  | enter {c : Core} {t : Tid} {l : Loop} (hk : c.lock = .free)
      (hs : (c.loops t).stage = .entering) (hl : l.stage = .checking)
      (ha : l.att = (c.loops t).att ∧ l.rid = c.nextRun) : Move cfg c (.enter t)
        ({ c with lock := .held (.loop t), nextRun := c.nextRun + 1 }.setLoop t l)
  | refused {c : Core} {t : Tid} {l : Loop} (hs : (c.loops t).stage = .checking)
      (hr : c.state.isRunning) (hl : l.stage = .refusing) (ha : l.Keeps (c.loops t)) :
      Move cfg c (.check t) (c.setLoop t l)
  | busy {c : Core} {t : Tid} {l : Loop} (hs : (c.loops t).stage = .refusing)
      (hl : l.stage = .over) (ha : l.Keeps (c.loops t)) : Move cfg c (.busy t)
        ((c.setCallback (c.loops t).rid (c.callbacks (c.loops t).rid).call).setLoop t l)
  | clear {c : Core} {t : Tid} {l : Loop} (hs : (c.loops t).stage = .checking)
      (hr : c.state.isRunning = false) (hl : l.stage = .head) (ha : l.Keeps (c.loops t)) :
      Move cfg c (.check t) ({ c with retryTimes := 0 }.setLoop t l)
  | quit {c : Core} {t : Tid} {l : Loop} (hs : (c.loops t).stage = .head)
      (hu : c.stopByUser = true) (hl : l.stage = .over) (ha : l.Keeps (c.loops t)) :
      Move cfg c (.test t) (c.setLoop t l)
  | pass {c : Core} {t : Tid} {l : Loop} (hs : (c.loops t).stage = .head)
      (hu : c.stopByUser = false)
      (hl : l.stage = if 0 < cfg.restartpause ∧ c.retryTimes ≠ 0 then .pausing else .trying)
      (ha : l.Keeps (c.loops t)) : Move cfg c (.test t) (c.setLoop t l)
  | pause {c : Core} {t : Tid} {l : Loop} (hs : (c.loops t).stage = .pausing)
      (hl : l.stage = .paused) (ha : l.Keeps (c.loops t)) :
      Move cfg c (.run t) ({ c with lock := .free }.setLoop t l)
  | resume {c : Core} {t : Tid} {l : Loop} (hk : c.lock = .free)
      (hs : (c.loops t).stage = .paused) (hl : l.stage = .trying) (ha : l.Keeps (c.loops t)) :
      Move cfg c (.run t) ({ c with lock := .held (.loop t) }.setLoop t l)
  | starting {c : Core} {t : Tid} {l : Loop} (hs : (c.loops t).stage = .trying)
      (hl : l.stage = .making) (ha : l.Keeps (c.loops t)) :
      Move cfg c (.stored t .starting)
        ({ c with state := .starting, retryTimes := c.retryTimes + 1 }.setLoop t l)
  | create {c : Core} {t : Tid} {l : Loop} (hs : (c.loops t).stage = .making)
      (hl : l.stage = .made) (ha : l.att = c.nextCmd ∧ l.rid = (c.loops t).rid) :
      Move cfg c (.created t) (({ c with cmd := some c.nextCmd, nextCmd := c.nextCmd + 1 }.setCmd
        c.nextCmd {}).setLoop t l)
  | fail {c : Core} {t : Tid} {l : Loop} {k : Change}
      (hs : (c.loops t).stage = .made ∨ (c.loops t).stage = .making ∧ k = .createFatal)
      (hl : l.stage = .failed k) (ha : l.Keeps (c.loops t)) :
      Move cfg c (.run t) (c.setLoop t l)
  | createFatal {c : Core} {t : Tid} {l : Loop} (hs : (c.loops t).stage = .failed .createFatal)
      (hl : l.stage = .failing) (ha : l.Keeps (c.loops t)) :
      Move cfg c (.stored t .createFatal) ({ c with state := .fatal }.setLoop t l)
  | spawnFatal {c : Core} {t : Tid} {l : Loop} (hs : (c.loops t).stage = .failed .spawnFatal)
      (hl : l.stage = .failing) (ha : l.Keeps (c.loops t)) :
      Move cfg c (.stored t .spawnFatal) ({ c with state := .fatal }.setLoop t l)
  | retry {c : Core} {t : Tid} {l : Loop} (hs : (c.loops t).stage = .failed .spawnBackoff)
      (hl : l.stage = .head) (ha : l.Keeps (c.loops t)) :
      Move cfg c (.stored t .spawnBackoff) ({ c with state := .backoff }.setLoop t l)
  | spawn {c : Core} {t : Tid} {l : Loop} {w : Monitor} (hs : (c.loops t).stage = .made)
      (hl : l.stage = .born ∧ w.stage = .early ∨ l.stage = .launching ∧ w.stage = .off)
      (ha : l.Keeps (c.loops t)) (hw : w.loop = t ∧ w.rid = (c.loops t).rid) :
      Move cfg c (.spawned t) (((c.setCmd (c.loops t).att
        { c.cmds (c.loops t).att with started := true }).setMonitor (c.loops t).att w).setLoop t l)
  | up {c : Core} {t : Tid} {l : Loop} {w : Monitor} (hs : (c.loops t).stage = .launching)
      (hl : l.stage = .born) (ha : l.Keeps (c.loops t)) (hw : w.stage = .calling)
      (hk : w.Keeps (c.monitors (c.loops t).att)) :
      Move cfg c (.stored t .running)
        (({ c with state := .running }.setMonitor (c.loops t).att w).setLoop t l)
  | release {c : Core} {t : Tid} {l : Loop} (hs : (c.loops t).stage = .born)
      (hl : l.stage = .watching) (ha : l.Keeps (c.loops t)) :
      Move cfg c (.run t) (({ c with lock := .free }.setWaiter (c.loops t).att .call).setLoop t l)
  | see {c : Core} {t : Tid} {l : Loop} (hs : (c.loops t).stage = .watching)
      (hg : c.waiters (c.loops t).att = .done ∨ c.state.isRunning = false)
      (hl : l.stage = .seen) (ha : l.Keeps (c.loops t)) : Move cfg c (.run t) (c.setLoop t l)
  | tell {c : Core} {t : Tid} {l : Loop} (hs : (c.loops t).stage = .seen)
      (hl : l.stage = .settling) (ha : l.Keeps (c.loops t)) :
      Move cfg c (.run t) ((c.setMonitor (c.loops t).att
        { c.monitors (c.loops t).att with programExited := true }).setLoop t l)
  | relock {c : Core} {t : Tid} {l : Loop} (hk : c.lock = .free)
      (hs : (c.loops t).stage = .settling) (hl : l.stage = .judging)
      (ha : l.Keeps (c.loops t)) :
      Move cfg c (.run t) ({ c with lock := .held (.loop t) }.setLoop t l)
  | excuse {c : Core} {t : Tid} {l : Loop} (hs : (c.loops t).stage = .judging)
      (hr : c.state = .running ∨ c.state = .stopping) (hl : l.stage = .excused)
      (ha : l.Keeps (c.loops t)) : Move cfg c (.classify t) (c.setLoop t l)
  | blame {c : Core} {t : Tid} {l : Loop} (hs : (c.loops t).stage = .judging)
      (hr : ¬(c.state = .running ∨ c.state = .stopping)) (hl : l.stage = .judged .exitBackoff)
      (ha : l.Keeps (c.loops t)) : Move cfg c (.classify t) (c.setLoop t l)
  | verdict {c : Core} {t : Tid} {l : Loop} (hs : (c.loops t).stage = .excused)
      (hl : l.stage = .judged (if c.stopByUser then .stopped else .exited))
      (ha : l.Keeps (c.loops t)) : Move cfg c (.run t) (c.setLoop t l)
  | closeExited {c : Core} {t : Tid} {l : Loop} (hs : (c.loops t).stage = .judged .exited)
      (hl : l.stage = .over) (ha : l.Keeps (c.loops t)) :
      Move cfg c (.stored t .exited) ({ c with state := .exited }.setLoop t l)
  | closeStopped {c : Core} {t : Tid} {l : Loop} (hs : (c.loops t).stage = .judged .stopped)
      (hl : l.stage = .over) (ha : l.Keeps (c.loops t)) :
      Move cfg c (.stored t .stopped) ({ c with state := .stopped }.setLoop t l)
  | backoff {c : Core} {t : Tid} {l : Loop} (hs : (c.loops t).stage = .judged .exitBackoff)
      (hr : ¬cfg.getStartRetries ≤ c.retryTimes) (hl : l.stage = .head)
      (ha : l.Keeps (c.loops t)) :
      Move cfg c (.stored t .exitBackoff) ({ c with state := .backoff }.setLoop t l)
  | exhaust {c : Core} {t : Tid} {l : Loop} (hs : (c.loops t).stage = .judged .exitBackoff)
      (hr : cfg.getStartRetries ≤ c.retryTimes) (hl : l.stage = .exhausted)
      (ha : l.Keeps (c.loops t)) :
      Move cfg c (.stored t .exitBackoff) ({ c with state := .backoff }.setLoop t l)
  | retryFatal {c : Core} {t : Tid} {l : Loop} (hs : (c.loops t).stage = .exhausted)
      (hl : l.stage = .failing) (ha : l.Keeps (c.loops t)) :
      Move cfg c (.stored t .retryFatal) ({ c with state := .fatal }.setLoop t l)
  | gaveUp {c : Core} {t : Tid} {l : Loop} (hs : (c.loops t).stage = .failing)
      (hl : l.stage = .over) (ha : l.Keeps (c.loops t)) : Move cfg c (.gaveUp t)
        ((c.setCallback (c.loops t).rid (c.callbacks (c.loops t).rid).once).setLoop t l)
  | leave {c : Core} {t : Tid} {l : Loop} (hs : (c.loops t).stage = .over)
      (hl : l.stage = .rested) (ha : l.Keeps (c.loops t)) :
      Move cfg c (.run t) ({ c with lock := .free }.setLoop t l)
  | rest {c : Core} {t : Tid} {l : Loop} (hs : (c.loops t).stage = .rested)
      (hl : l.stage = if c.stopByUser then .ending else .deciding)
      (ha : l.Keeps (c.loops t)) : Move cfg c (.rest t) (c.setLoop t l)
  | decide {c : Core} {t : Tid} {l : Loop} (hs : (c.loops t).stage = .deciding)
      (hl : l.stage = if cfg.isAutoRestart (c.cmd.map c.cmds) then .entering else .ending)
      (ha : l.Keeps (c.loops t)) : Move cfg c (.decide t) (c.setLoop t l)
  | finish {c : Core} {t : Tid} {l : Loop} (hk : c.lock = .free)
      (hs : (c.loops t).stage = .ending) (hl : l.stage = .idle) :
      Move cfg c (.run t) ({ c with inStart := false }.setLoop t l)
  -- the monitor of a child
  | monitor {c : Core} {i : CmdId} {w : Monitor} (hs : w.stage = (c.monitors i).stage)
      (hi : (c.monitors i).stage ≠ .off) (ha : w.Keeps (c.monitors i)) :
      Move cfg c .tau (c.setMonitor i w)
  | monEnter {c : Core} {i : CmdId} {w : Monitor} (hk : c.lock = .free)
      (hs : (c.monitors i).stage = .early) (hw : w.stage = .checking)
      (ha : w.Keeps (c.monitors i)) :
      Move cfg c .tau ({ c with lock := .held (.monitor i) }.setMonitor i w)
  | monPass {c : Core} {i : CmdId} {w : Monitor} (hs : (c.monitors i).stage = .checking)
      (he : (c.monitors i).programExited = false) (hw : w.stage = .passed)
      (ha : w.Keeps (c.monitors i)) : Move cfg c .tau (c.setMonitor i w)
  | monDrop {c : Core} {i : CmdId} {w : Monitor}
      (hs : (c.monitors i).stage = .checking ∨ (c.monitors i).stage = .passed)
      (hw : w.stage = .ending) (ha : w.Keeps (c.monitors i)) : Move cfg c .tau (c.setMonitor i w)
  | monRunning {c : Core} {i : CmdId} {w : Monitor} (hs : (c.monitors i).stage = .passed)
      (hw : w.stage = .ending) (ha : w.Keeps (c.monitors i)) :
      Move cfg c (.running i) ({ c with state := .running }.setMonitor i w)
  | monLeave {c : Core} {i : CmdId} {w : Monitor} (hs : (c.monitors i).stage = .ending)
      (hw : w.stage = .calling) (ha : w.Keeps (c.monitors i)) :
      Move cfg c .tau ({ c with lock := .free }.setMonitor i w)
  | answer {c : Core} {i : CmdId} {w : Monitor} (hs : (c.monitors i).stage = .calling)
      (hw : w.stage = .done) (ha : w.Keeps (c.monitors i)) : Move cfg c (.answer i)
        ((c.setCallback (c.monitors i).rid (c.callbacks (c.monitors i).rid).once).setMonitor i w)
  -- waitForExit
  | wait {c : Core} {i : CmdId} {w : WaiterPc} (hs : c.waiters i = .call)
      (hw : w = match c.cmd with | some j => .waiting j | none => .crashed) :
      Move cfg c .tau (c.setWaiter i w)
  | reaped {c : Core} {i j : CmdId} (hs : c.waiters i = .waiting j)
      (hj : (c.cmds j).hasPid = true) (he : (c.cmds j).exited = true) :
      Move cfg c .tau ((c.setCmd j { c.cmds j with
        reaped := true, processState := (c.cmds j).status }).setWaiter i (.copying j))
  | returned {c : Core} {i j : CmdId} (hs : c.waiters i = .copying j) :
      Move cfg c .tau ((c.setCmd j { c.cmds j with waited := true }).setWaiter i .store)
  | noChild {c : Core} {i j : CmdId} (hs : c.waiters i = .waiting j)
      (hj : (c.cmds j).hasPid = false) : Move cfg c .tau (c.setWaiter i .store)
  | stopped {c : Core} {i : CmdId} {w : WaiterPc} (hs : c.waiters i = .store)
      (hw : w.pre = false) : Move cfg c (.stopped i) ({ c with state := .stopped }.setWaiter i w)
  | waiter {c : Core} {i : CmdId} {w : WaiterPc} (hs : (c.waiters i).pre = false)
      (hw : w.pre = false) : Move cfg c .tau (c.setWaiter i w)
  | exit {c : Core} {i : CmdId} {st : Option Int} (hs : (c.cmds i).started = true)
      (he : (c.cmds i).exited = false) :
      Move cfg c (.exit i) (c.setCmd i { c.cmds i with exited := true, status := st })

/-- Only its own steps move a start loop. -/
theorem Move.loops_eq {cfg : Config} {c c' : Core} {k : Label} {t : Tid} (h : Move cfg c k c')
    (hk : k.loop ≠ some t) : c'.loops t = c.loops t := by
  cases h <;> first
    | rfl
    | exact Function.update_of_ne (fun ht ↦ hk (congrArg some ht.symm)) _ _

/-! ## Every step is a move -/

namespace Sys

/-- What an observer sees of an action taken in `s`. -/
def label (s : Sys) : Act → Label
  | .call t op => match op with
    | .start _ => .issue t
    | _ => .tau
  | .caller t _ => match s.callers t with
    | .startEnter _ => .start t !s.inStart
    | .stopEnter _ _ => .stop t
    | .stopCheck _ restart => if restart && !s.state.isRunning then .issue t else .tau
    | .stopChange _ _ .store => .stopping t
    | .stopLaunch wait restart => if restart && !wait then .issue t else .tau
    | .stopWait restart => if restart then .issue t else .tau
    | .cronCheck => if s.state.isRunning then .tau else .issue t
    | _ => .tau
  | .loop t ch => match (s.loops t).pc with
    | .enter => .enter t
    | .check => .check t
    | .runningCb => .busy t
    | .fatalCb => .gaveUp t
    | .test => .test t
    | .change k .store => .stored t k
    | .create => if ch = .ok then .created t else .run t
    | .spawn => if ch = .ok then .spawned t else .run t
    | .classify => .classify t
    | .rested => .rest t
    | .auto => .decide t
    | _ => .run t
  | .monitor c => match (s.monitors c).pc with
    | .change .store => .running c
    | .callback => .answer c
    | _ => .tau
  | .waiter c => if s.waiters c = .store then .stopped c else .tau
  | .exit c _ => .exit c
  | .stopper _ _ | .closer _ | .sigchld => .tau

variable {cfg : Config} {s s' : Sys} {a : Act} {t : Tid} {ch : Choice} {c : CmdId} {r : Nat}

theorem label_loop (h : (s.label a).loop = some t) :
    (∃ ch, a = .loop t ch) ∨ s.label a = .start t true := by
  cases a with
  | loop u ch =>
      simp only [label] at h ⊢
      refine .inl ⟨ch, ?_⟩
      split at h <;> (try split at h) <;> cases h <;> rfl
  | caller u ch =>
      simp only [label] at h ⊢
      cases hi : s.inStart <;> split at h <;> (try split at h) <;> simp_all [Label.loop]
  | call | monitor | waiter =>
      simp only [label] at h
      split at h <;> cases h
  | stopper | closer | exit | sigchld => cases h

theorem stage_of_spawned (h : s.label a = .spawned t) : (s.loops t).stage = .made := by
  cases a with
  | loop u ch =>
      simp only [label] at h
      split at h <;> (try split at h) <;> cases h
      rw [Loop.stage, ‹(s.loops t).pc = .spawn›]
      rfl
  | caller | call | monitor | waiter =>
      simp only [label] at h
      split at h <;> (try split at h) <;> cases h
  | stopper | closer | exit | sigchld => cases h

theorem stopChange_of_stopping (h : s.label a = .stopping t) :
    ∃ wait restart, s.callers t = .stopChange wait restart .store := by
  cases a with
  | caller u ch =>
      simp only [label] at h
      split at h <;> (try split at h) <;> cases h
      exact ⟨_, _, ‹_›⟩
  | loop | call | monitor | waiter =>
      simp only [label] at h
      split at h <;> (try split at h) <;> cases h
  | stopper | closer | exit | sigchld => cases h

theorem finishCbWrapper_toCore :
    (s.finishCbWrapper t r).toCore = s.toCore.setCallback r (s.callbacks r).once := by
  unfold finishCbWrapper
  split
  · rename_i hf
    rw [Callback.once, if_pos hf, Core.setCallback, Function.update_eq_self]
  · rename_i hf
    rw [Callback.once, if_neg hf]
    rfl

@[simp] theorem kill_toCore (b g : Bool) (sent : Option (CmdId × String × Bool)) :
    (s.kill t b g sent).toCore = s.toCore := by
  cases sent <;> rfl

@[simp] theorem closeStdout_toCore : s.closeStdout.toCore = s.toCore := by
  unfold closeStdout
  split <;> rfl

@[simp] theorem closeStderr_toCore : s.closeStderr.toCore = s.toCore := by
  unfold closeStderr
  split <;> rfl

theorem emit_toCore {new old : State} (h : s.emit cfg new old = some s') :
    s'.toCore = s.toCore := by
  unfold emit at h
  split at h
  · obtain ⟨e, _, rfl⟩ := Option.map_eq_some_iff.mp h; rfl
  · cases h; rfl

/-- Only the events that carry a pid can fail to be created. -/
theorem emit_eq_none {new old : State} (h : s.emit cfg new old = none) :
    s.pid = none ∧ new ≠ .starting ∧ new ≠ .backoff ∧ new ≠ .fatal := by
  unfold emit at h
  split at h
  · cases new <;> simp_all [event]
  · cases h

/-- The events of `run` that carry a pid are those of an attempt with a child. -/
theorem emit_crash {k : Change} {old : State} (h : s.emit cfg k.target old = none) (ph : Phase) :
    s.pid = none ∧ (LoopPc.change k ph).stage.hasChild := by
  obtain ⟨hp, hs, hb, hf⟩ := emit_eq_none h
  refine ⟨hp, ?_⟩
  cases k <;> simp_all [Change.target, LoopPc.stage, Stage.hasChild]

theorem change_stage_ne (k : Change) (ph : Phase) : (LoopPc.change k ph).stage ≠ .idle := by
  cases k <;> simp [LoopPc.stage]

/-- The moves of `changeStateTo` in `run`: the store. -/
theorem changed_move {k : Change} {ph : Phase} (hp : (s.loops t).pc = .change k ph) :
    Move cfg s.toCore (.stored t k) (s.changed cfg t k).toCore := by
  have hs : (s.loops t).stage = (LoopPc.change k ph).stage := by rw [Loop.stage, hp]
  cases k with
  | starting => exact .starting hs rfl ⟨rfl, rfl⟩
  | createFatal => exact .createFatal hs rfl ⟨rfl, rfl⟩
  | spawnFatal => exact .spawnFatal hs rfl ⟨rfl, rfl⟩
  | spawnBackoff => exact .retry hs rfl ⟨rfl, rfl⟩
  | running => exact .up hs rfl ⟨rfl, rfl⟩ rfl ⟨rfl, rfl, rfl⟩
  | exited => exact .closeExited hs rfl ⟨rfl, rfl⟩
  | stopped => exact .closeStopped hs rfl ⟨rfl, rfl⟩
  | exitBackoff =>
      by_cases hr : cfg.getStartRetries ≤ s.retryTimes
      · simp only [changed, hr, if_true]
        exact .exhaust hs hr rfl ⟨rfl, rfl⟩
      · simp only [changed, hr, if_false]
        exact .backoff hs hr rfl ⟨rfl, rfl⟩
  | retryFatal => exact .retryFatal hs rfl ⟨rfl, rfl⟩

theorem goLoop_toCore (pc : LoopPc) :
    (s.goLoop t pc).toCore = s.toCore.setLoop t { s.loops t with pc := pc } := rfl

theorem goMonitor_toCore (pc : MonitorPc) :
    (s.goMonitor c pc).toCore = s.toCore.setMonitor c { s.monitors c with pc := pc } := rfl

/-- A step that only moves the start loop on within its stage. -/
theorem goLoop_move {s₁ : Sys} {p pc : LoopPc} (hc : s₁.toCore = s.toCore)
    (hp : (s.loops t).pc = p) (hs : pc.stage = p.stage) (hi : p.stage ≠ .idle) :
    Move cfg s.toCore (.run t) (s₁.goLoop t pc).toCore := by
  have hl : (s₁.goLoop t pc).toCore = s.toCore.setLoop t { s.loops t with pc := pc } := by
    rw [goLoop_toCore, hc, ← hc]
  have hst : (s.loops t).stage = p.stage := by rw [Loop.stage, hp]
  rw [hl]
  exact .loop (hs.trans hst.symm) (hst ▸ hi) ⟨rfl, rfl⟩

theorem loopStep_move (hpid : (s.loops t).stage.hasChild → s.pid ≠ none)
    (h : s.loopStep cfg t ch = some s') :
    Move cfg s.toCore (s.label (.loop t ch)) s'.toCore := by
  have hst (pc : LoopPc) (hp : (s.loops t).pc = pc) : (s.loops t).stage = pc.stage := by
    rw [Loop.stage, hp]
  unfold loopStep at h
  simp only [label]
  cases hp : (s.loops t).pc with
  | off | done | crashed => simp [hp] at h
  | enter =>
      simp only [hp, Option.map_eq_some_iff, RWLock.lock_eq_some] at h ⊢
      obtain ⟨_, ⟨hk, rfl⟩, rfl⟩ := h
      exact .enter hk (hst _ hp) rfl ⟨rfl, rfl⟩
  | check =>
      simp only [hp] at h ⊢
      split at h
      · rename_i hr
        cases h
        exact .refused (hst _ hp) hr rfl ⟨rfl, rfl⟩
      · rename_i hr
        cases h
        exact .clear (hst _ hp) (by simpa using hr) rfl ⟨rfl, rfl⟩
  | test =>
      simp only [hp] at h ⊢
      split at h
      · rename_i hu
        cases h
        exact .quit (hst _ hp) hu rfl ⟨rfl, rfl⟩
      · rename_i hu
        rw [Bool.not_eq_true] at hu
        split at h
        · rename_i hr
          cases h
          exact .pass (hst _ hp) hu (if_pos hr).symm ⟨rfl, rfl⟩
        · rename_i hr
          cases h
          exact .pass (hst _ hp) hu (if_neg hr).symm ⟨rfl, rfl⟩
  | pause =>
      simp only [hp] at h ⊢
      cases h
      exact .pause (hst _ hp) rfl ⟨rfl, rfl⟩
  | paused =>
      simp only [hp, Option.map_eq_some_iff, RWLock.lock_eq_some] at h ⊢
      obtain ⟨_, ⟨hk, rfl⟩, rfl⟩ := h
      exact .resume hk (hst _ hp) rfl ⟨rfl, rfl⟩
  | change k ph =>
      cases ph with
      | load =>
          simp only [hp] at h ⊢
          cases h
          exact goLoop_move rfl hp rfl (change_stage_ne k _)
      | emit old =>
          simp only [hp] at h ⊢
          split at h
          · rename_i s₁ he
            cases h
            exact goLoop_move (emit_toCore he) hp rfl (change_stage_ne k _)
          · rename_i he
            cases h
            obtain ⟨hn, hk⟩ := emit_crash he (.emit old)
            exact absurd hn (hpid (by rw [hst _ hp]; exact hk))
      | store =>
          simp only [hp] at h ⊢
          cases h
          exact changed_move hp
  | create =>
      cases ch <;> simp only [hp] at h ⊢ <;> cases h
      · exact .create (hst _ hp) rfl ⟨rfl, rfl⟩
      · exact .fail (.inr ⟨hst _ hp, rfl⟩) rfl ⟨rfl, rfl⟩
  | setUser =>
      cases ch <;> simp only [hp] at h ⊢ <;> cases h
      · exact goLoop_move rfl hp rfl (by decide)
      · exact .fail (.inl (hst _ hp)) rfl ⟨rfl, rfl⟩
  | setStdoutLog | setStderrLog =>
      simp only [hp] at h ⊢
      cases h
      exact goLoop_move rfl hp rfl (by decide)
  | spawn =>
      cases ch <;> simp only [hp] at h ⊢ <;> cases h
      · refine .spawn (hst _ hp) ?_ ⟨rfl, rfl⟩ ⟨rfl, rfl⟩
        dsimp only [Loop.stage, Monitor.stage]
        split
        · exact .inl ⟨rfl, rfl⟩
        · exact .inr ⟨rfl, rfl⟩
      · by_cases hr : cfg.getStartRetries ≤ s.retryTimes
        · rw [if_pos hr]
          exact .fail (.inl (hst _ hp)) rfl ⟨rfl, rfl⟩
        · rw [if_neg hr]
          exact .fail (.inl (hst _ hp)) rfl ⟨rfl, rfl⟩
  | release =>
      simp only [hp] at h ⊢
      cases h
      exact .release (hst _ hp) rfl ⟨rfl, rfl⟩
  | poll =>
      simp only [hp] at h ⊢
      split at h
      · cases h
        exact .see (hst _ hp) ‹_› rfl ⟨rfl, rfl⟩
      · cases h
  | seen =>
      simp only [hp] at h ⊢
      cases h
      exact .tell (hst _ hp) rfl ⟨rfl, rfl⟩
  | settle =>
      simp only [hp] at h ⊢
      split at h
      · cases h
        exact goLoop_move rfl hp rfl (by decide)
      · cases h
  | relock =>
      simp only [hp, Option.map_eq_some_iff, RWLock.lock_eq_some] at h ⊢
      obtain ⟨_, ⟨hk, rfl⟩, rfl⟩ := h
      exact .relock hk (hst _ hp) rfl ⟨rfl, rfl⟩
  | classify =>
      simp only [hp] at h ⊢
      split at h
      · rename_i hr
        cases h
        exact .excuse (hst _ hp) hr rfl ⟨rfl, rfl⟩
      · rename_i hr
        cases h
        exact .blame (hst _ hp) hr rfl ⟨rfl, rfl⟩
  | verdict =>
      simp only [hp] at h ⊢
      cases h
      refine .verdict (hst _ hp) ?_ ⟨rfl, rfl⟩
      dsimp only [Loop.stage]; split <;> rfl
  | runningCb =>
      simp only [hp] at h ⊢
      cases h
      exact .busy (hst _ hp) rfl ⟨rfl, rfl⟩
  | fatalCb =>
      simp only [hp] at h ⊢
      cases h
      rw [goLoop_toCore, finishCbWrapper_toCore]
      exact .gaveUp (hst _ hp) rfl ⟨rfl, rfl⟩
  | leave =>
      simp only [hp] at h ⊢
      cases h
      exact .leave (hst _ hp) rfl ⟨rfl, rfl⟩
  | rested =>
      simp only [hp] at h ⊢
      cases h
      refine .rest (hst _ hp) ?_ ⟨rfl, rfl⟩
      dsimp only [Loop.stage]; split <;> rfl
  | auto =>
      simp only [hp] at h ⊢
      split at h
      · cases h
        refine .decide (hst _ hp) ?_ ⟨rfl, rfl⟩
        dsimp only [Loop.stage]; split <;> rfl
      · cases h
  | finish =>
      simp only [hp] at h ⊢
      split at h
      · cases h
        exact .finish ‹_› (hst _ hp) rfl
      · cases h

theorem issue_move {k : Core} {b : Bool} : Move cfg k (if b then .issue t else .tau) k := by
  cases b
  · exact .stutter _
  · exact .issue _ _

theorem runlock_move (k : Core) (r : Reader) :
    Move cfg k .tau { k with lock := k.lock.runlock r } := by
  cases hk : k.lock with
  | held o =>
      have : ({ k with lock := (RWLock.held o : RWLock Holder Reader).runlock r } : Core) = k := by
        rw [RWLock.runlock, ← hk]
      rw [this]
      exact .stutter _
  | shared rs => exact .readers (by rw [hk]; rfl) rfl

theorem callerStep_move (h : s.callerStep cfg t ch = some s') :
    Move cfg s.toCore (s.label (.caller t ch)) s'.toCore := by
  unfold callerStep at h
  simp only [label]
  cases hp : s.callers t with
  | idle | condWait | done | crashed => simp [hp] at h
  | startEnter wait =>
      simp only [hp] at h ⊢
      split at h
      · rename_i hk
        split at h
        · rename_i hi
          cases h
          rw [hi]
          exact .refuse hk hi
        · rename_i hi
          cases h
          rw [Bool.not_eq_true] at hi
          rw [hi]
          exact .accept hk hi rfl ⟨rfl, rfl⟩
      · cases h
  | stopEnter wait restart =>
      simp only [hp] at h ⊢
      split at h
      · rename_i hk
        cases h
        exact .stop hk
      · cases h
  | stopChange wait restart ph =>
      cases ph with
      | load =>
          simp only [hp] at h ⊢
          cases h
          exact .stutter _
      | emit old =>
          simp only [hp] at h ⊢
          split at h
          · rename_i s₁ he
            cases h
            rw [← emit_toCore he]
            exact .stutter _
          · cases h
            exact .stutter _
      | store =>
          simp only [hp] at h ⊢
          cases h
          exact .stopping
  | stopCheck wait restart =>
      simp only [hp] at h ⊢
      split at h <;> cases h <;> exact issue_move
  | stopLaunch wait restart =>
      simp only [hp] at h ⊢
      cases h
      exact issue_move
  | stopWait restart =>
      simp only [hp] at h ⊢
      split at h <;> cases h
      exact issue_move
  | cronCheck =>
      simp only [hp] at h ⊢
      cases h
      split
      · exact .stutter _
      · exact .issue _ _
  | livenessCheck | access | accessRead =>
      simp only [hp] at h ⊢
      try split at h
      all_goals cases h
      all_goals exact .stutter _
  | checking =>
      cases ch <;> simp only [hp] at h ⊢ <;> cases h <;> exact .stutter _
  | signalEnter checked sigs =>
      simp only [hp, Option.map_eq_some_iff] at h ⊢
      obtain ⟨k, hk, rfl⟩ := h
      obtain ⟨hr, hr'⟩ := RWLock.rlock_eq_some hk
      split
      · exact .stutter _
      · split
        · exact .stutter _
        · exact .readers hr hr'
  | signalling job =>
      simp only [hp, Option.map_eq_some_iff] at h ⊢
      obtain ⟨res, _, rfl⟩ := h
      cases res with
      | more job' sent =>
          have hc : ((s.kill t false job.sigChildren sent).goCaller t
              (.signalling job')).toCore = s.toCore := kill_toCore _ _ _
          rw [hc]
          exact .stutter _
      | done => exact runlock_move _ _
      | crash => exact runlock_move _ _

theorem stopperStep_move (h : s.stopperStep cfg t ch = some s') :
    Move cfg s.toCore .tau s'.toCore := by
  unfold stopperStep at h
  cases hp : s.stoppers t with
  | off | done | crashed => simp [hp] at h
  | check =>
      simp only [hp] at h
      cases h
      exact .stutter _
  | send kill =>
      simp only [hp, Option.map_eq_some_iff] at h
      obtain ⟨k, hk, rfl⟩ := h
      obtain ⟨hr, hr'⟩ := RWLock.rlock_eq_some hk
      split
      · exact .stutter _
      · exact .readers hr hr'
  | killing kill job =>
      simp only [hp, Option.map_eq_some_iff] at h
      obtain ⟨res, _, rfl⟩ := h
      cases res with
      | more job' sent =>
          have hc : ((s.kill t true job.sigChildren sent).goStopper t
              (.killing kill job')).toCore = s.toCore := kill_toCore _ _ _
          rw [hc]
          exact .stutter _
      | done => exact runlock_move _ _
      | crash => exact runlock_move _ _

/-- A step that only moves the monitor on within its stage. -/
theorem goMonitor_move {s₁ : Sys} {p pc : MonitorPc} (hc : s₁.toCore = s.toCore)
    (hp : (s.monitors c).pc = p) (hs : pc.stage = p.stage) (hi : p.stage ≠ .off) :
    Move cfg s.toCore .tau (s₁.goMonitor c pc).toCore := by
  have hl : (s₁.goMonitor c pc).toCore =
      s.toCore.setMonitor c { s.monitors c with pc := pc } := by
    rw [goMonitor_toCore, hc, ← hc]
  have hst : (s.monitors c).stage = p.stage := by rw [Monitor.stage, hp]
  rw [hl]
  exact .monitor (hs.trans hst.symm) (hst ▸ hi) ⟨rfl, rfl, rfl⟩

theorem monitorStep_move (hpid : (s.monitors c).stage = .passed → s.pid ≠ none)
    (h : s.monitorStep cfg c = some s') :
    Move cfg s.toCore (s.label (.monitor c)) s'.toCore := by
  have hst (pc : MonitorPc) (hp : (s.monitors c).pc = pc) : (s.monitors c).stage = pc.stage := by
    rw [Monitor.stage, hp]
  unfold monitorStep at h
  simp only [label]
  cases hp : (s.monitors c).pc with
  | off | done | crashed => simp [hp] at h
  | poll =>
      simp only [hp] at h ⊢
      cases h
      exact goMonitor_move rfl hp rfl nofun
  | leave =>
      simp only [hp] at h ⊢
      cases h
      exact .monitor (hst _ hp).symm (by rw [hst _ hp]; exact nofun) ⟨rfl, rfl, rfl⟩
  | enter =>
      simp only [hp, Option.map_eq_some_iff, RWLock.lock_eq_some] at h ⊢
      obtain ⟨_, ⟨hk, rfl⟩, rfl⟩ := h
      exact .monEnter hk (hst _ hp) rfl ⟨rfl, rfl, rfl⟩
  | checkExited =>
      simp only [hp] at h ⊢
      cases h
      by_cases he : (s.monitors c).programExited
      · simp only [he, if_true]
        exact .monDrop (.inl (hst _ hp)) rfl ⟨rfl, rfl, rfl⟩
      · simp only [he]
        exact .monPass (hst _ hp) (by simpa using he) rfl ⟨rfl, rfl, rfl⟩
  | checkState =>
      simp only [hp] at h ⊢
      cases h
      by_cases he : s.state = .starting
      · simp only [he, if_true]
        exact goMonitor_move rfl hp rfl nofun
      · simp only [he, if_false]
        exact .monDrop (.inr (hst _ hp)) rfl ⟨rfl, rfl, rfl⟩
  | change ph =>
      cases ph with
      | load =>
          simp only [hp] at h ⊢
          cases h
          exact goMonitor_move rfl hp rfl nofun
      | emit old =>
          simp only [hp] at h ⊢
          split at h
          · cases h
            exact goMonitor_move (emit_toCore ‹_›) hp rfl nofun
          · rename_i he
            exact absurd (emit_eq_none he).1 (hpid (hst _ hp))
      | store =>
          simp only [hp] at h ⊢
          cases h
          exact .monRunning (hst _ hp) rfl ⟨rfl, rfl, rfl⟩
  | unlock =>
      simp only [hp] at h ⊢
      cases h
      exact .monLeave (hst _ hp) rfl ⟨rfl, rfl, rfl⟩
  | callback =>
      simp only [hp] at h ⊢
      cases h
      rw [goMonitor_toCore, finishCbWrapper_toCore]
      exact .answer (hst _ hp) rfl ⟨rfl, rfl, rfl⟩

/-- In `cmd.Wait`, a process is reaped or there is none to wait for. -/
theorem wait_eq_some {l : CmdId} (h : s.wait c l = some s') :
    (s.cmds l).hasPid = true ∧ (s.cmds l).exited = true ∧
        s' = (s.reap l).goWaiter c (.copying l) ∨
      (s.cmds l).hasPid = false ∧ s' = s.goWaiter c .store := by
  unfold wait at h
  split at h
  · rename_i hl
    split at h <;> cases h
    exact .inl ⟨Cmd.hasPid_iff.mpr hl, ‹_›, rfl⟩
  · rename_i hl
    cases h
    exact .inr ⟨Bool.eq_false_iff.mpr (mt Cmd.hasPid_iff.mp hl), rfl⟩

theorem waiterStep_move (h : s.waiterStep c = some s') :
    Move cfg s.toCore (s.label (.waiter c)) s'.toCore := by
  unfold waiterStep at h
  simp only [label]
  cases hp : s.waiters c with
  | off | done | crashed => simp [hp] at h
  | call =>
      simp only [hp] at h ⊢
      cases h
      exact .wait hp rfl
  | waiting j =>
      simp only [hp] at h ⊢
      obtain ⟨hj, he, rfl⟩ | ⟨hj, rfl⟩ := wait_eq_some h
      · exact .reaped hp hj he
      · exact .noChild hp hj
  | copying j =>
      simp only [hp] at h ⊢
      cases h
      exact .returned hp
  | store =>
      simp only [hp] at h ⊢
      cases h
      exact .stopped hp rfl
  | closeLogs =>
      simp only [hp] at h ⊢
      split at h
      · cases h
        have hc : (s.closeStdout.closeStderr.goWaiter c .closeChan).toCore =
            s.toCore.setWaiter c .closeChan := by
          rw [goWaiter, Core.setWaiter, closeStderr_toCore, closeStdout_toCore]
        rw [hc]
        exact .waiter (by rw [hp]; rfl) rfl
      · cases h
  | closeChan =>
      simp only [hp] at h ⊢
      cases h
      exact .waiter (by rw [hp]; rfl) rfl

theorem closerStep_toCore (h : s.closerStep c = some s') : s'.toCore = s.toCore := by
  unfold closerStep at h
  cases hp : s.closers c <;> simp only [hp] at h
  case off | done => cases h
  case poll => split at h <;> cases h; rfl
  case closeStdout => cases h; exact closeStdout_toCore
  case closeStderr => cases h; exact closeStderr_toCore

/-- **Every step of a process is a move of its core**, as long as `p.cmd` has been started
wherever `run` is in an attempt with a child or a monitor is about to store `Running`. -/
theorem step_move (hpid : ∀ t, (s.loops t).stage.hasChild → s.pid ≠ none)
    (hmon : ∀ i, (s.monitors i).stage = .passed → s.pid ≠ none)
    (h : s.step cfg a = some s') :
    Move cfg s.toCore (s.label a) s'.toCore := by
  cases a with
  | call t op =>
      simp only [step] at h
      split at h <;> cases h
      cases op with
      | start wait => exact .issue _ _
      | stop | cron | liveness | restart | access | signal | restartSignal => exact .stutter _
  | caller t ch => exact callerStep_move h
  | loop t ch => exact loopStep_move (hpid t) h
  | stopper t ch => exact stopperStep_move h
  | monitor c => exact monitorStep_move (hmon c) h
  | waiter c => exact waiterStep_move h
  | closer c =>
      rw [closerStep_toCore h]
      exact .stutter _
  | exit c status =>
      simp only [step, exitStep] at h
      split at h <;> cases h
      rename_i hs
      exact .exit hs.1 hs.2
  | sigchld =>
      cases h
      exact .stutter _

end Sys

end Supervisord.Process
