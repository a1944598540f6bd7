import Supervisord.Machine.Basic
import Supervisord.Process.Threads

/-!
# The steps of a process

The state of one `Process` with all goroutines that touch it, and what each of them does in
one step.  `loopStep` is `run` and the loop of `Start` around it, `callerStep` the methods
that are called from outside, `stopperStep` the goroutine `Stop` leaves behind, and
`monitorStep`, `waiterStep` and `closerStep` the goroutines of one child.

Each branch is one control point of the source.  Which goroutine moves, and how the
environment answers it, is the action: an interleaving is a list of actions, and `machine`
has all of them as its runs.
-/

namespace Supervisord.Process

/-! ## States -/

/-- The finish callback of one invocation of `run`. -/
structure Callback where
  /-- The `sync.Once` of the wrapper has fired. -/
  fired : Bool := false
  /-- How often `finishCb` has been called. -/
  calls : Nat := 0
deriving DecidableEq

/-- The callback is called. -/
def Callback.call (b : Callback) : Callback := { b with calls := b.calls + 1 }

/-- What `run`, `waitForExit`, `monitorProgramIsRunning` and `Stop` race for: the fields of
`Process`, the commands, and the goroutines of the start loops and of the children. -/
structure Core where
  state : State := .stopped
  /-- `p.cmd`. -/
  cmd : Option CmdId := none
  stopByUser : Bool := false
  inStart : Bool := false
  retryTimes : Nat := 0
  lock : RWLock Holder Reader := .free
  cmds : CmdId → Cmd := fun _ ↦ {}
  /-- The next `exec.Cmd` to be created. -/
  nextCmd : CmdId := 0
  loops : Tid → Loop := fun _ ↦ {}
  monitors : CmdId → Monitor := fun _ ↦ {}
  waiters : CmdId → WaiterPc := fun _ ↦ .off
  /-- The next invocation of `run`. -/
  nextRun : Nat := 0
  callbacks : Nat → Callback := fun _ ↦ {}

/-- The process whose pid `p.cmd.Process.Pid` is; `none` where it dereferences nil. -/
def Core.pid (c : Core) : Option CmdId := c.cmd.filter fun i ↦ (c.cmds i).started

/-- A `Process` and everything that runs on it. -/
structure Sys extends Core where
  /-- `p.StdoutLog`. -/
  stdoutLog : Option CmdId := none
  /-- `p.StderrLog`. -/
  stderrLog : Option CmdId := none
  /-- The stdout loggers `Close` was called on. -/
  stdoutClosed : CmdId → Bool := fun _ ↦ false
  /-- The stderr loggers `Close` was called on. -/
  stderrClosed : CmdId → Bool := fun _ ↦ false
  callers : Tid → CallerPc := fun _ ↦ .idle
  stoppers : Tid → StopperPc := fun _ ↦ .off
  closers : CmdId → CloserPc := fun _ ↦ .off
  /-- The events emitted, oldest first. -/
  events : List Event := []
  /-- The `kill` system calls made, oldest first. -/
  kills : List KillCall := []

/-- The goroutine that moves, with the environment's answer. -/
inductive Act where
  | call (t : Tid) (op : Op)
  | caller (t : Tid) (ch : Choice)
  | loop (t : Tid) (ch : Choice)
  | stopper (t : Tid) (ch : Choice)
  | monitor (c : CmdId)
  | waiter (c : CmdId)
  | closer (c : CmdId)
  /-- A child of this process exits. -/
  | exit (c : CmdId) (status : Option Int)
  /-- Another child of the supervisor exits. -/
  | sigchld
deriving DecidableEq

namespace Sys

variable (cfg : Config) (s : Sys)

def goLoop (t : Tid) (pc : LoopPc) : Sys :=
  { s with loops := Function.update s.loops t { s.loops t with pc := pc } }

def goCaller (t : Tid) (pc : CallerPc) : Sys :=
  { s with callers := Function.update s.callers t pc }

def goStopper (t : Tid) (pc : StopperPc) : Sys :=
  { s with stoppers := Function.update s.stoppers t pc }

def goMonitor (c : CmdId) (pc : MonitorPc) : Sys :=
  { s with monitors := Function.update s.monitors c { s.monitors c with pc := pc } }

def goWaiter (c : CmdId) (pc : WaiterPc) : Sys :=
  { s with waiters := Function.update s.waiters c pc }

def goCloser (c : CmdId) (pc : CloserPc) : Sys :=
  { s with closers := Function.update s.closers c pc }

/-! ## Events, callbacks and signals -/

/-- The event `changeStateTo` creates; `none` where creating it dereferences nil. -/
def event (new old : State) : Option Event :=
  match new with
  | .starting | .backoff => some { newState := new, fromState := old, tries := some s.retryTimes }
  | .running | .stopping | .stopped =>
    s.pid.map fun c ↦ { newState := new, fromState := old, pid := some c }
  | .exited => s.pid.map fun c ↦
    { newState := new, fromState := old, pid := some c
      expected := some ((s.cmds c).processState.any cfg.inExitCodes) }
  | .fatal | .unknown => some { newState := new, fromState := old }

/-- The emission inside `changeStateTo`: nothing is created for an event listener. -/
def emit (new old : State) : Option Sys :=
  if cfg.isProgram then (s.event cfg new old).map fun e ↦ { s with events := s.events ++ [e] }
  else some s

/-- `runCond.Signal()` wakes the `Start` that waits. -/
def signal (t : Tid) : Sys :=
  { s with
    callers := Function.update s.callers t
      (match s.callers t with | .condWait => .done | pc => pc) }

/-- `finishCb`, the callback of the start loop `t` in the invocation `r` of `run`. -/
def finishCb (t : Tid) (r : Nat) : Sys :=
  { s.signal t with callbacks := Function.update s.callbacks r (s.callbacks r).call }

/-- `finishCbWrapper`: `once.Do(finishCb)`. -/
def finishCbWrapper (t : Tid) (r : Nat) : Sys :=
  if (s.callbacks r).fired then s
  else
    { s.signal t with
      callbacks := Function.update s.callbacks r { (s.callbacks r).call with fired := true } }

/-- SIGCHLD is delivered to the channel of every running `signals.Kill`. -/
def raise : Sys :=
  { s with
    callers := fun t ↦ (s.callers t).raise
    stoppers := fun t ↦ (s.stoppers t).raise }

/-- Record a `kill` system call. -/
def kill (caller : Tid) (byStopper group : Bool) : Option (CmdId × String × Bool) → Sys
  | none => s
  | some (target, sig, ok) =>
    { s with kills := s.kills ++ [{ caller, byStopper, target, sig, group, ok }] }

/-! ## The start loop and `run` -/

/-- The store of `changeStateTo` in `run`, and where `run` goes from there. -/
def changed (t : Tid) (k : Change) : Sys :=
  let s' := { s with state := k.target }
  match k with
  | .starting => { s' with retryTimes := s.retryTimes + 1 }.goLoop t .create
  | .createFatal | .spawnFatal | .retryFatal => s'.goLoop t .fatalCb
  | .spawnBackoff => s'.goLoop t .test
  -- go finishCbWrapper()
  | .running => (s'.goMonitor (s.loops t).att .callback).goLoop t .release
  | .exited | .stopped => s'.goLoop t .leave
  | .exitBackoff =>
    s'.goLoop t (if cfg.getStartRetries ≤ s.retryTimes then .change .retryFatal .load else .test)

/-- `cmd.Start` succeeds: the goroutine that closes the logs and, if the program has to stay
up for some time, the monitor are launched. -/
def spawned (t : Tid) : Sys :=
  let c := (s.loops t).att
  let waits : Bool := 0 < cfg.startsecs
  { s with
    cmds := Function.update s.cmds c { s.cmds c with started := true }
    closers := Function.update s.closers c .poll
    monitors := Function.update s.monitors c
      { pc := if waits then .poll else .off
        monitorExited := !waits
        loop := t
        rid := (s.loops t).rid } }.goLoop t (if waits then .release else .change .running .load)

/-- A step of the goroutine of a start loop. -/
def loopStep (t : Tid) (ch : Choice) : Option Sys :=
  let l := s.loops t
  match l.pc with
  | .off | .done | .crashed => none
  | .enter => (s.lock.lock (.loop t)).map fun k ↦
    { s with
      lock := k
      loops := Function.update s.loops t { l with pc := .check, rid := s.nextRun }
      nextRun := s.nextRun + 1 }
  | .check =>
    if s.state.isRunning then some (s.goLoop t .runningCb)
    else some ({ s with retryTimes := 0 }.goLoop t .test)
  | .runningCb => some ((s.finishCb t l.rid).goLoop t .leave)
  | .test =>
    if s.stopByUser then some (s.goLoop t .leave)
    else if 0 < cfg.restartpause ∧ s.retryTimes ≠ 0 then some (s.goLoop t .pause)
    else some (s.goLoop t (.change .starting .load))
  | .pause => some ({ s with lock := .free }.goLoop t .paused)
  | .paused => (s.lock.lock (.loop t)).map fun k ↦
    { s with lock := k }.goLoop t (.change .starting .load)
  | .change k .load => some (s.goLoop t (.change k (.emit s.state)))
  | .change k (.emit old) => match s.emit cfg k.target old with
    | some s' => some (s'.goLoop t (.change k .store))
    | none => some (s.goLoop t .crashed)
  | .change k .store => some (s.changed cfg t k)
  -- parseCommand and createCommand
  | .create => match ch with
    | .ok => some
      { s with
        cmd := some s.nextCmd
        cmds := Function.update s.cmds s.nextCmd {}
        nextCmd := s.nextCmd + 1
        loops := Function.update s.loops t { l with pc := .setUser, att := s.nextCmd } }
    | .fail => some (s.goLoop t (.change .createFatal .load))
    | .timeout => none
  | .setUser => match ch with
    | .ok => some (s.goLoop t .setStdoutLog)
    | .fail => some (s.goLoop t (.change .createFatal .load))
    | .timeout => none
  | .setStdoutLog =>
    some ({ s with stdoutLog := if cfg.isProgram then some l.att else s.stdoutLog }.goLoop t
      .setStderrLog)
  | .setStderrLog =>
    some ({ s with stderrLog := if cfg.isProgram then some l.att else s.stderrLog }.goLoop t
      .spawn)
  | .spawn => match ch with
    | .ok => some (s.spawned cfg t)
    | .fail =>
      some (s.goLoop t (.change
        (if cfg.getStartRetries ≤ s.retryTimes then .spawnFatal else .spawnBackoff) .load))
    | .timeout => none
  | .release => some ({ s with
      lock := .free
      waiters := Function.update s.waiters l.att .call }.goLoop t .poll)
  -- procExitC is closed, or the state is seen not to be running
  | .poll =>
    if s.waiters l.att = .done ∨ s.state.isRunning = false then some (s.goLoop t .seen)
    else none
  | .seen => some ({ s with
      monitors := Function.update s.monitors l.att
        { s.monitors l.att with programExited := true } }.goLoop t .settle)
  | .settle => if (s.monitors l.att).monitorExited then some (s.goLoop t .relock) else none
  | .relock => (s.lock.lock (.loop t)).map fun k ↦ { s with lock := k }.goLoop t .classify
  | .classify =>
    if s.state = .running ∨ s.state = .stopping then some (s.goLoop t .verdict)
    else some (s.goLoop t (.change .exitBackoff .load))
  | .verdict =>
    some (s.goLoop t (.change (if s.stopByUser then .stopped else .exited) .load))
  | .fatalCb => some ((s.finishCbWrapper t l.rid).goLoop t .leave)
  | .leave => some ({ s with lock := .free }.goLoop t .rested)
  | .rested => some (s.goLoop t (if s.stopByUser then .finish else .auto))
  -- the lock is taken only where the exit code is looked at
  | .auto =>
    if s.lock.readable ∨ cfg.autorestart = "false" ∨ cfg.autorestart = "true" then
      some (s.goLoop t (if cfg.isAutoRestart (s.cmd.map s.cmds) then .enter else .finish))
    else none
  | .finish =>
    if s.lock = .free then some ({ s with inStart := false }.goLoop t .done) else none

/-! ## Calls -/

/-- Where a call begins. -/
def opEnter : Op → CallerPc
  | .start wait => .startEnter wait
  | .stop wait => .stopEnter wait false
  | .cron => .cronCheck
  | .liveness => .livenessCheck
  | .restart => .stopEnter true true
  | .access k => .access k
  | .signal sig => .signalEnter true [sig]
  | .restartSignal sigs => .signalEnter false sigs

/-- Whether an accessor that has loaded `state` dereferences nil under the read lock. -/
def accessCrash (k : Accessor) (state : State) : Bool :=
  match k with
  | .getPid => state.isRunning && s.pid.isNone
  | .getDescription => state = .running && s.pid.isNone
  | .getExitstatus => (state = .exited || state = .backoff) && s.cmd.isNone

/-- A step of a call. -/
def callerStep (t : Tid) (ch : Choice) : Option Sys :=
  match s.callers t with
  | .idle | .condWait | .done | .crashed => none
  -- runCond.L is held from before the goroutine is launched until runCond.Wait()
  | .startEnter wait =>
    if s.lock = .free then
      if s.inStart then some (s.goCaller t .done)
      else some (({ s with inStart := true, stopByUser := false }.goLoop t .enter).goCaller t
        (if wait then .condWait else .done))
    else none
  | .stopEnter wait restart =>
    if s.lock = .free then
      some ({ s with stopByUser := true }.goCaller t (.stopCheck wait restart))
    else none
  | .stopCheck wait restart =>
    if s.state.isRunning then some (s.goCaller t (.stopChange wait restart .load))
    else some (s.goCaller t (.stopReturn restart))
  | .stopChange wait restart .load =>
    some (s.goCaller t (.stopChange wait restart (.emit s.state)))
  | .stopChange wait restart (.emit old) => match s.emit cfg .stopping old with
    | some s' => some (s'.goCaller t (.stopChange wait restart .store))
    | none => some (s.goCaller t .crashed)
  | .stopChange wait restart .store =>
    some ({ s with state := .stopping }.goCaller t (.stopLaunch wait restart))
  | .stopLaunch wait restart =>
    some ((s.goStopper t (.send false)).goCaller t
      (if wait then .stopWait restart else .stopReturn restart))
  | .stopWait restart =>
    if s.state.isRunning then none else some (s.goCaller t (.stopReturn restart))
  | .cronCheck => some (s.goCaller t (if s.state.isRunning then .done else .startEnter false))
  | .livenessCheck => some (s.goCaller t (if s.state.isRunning then .checking else .done))
  -- the outcome of the check: only a failure that trips the threshold has an action
  | .checking => match ch with
    | .fail => some (s.goCaller t
        (if cfg.livenessFailureAction = "restart" then .stopEnter true true
         else if cfg.livenessFailureAction = "stop" then .stopEnter true false
         else .done))
    | _ => some (s.goCaller t .done)
  | .access k => some (s.goCaller t (.accessRead k s.state))
  | .accessRead k state =>
    if s.lock.readable then
      some (s.goCaller t (if s.accessCrash k state then .crashed else .done))
    else none
  | .signalEnter checked sigs => (s.lock.rlock (.caller t)).map fun k ↦
    if checked && s.pid.isNone then s.goCaller t .done
    else if s.cmd.isNone then s.goCaller t .crashed
    else { s with lock := k }.goCaller t
      (.signalling { process := s.pid, sigs, sigChildren := true })
  | .signalling job => (job.step ch).map fun
    | .more job' sent => (s.kill t false job.sigChildren sent).goCaller t (.signalling job')
    | .done => { s with lock := s.lock.runlock (.caller t) }.goCaller t .done
    | .crash => { s with lock := s.lock.runlock (.caller t) }.goCaller t .crashed

/-- A step of the goroutine a `Stop` leaves behind. -/
def stopperStep (t : Tid) (ch : Choice) : Option Sys :=
  match s.stoppers t with
  | .off | .done | .crashed => none
  | .send kill => (s.lock.rlock (.stopper t)).map fun k ↦
    if s.cmd.isNone then s.goStopper t .crashed
    else { s with lock := k }.goStopper t (.killing kill
      { process := s.pid
        sigs := if kill then ["KILL"] else cfg.stopsignal
        sigChildren := if kill then cfg.killasgroup else cfg.stopasgroup })
  | .killing kill job => (job.step ch).map fun
    | .more job' sent => (s.kill t true job.sigChildren sent).goStopper t (.killing kill job')
    | .done => { s with lock := s.lock.runlock (.stopper t) }.goStopper t
        (if kill then .done else .check)
    | .crash => { s with lock := s.lock.runlock (.stopper t) }.goStopper t .crashed
  | .check => some (s.goStopper t (if s.state.isRunning then .send true else .done))

/-! ## The goroutines of a child -/

/-- A step of `monitorProgramIsRunning` for the child `c`. -/
def monitorStep (c : CmdId) : Option Sys :=
  let w := s.monitors c
  match w.pc with
  | .off | .done | .crashed => none
  -- endTime is over, or programExited is set
  | .poll => some (s.goMonitor c .leave)
  | .leave => some { s with
      monitors := Function.update s.monitors c { w with pc := .enter, monitorExited := true } }
  | .enter => (s.lock.lock (.monitor c)).map fun k ↦
    { s with lock := k }.goMonitor c .checkExited
  | .checkExited => some (s.goMonitor c (if w.programExited then .unlock else .checkState))
  | .checkState =>
    some (s.goMonitor c (if s.state = .starting then .change .load else .unlock))
  | .change .load => some (s.goMonitor c (.change (.emit s.state)))
  | .change (.emit old) => match s.emit cfg .running old with
    | some s' => some (s'.goMonitor c (.change .store))
    | none => some (s.goMonitor c .crashed)
  | .change .store => some ({ s with state := .running }.goMonitor c .unlock)
  | .unlock => some ({ s with lock := .free }.goMonitor c .callback)
  | .callback => some ((s.finishCbWrapper w.loop w.rid).goMonitor c .done)

/-- The process of the command `l` is reaped. -/
def reap (l : CmdId) : Sys :=
  { s with
    cmds := Function.update s.cmds l
      { s.cmds l with reaped := true, processState := (s.cmds l).status } }

/-- `cmd.Wait()` returns for the command `l`, whose process has been reaped. -/
def waited (l : CmdId) : Sys :=
  { s with cmds := Function.update s.cmds l { s.cmds l with waited := true } }

/-- In `cmd.Wait()` on `l`, called by `waitForExit` for `c`: the process is reaped when it has
exited.  Where there is nothing to wait for, `Wait` returns at once. -/
def wait (c l : CmdId) : Option Sys :=
  if (s.cmds l).started ∧ (s.cmds l).reaped = false then
    if (s.cmds l).exited then some ((s.reap l).goWaiter c (.copying l)) else none
  else some (s.goWaiter c .store)

/-- Close what `p.StdoutLog` points to. -/
def closeStdout : Sys := match s.stdoutLog with
  | some c => { s with stdoutClosed := Function.update s.stdoutClosed c true }
  | none => s

/-- Close what `p.StderrLog` points to. -/
def closeStderr : Sys := match s.stderrLog with
  | some c => { s with stderrClosed := Function.update s.stderrClosed c true }
  | none => s

/-- A step of `waitForExit` for the child `c`. -/
def waiterStep (c : CmdId) : Option Sys :=
  match s.waiters c with
  | .off | .done | .crashed => none
  | .call => some (s.goWaiter c (match s.cmd with | some c' => .waiting c' | none => .crashed))
  | .waiting l => s.wait c l
  -- the end of the output may be long in coming
  | .copying l => some ((s.waited l).goWaiter c .store)
  | .store => some ({ s with state := .stopped }.goWaiter c .closeLogs)
  | .closeLogs =>
    if s.lock = .free then some (s.closeStdout.closeStderr.goWaiter c .closeChan) else none
  | .closeChan => some (s.goWaiter c .done)

/-- A step of the goroutine that closes the logs of the child `c`. -/
def closerStep (c : CmdId) : Option Sys :=
  match s.closers c with
  | .off | .done => none
  | .poll => if s.state.isRunning then none else some (s.goCloser c .closeStdout)
  | .closeStdout => some (s.closeStdout.goCloser c .closeStderr)
  | .closeStderr => some (s.closeStderr.goCloser c .done)

/-- A child exits, which raises SIGCHLD. -/
def exitStep (c : CmdId) (status : Option Int) : Option Sys :=
  if (s.cmds c).started ∧ (s.cmds c).exited = false then
    some { s with
      cmds := Function.update s.cmds c { s.cmds c with exited := true, status } }.raise
  else none

/-- One step of a process. -/
def step : Act → Option Sys
  | .call t op => match s.callers t with
    | .idle => some (s.goCaller t (opEnter op))
    | _ => none
  | .caller t ch => s.callerStep cfg t ch
  | .loop t ch => s.loopStep cfg t ch
  | .stopper t ch => s.stopperStep cfg t ch
  | .monitor c => s.monitorStep cfg c
  | .waiter c => s.waiterStep c
  | .closer c => s.closerStep c
  | .exit c status => s.exitStep c status
  | .sigchld => some s.raise

end Sys

/-- A process with a given configuration, from `NewProcess` on. -/
def machine (cfg : Config) : Machine Sys Act where
  init := {}
  step s a := s.step cfg a

end Supervisord.Process
