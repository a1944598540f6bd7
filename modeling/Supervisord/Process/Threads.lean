import Supervisord.Machine.RWLock
import Supervisord.Process.Basic

/-!
# The goroutines of a process

The control points of every goroutine that touches a `Process`, one inductive type for each
kind:

* `CallerPc`: a call of `Start`, `Stop`, `GetPid`, …, a cron entry, a monitor callback;
* `LoopPc`: the goroutine of the start loop, with `run` inlined;
* `MonitorPc`, `WaiterPc`, `CloserPc`: the goroutines `run` launches for each child,
  `monitorProgramIsRunning`, `waitForExit` and the one that closes the logs;
* `StopperPc`: the stopping goroutine `Stop` launches.

A step goes from one control point to the next and makes at most one access to what other
goroutines may touch without `p.lock` — the state, `stopByUser`, `p.cmd`, the two loggers,
the flags of a monitor.  A critical section that makes a single such access, or none, is one
step; sleeping is no step at all, a goroutine may always be slow.
-/

namespace Supervisord.Process

/-- The choices the environment makes inside a step: whether a fallible operation succeeds,
and which way out of a `select` is taken. -/
inductive Choice where
  | ok
  | fail
  | timeout
deriving DecidableEq

/-- Where a goroutine is inside `changeStateTo`. -/
inductive Phase where
  /-- About to load the state. -/
  | load
  /-- About to emit the event, with the state loaded. -/
  | emit (old : State)
  /-- About to store the new state. -/
  | store
deriving DecidableEq

/-! ## Signalling -/

/-- A running `signals.Kill`. -/
structure KillJob where
  /-- The `os.Process` passed to it, if not `nil`. -/
  process : Option CmdId
  /-- The signals still to be sent. -/
  sigs : List String
  /-- Whether the process group is signalled. -/
  sigChildren : Bool
  /-- `signalChan` holds a SIGCHLD. -/
  pending : Bool := false
  /-- In the `select`, after a signal was sent. -/
  waiting : Bool := false
deriving DecidableEq

/-- One `syscall.Kill`. -/
structure KillCall where
  /-- The call of `Process` on whose behalf it is made. -/
  caller : Tid
  /-- Whether the stopping goroutine of that call makes it. -/
  byStopper : Bool
  /-- The process whose pid is passed. -/
  target : CmdId
  /-- The signal name. -/
  sig : String
  /-- Whether the negated pid is passed. -/
  group : Bool
  /-- Whether the system call succeeds. -/
  ok : Bool
deriving DecidableEq

/-- What a step of `signals.Kill` leads to. -/
inductive KillResult where
  /-- Still in `Kill`, a system call may have been made. -/
  | more (job : KillJob) (sent : Option (CmdId × String × Bool))
  /-- `Kill` returns. -/
  | done
  /-- The nil `os.Process` is dereferenced. -/
  | crash
deriving DecidableEq

/-- A step of `signals.Kill`. -/
def KillJob.step (job : KillJob) (ch : Choice) : Option KillResult :=
  if job.waiting then
    match ch with
    -- case <-signalChan
    | .ok => if job.pending then some .done else none
    -- case <-time.After(stopWaitSecs)
    | .timeout => some (.more { job with waiting := false } none)
    | .fail => none
  else match job.sigs with
    | [] => some .done
    | sig :: rest => match job.process, ch with
      | none, _ => some .crash
      | some c, .ok => some (.more { job with sigs := rest, waiting := true } (some (c, sig, true)))
      | some c, .fail => some (.more { job with sigs := rest } (some (c, sig, false)))
      | some _, .timeout => none

/-- SIGCHLD is delivered to the registered channel. -/
def KillJob.raise (job : KillJob) : KillJob := { job with pending := true }

/-! ## Callers -/

/-- A read of the process by a status request. -/
inductive Accessor where
  | getPid
  | getDescription
  | getExitstatus
deriving DecidableEq

/-- A call made on the process. -/
inductive Op where
  | start (wait : Bool)
  | stop (wait : Bool)
  /-- A cron entry firing. -/
  | cron
  /-- `DoLivenessCheck`. -/
  | liveness
  /-- A file-change callback without a restart command or signal. -/
  | restart
  | access (k : Accessor)
  /-- `Signal`. -/
  | signal (sig : String)
  /-- A file-change callback with a restart signal. -/
  | restartSignal (sigs : List String)
deriving DecidableEq

/-- The control points of a call.  `restart` marks a `Stop` that a restart path follows by
`Start(true)`. -/
inductive CallerPc where
  | idle
  /-- `Start`: waiting for the lock. -/
  | startEnter (wait : Bool)
  /-- `Start`: in `runCond.Wait()`. -/
  | condWait
  /-- `Stop`: waiting for the lock. -/
  | stopEnter (wait restart : Bool)
  /-- `Stop`: about to test `IsRunning`. -/
  | stopCheck (wait restart : Bool)
  /-- `Stop`: in `changeStateTo(Stopping)`. -/
  | stopChange (wait restart : Bool) (ph : Phase)
  /-- `Stop`: about to launch the stopping goroutine. -/
  | stopLaunch (wait restart : Bool)
  /-- `Stop`: polling `IsRunning`. -/
  | stopWait (restart : Bool)
  /-- The cron entry: about to test `IsRunning`. -/
  | cronCheck
  /-- `DoLivenessCheck`: about to test `IsRunning`. -/
  | livenessCheck
  /-- The liveness script is being executed. -/
  | checking
  /-- An accessor: about to load the state. -/
  | access (k : Accessor)
  /-- An accessor: waiting for the read lock, with the state loaded. -/
  | accessRead (k : Accessor) (state : State)
  /-- `Signal`, `sendSignals`: waiting for the read lock. -/
  | signalEnter (checked : Bool) (sigs : List String)
  /-- In `signals.Kill`, under the read lock. -/
  | signalling (job : KillJob)
  | done
  /-- A nil pointer was dereferenced. -/
  | crashed
deriving DecidableEq

def CallerPc.raise : CallerPc → CallerPc
  | .signalling job => .signalling job.raise
  | pc => pc

/-- Where a `Stop` goes when it returns. -/
def CallerPc.stopReturn (restart : Bool) : CallerPc :=
  if restart then .startEnter true else .done

/-! ## The stopping goroutine -/

/-- The control points of the stopping goroutine. -/
inductive StopperPc where
  | off
  /-- `sendSignals`, of the stop signals or of the final KILL: waiting for the read lock. -/
  | send (kill : Bool)
  /-- In `signals.Kill`, under the read lock. -/
  | killing (kill : Bool) (job : KillJob)
  /-- About to test `IsRunning` for the final KILL. -/
  | check
  | done
  /-- A nil pointer was dereferenced. -/
  | crashed
deriving DecidableEq

def StopperPc.raise : StopperPc → StopperPc
  | .killing kill job => .killing kill job.raise
  | pc => pc

/-! ## The start loop -/

/-- The places where `run` calls `changeStateTo`. -/
inductive Change where
  | starting
  /-- The command cannot be created. -/
  | createFatal
  /-- `cmd.Start` fails for the last time. -/
  | spawnFatal
  /-- `cmd.Start` fails and is retried. -/
  | spawnBackoff
  | running
  | exited
  | stopped
  /-- The child has exited too early. -/
  | exitBackoff
  /-- The retries are exhausted. -/
  | retryFatal
deriving DecidableEq

/-- The state a call of `changeStateTo` is given. -/
def Change.target : Change → State
  | .starting => .starting
  | .createFatal | .spawnFatal | .retryFatal => .fatal
  | .spawnBackoff | .exitBackoff => .backoff
  | .running => .running
  | .exited => .exited
  | .stopped => .stopped

/-- The control points of the start loop. -/
inductive LoopPc where
  | off
  /-- Entering `run`: waiting for the lock. -/
  | enter
  /-- About to test `IsRunning`. -/
  | check
  /-- Already running: about to call `finishCb`. -/
  | runningCb
  /-- The head of the retry loop: about to test `stopByUser`. -/
  | test
  /-- The restart pause: about to unlock. -/
  | pause
  /-- The restart pause: sleeping, then waiting for the lock. -/
  | paused
  | change (k : Change) (ph : Phase)
  /-- `createProgramCommand`: parsing the command. -/
  | create
  | setUser
  | setStdoutLog
  | setStderrLog
  /-- About to call `cmd.Start`. -/
  | spawn
  /-- The child runs: about to unlock and to launch `waitForExit`. -/
  | release
  /-- Polling `procExitC` and `IsRunning`. -/
  | poll
  /-- The exit is seen: about to set `programExited`. -/
  | seen
  /-- Waiting for `monitorExited`. -/
  | settle
  /-- Waiting for the lock. -/
  | relock
  /-- About to load the state that classifies the exit. -/
  | classify
  /-- Running or stopping: about to load `stopByUser`. -/
  | verdict
  /-- `failToStartProgram`: about to call the finish callback. -/
  | fatalCb
  /-- `run` returns: about to unlock. -/
  | leave
  /-- Behind `run`: about to test `stopByUser`. -/
  | rested
  /-- About to evaluate `isAutoRestart`. -/
  | auto
  /-- The loop has ended: waiting for the lock to reset `inStart`. -/
  | finish
  | done
  /-- A nil pointer was dereferenced. -/
  | crashed
deriving DecidableEq

/-- The start loop launched by a `Start`. -/
structure Loop where
  pc : LoopPc := .off
  /-- The command of the current attempt. -/
  att : CmdId := 0
  /-- The current invocation of `run`. -/
  rid : Nat := 0
deriving DecidableEq

/-! ## The goroutines of a child -/

/-- The control points of `monitorProgramIsRunning` and of the callback behind it. -/
inductive MonitorPc where
  | off
  /-- Polling the time and `programExited`. -/
  | poll
  /-- About to set `monitorExited`. -/
  | leave
  /-- Waiting for the lock. -/
  | enter
  /-- About to load `programExited`. -/
  | checkExited
  /-- About to load the state. -/
  | checkState
  /-- In `changeStateTo(Running)`. -/
  | change (ph : Phase)
  | unlock
  /-- About to call the finish callback. -/
  | callback
  | done
  /-- A nil pointer was dereferenced. -/
  | crashed
deriving DecidableEq

/-- The monitor of one child, with the flags it shares with `run`. -/
structure Monitor where
  pc : MonitorPc := .off
  monitorExited : Bool := false
  programExited : Bool := false
  /-- The start loop and the invocation of `run` whose callback it calls. -/
  loop : Tid := 0
  rid : Nat := 0
deriving DecidableEq

/-- The control points of `waitForExit`. -/
inductive WaiterPc where
  | off
  /-- About to evaluate `p.cmd` and call `Wait` on it. -/
  | call
  /-- In `cmd.Wait()`, waiting for the process. -/
  | waiting (cmd : CmdId)
  /-- In `cmd.Wait()`, with the process reaped: what it or its own children write is being copied to
  the loggers. -/
  | copying (cmd : CmdId)
  /-- About to store `Stopped`. -/
  | store
  /-- Waiting for the lock to close the logs. -/
  | closeLogs
  /-- About to close `procExitC`. -/
  | closeChan
  | done
  /-- A nil pointer was dereferenced. -/
  | crashed
deriving DecidableEq

/-- The control points of the goroutine that closes the logs. -/
inductive CloserPc where
  | off
  /-- Polling `IsRunning`. -/
  | poll
  | closeStdout
  | closeStderr
  | done
deriving DecidableEq

/-- A holder of `p.lock`. -/
inductive Holder where
  | loop (t : Tid)
  | monitor (c : CmdId)
deriving DecidableEq

/-- A reader of `p.lock` that keeps it for more than one step. -/
inductive Reader where
  | caller (t : Tid)
  | stopper (t : Tid)
deriving DecidableEq

end Supervisord.Process
