import Mathlib.Algebra.Group.Int.Defs
import Mathlib.Algebra.Group.Nat.Defs
import Mathlib.Logic.Function.Basic

/-!
# The data of a supervised process

What `process/process.go` keeps about one `Process`: its `State`, the `exec.Cmd` objects it
creates one after another, the settings of its configuration entry, and the events it
announces.

An `exec.Cmd` is named by a `CmdId`.  One is created by every attempt to start the program,
and the logger objects `setLog` creates for it are named by the same id, as is the operating
system process `cmd.Start` makes of it; none of them is ever reused.
-/

namespace Supervisord.Process

/-- The state of a process. -/
inductive State where
  | stopped
  | starting
  | running
  | backoff
  | stopping
  | exited
  | fatal
  | unknown
deriving DecidableEq

/-- `IsRunning`, as a function of the state it loads. -/
def State.isRunning : State → Bool
  | .starting | .running | .stopping => true
  | .stopped | .backoff | .exited | .fatal | .unknown => false

/-- An `exec.Cmd` object. -/
abbrev CmdId := Nat

/-- A call of one of the methods of `Process`: a request handler, a cron entry, a monitor
callback.  A start loop and a stopping goroutine carry the name of the call that launched
them. -/
abbrev Tid := Nat

/-- An `exec.Cmd` and the child made of it. -/
structure Cmd where
  /-- `cmd.Process` is set: `cmd.Start` has succeeded. -/
  started : Bool := false
  /-- The operating system process has exited. -/
  exited : Bool := false
  /-- The exit status `wait4` will return, `none` if another reaper has taken it. -/
  status : Option Int := none
  /-- `wait4` has returned inside `cmd.Wait`: the process is reaped, and its pid may be given to
  another one. -/
  reaped : Bool := false
  /-- `cmd.ProcessState`, as its exit status; it is set when the process is reaped. -/
  processState : Option Int := none
  /-- `cmd.Wait` has returned, which it does when the process is reaped and its output has been
  copied to the end. -/
  waited : Bool := false
deriving DecidableEq

/-- The child is alive as far as this process can tell: spawned by `cmd.Start` and not yet
returned by `cmd.Wait`, though it may have been reaped. -/
def Cmd.alive (c : Cmd) : Bool := c.started && !c.waited

/-- The child has the pid it was given: it has been spawned by `cmd.Start` and not yet been reaped
by `cmd.Wait`. -/
def Cmd.hasPid (c : Cmd) : Bool := c.started && !c.reaped

theorem Cmd.hasPid_iff {c : Cmd} : c.hasPid = true ↔ c.started = true ∧ c.reaped = false := by
  rw [hasPid, Bool.and_eq_true, Bool.not_eq_true']

/-- The settings of the configuration entry the methods of `Process` read. -/
structure Config where
  /-- `config.IsProgram()`; the entry is an event listener otherwise. -/
  isProgram : Bool := true
  /-- `getStartSeconds()`. -/
  startsecs : Int := 1
  /-- `getRestartPause()`. -/
  restartpause : Int := 0
  /-- The `startretries` setting, as `GetInt` returns it. -/
  startretries : Int := 3
  /-- The `autorestart` setting. -/
  autorestart : String := "unexpected"
  /-- `getExitCodes()`. -/
  exitcodes : List Int := [0, 2]
  /-- The fields of the `stopsignal` setting. -/
  stopsignal : List String := ["TERM"]
  /-- The `stopasgroup` setting. -/
  stopasgroup : Bool := false
  /-- The `killasgroup` setting. -/
  killasgroup : Bool := false
  /-- The `liveness_check_failure_action` setting in lower case. -/
  livenessFailureAction : String := "restart"

/-- `getStartRetries`, which makes an `int32` of the setting. -/
def Config.getStartRetries (cfg : Config) : Int := cfg.startretries.bmod (2 ^ 32)

/-- `inExitCodes`. -/
def Config.inExitCodes (cfg : Config) (exitCode : Int) : Bool := cfg.exitcodes.contains exitCode

/-- `isAutoRestart`, on what `p.cmd` points to. -/
def Config.isAutoRestart (cfg : Config) (cmd : Option Cmd) : Bool :=
  if cfg.autorestart = "false" then false
  else if cfg.autorestart = "true" then true
  else match cmd.bind Cmd.processState with
    | some exitCode => !cfg.inExitCodes exitCode
    | none => false

/-- The restart policy the documentation gives: `autorestart` is `true`, or it is neither
`true` nor `false` and the exit code is known and not an expected one. -/
def Config.RestartPolicy (cfg : Config) (exitCode : Option Int) : Prop :=
  cfg.autorestart = "true" ∨
    cfg.autorestart ≠ "true" ∧ cfg.autorestart ≠ "false" ∧
      ∃ code, exitCode = some code ∧ code ∉ cfg.exitcodes

theorem Config.isAutoRestart_iff (cfg : Config) (c : Cmd) :
    cfg.isAutoRestart (some c) ↔ cfg.RestartPolicy c.processState := by
  unfold isAutoRestart RestartPolicy
  by_cases hf : cfg.autorestart = "false"
  · simp [hf]
  · by_cases ht : cfg.autorestart = "true"
    · simp [ht]
    · cases h : c.processState <;> simp [hf, ht, h, inExitCodes]

/-- A process state event, as `changeStateTo` creates it.  The program and group names are
those of the configuration entry, the same in all events of one process. -/
structure Event where
  /-- The state announced. -/
  newState : State
  /-- The state loaded before. -/
  fromState : State
  /-- The retry count of a starting or backoff event. -/
  tries : Option Nat := none
  /-- The process whose pid a running, stopping, exited or stopped event carries. -/
  pid : Option CmdId := none
  /-- Whether the exit code of an exited event is an expected one. -/
  expected : Option Bool := none
deriving DecidableEq

end Supervisord.Process
