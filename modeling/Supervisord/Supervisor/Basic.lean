import Supervisord.Config.Group
import Supervisord.Machine.Basic
import Supervisord.Manager.Basic

/-!
# Reloading the supervisor

`Supervisor.reload` loads the configuration again, starts the event listeners, creates the
processes of new programs, starts those that are started automatically, and removes and stops the
processes of the programs that are gone.  `machine` makes a run of any number of reloads of it.

The calls of `Start` and `Stop` are recorded; they return at once here, whatever becomes of the
goroutines they leave behind.  Whether the operating system grants the resources the configuration
asks for (`checkRequiredResources`) is a parameter.  The logger, the pid file and the HTTP server
are left out.
-/

namespace Supervisord

open Go

structure Supervisor where
  config : Config
  procMgr : Manager := {}

/-- `NewSupervisor`. -/
def newSupervisor (configFileDir : Str) : Supervisor := { config := newConfig configFileDir }

namespace Supervisor

/-- A round of the loop over the event listeners. -/
def startEventListener (s : Supervisor × List Call) (entry : Ptr) : Supervisor × List Call :=
  match s.1.procMgr.createProcess s.1.config entry with
  | (procMgr, some proc) =>
    let name := (s.1.config.entry entry).getEventListenerName
    ({ s.1 with procMgr }, s.2 ++ [⟨proc, name, .start false⟩])
  -- not reached: the entry is one of an event listener
  | (procMgr, none) => ({ s.1 with procMgr }, s.2)

def startEventListeners (rt : Runtime) (s : Supervisor) : Supervisor × List Call :=
  (s.config.getEventListeners rt).foldl startEventListener (s, [])

def createPrograms (rt : Runtime) (host : Host) (n : Nat) (prevPrograms : List Str)
    (s : Supervisor) : Option Supervisor :=
  (s.config.getProgramNames (rt.fork 0) host n).bind fun programs ↦
    (s.config.getPrograms (rt.fork 1) host n).map fun entries ↦
      let procMgr := entries.foldl (fun pm entry ↦ (pm.createProcess s.config entry).1) s.procMgr
      let removedPrograms := Util.sub prevPrograms programs
      { s with procMgr := removedPrograms.foldl (fun pm p ↦ (pm.remove p).1) procMgr }

/-- A round of the loop over the programs that are removed. -/
def removeProgram (s : Supervisor × List Call) (removedProg : Str) : Supervisor × List Call :=
  let config := s.1.config.removeProgram removedProg
  match s.1.procMgr.remove removedProg with
  | (procMgr, some proc) =>
    ({ config, procMgr }, s.2 ++ [⟨proc, removedProg, .stop false⟩])
  | (procMgr, none) => ({ config, procMgr }, s.2)

/-- How a reload ends. -/
inductive Reloaded where
  /-- `os.Exit(1)`. -/
  | exit
  /-- `Reload` returns the groups that are added, changed and removed, and an error; `calls` are
  those made on processes. -/
  | returned (s : Supervisor) (groups : List Str × List Str × List Str) (err : Option Str)
      (calls : List Call)

/-- What an iteration over the maps, the file system and the operating system contribute to a
reload. -/
structure Environment where
  rt : Runtime
  /-- The configuration file, if it can be opened. -/
  file : Option Ini
  /-- `checkRequiredResources` returns no error. -/
  checkRequiredResources : Config → Bool := fun _ ↦ true

/-- `Reload`, once the configuration is loaded and the resources are checked. -/
def reloadPrograms (rt : Runtime) (host : Host) (n : Nat) (prevPrograms : List Str)
    (prevProgGroup : ProcessGroup) (loadedPrograms : List Str) (s : Supervisor) :
    Option Reloaded :=
  let (s, calls) := s.startEventListeners (rt.fork 0)
  (s.createPrograms (rt.fork 1) host n prevPrograms).bind fun s ↦
    (s.procMgr.startAutoStartPrograms (rt.fork 2) host n s.config).map fun starts ↦
      let removedPrograms := Util.sub prevPrograms loadedPrograms
      let (s, calls) := removedPrograms.foldl removeProgram (s, calls ++ starts)
      .returned s (s.config.programGroup.sub (rt.fork 3) prevProgGroup) none calls

/-- `Reload`. -/
def reload (host : Host) (n : Nat) (s : Supervisor) (env : Environment) : Option Reloaded :=
  (s.config.getProgramNames (env.rt.fork 0) host n).bind fun prevPrograms ↦
    let prevProgGroup := s.config.programGroup.clone (env.rt.fork 2)
    (s.config.load host n env.file).bind fun
      | (config, .error err) => some (.returned { s with config } ([], [], []) (some err) [])
      | (config, .ok loadedPrograms) =>
        if env.checkRequiredResources config then
          reloadPrograms (env.rt.fork 1) host n prevPrograms prevProgGroup loadedPrograms
            { s with config }
        else some .exit

/-- A supervisor from `NewSupervisor` on.  Its actions are the reloads that return, with the rounds
`Eval` is given. -/
def machine (host : Host) (configFileDir : Str) : Machine Supervisor (Nat × Environment) where
  init := newSupervisor configFileDir
  step s a := match s.reload host a.1 a.2 with
    | some (.returned s _ _ _) => some s
    | some .exit | none => none

end Supervisor

end Supervisord
