import Mathlib.Data.List.Nodup
import Supervisord.Go.Path
import Supervisord.Machine.Exact
import Supervisord.Process.Step

/-!
# Monitored files

`setProgramRestartChangeMonitor` asks to be called when the program or a file of a directory
changes.  It is called for each command that is created, and what it has asked for is never taken
back: `one_callback_iff` says along which runs there is one callback for each path.
-/

namespace Supervisord.Process

open Go

/-- The settings of the configuration entry that `setProgramRestartChangeMonitor` reads, as the
getters return them. -/
structure ChangeConfig where
  restartWhenBinaryChanged : Bool := false
  restartDirectoryMonitor : Str := []
  restartFilePattern : Str := str "*"

inductive FileMatcher where
  | exact (path : Str)
  | pattern (filePattern : Str)
deriving DecidableEq

/-- A call of `AddMonitorFile`, with a callback that restarts the process. -/
structure MonitorFile where
  path : Str
  recursive : Bool
  matcher : FileMatcher
deriving DecidableEq

def addProgramChangeMonitor (path : Str) : MonitorFile where
  path := path
  recursive := false
  matcher := .exact path

def addConfigChangeMonitor (path filePattern : Str) : MonitorFile where
  path := path
  recursive := true
  matcher := .pattern filePattern

variable (conf : ChangeConfig) (wd : Option Str) (programPath : Str)

/-- The calls for a program, in the working directory `wd`. -/
def setProgramRestartChangeMonitor : List MonitorFile :=
  (if conf.restartWhenBinaryChanged then
    [addProgramChangeMonitor ((Path.abs wd programPath).getD programPath)]
  else []) ++
  if conf.restartDirectoryMonitor ≠ [] then
    let absDir := (Path.abs wd conf.restartDirectoryMonitor).getD conf.restartDirectoryMonitor
    [addConfigChangeMonitor absDir conf.restartFilePattern]
  else []

/-- The step is the part of `createProgramCommand` behind `setUser`. -/
def Sys.creates (s : Sys) : Act → Bool
  | .loop t ch => ch = .ok && (s.loops t).pc = .setUser
  | .call _ _ | .caller _ _ | .stopper _ _ | .monitor _ | .waiter _ | .closer _ | .exit _ _
  | .sigchld => false

/-- A process beside the callbacks that are registered for it. -/
def watched (cfg : Config) : Machine (Sys × List MonitorFile) Act :=
  (machine cfg).traced fun s a ↦
    if s.creates a then setProgramRestartChangeMonitor conf wd programPath else []

/-- A change at any path calls one callback at most. -/
def OneCallback (w : Sys × List MonitorFile) : Prop :=
  ∀ path, (w.2.map MonitorFile.path).count path ≤ 1

/-- A command is created only while no callback is registered, and the program is not the directory
that is monitored. -/
def CreatesOnce (w : Sys × List MonitorFile) (a : Act) : Prop :=
  w.1.creates a → w.2 = [] ∧
    ((setProgramRestartChangeMonitor conf wd programPath).map MonitorFile.path).Nodup

variable {conf wd programPath} {cfg : Config} {w : Sys × List MonitorFile}

theorem oneCallback_iff : OneCallback w ↔ (w.2.map MonitorFile.path).Nodup :=
  List.nodup_iff_count_le_one.symm

/-- All commands have registered the same callbacks. -/
theorem exists_replicate (hw : (watched conf wd programPath cfg).Reachable w) : ∃ k,
    w.2 = (List.replicate k (setProgramRestartChangeMonitor conf wd programPath)).flatten := by
  refine hw.traced_invariant (P := fun _ h ↦ ∃ k,
    h = (List.replicate k (setProgramRestartChangeMonitor conf wd programPath)).flatten)
    ⟨0, rfl⟩ ?_
  rintro s h a s' - ⟨k, rfl⟩ - -
  by_cases ha : s.creates a = true
  · refine ⟨k + 1, ?_⟩
    rw [if_pos ha, List.replicate_succ', List.flatten_append, List.flatten_singleton]
  · exact ⟨k, by rw [if_neg ha, List.append_nil]⟩

/-- **One callback.**  Along a run there is one callback for each path if and only if the process is
started only once. -/
theorem one_callback_iff {as : List Act} (h : (watched conf wd programPath cfg).exec
      (watched conf wd programPath cfg).init as = some w) :
    (watched conf wd programPath cfg).Along OneCallback as ↔
      (watched conf wd programPath cfg).Meets (CreatesOnce conf wd programPath) as := by
  refine Machine.along_iff_meets (fun _ ↦ Nat.zero_le 1) (fun w a w' hw hone hst ↦ ?_) h
  obtain ⟨s', -, rfl⟩ := Machine.traced_step_eq_some.mp hst
  rw [oneCallback_iff] at hone ⊢
  dsimp only [CreatesOnce]
  by_cases ha : w.1.creates a = true
  · rw [if_pos ha, List.map_append]
    refine ⟨fun hnodup _ ↦ ⟨?_, (List.nodup_append.mp hnodup).2.1⟩, fun hok ↦ ?_⟩
    · -- a callback that is registered already would be registered once more
      by_contra hne
      obtain ⟨k, hk⟩ := exists_replicate hw
      obtain ⟨m, hm⟩ := List.exists_mem_of_ne_nil w.2 hne
      have hmem : m ∈ setProgramRestartChangeMonitor conf wd programPath := by
        rw [hk] at hm
        obtain ⟨ms, hms, hm⟩ := List.mem_flatten.mp hm
        exact List.eq_of_mem_replicate hms ▸ hm
      exact (List.nodup_append.mp hnodup).2.2 _ (List.mem_map_of_mem hm) _
        (List.mem_map_of_mem hmem) rfl
    · obtain ⟨hnil, hnodup⟩ := hok ha
      rwa [hnil]
  · rw [if_neg ha, List.append_nil]
    exact iff_of_true hone fun h ↦ absurd h ha

/-- A program is started, and its only command is created. -/
theorem one_callback_start :
    let m := watched { restartWhenBinaryChanged := true } none (str "/bin/x") {}
    let as : List Act := [.call 0 (.start false), .caller 0 .ok] ++ .replicate 8 (.loop 0 .ok)
    ∃ w, m.exec m.init as = some w ∧ w.2 = [addProgramChangeMonitor (str "/bin/x")] ∧
      (m.Along OneCallback as ↔
        m.Meets (CreatesOnce { restartWhenBinaryChanged := true } none (str "/bin/x")) as) := by
  intro m as
  obtain ⟨w, hw, hp⟩ := (Option.any_eq_true
    (fun w : Sys × List MonitorFile ↦ w.2 = [addProgramChangeMonitor (str "/bin/x")])
    (m.exec m.init as)).mp (by decide +kernel)
  exact ⟨w, hw, of_decide_eq_true hp, one_callback_iff hw⟩

/-- The command cannot be started at first, and the second one registers its callback once more. -/
theorem one_callback_retry : ¬∀ conf wd programPath cfg w,
    (watched conf wd programPath cfg).Reachable w → OneCallback w := by
  intro h
  obtain ⟨w, hw, hp⟩ := Machine.exists_reachable
    (m := watched { restartWhenBinaryChanged := true } none (str "/bin/x") {})
    (fun w ↦ 1 < (w.2.map MonitorFile.path).count (str "/bin/x"))
    ([.call 0 (.start false), .caller 0 .ok] ++ .replicate 10 (.loop 0 .ok) ++
      .loop 0 .fail :: .replicate 9 (.loop 0 .ok)) (by decide +kernel)
  exact absurd (h _ _ _ _ w hw _) (Nat.not_le.mpr (of_decide_eq_true hp))

end Supervisord.Process
