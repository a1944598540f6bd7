import Supervisord.Process.Launch
import Supervisord.Supervisor.Programs

/-!
# What a reload starts

A reload starts the event listeners and the programs with `autostart` while the entries of the
programs that are gone are still there, and those of event listeners that are gone stay.  So it
calls `Start` on what the new configuration does not have (`starts_removed_program`), unless none
of it is an event listener or a program with `autostart` (`starts_loaded_iff`).
-/

namespace Supervisord

open Go

namespace Supervisor

variable {host : Host} {n : Nat} {s s' : Supervisor} {c : Config} {k dir : Str} {e : Entry}
  {ps : List (Str × Patch)} {env : Environment} {calls : List Call} {call : Call}
  {file : Option Ini} {proc : ProcId}

/-- The methods that are called on a process. -/
def callsOn (calls : List Call) (proc : ProcId) : List Process.Op :=
  (calls.filter (·.proc = proc)).map (·.op)

/-- `Start` is called on no process that is not loaded, and no child of a program that is removed
is spawned, however the goroutines of the reload and those of the process are interleaved. -/
structure StartsLoaded (s : Supervisor) (loaded : List Str) (calls : List Call) : Prop where
  start : ∀ call ∈ calls, (∃ wait, call.op = .start wait) → call.name ∈ loaded
  spawn : ∀ k proc, s.procMgr.procs.lookup k = some proc → Removed s loaded k →
    Process.NeverSpawns (callsOn calls proc)

/-- Of the entries that are not loaded again, none is of an event listener or of a program that is
started automatically. -/
def NothingToStart (host : Host) (n : Nat) (s : Supervisor) (file : Option Ini)
    (ps : List (Str × Patch)) : Prop :=
  ∀ k e, s.config.entries.get k = some e → ¬ Config.LoadsProcess ps k →
    ¬ Config.HasSection file k → e.isEventListener = false ∧ ¬ AutoStarts host n e

/-- The entries that are not loaded are still what they were. -/
theorem get_of_not_loaded (hloads : Config.Loads s.config (Config.loadWrites file ps) c)
    (hl : ¬ Config.LoadsProcess ps k) (hsec : ¬ Config.HasSection file k) :
    c.entries.get k = s.config.entries.get k := by
  rw [hloads.get]
  exact Write.writes_of_notMem fun h ↦ (Config.mem_loadWrites.mp h).elim hl hsec

/-- The entry of an event listener or of a program is loaded, or it is an old one. -/
theorem loaded_or_old (hps : s.config.processes host n file = some ps)
    (hloads : Config.Loads s.config (Config.loadWrites file ps) c)
    (he : c.entries.get k = some e) (hkind : e.isProgram = true ∨ e.isEventListener = true) :
    Config.LoadsProcess ps k ∨ ¬ Config.LoadsProcess ps k ∧ ¬ Config.HasSection file k ∧
      s.config.entries.get k = some e := by
  rw [hloads.get] at he
  rcases Config.name_of_writes hps he with ⟨w, hw, rfl, hname⟩ | hold
  · exact .inl (List.mem_map_of_mem (Config.loadsProcess_of_name hw hname hkind))
  · exact .inr hold

/-- Whatever `Start` is called on is loaded, if there is nothing else to start. -/
theorem Reloads.start_loaded (h : Reloads host n s c (ps.map (·.1)) s' calls)
    (hps : s.config.processes host n file = some ps)
    (hloads : Config.Loads s.config (Config.loadWrites file ps) c)
    (hq : NothingToStart host n s file ps) (hcall : call ∈ calls)
    (hop : ∃ wait, call.op = .start wait) : call.name ∈ ps.map (·.1) := by
  cases h.reason call hcall with
  | eventListener _ he hl =>
      rcases loaded_or_old hps hloads he (.inr hl) with hmem | ⟨hnot, hsec, hold⟩
      · exact hmem
      · have hfalse := (hq _ _ hold hnot hsec).1
        rw [hl] at hfalse
        cases hfalse
  | program _ he hauto =>
      rcases loaded_or_old hps hloads he (.inl hauto.1) with hmem | ⟨hnot, hsec, hold⟩
      · exact hmem
      · exact absurd hauto (hq _ _ hold hnot hsec).2
  | removed hstop =>
      obtain ⟨wait, hwait⟩ := hop
      rw [hstop] at hwait
      cases hwait

/-- On a program that is removed nothing but `Stop` is called. -/
theorem Reloads.stop_removed {loaded : List Str} (h : Reloads host n s c loaded s' calls)
    (hstart : ∀ call ∈ calls, (∃ wait, call.op = .start wait) → call.name ∈ loaded)
    (hk : s.procMgr.procs.lookup k = some proc) (hr : Removed s loaded k) :
    ∀ op ∈ callsOn calls proc, ∃ wait, op = .stop wait := by
  intro op hop
  obtain ⟨call, hmem, rfl⟩ := List.mem_map.mp hop
  obtain ⟨hcall, hproc⟩ := List.mem_filter.mp hmem
  rw [decide_eq_true_eq] at hproc
  subst hproc
  cases h.reason call hcall with
  | eventListener _ _ _ hproc => exact absurd hk (hproc k)
  | program hop _ _ hproc =>
      obtain rfl := hproc k hk
      exact absurd (hstart call hcall ⟨_, hop⟩) hr.2
  | removed hop => exact ⟨_, hop⟩

/-- **Starting.**  A reload starts only what it has loaded, and spawns nothing it removes, if and
only if it leaves nothing else to start. -/
theorem starts_loaded_iff {groups : List Str × List Str × List Str} {err : Option Str}
    (hs : (machine host dir).Reachable s)
    (h : s.reload host n env = some (.returned s' groups err calls)) :
    ∃ ps, s.config.processes host n env.file = some ps ∧
      (StartsLoaded s (ps.map (·.1)) calls ↔ NothingToStart host n s env.file ps) := by
  obtain ⟨-, ps, c, hps, hloads, hreloads⟩ := reload_spec (consistent_reach hs) h
  refine ⟨ps, hps, fun hstarts k e he hnot hsec ↦ ?_, fun hq ↦ ?_⟩
  · have hget := (get_of_not_loaded hloads hnot hsec).trans he
    constructor
    · rw [Bool.eq_false_iff]
      intro hl
      obtain ⟨proc, hcall⟩ := hreloads.eventListener k e hget hl
      exact hnot (hstarts.start _ hcall ⟨_, rfl⟩)
    · intro hauto
      obtain ⟨proc, hcall⟩ := hreloads.program k e hget hauto
      exact hnot (hstarts.start _ hcall ⟨_, rfl⟩)
  · have hstart : ∀ call ∈ calls, (∃ wait, call.op = .start wait) → call.name ∈ ps.map (·.1) :=
      fun call hcall hop ↦ hreloads.start_loaded hps hloads hq hcall hop
    exact ⟨hstart, fun k proc hk hr ↦
      Process.neverSpawns_of_stops (hreloads.stop_removed hstart hk hr)⟩

/-- The statement for the first reload. -/
theorem starts_loaded_first : ∃ s' groups err calls ps,
    (newSupervisor (str "/")).reload Host.bare 2 (fileOf "x") =
      some (.returned s' groups err calls) ∧
    (newSupervisor (str "/")).config.processes Host.bare 2 (fileOf "x").file = some ps ∧
    (StartsLoaded (newSupervisor (str "/")) (ps.map (·.1)) calls ↔
      NothingToStart Host.bare 2 (newSupervisor (str "/")) (fileOf "x").file ps) := by
  have hrun : ((machine Host.bare (str "/")).step (newSupervisor (str "/"))
      (2, fileOf "x")).isSome = true := by decide +kernel
  obtain ⟨s', hs'⟩ := Option.isSome_iff_exists.mp hrun
  obtain ⟨groups, err, calls, hreload⟩ := machine_step hs'
  have hinit : (machine Host.bare (str "/")).Reachable (newSupervisor (str "/")) := .init
  obtain ⟨ps, hps, hiff⟩ := starts_loaded_iff hinit hreload
  exact ⟨s', groups, err, calls, ps, hreload, hps, hiff⟩

/-- Whether a reload calls `Start` on a process with the name `k`. -/
def startsName (k : Str) : Option Reloaded → Bool
  | some (.returned _ _ _ calls) => calls.any fun call ↦ call.name = k && call.op = .start false
  | some .exit | none => false

/-- The program `x` is replaced by the program `y`; the reload starts `x` once more. -/
theorem starts_removed_program : ∃ s s' groups err calls ps,
    (machine Host.bare (str "/")).Reachable s ∧
    s.reload Host.bare 2 (fileOf "y") = some (.returned s' groups err calls) ∧
    s.config.processes Host.bare 2 (fileOf "y").file = some ps ∧
    ¬ StartsLoaded s (ps.map (·.1)) calls := by
  have hrun : ((machine Host.bare (str "/")).step (newSupervisor (str "/")) (2, fileOf "x")).any
      (fun s ↦ startsName (str "x") (s.reload Host.bare 2 (fileOf "y")) &&
        s.namesOf (fileOf "y") = some [(str "y", some (str "program:" ++ str "y"))]) = true := by
    decide +kernel
  obtain ⟨s, hs, hrun⟩ := (Option.any_eq_true _ _).mp hrun
  rw [Bool.and_eq_true, decide_eq_true_eq] at hrun
  obtain ⟨hstart, hnames⟩ := hrun
  obtain ⟨ps, hps, hnames⟩ := Option.map_eq_some_iff.mp hnames
  unfold startsName at hstart
  split at hstart
  · rename_i s' groups err calls hreload
    refine ⟨s, s', groups, err, calls, ps, .step .init trivial hs, hreload, hps, fun h ↦ ?_⟩
    obtain ⟨call, hcall, hop⟩ := List.any_eq_true.mp hstart
    rw [Bool.and_eq_true, decide_eq_true_eq, decide_eq_true_eq] at hop
    have hmem := h.start call hcall ⟨_, hop.2⟩
    rw [hop.1] at hmem
    have hfst : ps.map (·.1) = [str "y"] := by
      have hmap := congrArg (List.map Prod.fst) hnames
      rwa [List.map_map] at hmap
    rw [hfst] at hmem
    exact absurd hmem (by decide)
  · cases hstart
  · cases hstart

end Supervisor

end Supervisord
