import Supervisord.Supervisor.Programs

/-!
# A configuration file that cannot be read

`Load` does not see that the file could not be opened: it parses a document without sections and
returns no error.  So `Reload` never fails and leaves everything as it was (`reload_not_atomic`),
but removes and stops all programs instead (`reload_unreadable`).
-/

namespace Supervisord

open Go

namespace Supervisor

variable {host : Host} {n : Nat} {s s' : Supervisor} {env : Environment} {rt : Runtime}
  {check : Config → Bool} {groups : List Str × List Str × List Str} {err : Option Str}
  {calls : List Call} {k : Str} {proc : ProcId}

/-- A reload that fails: it returns an error, the entries, the groups and the processes are as
they were, and nothing has been started or stopped. -/
def Fails (host : Host) (n : Nat) (s : Supervisor) (env : Environment) : Prop :=
  ∃ s' groups err calls, s.reload host n env = some (.returned s' groups (some err) calls) ∧
    s'.config.entries.get = s.config.entries.get ∧
    s'.config.programGroup = s.config.programGroup ∧
    s'.procMgr = s.procMgr ∧ calls = []

/-- `Reload` returns no error, as `Load` does not. -/
theorem err_eq_none (h : s.reload host n env = some (.returned s' groups err calls)) :
    err = none := by
  obtain ⟨prev, -, h⟩ := Option.bind_eq_some_iff.mp h
  obtain ⟨⟨c, r⟩, hload, h⟩ := Option.bind_eq_some_iff.mp h
  obtain ⟨ps, -, -, rfl⟩ := Config.load_eq_some hload
  simp only at h
  split at h
  · obtain ⟨s₁, -, h⟩ := Option.bind_eq_some_iff.mp h
    obtain ⟨starts, -, h⟩ := Option.map_eq_some_iff.mp h
    cases h
    rfl
  · cases h

/-- **Unreadable files.**  In no state does a reload fail when the file cannot be read. -/
theorem reload_not_atomic (host : Host) (n : Nat) (s : Supervisor) (rt : Runtime)
    (check : Config → Bool) : ¬ Fails host n s ⟨rt, none, check⟩ := by
  rintro ⟨s', groups, err, calls, h, -⟩
  cases err_eq_none h

/-- What happens instead: all processes of programs are removed and stopped. -/
theorem reload_unreadable (hs : Consistent s)
    (h : s.reload host n ⟨rt, none, check⟩ = some (.returned s' groups err calls)) :
    (∀ k, k ∉ s'.procMgr.procs) ∧ ∀ k proc, s.procMgr.procs.lookup k = some proc →
      ⟨proc, k, .stop false⟩ ∈ calls := by
  obtain ⟨-, ps, c, hps, hloads, hreloads⟩ := reload_spec hs h
  obtain rfl : ps = [] := (Option.some.inj hps).symm
  have hget : c.entries.get = s.config.entries.get := hloads.get
  have hremoved : ∀ k, HasProgram s.config k → Removed s [] k := fun k hk ↦
    ⟨hk, List.not_mem_nil⟩
  constructor
  · intro k hk
    obtain ⟨e, he, hprog⟩ := (hreloads.consistent.programs k).mp hk
    by_cases hr : Removed s [] k
    · rw [hreloads.gone k hr] at he
      cases he
    · rw [hreloads.kept k hr, hget] at he
      exact hr (hremoved k ⟨e, he, hprog⟩)
  · intro k proc hk
    have hprog : HasProgram s.config k :=
      (hs.programs k).mp (AList.lookup_isSome.mp (by rw [hk]; rfl))
    refine hreloads.stopped k proc hk (hremoved k hprog) ?_
    rwa [HasProgram, hget]

/-- The program `x` is loaded; then the file cannot be read. -/
theorem reload_unreadable_stops : ∃ s groups err calls,
    (newSupervisor (str "/")).reload Host.bare 2 (fileOf "x") =
      some (.returned s groups err calls) ∧
    ¬ Fails Host.bare 2 s ⟨.inOrder, none, fun _ ↦ true⟩ ∧
    ∃ s' groups' calls', s.reload Host.bare 2 ⟨.inOrder, none, fun _ ↦ true⟩ =
        some (.returned s' groups' none calls') ∧
      str "x" ∈ s.procMgr.procs ∧ str "x" ∉ s'.procMgr.procs ∧ calls' ≠ [] := by
  have hrun : ((machine Host.bare (str "/")).step (newSupervisor (str "/")) (2, fileOf "x")).any
      (fun s ↦ str "x" ∈ s.procMgr.procs && ((machine Host.bare (str "/")).step s
        (2, ⟨.inOrder, none, fun _ ↦ true⟩)).isSome) = true := by
    decide +kernel
  obtain ⟨s, hs, hrun⟩ := (Option.any_eq_true _ _).mp hrun
  rw [Bool.and_eq_true, decide_eq_true_eq] at hrun
  obtain ⟨hx, hsome⟩ := hrun
  obtain ⟨s', hs'⟩ := Option.isSome_iff_exists.mp hsome
  obtain ⟨groups, err, calls, hreload⟩ := machine_step hs
  obtain ⟨groups', err', calls', hreload'⟩ := machine_step hs'
  have hreach : (machine Host.bare (str "/")).Reachable s := .step .init trivial hs
  have hconsistent : Consistent s := consistent_reach hreach
  obtain ⟨hgone, hstopped⟩ := reload_unreadable hconsistent hreload'
  obtain rfl := err_eq_none hreload'
  obtain ⟨proc, hproc⟩ := Option.isSome_iff_exists.mp (AList.lookup_isSome.mpr hx)
  refine ⟨s, groups, err, calls, hreload, ?_, s', groups', calls', hreload', hx, hgone _, ?_⟩
  · rintro ⟨s₁, groups₁, err₁, calls₁, h, -⟩
    cases err_eq_none h
  · exact List.ne_nil_of_mem (hstopped _ proc hproc)

end Supervisor

end Supervisord
