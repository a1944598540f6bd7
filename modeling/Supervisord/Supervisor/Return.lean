import Supervisord.Machine.Fuel
import Supervisord.Supervisor.Reload

/-!
# A reload returns

`Reload` goes through the expressions of the settings and sorts the programs again and again.  It
returns if `Load` does, the settings of the programs can be evaluated, and no program depends on
itself, neither before nor after the configuration is loaded (`exists_returns_reload`).
-/

namespace Supervisord

open Go ProcessSorter Fuel

variable {host : Host} {rt : Runtime} {n m : Nat} {c c' : Config} {file : Option Ini} {k : Str}
  {e : Entry} {rel : Str → Str → Prop} {p : Ptr}

/-! ## Loading -/

namespace Config

variable {s s' : Parsing} {r : Config × Except Str (List Str)}

theorem parseProcess_mono {kind programName procName cmd : Str} {i : Nat}
    (h : parseProcess host n kind programName procName cmd s i = some s') (hnm : n ≤ m) :
    parseProcess host m kind programName procName cmd s i = some s' := by
  obtain ⟨r, hr, h⟩ := Option.bind_eq_some_iff.mp h
  refine Option.bind_eq_some_iff.mpr ⟨r, StringExpression.eval_mono hr hnm, ?_⟩
  cases r with
  | error e => exact h
  | ok cmd =>
      obtain ⟨r', hr', h⟩ := Option.bind_eq_some_iff.mp h
      exact Option.bind_eq_some_iff.mpr ⟨r', StringExpression.eval_mono hr' hnm, h⟩

theorem parseProgramSection_mono {s s' : Config × List Str} {sec : Section}
    (h : parseProgramSection host n s sec = some s') (hnm : n ≤ m) :
    parseProgramSection host m s sec = some s' := by
  unfold parseProgramSection at h ⊢
  split
  · rename_i hkind
    rwa [hkind] at h
  · rename_i kind hkind
    rw [hkind] at h
    obtain ⟨t, ht, rfl⟩ := Option.map_eq_some_iff.mp h
    exact Option.map_eq_some_iff.mpr
      ⟨t, foldlM_mono (fun s i s' h ↦ parseProcess_mono h hnm) ht, rfl⟩

/-- More rounds do not change what `Load` does. -/
theorem load_mono (h : c.load host n file = some r) (hnm : n ≤ m) :
    c.load host m file = some r := by
  obtain ⟨s, hs, rfl⟩ := Option.map_eq_some_iff.mp h
  obtain ⟨t, ht, rfl⟩ := Option.map_eq_some_iff.mp hs
  refine Option.map_eq_some_iff.mpr ⟨_, Option.map_eq_some_iff.mpr ⟨t, ?_, rfl⟩, rfl⟩
  exact foldlM_mono (fun s sec s' h ↦ parseProgramSection_mono h hnm) ht

theorem getProgramNames_mono {names : List Str} (h : c.getProgramNames rt host n = some names)
    (hnm : n ≤ m) : c.getProgramNames rt host m = some names := by
  obtain ⟨ps, qs, hps, hqs, rfl⟩ := getProgramNames_eq_some.mp h
  exact getProgramNames_eq_some.mpr
    ⟨ps, qs, getPrograms_mono hps hnm, sortProgram_mono hqs hnm, rfl⟩

/-! ## Settings -/

/-- The settings of the program `k` that are evaluated in a reload can be, and what it depends on
it is related to. -/
structure Settled (host : Host) (rel : Str → Str → Prop) (k : Str) (e : Entry) : Prop where
  depends : ∃ n v, e.getString host n (str "depends_on") [] = some v ∧
    ∀ b ∈ dependsOnPrograms v, rel k b
  autostart : ∃ n v, e.getString host n (str "autostart") (str "true") = some v

/-- All programs of a configuration are settled. -/
def AllSettled (host : Host) (rel : Str → Str → Prop) (c : Config) : Prop :=
  ∀ k e, c.entries.get k = some e → e.isProgram = true → Settled host rel k e

variable (hwell : WellNamed c.entries.get) (hrel : Sweep.Acyclic rel)
  (hset : AllSettled host rel c)
include hwell hrel hset

/-- Programs that are settled can be sorted. -/
theorem sortable_of_settled {cs : List Ptr} (hcs : cs ⊆ c.pointers) :
    DependsEvaluate host c.entry cs ∧ Sweep.Acyclic (DependsOn host c.entry cs) := by
  constructor
  · intro p hp hprog
    obtain ⟨k, hk⟩ := mem_pointers.mp (hcs hp)
    obtain ⟨n, v, hv, -⟩ := (hset k _ (RefTable.get_of_lookup hk) hprog).depends
    exact ⟨n, v, hv⟩
  · refine hrel.mono fun a b ↦ ?_
    rintro ⟨p, hp, hprog, rfl, n, v, hv, hb⟩
    obtain ⟨k, hk⟩ := mem_pointers.mp (hcs hp)
    have hget := RefTable.get_of_lookup hk
    have hname := Entry.getProgramName_of_name ((hwell k _ hget).name_of_isProgram hprog)
    obtain ⟨m, w, hw, hrel⟩ := (hset k _ hget hprog).depends
    have hvw : v = w := Option.some.inj
      ((Entry.getString_mono hv (Nat.le_max_left n m)).symm.trans
        (Entry.getString_mono hw (Nat.le_max_right n m)))
    exact hname.symm ▸ hrel b (hvw ▸ hb)

theorem returns_getPrograms (rt : Runtime) :
    ∃ ps, Returns (fun n ↦ c.getPrograms rt host n) ps := by
  obtain ⟨n, ps, hps⟩ := (exists_getPrograms rt).mpr
    (sortable_of_settled hwell hrel hset (List.Subset.refl _))
  exact ⟨ps, .of_mono (fun m hm h ↦ getPrograms_mono h hm) hps⟩

theorem returns_getProgramNames (rt : Runtime) :
    ∃ names, Returns (fun n ↦ c.getProgramNames rt host n) names := by
  obtain ⟨n, names, hnames⟩ := (exists_getProgramNames rt).mpr
    (sortable_of_settled hwell hrel hset (List.Subset.refl _))
  exact ⟨names, .of_mono (fun m hm h ↦ getProgramNames_mono h hm) hnames⟩

/-- `StartAutoStartPrograms` returns. -/
theorem returns_startAutoStartPrograms {pm : Manager} (ht : pm.Tracks c)
    (hprog : pm.AllPrograms c) (rt : Runtime) :
    ∃ calls, Returns (fun n ↦ pm.startAutoStartPrograms rt host n c) calls := by
  have hsub : pm.configs ⊆ c.pointers := by
    intro p hp
    obtain ⟨⟨k, q⟩, he, rfl⟩ := List.mem_map.mp hp
    exact mem_pointers.mpr ⟨k, ht.config k q (AList.mem_lookup_iff.mpr he)⟩
  obtain ⟨heval, hacyclic⟩ := sortable_of_settled hwell hrel hset hsub
  obtain ⟨procs, hprocs⟩ := Manager.returns_getAllProcess heval hacyclic rt
  have hround : ∀ proc ∈ procs, ∀ calls : List Call, ∃ calls',
      Returns (fun n ↦ (pm.isAutoStart host n c proc).map fun autoStart ↦
        if autoStart then calls ++ [⟨proc, pm.getName c proc, .start false⟩] else calls)
      calls' := by
    intro proc hproc calls
    -- only processes of programs are listed
    obtain ⟨n, hn⟩ := hprocs
    obtain ⟨k, hk⟩ := (Manager.mem_getAllProcess hprog (hn n (Nat.le_refl n))).mp hproc
    have hget := RefTable.get_of_lookup (ht.config k proc hk)
    obtain ⟨m, v, hv⟩ :=
      (hset k _ hget (Entry.isProgram_of_name (hprog k proc hk))).autostart
    have hstring := Returns.of_mono (f := fun n ↦ (c.entry (pm.config proc)).getString host n
      (str "autostart") (str "true")) (fun m' hm h ↦ Entry.getString_mono h hm) hv
    obtain ⟨autoStart, hauto⟩ := hstring.map fun v ↦ decide (v = str "true")
    exact hauto.map _
  exact hprocs.bind (exists_returns_foldlM hround [])

end Config

/-! ## Reloading -/

namespace Supervisor

variable {s : Supervisor} {env : Environment} {r : Config × Except Str (List Str)}

theorem returns_createPrograms (hwell : WellNamed s.config.entries.get)
    (hrel : Sweep.Acyclic rel) (hset : s.config.AllSettled host rel) (prev : List Str)
    (rt : Runtime) : ∃ s', Returns (fun n ↦ s.createPrograms rt host n prev) s' := by
  obtain ⟨programs, hprograms⟩ := Config.returns_getProgramNames hwell hrel hset (rt.fork 0)
  obtain ⟨entries, hentries⟩ := Config.returns_getPrograms hwell hrel hset (rt.fork 1)
  exact hprograms.bind (hentries.map _)

/-- What follows the loading of the configuration returns. -/
theorem returns_reloadPrograms {prev : List Str} (hs : Consistent s)
    (hwell : WellNamed c.entries.get)
    (hextend : s.config.entries.Extends c.entries) (hprev : ∀ k, k ∈ prev ↔ HasProgram s.config k)
    (hrel : Sweep.Acyclic rel) (hset : c.AllSettled host rel) (rt : Runtime)
    (group : ProcessGroup) (loaded : List Str) :
    ∃ result, Returns
      (fun n ↦ reloadPrograms rt host n prev group loaded { s with config := c }) result := by
  have hlisten : Listens c (c.getEventListeners (rt.fork 0)) ({ s with config := c }, [])
      (startEventListeners (rt.fork 0) { s with config := c }) :=
    listens_foldl rfl (hs.tracks.extends hextend) fun p hp ↦
      exists_of_mem_getEventListeners hwell hp
  unfold reloadPrograms
  generalize startEventListeners (rt.fork 0) { s with config := c } = r₁ at hlisten
  obtain ⟨⟨config, pm₁⟩, calls₁⟩ := r₁
  obtain rfl : config = c := hlisten.config
  obtain ⟨s₂, hs₂⟩ := returns_createPrograms (s := ⟨config, pm₁⟩) hwell hrel hset prev (rt.fork 1)
  obtain ⟨n, hn⟩ := hs₂
  have hprocs : pm₁.procs = s.procMgr.procs := hlisten.procs
  have hcreates := createPrograms_spec hwell hlisten.tracks
    (fun k ↦ by rw [hprev, HasProgram, ← hs.programs, hprocs]) (hn n (Nat.le_refl n))
  obtain ⟨config', pm₂⟩ := s₂
  obtain rfl : config' = config := hcreates.config
  obtain ⟨starts, hstarts⟩ := Config.returns_startAutoStartPrograms hwell hrel hset
    hcreates.tracks (hcreates.allPrograms hwell) (rt.fork 2)
  exact Returns.bind ⟨n, hn⟩ (hstarts.map _)

/-- **Termination.**  A reload that can load the configuration returns, or it exits because of the
resources. -/
theorem returns_reload {loaded : List Str} (hs : Consistent s) (hrel : Sweep.Acyclic rel)
    (hset : s.config.AllSettled host rel)
    (hload : s.config.load host n env.file = some (c, .ok loaded)) (hset' : c.AllSettled host rel) :
    ∃ result, Returns (fun n ↦ s.reload host n env) result := by
  obtain ⟨prev, hprev⟩ :=
    Config.returns_getProgramNames hs.named hrel hset (env.rt.fork 0)
  have hprevmem : ∀ k, k ∈ prev ↔ HasProgram s.config k := by
    obtain ⟨m, hm⟩ := hprev
    exact fun k ↦ Config.mem_getProgramNames hs.named (hm m (Nat.le_refl m))
  obtain ⟨ps, hps, hloads, -⟩ := Config.load_eq_some hload
  have hwell : WellNamed c.entries.get := by
    rw [hloads.get]
    exact Config.wellNamed_writes hps hs.named
  have hret : Returns (fun n ↦ s.config.load host n env.file) (c, .ok loaded) :=
    .of_mono (fun m hm h ↦ Config.load_mono h hm) hload
  refine hprev.bind (hret.bind ?_)
  cases hcheck : env.checkRequiredResources c with
  | true =>
      simp only [hcheck, if_true]
      exact returns_reloadPrograms hs hwell hloads.extend hprevmem hrel hset' (env.rt.fork 1)
        (s.config.programGroup.clone (env.rt.fork 2)) loaded
  | false =>
      simp only [hcheck, Bool.false_eq_true, if_false]
      exact ⟨_, .pure _⟩

end Supervisor

end Supervisord
