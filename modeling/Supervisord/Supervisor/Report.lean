import Supervisord.Config.Members
import Supervisord.Supervisor.Programs

/-!
# What a reload reports

The groups that `Reload` returns are those whose keys in the mapping of the groups differ.  The keys
are sections and listed programs, and not processes, and keys that are named like a removed process
are taken out before the mappings are compared.  This comes to the same where processes are named
like their sections, and groups list no others (`reports_of_plain`).
-/

namespace Supervisord

open Go

/-! ## Members and groups -/

variable (t t' : Str → Str → Prop) (group : Str)

/-- A group that had no members has some. -/
def Appears : Prop := (∃ k, t' k group) ∧ ¬∃ k, t k group

/-- A group has members before and after, and they are not the same. -/
def Alters : Prop :=
  (∃ k, t k group) ∧ (∃ k, t' k group) ∧ ¬∀ k, t k group ↔ t' k group

/-- The groups are those that are added, changed and removed. -/
structure Reports (groups : List Str × List Str × List Str) : Prop where
  added : ∀ group, group ∈ groups.1 ↔ Appears t t' group
  changed : ∀ group, group ∈ groups.2.1 ↔ Alters t t' group
  removed : ∀ group, group ∈ groups.2.2 ↔ Appears t' t group

variable {t t'} {rt : Runtime} {pg other : ProcessGroup}

theorem reports_sub (rt : Runtime) (pg other : ProcessGroup) :
    Reports (fun k group ↦ other.groupOf k = some group) (fun k group ↦ pg.groupOf k = some group)
      (pg.sub rt other) where
  added _ := ProcessGroup.mem_added
  changed group := by
    rw [ProcessGroup.mem_changed, and_left_comm]
    exact and_congr_right fun _ ↦ and_congr_right fun _ ↦
      not_congr (forall_congr' fun _ ↦ iff_comm)
  removed _ := ProcessGroup.mem_removed

namespace Config

variable {c : Config} {l : List Str} {k dir : Str} {t : Table} {file : Option Ini}
  {ps : List (Str × Patch)}

theorem groupOf_foldl_removeProgram (c : Config) (l : List Str) :
    (l.foldl removeProgram c).programGroup.groupOf k =
      if k ∈ l then none else c.programGroup.groupOf k := by
  induction l generalizing c with
  | nil => rw [List.foldl_nil, if_neg List.not_mem_nil]
  | cons x l ih =>
      rw [List.foldl_cons, ih, removeProgram, ProcessGroup.groupOf_remove]
      by_cases hx : k = x
      · rw [if_pos hx, ite_self, if_pos (hx ▸ List.mem_cons_self)]
      · rw [if_neg hx]
        refine if_congr ?_ rfl rfl
        rw [List.mem_cons, or_iff_right hx]

/-- The group that a document gives the process `k`. -/
def lastGroup (ps : List (Str × Patch)) (k : Str) : Option Str :=
  (Write.changes ps k).getLast?.bind Patch.group

theorem exists_of_mem_changes {ws : List (Str × Patch)} {v : Patch}
    (h : v ∈ Write.changes ws k) : ∃ w ∈ ws, w.1 = k ∧ w.2 = v := by
  obtain ⟨w, hw, rfl⟩ := List.mem_map.mp h
  obtain ⟨hw, hk⟩ := List.mem_filter.mp hw
  exact ⟨w, hw, of_decide_eq_true hk, rfl⟩

theorem group_foldl_of_none {ws : List Patch} (h : ∀ w ∈ ws, w.group = none) (e : Entry) :
    (ws.foldl (fun e w ↦ w.apply e) e).group = e.group := by
  induction ws generalizing e with
  | nil => rfl
  | cons w ws ih =>
      obtain ⟨hw, hws⟩ := List.forall_mem_cons.mp h
      rw [List.foldl_cons, ih hws, Patch.apply, hw]
      rfl

theorem group_of_mem_processes {host : Host} {n : Nat} {w : Str × Patch}
    (hps : c.processes host n file = some ps) (hw : w ∈ ps) : ∃ group, w.2.group = some group := by
  obtain ⟨sec, -, kind, -, i, vs, hvs, hw⟩ := exists_of_mem_programWrites hps hw
  obtain ⟨cmd, -, hpatch⟩ := mem_processWrites hvs hw
  rw [hpatch]
  exact ⟨_, rfl⟩

/-- An entry that is loaded is in the group of its last process. -/
theorem group_writes {host : Host} {n : Nat} {e : Entry}
    (hps : c.processes host n file = some ps) (hk : k ∈ ps.map (·.1))
    (he : Table.writes dir t (loadWrites file ps) k = some e) :
    lastGroup ps k = some e.group := by
  have hne : Write.changes ps k ≠ [] := mt Write.changes_eq_nil.mp (not_not.mpr hk)
  obtain ⟨vs, v, hvs⟩ : ∃ vs v, Write.changes ps k = vs ++ [v] :=
    ⟨_, _, (List.dropLast_append_getLast hne).symm⟩
  have hsplit : Write.changes (loadWrites file ps) k =
      Write.changes (groupWrites (setProgramDefaultParams (.loadFile file))) k ++ (vs ++ [v]) ++
        Write.changes (otherWrites (setProgramDefaultParams (.loadFile file))) k := by
    rw [← hvs, Write.changes, loadWrites, List.filter_append, List.filter_append, List.map_append,
      List.map_append]
    rfl
  have hother : ∀ w ∈ Write.changes (otherWrites (setProgramDefaultParams (.loadFile file))) k,
      w.group = none := by
    intro v hv
    obtain ⟨w, hw, -, rfl⟩ := exists_of_mem_changes hv
    obtain ⟨sec, -, rfl⟩ := List.mem_map.mp hw
    rfl
  obtain ⟨w, hw, -, rfl⟩ :=
    exists_of_mem_changes (hvs ▸ List.mem_append_right vs List.mem_cons_self)
  obtain ⟨group, hgroup⟩ := group_of_mem_processes hps hw
  rw [Table.writes, Write.writes_apply, if_neg (by rw [hsplit]; simp), hsplit,
    Option.some_inj] at he
  rw [lastGroup, hvs, List.getLast?_concat, Option.bind_some, hgroup, ← he, List.foldl_append,
    group_foldl_of_none hother, ← List.append_assoc, List.foldl_append, List.foldl_cons,
    List.foldl_nil, Patch.apply, hgroup]
  rfl

/-- The processes are named like their sections, and what the groups list are sections with
processes. -/
structure Plain (host : Host) (n : Nat) (c : Config) (file : Option Ini)
    (ps : List (Str × Patch)) : Prop where
  own : ∀ sec ∈ setProgramDefaultParams (.loadFile file), ∀ kind,
    isProgramOrEventListener sec = some kind → ∀ i vs,
      processWrites host n c.configFileDir (c.grouped file).groupOf kind sec i = some vs →
        ∀ w ∈ vs, w.1 = sec.name.drop kind.length
  loads : ∀ k, k ∈ ps.map (·.1) ↔
    k ∈ (setProgramDefaultParams (.loadFile file)).filterMap (askedGroup host)
  listed : ∀ k, (c.grouped file).programGroup.groupOf k ≠ none → k ∈ ps.map (·.1)

/-- A section without a `process_name` names its processes like itself, unless its own name is an
expression. -/
theorem processWrites_own {host : Host} {n : Nat} {groupOf : Str → Str} {kind : Str} {sec : Section}
    {i : Nat} {vs : List (Str × Patch)} {w : Str × Patch}
    (hname : sec.getValue (str "process_name") = none) (hplain : 37 ∉ sec.name.drop kind.length)
    (h : processWrites host n dir groupOf kind sec i = some vs) (hw : w ∈ vs) :
    w.1 = sec.name.drop kind.length := by
  obtain ⟨r, -, h⟩ := Option.bind_eq_some_iff.mp h
  cases r with
  | error e =>
      cases h
      cases hw
  | ok cmd =>
      obtain ⟨r', hr', rfl⟩ := Option.map_eq_some_iff.mp h
      rw [hname, Option.getD_none] at hr'
      rw [StringExpression.eval_of_noReference (StringExpression.noReference_of_notMem hplain) hr',
        List.mem_singleton] at hw
      rw [hw]

/-- The names of the processes are those of the sections, and the groups list no others. -/
def lists (host : Host) (c : Config) (file : Option Ini) (ps : List (Str × Patch)) : Bool :=
  ps.map (·.1) = (setProgramDefaultParams (.loadFile file)).filterMap (askedGroup host) ∧
    ∀ k ∈ (c.grouped file).programGroup.processGroup.keys, k ∈ ps.map (·.1)

theorem Plain.of_lists {host : Host} {n : Nat}
    (hown : ∀ sec ∈ setProgramDefaultParams (.loadFile file),
      ∀ kind ∈ isProgramOrEventListener sec,
        sec.getValue (str "process_name") = none ∧ 37 ∉ sec.name.drop kind.length)
    (h : lists host c file ps = true) : Plain host n c file ps where
  own sec hsec kind hkind _ _ hvs _ hw :=
    processWrites_own (hown sec hsec kind hkind).1 (hown sec hsec kind hkind).2 hvs hw
  loads k := by rw [(of_decide_eq_true h).1]
  listed k hk := (of_decide_eq_true h).2 k
    (AList.lookup_isSome.mp (Option.isSome_iff_ne_none.mpr hk))

/-- The keys then stand for the groups of the processes. -/
theorem Plain.keyGroup {host : Host} {n : Nat} (h : Plain host n c file ps)
    (hps : c.processes host n file = some ps) (k : Str) :
    c.keyGroup host file k = lastGroup ps k := by
  by_cases hk : k ∈ ps.map (·.1)
  · obtain ⟨vs, v, hvs⟩ : ∃ vs v, Write.changes ps k = vs ++ [v] :=
      ⟨_, _, (List.dropLast_append_getLast (mt Write.changes_eq_nil.mp (not_not.mpr hk))).symm⟩
    obtain ⟨w, hw, rfl, rfl⟩ :=
      exists_of_mem_changes (hvs ▸ List.mem_append_right vs List.mem_cons_self)
    obtain ⟨sec, hsec, kind, hkind, i, us, hus, hmem⟩ := exists_of_mem_programWrites hps hw
    obtain ⟨cmd, -, hpatch⟩ := mem_processWrites hus hmem
    rw [lastGroup, hvs, List.getLast?_concat, Option.bind_some, hpatch, Config.keyGroup,
      if_pos ((h.loads _).mp hk), ← h.own sec hsec kind hkind i us hus w hmem]
    exact Option.or_some
  · rw [lastGroup, Write.changes_eq_nil.mpr hk, Config.keyGroup, if_neg (mt (h.loads k).mpr hk),
      not_not.mp (mt (h.listed k) hk)]
    rfl

end Config

namespace Supervisor

variable {host : Host} {n : Nat} {s s' : Supervisor} {env : Environment} {calls : List Call}
  {groups : List Str × List Str × List Str} {err : Option Str}

/-- The process `k` is loaded, in the group. -/
def InTable (s : Supervisor) (loaded : List Str) (k group : Str) : Prop :=
  k ∈ loaded ∧ ∃ e, s.config.entries.get k = some e ∧ e.group = group

/-- The key `k` stands for the group after a reload of the file, which loads `loaded`. -/
def KeyAfter (host : Host) (s : Supervisor) (file : Option Ini) (loaded : List Str)
    (k group : Str) : Prop :=
  ¬Removed s loaded k ∧ s.config.keyGroup host file k = some group

theorem config_startEventListener (r : Supervisor × List Call) (p : Ptr) :
    (startEventListener r p).1.config = r.1.config := by
  unfold startEventListener
  split <;> rfl

theorem config_startEventListeners (rt : Runtime) (s : Supervisor) :
    (s.startEventListeners rt).1.config = s.config := by
  have hfold (ps : List Ptr) (r : Supervisor × List Call) :
      (ps.foldl startEventListener r).1.config = r.1.config := by
    induction ps generalizing r with
    | nil => rfl
    | cons p ps ih => rw [List.foldl_cons, ih, config_startEventListener]
  exact hfold _ _

/-- What `Reload` loads, takes out and compares. -/
theorem reload_eq (h : s.reload host n env = some (.returned s' groups err calls)) :
    ∃ prev c loaded rt, s.config.getProgramNames (env.rt.fork 0) host n = some prev ∧
      s.config.load host n env.file = some (c, .ok loaded) ∧
      s'.config = (Util.sub prev loaded).foldl Config.removeProgram c ∧
      groups = s'.config.programGroup.sub rt (s.config.programGroup.clone (env.rt.fork 2)) := by
  obtain ⟨prev, hprev, h⟩ := Option.bind_eq_some_iff.mp h
  obtain ⟨⟨c, r⟩, hload, h⟩ := Option.bind_eq_some_iff.mp h
  obtain ⟨ps, -, -, rfl⟩ := Config.load_eq_some hload
  dsimp only at h
  by_cases hres : env.checkRequiredResources c = true
  · rw [if_pos hres, reloadPrograms] at h
    obtain ⟨s₂, hcreate, h⟩ := Option.bind_eq_some_iff.mp h
    obtain ⟨starts, -, heq⟩ := Option.map_eq_some_iff.mp h
    have hconfig : s₂.config = c := by
      obtain ⟨programs, -, hcreate⟩ := Option.bind_eq_some_iff.mp hcreate
      obtain ⟨entries, -, rfl⟩ := Option.map_eq_some_iff.mp hcreate
      exact config_startEventListeners _ _
    cases heq
    refine ⟨prev, c, _, _, hprev, hload, ?_, rfl⟩
    rw [(foldl_removeProgram _ _).1, hconfig]
  · rw [if_neg hres] at h
    cases h

/-- What becomes of the mapping of the groups, and which processes are loaded. -/
theorem reload_groups (hs : Consistent s)
    (h : s.reload host n env = some (.returned s' groups err calls)) :
    ∃ ps rt, s.config.processes host n env.file = some ps ∧
      groups = s'.config.programGroup.sub rt (s.config.programGroup.clone (env.rt.fork 2)) ∧
      (∀ k group, s'.config.programGroup.groupOf k = some group ↔
        KeyAfter host s env.file (ps.map (·.1)) k group) ∧
      ∀ k group, InTable s' (ps.map (·.1)) k group ↔ Config.lastGroup ps k = some group := by
  obtain ⟨-, ps, c, hps, hloads, hreloads⟩ := reload_spec hs h
  obtain ⟨prev, c', loaded, rt, hprev, hload, hconfig, hgroups⟩ := reload_eq h
  obtain ⟨ps', hps', -, hloaded⟩ := Config.load_eq_some hload
  obtain rfl : ps = ps' := Option.some.inj (hps.symm.trans hps')
  obtain rfl : loaded = ps.map (·.1) := Except.ok.inj hloaded
  refine ⟨ps, rt, hps, hgroups, fun k group ↦ ?_, fun k group ↦ ?_⟩
  · have hremoved : k ∈ Util.sub prev (ps.map (·.1)) ↔ Removed s (ps.map (·.1)) k := by
      rw [Util.mem_sub, Config.mem_getProgramNames hs.named hprev]
      rfl
    rw [hconfig, Config.groupOf_foldl_removeProgram, KeyAfter, ← hremoved,
      Config.groupOf_load hload]
    split
    · rename_i hk
      exact iff_of_false (Option.some_ne_none group).symm fun h ↦ h.1 hk
    · rename_i hk
      exact (and_iff_right hk).symm
  · -- the entries of the processes that are loaded are kept
    have hkept (hk : k ∈ ps.map (·.1)) : s'.config.entries.get k =
        Table.writes s.config.configFileDir s.config.entries.get
          (Config.loadWrites env.file ps) k := by
      rw [hreloads.kept k fun hr ↦ hr.2 hk, hloads.get]
    constructor
    · rintro ⟨hk, e, he, rfl⟩
      rw [hkept hk] at he
      exact Config.group_writes hps hk he
    · intro hgroup
      have hk : k ∈ ps.map (·.1) := by
        by_contra hk
        rw [Config.lastGroup, Write.changes_eq_nil.mpr hk] at hgroup
        cases hgroup
      obtain ⟨e, he⟩ := Option.isSome_iff_exists.mp (Write.isSome_writes.mpr
        (.inr (Config.mem_loadWrites.mpr (.inl hk))))
      refine ⟨hk, e, (hkept hk).trans he, ?_⟩
      rw [Config.group_writes hps hk he] at hgroup
      exact Option.some.inj hgroup

/-- Two reloads compare the keys that stand for the groups; the processes in the table are those
that are loaded. -/
theorem reports_keys {dir : Str} {s₀ s₁ s₂ : Supervisor} {n₁ n₂ : Nat} {env₁ env₂ : Environment}
    {calls₁ calls₂ : List Call} {groups₁ groups₂ : List Str × List Str × List Str}
    {err₁ err₂ : Option Str} (hs : (machine host dir).Reachable s₀)
    (h₁ : s₀.reload host n₁ env₁ = some (.returned s₁ groups₁ err₁ calls₁))
    (h₂ : s₁.reload host n₂ env₂ = some (.returned s₂ groups₂ err₂ calls₂)) :
    ∃ ps₁ ps₂, s₀.config.processes host n₁ env₁.file = some ps₁ ∧
      s₁.config.processes host n₂ env₂.file = some ps₂ ∧
      Reports (KeyAfter host s₀ env₁.file (ps₁.map (·.1)))
        (KeyAfter host s₁ env₂.file (ps₂.map (·.1))) groups₂ ∧
      InTable s₁ (ps₁.map (·.1)) = (fun k group ↦ Config.lastGroup ps₁ k = some group) ∧
      InTable s₂ (ps₂.map (·.1)) = fun k group ↦ Config.lastGroup ps₂ k = some group := by
  have hs₁ : (machine host dir).Reachable s₁ := by
    refine .step hs trivial (a := (n₁, env₁)) ?_
    simp only [machine, h₁]
  obtain ⟨ps₁, rt₁, hps₁, -, hkey₁, htable₁⟩ := reload_groups (consistent_reach hs) h₁
  obtain ⟨ps₂, rt₂, hps₂, rfl, hkey₂, htable₂⟩ := reload_groups (consistent_reach hs₁) h₂
  have hkeys := reports_sub rt₂ s₂.config.programGroup
    (s₁.config.programGroup.clone (env₂.rt.fork 2))
  simp only [ProcessGroup.groupOf_clone, hkey₁, hkey₂] at hkeys
  refine ⟨ps₁, ps₂, hps₁, hps₂, hkeys, ?_, ?_⟩
  · exact funext fun k ↦ funext fun group ↦ propext (htable₁ k group)
  · exact funext fun k ↦ funext fun group ↦ propext (htable₂ k group)

theorem keyAfter_of_plain {ps : List (Str × Patch)} {file : Option Ini}
    (hps : s.config.processes host n file = some ps) (h : Config.Plain host n s.config file ps) :
    KeyAfter host s file (ps.map (·.1)) = fun k group ↦ Config.lastGroup ps k = some group := by
  funext k group
  rw [KeyAfter, h.keyGroup hps]
  refine propext (and_iff_right_of_imp fun hgroup hremoved ↦ ?_)
  rw [Config.lastGroup, Write.changes_eq_nil.mpr hremoved.2] at hgroup
  cases hgroup

/-- **The report.**  Of two reloads, the second one reports what becomes of the groups of processes,
where the processes are named like their sections and the groups list only sections that have
processes, before and after. -/
theorem reports_of_plain {dir : Str} {s₀ s₁ s₂ : Supervisor} {n₁ n₂ : Nat}
    {env₁ env₂ : Environment} {calls₁ calls₂ : List Call}
    {groups₁ groups₂ : List Str × List Str × List Str} {err₁ err₂ : Option Str}
    {ps₁ ps₂ : List (Str × Patch)} (hs : (machine host dir).Reachable s₀)
    (h₁ : s₀.reload host n₁ env₁ = some (.returned s₁ groups₁ err₁ calls₁))
    (h₂ : s₁.reload host n₂ env₂ = some (.returned s₂ groups₂ err₂ calls₂))
    (hps₁ : s₀.config.processes host n₁ env₁.file = some ps₁)
    (hps₂ : s₁.config.processes host n₂ env₂.file = some ps₂)
    (hplain₁ : Config.Plain host n₁ s₀.config env₁.file ps₁)
    (hplain₂ : Config.Plain host n₂ s₁.config env₂.file ps₂) :
    Reports (InTable s₁ (ps₁.map (·.1))) (InTable s₂ (ps₂.map (·.1))) groups₂ := by
  obtain ⟨ps₁', ps₂', hps₁', hps₂', hkeys, hprocess₁, hprocess₂⟩ := reports_keys hs h₁ h₂
  obtain rfl : ps₁ = ps₁' := Option.some.inj (hps₁.symm.trans hps₁')
  obtain rfl : ps₂ = ps₂' := Option.some.inj (hps₂.symm.trans hps₂')
  rw [hprocess₁, hprocess₂, ← keyAfter_of_plain hps₁ hplain₁, ← keyAfter_of_plain hps₂ hplain₂]
  exact hkeys

/-- The groups that a reload reports. -/
def reportOf : Option Reloaded → Option (List Str × List Str × List Str)
  | some (.returned _ groups _ _) => some groups
  | _ => none

/-- A configuration file with the group `g` and three programs. -/
def groupFile (listed : String) (programs : List String) : Environment where
  rt := .inOrder
  file := some (Config.sectionOf "group:g" "programs" listed ::
    programs.map fun program ↦ Config.sectionOf ("program:" ++ program) "command" "/bin/cat")

/-- The statement for a group in which `c` comes in the place of `b`, and for a program `d` that is
replaced by `e`. -/
theorem reports_of_plain_replaced : ∃ s₁ groups₁ err₁ calls₁ s₂ groups₂ err₂ calls₂ ps₁ ps₂,
    (newSupervisor (str "/")).reload Host.bare 2 (groupFile "a,b" ["a", "b", "d"]) =
      some (.returned s₁ groups₁ err₁ calls₁) ∧
    s₁.reload Host.bare 2 (groupFile "a,c" ["a", "c", "e"]) =
      some (.returned s₂ groups₂ err₂ calls₂) ∧
    (newSupervisor (str "/")).config.processes Host.bare 2
      (groupFile "a,b" ["a", "b", "d"]).file = some ps₁ ∧
    s₁.config.processes Host.bare 2 (groupFile "a,c" ["a", "c", "e"]).file = some ps₂ ∧
    groups₂ = ([str "e"], [str "g"], [str "d"]) ∧
    Reports (InTable s₁ (ps₁.map (·.1))) (InTable s₂ (ps₂.map (·.1))) groups₂ := by
  let env₁ := groupFile "a,b" ["a", "b", "d"]
  let env₂ := groupFile "a,c" ["a", "c", "e"]
  let s₀ := newSupervisor (str "/")
  have hfirst : (s₀.config.processes Host.bare 2 env₁.file).any
      (Config.lists Host.bare s₀.config env₁.file) = true := by
    decide +kernel
  have hrun : (((machine Host.bare (str "/")).step s₀ (2, env₁)).bind fun s ↦
      ((machine Host.bare (str "/")).step s (2, env₂)).bind fun _ ↦
        (reportOf (s.reload Host.bare 2 env₂)).map fun groups ↦
          (groups, (s.config.processes Host.bare 2 env₂.file).any
            (Config.lists Host.bare s.config env₂.file))) =
      some (([str "e"], [str "g"], [str "d"]), true) := by
    decide +kernel
  obtain ⟨s₁, hs₁, hrun⟩ := Option.bind_eq_some_iff.mp hrun
  obtain ⟨s₂, hs₂, hrun⟩ := Option.bind_eq_some_iff.mp hrun
  obtain ⟨groups₁, err₁, calls₁, h₁⟩ := machine_step hs₁
  obtain ⟨groups₂, err₂, calls₂, h₂⟩ := machine_step hs₂
  rw [h₂, reportOf, Option.map_some, Option.some_inj, Prod.mk.injEq] at hrun
  obtain ⟨ps₁, hps₁, hlists₁⟩ := (Option.any_eq_true _ _).mp hfirst
  obtain ⟨ps₂, hps₂, hlists₂⟩ := (Option.any_eq_true _ _).mp hrun.2
  have hplain₁ : Config.Plain Host.bare 2 s₀.config env₁.file ps₁ :=
    .of_lists (by decide +kernel) hlists₁
  have hplain₂ : Config.Plain Host.bare 2 s₁.config env₂.file ps₂ :=
    .of_lists (by decide +kernel) hlists₂
  exact ⟨s₁, groups₁, err₁, calls₁, s₂, groups₂, err₂, calls₂, ps₁, ps₂, h₁, h₂, hps₁, hps₂,
    hrun.1, reports_of_plain .init h₁ h₂ hps₁ hps₂ hplain₁ hplain₂⟩

/-- A configuration file with the program `x`, whose process is called `y`. -/
def renamed : Environment where
  rt := .inOrder
  file := some [⟨str "program:x", (AList.singleton (str "command") (str "/bin/cat")).insert
    (str "process_name") (str "y")⟩]

/-- The process of the program `x` gets another name.  The group is reported as removed, though
there is still a process in it. -/
theorem reports_renamed : ∃ s₁ groups₁ err₁ calls₁ s₂ groups₂ err₂ calls₂ ps₁ ps₂,
    (newSupervisor (str "/")).reload Host.bare 2 (fileOf "x") =
      some (.returned s₁ groups₁ err₁ calls₁) ∧
    s₁.reload Host.bare 2 renamed = some (.returned s₂ groups₂ err₂ calls₂) ∧
    (newSupervisor (str "/")).config.processes Host.bare 2 (fileOf "x").file = some ps₁ ∧
    s₁.config.processes Host.bare 2 renamed.file = some ps₂ ∧
    ¬ Reports (InTable s₁ (ps₁.map (·.1))) (InTable s₂ (ps₂.map (·.1))) groups₂ := by
  have hfirst : (newSupervisor (str "/")).namesOf (fileOf "x") =
      some [(str "x", some (str "program:x"))] := by
    decide +kernel
  have hrun : (((machine Host.bare (str "/")).step (newSupervisor (str "/"))
      (2, fileOf "x")).bind fun s ↦ ((machine Host.bare (str "/")).step s (2, renamed)).bind
        fun s' ↦ (reportOf (s.reload Host.bare 2 renamed)).bind fun groups ↦
          (s.namesOf renamed).map fun names ↦
            (groups.2.2, names.map (·.1), (s'.config.entries.get (str "y")).map Entry.group)) =
      some ([str "x"], [str "y"], some (str "x")) := by
    decide +kernel
  obtain ⟨s₁, hs₁, hrun⟩ := Option.bind_eq_some_iff.mp hrun
  obtain ⟨s₂, hs₂, hrun⟩ := Option.bind_eq_some_iff.mp hrun
  obtain ⟨groups₁, err₁, calls₁, h₁⟩ := machine_step hs₁
  obtain ⟨groups₂, err₂, calls₂, h₂⟩ := machine_step hs₂
  rw [h₂, reportOf, Option.bind_some] at hrun
  obtain ⟨names, hnames, hrun⟩ := Option.map_eq_some_iff.mp hrun
  obtain ⟨ps₁, hps₁, -⟩ := Option.map_eq_some_iff.mp hfirst
  obtain ⟨ps₂, hps₂, rfl⟩ := Option.map_eq_some_iff.mp hnames
  rw [Prod.mk.injEq, Prod.mk.injEq, List.map_map] at hrun
  obtain ⟨hremoved, hloaded, hgroup⟩ := hrun
  obtain ⟨e, he, hgroup⟩ := Option.map_eq_some_iff.mp hgroup
  refine ⟨s₁, groups₁, err₁, calls₁, s₂, groups₂, err₂, calls₂, ps₁, ps₂, h₁, h₂, hps₁, hps₂,
    fun hreports ↦ ?_⟩
  have hgone := ((hreports.removed (str "x")).mp (hremoved ▸ List.mem_cons_self)).2
  exact hgone ⟨str "y", hloaded ▸ List.mem_cons_self, e, he, hgroup⟩

end Supervisor

end Supervisord
