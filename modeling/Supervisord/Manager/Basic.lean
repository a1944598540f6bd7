import Supervisord.Config.Listing
import Supervisord.Process.Threads

/-!
# The table of processes

The `Manager` keeps the processes of programs and those of event listeners under their names.  A
process points to the entry it was created for, and goes on to do so when the entry changes.
`sortProcess` puts the processes of the programs into the order of their entries.

What a process does when it is started or stopped is not part of the table; the methods that are
called on processes are recorded as `Call`s.
-/

namespace Supervisord

open Go ProcessSorter

/-- A `*Process`. -/
abbrev ProcId := Nat

structure Manager where
  procs : Map Str ProcId := ∅
  eventListeners : Map Str ProcId := ∅
  /-- `config` of each process. -/
  config : ProcId → Ptr := fun _ ↦ 0
  /-- How many processes there are. -/
  next : ProcId := 0

/-- A method called on a process, with the name the process has in its table. -/
structure Call where
  proc : ProcId
  name : Str
  op : Process.Op
deriving DecidableEq

namespace Manager

/-! ## The table -/

/-- `NewProcess`. -/
def newProcess (pm : Manager) (config : Ptr) : Manager :=
  { pm with config := Function.update pm.config pm.next config, next := pm.next + 1 }

def createProgram (pm : Manager) (c : Config) (config : Ptr) : Manager × ProcId :=
  let procName := (c.entry config).getProgramName
  match pm.procs.lookup procName with
  | some proc => (pm, proc)
  | none => ({ pm.newProcess config with procs := pm.procs.insert procName pm.next }, pm.next)

def createEventListener (pm : Manager) (c : Config) (config : Ptr) : Manager × ProcId :=
  let eventListenerName := (c.entry config).getEventListenerName
  match pm.eventListeners.lookup eventListenerName with
  | some evtListener => (pm, evtListener)
  | none => ({ pm.newProcess config with
      eventListeners := pm.eventListeners.insert eventListenerName pm.next }, pm.next)

def createProcess (pm : Manager) (c : Config) (config : Ptr) : Manager × Option ProcId :=
  if (c.entry config).isProgram then
    let (pm, proc) := pm.createProgram c config
    (pm, some proc)
  else if (c.entry config).isEventListener then
    let (pm, evtListener) := pm.createEventListener c config
    (pm, some evtListener)
  else (pm, none)

def remove (pm : Manager) (name : Str) : Manager × Option ProcId :=
  ({ pm with procs := pm.procs.erase name }, pm.procs.lookup name)

/-- `GetName` of a process. -/
def getName (pm : Manager) (c : Config) (proc : ProcId) : Str :=
  let config := c.entry (pm.config proc)
  if config.isProgram then config.getProgramName
  else if config.isEventListener then config.getEventListenerName
  else []

/-- `isAutoStart` of a process. -/
def isAutoStart (host : Host) (n : Nat) (pm : Manager) (c : Config) (proc : ProcId) :
    Option Bool :=
  ((c.entry (pm.config proc)).getString host n (str "autostart") (str "true")).map
    (· = str "true")

/-! ## Sorting processes -/

variable {α π : Type}

/-- `sortProcess`. -/
def sortProcess [DecidableEq α] (rt : Runtime) (host : Host) (n : Nat)
    (entry : α → Entry) (config : π → α) (procs : List π) : Option (List π) :=
  let progConfigs := (procs.filter fun proc ↦ (entry (config proc)).isProgram).map config
  (sortProgram rt host n entry progConfigs).map fun l ↦
    l.flatMap fun c ↦ procs.filter fun proc ↦ config proc = c

def getAllProcess (rt : Runtime) (host : Host) (n : Nat) (pm : Manager) (c : Config) :
    Option (List ProcId) :=
  sortProcess (rt.fork 0) host n c.entry pm.config
    (((rt.fork 1).range pm.procs.entries).map (·.2))

def startAutoStartPrograms (rt : Runtime) (host : Host) (n : Nat) (pm : Manager) (c : Config) :
    Option (List Call) :=
  (pm.getAllProcess rt host n c).bind fun procs ↦ procs.foldlM (fun calls proc ↦
    (pm.isAutoStart host n c proc).map fun autoStart ↦
      if autoStart then calls ++ [⟨proc, pm.getName c proc, .start false⟩] else calls) []

variable {rt : Runtime} {host : Host} {n : Nat} {entry : α → Entry}
  {config : π → α} {procs : List π} {l cs : List α} {c : α} {rel : Str → Str → Prop}

/-- The processes of programs. -/
def programProcs (entry : α → Entry) (config : π → α) (procs : List π) : List π :=
  procs.filter fun proc ↦ (entry (config proc)).isProgram

theorem programs_map_programProcs :
    programs entry ((programProcs entry config procs).map config) =
      (programProcs entry config procs).map config := by
  refine List.filter_eq_self.mpr fun c hc ↦ ?_
  obtain ⟨proc, hproc, rfl⟩ := List.mem_map.mp hc
  exact (List.mem_filter.mp hproc).2

section Distinct

variable [DecidableEq α] (hnodup : (procs.map config).Nodup)
include hnodup

/-- Among processes with configurations of their own, each configuration has one. -/
theorem map_filter_eq_singleton (hc : c ∈ procs.map config) :
    (procs.filter fun proc ↦ config proc = c).map config = [c] := by
  have hfilter : (procs.filter fun proc ↦ config proc = c).map config =
      (procs.map config).filter (· = c) := by
    rw [List.filter_map]
    rfl
  rw [hfilter, List.filter_eq, List.count_eq_one_of_mem hnodup hc, List.replicate_one]

theorem map_flatMap_filter (hl : l ⊆ procs.map config) :
    (l.flatMap fun c ↦ procs.filter fun proc ↦ config proc = c).map config = l := by
  induction l with
  | nil => rfl
  | cons c l ih =>
      rw [List.cons_subset] at hl
      rw [List.flatMap_cons, List.map_append, map_filter_eq_singleton hnodup hl.1, ih hl.2]
      rfl

/-- Processes collected in the order of their configurations are each there once. -/
theorem flatMap_filter_perm
    (hl : l.Perm ((programProcs entry config procs).map config)) :
    (l.flatMap fun c ↦ procs.filter fun proc ↦ config proc = c).Perm
      (programProcs entry config procs) := by
  have hsub : (programProcs entry config procs).map config ⊆ procs.map config :=
    List.map_subset _ List.filter_sublist.subset
  have hprog : ((programProcs entry config procs).map config).Nodup :=
    hnodup.sublist ((List.filter_sublist).map _)
  have hmap := map_flatMap_filter hnodup (List.Subset.trans hl.subset hsub)
  refine (List.perm_ext_iff_of_nodup ?_ (List.Nodup.of_map _ hprog)).mpr fun proc ↦ ?_
  · refine List.Nodup.of_map config ?_
    rw [hmap]
    exact hl.nodup_iff.mpr hprog
  · constructor
    · intro h
      obtain ⟨c, hc, hproc⟩ := List.mem_flatMap.mp h
      obtain ⟨hmem, hcfg⟩ := List.mem_filter.mp hproc
      obtain ⟨proc', hproc', hcfg'⟩ := List.mem_map.mp (hl.subset hc)
      -- the process with the configuration `c` is one of a program
      rw [← hcfg', decide_eq_true_eq] at hcfg
      refine List.mem_filter.mpr ⟨hmem, ?_⟩
      rw [hcfg]
      exact (List.mem_filter.mp hproc').2
    · intro h
      refine List.mem_flatMap.mpr ⟨config proc, ?_, List.mem_filter.mpr ⟨?_, by simp⟩⟩
      · exact hl.mem_iff.mpr (List.mem_map_of_mem h)
      · exact (List.mem_filter.mp h).1

end Distinct

/-- `rel` is the relation that the `depends_on` of the programs make: each value has been
evaluated, and the relation is of the names they list. -/
structure DependsRelation (host : Host) (entry : α → Entry) (cs : List α)
    (rel : Str → Str → Prop) : Prop where
  evaluate : DependsEvaluate host entry cs
  iff : ∀ a b, rel a b ↔ DependsOn host entry cs a b

theorem DependsRelation.exists_sortProgram (h : DependsRelation host entry cs rel)
    (hrel : Sweep.Acyclic rel) (rt : Runtime) : ∃ n r, sortProgram rt host n entry cs = some r :=
  (ProcessSorter.exists_sortProgram rt).mpr
    ⟨h.evaluate, hrel.mono fun a b ↦ (h.iff a b).mpr⟩

/-- **Sorting.**  A list of programs whose `depends_on` make no cycle is sorted, however the maps
are iterated over: each is in the result once, after all listed programs it depends on.  And of a
table of processes with configurations of their own, the processes of programs are returned in
this order, each once. -/
theorem sorts_acyclic [DecidableEq α] (rt : Runtime) (host : Host) (entry : α → Entry)
    (cs : List α) (config : π → α) (procs : List π) (hrel : Sweep.Acyclic rel) :
    (DependsRelation host entry cs rel → (∀ c ∈ cs, (entry c).isProgram) →
      ∃ n r, (∀ m ≥ n, sortProgram rt host m entry cs = some r) ∧ r.Perm cs ∧
        ∀ r₁ c r₂, r = r₁ ++ c :: r₂ → ∀ d ∈ cs,
          rel (entry c).getProgramName (entry d).getProgramName → d ∈ r₁) ∧
    ((procs.map config).Nodup →
      DependsRelation host entry ((programProcs entry config procs).map config) rel →
      ∃ n l r, sortProgram rt host n entry ((programProcs entry config procs).map config) =
          some l ∧
        (∀ m ≥ n, sortProcess rt host m entry config procs = some r) ∧
        r.map config = l ∧ r.Perm (programProcs entry config procs)) := by
  constructor
  · intro h hprog
    obtain ⟨n, r, hr⟩ := h.exists_sortProgram hrel rt
    have hcs : programs entry cs = cs := List.filter_eq_self.mpr hprog
    refine ⟨n, r, fun m hm ↦ sortProgram_mono hr hm, hcs ▸ sortProgram_perm hr,
      fun r₁ c r₂ hsplit d hd hcd ↦ ?_⟩
    exact sortProgram_topological hr r₁ c r₂ hsplit d ⟨hcs.symm ▸ hd, (h.iff _ _).mp hcd⟩
  · intro hnodup h
    obtain ⟨n, l, hl⟩ := h.exists_sortProgram hrel rt
    have hperm := sortProgram_perm hl
    rw [programs_map_programProcs] at hperm
    have hsub : (programProcs entry config procs).map config ⊆ procs.map config :=
      List.map_subset _ List.filter_sublist.subset
    refine ⟨n, l, _, hl, fun m hm ↦ ?_,
      map_flatMap_filter hnodup (List.Subset.trans hperm.subset hsub),
      flatMap_filter_perm hnodup hperm⟩
    exact Option.map_eq_some_iff.mpr ⟨l, sortProgram_mono hl hm, rfl⟩

/-- The programs `a`, which depends on `b` and on an unknown `x`, and `b`. -/
def dependentPrograms : Bool → Entry
  | true => {
      configDir := str "/"
      name := str "program:a"
      keyValues := Function.update (fun _ ↦ none) (str "depends_on") (some (str " b,, x")) }
  | false => { configDir := str "/", name := str "program:b" }

theorem acyclic_dependentPrograms :
    Sweep.Acyclic fun a b : Str ↦ a = str "a" ∧ b ∈ [str "b", str "x"] := by
  intro a ha
  have hfst : a = str "a" := by
    obtain ⟨b, hb, -⟩ := Relation.TransGen.head'_iff.mp ha
    exact hb.1
  have hsnd : a ∈ [str "b", str "x"] := by
    obtain ⟨b, -, hb⟩ := Relation.TransGen.tail'_iff.mp ha
    exact hb.2
  subst hfst
  revert hsnd
  decide

theorem dependsRelation_dependentPrograms {cs : List Bool} (hcs : true ∈ cs) :
    DependsRelation Host.bare dependentPrograms cs
      fun a b ↦ a = str "a" ∧ b ∈ [str "b", str "x"] := by
  have htrue : (dependentPrograms true).getString Host.bare 1
      (str "depends_on") [] = some (str " b,, x") := by decide
  have hfalse : (dependentPrograms false).getString Host.bare 1
      (str "depends_on") [] = some [] := by decide
  have hnil : dependsOnPrograms [] = [] := by decide
  refine ⟨fun c _ _ ↦ ?_, fun a b ↦ ⟨?_, ?_⟩⟩
  · cases c with
    | true => exact ⟨1, _, htrue⟩
    | false => exact ⟨1, _, hfalse⟩
  · rintro ⟨rfl, hb⟩
    exact ⟨true, hcs, by decide, by decide, 1, _, htrue, hb⟩
  · rintro ⟨c, -, hprog, rfl, hval⟩
    have hone : DependsOn Host.bare dependentPrograms [c]
        (dependentPrograms c).getProgramName b := ⟨c, List.mem_cons_self, hprog, rfl, hval⟩
    cases c with
    | true => exact ⟨by decide, ((dependsOn_singleton hprog htrue).mp hone).2⟩
    | false =>
        have hb := ((dependsOn_singleton hprog hfalse).mp hone).2
        rw [hnil] at hb
        cases hb

/-- Every program comes behind its dependencies, for the programs `a` and `b`. -/
theorem sorts_dependentPrograms :
    (∃ n r, (∀ m ≥ n, sortProgram Runtime.inOrder Host.bare m
        dependentPrograms [true, false] = some r) ∧ r.Perm [true, false] ∧
      ∀ r₁ c r₂, r = r₁ ++ c :: r₂ → ∀ d ∈ [true, false],
        ((dependentPrograms c).getProgramName = str "a" ∧
          (dependentPrograms d).getProgramName ∈ [str "b", str "x"]) → d ∈ r₁) ∧
    ∃ n l r, sortProgram Runtime.inOrder Host.bare n dependentPrograms
        ((programProcs dependentPrograms id [false, true]).map id) = some l ∧
      (∀ m ≥ n, sortProcess Runtime.inOrder Host.bare m dependentPrograms id
        [false, true] = some r) ∧
      r.map id = l ∧ r.Perm (programProcs dependentPrograms id [false, true]) := by
  obtain ⟨hsort, hproc⟩ := sorts_acyclic Runtime.inOrder Host.bare
    dependentPrograms [true, false] id [false, true] acyclic_dependentPrograms
  exact ⟨hsort (dependsRelation_dependentPrograms (by decide)) (by decide),
    hproc (by decide) (dependsRelation_dependentPrograms (by decide))⟩

end Manager

end Supervisord
