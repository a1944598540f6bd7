import Supervisord.Manager.Select
import Supervisord.Supervisor.Listing

/-!
# The reply of `GetAllProcessInfo`

The processes are visited in an order in which much is left to the runtime, and what has been told
of them is sorted by name.  No two processes have one name, so that the reply is the same whatever
the runtime does (`getAllProcessInfo_unique`).
-/

namespace Supervisord.Manager

open Go Fuel ProcessSorter

variable {π : Type} (rt : Runtime) (host : Host) (n : Nat) (pm : Manager) (c : Config)
  (nodename : Str) (tell : ProcId → π)

/-- `GetAllProcessInfo`, where `tell` is for what else `getProcessInfo` returns of a process. -/
def getAllProcessInfo : Option (List (Supervisord.Listed π)) :=
  (pm.getAllProcess (rt.fork 0) host n c).map fun procs ↦
    (rt.fork 1).sortStr (·.name) (procs.map fun proc ↦ ⟨nodename, pm.getName c proc, tell proc⟩)

variable {rt host n pm c nodename tell} {l l' : List (Supervisord.Listed π)}

/-- What is told of the processes, in the order of the table. -/
theorem getAllProcessInfo_perm (hprog : AllPrograms c pm)
    (h : pm.getAllProcessInfo rt host n c nodename tell = some l) :
    l.Perm (pm.procs.entries.map fun e ↦ ⟨nodename, e.1, tell e.2⟩) ∧
      l.Pairwise fun a b ↦ a.name ≤ b.name := by
  obtain ⟨procs, hprocs, rfl⟩ := Option.map_eq_some_iff.mp h
  refine ⟨?_, Runtime.pairwise_sortStr _ _ _⟩
  refine (Runtime.sortStr_perm _ _ _).trans (((getAllProcess_perm hprog hprocs).map _).trans ?_)
  rw [List.map_map]
  refine List.Perm.of_eq (List.map_congr_left fun e he ↦ ?_)
  rw [Function.comp_apply, hprog.getName (AList.mem_lookup_iff.mpr he)]

theorem nodup_names : ((pm.procs.entries.map fun e ↦
    (⟨nodename, e.1, tell e.2⟩ : Supervisord.Listed π)).map (·.name)).Nodup := by
  rw [List.map_map]
  exact pm.procs.nodupKeys

/-- **One reply.**  Whatever order the runtime chooses, `GetAllProcessInfo` returns the same: each
process of the table once, by its name, in the order of the names. -/
theorem getAllProcessInfo_unique (hprog : AllPrograms c pm)
    (heval : DependsEvaluate host c.entry pm.configs)
    (hacyclic : Sweep.Acyclic (DependsOn host c.entry pm.configs)) (nodename : Str)
    (tell : ProcId → π) : ∃ l : List (Supervisord.Listed π),
      (∀ rt, Returns (fun n ↦ pm.getAllProcessInfo rt host n c nodename tell) l) ∧
      l.Pairwise (fun a b ↦ a.name ≤ b.name) ∧ (l.map (·.name)).Nodup ∧
      ∀ p, p ∈ l ↔ ∃ proc, pm.procs.lookup p.name = some proc ∧
        p = ⟨nodename, p.name, tell proc⟩ := by
  have hret (rt : Runtime) : ∃ l,
      Returns (fun n ↦ pm.getAllProcessInfo rt host n c nodename tell) l := by
    obtain ⟨procs, hprocs⟩ := returns_getAllProcess heval hacyclic (rt.fork 0)
    exact hprocs.map _
  have hspec {rt : Runtime} {l : List (Supervisord.Listed π)}
      (h : Returns (fun n ↦ pm.getAllProcessInfo rt host n c nodename tell) l) :=
    h.elim fun n hn ↦ getAllProcessInfo_perm hprog (hn n (Nat.le_refl n))
  obtain ⟨l, hl⟩ := hret .inOrder
  obtain ⟨hperm, hsorted⟩ := hspec hl
  have hnodup : (l.map (·.name)).Nodup := ((hperm.map _).nodup_iff).mpr nodup_names
  refine ⟨l, fun rt ↦ ?_, hsorted, hnodup, fun p ↦ ?_⟩
  · obtain ⟨l', hl'⟩ := hret rt
    obtain ⟨hperm', hsorted'⟩ := hspec hl'
    have he : l' = l := by
      refine List.Perm.eq_of_pairwise (fun a b ha hb hab hba ↦ ?_) hsorted' hsorted
        (hperm'.trans hperm.symm)
      exact List.inj_on_of_nodup_map hnodup ((hperm'.trans hperm.symm).subset ha) hb
        (List.le_antisymm hab hba)
    exact he ▸ hl'
  · rw [hperm.mem_iff, List.mem_map]
    constructor
    · rintro ⟨e, he, rfl⟩
      exact ⟨e.2, AList.mem_lookup_iff.mpr he, rfl⟩
    · rintro ⟨proc, hp, he⟩
      exact ⟨⟨p.name, proc⟩, AList.mem_lookup_iff.mp hp, he.symm⟩

theorem getString_groupConfig (p : Ptr) (n : Nat) :
    (groupConfig.entry p).getString Host.bare n (str "depends_on") [] = some [] := by
  by_cases hp : p = 1
  · subst hp
    rfl
  · rw [Config.entry, groupConfig]
    simp only [Function.update_of_ne hp]
    rfl

theorem not_dependsOn_groupManager (a b : Str) :
    ¬DependsOn Host.bare groupConfig.entry groupManager.configs a b := by
  rintro ⟨p, -, -, -, n, v, hv, hb⟩
  rw [getString_groupConfig, Option.some.injEq] at hv
  rw [← hv] at hb
  exact absurd hb (by decide +revert)

/-- The two programs of the group are told of under their names. -/
theorem getAllProcessInfo_unique_group : ∃ l : List (Supervisord.Listed ProcId),
    (∀ rt, Returns (fun n ↦
      groupManager.getAllProcessInfo rt Host.bare n groupConfig (str "n") id) l) ∧
    l.Pairwise (fun a b ↦ a.name ≤ b.name) ∧ (l.map (·.name)).Nodup ∧
    ∀ p, p ∈ l ↔ ∃ proc, groupManager.procs.lookup p.name = some proc ∧
      p = ⟨str "n", p.name, id proc⟩ := by
  refine getAllProcessInfo_unique selectable_groupManager.programs
    (fun p _ _ ↦ ⟨0, [], getString_groupConfig p 0⟩) (fun a ha ↦ ?_) (str "n") id
  obtain ⟨b, hb, -⟩ := Relation.TransGen.head'_iff.mp ha
  exact not_dependsOn_groupManager a b hb

end Supervisord.Manager
