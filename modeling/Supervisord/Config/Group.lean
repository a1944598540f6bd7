import Supervisord.Config.Load

/-!
# Groups of programs

A `ProcessGroup` maps programs to groups, and a group is there as long as it has a program.  The
differences `Sub` finds between two of them are those of the two mappings, whatever the order in
which the maps are iterated over (`sub_exact`).
-/

namespace Supervisord

open Go

namespace Util

variable {arr1 arr2 : List Str} {s : Str}

theorem nodup_sub (h : arr1.Nodup) : (sub arr1 arr2).Nodup := h.filter _

/-- For lists without duplicates, the lengths and one inclusion are enough. -/
theorem isSameStringArray_iff (h1 : arr1.Nodup) (h2 : arr2.Nodup) :
    isSameStringArray arr1 arr2 ↔ ∀ s, s ∈ arr1 ↔ s ∈ arr2 := by
  rw [isSameStringArray, Bool.and_eq_true, decide_eq_true_iff, List.all_eq_true]
  constructor
  · rintro ⟨hlen, hsub⟩ s
    have hperm := (h1.subperm fun s hs ↦ of_decide_eq_true (hsub s hs)).perm_of_length_le
      (Nat.le_of_eq hlen.symm)
    exact hperm.mem_iff
  · intro h
    exact ⟨((List.perm_ext_iff_of_nodup h1 h2).mpr h).length_eq,
      fun s hs ↦ decide_eq_true ((h s).mp hs)⟩

end Util

namespace ProcessGroup

variable {rt : Runtime} {pg other : ProcessGroup} {group procName : Str}

/-- The group of a program, if it has one. -/
def groupOf (pg : ProcessGroup) (procName : Str) : Option Str := pg.processGroup.lookup procName

/-- A program is in the group. -/
def HasGroup (pg : ProcessGroup) (group : Str) : Prop :=
  ∃ procName, pg.groupOf procName = some group

/-- `Clone`. -/
def clone (rt : Runtime) (pg : ProcessGroup) : ProcessGroup where
  processGroup := (rt.range pg.processGroup.entries).foldl (fun m e ↦ m.insert e.1 e.2) ∅

theorem mem_getAllGroup : group ∈ pg.getAllGroup rt ↔ pg.HasGroup group := by
  have hfold : ∀ (l : List ((_ : Str) × Str)) (m : Map Str Bool),
      group ∈ l.foldl (fun groups e ↦ groups.insert e.2 true) m ↔
        group ∈ m ∨ ∃ e ∈ l, e.2 = group := by
    intro l m
    refine foldl_iff (P := fun m ↦ group ∈ m) fun m e ↦ ?_
    rw [AList.mem_insert, or_comm, eq_comm]
  rw [getAllGroup, Runtime.mem_range, AList.mem_keys.symm, hfold]
  constructor
  · rintro (h | ⟨e, he, rfl⟩)
    · exact absurd h (AList.notMem_empty group)
    · exact ⟨e.1, AList.mem_lookup_iff.mpr (Runtime.mem_range.mp he)⟩
  · rintro ⟨procName, h⟩
    exact .inr ⟨⟨procName, group⟩, Runtime.mem_range.mpr (AList.mem_lookup_iff.mp h), rfl⟩

theorem nodup_getAllGroup : (pg.getAllGroup rt).Nodup :=
  (Runtime.range_perm _ _).nodup_iff.mpr (AList.keys_nodup _)

theorem mem_getAllProcess :
    procName ∈ pg.getAllProcess rt group ↔ pg.groupOf procName = some group := by
  rw [getAllProcess, List.mem_map]
  constructor
  · rintro ⟨e, he, rfl⟩
    obtain ⟨he, hg⟩ := List.mem_filter.mp he
    rw [of_decide_eq_true hg]
    exact AList.mem_lookup_iff.mpr (Runtime.mem_range.mp he)
  · intro h
    exact ⟨⟨procName, group⟩, List.mem_filter.mpr
      ⟨Runtime.mem_range.mpr (AList.mem_lookup_iff.mp h), decide_eq_true rfl⟩, rfl⟩

theorem nodup_getAllProcess : (pg.getAllProcess rt group).Nodup := by
  have hkeys : ((rt.range pg.processGroup.entries).map (·.1)).Nodup :=
    ((rt.range_perm _).map _).nodup_iff.mpr pg.processGroup.nodupKeys
  exact hkeys.sublist (List.filter_sublist.map _)

/-! ## Differences -/

/-- The members of a group differ. -/
def Differs (pg other : ProcessGroup) (group : Str) : Prop :=
  ¬∀ procName, pg.groupOf procName = some group ↔ other.groupOf procName = some group

theorem isSameStringArray_getAllProcess {rt' : Runtime} :
    Util.isSameStringArray (pg.getAllProcess rt group) (other.getAllProcess rt' group) = false ↔
      Differs pg other group := by
  rw [← Bool.not_eq_true, Util.isSameStringArray_iff nodup_getAllProcess nodup_getAllProcess,
    Differs]
  simp only [mem_getAllProcess]

theorem getAllProcess_pos : 0 < (pg.getAllProcess rt group).length ↔ pg.HasGroup group := by
  rw [List.length_pos_iff_exists_mem]
  simp only [mem_getAllProcess, HasGroup]

theorem mem_added : group ∈ (pg.sub rt other).1 ↔ pg.HasGroup group ∧ ¬other.HasGroup group := by
  rw [sub, Util.mem_sub, mem_getAllGroup, mem_getAllGroup]

theorem mem_removed :
    group ∈ (pg.sub rt other).2.2 ↔ other.HasGroup group ∧ ¬pg.HasGroup group := by
  rw [sub, Util.mem_sub, mem_getAllGroup, mem_getAllGroup]

theorem mem_changed : group ∈ (pg.sub rt other).2.1 ↔
    pg.HasGroup group ∧ other.HasGroup group ∧ Differs pg other group := by
  rw [sub, List.mem_map]
  constructor
  · rintro ⟨⟨g, i⟩, hmem, rfl⟩
    obtain ⟨hidx, hif⟩ := List.mem_filter.mp hmem
    obtain ⟨hpos, hsame⟩ := Bool.and_eq_true_iff.mp hif
    exact ⟨mem_getAllGroup.mp (List.fst_mem_of_mem_zipIdx hidx),
      getAllProcess_pos.mp (of_decide_eq_true hpos),
      isSameStringArray_getAllProcess.mp ((Bool.not_eq_true' _).mp hsame)⟩
  · rintro ⟨hpg, hother, hdiff⟩
    have hmem : group ∈ ((pg.getAllGroup (rt.fork 0)).zipIdx.map Prod.fst) := by
      rw [List.zipIdx_map_fst]
      exact mem_getAllGroup.mpr hpg
    obtain ⟨⟨_, i⟩, hi, rfl⟩ := List.mem_map.mp hmem
    exact ⟨⟨_, i⟩, List.mem_filter.mpr ⟨hi, Bool.and_eq_true_iff.mpr
      ⟨decide_eq_true (getAllProcess_pos.mpr hother),
        (Bool.not_eq_true' _).mpr (isSameStringArray_getAllProcess.mpr hdiff)⟩⟩, rfl⟩

theorem nodup_changed : (pg.sub rt other).2.1.Nodup := by
  have hall : (pg.getAllGroup (rt.fork 0)).Nodup := nodup_getAllGroup
  rw [← List.zipIdx_map_fst 0 (pg.getAllGroup (rt.fork 0))] at hall
  exact hall.sublist (List.filter_sublist.map Prod.fst)

/-- The mappings are equal when they have the same groups with the same members. -/
theorem groupOf_eq_iff : (∀ procName, pg.groupOf procName = other.groupOf procName) ↔
    ∀ group, ¬(pg.HasGroup group ∧ ¬other.HasGroup group) ∧
      ¬(pg.HasGroup group ∧ other.HasGroup group ∧ Differs pg other group) ∧
      ¬(other.HasGroup group ∧ ¬pg.HasGroup group) := by
  constructor
  · intro h group
    have hgroup : pg.HasGroup group ↔ other.HasGroup group :=
      exists_congr fun procName ↦ by rw [h procName]
    have hdiff : ¬Differs pg other group := not_not_intro fun procName ↦ by rw [h procName]
    exact ⟨fun h ↦ h.2 (hgroup.mp h.1), fun h ↦ hdiff h.2.2, fun h ↦ h.2 (hgroup.mpr h.1)⟩
  · intro h procName
    ext group
    obtain ⟨hadded, hchanged, hremoved⟩ := h group
    have hsame (hpg : pg.HasGroup group) (hother : other.HasGroup group) :
        pg.groupOf procName = some group ↔ other.groupOf procName = some group :=
      Classical.not_not.mp (fun hdiff ↦ hchanged ⟨hpg, hother, hdiff⟩) procName
    constructor
    · intro hp
      have hpg : pg.HasGroup group := ⟨procName, hp⟩
      exact (hsame hpg (Classical.not_not.mp fun hother ↦ hadded ⟨hpg, hother⟩)).mp hp
    · intro hp
      have hother : other.HasGroup group := ⟨procName, hp⟩
      exact (hsame (Classical.not_not.mp fun hpg ↦ hremoved ⟨hother, hpg⟩) hother).mpr hp

/-- The three lists are those of the groups that are new, that have other members and that are
gone, each group once, and they are empty when the mappings are equal and then only. -/
theorem sub_exact (rt : Runtime) (pg other : ProcessGroup) :
    let added := (pg.sub rt other).1
    let changed := (pg.sub rt other).2.1
    let removed := (pg.sub rt other).2.2
    (added.Nodup ∧ changed.Nodup ∧ removed.Nodup) ∧
    (added.Disjoint changed ∧ added.Disjoint removed ∧ changed.Disjoint removed) ∧
    (∀ group, group ∈ added ↔ pg.HasGroup group ∧ ¬other.HasGroup group) ∧
    (∀ group, group ∈ removed ↔ other.HasGroup group ∧ ¬pg.HasGroup group) ∧
    (∀ group, group ∈ changed ↔
      pg.HasGroup group ∧ other.HasGroup group ∧ Differs pg other group) ∧
    (added = [] ∧ changed = [] ∧ removed = [] ↔
      ∀ procName, pg.groupOf procName = other.groupOf procName) := by
  intro added changed removed
  have hadded : ∀ group, group ∈ added ↔ pg.HasGroup group ∧ ¬other.HasGroup group :=
    fun _ ↦ mem_added
  have hchanged : ∀ group, group ∈ changed ↔
      pg.HasGroup group ∧ other.HasGroup group ∧ Differs pg other group := fun _ ↦ mem_changed
  have hremoved : ∀ group, group ∈ removed ↔ other.HasGroup group ∧ ¬pg.HasGroup group :=
    fun _ ↦ mem_removed
  refine ⟨⟨Util.nodup_sub nodup_getAllGroup, nodup_changed, Util.nodup_sub nodup_getAllGroup⟩,
    ⟨?_, ?_, ?_⟩, hadded, hremoved, hchanged, ?_⟩
  · intro group ha hc
    exact ((hadded group).mp ha).2 ((hchanged group).mp hc).2.1
  · intro group ha hr
    exact ((hadded group).mp ha).2 ((hremoved group).mp hr).1
  · intro group hc hr
    exact ((hremoved group).mp hr).2 ((hchanged group).mp hc).1
  · simp only [groupOf_eq_iff, List.eq_nil_iff_forall_not_mem, hadded, hchanged, hremoved,
      forall_and]

/-- A clone has no difference to what it was made of. -/
theorem groupOf_clone (rt : Runtime) (pg : ProcessGroup) (procName : Str) :
    (pg.clone rt).groupOf procName = pg.groupOf procName := by
  have hperm := rt.range_perm pg.processGroup.entries
  have hkeys : (rt.range pg.processGroup.entries).NodupKeys :=
    (List.perm_nodupKeys hperm).mpr pg.processGroup.nodupKeys
  rw [groupOf, clone, lookup_foldl_insert ∅ hkeys, AList.lookup_empty, Option.or_none,
    List.perm_dlookup procName hkeys hperm]
  rfl

end ProcessGroup

end Supervisord
