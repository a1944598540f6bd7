import Supervisord.Format.Marker
import Supervisord.Go.Index
import Supervisord.Manager.Create

/-!
# Selecting processes

A process is selected by its name, by its name with that of its group in front, or as one of its
group.  `FindMatch` and `Find` select among the processes of the table, and `inProcessMap` selects
among what the server tells the client of them.  They agree on every selector (`selects_same`).
-/

namespace Supervisord

open Go ProcessSorter Fuel

/-! ## The client -/

/-- What the client is told of a process. -/
structure ProcessInfo where
  name : Str
  group : Str

/-- `fmt.Sprintf("%s:%s", group, name)`. -/
def groupColon (group name : Str) : Str := group ++ 58 :: name

namespace ProcessInfo

def getFullName (pi : ProcessInfo) : Str :=
  if 0 < pi.group.length then groupColon pi.group pi.name else pi.name

/-- A round of `inProcessMap`. -/
def isSelected (procInfo : ProcessInfo) (procName : Str) : Bool :=
  if procName = procInfo.name ∨ procName = procInfo.getFullName then true
  else
    -- check the wildcard
    match procName.index (str ":") with
    | some pos => procName.drop (pos + 1) = str "*" && procName.take pos = procInfo.group
    | none => false

def inProcessMap (rt : Runtime) (procInfo : ProcessInfo) (processesMap : Map Str Bool) : Bool :=
  if processesMap.entries.length ≤ 0 then true
  else ((rt.range processesMap.entries).map (·.1)).any procInfo.isSelected

end ProcessInfo

namespace Manager

variable (rt : Runtime) (host : Host) (n : Nat) (pm : Manager) (c : Config)

/-! ## The server -/

/-- `GetGroup` of a process. -/
def getGroup (proc : ProcId) : Str := (c.entry (pm.config proc)).group

/-- The name and the group in what `getProcessInfo` returns. -/
def getProcessInfo (proc : ProcId) : ProcessInfo where
  name := pm.getName c proc
  group := pm.getGroup c proc

def findMatch (name : Str) : Option (List ProcId) :=
  match name.index (str ":") with
  | some pos =>
    let groupName := name.take pos
    let programName := name.drop (pos + 1)
    (pm.getAllProcess rt host n c).map fun procs ↦ procs.filter fun p ↦
      pm.getGroup c p = groupName && (programName = str "*" || programName = pm.getName c p)
  | none => some (pm.procs.lookup name).toList

/-- `Find`, which returns nothing where the processes are not listed in `n` rounds. -/
def find (name : Str) : Option (Option ProcId) :=
  (pm.findMatch rt host n c name).map fun procs ↦ match procs with
    | [proc] =>
      if pm.getName c proc = name ∨ name = groupColon (pm.getGroup c proc) (pm.getName c proc) then
        some proc
      else none
    | _ => none

/-! ## Selectors -/

/-- A process of the table. -/
def Listed (proc : ProcId) : Prop := ∃ k, pm.procs.lookup k = some proc

/-- The selector names the process. -/
def Names (name : Str) (proc : ProcId) : Prop :=
  name = pm.getName c proc ∨ name = groupColon (pm.getGroup c proc) (pm.getName c proc)

/-- The selector names the process or its group. -/
def Selects (name : Str) (proc : ProcId) : Prop :=
  pm.Names c name proc ∨ name = groupColon (pm.getGroup c proc) (str "*")

/-- The processes are programs under names that can be told from groups. -/
structure Selectable : Prop where
  programs : AllPrograms c pm
  name : ∀ proc, pm.Listed proc → 58 ∉ pm.getName c proc ∧ pm.getName c proc ≠ str "*"
  group : ∀ proc, pm.Listed proc → 58 ∉ pm.getGroup c proc ∧ pm.getGroup c proc ≠ []

variable {rt host n pm c} {name s group : Str} {proc proc' : ProcId} {procs : List ProcId}

theorem groupColon_inj {group' name' : Str} (h : 58 ∉ group) (h' : 58 ∉ group') :
    groupColon group name = groupColon group' name' ↔ group = group' ∧ name = name' := by
  constructor
  · intro he
    obtain ⟨hg, -, hn⟩ := List.stop_unique (List.forall_ne_iff_notMem.mpr h)
      (List.forall_ne_iff_notMem.mpr h') (by decide) (by decide) he
    exact ⟨hg, hn⟩
  · rintro ⟨rfl, rfl⟩
    rfl

theorem mem_groupColon : 58 ∈ groupColon group name := List.mem_append_right _ List.mem_cons_self

/-! ## The table -/

namespace Selectable

variable (h : Selectable pm c)
include h

theorem getName_of_lookup (hk : pm.procs.lookup name = some proc) : pm.getName c proc = name :=
  h.programs.getName hk

theorem lookup_getName (hp : pm.Listed proc) :
    pm.procs.lookup (pm.getName c proc) = some proc := by
  obtain ⟨k, hk⟩ := hp
  rw [h.getName_of_lookup hk, hk]

theorem eq_of_getName (hp : pm.Listed proc) (hp' : pm.Listed proc')
    (he : pm.getName c proc = pm.getName c proc') : proc = proc' := by
  have := h.lookup_getName hp
  rw [he, h.lookup_getName hp', Option.some.injEq] at this
  exact this.symm

/-- No two processes have the name. -/
theorem eq_of_names (hp : pm.Listed proc) (hp' : pm.Listed proc') (hn : pm.Names c s proc)
    (hn' : pm.Names c s proc') : proc = proc' := by
  refine h.eq_of_getName hp hp' ?_
  rcases hn with rfl | rfl
  · rcases hn' with he | he
    · exact he
    · exact absurd (he ▸ mem_groupColon) (h.name proc hp).1
  · rcases hn' with he | he
    · exact absurd (he ▸ mem_groupColon) (h.name proc' hp').1
    · exact ((groupColon_inj (h.group proc hp).1 (h.group proc' hp').1).mp he).2

/-- What names a process selects no other one. -/
theorem eq_of_selects (hp : pm.Listed proc) (hp' : pm.Listed proc') (hn : pm.Names c s proc)
    (hs : pm.Selects c s proc') : proc = proc' := by
  rcases hs with hn' | rfl
  · exact h.eq_of_names hp hp' hn hn'
  · rcases hn with he | he
    · exact absurd (he ▸ mem_groupColon) (h.name proc hp).1
    · have hstar := ((groupColon_inj (h.group proc' hp').1 (h.group proc hp).1).mp he).2
      exact absurd hstar.symm (h.name proc hp).2

end Selectable

/-! ## The selections -/

/-! A selector has no colon, or it is looked at in two parts. -/

theorem selects_of_notMem (hs : 58 ∉ s) :
    pm.Selects c s proc ↔ s = pm.getName c proc := by
  refine ⟨?_, fun he ↦ .inl (.inl he)⟩
  rintro ((he | rfl) | rfl)
  · exact he
  · exact absurd mem_groupColon hs
  · exact absurd mem_groupColon hs

theorem selects_groupColon (h : Selectable pm c) (hp : pm.Listed proc) (hg : 58 ∉ group) :
    pm.Selects c (groupColon group name) proc ↔ pm.getGroup c proc = group ∧
      (name = str "*" ∨ name = pm.getName c proc) := by
  have hgroup := (h.group proc hp).1
  rw [Selects, Names, groupColon_inj hg hgroup, groupColon_inj hg hgroup]
  constructor
  · rintro ((he | ⟨rfl, rfl⟩) | ⟨rfl, rfl⟩)
    · exact absurd (he ▸ mem_groupColon) (h.name proc hp).1
    · exact ⟨rfl, .inr rfl⟩
    · exact ⟨rfl, .inl rfl⟩
  · rintro ⟨rfl, rfl | rfl⟩
    · exact .inr ⟨rfl, rfl⟩
    · exact .inl (.inr ⟨rfl, rfl⟩)

theorem listed_iff : pm.Listed proc ↔ proc ∈ pm.procs.entries.map (·.2) := by
  rw [Listed, List.mem_map]
  constructor
  · rintro ⟨k, hk⟩
    exact ⟨⟨k, proc⟩, AList.mem_lookup_iff.mp hk, rfl⟩
  · rintro ⟨⟨k, q⟩, he, rfl⟩
    exact ⟨k, AList.mem_lookup_iff.mpr he⟩

theorem nodup_listed (h : Selectable pm c) : (pm.procs.entries.map (·.2)).Nodup := by
  refine List.Nodup.of_map pm.config ?_
  rw [List.map_map]
  exact h.programs.nodup_configs

/-- What `FindMatch` returns. -/
theorem findMatch_spec (h : Selectable pm c) (hm : pm.findMatch rt host n c s = some procs) :
    procs.Nodup ∧ ∀ proc, proc ∈ procs ↔ pm.Listed proc ∧ pm.Selects c s proc := by
  unfold findMatch at hm
  rcases Str.index_byte_cases s 58 with ⟨hs, hidx⟩ | ⟨group, name, rfl, hg, hidx⟩
  · rw [show s.index (str ":") = none from hidx] at hm
    obtain rfl := Option.some.inj hm
    refine ⟨?_, fun proc ↦ ?_⟩
    · cases pm.procs.lookup s with
      | none => exact List.nodup_nil
      | some proc => exact List.nodup_singleton proc
    · rw [Option.mem_toList, selects_of_notMem hs]
      constructor
      · exact fun hp ↦ ⟨⟨s, hp⟩, (h.getName_of_lookup hp).symm⟩
      · rintro ⟨hp, rfl⟩
        exact h.lookup_getName hp
  · rw [show Str.index (group ++ 58 :: name) (str ":") = some group.length from hidx] at hm
    obtain ⟨all, hall, rfl⟩ := Option.map_eq_some_iff.mp hm
    have hperm := getAllProcess_perm h.programs hall
    refine ⟨(hperm.nodup_iff.mpr (nodup_listed h)).filter _, fun proc ↦ ?_⟩
    rw [List.mem_filter, hperm.mem_iff, ← listed_iff, List.take_left, Str.drop_cut]
    refine and_congr_right fun hp ↦ ?_
    rw [Bool.and_eq_true, Bool.or_eq_true, decide_eq_true_iff, decide_eq_true_iff,
      decide_eq_true_iff]
    exact (selects_groupColon h hp hg).symm

/-- What names a process is found as the only match. -/
theorem findMatch_of_names (h : Selectable pm c) (hm : pm.findMatch rt host n c s = some procs)
    (hp : pm.Listed proc) (hn : pm.Names c s proc) : procs = [proc] := by
  obtain ⟨hnodup, hmem⟩ := findMatch_spec h hm
  refine List.perm_singleton.mp ((List.perm_ext_iff_of_nodup hnodup
    (List.nodup_singleton proc)).mpr fun proc' ↦ ?_)
  rw [hmem, List.mem_singleton]
  constructor
  · rintro ⟨hp', hs⟩
    exact (h.eq_of_selects hp hp' hn hs).symm
  · rintro rfl
    exact ⟨hp, .inl hn⟩

/-- What `Find` returns. -/
theorem find_spec (h : Selectable pm c) {found : Option ProcId}
    (hf : pm.find rt host n c s = some found) (proc : ProcId) :
    found = some proc ↔ pm.Listed proc ∧ pm.Names c s proc := by
  obtain ⟨procs, hm, rfl⟩ := Option.map_eq_some_iff.mp hf
  constructor
  · intro hfound
    split at hfound
    · rename_i q
      by_cases hq : pm.getName c q = s ∨ s = groupColon (pm.getGroup c q) (pm.getName c q)
      · rw [if_pos hq, Option.some.injEq] at hfound
        subst hfound
        have hmem := ((findMatch_spec h hm).2 q).mp List.mem_cons_self
        exact ⟨hmem.1, hq.imp_left Eq.symm⟩
      · rw [if_neg hq] at hfound
        cases hfound
    · cases hfound
  · rintro ⟨hp, hn⟩
    rw [findMatch_of_names h hm hp hn]
    exact if_pos (hn.imp_left Eq.symm)

/-- What the client is told of the process is selected if the process is. -/
theorem isSelected_getProcessInfo (h : Selectable pm c) (hp : pm.Listed proc) :
    (pm.getProcessInfo c proc).isSelected s = true ↔ pm.Selects c s proc := by
  have hfull : (pm.getProcessInfo c proc).getFullName =
      groupColon (pm.getGroup c proc) (pm.getName c proc) :=
    if_pos (List.length_pos_of_ne_nil (h.group proc hp).2)
  have hname : (pm.getProcessInfo c proc).name = pm.getName c proc := rfl
  rw [ProcessInfo.isSelected, hfull, hname]
  by_cases hn : s = pm.getName c proc ∨ s = groupColon (pm.getGroup c proc) (pm.getName c proc)
  · rw [if_pos hn]
    exact iff_of_true rfl (.inl hn)
  · rw [if_neg hn, Selects, Names, or_iff_right hn]
    rcases Str.index_byte_cases s 58 with ⟨hs, hidx⟩ | ⟨group, name, rfl, hg, hidx⟩
    · rw [show s.index (str ":") = none from hidx]
      exact iff_of_false Bool.false_ne_true fun he ↦ hs (he ▸ mem_groupColon)
    · rw [show Str.index (group ++ 58 :: name) (str ":") = some group.length from hidx]
      dsimp only
      rw [List.take_left, Str.drop_cut, Bool.and_eq_true, decide_eq_true_iff, decide_eq_true_iff,
        and_comm]
      exact (groupColon_inj hg (h.group proc hp).1).symm

theorem inProcessMap_singleton (info : ProcessInfo) (rt : Runtime) (s : Str) (b : Bool) :
    info.inProcessMap rt (AList.singleton s b) = info.isSelected s := by
  let l : List ((_ : Str) × Bool) := [⟨s, b⟩]
  have hrange : rt.range l = l := List.perm_singleton.mp (rt.range_perm l)
  show (if l.length ≤ 0 then true else ((rt.range l).map (·.1)).any info.isSelected) = _
  rw [hrange]
  exact Bool.or_false _

/-- **Selection.**  `FindMatch` returns the processes that the selector names or that are of the
group it names, each once.  `Find` returns the one that it names, and the client selects what
`FindMatch` returns. -/
theorem selects_same (h : Selectable pm c) (heval : DependsEvaluate host c.entry pm.configs)
    (hacyclic : Sweep.Acyclic (DependsOn host c.entry pm.configs)) (rt rt' : Runtime) (s : Str) :
    ∃ procs found, Returns (fun n ↦ pm.findMatch rt host n c s) procs ∧
      Returns (fun n ↦ pm.find rt host n c s) found ∧ procs.Nodup ∧
      ∀ proc, (proc ∈ procs ↔ pm.Listed proc ∧ pm.Selects c s proc) ∧
        (found = some proc ↔ pm.Listed proc ∧ pm.Names c s proc) ∧
        (pm.Listed proc → ((pm.getProcessInfo c proc).inProcessMap rt' (AList.singleton s true) ↔
          proc ∈ procs)) := by
  obtain ⟨procs, hprocs⟩ : ∃ procs, Returns (fun n ↦ pm.findMatch rt host n c s) procs := by
    unfold findMatch
    cases s.index (str ":") with
    | none => exact ⟨_, .pure _⟩
    | some pos =>
        obtain ⟨all, hall⟩ := returns_getAllProcess heval hacyclic rt
        exact hall.map _
  obtain ⟨found, hfound⟩ : ∃ found, Returns (fun n ↦ pm.find rt host n c s) found := hprocs.map _
  refine ⟨procs, found, hprocs, hfound, ?_⟩
  obtain ⟨n, hn⟩ := hprocs
  obtain ⟨m, hm⟩ := hfound
  obtain ⟨hnodup, hmem⟩ := findMatch_spec h (hn n (Nat.le_refl n))
  refine ⟨hnodup, fun proc ↦ ⟨hmem proc, find_spec h (hm m (Nat.le_refl m)) proc, fun hp ↦ ?_⟩⟩
  rw [inProcessMap_singleton, isSelected_getProcessInfo h hp, hmem, and_iff_right hp]

/-- A program of the group `g`. -/
def groupProgram (name : String) : Entry where
  configDir := []
  group := str "g"
  name := str ("program:" ++ name)

/-- The programs `a` and `b` of the group. -/
def groupConfig : Config where
  configFileDir := []
  entries := { RefTable.empty (groupProgram "a") with
    cells := Function.update (fun _ ↦ groupProgram "a") 1 (groupProgram "b") }

def groupManager : Manager where
  procs := (AList.singleton (str "a") 0).insert (str "b") 1
  config := id

theorem lookup_groupManager {k : Str} (h : groupManager.procs.lookup k = some proc) :
    k = str "b" ∧ proc = 1 ∨ k = str "a" ∧ proc = 0 := by
  rcases lookup_insert_cases h with h | h
  · exact .inl h
  · have hmem := AList.mem_lookup_iff.mp h
    obtain ⟨rfl, rfl⟩ := Sigma.mk.inj_iff.mp (List.mem_singleton.mp hmem)
    exact .inr ⟨rfl, rfl⟩

theorem selectable_groupManager : Selectable groupManager groupConfig := by
  refine ⟨fun k proc h ↦ ?_, fun proc hp ↦ ?_, fun proc hp ↦ ?_⟩
  · rcases lookup_groupManager h with ⟨rfl, rfl⟩ | ⟨rfl, rfl⟩ <;> rfl
  · obtain ⟨k, h⟩ := hp
    rcases lookup_groupManager h with ⟨rfl, rfl⟩ | ⟨rfl, rfl⟩ <;> decide
  · obtain ⟨k, h⟩ := hp
    rcases lookup_groupManager h with ⟨rfl, rfl⟩ | ⟨rfl, rfl⟩ <;> decide

theorem selects_same_group : ∃ procs found,
    Returns (fun n ↦ groupManager.findMatch .inOrder Host.bare n groupConfig (str "g:*")) procs ∧
    Returns (fun n ↦ groupManager.find .inOrder Host.bare n groupConfig (str "g:*")) found ∧
    procs.Nodup ∧ ∀ proc,
      (proc ∈ procs ↔ groupManager.Listed proc ∧
        groupManager.Selects groupConfig (str "g:*") proc) ∧
      (found = some proc ↔ groupManager.Listed proc ∧
        groupManager.Names groupConfig (str "g:*") proc) ∧
      (groupManager.Listed proc → ((groupManager.getProcessInfo groupConfig proc).inProcessMap
        .inOrder (AList.singleton (str "g:*") true) ↔ proc ∈ procs)) := by
  have hstring (p : Ptr) (n : Nat) :
      (groupConfig.entry p).getString Host.bare n (str "depends_on") [] = some [] := by
    by_cases hp : p = 1
    · subst hp
      rfl
    · rw [Config.entry, groupConfig]
      simp only [Function.update_of_ne hp]
      rfl
  have hnone (a b : Str) : ¬DependsOn Host.bare groupConfig.entry groupManager.configs a b := by
    rintro ⟨p, -, -, -, n, v, hv, hb⟩
    rw [hstring, Option.some.injEq] at hv
    rw [← hv] at hb
    exact absurd hb (by decide +revert)
  refine selects_same selectable_groupManager (fun p _ _ ↦ ⟨0, [], hstring p 0⟩)
    (fun a ha ↦ ?_) .inOrder .inOrder (str "g:*")
  obtain ⟨b, hb, -⟩ := Relation.TransGen.head'_iff.mp ha
  exact hnone a b hb

end Manager

end Supervisord
