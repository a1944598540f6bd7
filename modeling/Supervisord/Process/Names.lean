import Supervisord.Config.Meaning
import Supervisord.Process.Step

/-!
# The names in the events of a process

`changeStateTo` puts the name of the program and the group into its events that the configuration
entry has for it, `GetGroup` shows the group the entry was loaded with.  With the variables of the
process, they agree where the process is called like its program and the group has no name
(`one_meaning_iff`).
-/

namespace Supervisord.Process

open Go Supervisord.Config

/-- A `ProcessStateEvent`, with the names `changeStateTo` creates it with. -/
structure ProcessStateEvent where
  processName : Str
  groupName : Str
  event : Event

/-- The events of a process with the given configuration entry, oldest first. -/
def Sys.stateEvents (config : Entry) (s : Sys) : List ProcessStateEvent := s.events.map fun event ↦
  { processName := config.getProgramName, groupName := config.getGroupName, event }

/-- `GetGroup`. -/
def getGroup (config : Entry) : Str := config.group

/-- A program is started, up to the first event. -/
theorem exists_event : ∃ s, (machine {}).Reachable s ∧ s.events ≠ [] := by
  obtain ⟨s, hs, hp⟩ := Machine.exists_reachable (m := machine {}) (fun s ↦ !s.events.isEmpty)
    ([.call 0 (.start false), .caller 0 .ok] ++ .replicate 5 (.loop 0 .ok)) (by decide)
  exact ⟨s, hs, fun he ↦ by simp [he] at hp⟩

/-- The events of a program have the group that is shown if and only if that is the empty one. -/
theorem groupName_eq_iff {e : Entry} (hprogram : e.isProgram = true)
    (hgroup : e.getGroupName = []) :
    (∀ cfg : Process.Config, cfg.isProgram = e.isProgram → ∀ p, (machine cfg).Reachable p →
      ∀ event ∈ p.stateEvents e, event.groupName = getGroup e) ↔ e.group = [] := by
  constructor
  · intro h
    obtain ⟨p, hp, hne⟩ := exists_event
    obtain ⟨event, hmem⟩ := List.exists_mem_of_ne_nil _ hne
    have heq := h {} hprogram.symm p hp _ (List.mem_map_of_mem hmem)
    exact (heq.symm.trans hgroup : getGroup e = [])
  · intro h cfg _ p _ event hmem
    obtain ⟨event, -, rfl⟩ := List.mem_map.mp hmem
    exact hgroup.trans h.symm

variable {host : Host} {n i : Nat} {c : Supervisord.Config} {dir : Str} {file : Option Ini}
  {sec : Section} {s s' : Parsing} {e : Entry} {procName cmd : Str}

/-- **One meaning.**  The variables in the command of a program mean what they mean to the entry of
the process, and its events name the group that is shown, if and only if the process is called
like the program and the group has no name. -/
theorem one_meaning_iff (hc : Made host dir c) (h : AtProcess host n c file sec i s)
    (hcmd : StringExpression.eval host (loadEnv host s sec i) n
      (sec.getValueWithDefault (str "command") []) = some (.ok cmd))
    (hproc : StringExpression.eval host (loadEnv host s sec i) n
      ((sec.getValue (str "process_name")).getD (programOf sec)) = some (.ok procName))
    (hs' : parseProgramProcess host n sec s i = some s')
    (he : s'.config.entries.get procName = some e) :
    (SameMeaning host n (loadEnv host s sec i) e ∧
      ∀ cfg : Process.Config, cfg.isProgram = e.isProgram → ∀ p, (machine cfg).Reachable p →
        ∀ event ∈ p.stateEvents e, event.groupName = getGroup e) ↔
      procName = programOf sec ∧ groupAt s sec = [] := by
  have hn : n ≠ 0 := by
    rintro rfl
    cases hcmd
  obtain ⟨hdir, hname, hgroup, hnum⟩ := h.entry hc.here hcmd hproc hs' he
  have hempty := getGroupName_of_name hname
  rw [sameMeaning_iff hn gives_loadEnv hnum, Entry.getProgramName_of_name hname, hempty, hdir,
    groupName_eq_iff (Entry.isProgram_of_name hname) hempty, hgroup, (h.here hc.here).configFileDir]
  constructor
  · rintro ⟨⟨hprogram, hg, -⟩, -⟩
    exact ⟨hprogram.symm, hg⟩
  · rintro ⟨hprogram, hg⟩
    exact ⟨⟨hprogram.symm, hg, rfl⟩, hg⟩

/-- A file with a program. -/
def programSection : Section where
  name := str "program:a"
  keyValues := AList.insert (str "command") (str "x %(group_name)s") ∅

/-- A group without a name. -/
def namelessGroup : Section where
  name := str "group:"
  keyValues := AList.insert (str "programs") (str "a") ∅

theorem atProcess_of_load {pre : Ini} {c₁ : Supervisord.Config} {loaded : List Str}
    (hfile : setProgramDefaultParams (pre ++ [programSection]) = pre ++ [programSection])
    (hpre : parseProgram Host.bare 2 ((newConfig []).grouped (some (pre ++ [programSection]))) pre =
      some (c₁, loaded)) :
    AtProcess Host.bare 2 (newConfig []) (some (pre ++ [programSection])) programSection 1
      { config := c₁, sec := programSection, loadedPrograms := loaded } :=
  ⟨rfl, by decide, pre, [], c₁, loaded, hfile, hpre, rfl⟩

/-- A program in a group without a name. -/
theorem one_meaning_nameless : ∃ (s s' : Parsing) (e : Entry),
    AtProcess Host.bare 2 (newConfig []) (some ([namelessGroup] ++ [programSection]))
      programSection 1 s ∧
    parseProgramProcess Host.bare 2 programSection s 1 = some s' ∧
    s'.config.entries.get (str "a") = some e ∧
    SameMeaning Host.bare 2 (loadEnv Host.bare s programSection 1) e ∧
    ∀ cfg : Process.Config, cfg.isProgram = e.isProgram → ∀ p, (machine cfg).Reachable p →
      ∀ event ∈ p.stateEvents e, event.groupName = getGroup e := by
  have h : AtProcess Host.bare 2 (newConfig []) (some ([namelessGroup] ++ [programSection]))
      programSection 1 _ := atProcess_of_load rfl rfl
  have hiff := one_meaning_iff .new h (Eq.refl (some (Except.ok (str "x "))))
    (Eq.refl (some (Except.ok (str "a")))) rfl rfl
  exact ⟨_, _, _, h, rfl, rfl, hiff.mpr ⟨rfl, rfl⟩⟩

/-- Without a group, a program is in one that is called like it, which its entry does not know. -/
theorem not_one_meaning : ∃ (s s' : Parsing) (e : Entry),
    AtProcess Host.bare 2 (newConfig []) (some ([] ++ [programSection])) programSection 1 s ∧
    StringExpression.eval Host.bare (loadEnv Host.bare s programSection 1) 2
      (programSection.getValueWithDefault (str "command") []) = some (.ok (str "x a")) ∧
    StringExpression.eval Host.bare (loadEnv Host.bare s programSection 1) 2
      ((programSection.getValue (str "process_name")).getD (programOf programSection)) =
        some (.ok (str "a")) ∧
    parseProgramProcess Host.bare 2 programSection s 1 = some s' ∧
    s'.config.entries.get (str "a") = some e ∧
    ¬(SameMeaning Host.bare 2 (loadEnv Host.bare s programSection 1) e ∧
      ∀ cfg : Process.Config, cfg.isProgram = e.isProgram → ∀ p, (machine cfg).Reachable p →
        ∀ event ∈ p.stateEvents e, event.groupName = getGroup e) := by
  have h : AtProcess Host.bare 2 (newConfig []) (some ([] ++ [programSection]))
      programSection 1 _ := atProcess_of_load rfl rfl
  refine ⟨_, _, _, h, rfl, rfl, rfl, rfl, ?_⟩
  rintro ⟨⟨⟨env, he, heq⟩, -⟩, -⟩
  have hgroup := heq (str "group_name") (by decide)
  obtain rfl := Option.some.inj he
  revert hgroup
  decide

end Supervisord.Process
