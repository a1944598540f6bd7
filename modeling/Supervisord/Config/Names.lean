import Supervisord.Config.Listing
import Supervisord.Config.Table

/-!
# Names of entries

An entry is stored under the name of a process and is called `program:` or `eventlistener:` and
that name, or it is stored and called like its section.  This is so for what `Load` writes
(`writes_namedAs`), and hence for all entries; the last write decides what an entry is.
-/

namespace Supervisord

open Go

/-- What an entry stored under `k` may be called. -/
inductive NamedAs (k : Str) : Str → Prop
  | program : NamedAs k (str "program:" ++ k)
  | eventListener : NamedAs k (str "eventlistener:" ++ k)
  | other (hp : k.hasPrefix (str "program:") = false)
      (he : k.hasPrefix (str "eventlistener:") = false) : NamedAs k k

/-- All entries of a table are called what they may be called. -/
def WellNamed (t : Table) : Prop := ∀ k e, t k = some e → NamedAs k e.name

namespace NamedAs

variable {k : Str} {e : Entry}

theorem hasPrefix_program (x : Str) :
    (str "program:" ++ x).hasPrefix (str "program:") = true ∧
      (str "program:" ++ x).hasPrefix (str "eventlistener:") = false ∧
      (str "program:" ++ x).hasPrefix (str "group:") = false :=
  ⟨rfl, rfl, rfl⟩

theorem hasPrefix_eventListener (x : Str) :
    (str "eventlistener:" ++ x).hasPrefix (str "program:") = false ∧
      (str "eventlistener:" ++ x).hasPrefix (str "eventlistener:") = true ∧
      (str "eventlistener:" ++ x).hasPrefix (str "group:") = false :=
  ⟨rfl, rfl, rfl⟩

theorem hasPrefix_group {k : Str} (h : k.hasPrefix (str "group:") = true) :
    k.hasPrefix (str "program:") = false ∧ k.hasPrefix (str "eventlistener:") = false := by
  obtain ⟨x, rfl⟩ := List.isPrefixOf_iff_prefix.mp h
  exact ⟨rfl, rfl⟩

theorem name_of_isProgram (h : NamedAs k e.name) (hp : e.isProgram = true) :
    e.name = str "program:" ++ k := by
  generalize he : e.name = name at h
  cases h with
  | program => rfl
  | eventListener =>
      rw [Entry.isProgram, Entry.isKind, he, (hasPrefix_eventListener k).1] at hp
      cases hp
  | other hk =>
      rw [Entry.isProgram, Entry.isKind, he, hk] at hp
      cases hp

theorem name_of_isEventListener (h : NamedAs k e.name) (hl : e.isEventListener = true) :
    e.name = str "eventlistener:" ++ k := by
  generalize he : e.name = name at h
  cases h with
  | program =>
      rw [Entry.isEventListener, Entry.isKind, he, (hasPrefix_program k).2.1] at hl
      cases hl
  | eventListener => rfl
  | other _ hk =>
      rw [Entry.isEventListener, Entry.isKind, he, hk] at hl
      cases hl

end NamedAs

namespace Entry

variable {e : Entry} {k : Str}

theorem isProgram_of_name (h : e.name = str "program:" ++ k) : e.isProgram = true := by
  rw [isProgram, isKind, h]
  exact (NamedAs.hasPrefix_program k).1

theorem isEventListener_of_name (h : e.name = str "eventlistener:" ++ k) :
    e.isEventListener = true := by
  rw [isEventListener, isKind, h]
  exact (NamedAs.hasPrefix_eventListener k).2.1

theorem getProgramName_of_name (h : e.name = str "program:" ++ k) : e.getProgramName = k := by
  have hp : e.isKind (str "program:") = true := isProgram_of_name h
  rw [getProgramName, nameOf, hp, if_pos rfl, h, List.drop_left]

theorem getEventListenerName_of_name (h : e.name = str "eventlistener:" ++ k) :
    e.getEventListenerName = k := by
  have hl : e.isKind (str "eventlistener:") = true := isEventListener_of_name h
  rw [getEventListenerName, nameOf, hl, if_pos rfl, h, List.drop_left]

end Entry

namespace Config

variable {host : Host} {n : Nat} {c : Config} {file : Option Ini} {ini : Ini}
  {ps : List (Str × Patch)} {w : Str × Patch} {dir k : Str} {groupOf : Str → Str} {t : Table}
  {e : Entry}

/-! ## What is written -/

theorem name_of_mem_groupWrites (h : w ∈ groupWrites ini) :
    w.2.name = some w.1 ∧ w.1.hasPrefix (str "group:") = true := by
  obtain ⟨sec, hsec, rfl⟩ := List.mem_map.mp h
  exact ⟨rfl, (List.mem_filter.mp hsec).2⟩

theorem name_of_mem_otherWrites (h : w ∈ otherWrites ini) :
    w.2.name = some w.1 ∧ w.1.hasPrefix (str "group:") = false ∧
      w.1.hasPrefix (str "program:") = false ∧ w.1.hasPrefix (str "eventlistener:") = false := by
  obtain ⟨sec, hsec, rfl⟩ := List.mem_map.mp h
  have hother := (List.mem_filter.mp hsec).2
  simp only [isOther, Bool.and_eq_true, Bool.not_eq_true'] at hother
  exact ⟨rfl, hother.1.1, hother.1.2, hother.2⟩

/-- The section and the process a write of `parseProgram` is for. -/
theorem exists_of_mem_programWrites (hps : programWrites host n dir groupOf ini = some ps)
    (hw : w ∈ ps) :
    ∃ sec ∈ ini, ∃ kind, isProgramOrEventListener sec = some kind ∧
      ∃ i vs, processWrites host n dir groupOf kind sec i = some vs ∧ w ∈ vs := by
  obtain ⟨sec, hsec, vs, hvs, hw⟩ := exists_of_mem_collect hps hw
  unfold sectionWrites at hvs
  cases hkind : isProgramOrEventListener sec with
  | none =>
      rw [hkind] at hvs
      cases hvs
      cases hw
  | some kind =>
      rw [hkind] at hvs
      obtain ⟨i, -, us, hus, hw⟩ := exists_of_mem_collect hvs hw
      exact ⟨sec, hsec, kind, hkind, i, us, hus, hw⟩

theorem kind_eq {sec : Section} {kind : Str} (h : isProgramOrEventListener sec = some kind) :
    (kind = str "program:" ∨ kind = str "eventlistener:") ∧ sec.name.hasPrefix kind = true := by
  unfold isProgramOrEventListener at h
  split at h
  · rename_i hp
    cases h
    exact ⟨.inl rfl, hp⟩
  · split at h
    · rename_i he
      cases h
      exact ⟨.inr rfl, he⟩
    · cases h

/-- The writes for a process. -/
theorem mem_processWrites {kind : Str} {sec : Section} {i : Nat} {vs : List (Str × Patch)}
    (h : processWrites host n dir groupOf kind sec i = some vs) (hw : w ∈ vs) :
    ∃ cmd, vs = [w] ∧ w.2 = {
      name := some (kind ++ w.1)
      group := some (groupOf (sec.name.drop kind.length))
      keyValues := (processSection sec cmd w.1 i).patch.keyValues } := by
  obtain ⟨r, -, h⟩ := Option.bind_eq_some_iff.mp h
  cases r with
  | error e =>
      cases h
      cases hw
  | ok cmd =>
      obtain ⟨r', -, rfl⟩ := Option.map_eq_some_iff.mp h
      cases r' with
      | error e => cases hw
      | ok procName =>
          obtain rfl := List.mem_singleton.mp hw
          exact ⟨cmd, rfl, rfl⟩

theorem name_of_mem_programWrites (hps : programWrites host n dir groupOf ini = some ps)
    (hw : w ∈ ps) :
    w.2.name = some (str "program:" ++ w.1) ∨ w.2.name = some (str "eventlistener:" ++ w.1) := by
  obtain ⟨sec, -, kind, hkind, i, vs, hvs, hw⟩ := exists_of_mem_programWrites hps hw
  obtain ⟨cmd, -, hpatch⟩ := mem_processWrites hvs hw
  rw [hpatch]
  rcases (kind_eq hkind).1 with rfl | rfl
  · exact .inl rfl
  · exact .inr rfl

/-- Every write of `Load` gives the entry a name it may have. -/
theorem writes_namedAs (hps : c.processes host n file = some ps) (hw : w ∈ loadWrites file ps) :
    ∃ name, w.2.name = some name ∧ NamedAs w.1 name := by
  rcases List.mem_append.mp hw with hw | hw
  · rcases List.mem_append.mp hw with hw | hw
    · obtain ⟨hname, hgroup⟩ := name_of_mem_groupWrites hw
      obtain ⟨hp, he⟩ := NamedAs.hasPrefix_group hgroup
      exact ⟨_, hname, .other hp he⟩
    · rcases name_of_mem_programWrites hps hw with hname | hname
      · exact ⟨_, hname, .program⟩
      · exact ⟨_, hname, .eventListener⟩
  · obtain ⟨hname, -, hp, he⟩ := name_of_mem_otherWrites hw
    exact ⟨_, hname, .other hp he⟩

theorem wellNamed_writes (hps : c.processes host n file = some ps) (ht : WellNamed t) :
    WellNamed (Table.writes dir t (loadWrites file ps)) := by
  intro k e he
  refine Write.writes_invariant (P := fun k (e : Entry) ↦ NamedAs k e.name) ht
    (fun w hw e _ ↦ ?_) he
  obtain ⟨name, hname, hnamed⟩ := writes_namedAs hps hw
  rw [Patch.apply, hname]
  exact hnamed

theorem wellNamed_fresh (hps : (newConfig dir).processes host n file = some ps)
    (hload : Loads (newConfig dir) (loadWrites file ps) c) : WellNamed c.entries.get := by
  rw [hload.get]
  exact wellNamed_writes hps fun k e he ↦ by cases he

/-- What `GetProgramNames` returns are the keys of the programs. -/
theorem mem_getProgramNames {rt : Runtime} {names : List Str} (hwell : WellNamed c.entries.get)
    (h : c.getProgramNames rt host n = some names) :
    k ∈ names ↔ ∃ e, c.entries.get k = some e ∧ e.isProgram = true := by
  rw [(getProgramNames_perm h).mem_iff, List.mem_map]
  constructor
  · rintro ⟨p, hp, rfl⟩
    obtain ⟨hp, hprog⟩ := List.mem_filter.mp hp
    obtain ⟨k, hk⟩ := mem_pointers.mp hp
    have he := RefTable.get_of_lookup hk
    have hname := (hwell k _ he).name_of_isProgram hprog
    exact ⟨_, (Entry.getProgramName_of_name hname).symm ▸ he, hprog⟩
  · rintro ⟨e, he, hprog⟩
    have hname := (hwell k e he).name_of_isProgram hprog
    obtain ⟨p, hp, rfl⟩ := RefTable.get_eq_some.mp he
    exact ⟨p, List.mem_filter.mpr ⟨mem_pointers.mpr ⟨k, hp⟩, hprog⟩,
      Entry.getProgramName_of_name hname⟩

/-! ## The last write -/

/-- A process of the file is loaded under `k`. -/
def LoadsProcess (ps : List (Str × Patch)) (k : Str) : Prop := k ∈ ps.map (·.1)

/-- A section of the file that is neither of a program nor of an event listener is called `k`. -/
def HasSection (file : Option Ini) (k : Str) : Prop :=
  k ∈ (groupWrites (setProgramDefaultParams (.loadFile file))).map (·.1) ∨
    k ∈ (otherWrites (setProgramDefaultParams (.loadFile file))).map (·.1)

theorem mem_loadWrites :
    k ∈ (loadWrites file ps).map (·.1) ↔ LoadsProcess ps k ∨ HasSection file k := by
  simp only [loadWrites, List.map_append, List.mem_append, LoadsProcess, HasSection]
  tauto

/-- An entry is called what the last write said, or it is an entry there has been before. -/
theorem name_of_writes (hps : c.processes host n file = some ps)
    (he : Table.writes dir t (loadWrites file ps) k = some e) :
    (∃ w ∈ loadWrites file ps, w.1 = k ∧ w.2.name = some e.name) ∨
      (¬ LoadsProcess ps k ∧ ¬ HasSection file k ∧ t k = some e) := by
  by_cases hk : k ∈ (loadWrites file ps).map (·.1)
  · left
    rw [Table.writes, Write.writes_apply, if_neg (mt Write.changes_eq_nil.mp (not_not.mpr hk)),
      Option.some.injEq] at he
    obtain ⟨v, vs, hvs⟩ : ∃ v vs, Write.changes (loadWrites file ps) k = vs ++ [v] := by
      have hne : Write.changes (loadWrites file ps) k ≠ [] :=
        mt Write.changes_eq_nil.mp (not_not.mpr hk)
      exact ⟨_, _, (List.dropLast_append_getLast hne).symm⟩
    rw [hvs, List.foldl_append, List.foldl_cons, List.foldl_nil] at he
    have hv : v ∈ Write.changes (loadWrites file ps) k :=
      hvs.symm ▸ List.mem_append_right vs List.mem_cons_self
    obtain ⟨⟨k', v'⟩, hw, rfl⟩ := List.mem_map.mp hv
    obtain ⟨hw, hk'⟩ := List.mem_filter.mp hw
    obtain ⟨name, hname, -⟩ := writes_namedAs hps hw
    refine ⟨(k', v'), hw, of_decide_eq_true hk', ?_⟩
    rw [← he, Patch.apply, hname]
    rfl
  · right
    have hnot := not_or.mp (mt mem_loadWrites.mpr hk)
    refine ⟨hnot.1, hnot.2, ?_⟩
    rwa [Table.writes, Write.writes_of_notMem hk] at he

/-- What makes an entry one of a program or an event listener is that a process was loaded. -/
theorem loadsProcess_of_name (hw : w ∈ loadWrites file ps)
    (hname : w.2.name = some e.name) (he : e.isProgram = true ∨ e.isEventListener = true) :
    w ∈ ps := by
  have not_kind : ∀ {k : Str}, k.hasPrefix (str "program:") = false →
      k.hasPrefix (str "eventlistener:") = false → some k ≠ some e.name := by
    intro k hp hl hk
    rw [Option.some.injEq] at hk
    subst hk
    rcases he with he | he
    · exact Bool.false_ne_true (hp.symm.trans he)
    · exact Bool.false_ne_true (hl.symm.trans he)
  rcases List.mem_append.mp hw with hw | hw
  · rcases List.mem_append.mp hw with hw | hw
    · obtain ⟨hk, hgroup⟩ := name_of_mem_groupWrites hw
      obtain ⟨hp, hl⟩ := NamedAs.hasPrefix_group hgroup
      exact absurd (hk.symm.trans hname) (not_kind hp hl)
    · exact hw
  · obtain ⟨hk, -, hp, hl⟩ := name_of_mem_otherWrites hw
    exact absurd (hk.symm.trans hname) (not_kind hp hl)

end Config

end Supervisord
