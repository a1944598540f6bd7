import Supervisord.Config.Names

/-!
# Loading again

`Load` writes to the entries there are.  What the new document does not mention is not taken away:
keys of a section that has lost them, event listeners and sections that are gone.  Only the
programs that are not loaded any more are removed, by the caller.  So what is held after a reload
is what a new `Config` would hold if the new document writes over everything the old one left
(`Covers`), and, for the usual documents, only then (`reload_fresh`).
-/

namespace Supervisord

open Go

namespace Config

variable {host : Host} {rt : Runtime} {n : Nat} {c c' c₁ c₂ old new : Config} {sec : Section}
  {ini : Ini} {a b : Option Ini} {ps : List (Str × Patch)} {ws : List Patch} {t : Table}
  {dir k : Str} {e : Entry} {l prev loaded : List Str} {r : Except Str (List Str)}

/-- `Load`, and then `RemoveProgram` for the programs there have been that it does not return. -/
def reload (rt : Runtime) (host : Host) (n : Nat) (c : Config) (file : Option Ini) :
    Option Config :=
  (c.getProgramNames rt host n).bind fun prevPrograms ↦ (c.load host n file).map fun
    | (c, .ok loadedPrograms) => (Util.sub prevPrograms loadedPrograms).foldl removeProgram c
    | (c, .error _) => c

/-! ## Groups -/

/-- The programs of a group, as its entry has them. -/
def programsOf (t : Table) (k : Str) : Option Str :=
  (t k).bind fun e ↦ e.keyValues (str "programs")

/-- `c₁` has the groups of `c₂`, and where an entry of `c₂` has no `programs`, that of `c₁` has
those of `t`. -/
structure SameGroups (t : Table) (c₁ c₂ : Config) : Prop where
  programGroup : c₁.programGroup = c₂.programGroup
  programs : ∀ k, programsOf c₁.entries.get k =
    (programsOf c₂.entries.get k).or (programsOf t k)

/-- The entry of a group, once its section is parsed. -/
theorem programGroup_parseGroupSection (c : Config) (h : sec.name.hasPrefix (str "group:")) :
    ∃ e : Entry, e.name = sec.name ∧
      e.keyValues (str "programs") = ((sec.getValue (str "programs")).map Str.trimSpace).or
        (programsOf c.entries.get sec.name) ∧
      (c.parseGroupSection sec).programGroup =
        e.getPrograms.foldl (·.add e.getGroupName ·) c.programGroup := by
  refine ⟨sec.patch.apply ((c.entries.get sec.name).getD (newEntry c.configFileDir)), rfl, ?_, ?_⟩
  · simp only [Patch.apply, Section.patch, programsOf]
    cases c.entries.get sec.name <;> rfl
  · have hentry : ((c.createEntry sec.name c.configFileDir).1.modify
        (c.createEntry sec.name c.configFileDir).2 (·.parse sec)).entry
          (c.createEntry sec.name c.configFileDir).2 =
        sec.patch.apply ((c.entries.get sec.name).getD (newEntry c.configFileDir)) := by
      rw [← Entry.parse_eq, ← RefTable.cells_create]
      exact Function.update_self _ _ _
    rw [parseGroupSection, if_pos h]
    simp only [addPrograms, hentry]
    rfl

theorem programsOf_write {patch : Patch} {k' : Str} :
    programsOf (Table.writes dir t [(k, patch)]) k' =
      if k' = k then (patch.keyValues (str "programs")).or (programsOf t k)
      else programsOf t k' := by
  rw [Table.writes, Write.writes, List.foldl_cons, List.foldl_nil, Write.write]
  by_cases h : k' = k
  · subst h
    rw [if_pos rfl, programsOf, Function.update_self]
    cases ht : t k' <;> simp [programsOf, ht, Patch.apply, newEntry]
  · rw [if_neg h, programsOf, Function.update_of_ne h, programsOf]

/-- A section that has `programs` itself, or has none in the table, gives both the same group. -/
theorem SameGroups.parseGroupSection (h : SameGroups t c₁ c₂)
    (hsec : sec.name.hasPrefix (str "group:") → (programsOf t sec.name).isSome →
      (sec.getValue (str "programs")).isSome) :
    SameGroups t (c₁.parseGroupSection sec) (c₂.parseGroupSection sec) := by
  by_cases hg : sec.name.hasPrefix (str "group:") = true
  · obtain ⟨e₁, hname₁, hval₁, hgroup₁⟩ := programGroup_parseGroupSection c₁ hg
    obtain ⟨e₂, hname₂, hval₂, hgroup₂⟩ := programGroup_parseGroupSection c₂ hg
    have hval : e₁.keyValues (str "programs") = e₂.keyValues (str "programs") := by
      rw [hval₁, hval₂, h.programs]
      cases hv : sec.getValue (str "programs") with
      | some v => rfl
      | none =>
          have hnone : programsOf t sec.name = none := by
            rw [← Option.not_isSome_iff_eq_none]
            intro ht
            have hsome := hsec hg ht
            rw [hv] at hsome
            cases hsome
          rw [hnone, Option.or_none]
    have hprograms : e₁.getPrograms = e₂.getPrograms := by
      rw [Entry.getPrograms, Entry.getPrograms, Entry.isGroup, Entry.isGroup, Entry.isKind,
        Entry.isKind, hname₁, hname₂, Entry.getStringArray, Entry.getStringArray, hval]
    have hname : e₁.getGroupName = e₂.getGroupName := by
      rw [Entry.getGroupName, Entry.getGroupName, Entry.nameOf, Entry.nameOf, Entry.isKind,
        Entry.isKind, hname₁, hname₂]
    refine ⟨?_, fun k ↦ ?_⟩
    · rw [hgroup₁, hgroup₂, hprograms, hname, h.programGroup]
    · have hwrites : groupWrites [sec] = [(sec.name, sec.patch)] := by
        simp [groupWrites, hg]
      rw [(loads_parseGroupSection c₁ sec).get, (loads_parseGroupSection c₂ sec).get, hwrites,
        programsOf_write, programsOf_write]
      split
      · rename_i hk
        rw [h.programs, ← hk, Option.or_assoc]
      · exact h.programs k
  · rw [Config.parseGroupSection, Config.parseGroupSection, if_neg hg, if_neg hg]
    exact h

theorem SameGroups.parseGroup (h : SameGroups t c₁ c₂)
    (hini : ∀ sec ∈ ini, sec.name.hasPrefix (str "group:") →
      (programsOf t sec.name).isSome → (sec.getValue (str "programs")).isSome) :
    SameGroups t (c₁.parseGroup ini) (c₂.parseGroup ini) := by
  induction ini generalizing c₁ c₂ with
  | nil => exact h
  | cons sec ini ih =>
      obtain ⟨hsec, hini⟩ := List.forall_mem_cons.mp hini
      exact ih (h.parseGroupSection hsec) hini

/-! ## What a reload leaves -/

/-- What `new` has loaded from `file` leaves nothing of `old`. -/
structure Covers (old new : Config) (loaded : List Str) (file : Option Ini) : Prop where
  /-- An entry that is not loaded as a process goes exactly if it is one of a program. -/
  removed : ∀ k e, old.entries.get k = some e → k ∉ loaded →
    (e.isProgram = true ↔ new.entries.get k = none)
  /-- No key of an entry is lost. -/
  keys : ∀ k e e', old.entries.get k = some e → new.entries.get k = some e' →
    ∀ key, (e.keyValues key).isSome → (e'.keyValues key).isSome
  /-- An entry that is not loaded as a process has not been in a group. -/
  group : ∀ k e e', old.entries.get k = some e → new.entries.get k = some e' → k ∉ loaded →
    e.group = []
  /-- No group has lost its `programs`. -/
  programs : ∀ sec ∈ setProgramDefaultParams (.loadFile file), sec.name.hasPrefix (str "group:") →
    (programsOf old.entries.get sec.name).isSome → (sec.getValue (str "programs")).isSome

/-- The `programs` of a group are those of its own section. -/
def GroupsOwn (new : Config) (file : Option Ini) : Prop :=
  ∀ sec ∈ setProgramDefaultParams (.loadFile file), sec.name.hasPrefix (str "group:") →
    (programsOf new.entries.get sec.name).isSome → (sec.getValue (str "programs")).isSome

/-! ## Entries that are written over -/

/-- Some patch gives what all of them together give. -/
theorem isSome_all {f : Patch → Option Str} (hnil : f {} = none)
    (hf : ∀ v w : Patch, f (v.andThen w) = (f w).or (f v)) :
    (f (Patch.all ws)).isSome ↔ ∃ w ∈ ws, (f w).isSome := by
  have fold : ∀ v : Patch, (f (ws.foldl Patch.andThen v)).isSome ↔
      (f v).isSome ∨ ∃ w ∈ ws, (f w).isSome := by
    induction ws with
    | nil => simp
    | cons w ws ih =>
        intro v
        rw [List.foldl_cons, ih, hf, Option.isSome_or, Bool.or_eq_true, List.exists_mem_cons_iff]
        tauto
  refine (fold {}).trans (or_iff_right ?_)
  rw [hnil]
  exact Bool.false_ne_true

/-- A patch makes an entry what it makes a new one if it replaces all that the entry has. -/
theorem apply_eq_apply_newEntry {w : Patch} (hname : w.name.isSome) (hdir : e.configDir = dir) :
    w.apply e = w.apply (newEntry dir) ↔
      (∀ key, (e.keyValues key).isSome → ((w.apply (newEntry dir)).keyValues key).isSome) ∧
        (w.group.isSome = false → e.group = []) := by
  obtain ⟨name, hname⟩ := Option.isSome_iff_exists.mp hname
  simp only [Patch.apply, newEntry, hname, Option.getD_some, Option.or_none, Entry.mk.injEq, hdir,
    true_and]
  rw [and_comm]
  refine and_congr ⟨fun h key hkey ↦ ?_, fun h ↦ ?_⟩ ?_
  · rw [← congrFun h key, Option.isSome_or, hkey, Bool.or_true]
  · funext key
    cases hw : w.keyValues key with
    | some v => rfl
    | none =>
        have hkey := mt (h key)
        rw [hw] at hkey
        simpa using hkey
  · cases w.group <;> simp

/-- The patches under a key, as one. -/
theorem writes_eq_all {ws : List (Str × Patch)} (hk : k ∈ ws.map (·.1)) :
    Table.writes dir t ws k =
      some ((Patch.all (Write.changes ws k)).apply ((t k).getD (newEntry dir))) := by
  rw [Table.writes, Write.writes_apply, if_neg (mt Write.changes_eq_nil.mp (not_not.mpr hk)),
    Patch.apply_all]

theorem isSome_group_changes {file : Option Ini} (hps : c.processes host n file = some ps) :
    (Patch.all (Write.changes (loadWrites file ps) k)).group.isSome ↔ k ∈ ps.map (·.1) := by
  refine (isSome_all (f := Patch.group) rfl fun _ _ ↦ rfl).trans ?_
  constructor
  · rintro ⟨w, hw, hgroup⟩
    obtain ⟨w, hfilter, rfl⟩ := List.mem_map.mp hw
    obtain ⟨hw, hk⟩ := List.mem_filter.mp hfilter
    rw [decide_eq_true_eq] at hk
    rcases List.mem_append.mp hw with hw | hw
    · rcases List.mem_append.mp hw with hw | hw
      · obtain ⟨sec, -, hsec⟩ := List.mem_map.mp hw
        cases hsec
        cases hgroup
      · exact List.mem_map.mpr ⟨_, hw, hk⟩
    · obtain ⟨sec, -, hsec⟩ := List.mem_map.mp hw
      cases hsec
      cases hgroup
  · intro hk
    obtain ⟨w, hw, rfl⟩ := List.mem_map.mp hk
    obtain ⟨sec, -, kind, -, i, vs, hvs, hmem⟩ := exists_of_mem_programWrites hps hw
    obtain ⟨cmd, -, hpatch⟩ := mem_processWrites hvs hmem
    refine ⟨w.2, List.mem_map.mpr ⟨w, List.mem_filter.mpr ⟨?_, by simp⟩, rfl⟩, ?_⟩
    · exact List.mem_append_left _ (List.mem_append_right _ hw)
    · rw [hpatch]
      rfl

theorem isSome_name_changes {file : Option Ini} (hps : c.processes host n file = some ps)
    (hk : k ∈ (loadWrites file ps).map (·.1)) :
    (Patch.all (Write.changes (loadWrites file ps) k)).name.isSome := by
  obtain ⟨w, hw, rfl⟩ := List.mem_map.mp hk
  obtain ⟨name, hname, -⟩ := writes_namedAs hps hw
  refine (isSome_all (f := Patch.name) rfl fun _ _ ↦ rfl).mpr
    ⟨w.2, List.mem_map.mpr ⟨w, List.mem_filter.mpr ⟨hw, by simp⟩, rfl⟩, ?_⟩
  rw [hname]
  rfl

theorem configDir_writes {ws : List (Str × Patch)}
    (ht : ∀ k e, t k = some e → e.configDir = dir) (h : Table.writes dir t ws k = some e) :
    e.configDir = dir :=
  Write.writes_invariant (P := fun _ (e : Entry) ↦ e.configDir = dir) ht
    (fun _ _ _ h ↦ h.elim (· ▸ rfl) id) h

/-- What `Covers` says of a key, but for the groups. -/
def CoversAt (old new : Table) (loaded : List Str) (k : Str) : Prop :=
  ∀ e, old k = some e → (k ∉ loaded → (e.isProgram = true ↔ new k = none)) ∧
    ∀ e', new k = some e' → (∀ key, (e.keyValues key).isSome → (e'.keyValues key).isSome) ∧
      (k ∉ loaded → e.group = [])

/-- With the same writes, a reload comes to the same under a key if these write over everything
that was there. -/
theorem reload_apply {file : Option Ini} (hps : c.processes host n file = some ps)
    (ht : ∀ k e, t k = some e → e.configDir = dir)
    (hprev : k ∈ prev ↔ ∃ e, t k = some e ∧ e.isProgram = true) :
    (if k ∈ Util.sub prev (ps.map (·.1)) then none
      else Table.writes dir t (loadWrites file ps) k) =
        Table.writes dir (fun _ ↦ none) (loadWrites file ps) k ↔
      CoversAt t (Table.writes dir (fun _ ↦ none) (loadWrites file ps)) (ps.map (·.1)) k := by
  cases he : t k with
  | none =>
      have hsub : k ∉ Util.sub prev (ps.map (·.1)) := by
        simp [Util.mem_sub, hprev, he]
      rw [if_neg hsub]
      refine iff_of_true ?_ fun e h ↦ by simp [he] at h
      rw [Table.writes, Table.writes, Write.writes_apply, Write.writes_apply, he]
  | some e =>
      have hsub : k ∈ Util.sub prev (ps.map (·.1)) ↔ e.isProgram = true ∧ k ∉ ps.map (·.1) := by
        simp [Util.mem_sub, hprev, he]
      simp only [CoversAt, he, Option.some.injEq, forall_eq']
      by_cases hk : k ∈ (loadWrites file ps).map (·.1)
      · rw [writes_eq_all hk, writes_eq_all hk, he]
        simp only [Option.getD_some, Option.getD_none, reduceCtorEq, iff_false,
          Option.some.injEq, forall_eq']
        by_cases hs : k ∈ Util.sub prev (ps.map (·.1))
        · obtain ⟨hprog, hloaded⟩ := hsub.mp hs
          rw [if_pos hs]
          exact iff_of_false (by simp) fun h ↦ h.1 hloaded hprog
        · rw [if_neg hs, Option.some.injEq,
            apply_eq_apply_newEntry (isSome_name_changes hps hk) (ht k e he),
            Bool.eq_false_iff, Ne, isSome_group_changes hps]
          exact ⟨fun h ↦ ⟨fun hl hp ↦ hs (hsub.mpr ⟨hp, hl⟩), h⟩, fun h ↦ h.2⟩
      · have hloaded : k ∉ ps.map (·.1) := fun h ↦ hk (mem_loadWrites.mpr (.inl h))
        rw [Table.writes, Table.writes, Write.writes_of_notMem hk, Write.writes_of_notMem hk, he]
        simp [hsub, hloaded]

/-! ## Reloading -/

section Reload

variable (hold : (newConfig dir).load host n a = some (old, r))
  (hnew : (newConfig dir).load host n b = some (new, .ok loaded))
  (hprev : old.getProgramNames rt host n = some prev)

include hold in
/-- Where the groups keep their `programs`, the processes of a document are the same. -/
theorem processes_eq_fresh (hprograms : ∀ sec ∈ setProgramDefaultParams (.loadFile b),
      sec.name.hasPrefix (str "group:") → (programsOf old.entries.get sec.name).isSome →
        (sec.getValue (str "programs")).isSome) :
    old.processes host n b = (newConfig dir).processes host n b := by
  obtain ⟨ps, hps, hloads, -⟩ := load_eq_some hold
  have hsame : SameGroups old.entries.get (old.grouped b) ((newConfig dir).grouped b) :=
    SameGroups.parseGroup ⟨rfl, fun k ↦ rfl⟩ hprograms
  rw [processes, processes, hloads.dir]
  congr 1
  funext x
  rw [groupOf, groupOf, hsame.programGroup]

theorem reload_eq_some : old.reload rt host n b = some c ↔ ∃ prev ps,
    old.getProgramNames rt host n = some prev ∧ old.processes host n b = some ps ∧
      ∃ c', old.load host n b = some (c', .ok (ps.map (·.1))) ∧
        Loads old (loadWrites b ps) c' ∧
        c = (Util.sub prev (ps.map (·.1))).foldl removeProgram c' := by
  simp only [reload, Option.bind_eq_some_iff, Option.map_eq_some_iff]
  constructor
  · rintro ⟨prev, hprev, ⟨c', r⟩, hload, hc⟩
    obtain ⟨ps, hps, hloads, rfl⟩ := load_eq_some hload
    exact ⟨prev, ps, hprev, hps, c', hload, hloads, hc.symm⟩
  · rintro ⟨prev, ps, hprev, -, c', hload, -, rfl⟩
    exact ⟨prev, hprev, _, hload, rfl⟩

include hold hnew hprev in
/-- A reload that loads the same processes comes to the same where all is written over. -/
theorem reload_of_processes_eq
    (hps : old.processes host n b = (newConfig dir).processes host n b) :
    ∃ c, old.reload rt host n b = some c ∧ ∀ k, c.entries.get k = new.entries.get k ↔
      CoversAt old.entries.get new.entries.get loaded k := by
  obtain ⟨psₐ, hpsₐ, holds, -⟩ := load_eq_some hold
  obtain ⟨ps, hfresh, hnews, hloaded⟩ := load_eq_some hnew
  cases hloaded
  rw [hfresh] at hps
  obtain ⟨c', hload, hloads⟩ := load_of_processes hps
  refine ⟨_, reload_eq_some.mpr ⟨prev, ps, hprev, hps, c', hload, hloads, rfl⟩, fun k ↦ ?_⟩
  have hdir : ∀ k e, old.entries.get k = some e → e.configDir = dir := fun k e he ↦ by
    rw [holds.get] at he
    exact configDir_writes (fun k e he ↦ by cases he) he
  have hnewget : new.entries.get = Table.writes dir (fun _ ↦ none) (loadWrites b ps) := hnews.get
  have hdir' : old.configFileDir = dir := holds.dir
  rw [get_foldl_removeProgram, hloads.get, hnewget, hdir']
  exact reload_apply hps hdir (mem_getProgramNames (wellNamed_fresh hpsₐ holds) hprev)

theorem isSome_keyValues_writes {ws : List (Str × Patch)} {e' : Entry} {key : Str}
    (he : t k = some e) (he' : Table.writes dir t ws k = some e')
    (hkey : (e.keyValues key).isSome) : (e'.keyValues key).isSome := by
  by_cases hk : k ∈ ws.map (·.1)
  · rw [writes_eq_all hk, he, Option.some.injEq] at he'
    rw [← he', Patch.apply, Option.isSome_or, Option.getD_some, hkey, Bool.or_true]
  · rw [Table.writes, Write.writes_of_notMem hk, he, Option.some.injEq] at he'
    exact he' ▸ hkey

include hold hnew in
/-- A reload that comes to the same has found `programs` in all sections of groups. -/
theorem programs_of_reload (hown : GroupsOwn new b) (hreload : old.reload rt host n b = some c)
    (hget : c.entries.get = new.entries.get) : ∀ sec ∈ setProgramDefaultParams (.loadFile b),
      sec.name.hasPrefix (str "group:") → (programsOf old.entries.get sec.name).isSome →
        (sec.getValue (str "programs")).isSome := by
  intro sec hsec hgroup hprograms
  refine hown sec hsec hgroup ?_
  obtain ⟨psₐ, -, holds, -⟩ := load_eq_some hold
  obtain ⟨ps, -, hnews, -⟩ := load_eq_some hnew
  obtain ⟨prev, ps', -, -, c', -, hloads, rfl⟩ := reload_eq_some.mp hreload
  -- the entry of the group is there before and after
  have hmem : sec.name ∈ (loadWrites b ps).map (·.1) := by
    refine mem_loadWrites.mpr (.inr (.inl ?_))
    exact List.mem_map.mpr ⟨_, List.mem_map_of_mem (List.mem_filter.mpr ⟨hsec, hgroup⟩), rfl⟩
  have hsome : (new.entries.get sec.name).isSome := by
    rw [hnews.get]
    exact Write.isSome_writes.mpr (.inr hmem)
  obtain ⟨e', he'⟩ := Option.isSome_iff_exists.mp hsome
  obtain ⟨v, hv⟩ := Option.isSome_iff_exists.mp hprograms
  obtain ⟨e, he, hv⟩ := Option.bind_eq_some_iff.mp hv
  -- and it has kept its keys
  have hafter := congrFun hget sec.name
  rw [get_foldl_removeProgram, he'] at hafter
  split at hafter
  · cases hafter
  · rw [hloads.get] at hafter
    rw [programsOf, he', Option.bind_some]
    exact isSome_keyValues_writes he hafter (by rw [hv]; rfl)

theorem covers_iff : Covers old new loaded b ↔
    (∀ k, CoversAt old.entries.get new.entries.get loaded k) ∧
      ∀ sec ∈ setProgramDefaultParams (.loadFile b), sec.name.hasPrefix (str "group:") →
        (programsOf old.entries.get sec.name).isSome → (sec.getValue (str "programs")).isSome := by
  constructor
  · intro h
    refine ⟨fun k e he ↦ ⟨h.removed k e he, fun e' he' ↦ ⟨h.keys k e e' he he', ?_⟩⟩, h.programs⟩
    exact h.group k e e' he he'
  · rintro ⟨h, hprograms⟩
    exact ⟨fun k e he ↦ (h k e he).1, fun k e e' he he' ↦ ((h k e he).2 e' he').1,
      fun k e e' he he' ↦ ((h k e he).2 e' he').2, hprograms⟩

include hold hnew hprev in
/-- **Reloading.**  After a reload the entries are those a new `Config` loads, if these write over
all that was there before.  Nothing else will do, if no other section writes the `programs` of a
group. -/
theorem reload_fresh :
    (Covers old new loaded b →
      ∃ c, old.reload rt host n b = some c ∧ c.entries.get = new.entries.get) ∧
    (GroupsOwn new b →
      (∃ c, old.reload rt host n b = some c ∧ c.entries.get = new.entries.get) →
        Covers old new loaded b) := by
  constructor
  · intro h
    obtain ⟨hcovers, hprograms⟩ := covers_iff.mp h
    obtain ⟨c, hreload, hget⟩ := reload_of_processes_eq hold hnew hprev
      (processes_eq_fresh hold hprograms)
    exact ⟨c, hreload, funext fun k ↦ (hget k).mpr (hcovers k)⟩
  · rintro hown ⟨c, hreload, hget⟩
    have hprograms := programs_of_reload hold hnew hown hreload hget
    obtain ⟨c', hreload', hget'⟩ := reload_of_processes_eq hold hnew hprev
      (processes_eq_fresh hold hprograms)
    rw [hreload, Option.some.injEq] at hreload'
    subst hreload'
    exact covers_iff.mpr ⟨fun k ↦ (hget' k).mp (congrFun hget k), hprograms⟩

end Reload

/-- The program `x`, which is not started automatically. -/
def manualProgram : Ini :=
  [(sectionOf "program:x" "command" "/bin/cat").add (str "autostart") (str "false")]

/-- The program `x`, started automatically as programs are by default. -/
def automaticProgram : Ini := [sectionOf "program:x" "command" "/bin/cat"]

/-- The statement for a program that gets a key. -/
theorem reload_fresh_manual : ∃ old new loaded,
    (newConfig (str "/")).load Host.bare 2 (some automaticProgram) = some old ∧
    (newConfig (str "/")).load Host.bare 2 (some manualProgram) = some (new, .ok loaded) ∧
    (Covers old.1 new loaded (some manualProgram) →
      ∃ c, old.1.reload Runtime.inOrder Host.bare 2 (some manualProgram) = some c ∧
        c.entries.get = new.entries.get) ∧
    (GroupsOwn new (some manualProgram) →
      (∃ c, old.1.reload Runtime.inOrder Host.bare 2 (some manualProgram) = some c ∧
        c.entries.get = new.entries.get) →
      Covers old.1 new loaded (some manualProgram)) := by
  obtain ⟨old, _, hold⟩ := exists_load Host.bare 2 (newConfig (str "/"))
    (some automaticProgram) (by decide +kernel)
  obtain ⟨new, loaded, hnew⟩ := exists_load Host.bare 2 (newConfig (str "/"))
    (some manualProgram) (by decide +kernel)
  have hprev : (((newConfig (str "/")).load Host.bare 2 (some automaticProgram)).bind fun r ↦
      r.1.getProgramNames Runtime.inOrder Host.bare 2) = some [str "x"] := by decide +kernel
  rw [hold] at hprev
  exact ⟨_, new, loaded, hold, hnew, reload_fresh hold hnew hprev⟩

/-- The program `x` keeps the `autostart` it had before the reload. -/
theorem reload_stale : ∃ old new c,
    (newConfig (str "/")).load Host.bare 2 (some manualProgram) = some old ∧
    (newConfig (str "/")).load Host.bare 2 (some automaticProgram) = some new ∧
    old.1.reload Runtime.inOrder Host.bare 2 (some automaticProgram) = some c ∧
    c.entries.get (str "x") ≠ new.1.entries.get (str "x") := by
  obtain ⟨old, _, hold⟩ := exists_load Host.bare 2 (newConfig (str "/"))
    (some manualProgram) (by decide +kernel)
  obtain ⟨new, _, hnew⟩ := exists_load Host.bare 2 (newConfig (str "/"))
    (some automaticProgram) (by decide +kernel)
  have hafter : (((newConfig (str "/")).load Host.bare 2 (some manualProgram)).bind fun r ↦
      (r.1.reload Runtime.inOrder Host.bare 2 (some automaticProgram)).bind fun c ↦
        (c.entries.get (str "x")).bind (·.keyValues (str "autostart"))) =
      some (str "false") := by decide +kernel
  have hfresh : (((newConfig (str "/")).load Host.bare 2 (some automaticProgram)).bind fun r ↦
      (r.1.entries.get (str "x")).bind (·.keyValues (str "autostart"))) = none := by
    decide +kernel
  rw [hold, Option.bind_some] at hafter
  rw [hnew, Option.bind_some] at hfresh
  obtain ⟨c, hreload, hvalue⟩ := Option.bind_eq_some_iff.mp hafter
  refine ⟨_, _, c, hold, hnew, hreload, fun h ↦ ?_⟩
  rw [h, hfresh] at hvalue
  cases hvalue

end Config

end Supervisord
