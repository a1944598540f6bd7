import Supervisord.Supervisor.Return

/-!
# The programs of the latest configuration

Where a name is either one of programs or one of event listeners and other sections, in all the
contents that are loaded one after the other, a reload leaves the processes of just the programs
it has loaded.  Those that were there before are kept, and those that go are stopped
(`reload_procs`).
-/

namespace Supervisord

open Go ProcessSorter Fuel

namespace Supervisor

variable {host : Host} {n m : Nat} {s s' : Supervisor} {c : Config} {P : Str → Prop}
  {rel : Str → Str → Prop} {k : Str} {e e' : Entry} {t : Table} {dir : Str} {file : Option Ini}
  {ps : List (Str × Patch)} {w : Str × Patch} {env : Environment} {calls : List Call}

/-! ## Names of programs -/

/-- The names of programs are those with `P`, and no event listener and no other section has such
a name. -/
structure Separate (P : Str → Prop) (file : Option Ini) (ps : List (Str × Patch)) : Prop where
  process : ∀ w ∈ ps, P w.1 ↔ w.2.name = some (str "program:" ++ w.1)
  other : ∀ k, Config.HasSection file k → ¬ P k

/-- The reload is one of a content in which programs have names of their own. -/
def Separates (host : Host) (P : Str → Prop) (s : Supervisor) (a : Nat × Environment) : Prop :=
  ∀ ps, s.config.processes host a.1 a.2.file = some ps → Separate P a.2.file ps

theorem Separate.mem (h : Separate P file ps) (hw : w ∈ Config.loadWrites file ps) (hP : P w.1) :
    w ∈ ps := by
  rcases List.mem_append.mp hw with hw | hw
  · rcases List.mem_append.mp hw with hw | hw
    · exact absurd hP (h.other _ (.inl (List.mem_map_of_mem hw)))
    · exact hw
  · exact absurd hP (h.other _ (.inr (List.mem_map_of_mem hw)))

/-- The entries of the programs are those under the names of programs. -/
def ProgramsNamed (P : Str → Prop) (t : Table) : Prop :=
  ∀ k e, t k = some e → (e.isProgram = true ↔ P k)

theorem programsNamed_writes (hps : s.config.processes host n file = some ps)
    (hsep : Separate P file ps) (ht : ProgramsNamed P t) :
    ProgramsNamed P (Table.writes dir t (Config.loadWrites file ps)) := by
  intro k e he
  rcases Config.name_of_writes hps he with ⟨w, hw, rfl, hname⟩ | ⟨-, -, he⟩
  · constructor
    · intro hprog
      have hmem := Config.loadsProcess_of_name hw hname (.inl hprog)
      obtain ⟨name, hname', hnamed⟩ := Config.writes_namedAs hps hw
      rw [hname, Option.some.injEq] at hname'
      subst hname'
      exact (hsep.process w hmem).mpr (by rw [hname, hnamed.name_of_isProgram hprog])
    · intro hP
      have hprog := (hsep.process w (hsep.mem hw hP)).mp hP
      rw [hname, Option.some.injEq] at hprog
      exact Entry.isProgram_of_name hprog
  · exact ht k e he

theorem Reloads.programsNamed {loaded : List Str} (h : Reloads host n s c loaded s' calls)
    (hc : ProgramsNamed P c.entries.get) : ProgramsNamed P s'.config.entries.get := by
  intro k e he
  by_cases hk : Removed s loaded k
  · rw [h.gone k hk] at he
    cases he
  · rw [h.kept k hk] at he
    exact hc k e he

theorem programsNamed_reach (hs : (machine host dir).Reach (Separates host P) s) :
    ProgramsNamed P s.config.entries.get := by
  refine hs.invariant (P := fun s ↦ ProgramsNamed P s.config.entries.get)
    (fun k e he ↦ by cases he) fun s a s' hs ht hsep h ↦ ?_
  obtain ⟨n, env⟩ := a
  obtain ⟨groups, err, calls, h⟩ := machine_step h
  obtain ⟨-, ps, c, hps, hloads, hreloads⟩ := reload_spec (consistent_reach hs) h
  refine hreloads.programsNamed ?_
  rw [hloads.get]
  exact programsNamed_writes hps (hsep ps hps) ht

/-! ## Settings of programs -/

theorem getString_congr {key v : Str} (hdir : e.configDir = e'.configDir)
    (hkey : e.keyValues key = e'.keyValues key) :
    e.getString host n key v = e'.getString host n key v := by
  rw [Entry.getString, Entry.getString, hkey, hdir]

/-- The settings of the programs of a content can be evaluated, and `rel` is at least its relation
of what depends on what. -/
structure Settling (host : Host) (dir : Str) (P : Str → Prop) (rel : Str → Str → Prop)
    (ps : List (Str × Patch)) : Prop where
  settled : ∀ w ∈ ps, P w.1 → Config.Settled host rel w.1 (w.2.apply (newEntry dir))

/-- The reload is one of a content with programs of their own that can be sorted with others. -/
def Settles (host : Host) (dir : Str) (P : Str → Prop) (rel : Str → Str → Prop) (s : Supervisor)
    (a : Nat × Environment) : Prop :=
  Separates host P s a ∧ ∀ ps, s.config.processes host a.1 a.2.file = some ps →
    Settling host dir P rel ps

/-- The settings under the names of programs can be evaluated. -/
def ProgramsSettled (host : Host) (dir : Str) (P : Str → Prop) (rel : Str → Str → Prop)
    (t : Table) : Prop :=
  ∀ k e, t k = some e → e.configDir = dir ∧ (P k → Config.Settled host rel k e)

/-- A setting is evaluated to what the patch says, or to what it was. -/
theorem settled_apply {w : Patch} (hdir : e.configDir = dir)
    (hw : Config.Settled host rel k (w.apply (newEntry dir))) (he : Config.Settled host rel k e) :
    Config.Settled host rel k (w.apply e) := by
  have hstring : ∀ key v, (∀ n, (w.apply e).getString host n key v =
      (w.apply (newEntry dir)).getString host n key v) ∨
      ∀ n, (w.apply e).getString host n key v = e.getString host n key v := by
    intro key v
    cases hkey : w.keyValues key with
    | some x => exact .inl fun n ↦ getString_congr hdir (by simp [Patch.apply, hkey])
    | none => exact .inr fun n ↦ getString_congr rfl (by simp [Patch.apply, hkey])
  constructor
  · rcases hstring (str "depends_on") [] with h | h
    · simpa only [h] using hw.depends
    · simpa only [h] using he.depends
  · rcases hstring (str "autostart") (str "true") with h | h
    · simpa only [h] using hw.autostart
    · simpa only [h] using he.autostart

theorem programsSettled_writes (hsep : Separate P file ps) (hset : Settling host dir P rel ps)
    (ht : ProgramsSettled host dir P rel t) :
    ProgramsSettled host dir P rel (Table.writes dir t (Config.loadWrites file ps)) := by
  intro k e he
  refine Write.writes_invariant
    (P := fun k (e : Entry) ↦ e.configDir = dir ∧ (P k → Config.Settled host rel k e)) ht
    (fun w hw e h ↦ ?_) he
  rcases h with rfl | ⟨hdir, he⟩
  · exact ⟨rfl, fun hP ↦ hset.settled w (hsep.mem hw hP) hP⟩
  · exact ⟨hdir, fun hP ↦ settled_apply hdir (hset.settled w (hsep.mem hw hP) hP) (he hP)⟩

theorem Reloads.programsSettled {loaded : List Str} (h : Reloads host n s c loaded s' calls)
    (hc : ProgramsSettled host dir P rel c.entries.get) :
    ProgramsSettled host dir P rel s'.config.entries.get := by
  intro k e he
  by_cases hk : Removed s loaded k
  · rw [h.gone k hk] at he
    cases he
  · rw [h.kept k hk] at he
    exact hc k e he

theorem programsSettled_reach (hs : (machine host dir).Reach (Settles host dir P rel) s) :
    s.config.configFileDir = dir ∧ ProgramsSettled host dir P rel s.config.entries.get := by
  refine hs.invariant (P := fun s ↦ s.config.configFileDir = dir ∧
      ProgramsSettled host dir P rel s.config.entries.get)
    ⟨rfl, fun k e he ↦ by cases he⟩ fun s a s' hs ht hok h ↦ ?_
  obtain ⟨n, env⟩ := a
  obtain ⟨groups, err, calls, h⟩ := machine_step h
  obtain ⟨-, ps, c, hps, hloads, hreloads⟩ := reload_spec (consistent_reach hs) h
  refine ⟨hreloads.dir.trans (hloads.dir.trans ht.1), hreloads.programsSettled ?_⟩
  rw [hloads.get, ht.1]
  exact programsSettled_writes (hok.1 ps hps) (hok.2 ps hps) ht.2

/-! ## Reloads -/

/-- What a reload that has loaded `ps` does to the processes of programs. -/
structure Manages (s : Supervisor) (ps : List (Str × Patch)) (s' : Supervisor)
    (calls : List Call) : Prop where
  /-- They are those of the programs that are loaded. -/
  keys : ∀ k, k ∈ s'.procMgr.procs ↔
    ∃ w ∈ ps, w.1 = k ∧ w.2.name = some (str "program:" ++ k)
  /-- What is there before and after is the same process. -/
  same : ∀ k proc proc', s.procMgr.procs.lookup k = some proc →
    s'.procMgr.procs.lookup k = some proc' → proc' = proc
  /-- What is not there any more is stopped. -/
  stopped : ∀ k proc, s.procMgr.procs.lookup k = some proc →
    (∀ k', s'.procMgr.procs.lookup k' ≠ some proc) → ⟨proc, k, .stop false⟩ ∈ calls

theorem Reloads.manages (hs : Consistent s) (hnamed : ProgramsNamed P s.config.entries.get)
    (hps : s.config.processes host n file = some ps) (hsep : Separate P file ps)
    (hloads : Config.Loads s.config (Config.loadWrites file ps) c)
    (h : Reloads host n s c (ps.map (·.1)) s' calls) : Manages s ps s' calls := by
  have hnamed' : ProgramsNamed P c.entries.get := by
    rw [hloads.get]
    exact programsNamed_writes hps hsep hnamed
  have hloaded : ∀ w ∈ ps, P w.1 → w.1 ∈ s'.procMgr.procs := by
    intro w hw hP
    have hmem : w.1 ∈ ps.map (·.1) := List.mem_map_of_mem hw
    have hsome : (c.entries.get w.1).isSome := by
      rw [hloads.get]
      exact Write.isSome_writes.mpr (.inr (Config.mem_loadWrites.mpr (.inl hmem)))
    obtain ⟨e, he⟩ := Option.isSome_iff_exists.mp hsome
    refine (h.consistent.programs w.1).mpr ⟨e, ?_, (hnamed' _ e he).mpr hP⟩
    rw [h.kept w.1 fun hr ↦ hr.2 hmem, he]
  refine ⟨fun k ↦ ⟨fun hk ↦ ?_, ?_⟩, fun k proc proc' hk hk' ↦ ?_, fun k proc hk hgone ↦ ?_⟩
  · obtain ⟨e, he, hprog⟩ := (h.consistent.programs k).mp hk
    have hkept : ¬ Removed s (ps.map (·.1)) k := fun hr ↦ by
      rw [h.gone k hr] at he
      cases he
    rw [h.kept k hkept] at he
    have hP := (hnamed' k e he).mp hprog
    rw [hloads.get] at he
    rcases Config.name_of_writes hps he with ⟨w, hw, rfl, -⟩ | ⟨hl, -, he⟩
    · have hmem := hsep.mem hw hP
      exact ⟨w, hmem, rfl, (hsep.process w hmem).mp hP⟩
    · exact absurd ⟨⟨e, he, hprog⟩, hl⟩ hkept
  · rintro ⟨w, hw, rfl, hname⟩
    exact hloaded w hw ((hsep.process w hw).mpr hname)
  · have hmem := AList.lookup_isSome.mp (by rw [hk']; rfl)
    rw [h.same k proc hk hmem, Option.some.injEq] at hk'
    exact hk'.symm
  · obtain ⟨e, he, hprog⟩ := (hs.programs k).mp (AList.lookup_isSome.mp (by rw [hk]; rfl))
    have hP := (hnamed k e he).mp hprog
    have hnot : k ∉ ps.map (·.1) := by
      intro hmem
      obtain ⟨w, hw, rfl⟩ := List.mem_map.mp hmem
      exact hgone w.1 (h.same w.1 proc hk (hloaded w hw hP))
    obtain ⟨p, hp, -⟩ := RefTable.get_eq_some.mp he
    have hget := RefTable.get_of_lookup (hloads.extend k p hp)
    exact h.stopped k proc hk ⟨⟨e, he, hprog⟩, hnot⟩ ⟨_, hget, (hnamed' k _ hget).mpr hP⟩

/-- **Programs.**  Over any reloads of contents in which no program shares its name with an event
listener or another section, the processes are just those of the programs loaded last; those that
stay are the same, and those that go are stopped.  And a reload does come to an end if `Load` does
and the settings of the programs can be evaluated and sorted, all contents taken together. -/
theorem reload_procs (hs : (machine host dir).Reach (Separates host P) s) :
    (∀ n env s' groups err calls, Separates host P s (n, env) →
      s.reload host n env = some (.returned s' groups err calls) →
        ∃ ps, s.config.processes host n env.file = some ps ∧ Manages s ps s' calls) ∧
    ∀ rel n env c loaded, Sweep.Acyclic rel →
      (machine host dir).Reach (Settles host dir P rel) s → Settles host dir P rel s (n, env) →
        s.config.load host n env.file = some (c, .ok loaded) →
          ∃ result, Returns (fun n ↦ s.reload host n env) result := by
  constructor
  · intro n env s' groups err calls hsep h
    obtain ⟨-, ps, c, hps, hloads, hreloads⟩ := reload_spec (consistent_reach hs) h
    exact ⟨ps, hps, hreloads.manages (consistent_reach hs) (programsNamed_reach hs) hps
      (hsep ps hps) hloads⟩
  · rintro rel n env c loaded hrel hs' ⟨hsep, hset⟩ hload
    obtain ⟨ps, hps, hloads, -⟩ := Config.load_eq_some hload
    obtain ⟨hdir, hsettled⟩ := programsSettled_reach hs'
    have hnamed := programsNamed_reach hs
    have hnamed' : ProgramsNamed P c.entries.get := by
      rw [hloads.get]
      exact programsNamed_writes hps (hsep ps hps) hnamed
    have hsettled' : ProgramsSettled host dir P rel c.entries.get := by
      rw [hloads.get, hdir]
      exact programsSettled_writes (hsep ps hps) (hset ps hps) hsettled
    exact returns_reload (consistent_reach hs) hrel
      (fun k e he hprog ↦ (hsettled k e he).2 ((hnamed k e he).mp hprog)) hload
      fun k e he hprog ↦ (hsettled' k e he).2 ((hnamed' k e he).mp hprog)

/-- A configuration file with one program. -/
def fileOf (program : String) : Environment where
  rt := .inOrder
  file := some [Config.sectionOf ("program:" ++ program) "command" "/bin/cat"]

/-- The names of the processes of a file and what their entries will be called. -/
def namesOf (s : Supervisor) (env : Environment) : Option (List (Str × Option Str)) :=
  (s.config.processes Host.bare 2 env.file).map fun ps ↦ ps.map fun w ↦ (w.1, w.2.name)

theorem separates_fileOf {x : String} (hP : P (str x))
    (hnames : s.namesOf (fileOf x) = some [(str x, some (str "program:" ++ str x))])
    (hgroup : Config.groupWrites (Config.setProgramDefaultParams
      (.loadFile (fileOf x).file)) = [])
    (hother : Config.otherWrites (Config.setProgramDefaultParams
      (.loadFile (fileOf x).file)) = []) : Separates Host.bare P s (2, fileOf x) := by
  intro ps hps
  rw [namesOf, hps, Option.map_some, Option.some.injEq] at hnames
  constructor
  · intro w hw
    have hmem := List.mem_map_of_mem (f := fun w : Str × Patch ↦ (w.1, w.2.name)) hw
    rw [hnames, List.mem_singleton, Prod.mk.injEq] at hmem
    rw [hmem.1, hmem.2]
    exact iff_of_true hP rfl
  · rintro k (hk | hk)
    · rw [hgroup] at hk
      cases hk
    · rw [hother] at hk
      cases hk

/-- The statement for the program `x` and then the program `y`, which replaces it. -/
theorem reload_procs_replaced : ∃ s groups err calls s' groups' err' calls' ps,
    (newSupervisor (str "/")).reload Host.bare 2 (fileOf "x") =
      some (.returned s groups err calls) ∧
    s.reload Host.bare 2 (fileOf "y") = some (.returned s' groups' err' calls') ∧
    s.config.processes Host.bare 2 (fileOf "y").file = some ps ∧ Manages s ps s' calls' := by
  let P : Str → Prop := fun k ↦ k = str "x" ∨ k = str "y"
  have hrun : (((machine Host.bare (str "/")).step (newSupervisor (str "/"))
      (2, fileOf "x")).bind fun s ↦ ((machine Host.bare (str "/")).step s (2, fileOf "y")).bind
        fun _ ↦ s.namesOf (fileOf "y")) = some [(str "y", some (str "program:" ++ str "y"))] := by
    decide +kernel
  obtain ⟨s, hs, hrun⟩ := Option.bind_eq_some_iff.mp hrun
  obtain ⟨s', hs', hnames⟩ := Option.bind_eq_some_iff.mp hrun
  obtain ⟨groups, err, calls, hreload⟩ := machine_step hs
  obtain ⟨groups', err', calls', hreload'⟩ := machine_step hs'
  have hfirst : Separates Host.bare P (newSupervisor (str "/")) (2, fileOf "x") :=
    separates_fileOf (.inl rfl) (by decide +kernel) rfl rfl
  have hreach : (machine Host.bare (str "/")).Reach (Separates Host.bare P) s :=
    .step .init hfirst hs
  obtain ⟨ps, hps, hmanages⟩ := (reload_procs hreach).1 2 (fileOf "y") s' groups' err' calls'
    (separates_fileOf (.inr rfl) hnames rfl rfl) hreload'
  exact ⟨s, groups, err, calls, s', groups', err', calls', ps, hreload, hreload', hps, hmanages⟩

end Supervisor

end Supervisord
