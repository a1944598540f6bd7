import Supervisord.Manager.Create
import Supervisord.Supervisor.Basic

/-!
# What a reload does

The processes of programs are kept in step with the entries of programs (`Consistent`).  A reload
keeps this up, and `Reloads` says what it does to the entries and processes and which calls it
makes, in terms of the entries as they were before and as `Load` leaves them.
-/

namespace Supervisord

open Go

namespace Supervisor

variable {host : Host} {rt : Runtime} {n : Nat} {s s' : Supervisor} {c : Config}
  {r r' r'' : Supervisor × List Call} {k : Str} {proc : ProcId} {p : Ptr} {ps : List Ptr}
  {l loaded : List Str} {call : Call} {calls : List Call} {env : Environment}

/-- The processes of programs are those that the entries of the configuration ask for. -/
structure Consistent (s : Supervisor) : Prop where
  named : WellNamed s.config.entries.get
  tracks : s.procMgr.Tracks s.config
  programs : ∀ k, k ∈ s.procMgr.procs ↔
    ∃ e, s.config.entries.get k = some e ∧ e.isProgram = true

theorem consistent_newSupervisor (dir : Str) : Consistent (newSupervisor dir) where
  named k e he := by cases he
  tracks := Manager.tracks_empty _
  programs k := by
    refine iff_of_false (AList.notMem_empty k) ?_
    rintro ⟨e, he, -⟩
    cases he

/-! ## Event listeners -/

/-- `r'` follows from `r` by the rounds for the event listeners `ps`. -/
structure Listens (c : Config) (ps : List Ptr) (r r' : Supervisor × List Call) : Prop where
  config : r'.1.config = c
  tracks : r'.1.procMgr.Tracks c
  grows : r.1.procMgr.Grows r'.1.procMgr
  procs : r'.1.procMgr.procs = r.1.procMgr.procs
  calls : r.2 ⊆ r'.2
  call : ∀ call ∈ r'.2, call ∈ r.2 ∨ call.op = .start false ∧
    (∃ p ∈ ps, c.entries.refs.lookup call.name = some p) ∧
    ∃ k, r'.1.procMgr.eventListeners.lookup k = some call.proc
  all : ∀ p ∈ ps, ∀ k, c.entries.refs.lookup k = some p → ∃ proc, ⟨proc, k, .start false⟩ ∈ r'.2

theorem listens_startEventListener (hc : r.1.config = c) (ht : r.1.procMgr.Tracks c)
    (hk : c.entries.refs.lookup k = some p)
    (hname : (c.entry p).name = str "eventlistener:" ++ k) :
    Listens c [p] r (startEventListener r p) := by
  obtain ⟨⟨config, pm⟩, calls⟩ := r
  obtain rfl : config = c := hc
  have hcreate := Manager.createProcess_eventListener ht hname
  obtain ⟨proc, hproc, hlookup⟩ := hcreate.proc
  have hround : startEventListener (⟨config, pm⟩, calls) p =
      (⟨config, (pm.createProcess config p).1⟩, calls ++ [⟨proc, k, .start false⟩]) := by
    unfold startEventListener
    revert hproc
    generalize pm.createProcess config p = r
    rintro hproc
    obtain ⟨pm', proc?⟩ := r
    subst hproc
    simp only [Entry.getEventListenerName_of_name hname]
  rw [hround]
  refine ⟨rfl, hcreate.tracks, hcreate.grows, hcreate.procs, List.subset_append_left _ _,
    fun call hcall ↦ ?_, fun q hq j hj ↦ ?_⟩
  · rcases List.mem_append.mp hcall with hcall | hcall
    · exact .inl hcall
    · obtain rfl := List.mem_singleton.mp hcall
      exact .inr ⟨rfl, ⟨p, List.mem_cons_self, hk⟩, k, hlookup⟩
  · obtain rfl := List.mem_singleton.mp hq
    obtain rfl := config.entries.injective j k q hj hk
    exact ⟨proc, List.mem_append_right _ List.mem_cons_self⟩

theorem Listens.cons (h : Listens c [p] r r') (h' : Listens c ps r' r'') :
    Listens c (p :: ps) r r'' where
  config := h'.config
  tracks := h'.tracks
  grows := h.grows.trans h'.grows
  procs := h'.procs.trans h.procs
  calls := List.Subset.trans h.calls h'.calls
  call call hcall := by
    rcases h'.call call hcall with hcall | ⟨hop, ⟨q, hq, hname⟩, hproc⟩
    · rcases h.call call hcall with hcall | ⟨hop, ⟨q, hq, hname⟩, k, hk⟩
      · exact .inl hcall
      · obtain rfl := List.mem_singleton.mp hq
        exact .inr ⟨hop, ⟨q, List.mem_cons_self, hname⟩, k, h'.grows.eventListeners k _ hk⟩
    · exact .inr ⟨hop, ⟨q, List.mem_cons_of_mem p hq, hname⟩, hproc⟩
  all q hq k hk := by
    rcases List.mem_cons.mp hq with rfl | hq
    · obtain ⟨proc, hproc⟩ := h.all q List.mem_cons_self k hk
      exact ⟨proc, h'.calls hproc⟩
    · exact h'.all q hq k hk

theorem listens_foldl (hc : r.1.config = c) (ht : r.1.procMgr.Tracks c)
    (hps : ∀ p ∈ ps, ∃ k, c.entries.refs.lookup k = some p ∧
      (c.entry p).name = str "eventlistener:" ++ k) :
    Listens c ps r (ps.foldl startEventListener r) := by
  induction ps generalizing r with
  | nil =>
      refine ⟨hc, ht, .refl _, rfl, List.Subset.refl _, fun call hcall ↦ .inl hcall,
        fun p hp ↦ ?_⟩
      cases hp
  | cons p ps ih =>
      obtain ⟨⟨k, hk, hname⟩, hps⟩ := List.forall_mem_cons.mp hps
      have hround := listens_startEventListener hc ht hk hname
      exact hround.cons (ih hround.config hround.tracks hps)

/-- The event listeners among the entries, by their pointers. -/
theorem exists_of_mem_getEventListeners (hwell : WellNamed c.entries.get)
    (hp : p ∈ c.getEventListeners rt) : ∃ k, c.entries.refs.lookup k = some p ∧
      (c.entry p).name = str "eventlistener:" ++ k := by
  obtain ⟨hp, hl⟩ := Config.mem_getEntries.mp hp
  obtain ⟨k, hk⟩ := Config.mem_pointers.mp hp
  exact ⟨k, hk, (hwell k _ (RefTable.get_of_lookup hk)).name_of_isEventListener hl⟩

/-! ## Programs -/

/-- The programs among the entries, by their pointers. -/
theorem exists_of_mem_getPrograms (hwell : WellNamed c.entries.get) {entries : List Ptr}
    (h : c.getPrograms rt host n = some entries) (hp : p ∈ entries) :
    ∃ k, c.entries.refs.lookup k = some p ∧ (c.entry p).name = str "program:" ++ k := by
  obtain ⟨hp, hprog⟩ := List.mem_filter.mp ((Config.getPrograms_perm h).mem_iff.mp hp)
  obtain ⟨k, hk⟩ := Config.mem_pointers.mp hp
  exact ⟨k, hk, (hwell k _ (RefTable.get_of_lookup hk)).name_of_isProgram hprog⟩

/-- The entry of a program is stored under `k`. -/
def HasProgram (c : Config) (k : Str) : Prop :=
  ∃ e, c.entries.get k = some e ∧ e.isProgram = true

/-- What `createPrograms` does, where the processes were those of the previous programs. -/
structure CreatesPrograms (s s' : Supervisor) : Prop where
  config : s'.config = s.config
  tracks : s'.procMgr.Tracks s.config
  eventListeners : ∀ k proc, s.procMgr.eventListeners.lookup k = some proc →
    s'.procMgr.eventListeners.lookup k = some proc
  mem : ∀ k, k ∈ s'.procMgr.procs ↔ HasProgram s.config k
  same : ∀ k proc, s.procMgr.procs.lookup k = some proc → HasProgram s.config k →
    s'.procMgr.procs.lookup k = some proc
  old : ∀ proc < s.procMgr.next, s'.procMgr.config proc = s.procMgr.config proc

theorem createPrograms_spec {prev : List Str} (hwell : WellNamed s.config.entries.get)
    (ht : s.procMgr.Tracks s.config) (hprev : ∀ k, k ∈ s.procMgr.procs ↔ k ∈ prev)
    (h : s.createPrograms rt host n prev = some s') : CreatesPrograms s s' := by
  obtain ⟨programs, hprograms, h⟩ := Option.bind_eq_some_iff.mp h
  obtain ⟨entries, hentries, rfl⟩ := Option.map_eq_some_iff.mp h
  have hnames : ∀ k, k ∈ programs ↔ HasProgram s.config k := fun k ↦
    Config.mem_getProgramNames hwell hprograms
  have hmem : ∀ k, (∃ p ∈ entries, s.config.entries.refs.lookup k = some p) ↔
      HasProgram s.config k := by
    intro k
    constructor
    · rintro ⟨p, hp, hk⟩
      obtain ⟨hp, hprog⟩ := List.mem_filter.mp ((Config.getPrograms_perm hentries).mem_iff.mp hp)
      exact ⟨_, RefTable.get_of_lookup hk, hprog⟩
    · rintro ⟨e, he, hprog⟩
      obtain ⟨p, hk, rfl⟩ := RefTable.get_eq_some.mp he
      refine ⟨p, (Config.getPrograms_perm hentries).mem_iff.mpr ?_, hk⟩
      exact List.mem_filter.mpr ⟨Config.mem_pointers.mpr ⟨k, hk⟩, hprog⟩
  obtain ⟨htracks, hgrows, hcreated⟩ := Manager.foldl_createProcess ht
    fun p hp ↦ exists_of_mem_getPrograms hwell hentries hp
  simp only [Manager.foldl_remove]
  -- the processes removed here are those whose entries are not of programs any more
  have hsub : ∀ k, k ∈ Util.sub prev programs ↔ k ∈ s.procMgr.procs ∧ ¬ HasProgram s.config k := by
    intro k
    rw [Util.mem_sub, hnames, hprev]
  refine ⟨rfl, htracks.erase (.inl rfl), hgrows.eventListeners, fun k ↦ ?_,
    fun k proc hk hprog ↦ ?_, hgrows.config⟩
  · rw [← AList.lookup_isSome, lookup_foldl_erase]
    split
    · rename_i hk
      exact iff_of_false Bool.false_ne_true ((hsub k).mp hk).2
    · rename_i hk
      rw [AList.lookup_isSome, hcreated, hmem]
      refine or_iff_right_of_imp fun h ↦ ?_
      by_contra hprog
      exact hk ((hsub k).mpr ⟨h, hprog⟩)
  · rw [lookup_foldl_erase, if_neg fun hk ↦ ((hsub k).mp hk).2 hprog]
    exact hgrows.procs k proc hk

/-! ## Removing programs -/

theorem foldl_removeProgram (r : Supervisor × List Call) (l : List Str) :
    (l.foldl removeProgram r).1 = {
        config := l.foldl Config.removeProgram r.1.config
        procMgr := { r.1.procMgr with procs := l.foldl (·.erase ·) r.1.procMgr.procs } } ∧
      ∀ call, call ∈ (l.foldl removeProgram r).2 ↔ call ∈ r.2 ∨ ∃ k ∈ l, ∃ proc,
        r.1.procMgr.procs.lookup k = some proc ∧ call = ⟨proc, k, .stop false⟩ := by
  induction l generalizing r with
  | nil => exact ⟨rfl, fun call ↦ by simp⟩
  | cons x l ih =>
      have hround : (removeProgram r x).1 = {
            config := r.1.config.removeProgram x
            procMgr := { r.1.procMgr with procs := r.1.procMgr.procs.erase x } } ∧
          ∀ call, call ∈ (removeProgram r x).2 ↔ call ∈ r.2 ∨ ∃ proc,
            r.1.procMgr.procs.lookup x = some proc ∧ call = ⟨proc, x, .stop false⟩ := by
        unfold removeProgram Manager.remove
        cases hx : r.1.procMgr.procs.lookup x with
        | none => simp
        | some proc => simp
      obtain ⟨hfst, hsnd⟩ := ih (removeProgram r x)
      refine ⟨?_, fun call ↦ ?_⟩
      · rw [List.foldl_cons, hfst, hround.1]
        rfl
      · rw [List.foldl_cons, hsnd, hround.2, List.exists_mem_cons_iff, or_assoc, hround.1]
        refine or_congr_right (or_congr_right' fun hx ↦ exists_congr fun k ↦
          and_congr_right fun _ ↦ exists_congr fun proc ↦ ?_)
        by_cases hk : k = x
        · subst hk
          simp only [AList.lookup_erase, reduceCtorEq, false_and, false_iff]
          exact fun h ↦ hx ⟨proc, h⟩
        · simp only [AList.lookup_erase_ne hk]

/-! ## The reload -/

/-- The program `k` is removed by a reload that loads `loaded`. -/
def Removed (s : Supervisor) (loaded : List Str) (k : Str) : Prop :=
  HasProgram s.config k ∧ k ∉ loaded

/-- An entry of a program that is started automatically. -/
def AutoStarts (host : Host) (n : Nat) (e : Entry) : Prop :=
  e.isProgram = true ∧ e.getString host n (str "autostart") (str "true") = some (str "true")

/-- Why a reload makes a call: what it calls `Start` on is an event listener, and no process of a
program, or it is the process of a program with `autostart`; and it calls `Stop` on those of the
programs it removes. -/
inductive Reason (host : Host) (n : Nat) (s : Supervisor) (c : Config) (loaded : List Str)
    (call : Call) : Prop
  | eventListener {e : Entry} (op : call.op = .start false)
      (entry : c.entries.get call.name = some e) (kind : e.isEventListener = true)
      (proc : ∀ k, s.procMgr.procs.lookup k ≠ some call.proc)
  | program {e : Entry} (op : call.op = .start false)
      (entry : c.entries.get call.name = some e) (auto : AutoStarts host n e)
      (proc : ∀ k, s.procMgr.procs.lookup k = some call.proc → k = call.name)
  | removed (op : call.op = .stop false) (removed : Removed s loaded call.name)

/-- What a reload does that finds the entries of `c` after `Load` and the processes `loaded`. -/
structure Reloads (host : Host) (n : Nat) (s : Supervisor) (c : Config) (loaded : List Str)
    (s' : Supervisor) (calls : List Call) : Prop where
  consistent : Consistent s'
  dir : s'.config.configFileDir = c.configFileDir
  gone : ∀ k, Removed s loaded k → s'.config.entries.get k = none
  kept : ∀ k, ¬ Removed s loaded k → s'.config.entries.get k = c.entries.get k
  same : ∀ k proc, s.procMgr.procs.lookup k = some proc → k ∈ s'.procMgr.procs →
    s'.procMgr.procs.lookup k = some proc
  reason : ∀ call ∈ calls, Reason host n s c loaded call
  eventListener : ∀ k e, c.entries.get k = some e → e.isEventListener = true →
    ∃ proc, ⟨proc, k, .start false⟩ ∈ calls
  program : ∀ k e, c.entries.get k = some e → AutoStarts host n e →
    ∃ proc, ⟨proc, k, .start false⟩ ∈ calls
  stopped : ∀ k proc, s.procMgr.procs.lookup k = some proc → Removed s loaded k →
    HasProgram c k → ⟨proc, k, .stop false⟩ ∈ calls

theorem CreatesPrograms.allPrograms (h : CreatesPrograms s s')
    (hwell : WellNamed s.config.entries.get) : s'.procMgr.AllPrograms s.config := by
  intro k proc hk
  obtain ⟨e, he, hprog⟩ := (h.mem k).mp (AList.lookup_isSome.mp (by rw [hk]; rfl))
  have hget := RefTable.get_of_lookup (h.tracks.config k proc hk)
  rw [he, Option.some.injEq] at hget
  have hname := (hwell k e he).name_of_isProgram hprog
  rwa [hget] at hname

theorem isAutoStart_iff {pm : Manager} : pm.isAutoStart host n c proc = some true ↔
    (c.entry (pm.config proc)).getString host n (str "autostart") (str "true") =
      some (str "true") := by
  rw [Manager.isAutoStart, Option.map_eq_some_iff]
  constructor
  · rintro ⟨v, hv, htrue⟩
    rw [hv, of_decide_eq_true htrue]
  · exact fun h ↦ ⟨_, h, by simp⟩

/-- What follows the loading of the configuration. -/
theorem reloadPrograms_spec {prev : List Str} {group : ProcessGroup} {result : Reloaded}
    (hs : Consistent s) (hwell : WellNamed c.entries.get)
    (hextend : s.config.entries.Extends c.entries)
    (hprev : ∀ k, k ∈ prev ↔ HasProgram s.config k)
    (h : reloadPrograms rt host n prev group loaded { s with config := c } = some result) :
    ∃ s' groups calls, result = .returned s' groups none calls ∧
      Reloads host n s c loaded s' calls := by
  have hlisten : Listens c (c.getEventListeners (rt.fork 0)) ({ s with config := c }, [])
      (startEventListeners (rt.fork 0) { s with config := c }) :=
    listens_foldl rfl (hs.tracks.extends hextend) fun p hp ↦
      exists_of_mem_getEventListeners hwell hp
  unfold reloadPrograms at h
  revert h hlisten
  generalize startEventListeners (rt.fork 0) { s with config := c } = r₁
  obtain ⟨⟨config, pm₁⟩, calls₁⟩ := r₁
  rintro h hlisten
  obtain rfl : config = c := hlisten.config
  obtain ⟨s₂, hcreate, h⟩ := Option.bind_eq_some_iff.mp h
  obtain ⟨starts, hstarts, rfl⟩ := Option.map_eq_some_iff.mp h
  have hprocs : pm₁.procs = s.procMgr.procs := hlisten.procs
  have hcreates := createPrograms_spec hwell hlisten.tracks
    (fun k ↦ by rw [hprev, HasProgram, ← hs.programs, hprocs]) hcreate
  obtain ⟨config', pm₂⟩ := s₂
  obtain rfl : config' = config := hcreates.config
  have hauto : ∀ call, call ∈ starts ↔ ∃ k proc, pm₂.procs.lookup k = some proc ∧
      pm₂.isAutoStart host n config' proc = some true ∧ call = ⟨proc, k, .start false⟩ := fun _ ↦
    Manager.mem_startAutoStartPrograms (hcreates.allPrograms hwell) hstarts
  obtain ⟨hfst, hsnd⟩ := foldl_removeProgram (⟨config', pm₂⟩, calls₁ ++ starts)
    (Util.sub prev loaded)
  have hremoved : ∀ k, k ∈ Util.sub prev loaded ↔ Removed s loaded k := fun k ↦ by
    rw [Util.mem_sub, hprev, Removed]
  have hprogram : ∀ k, k ∈ pm₂.procs ↔ HasProgram config' k := hcreates.mem
  refine ⟨_, _, _, rfl, ⟨?_, ?_, fun k hk ↦ ?_, fun k hk ↦ ?_, fun k proc hk hk' ↦ ?_,
    fun call hcall ↦ ?_, fun k e he hl ↦ ?_, fun k e he hauto' ↦ ?_, fun k proc hk hr hp ↦ ?_⟩⟩
  · -- the processes are still those of the programs
    rw [hfst]
    refine ⟨fun k e he ↦ ?_, hcreates.tracks.erase (.inr ?_), fun k ↦ ?_⟩
    · rw [Config.get_foldl_removeProgram] at he
      split at he
      · cases he
      · exact hwell k e he
    · exact (Config.foldl_removeProgram config' _).1
    · rw [← AList.lookup_isSome, lookup_foldl_erase, Config.get_foldl_removeProgram]
      by_cases hk : k ∈ Util.sub prev loaded
      · rw [if_pos hk, if_pos hk]
        exact iff_of_false Bool.false_ne_true fun h ↦ by simp at h
      · rw [if_neg hk, if_neg hk, AList.lookup_isSome]
        exact hprogram k
  · rw [hfst]
    exact (Config.foldl_removeProgram config' _).2.2
  · rw [hfst, Config.get_foldl_removeProgram, if_pos ((hremoved k).mpr hk)]
  · rw [hfst, Config.get_foldl_removeProgram, if_neg (mt (hremoved k).mp hk)]
  · rw [hfst] at hk' ⊢
    rw [← AList.lookup_isSome, lookup_foldl_erase] at hk'
    rw [lookup_foldl_erase]
    split at hk'
    · cases hk'
    · rename_i hl
      rw [if_neg hl]
      exact hcreates.same k proc (hprocs ▸ hk) ((hprogram k).mp (AList.lookup_isSome.mp hk'))
  · rcases (hsnd call).mp hcall with hcall | ⟨k, hk, proc, -, rfl⟩
    · rcases List.mem_append.mp hcall with hcall | hcall
      · rcases hlisten.call call hcall with hnil | ⟨hop, ⟨p, hp, hname⟩, j, hj⟩
        · cases hnil
        · refine .eventListener hop (RefTable.get_of_lookup hname) ?_ fun k hk ↦ ?_
          · exact (Config.mem_getEntries.mp hp).2
          · exact hlisten.tracks.disjoint k j _ (hprocs.symm ▸ hk) hj
      · obtain ⟨k, proc, hk, hstart, rfl⟩ := (hauto call).mp hcall
        have hptr := hcreates.tracks.config k proc hk
        refine .program rfl (RefTable.get_of_lookup hptr) ⟨?_, isAutoStart_iff.mp hstart⟩
          fun k' hk' ↦ ?_
        · exact Entry.isProgram_of_name (hcreates.allPrograms hwell k proc hk)
        · have hk'' : pm₁.procs.lookup k' = some proc := hprocs.symm ▸ hk'
          have hold := hlisten.tracks.config k' proc hk''
          rw [← hcreates.old proc (hlisten.tracks.lt_procs k' proc hk'')] at hold
          exact config'.entries.injective k' k _ hold hptr
    · exact .removed rfl ((hremoved k).mp hk)
  · obtain ⟨p, hp, rfl⟩ := RefTable.get_eq_some.mp he
    obtain ⟨proc, hproc⟩ := hlisten.all p
      (Config.mem_getEntries.mpr ⟨Config.mem_pointers.mpr ⟨k, hp⟩, hl⟩) k hp
    exact ⟨proc, (hsnd _).mpr (.inl (List.mem_append_left _ hproc))⟩
  · have hmem := (hprogram k).mpr ⟨e, he, hauto'.1⟩
    obtain ⟨proc, hproc⟩ := Option.isSome_iff_exists.mp (AList.lookup_isSome.mpr hmem)
    have hptr := RefTable.get_of_lookup (hcreates.tracks.config k proc hproc)
    rw [he, Option.some.injEq] at hptr
    refine ⟨proc, (hsnd _).mpr (.inl (List.mem_append_right _ ?_))⟩
    refine (hauto _).mpr ⟨k, proc, hproc, isAutoStart_iff.mpr ?_, rfl⟩
    have hstring := hauto'.2
    rwa [hptr] at hstring
  · exact (hsnd _).mpr (.inr ⟨k, (hremoved k).mpr hr, proc,
      hcreates.same k proc (hprocs ▸ hk) hp, rfl⟩)

/-- What `Reload` does if it returns. -/
theorem reload_spec {groups : List Str × List Str × List Str} {err : Option Str}
    (hs : Consistent s) (h : s.reload host n env = some (.returned s' groups err calls)) :
    err = none ∧ ∃ ps c, s.config.processes host n env.file = some ps ∧
      Config.Loads s.config (Config.loadWrites env.file ps) c ∧
      Reloads host n s c (ps.map (·.1)) s' calls := by
  obtain ⟨prev, hprev, h⟩ := Option.bind_eq_some_iff.mp h
  obtain ⟨⟨c, r⟩, hload, h⟩ := Option.bind_eq_some_iff.mp h
  obtain ⟨ps, hps, hloads, rfl⟩ := Config.load_eq_some hload
  have hwell : WellNamed c.entries.get := by
    rw [hloads.get]
    exact Config.wellNamed_writes hps hs.named
  simp only at h
  split at h
  · obtain ⟨s₁, groups₁, calls₁, hresult, hreloads⟩ := reloadPrograms_spec hs hwell hloads.extend
      (fun k ↦ Config.mem_getProgramNames hs.named hprev) h
    cases hresult
    exact ⟨rfl, ps, c, hps, hloads, hreloads⟩
  · cases h

variable {ok : Supervisor → Nat × Environment → Prop} {dir : Str}

theorem machine_step (h : (machine host dir).step s (n, env) = some s') :
    ∃ groups err calls, s.reload host n env = some (.returned s' groups err calls) := by
  simp only [machine] at h
  split at h
  · rename_i h'
    cases h
    exact ⟨_, _, _, h'⟩
  · cases h
  · cases h

/-- Whatever has been loaded, the processes are those of the programs. -/
theorem consistent_reach (hs : (machine host dir).Reach ok s) : Consistent s := by
  refine hs.invariant (consistent_newSupervisor dir) fun s a s' _ hs _ h ↦ ?_
  obtain ⟨groups, err, calls, h⟩ := machine_step h
  obtain ⟨-, ps, c, -, -, hreloads⟩ := reload_spec hs h
  exact hreloads.consistent

end Supervisor

end Supervisord
