import Supervisord.Config.Names
import Supervisord.Machine.Fuel
import Supervisord.Manager.Basic

/-!
# The processes of a configuration

The processes of programs are listed under the keys of their entries, and each points to the entry
of its key (`Tracks`).  This is kept when processes are created and removed, and when the
configuration is loaded again.  So the processes that are started automatically are those whose
entries say so (`mem_startAutoStartPrograms`).
-/

namespace Supervisord

open Go ProcessSorter Fuel

namespace Manager

variable {host : Host} {rt : Runtime} {n : Nat} {c c' : Config} {pm pm' pm'' : Manager}
  {k k' : Str} {proc proc' : ProcId} {p : Ptr} {ps : List Ptr} {l : List Str} {call : Call}
  {calls : List Call}

/-- The processes in the tables are different ones, and those of programs point to the entries of
their names. -/
structure Tracks (c : Config) (pm : Manager) : Prop where
  lt_procs : ∀ k proc, pm.procs.lookup k = some proc → proc < pm.next
  lt_eventListeners : ∀ k proc, pm.eventListeners.lookup k = some proc → proc < pm.next
  disjoint : ∀ k k' proc, pm.procs.lookup k = some proc →
    pm.eventListeners.lookup k' ≠ some proc
  config : ∀ k proc, pm.procs.lookup k = some proc →
    c.entries.refs.lookup k = some (pm.config proc)

/-- The processes of one table are in another. -/
structure Grows (pm pm' : Manager) : Prop where
  procs : ∀ k proc, pm.procs.lookup k = some proc → pm'.procs.lookup k = some proc
  eventListeners : ∀ k proc, pm.eventListeners.lookup k = some proc →
    pm'.eventListeners.lookup k = some proc
  config : ∀ proc < pm.next, pm'.config proc = pm.config proc
  next : pm.next ≤ pm'.next

theorem Grows.refl (pm : Manager) : Grows pm pm :=
  ⟨fun _ _ h ↦ h, fun _ _ h ↦ h, fun _ _ ↦ rfl, Nat.le_refl _⟩

theorem Grows.trans (h : Grows pm pm') (h' : Grows pm' pm'') : Grows pm pm'' where
  procs k proc hk := h'.procs k proc (h.procs k proc hk)
  eventListeners k proc hk := h'.eventListeners k proc (h.eventListeners k proc hk)
  config proc hp := (h'.config proc (Nat.lt_of_lt_of_le hp h.next)).trans (h.config proc hp)
  next := Nat.le_trans h.next h'.next

theorem tracks_empty (c : Config) : Tracks c {} := by
  refine ⟨fun k proc h ↦ ?_, fun k proc h ↦ ?_, fun k _ proc h ↦ ?_, fun k proc h ↦ ?_⟩
  all_goals cases h

theorem Tracks.extends (h : Tracks c pm) (he : c.entries.Extends c'.entries) : Tracks c' pm :=
  { h with config := fun k proc hk ↦ he k _ (h.config k proc hk) }

/-! ## Creating a process -/

theorem insert_of_lookup_eq_none {m : Map Str ProcId} (h : m.lookup k = none)
    (hk : m.lookup k' = some proc') : (m.insert k proc).lookup k' = some proc' := by
  have hne : k' ≠ k := fun heq ↦ by
    rw [heq, h] at hk
    cases hk
  rw [AList.lookup_insert_ne hne, hk]

theorem lookup_insert_cases {m : Map Str ProcId}
    (h : (m.insert k proc).lookup k' = some proc') :
    k' = k ∧ proc' = proc ∨ m.lookup k' = some proc' := by
  by_cases hk : k' = k
  · subst hk
    rw [AList.lookup_insert, Option.some.injEq] at h
    exact .inl ⟨rfl, h.symm⟩
  · rw [AList.lookup_insert_ne hk] at h
    exact .inr h

/-- What `CreateProcess` does for the entry of a program. -/
structure CreatesProgram (c : Config) (k : Str) (pm pm' : Manager) : Prop where
  tracks : Tracks c pm'
  grows : Grows pm pm'
  mem : ∀ j, j ∈ pm'.procs ↔ j ∈ pm.procs ∨ j = k

theorem createProcess_program (ht : Tracks c pm) (hk : c.entries.refs.lookup k = some p)
    (hname : (c.entry p).name = str "program:" ++ k) :
    CreatesProgram c k pm (pm.createProcess c p).1 := by
  have hprog : (c.entry p).isProgram = true := Entry.isProgram_of_name hname
  have hprogName : (c.entry p).getProgramName = k := Entry.getProgramName_of_name hname
  subst hprogName
  cases hl : pm.procs.lookup (c.entry p).getProgramName with
  | some proc =>
      have hcreate : pm.createProcess c p = (pm, some proc) := by
        simp [createProcess, hprog, createProgram, hl]
      rw [hcreate]
      refine ⟨ht, .refl pm, fun j ↦ (or_iff_left_of_imp ?_).symm⟩
      rintro rfl
      exact AList.lookup_isSome.mp (by rw [hl]; rfl)
  | none =>
      have hcreate : pm.createProcess c p =
          ({ pm.newProcess p with
            procs := pm.procs.insert (c.entry p).getProgramName pm.next }, some pm.next) := by
        simp [createProcess, hprog, createProgram, hl]
      rw [hcreate]
      have hold : ∀ k' proc', pm.procs.lookup k' = some proc' →
          Function.update pm.config pm.next p proc' = pm.config proc' := fun k' proc' h ↦
        Function.update_of_ne (Nat.ne_of_lt (ht.lt_procs k' proc' h)) _ _
      refine ⟨⟨fun k' proc' h ↦ ?_, fun k' proc' h ↦ ?_, fun k' k'' proc' h ↦ ?_,
        fun k' proc' h ↦ ?_⟩, ⟨fun k' proc' h ↦ ?_, fun _ _ h ↦ h, fun proc' h ↦ ?_,
        Nat.le_succ _⟩, fun j ↦ ?_⟩
      · rcases lookup_insert_cases h with ⟨-, rfl⟩ | h
        · exact Nat.lt_succ_self _
        · exact Nat.lt_succ_of_lt (ht.lt_procs k' proc' h)
      · exact Nat.lt_succ_of_lt (ht.lt_eventListeners k' proc' h)
      · rcases lookup_insert_cases h with ⟨-, rfl⟩ | h
        · exact fun h' ↦ Nat.lt_irrefl _ (ht.lt_eventListeners k'' _ h')
        · exact ht.disjoint k' k'' proc' h
      · rcases lookup_insert_cases h with ⟨rfl, rfl⟩ | h
        · have hnew : Function.update pm.config pm.next p pm.next = p := by
            rw [Function.update_self]
          exact hk.trans (congrArg some hnew.symm)
        · exact (ht.config k' proc' h).trans (congrArg some (hold k' proc' h).symm)
      · exact insert_of_lookup_eq_none hl h
      · exact Function.update_of_ne (Nat.ne_of_lt h) _ _
      · rw [AList.mem_insert, or_comm]

/-- What `CreateProcess` does for the entry of an event listener. -/
structure CreatesEventListener (c : Config) (k : Str) (pm : Manager)
    (r : Manager × Option ProcId) : Prop where
  tracks : Tracks c r.1
  grows : Grows pm r.1
  procs : r.1.procs = pm.procs
  proc : ∃ proc, r.2 = some proc ∧ r.1.eventListeners.lookup k = some proc

theorem createProcess_eventListener (ht : Tracks c pm)
    (hname : (c.entry p).name = str "eventlistener:" ++ k) :
    CreatesEventListener c k pm (pm.createProcess c p) := by
  have hnot : (c.entry p).isProgram = false := by
    rw [Entry.isProgram, Entry.isKind, hname]
    exact (NamedAs.hasPrefix_eventListener k).1
  have hl : (c.entry p).isEventListener = true := Entry.isEventListener_of_name hname
  have hlName : (c.entry p).getEventListenerName = k := Entry.getEventListenerName_of_name hname
  subst hlName
  cases hlookup : pm.eventListeners.lookup (c.entry p).getEventListenerName with
  | some proc =>
      have hcreate : pm.createProcess c p = (pm, some proc) := by
        simp [createProcess, hnot, hl, createEventListener, hlookup]
      rw [hcreate]
      exact ⟨ht, .refl pm, rfl, proc, rfl, hlookup⟩
  | none =>
      have hcreate : pm.createProcess c p =
          ({ pm.newProcess p with
            eventListeners :=
              pm.eventListeners.insert (c.entry p).getEventListenerName pm.next },
            some pm.next) := by
        simp [createProcess, hnot, hl, createEventListener, hlookup]
      rw [hcreate]
      refine ⟨⟨fun k' proc' h ↦ ?_, fun k' proc' h ↦ ?_, fun k' k'' proc' h h' ↦ ?_,
        fun k' proc' h ↦ ?_⟩, ⟨fun _ _ h ↦ h, fun k' proc' h ↦ ?_, fun proc' h ↦ ?_,
        Nat.le_succ _⟩, rfl, pm.next, rfl, AList.lookup_insert _⟩
      · exact Nat.lt_succ_of_lt (ht.lt_procs k' proc' h)
      · rcases lookup_insert_cases h with ⟨-, rfl⟩ | h
        · exact Nat.lt_succ_self _
        · exact Nat.lt_succ_of_lt (ht.lt_eventListeners k' proc' h)
      · rcases lookup_insert_cases h' with ⟨-, rfl⟩ | h'
        · exact Nat.lt_irrefl _ (ht.lt_procs k' _ h)
        · exact ht.disjoint k' k'' proc' h h'
      · refine (ht.config k' proc' h).trans (congrArg some ?_)
        exact (Function.update_of_ne (Nat.ne_of_lt (ht.lt_procs k' proc' h)) _ _).symm
      · exact insert_of_lookup_eq_none hlookup h
      · exact Function.update_of_ne (Nat.ne_of_lt h) _ _

/-- The loop of `createPrograms`. -/
theorem foldl_createProcess (ht : Tracks c pm)
    (hps : ∀ p ∈ ps, ∃ k, c.entries.refs.lookup k = some p ∧
      (c.entry p).name = str "program:" ++ k) :
    Tracks c (ps.foldl (fun pm p ↦ (pm.createProcess c p).1) pm) ∧
      Grows pm (ps.foldl (fun pm p ↦ (pm.createProcess c p).1) pm) ∧
      ∀ j, j ∈ (ps.foldl (fun pm p ↦ (pm.createProcess c p).1) pm).procs ↔
        j ∈ pm.procs ∨ ∃ p ∈ ps, c.entries.refs.lookup j = some p := by
  induction ps generalizing pm with
  | nil => exact ⟨ht, .refl pm, fun j ↦ by simp⟩
  | cons p ps ih =>
      obtain ⟨⟨k, hk, hname⟩, hps⟩ := List.forall_mem_cons.mp hps
      have hcreate := createProcess_program ht hk hname
      obtain ⟨ht', hgrows, hmem⟩ := ih hcreate.tracks hps
      refine ⟨ht', hcreate.grows.trans hgrows, fun j ↦ ?_⟩
      have hj : j = k ↔ c.entries.refs.lookup j = some p :=
        ⟨fun h ↦ h ▸ hk, fun h ↦ c.entries.injective j k p h hk⟩
      rw [List.foldl_cons, hmem, hcreate.mem, List.exists_mem_cons_iff, or_assoc, hj]

/-! ## Removing processes -/

theorem foldl_remove (pm : Manager) (l : List Str) :
    l.foldl (fun pm p ↦ (pm.remove p).1) pm =
      { pm with procs := l.foldl (·.erase ·) pm.procs } := by
  induction l generalizing pm with
  | nil => rfl
  | cons x l ih => exact ih (pm.remove x).1

theorem Tracks.erase (h : Tracks c pm) (hc : c'.entries.refs = c.entries.refs ∨
      c'.entries.refs = l.foldl (·.erase ·) c.entries.refs) :
    Tracks c' { pm with procs := l.foldl (·.erase ·) pm.procs } := by
  have hkept : ∀ {k proc}, (l.foldl (·.erase ·) pm.procs).lookup k = some proc →
      k ∉ l ∧ pm.procs.lookup k = some proc := by
    intro k proc hk
    rw [lookup_foldl_erase] at hk
    split at hk
    · cases hk
    · exact ⟨‹_›, hk⟩
  refine ⟨fun k proc hk ↦ h.lt_procs k proc (hkept hk).2, h.lt_eventListeners,
    fun k k' proc hk ↦ h.disjoint k k' proc (hkept hk).2, fun k proc hk ↦ ?_⟩
  obtain ⟨hl, hk⟩ := hkept hk
  rcases hc with hc | hc
  · rw [hc]
    exact h.config k proc hk
  · rw [hc, lookup_foldl_erase, if_neg hl]
    exact h.config k proc hk

/-! ## Starting programs -/

/-- All processes of the table are programs. -/
def AllPrograms (c : Config) (pm : Manager) : Prop :=
  ∀ k proc, pm.procs.lookup k = some proc → (c.entry (pm.config proc)).name = str "program:" ++ k

theorem AllPrograms.getName (h : AllPrograms c pm) (hk : pm.procs.lookup k = some proc) :
    pm.getName c proc = k := by
  have hname := h k proc hk
  rw [Manager.getName, if_pos (Entry.isProgram_of_name hname)]
  exact Entry.getProgramName_of_name hname

/-- The configurations of the processes, in some order. -/
def configs (pm : Manager) : List Ptr := pm.procs.entries.map fun e ↦ pm.config e.2

theorem configs_range (rt : Runtime) (pm : Manager) :
    (((rt.range pm.procs.entries).map (·.2)).map pm.config).Perm pm.configs := by
  rw [List.map_map]
  exact (rt.range_perm _).map _

/-- No two processes have the same configuration. -/
theorem AllPrograms.nodup_configs (h : AllPrograms c pm) : pm.configs.Nodup := by
  refine List.Nodup.map_on ?_ (List.NodupKeys.nodup pm.procs.nodupKeys)
  rintro ⟨k, q⟩ he ⟨k', q'⟩ he' hcfg
  have hq : pm.procs.lookup k = some q := AList.mem_lookup_iff.mpr he
  have hq' : pm.procs.lookup k' = some q' := AList.mem_lookup_iff.mpr he'
  have hname : str "program:" ++ k = str "program:" ++ k' := by
    rw [← h k q hq, ← h k' q' hq', show pm.config q = pm.config q' from hcfg]
  obtain rfl := List.append_cancel_left hname
  rw [hq, Option.some.injEq] at hq'
  exact hq' ▸ rfl

/-- All processes are listed, each once. -/
theorem getAllProcess_perm (hprog : AllPrograms c pm) {procs : List ProcId}
    (h : pm.getAllProcess rt host n c = some procs) :
    procs.Perm (pm.procs.entries.map (·.2)) := by
  obtain ⟨cfgs, hcfgs, rfl⟩ := Option.map_eq_some_iff.mp h
  have hall : programProcs c.entry pm.config (((rt.fork 1).range pm.procs.entries).map (·.2)) =
      ((rt.fork 1).range pm.procs.entries).map (·.2) := by
    refine List.filter_eq_self.mpr fun proc hproc ↦ ?_
    obtain ⟨⟨k, q⟩, he, rfl⟩ := List.mem_map.mp hproc
    exact Entry.isProgram_of_name
      (hprog k q (AList.mem_lookup_iff.mpr (Runtime.mem_range.mp he)))
  have hnodup := (configs_range (rt.fork 1) pm).nodup_iff.mpr hprog.nodup_configs
  have hperm := sortProgram_perm hcfgs
  change cfgs.Perm (programs c.entry ((programProcs c.entry pm.config _).map pm.config)) at hperm
  rw [programs_map_programProcs] at hperm
  have hsorted := flatMap_filter_perm hnodup hperm
  rw [hall] at hsorted
  exact hsorted.trans (((rt.fork 1).range_perm _).map _)

/-- The processes can be listed if their configurations can be sorted. -/
theorem returns_getAllProcess (heval : DependsEvaluate host c.entry pm.configs)
    (hacyclic : Sweep.Acyclic (DependsOn host c.entry pm.configs)) (rt : Runtime) :
    ∃ procs, Returns (fun n ↦ pm.getAllProcess rt host n c) procs := by
  have hsub : ((((rt.fork 1).range pm.procs.entries).map (·.2)).filter fun proc ↦
      (c.entry (pm.config proc)).isProgram).map pm.config ⊆ pm.configs := fun p hp ↦
    (configs_range (rt.fork 1) pm).subset (List.map_subset _ List.filter_sublist.subset hp)
  obtain ⟨n, cfgs, hcfgs⟩ := (exists_sortProgram (rt.fork 0)).mpr ⟨fun p hp ↦ heval p (hsub hp), by
    refine hacyclic.mono fun a b h ↦ ?_
    obtain ⟨p, hp, h⟩ := h
    exact ⟨p, hsub hp, h⟩⟩
  have hret := Returns.of_mono (f := fun n ↦ sortProgram (rt.fork 0) host n c.entry _)
    (fun m hm h ↦ sortProgram_mono h hm) hcfgs
  exact hret.map _

theorem mem_getAllProcess (hprog : AllPrograms c pm) {procs : List ProcId}
    (h : pm.getAllProcess rt host n c = some procs) :
    proc ∈ procs ↔ ∃ k, pm.procs.lookup k = some proc := by
  rw [(getAllProcess_perm hprog h).mem_iff, List.mem_map]
  constructor
  · rintro ⟨⟨k, q⟩, he, rfl⟩
    exact ⟨k, AList.mem_lookup_iff.mpr he⟩
  · rintro ⟨k, hk⟩
    exact ⟨⟨k, proc⟩, AList.mem_lookup_iff.mp hk, rfl⟩

theorem mem_foldlM_autoStart {procs : List ProcId} {calls₀ : List Call}
    (h : procs.foldlM (fun calls proc ↦ (pm.isAutoStart host n c proc).map fun autoStart ↦
      if autoStart then calls ++ [⟨proc, pm.getName c proc, .start false⟩] else calls) calls₀ =
        some calls) :
    call ∈ calls ↔ call ∈ calls₀ ∨ ∃ proc ∈ procs, pm.isAutoStart host n c proc = some true ∧
      call = ⟨proc, pm.getName c proc, .start false⟩ := by
  induction procs generalizing calls₀ with
  | nil =>
      cases h
      simp
  | cons proc procs ih =>
      rw [List.foldlM_cons] at h
      obtain ⟨calls₁, hcalls₁, h⟩ := Option.bind_eq_some_iff.mp h
      obtain ⟨autoStart, hauto, rfl⟩ := Option.map_eq_some_iff.mp hcalls₁
      rw [ih h, List.exists_mem_cons_iff, hauto]
      cases autoStart with
      | true => simp [or_assoc]
      | false => simp

/-- `StartAutoStartPrograms` calls `Start` on the processes whose entries say so. -/
theorem mem_startAutoStartPrograms (hprog : AllPrograms c pm)
    (h : pm.startAutoStartPrograms rt host n c = some calls) :
    call ∈ calls ↔ ∃ k proc, pm.procs.lookup k = some proc ∧
      pm.isAutoStart host n c proc = some true ∧ call = ⟨proc, k, .start false⟩ := by
  obtain ⟨procs, hprocs, h⟩ := Option.bind_eq_some_iff.mp h
  rw [mem_foldlM_autoStart h]
  constructor
  · rintro (hnil | ⟨proc, hproc, hauto, rfl⟩)
    · cases hnil
    · obtain ⟨k, hk⟩ := (mem_getAllProcess hprog hprocs).mp hproc
      exact ⟨k, proc, hk, hauto, by rw [hprog.getName hk]⟩
  · rintro ⟨k, proc, hk, hauto, rfl⟩
    exact .inr ⟨proc, (mem_getAllProcess hprog hprocs).mpr ⟨k, hk⟩, hauto,
      by rw [hprog.getName hk]⟩

end Manager

end Supervisord
