import Supervisord.Config.Load

/-!
# Listing the programs

`GetPrograms` and `GetProgramNames` go through the map of the entries and sort what they find.
They return all programs, each once, whatever the order of the map is (`getPrograms_perm`,
`getProgramNames_perm`), and they return at all if and only if the programs can be sorted
(`lists_programs_iff`).
-/

namespace Supervisord

open Go ProcessSorter

variable {rt : Runtime} {host : Host} {n m : Nat} {c : Config} {p : Ptr} {x : Str}

namespace Config

/-- The pointers to the entries. -/
def pointers (c : Config) : List Ptr := c.entries.refs.entries.map (·.2)

/-- The pointers to the entries of programs. -/
def programPtrs (c : Config) : List Ptr := c.pointers.filter fun p ↦ (c.entry p).isProgram

theorem mem_pointers : p ∈ c.pointers ↔ ∃ k, c.entries.refs.lookup k = some p := by
  constructor
  · intro h
    obtain ⟨⟨k, q⟩, he, rfl⟩ := List.mem_map.mp h
    exact ⟨k, AList.mem_lookup_iff.mpr he⟩
  · rintro ⟨k, hk⟩
    exact List.mem_map.mpr ⟨⟨k, p⟩, AList.mem_lookup_iff.mp hk, rfl⟩

theorem getEntries_perm (rt : Runtime) (c : Config) (f : Entry → Bool) :
    (c.getEntries rt f).Perm (c.pointers.filter fun p ↦ f (c.entry p)) :=
  ((rt.range_perm c.entries.refs.entries).map _).filter _

theorem mem_getEntries {f : Entry → Bool} :
    p ∈ c.getEntries rt f ↔ p ∈ c.pointers ∧ f (c.entry p) :=
  (getEntries_perm rt c f).mem_iff.trans List.mem_filter

end Config

namespace ProcessSorter

variable {α : Type} {entry : α → Entry} {cs ds : List α} {a b : Str}

theorem dependsOn_congr (h : ∀ d, d ∈ programs entry cs ↔ d ∈ programs entry ds) :
    DependsOn host entry cs a b ↔ DependsOn host entry ds a b := by
  have iff : ∀ l : List α, DependsOn host entry l a b ↔ ∃ d ∈ programs entry l,
      (entry d).getProgramName = a ∧ ∃ n v,
        (entry d).getString host n (str "depends_on") [] = some v ∧ b ∈ dependsOnPrograms v := by
    intro l
    simp only [DependsOn, mem_programs, and_assoc]
  rw [iff, iff]
  exact exists_congr fun d ↦ and_congr_left fun _ ↦ h d

theorem dependsEvaluate_congr (h : ∀ d, d ∈ programs entry cs ↔ d ∈ programs entry ds) :
    DependsEvaluate host entry cs ↔ DependsEvaluate host entry ds := by
  have iff : ∀ l : List α, DependsEvaluate host entry l ↔ ∀ d ∈ programs entry l,
      ∃ n v, (entry d).getString host n (str "depends_on") [] = some v := by
    intro l
    simp only [DependsEvaluate, mem_programs, and_imp]
  rw [iff, iff]
  exact forall_congr' fun d ↦ imp_congr_left (h d)

/-- Whether lists of programs can be sorted depends on their members only. -/
theorem sortable_congr (h : ∀ d, d ∈ programs entry cs ↔ d ∈ programs entry ds) :
    DependsEvaluate host entry cs ∧ Sweep.Acyclic (DependsOn host entry cs) ↔
      DependsEvaluate host entry ds ∧ Sweep.Acyclic (DependsOn host entry ds) := by
  have hrel : DependsOn host entry cs = DependsOn host entry ds :=
    funext fun a ↦ funext fun b ↦ propext (dependsOn_congr h)
  rw [dependsEvaluate_congr h, hrel]

end ProcessSorter

namespace Config

theorem getPrograms_perm {ps : List Ptr} (h : c.getPrograms rt host n = some ps) :
    ps.Perm c.programPtrs := by
  have hp := sortProgram_perm h
  refine hp.trans ?_
  have hfilter : programs c.entry (c.getEntries (rt.fork 1) Entry.isProgram) =
      c.getEntries (rt.fork 1) Entry.isProgram :=
    List.filter_eq_self.mpr fun p hp ↦ (mem_getEntries.mp hp).2
  rw [hfilter]
  exact getEntries_perm _ _ _

theorem getProgramNames_eq_some {names : List Str} :
    c.getProgramNames rt host n = some names ↔ ∃ ps qs,
      c.getPrograms (rt.fork 0) host n = some ps ∧
      sortProgram (rt.fork 1) host n c.entry ps = some qs ∧
      names = qs.map fun p ↦ (c.entry p).getProgramName := by
  simp only [getProgramNames, Option.bind_eq_some_iff, Option.map_eq_some_iff]
  grind

theorem programs_of_perm {ps : List Ptr} (h : ps.Perm c.programPtrs) :
    programs c.entry ps = ps :=
  List.filter_eq_self.mpr fun _ hp ↦ (List.mem_filter.mp (h.subset hp)).2

/-- `GetProgramNames` returns the name of each program. -/
theorem getProgramNames_perm {names : List Str} (h : c.getProgramNames rt host n = some names) :
    names.Perm (c.programPtrs.map fun p ↦ (c.entry p).getProgramName) := by
  obtain ⟨ps, qs, hps, hqs, rfl⟩ := getProgramNames_eq_some.mp h
  have hperm := getPrograms_perm hps
  have hq := sortProgram_perm hqs
  rw [programs_of_perm hperm] at hq
  exact (hq.trans hperm).map _

theorem getPrograms_mono {ps : List Ptr} (h : c.getPrograms rt host n = some ps) (hnm : n ≤ m) :
    c.getPrograms rt host m = some ps :=
  sortProgram_mono h hnm

/-- The programs of a configuration can be sorted. -/
def Sortable (host : Host) (c : Config) : Prop :=
  DependsEvaluate host c.entry c.pointers ∧ Sweep.Acyclic (DependsOn host c.entry c.pointers)

theorem exists_getPrograms (rt : Runtime) :
    (∃ n ps, c.getPrograms rt host n = some ps) ↔ c.Sortable host := by
  refine (exists_sortProgram _).trans (sortable_congr fun p ↦ ?_)
  rw [mem_programs, mem_programs, mem_getEntries]
  tauto

theorem exists_getProgramNames (rt : Runtime) :
    (∃ n names, c.getProgramNames rt host n = some names) ↔ c.Sortable host := by
  constructor
  · rintro ⟨n, names, h⟩
    obtain ⟨ps, -, hps, -⟩ := getProgramNames_eq_some.mp h
    exact (exists_getPrograms (rt.fork 0)).mp ⟨n, ps, hps⟩
  · intro h
    obtain ⟨n, ps, hps⟩ := (exists_getPrograms (rt.fork 0)).mpr h
    have hperm := getPrograms_perm hps
    have hiff : ∀ p, p ∈ programs c.entry ps ↔ p ∈ programs c.entry c.pointers := by
      rw [programs_of_perm hperm]
      exact fun p ↦ hperm.mem_iff
    obtain ⟨m, qs, hqs⟩ := (exists_sortProgram (rt.fork 1)).mpr ((sortable_congr hiff).mpr h)
    exact ⟨max n m, _, getProgramNames_eq_some.mpr ⟨ps, qs,
      getPrograms_mono hps (Nat.le_max_left n m), sortProgram_mono hqs (Nat.le_max_right n m),
      rfl⟩⟩

end Config

/-! ## Cycles -/

/-- **Cycles.**  Programs are sorted, and none is lost, if and only if the values of `depends_on`
can be evaluated and no program depends on itself, directly or through others; and so it is with
listing those of a configuration. -/
theorem sorts_programs_iff (rt : Runtime) (host : Host) :
    (∀ (α : Type) (entry : α → Entry) (cs : List α),
      (∃ n r, sortProgram rt host n entry cs = some r ∧ ∀ c ∈ programs entry cs, c ∈ r) ↔
        DependsEvaluate host entry cs ∧ Sweep.Acyclic (DependsOn host entry cs)) ∧
    ∀ c : Config,
      (∃ n names, c.getProgramNames rt host n = some names ∧
        ∀ p ∈ c.programPtrs, (c.entry p).getProgramName ∈ names) ↔ c.Sortable host := by
  constructor
  · intro α entry cs
    refine .trans ⟨?_, ?_⟩ (exists_sortProgram rt)
    · rintro ⟨n, r, hr, -⟩
      exact ⟨n, r, hr⟩
    · rintro ⟨n, r, hr⟩
      exact ⟨n, r, hr, fun c hc ↦ (sortProgram_perm hr).mem_iff.mpr hc⟩
  · intro c
    refine .trans ⟨?_, ?_⟩ (Config.exists_getProgramNames rt)
    · rintro ⟨n, names, h, -⟩
      exact ⟨n, names, h⟩
    · rintro ⟨n, names, h⟩
      refine ⟨n, names, h, fun p hp ↦ (Config.getProgramNames_perm h).mem_iff.mpr ?_⟩
      exact List.mem_map.mpr ⟨p, hp, rfl⟩

/-- A program that depends on itself. -/
def selfDependent : Entry where
  configDir := str "/"
  name := str "program:a"
  keyValues := Function.update (fun _ ↦ none) (str "depends_on") (some (str "a"))

/-- `SortProgram` does not return when a program depends on itself. -/
theorem sort_selfDependent :
    ¬ ∃ n r, sortProgram Runtime.inOrder Host.bare n id [selfDependent] =
      some r := by
  intro h
  obtain ⟨-, hr⟩ := (exists_sortProgram _).mp h
  refine hr (str "a") (.single ⟨selfDependent, List.mem_cons_self, ?_, ?_, 1, str "a", ?_, ?_⟩)
  · decide
  · decide
  · decide
  · decide

end Supervisord
