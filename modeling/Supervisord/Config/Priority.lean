import Mathlib.Data.List.Flatten
import Supervisord.Config.Sort

/-!
# Priorities

`SortProgram` puts the programs that have nothing to do with `depends_on` into the order of their
priorities.  The programs that depend on nothing, but that others depend on, stand before all of
them, in the order in which a map is iterated over.
-/

namespace Supervisord

open Go

namespace ProcessSorter

variable {α : Type} {rt : Runtime} {host : Host} {n : Nat} {entry : α → Entry}
  {p q : ProcessSorter α} {cs r : List α} {c d : α} {a b x : Str}

/-- The program of a configuration depends on nothing. -/
def Independent (host : Host) (entry : α → Entry) (cs : List α) (c : α) : Prop :=
  ∀ b, ¬DependsOn host entry cs (entry c).getProgramName b

/-- The programs have names of their own. -/
def DistinctNames (entry : α → Entry) (cs : List α) : Prop :=
  ((programs entry cs).map fun c ↦ (entry c).getProgramName).Nodup

/-- A program without a `depends_on` depends on nothing. -/
theorem independent_of_not_hasParameter (hnames : DistinctNames entry cs)
    (hc : c ∈ programs entry cs) (h : (entry c).hasParameter (str "depends_on") = false) :
    Independent host entry cs c := by
  rintro b ⟨d, hd, hprog, hname, m, v, hv, hb⟩
  obtain rfl := List.inj_on_of_nodup_map hnames (mem_programs.mpr ⟨hd, hprog⟩) hc hname
  rw [Entry.getString_eq_default h] at hv
  cases hv
  have hnil : dependsOnPrograms [] = [] := by decide
  rw [hnil] at hb
  cases hb

/-- A program that depends on nothing is not in the graph. -/
theorem Independent.notMem (h : Independent host entry cs c)
    (hp : initDepends host n entry {} cs = some p) :
    (entry c).getProgramName ∉ p.dependsOnGraph := by
  intro hc
  have hproper : Proper p.dependsOnGraph :=
    (initDepends_depends hp).proper fun a ha ↦ absurd ha (AList.notMem_empty a)
  obtain ⟨b, hb⟩ := List.exists_mem_of_ne_nil _ (hproper _ hc)
  exact h b ((mem_depends_iff hp).mp hb)

/-- It is in the map of `getDependsOnInfo` if others depend on it. -/
theorem Independent.mem_info_iff (h : Independent host entry cs c)
    (hp : initDepends host n entry {} cs = some p) :
    (entry c).getProgramName ∈ p.getDependsOnInfo rt ↔
      ∃ a, DependsOn host entry cs a (entry c).getProgramName := by
  rw [mem_getDependsOnInfo, or_iff_right (h.notMem hp)]
  exact exists_congr fun a ↦ mem_depends_iff hp

/-- The programs in the graph stand in the result in the order of `sortDepends`. -/
theorem pair_flatMap {l : List Str} (hc : c ∈ programs entry cs) (hd : d ∈ programs entry cs)
    (h : [(entry c).getProgramName, (entry d).getProgramName].Sublist l) :
    [c, d].Sublist (l.flatMap (named entry cs)) := by
  have hmem {c : α} (hc : c ∈ programs entry cs) :
      [c].Sublist (named entry cs (entry c).getProgramName) :=
    List.singleton_sublist.mpr (mem_named.mpr ⟨(mem_programs.mp hc).1, (mem_programs.mp hc).2, rfl⟩)
  refine .trans ?_ (h.flatMap (named entry cs))
  rw [List.flatMap_cons, List.flatMap_singleton]
  exact (hmem hc).append (hmem hd)

/-- The leaves stand in the result of `sortDepends` in the order in which they are found. -/
theorem pair_sortDepends {l : List Str} (hl : p.sortDepends rt n = some l)
    (ha : a ∉ p.dependsOnGraph) (hb : b ∉ p.dependsOnGraph)
    (h : [a, b].Sublist ((rt.fork 1).range (p.getDependsOnInfo (rt.fork 0)).keys)) :
    [a, b].Sublist l := by
  rw [sortDepends_eq] at hl
  refine .trans ?_ (Sweep.prefix_sweeps hl).sublist
  have hnodup := ((rt.fork 1).range_perm _).nodup_iff.mpr
    (AList.keys_nodup (p.getDependsOnInfo (rt.fork 0)))
  rw [(leaves_spec hnodup).2]
  have hfilter : [a, b].filter (· ∉ p.dependsOnGraph) = [a, b] := by
    simp [ha, hb]
  exact hfilter ▸ h.filter _

/-- Any two of them can be found in either order. -/
theorem exists_order (ha : ∀ rt, a ∈ p.getDependsOnInfo rt) (hb : ∀ rt, b ∈ p.getDependsOnInfo rt)
    (hne : a ≠ b) : ∃ rt : Runtime, [a, b].Sublist
      (((rt.fork 1).fork 1).range (p.getDependsOnInfo ((rt.fork 1).fork 0)).keys) := by
  rcases pair_sublist_or (AList.mem_keys.mp (ha .inOrder)) (AList.mem_keys.mp (hb .inOrder)) hne
    with h | h
  · refine ⟨.inOrder, ?_⟩
    show [a, b].Sublist (Runtime.inOrder.range (p.getDependsOnInfo .inOrder).keys)
    rw [Runtime.range_inOrder]
    exact h
  · refine ⟨.reverseAt [1, 1], ?_⟩
    have hrest : ((Runtime.reverseAt [1, 1]).fork 1).fork 0 = .inOrder := by
      funext path n
      have hne : 1 :: 0 :: path ≠ [1, 1] := by simp
      exact Runtime.reverseAt_of_ne hne n
    rw [hrest, Runtime.range_eq_reverse (Runtime.reverseAt_self [1, 1])]
    exact List.reverse_sublist.mpr h

/-- The programs that have to do with `depends_on` come first. -/
theorem mem_flatMap_iff {l : List Str} (hl : p.sortDepends rt n = some l)
    (hc : c ∈ programs entry cs) (rt' : Runtime) :
    c ∈ l.flatMap (named entry cs) ↔ (entry c).getProgramName ∈ p.getDependsOnInfo rt' := by
  have hinfo : (entry c).getProgramName ∈ p.getDependsOnInfo rt ↔
      (entry c).getProgramName ∈ p.getDependsOnInfo rt' :=
    mem_getDependsOnInfo.trans mem_getDependsOnInfo.symm
  rw [← hinfo, ← (sortDepends_spec hl).2.2, List.mem_flatMap]
  constructor
  · rintro ⟨a, ha, hca⟩
    obtain ⟨-, -, rfl⟩ := mem_named.mp hca
    exact ha
  · intro ha
    exact ⟨_, ha, mem_named.mpr ⟨(mem_programs.mp hc).1, (mem_programs.mp hc).2, rfl⟩⟩

/-- The others are sorted. -/
theorem mem_sorted {rt' : Runtime} {key : α → Int} (hc : c ∈ programs entry cs)
    (h : (entry c).getProgramName ∉ p.getDependsOnInfo rt) :
    c ∈ rt'.sort key ((programs entry cs).filter fun c ↦
      (entry c).getProgramName ∉ p.getDependsOnInfo rt) :=
  (Runtime.sort_perm _ _ _).mem_iff.mpr (List.mem_filter.mpr ⟨hc, decide_eq_true h⟩)

/-- Where something depends on `d`, some runtime puts it before `c`. -/
theorem exists_pair_reverse (hnames : DistinctNames entry cs)
    (heval : DependsEvaluate host entry cs) (hc : c ∈ programs entry cs)
    (hd : d ∈ programs entry cs) (hne : d ≠ c)
    (hci : Independent host entry cs c) (hdi : Independent host entry cs d) {a : Str}
    (had : DependsOn host entry cs a (entry d).getProgramName) :
    ∃ rt : Runtime, ∀ n r, sortProgram rt host n entry cs = some r → [d, c].Sublist r := by
  obtain ⟨n, p, hp⟩ := (exists_initDepends (p := {})).mpr heval
  have hdinfo (rt : Runtime) : (entry d).getProgramName ∈ p.getDependsOnInfo rt :=
    (hdi.mem_info_iff hp).mpr ⟨a, had⟩
  by_cases hcinfo : ∃ b, DependsOn host entry cs b (entry c).getProgramName
  · -- both are leaves
    have hname : (entry d).getProgramName ≠ (entry c).getProgramName :=
      fun he ↦ hne (List.inj_on_of_nodup_map hnames hd hc he)
    obtain ⟨rt, hrt⟩ := exists_order hdinfo (fun rt ↦ (hci.mem_info_iff hp).mpr hcinfo) hname
    refine ⟨rt, fun n' r hr ↦ ?_⟩
    obtain ⟨p', l, hp', hl, rfl⟩ := sortProgram_eq_some.mp hr
    obtain rfl : p = p' := initDepends_unique hp hp'
    have hpair := pair_sortDepends hl (hdi.notMem hp) (hci.notMem hp) hrt
    exact (pair_flatMap hd hc hpair).trans (List.sublist_append_left _ _)
  · refine ⟨.inOrder, fun n' r hr ↦ ?_⟩
    obtain ⟨p', l, hp', hl, rfl⟩ := sortProgram_eq_some.mp hr
    have hd' := (mem_flatMap_iff hl hd .inOrder).mpr ((hdi.mem_info_iff hp').mpr ⟨a, had⟩)
    refine List.Sublist.append (List.singleton_sublist.mpr hd') (List.singleton_sublist.mpr ?_)
    exact mem_sorted hc (mt (hci.mem_info_iff hp').mp hcinfo)

/-- Where nothing depends on `d`, it is sorted behind all programs of a smaller priority. -/
theorem pair_of_not_dependsOn (hr : sortProgram rt host n entry cs = some r)
    (hc : c ∈ programs entry cs) (hd : d ∈ programs entry cs) (hdi : Independent host entry cs d)
    (hlt : (entry c).getInt (str "priority") 999 < (entry d).getInt (str "priority") 999)
    (hdep : ∀ a, ¬DependsOn host entry cs a (entry d).getProgramName) : [c, d].Sublist r := by
  obtain ⟨p, l, hp, hl, rfl⟩ := sortProgram_eq_some.mp hr
  have hdinfo : (entry d).getProgramName ∉ p.getDependsOnInfo (rt.fork 0) := by
    rw [hdi.mem_info_iff hp]
    exact not_exists.mpr hdep
  by_cases hcinfo : (entry c).getProgramName ∈ p.getDependsOnInfo (rt.fork 0)
  · refine List.Sublist.append (List.singleton_sublist.mpr ?_) (List.singleton_sublist.mpr ?_)
    · exact (mem_flatMap_iff hl hc _).mpr hcinfo
    · exact mem_sorted hd hdinfo
  · refine .trans (Runtime.sort_pair ?_ ?_ hlt) (List.sublist_append_right _ _)
    · exact List.mem_filter.mpr ⟨hc, decide_eq_true hcinfo⟩
    · exact List.mem_filter.mpr ⟨hd, decide_eq_true hdinfo⟩

/-- **Priorities.**  Of two programs that depend on nothing, the one with the smaller priority comes
first in every result if and only if nothing depends on the other one. -/
theorem sortProgram_pair_iff (hnames : DistinctNames entry cs)
    (heval : DependsEvaluate host entry cs) (hacyclic : Sweep.Acyclic (DependsOn host entry cs))
    (hc : c ∈ programs entry cs) (hd : d ∈ programs entry cs)
    (hci : Independent host entry cs c) (hdi : Independent host entry cs d)
    (hlt : (entry c).getInt (str "priority") 999 < (entry d).getInt (str "priority") 999) :
    (∀ rt, ∃ n r, sortProgram rt host n entry cs = some r ∧ [c, d].Sublist r) ↔
      ∀ a, ¬DependsOn host entry cs a (entry d).getProgramName := by
  constructor
  · intro h a had
    have hne : d ≠ c := by
      rintro rfl
      exact Int.lt_irrefl _ hlt
    obtain ⟨rt, hrt⟩ := exists_pair_reverse hnames heval hc hd hne hci hdi had
    obtain ⟨n, r, hr, hcd⟩ := h rt
    have hnodup : r.Nodup := (sortProgram_perm hr).nodup_iff.mpr (.of_map _ hnames)
    exact not_pair_sublist hnodup hcd (hrt n r hr)
  · intro hdep rt
    obtain ⟨n, r, hr⟩ := (exists_sortProgram rt).mpr ⟨heval, hacyclic⟩
    exact ⟨n, r, hr, pair_of_not_dependsOn hr hc hd hdi hlt hdep⟩

/-! ## Programs with priorities -/

/-- The programs `db`, `log` and `cron` with the priorities 2, 1 and 3, and `web`, which depends on
`db`. -/
def webPrograms : Fin 4 → Entry
  | 0 => {
      configDir := str "/"
      name := str "program:db"
      keyValues := Function.update (fun _ ↦ none) (str "priority") (some (str "2")) }
  | 1 => {
      configDir := str "/"
      name := str "program:log"
      keyValues := Function.update (fun _ ↦ none) (str "priority") (some (str "1")) }
  | 2 => {
      configDir := str "/"
      name := str "program:cron"
      keyValues := Function.update (fun _ ↦ none) (str "priority") (some (str "3")) }
  | 3 => {
      configDir := str "/"
      name := str "program:web"
      keyValues := Function.update (fun _ ↦ none) (str "depends_on") (some (str "db")) }

theorem distinctNames_webPrograms : DistinctNames webPrograms [0, 1, 2, 3] := by
  unfold DistinctNames
  decide

theorem independent_webPrograms {c : Fin 4} (hc : c ≠ 3) :
    Independent Host.bare webPrograms [0, 1, 2, 3] c := by
  have hmem : ∀ c, c ∈ programs webPrograms [0, 1, 2, 3] := by decide
  have hno : ∀ c ≠ 3, (webPrograms c).hasParameter (str "depends_on") = false := by decide
  exact independent_of_not_hasParameter distinctNames_webPrograms (hmem c) (hno c hc)

theorem dependsOn_webPrograms
    (h : DependsOn Host.bare webPrograms [0, 1, 2, 3] a b) : a = str "web" ∧ b = str "db" := by
  obtain ⟨c, hc, hprog, rfl, hval⟩ := h
  by_cases h3 : c = 3
  · subst h3
    have hv : (webPrograms 3).getString Host.bare 1 (str "depends_on") [] = some (str "db") := by
      decide
    have hone : DependsOn Host.bare webPrograms [3] (webPrograms 3).getProgramName b :=
      ⟨3, List.mem_cons_self, hprog, rfl, hval⟩
    have hb := ((dependsOn_singleton hprog hv).mp hone).2
    have hdb : dependsOnPrograms (str "db") = [str "db"] := by decide
    rw [hdb] at hb
    exact ⟨by decide, List.mem_singleton.mp hb⟩
  · exact absurd ⟨c, hc, hprog, rfl, hval⟩ (independent_webPrograms h3 b)

theorem evaluate_webPrograms : DependsEvaluate Host.bare webPrograms [0, 1, 2, 3] := by
  have hv : ∀ c, ((webPrograms c).getString Host.bare 1 (str "depends_on") []).isSome := by decide
  exact fun c _ _ ↦ ⟨1, Option.isSome_iff_exists.mp (hv c)⟩

theorem acyclic_webPrograms :
    Sweep.Acyclic (DependsOn Host.bare webPrograms [0, 1, 2, 3]) := by
  intro a ha
  obtain ⟨b, hab, -⟩ := Relation.TransGen.head'_iff.mp ha
  obtain ⟨b', -, hba⟩ := Relation.TransGen.tail'_iff.mp ha
  have h := (dependsOn_webPrograms hab).1.symm.trans (dependsOn_webPrograms hba).2
  exact absurd h (by decide)

/-- `db` always comes before `cron`, which nothing depends on. -/
theorem sortProgram_pair_webPrograms :
    (∀ a, ¬DependsOn Host.bare webPrograms [0, 1, 2, 3] a (webPrograms 2).getProgramName) ∧
    ∀ rt, ∃ n r, sortProgram rt Host.bare n webPrograms [0, 1, 2, 3] = some r ∧
      [0, 2].Sublist r := by
  have hnone : ∀ a, ¬DependsOn Host.bare webPrograms [0, 1, 2, 3] a
      (webPrograms 2).getProgramName :=
    fun a ha ↦ absurd (dependsOn_webPrograms ha).2 (by decide)
  refine ⟨hnone, ?_⟩
  exact (sortProgram_pair_iff distinctNames_webPrograms evaluate_webPrograms acyclic_webPrograms
    (by decide) (by decide) (independent_webPrograms (by decide))
    (independent_webPrograms (by decide)) (by decide)).mpr hnone

/-- `log` has the smallest priority, but comes behind `db`. -/
theorem sortProgram_log_behind_db : ¬∀ (α : Type) (host : Host) (entry : α → Entry) (cs : List α),
    DistinctNames entry cs → DependsEvaluate host entry cs →
    Sweep.Acyclic (DependsOn host entry cs) →
    ∀ c ∈ programs entry cs, ∀ d ∈ programs entry cs,
      (entry c).hasParameter (str "depends_on") = false →
      (entry d).hasParameter (str "depends_on") = false →
      (entry c).getInt (str "priority") 999 < (entry d).getInt (str "priority") 999 →
      ∀ rt, ∃ n r, sortProgram rt host n entry cs = some r ∧ [c, d].Sublist r := by
  intro h
  obtain ⟨n, r, hr, hsub⟩ := h _ _ _ _ distinctNames_webPrograms evaluate_webPrograms
    acyclic_webPrograms 1 (by decide) 0 (by decide) (by decide) (by decide) (by decide) .inOrder
  have hrun : sortProgram .inOrder Host.bare 3 webPrograms [0, 1, 2, 3] = some [0, 3, 1, 2] := by
    decide
  have h₁ := sortProgram_mono hr (Nat.le_max_left n 3)
  have h₂ := sortProgram_mono hrun (Nat.le_max_right n 3)
  obtain rfl := Option.some.inj (h₁.symm.trans h₂)
  exact absurd hsub (by decide)

end ProcessSorter

end Supervisord
