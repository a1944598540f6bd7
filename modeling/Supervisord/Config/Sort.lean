import Supervisord.Config.Entry
import Supervisord.Go.Range
import Supervisord.Graph.Sweep

/-!
# The order of the programs

`ProcessSorter` puts the programs that have to do with `depends_on` into an order in which every
program comes after those it depends on, and the others behind them by their priority.  The
configurations are pointers here, `entry` says what they point to.

`sortProgram` is shown to be a topological order of all programs (`sortProgram_topological`,
`sortProgram_perm`), which it finds if and only if the values of `depends_on` can be evaluated and
make no cycle.
-/

namespace Supervisord

open Go

variable {α : Type}

structure ProcessSorter (α : Type) where
  dependsOnGraph : Map Str (List Str) := ∅
  procsWithooutDepends : List α := []

namespace ProcessSorter

/-- The programs a value of `depends_on` lists. -/
def dependsOnPrograms (dependsOn : Str) : List Str :=
  ((dependsOn.split 44).map .trimSpace).filter (· ≠ [])

/-- Append to what a program depends on. -/
def addDependsOn (g : Map Str (List Str)) (progName dependsOnProg : Str) : Map Str (List Str) :=
  g.insert progName ((g.lookup progName).getD [] ++ [dependsOnProg])

/-- Let a program depend on others. -/
def setDependsOn (p : ProcessSorter α) (progName : Str) (progs : List Str) : ProcessSorter α :=
  { p with dependsOnGraph := progs.foldl (addDependsOn · progName) p.dependsOnGraph }

/-- A round of `initDepends`. -/
def initDepend (host : Host) (n : Nat) (entry : α → Entry) (p : ProcessSorter α) (config : α) :
    Option (ProcessSorter α) :=
  let c := entry config
  if c.isProgram && c.hasParameter (str "depends_on") then
    (c.getString host n (str "depends_on") []).map fun dependsOn ↦
      p.setDependsOn c.getProgramName (dependsOnPrograms dependsOn)
  else some p

def initDepends (host : Host) (n : Nat) (entry : α → Entry) (p : ProcessSorter α)
    (programConfigs : List α) : Option (ProcessSorter α) :=
  programConfigs.foldlM (initDepend host n entry) p

def getDependsOnInfo (rt : Runtime) (p : ProcessSorter α) : Map Str Str :=
  (rt.range p.dependsOnGraph.keys).foldl (fun m k ↦
    ((p.dependsOnGraph.lookup k).getD []).foldl (fun m t ↦ m.insert t t) (m.insert k k)) ∅

def initProgramWithoutDepends (rt : Runtime) (entry : α → Entry) (p : ProcessSorter α)
    (programConfigs : List α) : ProcessSorter α :=
  let dependsOnPrograms := p.getDependsOnInfo rt
  { p with procsWithooutDepends := p.procsWithooutDepends ++ programConfigs.filter fun config ↦
      (entry config).isProgram && (entry config).getProgramName ∉ dependsOnPrograms }

/-- The variables of `sortDepends`. -/
structure Progress where
  finishedPrograms : Map Str Str := ∅
  progsStartOrder : List Str := []

/-- Finish a program. -/
def Progress.finish (s : Progress) (progName : Str) : Progress where
  finishedPrograms := s.finishedPrograms.insert progName progName
  progsStartOrder := s.progsStartOrder ++ [progName]

/-- The first loop of `sortDepends`, which finishes the programs that depend on nothing. -/
def leaves (p : ProcessSorter α) (progNames : List Str) : Progress :=
  progNames.foldl (fun s progName ↦
    if progName ∈ p.dependsOnGraph then s else s.finish progName) {}

def inFinishedPrograms (p : ProcessSorter α) (programName : Str)
    (finishedPrograms : Map Str Str) : Bool :=
  match p.dependsOnGraph.lookup programName with
  | some dependsOn => dependsOn.all (· ∈ finishedPrograms)
  | none => true

/-- A pass over the programs that depend on others. -/
def pass (p : ProcessSorter α) (s : Progress) (progNames : List Str) : Progress :=
  progNames.foldl (fun s progName ↦
    if progName ∉ s.finishedPrograms ∧ p.inFinishedPrograms progName s.finishedPrograms
    then s.finish progName else s) s

/-- The passes of `sortDepends` until `total` programs are finished, from the `i`-th on. -/
def passes (rt : Runtime) (p : ProcessSorter α) (total : Nat) : Nat → Nat → Progress →
    Option Progress
  | 0, _, _ => none
  | n + 1, i, s =>
    if s.finishedPrograms.keys.length < total then
      passes rt p total n (i + 1) (p.pass s ((rt.fork i).range p.dependsOnGraph.keys))
    else some s

def sortDepends (rt : Runtime) (n : Nat) (p : ProcessSorter α) : Option (List Str) :=
  let progsWithDependsInfo := p.getDependsOnInfo (rt.fork 0)
  -- get all processes without depends
  let s := p.leaves ((rt.fork 1).range progsWithDependsInfo.keys)
  (passes (rt.fork 2) p progsWithDependsInfo.keys.length n 0 s).map (·.progsStartOrder)

/-- `SortProgram` of a new sorter.  Neither `Eval` nor the passes of `sortDepends` go through
more than `n` rounds. -/
def sortProgram (rt : Runtime) (host : Host) (n : Nat) (entry : α → Entry)
    (programConfigs : List α) : Option (List α) := do
  let p ← initDepends host n entry {} programConfigs
  let p := p.initProgramWithoutDepends (rt.fork 0) entry programConfigs
  let order ← p.sortDepends (rt.fork 1) n
  let result := order.flatMap fun prog ↦ programConfigs.filter fun config ↦
    (entry config).isProgram && (entry config).getProgramName = prog
  return result ++ (rt.fork 2).sort (fun c ↦ (entry c).getInt (str "priority") 999)
    p.procsWithooutDepends

variable {rt : Runtime} {host : Host} {n m : Nat} {entry : α → Entry} {p q : ProcessSorter α}
  {cs r : List α} {c : α} {a b x : Str} {s : Progress}

/-! ## The relation -/

/-- Among the configurations, one of the program `a` names `b` in its `depends_on`. -/
def DependsOn (host : Host) (entry : α → Entry) (cs : List α) (a b : Str) : Prop :=
  ∃ c ∈ cs, (entry c).isProgram ∧ (entry c).getProgramName = a ∧
    ∃ n v, (entry c).getString host n (str "depends_on") [] = some v ∧ b ∈ dependsOnPrograms v

/-- Every `depends_on` of a program can be evaluated. -/
def DependsEvaluate (host : Host) (entry : α → Entry) (cs : List α) : Prop :=
  ∀ c ∈ cs, (entry c).isProgram →
    ∃ n v, (entry c).getString host n (str "depends_on") [] = some v

/-- What a program depends on, according to the graph. -/
def depends (g : Map Str (List Str)) (a : Str) : List Str := (g.lookup a).getD []

theorem mem_of_mem_depends {g : Map Str (List Str)} (h : b ∈ depends g a) : a ∈ g := by
  by_contra ha
  rw [depends, AList.lookup_eq_none.mpr ha] at h
  cases h

theorem depends_eq_nil {g : Map Str (List Str)} (h : a ∉ g) : depends g a = [] := by
  rw [depends, AList.lookup_eq_none.mpr h]
  rfl

theorem mem_depends_addDependsOn {g : Map Str (List Str)} {y z : Str} :
    b ∈ depends (addDependsOn g y z) a ↔ b ∈ depends g a ∨ a = y ∧ b = z := by
  unfold depends addDependsOn
  by_cases h : a = y
  · subst h
    simp
  · simp [AList.lookup_insert_ne h, h]

theorem mem_depends_foldl {g : Map Str (List Str)} {y : Str} (zs : List Str) :
    b ∈ depends (zs.foldl (addDependsOn · y) g) a ↔ b ∈ depends g a ∨ a = y ∧ b ∈ zs := by
  induction zs generalizing g with
  | nil => simp
  | cons z zs ih =>
      rw [List.foldl_cons, ih, mem_depends_addDependsOn, List.mem_cons, or_assoc, ← and_or_left]

/-- A program of the graph depends on something. -/
def Proper (g : Map Str (List Str)) : Prop := ∀ a ∈ g, depends g a ≠ []

theorem Proper.foldl {g : Map Str (List Str)} {y : Str} {zs : List Str} (hg : Proper g) :
    Proper (zs.foldl (addDependsOn · y) g) := by
  induction zs generalizing g with
  | nil => exact hg
  | cons z zs ih =>
      refine ih fun a ha ↦ ?_
      by_cases h : a = y
      · subst h
        simp [depends, addDependsOn]
      · have hag : a ∈ g := ((AList.mem_insert g).mp ha).resolve_left h
        have heq : depends (addDependsOn g y z) a = depends g a := by
          rw [depends, addDependsOn, AList.lookup_insert_ne h, depends]
        exact heq ▸ hg a hag

/-! ## The graph -/

theorem initDepend_of_not_isProgram (hc : (entry c).isProgram = false) :
    initDepend host n entry p c = some p := by
  simp [initDepend, hc]

/-- A program without `depends_on` is treated like one that lists nothing. -/
theorem initDepend_of_isProgram (hc : (entry c).isProgram = true) :
    initDepend host n entry p c =
      ((entry c).getString host n (str "depends_on") []).map fun v ↦
        p.setDependsOn (entry c).getProgramName (dependsOnPrograms v) := by
  by_cases hk : (entry c).hasParameter (str "depends_on") = true
  · simp only [initDepend, hc, hk, Bool.and_self, if_true]
  · rw [Bool.not_eq_true] at hk
    have hnil : dependsOnPrograms [] = [] := by decide
    simp only [initDepend, hc, hk, Entry.getString_eq_default hk, Option.map_some, hnil]
    rfl

/-- What `initDepends` makes of the configurations `cs`. -/
structure Depends (host : Host) (entry : α → Entry) (cs : List α) (p q : ProcessSorter α) :
    Prop where
  mem_depends : ∀ a b, b ∈ depends q.dependsOnGraph a ↔
    b ∈ depends p.dependsOnGraph a ∨ DependsOn host entry cs a b
  proper : Proper p.dependsOnGraph → Proper q.dependsOnGraph
  procs : q.procsWithooutDepends = p.procsWithooutDepends

theorem dependsOn_cons (c : α) (cs : List α) : DependsOn host entry (c :: cs) a b ↔
    DependsOn host entry [c] a b ∨ DependsOn host entry cs a b := by
  simp [DependsOn]

/-- The value of an evaluated `depends_on` does not depend on the number of rounds. -/
theorem dependsOn_singleton {v : Str} (hc : (entry c).isProgram = true)
    (hv : (entry c).getString host n (str "depends_on") [] = some v) :
    DependsOn host entry [c] a b ↔
      a = (entry c).getProgramName ∧ b ∈ dependsOnPrograms v := by
  constructor
  · rintro ⟨x, hx, -, rfl, m, w, hw, hb⟩
    obtain rfl := List.mem_singleton.mp hx
    have h₁ := Entry.getString_mono hw (Nat.le_max_left m n)
    have h₂ := Entry.getString_mono hv (Nat.le_max_right m n)
    obtain rfl : w = v := Option.some.inj (h₁.symm.trans h₂)
    exact ⟨rfl, hb⟩
  · rintro ⟨rfl, hb⟩
    exact ⟨c, List.mem_cons_self, hc, rfl, n, v, hv, hb⟩

theorem initDepend_depends (h : initDepend host n entry p c = some q) :
    Depends host entry [c] p q := by
  cases hc : (entry c).isProgram with
  | false =>
      rw [initDepend_of_not_isProgram hc, Option.some.injEq] at h
      subst h
      refine ⟨fun a b ↦ ?_, id, rfl⟩
      simp [DependsOn, hc]
  | true =>
      rw [initDepend_of_isProgram hc, Option.map_eq_some_iff] at h
      obtain ⟨v, hv, rfl⟩ := h
      refine ⟨fun a b ↦ ?_, Proper.foldl, rfl⟩
      rw [setDependsOn, mem_depends_foldl, dependsOn_singleton hc hv]

theorem initDepends_depends (h : initDepends host n entry p cs = some q) :
    Depends host entry cs p q := by
  induction cs generalizing p with
  | nil =>
      obtain rfl : p = q := Option.some.inj h
      refine ⟨fun a b ↦ ?_, id, rfl⟩
      simp [DependsOn]
  | cons c cs ih =>
      rw [initDepends, List.foldlM_cons] at h
      obtain ⟨p', hp', hq⟩ := Option.bind_eq_some_iff.mp h
      have h₁ := initDepend_depends hp'
      have h₂ := ih hq
      refine ⟨fun a b ↦ ?_, fun hp ↦ h₂.proper (h₁.proper hp), h₂.procs.trans h₁.procs⟩
      rw [h₂.mem_depends, h₁.mem_depends, dependsOn_cons c cs, or_assoc]

/-- The graph of a new sorter is that of the relation. -/
theorem mem_depends_iff (h : initDepends host n entry {} cs = some p) :
    b ∈ depends p.dependsOnGraph a ↔ DependsOn host entry cs a b := by
  have hnil : depends (∅ : Map Str (List Str)) a = [] := depends_eq_nil (AList.notMem_empty a)
  simpa [hnil] using (initDepends_depends h).mem_depends a b

theorem initDepend_mono (h : initDepend host n entry p c = some q) (hnm : n ≤ m) :
    initDepend host m entry p c = some q := by
  cases hc : (entry c).isProgram with
  | false => rwa [initDepend_of_not_isProgram hc] at h ⊢
  | true =>
      rw [initDepend_of_isProgram hc, Option.map_eq_some_iff] at h ⊢
      obtain ⟨v, hv, rfl⟩ := h
      exact ⟨v, Entry.getString_mono hv hnm, rfl⟩

theorem initDepends_mono (h : initDepends host n entry p cs = some q) (hnm : n ≤ m) :
    initDepends host m entry p cs = some q := by
  induction cs generalizing p with
  | nil => exact h
  | cons c cs ih =>
      rw [initDepends, List.foldlM_cons] at h ⊢
      obtain ⟨p', hp', hq⟩ := Option.bind_eq_some_iff.mp h
      exact Option.bind_eq_some_iff.mpr ⟨p', initDepend_mono hp' hnm, ih hq⟩

theorem initDepends_unique {p' q' : ProcessSorter α} (h : initDepends host n entry p cs = some p')
    (h' : initDepends host m entry p cs = some q') : p' = q' := by
  have h₁ := initDepends_mono h (Nat.le_max_left n m)
  have h₂ := initDepends_mono h' (Nat.le_max_right n m)
  exact Option.some.inj (h₁.symm.trans h₂)

/-- `initDepends` comes to an end if and only if every `depends_on` can be evaluated. -/
theorem exists_initDepends :
    (∃ n q, initDepends host n entry p cs = some q) ↔ DependsEvaluate host entry cs := by
  induction cs generalizing p with
  | nil => exact ⟨fun _ c hc ↦ absurd hc List.not_mem_nil, fun _ ↦ ⟨0, p, rfl⟩⟩
  | cons c cs ih =>
      constructor
      · rintro ⟨n, q, h⟩
        rw [initDepends, List.foldlM_cons] at h
        obtain ⟨p', hp', hq⟩ := Option.bind_eq_some_iff.mp h
        refine List.forall_mem_cons.mpr ⟨fun hc ↦ ?_, ih.mp ⟨n, q, hq⟩⟩
        rw [initDepend_of_isProgram hc, Option.map_eq_some_iff] at hp'
        obtain ⟨v, hv, -⟩ := hp'
        exact ⟨n, v, hv⟩
      · intro h
        obtain ⟨hc, hcs⟩ := List.forall_mem_cons.mp h
        obtain ⟨m, p', hp'⟩ : ∃ m p', initDepend host m entry p c = some p' := by
          cases hprog : (entry c).isProgram with
          | false => exact ⟨0, p, initDepend_of_not_isProgram hprog⟩
          | true =>
              obtain ⟨m, v, hv⟩ := hc hprog
              exact ⟨m, _, by rw [initDepend_of_isProgram hprog, hv]; rfl⟩
        obtain ⟨k, q, hq⟩ := (ih (p := p')).mpr hcs
        refine ⟨max m k, q, ?_⟩
        rw [initDepends, List.foldlM_cons]
        exact Option.bind_eq_some_iff.mpr ⟨p', initDepend_mono hp' (Nat.le_max_left m k),
          initDepends_mono hq (Nat.le_max_right m k)⟩

/-! ## The passes -/

/-- Both variables of `sortDepends` hold the same programs. -/
def Progress.Agree (s : Progress) : Prop := s.finishedPrograms.keys.Perm s.progsStartOrder

theorem Progress.Agree.mem_iff (h : s.Agree) : x ∈ s.finishedPrograms ↔ x ∈ s.progsStartOrder :=
  AList.mem_keys.trans (List.Perm.mem_iff h)

theorem Progress.Agree.finish (h : s.Agree) (hx : x ∉ s.progsStartOrder) :
    (s.finish x).Agree := by
  have hx' : x ∉ s.finishedPrograms := fun hm ↦ hx (h.mem_iff.mp hm)
  have hkeys : (s.finish x).finishedPrograms.keys = x :: s.finishedPrograms.keys := by
    unfold Progress.finish AList.keys
    rw [AList.entries_insert_of_notMem hx', List.keys_cons]
  rw [Agree, hkeys]
  exact (List.Perm.cons x h).trans (List.perm_append_singleton x _).symm

theorem inFinishedPrograms_iff (h : s.Agree) :
    p.inFinishedPrograms x s.finishedPrograms = true ↔
      ∀ b ∈ depends p.dependsOnGraph x, b ∈ s.progsStartOrder := by
  unfold inFinishedPrograms depends
  cases p.dependsOnGraph.lookup x with
  | none => simp
  | some ds => simp [h.mem_iff]

/-- A pass is a sweep over the graph. -/
theorem pass_spec (h : s.Agree) (ks : List Str) :
    (p.pass s ks).Agree ∧ (p.pass s ks).progsStartOrder =
      Sweep.sweep (depends p.dependsOnGraph) s.progsStartOrder ks := by
  induction ks generalizing s with
  | nil => exact ⟨h, rfl⟩
  | cons x ks ih =>
      have hiff : x ∉ s.finishedPrograms ∧ p.inFinishedPrograms x s.finishedPrograms ↔
          x ∉ s.progsStartOrder ∧ ∀ b ∈ depends p.dependsOnGraph x, b ∈ s.progsStartOrder :=
        and_congr (not_congr h.mem_iff) (inFinishedPrograms_iff h)
      rw [pass, List.foldl_cons, Sweep.sweep, List.foldl_cons, Sweep.visit]
      by_cases hx : x ∉ s.finishedPrograms ∧ p.inFinishedPrograms x s.finishedPrograms
      · rw [if_pos hx, if_pos (hiff.mp hx)]
        exact ih (h.finish (hiff.mp hx).1)
      · rw [if_neg hx, if_neg (mt hiff.mpr hx)]
        exact ih h

theorem passes_map {total i : Nat} (h : s.Agree) :
    (passes rt p total n i s).map (·.progsStartOrder) =
      Sweep.sweeps (depends p.dependsOnGraph)
        (fun i ↦ (rt.fork i).range p.dependsOnGraph.keys) total n i s.progsStartOrder := by
  induction n generalizing i s with
  | zero => rfl
  | succ n ih =>
      rw [passes, Sweep.sweeps, h.length_eq]
      split
      · obtain ⟨hagree, horder⟩ := pass_spec (p := p) h ((rt.fork i).range p.dependsOnGraph.keys)
        rw [ih hagree, horder]
      · rfl

/-- The map of `getDependsOnInfo` has the programs that depend on others and these others. -/
theorem mem_getDependsOnInfo : x ∈ p.getDependsOnInfo rt ↔
    x ∈ p.dependsOnGraph ∨ ∃ a, x ∈ depends p.dependsOnGraph a := by
  have inner : ∀ (ts : List Str) (m : Map Str Str),
      x ∈ ts.foldl (fun m t ↦ m.insert t t) m ↔ x ∈ m ∨ x ∈ ts := by
    intro ts
    induction ts with
    | nil => simp
    | cons t ts ih =>
        intro m
        rw [List.foldl_cons, ih, AList.mem_insert, List.mem_cons, or_comm (a := x = t), or_assoc]
  have outer : ∀ (ks : List Str) (m : Map Str Str),
      x ∈ ks.foldl (fun m k ↦
        (depends p.dependsOnGraph k).foldl (fun m t ↦ m.insert t t) (m.insert k k)) m ↔
      x ∈ m ∨ x ∈ ks ∨ ∃ a ∈ ks, x ∈ depends p.dependsOnGraph a := by
    intro ks
    induction ks with
    | nil => simp
    | cons k ks ih =>
        intro m
        rw [List.foldl_cons, ih, inner, AList.mem_insert, List.mem_cons, List.exists_mem_cons_iff]
        tauto
  refine (outer _ _).trans ?_
  have hex : (∃ a ∈ rt.range p.dependsOnGraph.keys, x ∈ depends p.dependsOnGraph a) ↔
      ∃ a, x ∈ depends p.dependsOnGraph a :=
    exists_congr fun a ↦ and_iff_right_of_imp fun h ↦
      Runtime.mem_range.mpr (AList.mem_keys.mp (mem_of_mem_depends h))
  rw [hex, Runtime.mem_range, ← AList.mem_keys]
  simp

/-- Which programs have to do with `depends_on` is not a matter of the runtime. -/
theorem getDependsOnInfo_perm (rt rt' : Runtime) :
    (p.getDependsOnInfo rt).keys.Perm (p.getDependsOnInfo rt').keys := by
  refine (List.perm_ext_iff_of_nodup (AList.keys_nodup _) (AList.keys_nodup _)).mpr fun x ↦ ?_
  rw [← AList.mem_keys, ← AList.mem_keys, mem_getDependsOnInfo, mem_getDependsOnInfo]

theorem leaves_spec {ks : List Str} (hks : ks.Nodup) :
    (p.leaves ks).Agree ∧ (p.leaves ks).progsStartOrder = ks.filter (· ∉ p.dependsOnGraph) := by
  induction ks using List.reverseRecOn with
  | nil => exact ⟨.nil, rfl⟩
  | append_singleton ks x ih =>
      obtain ⟨hnodup, -, hdisj⟩ := List.nodup_append'.mp hks
      obtain ⟨hagree, horder⟩ := ih hnodup
      have hconcat : p.leaves (ks ++ [x]) =
          if x ∈ p.dependsOnGraph then p.leaves ks else (p.leaves ks).finish x :=
        List.foldl_append
      rw [hconcat, List.filter_append, ← horder]
      by_cases hx : x ∈ p.dependsOnGraph
      · rw [if_pos hx]
        exact ⟨hagree, by simp [hx]⟩
      · rw [if_neg hx]
        refine ⟨hagree.finish fun hm ↦ ?_, by simp [hx, Progress.finish]⟩
        rw [horder] at hm
        exact hdisj (List.mem_filter.mp hm).1 List.mem_cons_self

/-- The leaves are a start for the sweeps. -/
theorem taken_leaves {all : List Str} (hall : all.Nodup) (rt : Runtime) :
    Sweep.Taken (depends p.dependsOnGraph) all (p.leaves (rt.range all)).progsStartOrder := by
  have hnodup : (rt.range all).Nodup := (rt.range_perm all).nodup_iff.mpr hall
  rw [(leaves_spec hnodup).2]
  refine ⟨hnodup.filter _, fun x hx ↦ ?_, Sweep.topological_of_forall fun x hx b hb ↦ ?_⟩
  · exact Runtime.mem_range.mp (List.mem_filter.mp hx).1
  · have hxg : x ∉ p.dependsOnGraph := by simpa using (List.mem_filter.mp hx).2
    exact hxg (mem_of_mem_depends hb)

/-- `sortDepends` sweeps over the graph, beginning with the leaves. -/
theorem sortDepends_eq (rt : Runtime) (n : Nat) (p : ProcessSorter α) :
    p.sortDepends rt n =
      Sweep.sweeps (depends p.dependsOnGraph)
        (fun i ↦ ((rt.fork 2).fork i).range p.dependsOnGraph.keys)
        (p.getDependsOnInfo (rt.fork 0)).keys.length n 0
        (p.leaves ((rt.fork 1).range (p.getDependsOnInfo (rt.fork 0)).keys)).progsStartOrder :=
  passes_map (leaves_spec (((rt.fork 1).range_perm _).nodup_iff.mpr (AList.keys_nodup _))).1

theorem keys_subset_info : p.dependsOnGraph.keys ⊆ (p.getDependsOnInfo rt).keys :=
  fun _ hx ↦ AList.mem_keys.mp (mem_getDependsOnInfo.mpr (.inl (AList.mem_keys.mpr hx)))

/-- What `sortDepends` returns is an order of all programs that have to do with `depends_on`. -/
theorem sortDepends_spec {l : List Str} (h : p.sortDepends rt n = some l) :
    Sweep.Topological (fun a b ↦ b ∈ depends p.dependsOnGraph a) l ∧ l.Nodup ∧
      ∀ x, x ∈ l ↔ x ∈ p.getDependsOnInfo rt := by
  rw [sortDepends_eq] at h
  obtain ⟨htaken, hperm⟩ := (taken_leaves (AList.keys_nodup _) (rt.fork 1)).sweeps
    (fun i x hx ↦ keys_subset_info (Runtime.mem_range.mp hx)) h
  refine ⟨htaken.topological, htaken.nodup, fun x ↦ ?_⟩
  rw [hperm.mem_iff, (getDependsOnInfo_perm _ rt).mem_iff, AList.mem_keys]

theorem exists_sortDepends (rt : Runtime)
    (hr : Sweep.Acyclic fun a b ↦ b ∈ depends p.dependsOnGraph a) :
    ∃ n l, p.sortDepends rt n = some l := by
  have hnodup := AList.keys_nodup (p.getDependsOnInfo (rt.fork 0))
  simp only [sortDepends_eq]
  refine Sweep.exists_sweeps hr hnodup (fun i x hx ↦ ?_) (fun i a ha b hb ↦ ?_)
    (fun i a ha had ↦ ?_) (taken_leaves hnodup (rt.fork 1)) 0
  · exact keys_subset_info (Runtime.mem_range.mp hx)
  · exact AList.mem_keys.mp (mem_getDependsOnInfo.mpr (.inr ⟨a, hb⟩))
  · -- what is not a leaf depends on something
    have hmem : a ∈ (rt.fork 1).range (p.getDependsOnInfo (rt.fork 0)).keys :=
      Runtime.mem_range.mpr ha
    rw [(leaves_spec (((rt.fork 1).range_perm _).nodup_iff.mpr hnodup)).2] at had
    refine Runtime.mem_range.mpr (AList.mem_keys.mp ?_)
    by_contra hg
    exact had (List.mem_filter.mpr ⟨hmem, by simpa using hg⟩)

theorem sortDepends_mono {l : List Str} (h : p.sortDepends rt n = some l) (hnm : n ≤ m) :
    p.sortDepends rt m = some l := by
  rw [sortDepends_eq] at h ⊢
  exact Sweep.sweeps_mono h hnm

/-! ## The result -/

/-- The configurations of the programs. -/
def programs (entry : α → Entry) (cs : List α) : List α := cs.filter fun c ↦ (entry c).isProgram

/-- The configurations of one program. -/
def named (entry : α → Entry) (cs : List α) (prog : Str) : List α :=
  cs.filter fun config ↦ (entry config).isProgram && (entry config).getProgramName = prog

theorem mem_programs : c ∈ programs entry cs ↔ c ∈ cs ∧ (entry c).isProgram :=
  List.mem_filter

theorem mem_named : c ∈ named entry cs a ↔
    c ∈ cs ∧ (entry c).isProgram ∧ (entry c).getProgramName = a := by
  simp [named]

/-- Collecting the configurations by their programs finds each once. -/
theorem flatMap_named_perm {l : List Str} (hl : l.Nodup) :
    (l.flatMap (named entry cs)).Perm
      ((programs entry cs).filter fun c ↦ (entry c).getProgramName ∈ l) := by
  induction l with
  | nil => simp
  | cons a l ih =>
      obtain ⟨ha, hl⟩ := List.nodup_cons.mp hl
      rw [List.flatMap_cons]
      refine ((ih hl).append_left _).trans ?_
      -- the configurations of `a` are those not of another program of the list
      have h := List.filter_append_perm (fun c ↦ (entry c).getProgramName = a)
        ((programs entry cs).filter fun c ↦ (entry c).getProgramName ∈ a :: l)
      refine .trans (.of_eq ?_) h
      simp only [List.filter_filter, programs, named]
      congr 1 <;> refine List.filter_congr fun c _ ↦ ?_
      · by_cases hc : (entry c).getProgramName = a <;> simp [hc]
      · by_cases hc : (entry c).getProgramName = a <;> simp [hc, ha]

theorem sortDepends_initProgramWithoutDepends (rt rt' : Runtime) :
    (p.initProgramWithoutDepends rt' entry cs).sortDepends rt n = p.sortDepends rt n := by
  rw [sortDepends_eq, sortDepends_eq]
  rfl

/-- What `sortProgram` returns, in terms of the sorter it uses. -/
theorem sortProgram_eq_some : sortProgram rt host n entry cs = some r ↔
    ∃ p l, initDepends host n entry {} cs = some p ∧ p.sortDepends (rt.fork 1) n = some l ∧
      r = l.flatMap (named entry cs) ++
        (rt.fork 2).sort (fun c ↦ (entry c).getInt (str "priority") 999)
          ((programs entry cs).filter fun c ↦
            (entry c).getProgramName ∉ p.getDependsOnInfo (rt.fork 0)) := by
  have hprocs : ∀ p : ProcessSorter α, initDepends host n entry {} cs = some p →
      (p.initProgramWithoutDepends (rt.fork 0) entry cs).procsWithooutDepends =
        (programs entry cs).filter fun c ↦
          (entry c).getProgramName ∉ p.getDependsOnInfo (rt.fork 0) := by
    intro p hp
    have hnil : p.procsWithooutDepends = [] := (initDepends_depends hp).procs
    rw [initProgramWithoutDepends, hnil, List.nil_append, programs, List.filter_filter]
    exact List.filter_congr fun c _ ↦ Bool.and_comm _ _
  constructor
  · intro h
    obtain ⟨p, hp, h⟩ := Option.bind_eq_some_iff.mp h
    obtain ⟨l, hl, h⟩ := Option.bind_eq_some_iff.mp h
    rw [sortDepends_initProgramWithoutDepends] at hl
    rw [hprocs p hp] at h
    exact ⟨p, l, hp, hl, (Option.some.inj h).symm⟩
  · rintro ⟨p, l, hp, hl, rfl⟩
    refine Option.bind_eq_some_iff.mpr ⟨p, hp, Option.bind_eq_some_iff.mpr ⟨l, ?_, ?_⟩⟩
    · rw [sortDepends_initProgramWithoutDepends, hl]
    · rw [hprocs p hp]
      rfl

/-- **Permutation.**  Every program is in the result once, and nothing else is. -/
theorem sortProgram_perm (h : sortProgram rt host n entry cs = some r) :
    r.Perm (programs entry cs) := by
  obtain ⟨p, l, -, hl, rfl⟩ := sortProgram_eq_some.mp h
  obtain ⟨-, hnodup, hmem⟩ := sortDepends_spec hl
  refine .trans (.append (flatMap_named_perm hnodup) (Runtime.sort_perm _ _ _)) ?_
  refine .trans (.of_eq ?_) (List.filter_append_perm
    (fun c ↦ (entry c).getProgramName ∈ p.getDependsOnInfo (rt.fork 0)) (programs entry cs))
  congr 1 <;> refine List.filter_congr fun c _ ↦ ?_
  · rw [decide_eq_decide, hmem, mem_getDependsOnInfo, mem_getDependsOnInfo]
  · simp

/-- One configuration is of a program that depends on the program of another one. -/
def Requires (host : Host) (entry : α → Entry) (cs : List α) (c d : α) : Prop :=
  d ∈ programs entry cs ∧
    DependsOn host entry cs (entry c).getProgramName (entry d).getProgramName

/-- **Order.**  Every program comes after the listed programs it depends on. -/
theorem sortProgram_topological (h : sortProgram rt host n entry cs = some r) :
    Sweep.Topological (Requires host entry cs) r := by
  obtain ⟨p, l, hp, hl, rfl⟩ := sortProgram_eq_some.mp h
  obtain ⟨htop, -, -⟩ := sortDepends_spec hl
  refine .append (htop.flatMap fun a _ c hc d hd ↦ ?_) fun c hc d hd ↦ ?_
  · obtain ⟨-, -, rfl⟩ := mem_named.mp hc
    obtain ⟨hdcs, hdprog⟩ := mem_programs.mp hd.1
    exact ⟨_, (mem_depends_iff hp).mpr hd.2, mem_named.mpr ⟨hdcs, hdprog, rfl⟩⟩
  · -- the programs behind those of `sortDepends` depend on nothing
    have hc' : (entry c).getProgramName ∉ p.getDependsOnInfo (rt.fork 0) := by
      simpa using (List.mem_filter.mp ((Runtime.sort_perm _ _ _).subset hc)).2
    have hg : (entry c).getProgramName ∈ p.dependsOnGraph :=
      mem_of_mem_depends ((mem_depends_iff hp).mpr hd.2)
    exact absurd (mem_getDependsOnInfo.mpr (.inl hg)) hc'

theorem sortProgram_mono (h : sortProgram rt host n entry cs = some r) (hnm : n ≤ m) :
    sortProgram rt host m entry cs = some r := by
  obtain ⟨p, l, hp, hl, rfl⟩ := sortProgram_eq_some.mp h
  exact sortProgram_eq_some.mpr ⟨p, l, initDepends_mono hp hnm, sortDepends_mono hl hnm, rfl⟩

/-- **Termination.**  The programs can be sorted if and only if the values of `depends_on` can be
evaluated and nothing depends on itself. -/
theorem exists_sortProgram (rt : Runtime) :
    (∃ n r, sortProgram rt host n entry cs = some r) ↔
      DependsEvaluate host entry cs ∧ Sweep.Acyclic (DependsOn host entry cs) := by
  constructor
  · rintro ⟨n, r, h⟩
    obtain ⟨p, l, hp, hl, -⟩ := sortProgram_eq_some.mp h
    obtain ⟨htop, -, hmem⟩ := sortDepends_spec hl
    refine ⟨exists_initDepends.mp ⟨n, p, hp⟩, .mono (fun a b ↦ (mem_depends_iff hp).mpr) ?_⟩
    exact htop.acyclic fun a b hab ↦
      (hmem a).mpr (mem_getDependsOnInfo.mpr (.inl (mem_of_mem_depends hab)))
  · rintro ⟨heval, hr⟩
    obtain ⟨n, p, hp⟩ := (exists_initDepends (p := {})).mpr heval
    obtain ⟨m, l, hl⟩ := exists_sortDepends (p := p) (rt.fork 1)
      (hr.mono fun a b ↦ (mem_depends_iff hp).mp)
    exact ⟨max n m, _, sortProgram_eq_some.mpr ⟨p, l, initDepends_mono hp (Nat.le_max_left n m),
      sortDepends_mono hl (Nat.le_max_right n m), rfl⟩⟩

end ProcessSorter

end Supervisord
