import Supervisord.Config.Names

/-!
# One entry for each section

A section is stored under its name, but the section of a program or an event listener is stored
under the name of its process, which is the name of the program by default.  So a program, an event
listener and another section may meet in one entry.  `sections_distinct_iff` says exactly when each
section has an entry of its own with its own settings, for documents with one process for each
program.
-/

namespace Supervisord

open Go StringExpression

namespace Config

variable {host : Host} {n m : Nat} {c : Config} {rt : Runtime} {raw : Ini} {file : Option Ini}
  {sec d : Section} {ps vs : List (Str × Patch)} {w v : Str × Patch} {dir k x kind : Str}
  {groupOf : Str → Str} {t : Table} {e : Entry} {p : Ptr}

/-! ## The writes of a section -/

/-- The writes of `Load` for a section. -/
def writesOf (host : Host) (n : Nat) (dir : Str) (groupOf : Str → Str) (sec : Section) :
    Option (List (Str × Patch)) :=
  if (isProgramOrEventListener sec).isSome then sectionWrites host n dir groupOf sec
  else some [(sec.name, sec.patch)]

theorem isProgramOrEventListener_eq_none : isProgramOrEventListener sec = none ↔
    sec.name.hasPrefix (str "program:") = false ∧
      sec.name.hasPrefix (str "eventlistener:") = false := by
  unfold isProgramOrEventListener
  split
  · simp_all
  · split <;> simp_all

theorem mem_loadWrites_iff (hps : c.processes host n file = some ps) :
    w ∈ loadWrites file ps ↔ ∃ sec ∈ setProgramDefaultParams (.loadFile file),
      ∃ vs, writesOf host n c.configFileDir (c.grouped file).groupOf sec = some vs ∧ w ∈ vs := by
  constructor
  · intro hw
    rcases List.mem_append.mp hw with hw | hw
    · rcases List.mem_append.mp hw with hw | hw
      · obtain ⟨sec, hsec, rfl⟩ := List.mem_map.mp hw
        obtain ⟨hsec, hgroup⟩ := List.mem_filter.mp hsec
        have hnone := isProgramOrEventListener_eq_none.mpr (NamedAs.hasPrefix_group hgroup)
        refine ⟨sec, hsec, [(sec.name, sec.patch)], ?_, List.mem_cons_self⟩
        simp [writesOf, hnone]
      · obtain ⟨sec, hsec, vs, hvs, hw⟩ := exists_of_mem_collect hps hw
        refine ⟨sec, hsec, vs, ?_, hw⟩
        cases hkind : isProgramOrEventListener sec with
        | none =>
            rw [sectionWrites, hkind] at hvs
            cases hvs
            cases hw
        | some kind => simpa [writesOf, hkind] using hvs
    · obtain ⟨sec, hsec, rfl⟩ := List.mem_map.mp hw
      obtain ⟨hsec, hother⟩ := List.mem_filter.mp hsec
      simp only [isOther, Bool.and_eq_true, Bool.not_eq_true'] at hother
      have hnone := isProgramOrEventListener_eq_none.mpr ⟨hother.1.2, hother.2⟩
      refine ⟨sec, hsec, [(sec.name, sec.patch)], ?_, List.mem_cons_self⟩
      simp [writesOf, hnone]
  · rintro ⟨sec, hsec, vs, hvs, hw⟩
    unfold loadWrites
    cases hkind : isProgramOrEventListener sec with
    | none =>
        simp only [writesOf, hkind, Option.isSome_none, Bool.false_eq_true, if_false,
          Option.some.injEq] at hvs
        subst hvs
        obtain rfl := List.mem_singleton.mp hw
        obtain ⟨hp, hl⟩ := isProgramOrEventListener_eq_none.mp hkind
        cases hgroup : sec.name.hasPrefix (str "group:") with
        | true =>
            refine List.mem_append_left _ (List.mem_append_left _ (List.mem_map.mpr ⟨sec, ?_, rfl⟩))
            exact List.mem_filter.mpr ⟨hsec, hgroup⟩
        | false =>
            refine List.mem_append_right _ (List.mem_map.mpr ⟨sec, ?_, rfl⟩)
            exact List.mem_filter.mpr ⟨hsec, by simp [isOther, hgroup, hp, hl]⟩
    | some kind =>
        simp only [writesOf, hkind, Option.isSome_some, if_true] at hvs
        obtain ⟨us, hus, hsub⟩ := exists_subset_of_collect hps hsec
        obtain rfl := Option.some.inj (hvs.symm.trans hus)
        exact List.mem_append_left _ (List.mem_append_right _ (hsub hw))

/-! ## One process for each program -/

/-- Where a section is stored if its process is called like its program. -/
def storedUnder (sec : Section) : Str := match isProgramOrEventListener sec with
  | some kind => sec.name.drop kind.length
  | none => sec.name

/-- `numprocs` is 1 and `process_name` is the default. -/
structure Single (host : Host) (sec : Section) : Prop where
  numProcs : numProcs host sec = 1
  processName : sec.getValue (str "process_name") = none ∨
    sec.getValue (str "process_name") = some (str "%(program_name)s")

/-- The environment of a process has the variables of the process. -/
theorem processEnv_of_mem {group v value : Str} {i : Nat}
    (h : (v, value) ∈ [(str "program_name", x), (str "process_num", Str.itoa i),
      (str "group_name", group), (str "here", dir)]) :
    processEnv host dir x group sec i v = some value := by
  have hv : v ∈ [str "program_name", str "process_num", str "group_name", str "here"] :=
    List.mem_map_of_mem (f := (·.1)) h
  have hfree : ∀ v ∈ [str "program_name", str "process_num", str "group_name", str "here"],
      v.hasPrefix (str "ENV_") = false ∧ v ≠ str "host_node_name" := by decide
  obtain ⟨henvFree, hne⟩ := hfree v hv
  have hnodup : ([(str "program_name", x), (str "process_num", Str.itoa i),
      (str "group_name", group), (str "here", dir)].map (·.1)).Nodup := by
    show [str "program_name", str "process_num", str "group_name", str "here"].Nodup
    decide
  have hnew : StringExpression.new host _ v = some value :=
    StringExpression.new_of_mem hnodup h hne
  -- the variables of `environment` are called differently
  have henv : ∀ (l : List (Sigma fun _ : Str ↦ Str)) (se : Env),
      l.foldl (fun envs e ↦ StringExpression.add envs (str "ENV_" ++ e.1) e.2) se v = se v := by
    intro l
    induction l with
    | nil => exact fun se ↦ rfl
    | cons e l ih =>
        intro se
        have hother : v ≠ str "ENV_" ++ e.1 := fun h ↦ by
          rw [h] at henvFree
          cases henvFree
        rw [List.foldl_cons, ih, StringExpression.add, Function.update_of_ne hother]
  unfold processEnv
  cases sec.getValue (str "environment") with
  | some envValue => exact (henv _ _).trans hnew
  | none => exact hnew

theorem processEnv_programName {group : Str} {i : Nat} :
    processEnv host dir x group sec i (str "program_name") = some x :=
  processEnv_of_mem List.mem_cons_self

/-- The process of a section with one process, if there is one, is called like the program. -/
theorem eval_single {group : Str} {i : Nat} {r : Except StringExpression.Error Str}
    (hs : Single host sec) (hx : NoReference x)
    (h : StringExpression.eval host (processEnv host dir x group sec i) n
      ((sec.getValue (str "process_name")).getD x) = some r) : r = .ok x := by
  rcases hs.processName with hname | hname
  · rw [hname] at h
    exact eval_of_noReference hx h
  · rw [hname] at h
    exact StringExpression.eval_programName processEnv_programName hx h

/-- The command of the process of a section can be evaluated. -/
def Evaluates (host : Host) (dir : Str) (groupOf : Str → Str) (kind : Str) (sec : Section) : Prop :=
  ∃ m cmd, StringExpression.eval host
    (processEnv host dir (sec.name.drop kind.length) (groupOf (sec.name.drop kind.length)) sec 1) m
    (sec.getValueWithDefault (str "command") []) = some (.ok cmd)

theorem getValue_processSection {cmd : Str} {i : Nat} (hk : k ∉ ownKeys) :
    (processSection sec cmd x i).getValue k = sec.getValue k := by
  simp only [ownKeys, List.mem_cons, List.not_mem_nil, or_false, not_or] at hk
  simp only [processSection, Section.getValue_add, hk, if_false]

theorem isSome_processSection {cmd : Str} {i : Nat} (hk : k ∈ ownKeys) :
    ((processSection sec cmd x i).getValue k).isSome := by
  simp only [ownKeys, List.mem_cons, List.not_mem_nil, or_false] at hk
  simp only [processSection, Section.getValue_add]
  rcases hk with rfl | rfl | rfl | rfl <;> (repeat' split) <;> first | rfl | contradiction

theorem sectionWrites_single (hkind : isProgramOrEventListener sec = some kind)
    (hs : Single host sec) (hvs : sectionWrites host n dir groupOf sec = some vs) :
    processWrites host n dir groupOf kind sec 1 = some vs := by
  rw [sectionWrites, hkind] at hvs
  simp only [hs.numProcs] at hvs
  obtain ⟨us, hus, hvs⟩ := Option.bind_eq_some_iff.mp hvs
  obtain ⟨us', hus', rfl⟩ := Option.map_eq_some_iff.mp hvs
  obtain rfl := Option.some.inj hus'
  rw [hus, List.append_nil]

/-- What is written for a section with one process. -/
theorem single_of_mem (hkind : isProgramOrEventListener sec = some kind) (hs : Single host sec)
    (hvs : sectionWrites host n dir groupOf sec = some vs) (hw : w ∈ vs) :
    NoReference w.1 ∧ Evaluates host dir groupOf kind sec ∧
      w.2.name = some (kind ++ w.1) ∧
      (NoReference (sec.name.drop kind.length) → w.1 = sec.name.drop kind.length) := by
  have hpw := sectionWrites_single hkind hs hvs
  obtain ⟨r, hcmd, hpw⟩ := Option.bind_eq_some_iff.mp hpw
  cases r with
  | error e =>
      cases hpw
      cases hw
  | ok cmd =>
      obtain ⟨r', hname, rfl⟩ := Option.map_eq_some_iff.mp hpw
      cases r' with
      | error e => cases hw
      | ok procName =>
          obtain rfl := List.mem_singleton.mp hw
          refine ⟨noReference_of_eval hname, ⟨n, cmd, hcmd⟩, rfl, fun hx ↦ ?_⟩
          exact Except.ok.inj (eval_single hs hx hname)

/-- A section with one process whose expressions can be evaluated is written. -/
theorem exists_single (hkind : isProgramOrEventListener sec = some kind) (hs : Single host sec)
    (hvs : sectionWrites host n dir groupOf sec = some vs)
    (hx : NoReference (sec.name.drop kind.length))
    (hcmd : Evaluates host dir groupOf kind sec) :
    ∃ w cmd, vs = [w] ∧ w.1 = sec.name.drop kind.length ∧ w.2 = {
      name := some (kind ++ w.1)
      group := some (groupOf (sec.name.drop kind.length))
      keyValues := (processSection sec cmd w.1 1).patch.keyValues } := by
  have hpw := sectionWrites_single hkind hs hvs
  obtain ⟨m, cmd, hm⟩ := hcmd
  have hpw' := hpw
  obtain ⟨r, hr, hpw'⟩ := Option.bind_eq_some_iff.mp hpw'
  obtain rfl := StringExpression.eval_unique hm hr
  obtain ⟨r', hr', hvs'⟩ := Option.map_eq_some_iff.mp hpw'
  obtain rfl := eval_single hs hx hr'
  have hw : (sec.name.drop kind.length, ({
      name := some (kind ++ sec.name.drop kind.length)
      group := some (groupOf (sec.name.drop kind.length))
      keyValues := (processSection sec cmd (sec.name.drop kind.length) 1).patch.keyValues } :
      Patch)) ∈ vs := hvs' ▸ List.mem_cons_self
  exact ⟨_, cmd, hvs'.symm, rfl, rfl⟩

/-! ## Defaults -/

/-- A section with the defaults of the document. -/
def withDefaults (ini : Ini) (sec : Section) : Section :=
  match ini.getSection (str "program-default") with
  | none => sec
  | some programDefaultSection =>
    if sec.name = str "program-default" || !sec.name.hasPrefix (str "program:") then sec
    else addDefaults programDefaultSection sec

theorem setProgramDefaultParams_eq (ini : Ini) :
    setProgramDefaultParams ini = ini.map (withDefaults ini) := by
  unfold setProgramDefaultParams withDefaults
  cases ini.getSection (str "program-default") with
  | none => simp
  | some d => rfl

theorem addDefaults_spec : (addDefaults d sec).name = sec.name ∧
    ∀ k, (addDefaults d sec).getValue k = (sec.getValue k).or (d.getValue k) := by
  have fold : ∀ (l : List (Sigma fun _ : Str ↦ Str)) (sec : Section),
      let r := l.foldl (fun sec kv ↦ if sec.hasKey kv.1 then sec else sec.add kv.1 kv.2) sec
      r.name = sec.name ∧ ∀ k, r.getValue k = (sec.getValue k).or (l.dlookup k) := by
    intro l
    induction l with
    | nil => exact fun sec ↦ ⟨rfl, fun k ↦ (Option.or_none).symm⟩
    | cons kv l ih =>
        intro sec
        obtain ⟨k₀, v₀⟩ := kv
        rw [List.foldl_cons]
        by_cases hk₀ : sec.hasKey k₀ = true
        · simp only [hk₀, if_true]
          refine ⟨(ih sec).1, fun k ↦ ?_⟩
          rw [(ih sec).2 k]
          by_cases hk : k = k₀
          · subst hk
            obtain ⟨v, hv⟩ := Option.isSome_iff_exists.mp (Section.hasKey_iff.mp hk₀)
            rw [hv]
            rfl
          · rw [List.dlookup_cons_ne _ _ hk]
        · simp only [hk₀, Bool.false_eq_true, if_false]
          refine ⟨(ih _).1, fun k ↦ ?_⟩
          rw [(ih _).2 k, Section.getValue_add]
          by_cases hk : k = k₀
          · subst hk
            have hnone : sec.getValue k = none := by
              rwa [Section.hasKey_iff, Option.not_isSome_iff_eq_none] at hk₀
            rw [if_pos rfl, hnone, List.dlookup_cons_eq]
            rfl
          · rw [if_neg hk, List.dlookup_cons_ne _ _ hk]
  unfold addDefaults Section.keys
  rw [List.foldl_map]
  exact fold _ sec

theorem name_withDefaults : (withDefaults raw sec).name = sec.name := by
  unfold withDefaults
  split
  · rfl
  · split
    · rfl
    · exact addDefaults_spec.1

theorem isProgramOrEventListener_withDefaults :
    isProgramOrEventListener (withDefaults raw sec) = isProgramOrEventListener sec := by
  rw [isProgramOrEventListener, name_withDefaults, isProgramOrEventListener]

theorem withDefaults_of_not_program (h : sec.name.hasPrefix (str "program:") = false) :
    withDefaults raw sec = sec := by
  unfold withDefaults
  split
  · rfl
  · simp [h]

/-- The keys of `program-default` are keys of every program, but for those that are replaced. -/
def DefaultsGiven (raw : Ini) : Prop :=
  ∀ d, raw.getSection (str "program-default") = some d → ∀ sec ∈ raw,
    sec.name.hasPrefix (str "program:") = true → ∀ k ∉ ownKeys, d.hasKey k = true →
      sec.hasKey k = true

/-- Defaults change nothing but the keys `parseProgram` sets if and only if there are none that a
program lacks. -/
theorem defaultsGiven_iff : DefaultsGiven raw ↔ ∀ sec ∈ raw, ∀ k ∉ ownKeys,
    ((withDefaults raw sec).getValue k).map Str.trimSpace =
      (sec.getValue k).map Str.trimSpace := by
  have hne : ∀ sec : Section, sec.name.hasPrefix (str "program:") = true →
      sec.name ≠ str "program-default" := by
    intro sec hp h
    rw [h] at hp
    revert hp
    decide
  constructor
  · intro h sec hsec k hk
    unfold withDefaults
    split
    · rfl
    · rename_i d hd
      split
      · rfl
      · rename_i hprog
        simp only [Bool.or_eq_true, decide_eq_true_eq, Bool.not_eq_true', not_or,
          Bool.not_eq_false] at hprog
        rw [addDefaults_spec.2 k]
        cases hv : sec.getValue k with
        | some v => rfl
        | none =>
            cases hv' : d.getValue k with
            | none => rfl
            | some v =>
                have hkey := h d hd sec hsec hprog.2 k hk (Section.hasKey_iff.mpr (by simp [hv']))
                rw [Section.hasKey_iff, hv] at hkey
                cases hkey
  · intro h d hd sec hsec hprog k hk hkey
    have hval := congrArg Option.isSome (h sec hsec k hk)
    have hwith : withDefaults raw sec = addDefaults d sec := by
      simp [withDefaults, hd, hprog, hne sec hprog]
    rw [Section.hasKey_iff] at hkey
    rw [Option.isSome_map, Option.isSome_map, hwith, addDefaults_spec.2 k] at hval
    rw [Section.hasKey_iff, ← hval]
    simp [hkey]

/-! ## An entry for each section -/

/-- An entry has the name and exactly the settings of a section, and the keys `own` besides. -/
structure Holds (own : List Str) (e : Entry) (sec : Section) : Prop where
  name : e.name = sec.name
  settings : ∀ k ∉ own, e.keyValues k = (sec.getValue k).map .trimSpace
  own : ∀ k ∈ own, (e.keyValues k).isSome

/-- Every section has an entry of its own. -/
structure SectionsDistinct (rt : Runtime) (c : Config) (raw : Ini) : Prop where
  program : ∀ sec ∈ raw, sec.name.hasPrefix (str "program:") = true →
    ∃ p, c.getProgram rt (sec.name.drop (str "program:").length) = some p ∧
      Holds ownKeys (c.entry p) sec
  eventListener : ∀ sec ∈ raw, sec.name.hasPrefix (str "eventlistener:") = true →
    ∃ p ∈ c.getEventListeners rt, Holds ownKeys (c.entry p) sec
  other : ∀ sec ∈ raw, isProgramOrEventListener sec = none →
    ∃ k e, c.entries.get k = some e ∧ Holds [] e sec

/-- No two sections are stored under one name, and the names and commands of programs and event
listeners can be evaluated, the names to themselves. -/
structure Stored (host : Host) (dir : Str) (raw : Ini) : Prop where
  stored : (raw.map storedUnder).Nodup
  names : ∀ sec ∈ raw, ∀ kind, isProgramOrEventListener sec = some kind →
    NoReference (sec.name.drop kind.length)
  commands : ∀ sec ∈ raw, ∀ kind, isProgramOrEventListener sec = some kind →
    Evaluates host dir ((newConfig dir).grouped (some raw)).groupOf kind (withDefaults raw sec)

/-- Besides, `program-default` has no keys a program lacks. -/
structure Apart (host : Host) (dir : Str) (raw : Ini) : Prop extends Stored host dir raw where
  defaults : DefaultsGiven raw

/-- The kind of a section is the prefix of its name. -/
theorem name_eq_append {kind : Str} (h : isProgramOrEventListener sec = some kind) :
    sec.name = kind ++ sec.name.drop kind.length := by
  obtain ⟨x, hx⟩ := List.isPrefixOf_iff_prefix.mp (kind_eq h).2
  rw [← hx, List.drop_left]

theorem kind_of_append {kind kind' x y : Str} (h : isProgramOrEventListener sec = some kind)
    (h' : isProgramOrEventListener d = some kind') (hxy : kind ++ x = kind' ++ y) :
    kind = kind' ∧ x = y := by
  have hne : ∀ x y : Str, str "program:" ++ x ≠ str "eventlistener:" ++ y := by
    intro x y h
    cases h
  rcases (kind_eq h).1 with rfl | rfl <;> rcases (kind_eq h').1 with rfl | rfl
  · exact ⟨rfl, List.append_cancel_left hxy⟩
  · exact absurd hxy (hne x y)
  · exact absurd hxy.symm (hne y x)
  · exact ⟨rfl, List.append_cancel_left hxy⟩

section Fresh

variable (hnames : (raw.map Section.name).Nodup)
  (hsingle : ∀ sec ∈ raw, isProgramOrEventListener sec ≠ none → Single host (withDefaults raw sec))
  (hps : (newConfig dir).processes host n (some raw) = some ps)
include hnames hsingle hps

omit hsingle hps in
theorem eq_of_name_eq {sec' : Section} (h : sec ∈ raw) (h' : sec' ∈ raw)
    (heq : sec.name = sec'.name) : sec = sec' :=
  List.inj_on_of_nodup_map hnames h h' heq

omit hnames hsingle in
/-- The writes for the sections of the document. -/
theorem mem_fresh_iff : w ∈ loadWrites (some raw) ps ↔ ∃ sec ∈ raw, ∃ vs,
    writesOf host n dir ((newConfig dir).grouped (some raw)).groupOf (withDefaults raw sec) =
      some vs ∧ w ∈ vs := by
  rw [mem_loadWrites_iff hps, setProgramDefaultParams_eq]
  simp only [Ini.loadFile, Option.getD_some, List.mem_map, exists_exists_and_eq_and]
  rfl

omit hnames in
/-- Every section is written under one name only, if its names and commands can be evaluated. -/
theorem writesOf_stored (h : Stored host dir raw) (hsec : sec ∈ raw) : ∃ w,
    writesOf host n dir ((newConfig dir).grouped (some raw)).groupOf (withDefaults raw sec) =
        some [w] ∧ w.1 = storedUnder sec ∧ w.2.name = some sec.name ∧
      (∀ k, isProgramOrEventListener sec = none ∨ k ∉ ownKeys →
        w.2.keyValues k = ((withDefaults raw sec).getValue k).map .trimSpace) ∧
      (isProgramOrEventListener sec ≠ none → ∀ k ∈ ownKeys, (w.2.keyValues k).isSome) := by
  cases hkind : isProgramOrEventListener sec with
  | none =>
      have hwith : withDefaults raw sec = sec :=
        withDefaults_of_not_program (isProgramOrEventListener_eq_none.mp hkind).1
      refine ⟨(sec.name, sec.patch), by simp [writesOf, hwith, hkind], by simp [storedUnder, hkind],
        rfl, fun k _ ↦ by rw [hwith]; rfl, fun hne ↦ absurd rfl hne⟩
  | some kind =>
      have hkind' : isProgramOrEventListener (withDefaults raw sec) = some kind :=
        isProgramOrEventListener_withDefaults.trans hkind
      have hmem : withDefaults raw sec ∈ setProgramDefaultParams (.loadFile (some raw)) := by
        rw [setProgramDefaultParams_eq]
        exact List.mem_map_of_mem hsec
      obtain ⟨vs, hvs, -⟩ := exists_subset_of_collect hps hmem
      obtain ⟨w, cmd, rfl, hk, hpatch⟩ := exists_single hkind' (hsingle sec hsec (by simp [hkind]))
        hvs (by rw [name_withDefaults]; exact h.names sec hsec kind hkind)
        (h.commands sec hsec kind hkind)
      rw [name_withDefaults] at hk
      have hkv : ∀ k, w.2.keyValues k =
          ((processSection (withDefaults raw sec) cmd w.1 1).getValue k).map .trimSpace := by
        intro k
        rw [hpatch]
        rfl
      refine ⟨w, ?_, ?_, ?_, fun k hk ↦ ?_, fun _ k hk ↦ ?_⟩
      · rw [writesOf, hkind', Option.isSome_some, if_pos rfl]
        exact hvs
      · rw [hk, storedUnder, hkind]
      · rw [hpatch, hk, ← name_eq_append hkind]
      · have hk : k ∉ ownKeys := hk.resolve_left (by simp)
        rw [hkv, getValue_processSection hk]
      · rw [hkv, Option.isSome_map]
        exact isSome_processSection hk

omit hnames in
/-- Each section is then stored with its defaults. -/
theorem get_stored (h : Stored host dir raw)
    (hload : Loads (newConfig dir) (loadWrites (some raw) ps) c) (hsec : sec ∈ raw) :
    ∃ e, c.entries.get (storedUnder sec) = some e ∧
      Holds (if isProgramOrEventListener sec = none then [] else ownKeys) e
        (withDefaults raw sec) := by
  obtain ⟨w, hw, hk, hname, hkv, hown⟩ := writesOf_stored hsingle hps h hsec
  have hget : c.entries.get (storedUnder sec) = some (w.2.apply (newEntry dir)) := by
    rw [hload.get]
    refine Write.writes_of_forall (fun e ↦ ?_) ?_ fun v hv hvk ↦ ?_
    · simp only [Patch.apply, hname, Option.getD_some, Entry.mk.injEq, true_and]
      refine ⟨?_, funext fun k ↦ ?_⟩
      · cases w.2.group <;> rfl
      · cases w.2.keyValues k <;> rfl
    · exact List.mem_map.mpr ⟨w, (mem_fresh_iff hps).mpr ⟨sec, hsec, _, hw, List.mem_cons_self⟩, hk⟩
    · -- another section is not written here
      obtain ⟨sec', hsec', vs, hvs, hmem⟩ := (mem_fresh_iff hps).mp hv
      obtain ⟨w', hw', hk', -⟩ := writesOf_stored hsingle hps h hsec'
      obtain rfl := Option.some.inj (hvs.symm.trans hw')
      obtain rfl := List.mem_singleton.mp hmem
      obtain rfl := List.inj_on_of_nodup_map h.stored hsec' hsec (hk'.symm.trans hvk)
      exact congrArg Prod.snd (List.singleton_inj.mp (Option.some.inj (hvs.symm.trans hw)))
  have hval : ∀ k, (w.2.apply (newEntry dir)).keyValues k = w.2.keyValues k :=
    fun k ↦ Option.or_none
  refine ⟨_, hget, ?_, fun k hk ↦ ?_, fun k hk ↦ ?_⟩
  · rw [Patch.apply, hname, name_withDefaults]
    rfl
  · rw [hval]
    refine hkv k ?_
    split at hk
    · exact .inl ‹_›
    · exact .inr hk
  · rw [hval]
    split at hk
    · cases hk
    · exact hown ‹_› k hk

omit hnames in
/-- Where sections are apart, each is stored as it is. -/
theorem get_apart (h : Apart host dir raw)
    (hload : Loads (newConfig dir) (loadWrites (some raw) ps) c) (hsec : sec ∈ raw) :
    ∃ e, c.entries.get (storedUnder sec) = some e ∧
      Holds (if isProgramOrEventListener sec = none then [] else ownKeys) e sec := by
  obtain ⟨e, he, hholds⟩ := get_stored hsingle hps h.toStored hload hsec
  refine ⟨e, he, hholds.name.trans name_withDefaults, fun k hk ↦ ?_, hholds.own⟩
  rw [hholds.settings k hk]
  by_cases hnone : isProgramOrEventListener sec = none
  · rw [withDefaults_of_not_program (isProgramOrEventListener_eq_none.mp hnone).1]
  · rw [if_neg hnone] at hk
    exact defaultsGiven_iff.mp h.defaults sec hsec k hk

end Fresh

/-! ## The sections of a document -/

/-- The entry of a process is stored under the name of the process. -/
theorem lookup_of_isProgram (hwell : WellNamed c.entries.get) (hp : p ∈ c.pointers)
    (hprog : (c.entry p).isProgram = true) :
    c.entries.refs.lookup (c.entry p).getProgramName = some p := by
  obtain ⟨k, hk⟩ := mem_pointers.mp hp
  have hname : (c.entry p).name = str "program:" ++ k :=
    (hwell k _ (RefTable.get_of_lookup hk)).name_of_isProgram hprog
  rwa [Entry.getProgramName_of_name hname]

theorem getProgram_eq_some (hwell : WellNamed c.entries.get) :
    c.getProgram rt x = some p ↔
      c.entries.refs.lookup x = some p ∧ (c.entry p).isProgram = true ∧
        (c.entry p).getProgramName = x := by
  have hfind : ∀ q, (c.getProgram rt x = some q → q ∈ c.pointers ∧
      (c.entry q).isProgram = true ∧ (c.entry q).getProgramName = x) := by
    intro q hq
    obtain hmem := List.mem_of_find?_eq_some hq
    have hprop := List.find?_some hq
    rw [Bool.and_eq_true, decide_eq_true_eq] at hprop
    have hperm := (rt.range_perm c.entries.refs.entries).map (·.2)
    exact ⟨hperm.subset hmem, hprop⟩
  constructor
  · intro h
    obtain ⟨hp, hprog, hname⟩ := hfind p h
    exact ⟨hname ▸ lookup_of_isProgram hwell hp hprog, hprog, hname⟩
  · rintro ⟨hk, hprog, hname⟩
    have hmem : p ∈ (rt.range c.entries.refs.entries).map (·.2) :=
      ((rt.range_perm c.entries.refs.entries).map (·.2)).mem_iff.mpr (mem_pointers.mpr ⟨x, hk⟩)
    have hsome : (c.getProgram rt x).isSome := by
      rw [getProgram, List.find?_isSome]
      exact ⟨p, hmem, by simp [hprog, hname]⟩
    obtain ⟨q, hq⟩ := Option.isSome_iff_exists.mp hsome
    obtain ⟨hqmem, hqprog, hqname⟩ := hfind q hq
    -- both pointers are that of the entry stored under the name
    have hqk := lookup_of_isProgram hwell hqmem hqprog
    rw [hqname, hk, Option.some.injEq] at hqk
    rw [hq, hqk]

section Converse

variable (hnames : (raw.map Section.name).Nodup)
  (hsingle : ∀ sec ∈ raw, isProgramOrEventListener sec ≠ none → Single host (withDefaults raw sec))
  (hps : (newConfig dir).processes host n (some raw) = some ps)
  (hload : Loads (newConfig dir) (loadWrites (some raw) ps) c)
include hnames hsingle hps hload

/-- The entry with the name of a section of a program was written for a process of this kind. -/
theorem process_of_name (hsec : sec ∈ raw) (hkind : isProgramOrEventListener sec = some kind)
    (he : c.entries.get k = some e) (hname : e.name = sec.name) :
    k = sec.name.drop kind.length ∧ NoReference k ∧ ∃ sec' ∈ raw,
      isProgramOrEventListener sec' = some kind ∧
      Evaluates host dir ((newConfig dir).grouped (some raw)).groupOf kind
        (withDefaults raw sec') ∧
      (NoReference (sec'.name.drop kind.length) → k = sec'.name.drop kind.length) := by
  rw [hload.get] at he
  rcases name_of_writes hps he with ⟨w, hw, rfl, hwname⟩ | ⟨-, -, he⟩
  · obtain ⟨sec', hsec', vs, hvs, hmem⟩ := (mem_fresh_iff hps).mp hw
    rw [hname] at hwname
    cases hkind' : isProgramOrEventListener sec' with
    | none =>
        -- then it would be this section
        have hnone : isProgramOrEventListener (withDefaults raw sec') = none :=
          isProgramOrEventListener_withDefaults.trans hkind'
        simp only [writesOf, hnone, Option.isSome_none, Bool.false_eq_true, if_false,
          Option.some.injEq] at hvs
        subst hvs
        obtain rfl := List.mem_singleton.mp hmem
        have hsame : sec'.name = sec.name :=
          name_withDefaults.symm.trans (Option.some.inj hwname)
        obtain rfl := eq_of_name_eq hnames hsec' hsec hsame
        rw [hkind] at hkind'
        cases hkind'
    | some kind' =>
        have hsome : isProgramOrEventListener (withDefaults raw sec') = some kind' :=
          isProgramOrEventListener_withDefaults.trans hkind'
        rw [writesOf, hsome, Option.isSome_some, if_pos rfl] at hvs
        obtain ⟨href, hcmd, hpatch, hk⟩ := single_of_mem hsome
          (hsingle sec' hsec' (by simp [hkind'])) hvs hmem
        rw [hpatch, name_eq_append hkind, Option.some.injEq] at hwname
        obtain ⟨rfl, hk'⟩ := kind_of_append hkind' hkind hwname
        rw [name_withDefaults] at hk
        exact ⟨hk', href, sec', hsec', hkind', hcmd, hk⟩
  · cases he

theorem apart_of_entries (h : ∀ sec ∈ raw, ∃ k e, c.entries.get k = some e ∧
      Holds (if isProgramOrEventListener sec = none then [] else ownKeys) e sec) :
    Apart host dir raw := by
  have hwell : WellNamed c.entries.get := wellNamed_fresh hps hload
  have names : ∀ sec ∈ raw, ∀ kind, isProgramOrEventListener sec = some kind →
      NoReference (sec.name.drop kind.length) := by
    intro sec hsec kind hkind
    obtain ⟨k, e, he, hholds⟩ := h sec hsec
    obtain ⟨rfl, href, -⟩ :=
      process_of_name hnames hsingle hps hload hsec hkind he hholds.name
    exact href
  -- every section has its entry where it is stored
  have stored : ∀ sec ∈ raw, ∃ e, c.entries.get (storedUnder sec) = some e ∧
      Holds (if isProgramOrEventListener sec = none then [] else ownKeys) e sec := by
    intro sec hsec
    obtain ⟨k, e, he, hholds⟩ := h sec hsec
    suffices hk : k = storedUnder sec from ⟨e, hk ▸ he, hholds⟩
    cases hkind : isProgramOrEventListener sec with
    | some kind =>
        rw [storedUnder, hkind]
        exact (process_of_name hnames hsingle hps hload hsec hkind he hholds.name).1
    | none =>
        rw [storedUnder, hkind]
        obtain ⟨hp, hl⟩ := isProgramOrEventListener_eq_none.mp hkind
        have hnamed := hwell k e he
        rw [hholds.name] at hnamed
        generalize hname : sec.name = name at hnamed hp hl
        cases hnamed with
        | program => exact absurd hp (by simp [(NamedAs.hasPrefix_program k).1])
        | eventListener => exact absurd hl (by simp [(NamedAs.hasPrefix_eventListener k).2.1])
        | other => rfl
  have hstored : Stored host dir raw := by
    refine ⟨?_, names, fun sec hsec kind hkind ↦ ?_⟩
    · refine List.Nodup.map_on (fun sec hsec sec' hsec' heq ↦ ?_) (List.Nodup.of_map _ hnames)
      obtain ⟨e, he, hholds⟩ := stored sec hsec
      obtain ⟨e', he', hholds'⟩ := stored sec' hsec'
      rw [heq, he', Option.some.injEq] at he
      subst he
      exact eq_of_name_eq hnames hsec hsec' (hholds.name.symm.trans hholds'.name)
    · obtain ⟨e, he, hholds⟩ := stored sec hsec
      obtain ⟨hk, -, sec', hsec', hkind', hcmd, hk'⟩ :=
        process_of_name hnames hsingle hps hload hsec hkind he hholds.name
      have hsame : sec'.name = sec.name := by
        rw [name_eq_append hkind', name_eq_append hkind, ← hk, hk' (names sec' hsec' kind hkind')]
      obtain rfl := eq_of_name_eq hnames hsec' hsec hsame
      exact hcmd
  refine ⟨hstored, defaultsGiven_iff.mpr fun sec hsec k hk ↦ ?_⟩
  obtain ⟨e, he, hholds⟩ := stored sec hsec
  obtain ⟨e', he', hholds'⟩ := get_stored hsingle hps hstored hload hsec
  rw [he, Option.some.injEq] at he'
  subst he'
  have hk' : k ∉ (if isProgramOrEventListener sec = none then [] else ownKeys) := by
    split
    · exact List.not_mem_nil
    · exact hk
  rw [← hholds.settings k hk', ← hholds'.settings k hk']

end Converse

/-- Entries for all sections are possible only if these are apart. -/
theorem apart_of_distinct {loaded : List Str} (hnames : (raw.map Section.name).Nodup)
    (hsingle : ∀ sec ∈ raw, isProgramOrEventListener sec ≠ none →
      Single host (withDefaults raw sec))
    (hload : (newConfig dir).load host n (some raw) = some (c, .ok loaded))
    (h : SectionsDistinct rt c raw) : Apart host dir raw := by
  obtain ⟨ps, hps, hloads, -⟩ := load_eq_some hload
  have hwell : WellNamed c.entries.get := wellNamed_fresh hps hloads
  refine apart_of_entries hnames hsingle hps hloads fun sec hsec ↦ ?_
  cases hkind : isProgramOrEventListener sec with
  | none =>
      rw [if_pos rfl]
      exact h.other sec hsec hkind
  | some kind =>
      rw [if_neg (Option.some_ne_none kind)]
      obtain ⟨rfl | rfl, hprefix⟩ := kind_eq hkind
      · obtain ⟨p, hp, hholds⟩ := h.program sec hsec hprefix
        obtain ⟨hk, -⟩ := (getProgram_eq_some hwell).mp hp
        exact ⟨_, _, RefTable.get_of_lookup hk, hholds⟩
      · obtain ⟨p, hp, hholds⟩ := h.eventListener sec hsec hprefix
        obtain ⟨k, hk⟩ := mem_pointers.mp (mem_getEntries.mp hp).1
        exact ⟨k, _, RefTable.get_of_lookup hk, hholds⟩

/-- Sections that are apart have entries of their own. -/
theorem distinct_of_apart {loaded : List Str}
    (hsingle : ∀ sec ∈ raw, isProgramOrEventListener sec ≠ none →
      Single host (withDefaults raw sec))
    (hload : (newConfig dir).load host n (some raw) = some (c, .ok loaded))
    (h : Apart host dir raw) : SectionsDistinct rt c raw := by
  obtain ⟨ps, hps, hloads, -⟩ := load_eq_some hload
  have hwell : WellNamed c.entries.get := wellNamed_fresh hps hloads
  refine ⟨fun sec hsec hp ↦ ?_, fun sec hsec hl ↦ ?_, fun sec hsec hnone ↦ ?_⟩
  · have hkind : isProgramOrEventListener sec = some (str "program:") := by
      rw [isProgramOrEventListener, if_pos hp]
    obtain ⟨e, he, hholds⟩ := get_apart hsingle hps h hloads hsec
    obtain ⟨p, hk, rfl⟩ := RefTable.get_eq_some.mp he
    rw [if_neg (by simp [hkind])] at hholds
    have hname := hholds.name.trans (name_eq_append hkind)
    refine ⟨p, (getProgram_eq_some hwell).mpr ⟨?_, Entry.isProgram_of_name hname,
      Entry.getProgramName_of_name hname⟩, hholds⟩
    rwa [storedUnder, hkind] at hk
  · have hkind : isProgramOrEventListener sec = some (str "eventlistener:") := by
      obtain ⟨x, hx⟩ := List.isPrefixOf_iff_prefix.mp hl
      have hp : sec.name.hasPrefix (str "program:") = false := by
        rw [← hx]
        exact (NamedAs.hasPrefix_eventListener x).1
      rw [isProgramOrEventListener, if_neg (by simp [hp]), if_pos hl]
    obtain ⟨e, he, hholds⟩ := get_apart hsingle hps h hloads hsec
    obtain ⟨p, hk, rfl⟩ := RefTable.get_eq_some.mp he
    rw [if_neg (by simp [hkind])] at hholds
    refine ⟨p, mem_getEntries.mpr ⟨mem_pointers.mpr ⟨_, hk⟩, ?_⟩, hholds⟩
    exact Entry.isEventListener_of_name (hholds.name.trans (name_eq_append hkind))
  · obtain ⟨e, he, hholds⟩ := get_apart hsingle hps h hloads hsec
    rw [if_pos hnone] at hholds
    exact ⟨_, e, he, hholds⟩

/-- **Sections.**  In a document with pairwise different names of sections, and with one process
for each program and event listener, all sections have entries of their own with their own
settings if and only if the sections are apart. -/
theorem sections_distinct_iff {loaded : List Str} (hnames : (raw.map Section.name).Nodup)
    (hsingle : ∀ sec ∈ raw, isProgramOrEventListener sec ≠ none →
      Single host (withDefaults raw sec))
    (hload : (newConfig dir).load host n (some raw) = some (c, .ok loaded)) :
    (∀ rt, SectionsDistinct rt c raw) ↔ Apart host dir raw :=
  ⟨fun h ↦ apart_of_distinct hnames hsingle hload (h Runtime.inOrder),
    fun h _ ↦ distinct_of_apart hsingle hload h⟩

/-- A program and an event listener, as in the configuration template. -/
def template (program eventListener : String) : Ini :=
  [sectionOf ("program:" ++ program) "command" "/bin/cat",
    sectionOf ("eventlistener:" ++ eventListener) "command" "/bin/eventlistener"]

theorem template_single (x y : String) (hsec : sec ∈ template x y)
    (h : withDefaults (template x y) sec = sec) :
    Single Host.bare (withDefaults (template x y) sec) := by
  rw [h]
  rcases List.mem_pair.mp hsec with rfl | rfl
  · exact ⟨rfl, .inl rfl⟩
  · exact ⟨rfl, .inl rfl⟩

/-- The statement for a program and an event listener with names of their own. -/
theorem sections_distinct_template :
    ∃ c loaded, (newConfig (str "/")).load Host.bare 2 (some (template "x" "y")) =
        some (c, .ok loaded) ∧
      ((∀ rt, SectionsDistinct rt c (template "x" "y")) ↔
        Apart Host.bare (str "/") (template "x" "y")) := by
  obtain ⟨c, loaded, hload⟩ := exists_load Host.bare 2 (newConfig (str "/"))
    (some (template "x" "y")) (by decide +kernel)
  exact ⟨c, loaded, hload, sections_distinct_iff (by decide +kernel)
    (fun sec hsec _ ↦ template_single "x" "y" hsec rfl) hload⟩

/-- The program and the event listener of the configuration template have one name. -/
theorem template_sections_meet :
    ((template "x" "x").map Section.name).Nodup ∧
      (∀ sec ∈ template "x" "x", Single Host.bare sec) ∧
      ∃ c loaded, (newConfig (str "/")).load Host.bare 2 (some (template "x" "x")) =
          some (c, .ok loaded) ∧
        ¬ SectionsDistinct Runtime.inOrder c (template "x" "x") := by
  obtain ⟨c, loaded, hload⟩ := exists_load Host.bare 2 (newConfig (str "/"))
    (some (template "x" "x")) (by decide +kernel)
  have hnames : ((template "x" "x").map Section.name).Nodup := by decide +kernel
  refine ⟨hnames, fun sec hsec ↦ template_single "x" "x" hsec rfl, c, loaded, hload, fun h ↦ ?_⟩
  have hapart := apart_of_distinct hnames (fun sec hsec _ ↦ template_single "x" "x" hsec rfl)
    hload h
  exact absurd hapart.stored (by decide +kernel)

end Config

end Supervisord
