import Supervisord.Config.Sections
import Supervisord.Config.Stale
import Supervisord.Config.Values
import Supervisord.Go.Decimal

/-!
# What the variables of a process mean

`parseProgram` replaces the variables of a process in its command by the name of the section, the
number of the process and the group the section is in.  The entry it makes takes the name of the
process for the name of the program, and the name of a group section, which it is not, for the
group.  `sameMeaning_iff` states for which processes the two agree.
-/

namespace Supervisord

open Go StringExpression

variable {host : Host} {n i : Nat} {c c' : Config} {dir : Str} {file : Option Ini} {sec : Section}
  {s s' : Config.Parsing} {e : Entry} {k v group procName cmd : Str}

/-- The variables that every process has. -/
def processVariableNames : List Str :=
  [str "program_name", str "group_name", str "process_num", str "here"]

/-- The variables have the values of an environment in the expressions of an entry. -/
structure SameMeaning (host : Host) (n : Nat) (env : Env) (e : Entry) : Prop where
  expression : ∃ env', e.envOfExpression host n = some env' ∧
    ∀ v ∈ processVariableNames, env v = env' v
  keyValues : ∃ env', e.envOfVariables host n = some env' ∧
    ∀ v ∈ processVariableNames, env v = env' v

namespace Config

/-! ## In the course of a load -/

/-- The configurations a file is loaded into and programs are removed from. -/
inductive Made (host : Host) (dir : Str) : Config → Prop
  | new : Made host dir (newConfig dir)
  | load {n : Nat} {c c' : Config} {file : Option Ini} {r : Except Str (List Str)} :
      Made host dir c → c.load host n file = some (c', r) → Made host dir c'
  | removeProgram {c : Config} {programName : Str} :
      Made host dir c → Made host dir (c.removeProgram programName)

/-- The entries are in the directory of the configuration. -/
structure Here (dir : Str) (c : Config) : Prop where
  configFileDir : c.configFileDir = dir
  entries : ∀ k e, c.entries.get k = some e → e.configDir = dir

theorem Here.loads {ws : List (Str × Patch)} (h : Here dir c) (hl : Loads c ws c') :
    Here dir c' where
  configFileDir := hl.dir.trans h.configFileDir
  entries k e he := by
    rw [hl.get, h.configFileDir] at he
    exact configDir_writes h.entries he

theorem Made.here (h : Made host dir c) : Here dir c := by
  induction h with
  | new =>
      refine ⟨rfl, fun k e he ↦ ?_⟩
      cases he
  | load _ hload ih =>
      obtain ⟨ps, -, hl, -⟩ := load_eq_some hload
      exact ih.loads hl
  | @removeProgram c programName _ ih =>
      refine ⟨ih.configFileDir, fun k e he ↦ ?_⟩
      obtain ⟨p, hp, he⟩ := RefTable.get_eq_some.mp he
      by_cases hk : k = programName
      · subst hk
        have hnone : (c.removeProgram k).entries.refs.lookup k = none := AList.lookup_erase k _
        rw [hnone] at hp
        cases hp
      · have hp' : c.entries.refs.lookup k = some p :=
          (AList.lookup_erase_ne hk).symm.trans hp
        exact ih.entries k e (RefTable.get_eq_some.mpr ⟨p, hp', he⟩)

/-- The program of a section. -/
def programOf (sec : Section) : Str := sec.name.drop (str "program:").length

/-- The round of the loop for the `i`-th process of a program section. -/
def parseProgramProcess (host : Host) (n : Nat) (sec : Section) (s : Parsing) (i : Nat) :
    Option Parsing :=
  parseProcess host n (str "program:") (programOf sec)
    ((sec.getValue (str "process_name")).getD (programOf sec))
    (sec.getValueWithDefault (str "command") []) s i

/-- `parseProgram` has come to the `i`-th process of the program section `sec`. -/
structure AtProcess (host : Host) (n : Nat) (c : Config) (file : Option Ini) (sec : Section)
    (i : Nat) (s : Parsing) : Prop where
  kind : isProgramOrEventListener sec = some (str "program:")
  mem : i ∈ List.range' 1 (numProcs host sec)
  run : ∃ pre post c₁ loaded,
    setProgramDefaultParams (.loadFile file) = pre ++ sec :: post ∧
    parseProgram host n (c.grouped file) pre = some (c₁, loaded) ∧
    (List.range' 1 (i - 1)).foldlM (parseProgramProcess host n sec)
      { config := c₁, sec, loadedPrograms := loaded } = some s

theorem grouped_here (h : Here dir c) (file : Option Ini) : Here dir (c.grouped file) := by
  have hl := loads_parseGroup { c with programGroup := {} }
    (setProgramDefaultParams (.loadFile file))
  exact Here.loads (c := { c with programGroup := {} }) ⟨h.configFileDir, h.entries⟩ hl

theorem AtProcess.here (h : AtProcess host n c file sec i s) (hc : Here dir c) :
    Here dir s.config := by
  obtain ⟨pre, post, c₁, loaded, -, hpre, hrun⟩ := h.run
  have hprog := parseProgram_rel host n (c.grouped file) pre
  rw [hpre] at hprog
  obtain ⟨ws, -, hl, -, -⟩ := exists_of_rel hprog
  have h₁ : Here dir c₁ := (grouped_here hc file).loads hl
  have hstep : ∀ s' ws, Parsed { config := c₁, sec, loadedPrograms := loaded } ws s' → ∀ i,
      Option.Rel (Parsed s')
        (processWrites host n c₁.configFileDir c₁.groupOf (str "program:") sec i)
        (parseProgramProcess host n sec s' i) := by
    intro s' ws hs i
    have hround := parseProcess_rel host n (str "program:") i hs.sec
    rwa [hs.loads.dir, hs.groupOf] at hround
  have hrel := foldlM_rel Parsed.refl Parsed.trans hstep (List.range' 1 (i - 1))
  rw [hrun] at hrel
  obtain ⟨ws', -, hp⟩ := exists_of_rel hrel
  exact h₁.loads hp.loads

/-- The group the section is found in. -/
def groupAt (s : Parsing) (sec : Section) : Str :=
  (s.config.programGroup.getGroup (programOf sec) (programOf sec)).1

/-- The environment in which the command and the name of the process are evaluated. -/
def loadEnv (host : Host) (s : Parsing) (sec : Section) (i : Nat) : Env :=
  processEnv host s.config.configFileDir (programOf sec) (groupAt s sec) s.sec i

/-- The entry of a process holds the name and the number of the process and the group of the
section. -/
theorem AtProcess.entry (h : AtProcess host n c file sec i s) (hc : Here dir c)
    (hcmd : eval host (loadEnv host s sec i) n (sec.getValueWithDefault (str "command") []) =
      some (.ok cmd))
    (hproc : eval host (loadEnv host s sec i) n
      ((sec.getValue (str "process_name")).getD (programOf sec)) = some (.ok procName))
    (hs' : parseProgramProcess host n sec s i = some s')
    (he : s'.config.entries.get procName = some e) :
    e.configDir = dir ∧ e.name = str "program:" ++ procName ∧ e.group = groupAt s sec ∧
      e.keyValues (str "process_num") = some (Str.itoa i) := by
  have hhere := h.here hc
  let s₁ : Parsing := { s with config.programGroup :=
    (s.config.programGroup.getGroup (programOf sec) (programOf sec)).2 }
  have hcmd' : eval host (processEnv host s₁.config.configFileDir (programOf sec)
      (s.config.programGroup.getGroup (programOf sec) (programOf sec)).1 s₁.sec i) n
      (sec.getValueWithDefault (str "command") []) = some (.ok cmd) := hcmd
  have hproc' : eval host (processEnv host s₁.config.configFileDir (programOf sec)
      (s.config.programGroup.getGroup (programOf sec) (programOf sec)).1 s₁.sec i) n
      ((sec.getValue (str "process_name")).getD (programOf sec)) = some (.ok procName) := hproc
  unfold parseProgramProcess parseProcess at hs'
  dsimp only at hs'
  rw [hcmd', Option.bind_some] at hs'
  dsimp only at hs'
  rw [hproc', Option.bind_some] at hs'
  obtain rfl := Option.some.inj hs'
  have hsame : ∀ k ∉ ownKeys, s₁.sec.getValue k = s₁.sec.getValue k := fun _ _ ↦ rfl
  have hp := parsed_addProcess (str "program:") (programOf sec) cmd procName i hsame
  rw [hp.loads.get, Table.writes, Write.writes, List.foldl_cons, List.foldl_nil, Write.write,
    Function.update_self] at he
  obtain rfl := Option.some.inj he
  have hgroup := getGroup_spec s.config (programOf sec)
  refine ⟨?_, rfl, ?_, ?_⟩
  · show ((s.config.entries.get procName).getD (newEntry s.config.configFileDir)).configDir = dir
    cases hget : s.config.entries.get procName with
    | none => exact hhere.configFileDir
    | some e => exact hhere.entries procName e hget
  · show s₁.config.groupOf (programOf sec) = groupAt s sec
    rw [groupAt, hgroup.1]
    exact congrFun hgroup.2 (programOf sec)
  · have hnum : (processSection s₁.sec cmd procName i).getValue (str "process_num") =
        some (Str.itoa i) := by
      rw [processSection, Section.getValue_add, if_pos rfl]
    have htrim : Str.trimSpace (Str.itoa i) = Str.itoa i :=
      Str.trimSpace_of_digits Str.isDigit_of_mem_itoa
    show (((processSection s₁.sec cmd procName i).getValue (str "process_num")).map
      Str.trimSpace).or (((s.config.entries.get procName).getD
        (newEntry s.config.configFileDir)).keyValues (str "process_num")) = some (Str.itoa i)
    rw [hnum, Option.map_some, htrim, Option.some_or]

end Config

/-! ## The variables of an entry -/

/-- What the variables stand for. -/
def processValues (programName group here : Str) (i : Nat) : List (Str × Str) :=
  [(str "program_name", programName), (str "process_num", Str.itoa i), (str "group_name", group),
    (str "here", here)]

/-- An environment gives the variables these values. -/
def Gives (env : Env) (values : List (Str × Str)) : Prop :=
  ∀ v value, (v, value) ∈ values → env v = some value

theorem gives_processEnv {i : Nat} :
    Gives (Config.processEnv host dir k group sec i) (processValues k group dir i) :=
  fun _ _ h ↦ Config.processEnv_of_mem h

theorem gives_loadEnv : Gives (Config.loadEnv host s sec i)
    (processValues (Config.programOf sec) (Config.groupAt s sec) s.config.configFileDir i) :=
  gives_processEnv

/-- Two environments agree on the variables if and only if the values they give are the same. -/
theorem agree_iff {env env' : Env} {program program' group' here here' : Str}
    (h : Gives env (processValues program group here i))
    (h' : Gives env' (processValues program' group' here' i)) :
    (∀ v ∈ processVariableNames, env v = env' v) ↔
      program = program' ∧ group = group' ∧ here = here' := by
  simp only [Gives, processValues, List.mem_cons, List.not_mem_nil, or_false, Prod.mk.injEq] at h h'
  simp only [processVariableNames, List.forall_mem_cons, List.not_mem_nil, false_imp_iff,
    implies_true, and_true]
  rw [h (str "program_name") program (.inl ⟨rfl, rfl⟩),
    h' (str "program_name") program' (.inl ⟨rfl, rfl⟩),
    h (str "group_name") group (.inr (.inr (.inl ⟨rfl, rfl⟩))),
    h' (str "group_name") group' (.inr (.inr (.inl ⟨rfl, rfl⟩))),
    h (str "process_num") _ (.inr (.inl ⟨rfl, rfl⟩)),
    h' (str "process_num") _ (.inr (.inl ⟨rfl, rfl⟩)),
    h (str "here") here (.inr (.inr (.inr ⟨rfl, rfl⟩))),
    h' (str "here") here' (.inr (.inr (.inr ⟨rfl, rfl⟩)))]
  simp only [Option.some.injEq, true_and]

theorem processVariables_eq (hn : n ≠ 0)
    (hnum : e.keyValues (str "process_num") = some (Str.itoa i)) :
    e.processVariables host n =
      some (processValues e.getProgramName e.getGroupName e.configDir i) := by
  obtain ⟨n, rfl⟩ := Nat.exists_eq_succ_of_ne_zero hn
  have hfree : NoReference (Str.itoa i) := by
    refine noReference_of_notMem fun h ↦ ?_
    have hdigit := Str.isDigit_of_mem_itoa 37 h
    revert hdigit
    decide
  have hstring : e.getString host (n + 1) (str "process_num") (str "0") = some (Str.itoa i) := by
    unfold Entry.getString
    rw [hnum]
    dsimp only
    rw [eval, replace_eq_ok_none.mpr hfree]
    rfl
  rw [Entry.processVariables, hstring]
  rfl

/-- The environments of an entry give the variables what the entry says of itself. -/
theorem gives_envOf (hn : n ≠ 0) (hnum : e.keyValues (str "process_num") = some (Str.itoa i)) :
    (∃ env, e.envOfExpression host n = some env ∧
      Gives env (processValues e.getProgramName e.getGroupName e.configDir i)) ∧
    ∃ env, e.envOfVariables host n = some env ∧
      Gives env (processValues e.getProgramName e.getGroupName e.configDir i) := by
  have hvars : e.processVariables host n = _ := processVariables_eq hn hnum
  have hne : ∀ v value, (v, value) ∈
      processValues e.getProgramName e.getGroupName e.configDir i → v ≠ str "host_node_name" := by
    intro v value h
    have hv : v ∈ (processValues e.getProgramName e.getGroupName e.configDir i).map (·.1) :=
      List.mem_map_of_mem (f := (·.1)) h
    have hall : ∀ v ∈ [str "program_name", str "process_num", str "group_name", str "here"],
        v ≠ str "host_node_name" := by decide
    exact hall v hv
  constructor
  · refine ⟨_, congrArg _ hvars, fun v value h ↦ ?_⟩
    refine new_of_mem ?_ (List.mem_append_left _ h) (hne v value h)
    show [str "program_name", str "process_num", str "group_name", str "here",
      str "host_node_name"].Nodup
    decide
  · refine ⟨_, congrArg _ hvars, fun v value h ↦ ?_⟩
    refine new_of_mem ?_ h (hne v value h)
    show [str "program_name", str "process_num", str "group_name", str "here"].Nodup
    decide

theorem getGroupName_of_name (h : e.name = str "program:" ++ k) : e.getGroupName = [] := by
  have hkind : e.isKind (str "group:") = false := by
    rw [Entry.isKind, h]
    rfl
  rw [Entry.getGroupName, Entry.nameOf, hkind]
  rfl

/-- The variables of an entry mean what they mean in an environment that gives them these
values. -/
theorem sameMeaning_iff {env : Env} {program here : Str} (hn : n ≠ 0)
    (henv : Gives env (processValues program group here i))
    (hnum : e.keyValues (str "process_num") = some (Str.itoa i)) :
    SameMeaning host n env e ↔
      program = e.getProgramName ∧ group = e.getGroupName ∧ here = e.configDir := by
  obtain ⟨⟨env₁, h₁, hg₁⟩, env₂, h₂, hg₂⟩ :
      (∃ env, e.envOfExpression host n = some env ∧ Gives env _) ∧
        ∃ env, e.envOfVariables host n = some env ∧ Gives env _ := gives_envOf hn hnum
  constructor
  · rintro ⟨⟨env', he, h⟩, -⟩
    obtain rfl := Option.some.inj (h₁.symm.trans he)
    exact (agree_iff henv hg₁).mp h
  · intro h
    exact ⟨⟨env₁, h₁, (agree_iff henv hg₁).mpr h⟩, ⟨env₂, h₂, (agree_iff henv hg₂).mpr h⟩⟩

end Supervisord
