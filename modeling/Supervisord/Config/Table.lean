import Supervisord.Config.Load
import Supervisord.Memory.Write

/-!
# Loading, by value

What `Load` does to the entries is a list of writes: each section is written under its name, and
the section of a program or event listener under the name of each of its processes.  A write is a
`Patch` of the name, the group and the keys.  The writes are a function of the document and of the
groups the programs are in (`loadWrites`); what is stored already plays no part in them, but for
the `programs` of a group, which are read from the entry (`readGroup`).
-/

namespace Supervisord

open Go

/-! ## Patches -/

/-- The entries by value. -/
abbrev Table := Str → Option Entry

/-- A change to an entry: what it is given replaces what the entry has. -/
structure Patch where
  name : Option Str := none
  group : Option Str := none
  keyValues : Str → Option Str := fun _ ↦ none

namespace Patch

def apply (w : Patch) (e : Entry) : Entry where
  configDir := e.configDir
  name := w.name.getD e.name
  group := w.group.getD e.group
  keyValues k := (w.keyValues k).or (e.keyValues k)

/-- One patch and then another. -/
def andThen (v w : Patch) : Patch where
  name := w.name.or v.name
  group := w.group.or v.group
  keyValues k := (w.keyValues k).or (v.keyValues k)

theorem apply_andThen (v w : Patch) (e : Entry) : (v.andThen w).apply e = w.apply (v.apply e) := by
  obtain ⟨name, group, keyValues⟩ := w
  cases name <;> cases group <;> simp [apply, andThen, Option.or_assoc]

/-- A list of patches, as one. -/
def all (ws : List Patch) : Patch := ws.foldl andThen {}

theorem apply_foldl_andThen (v : Patch) (ws : List Patch) (e : Entry) :
    (ws.foldl andThen v).apply e = ws.foldl (fun e w ↦ w.apply e) (v.apply e) := by
  induction ws generalizing v with
  | nil => rfl
  | cons w ws ih => rw [List.foldl_cons, ih, List.foldl_cons, apply_andThen]

theorem apply_all (ws : List Patch) (e : Entry) :
    (all ws).apply e = ws.foldl (fun e w ↦ w.apply e) e :=
  apply_foldl_andThen {} ws e

end Patch

/-- The table after a list of writes, with new entries in the directory `dir`. -/
abbrev Table.writes (dir : Str) (t : Table) (ws : List (Str × Patch)) : Table :=
  Write.writes Patch.apply (newEntry dir) t ws

/-! ## The patch of a section -/

namespace Section

variable {sec : Section} {key k v : Str}

/-- What `parse` changes. -/
def patch (sec : Section) : Patch where
  name := some sec.name
  keyValues k := (sec.getValue k).map .trimSpace

theorem getValue_add : (sec.add key v).getValue k = if k = key then some v else sec.getValue k := by
  by_cases h : k = key
  · subst h
    rw [if_pos rfl]
    exact AList.lookup_insert _
  · rw [if_neg h]
    exact AList.lookup_insert_ne h

theorem hasKey_iff : sec.hasKey k = true ↔ (sec.getValue k).isSome = true := by
  rw [hasKey, decide_eq_true_eq, getValue, AList.lookup_isSome]

end Section

theorem Entry.parse_eq (e : Entry) (sec : Section) : e.parse sec = sec.patch.apply e := by
  have fold : ∀ (l : List (Sigma fun _ : Str ↦ Str)) (e : Entry), l.NodupKeys →
      l.foldl (fun c kv ↦ { c with
        keyValues := Function.update c.keyValues kv.1 (some (Str.trimSpace kv.2)) }) e =
      { e with keyValues := fun k ↦ ((l.dlookup k).map Str.trimSpace).or (e.keyValues k) } := by
    intro l
    induction l with
    | nil => exact fun e _ ↦ rfl
    | cons kv l ih =>
        intro e hl
        obtain ⟨k₀, v₀⟩ := kv
        obtain ⟨hk₀, hl⟩ := List.nodupKeys_cons.mp hl
        rw [List.foldl_cons, ih _ hl]
        congr 1
        funext k
        by_cases hk : k = k₀
        · subst hk
          rw [List.dlookup_eq_none.mpr hk₀, List.dlookup_cons_eq]
          simp
        · rw [List.dlookup_cons_ne _ _ hk]
          exact congrArg _ (Function.update_of_ne hk _ _)
  unfold Entry.parse Section.keys
  rw [List.foldl_map]
  exact fold _ _ sec.keyValues.nodupKeys

/-! ## The writes of a document -/

/-- Put together what a partial function returns for the elements of a list. -/
def collect {ι ω : Type} (g : ι → Option (List ω)) : List ι → Option (List ω)
  | [] => some []
  | i :: l => (g i).bind fun ws ↦ (collect g l).map (ws ++ ·)

section Collect

variable {σ ι ω : Type} {g : ι → Option (List ω)} {l : List ι} {ws : List ω} {w : ω}

theorem exists_of_mem_collect (h : collect g l = some ws) (hw : w ∈ ws) :
    ∃ i ∈ l, ∃ vs, g i = some vs ∧ w ∈ vs := by
  induction l generalizing ws with
  | nil =>
      cases h
      cases hw
  | cons i l ih =>
      obtain ⟨vs, hvs, h⟩ := Option.bind_eq_some_iff.mp h
      obtain ⟨us, hus, rfl⟩ := Option.map_eq_some_iff.mp h
      rcases List.mem_append.mp hw with hw | hw
      · exact ⟨i, List.mem_cons_self, vs, hvs, hw⟩
      · obtain ⟨j, hj, vs, hvs, hw⟩ := ih hus hw
        exact ⟨j, List.mem_cons_of_mem _ hj, vs, hvs, hw⟩

theorem exists_subset_of_collect {i : ι} (h : collect g l = some ws) (hi : i ∈ l) :
    ∃ vs, g i = some vs ∧ vs ⊆ ws := by
  induction l generalizing ws with
  | nil => cases hi
  | cons j l ih =>
      obtain ⟨vs, hvs, h⟩ := Option.bind_eq_some_iff.mp h
      obtain ⟨us, hus, rfl⟩ := Option.map_eq_some_iff.mp h
      rcases List.mem_cons.mp hi with rfl | hi
      · exact ⟨vs, hvs, List.subset_append_left _ _⟩
      · obtain ⟨us', hus', hsub⟩ := ih hus hi
        exact ⟨us', hus', List.subset_append_of_subset_right _ hsub⟩

theorem collect_append {l' : List ι} :
    collect g (l ++ l') = (collect g l).bind fun ws ↦ (collect g l').map (ws ++ ·) := by
  induction l with
  | nil => simp [collect]
  | cons i l ih =>
      rw [List.cons_append, collect, collect, ih]
      cases g i with
      | none => rfl
      | some vs => cases collect g l <;> simp [Function.comp_def]

theorem collect_mono {g' : ι → Option (List ω)} (hg : ∀ i ws, g i = some ws → g' i = some ws)
    (h : collect g l = some ws) : collect g' l = some ws := by
  induction l generalizing ws with
  | nil => exact h
  | cons i l ih =>
      obtain ⟨vs, hvs, h⟩ := Option.bind_eq_some_iff.mp h
      obtain ⟨us, hus, rfl⟩ := Option.map_eq_some_iff.mp h
      rw [collect, hg i vs hvs, Option.bind_some, ih hus, Option.map_some]

/-- Functions that take the longer the more there is to put together. -/
theorem exists_collect {g : Nat → ι → Option (List ω)}
    (hg : ∀ n m i ws, n ≤ m → g n i = some ws → g m i = some ws)
    (h : ∀ i ∈ l, ∃ n ws, g n i = some ws) : ∃ n ws, collect (g n) l = some ws := by
  induction l with
  | nil => exact ⟨0, [], rfl⟩
  | cons i l ih =>
      obtain ⟨⟨n, vs, hvs⟩, hl⟩ := List.forall_mem_cons.mp h
      obtain ⟨m, us, hus⟩ := ih hl
      refine ⟨max n m, vs ++ us, ?_⟩
      rw [collect, hg n _ i vs (Nat.le_max_left n m) hvs, Option.bind_some,
        collect_mono (fun i ws ↦ hg m _ i ws (Nat.le_max_right n m)) hus, Option.map_some]

/-- Where an element gives one result or none, the results are those of some of the elements, in
their order. -/
theorem exists_sublist_of_collect {κ : Type} {P : ι → Prop} {name : ι → κ} {key : ω → κ}
    (hg : ∀ i ∈ l, ∀ vs, g i = some vs → vs = [] ∧ ¬P i ∨ ∃ v, vs = [v] ∧ P i ∧ key v = name i)
    (h : collect g l = some ws) :
    ∃ is : List ι, is.Sublist l ∧ (∀ i ∈ l, i ∈ is ↔ P i) ∧ ws.map key = is.map name := by
  have run : ∃ is : List ι, is.Sublist l ∧ (∀ i ∈ is, P i) ∧ (∀ i ∈ l, P i → i ∈ is) ∧
      ws.map key = is.map name := by
    induction l generalizing ws with
    | nil =>
        cases h
        exact ⟨[], .slnil, List.forall_mem_nil _, List.forall_mem_nil _, rfl⟩
    | cons i l ih =>
        obtain ⟨hi, hl⟩ := List.forall_mem_cons.mp hg
        obtain ⟨vs, hvs, h⟩ := Option.bind_eq_some_iff.mp h
        obtain ⟨us, hus, rfl⟩ := Option.map_eq_some_iff.mp h
        obtain ⟨is, hsub, hP, hall, hmap⟩ := ih hl hus
        rcases hi vs hvs with ⟨rfl, hnot⟩ | ⟨v, rfl, hPi, hkey⟩
        · refine ⟨is, hsub.cons i, hP, List.forall_mem_cons.mpr ⟨fun hPi ↦ ?_, hall⟩, hmap⟩
          exact absurd hPi hnot
        · refine ⟨i :: is, hsub.cons_cons i, List.forall_mem_cons.mpr ⟨hPi, hP⟩, ?_, ?_⟩
          · exact List.forall_mem_cons.mpr
              ⟨fun _ ↦ List.mem_cons_self, fun j hj hPj ↦ .tail _ (hall j hj hPj)⟩
          · rw [List.singleton_append, List.map_cons, List.map_cons, hkey, hmap]
  obtain ⟨is, hsub, hP, hall, hmap⟩ := run
  exact ⟨is, hsub, fun i hi ↦ ⟨hP i, hall i hi⟩, hmap⟩

theorem exists_of_rel_some {α β : Type} {R : α → β → Prop} {a : α} {b : Option β}
    (h : Option.Rel R (some a) b) : ∃ b', b = some b' ∧ R a b' := by
  cases h with
  | some h => exact ⟨_, rfl, h⟩

theorem exists_of_rel {α β : Type} {R : α → β → Prop} {a : Option α} {b : β}
    (h : Option.Rel R a (some b)) : ∃ a', a = some a' ∧ R a' b := by
  cases h with
  | some h => exact ⟨_, rfl, h⟩

theorem rel_map {α β γ : Type} {R : α → β → Prop} {R' : α → γ → Prop} {f : β → γ} {a : Option α}
    {b : Option β} (h : Option.Rel R a b) (hf : ∀ x y, R x y → R' x (f y)) :
    Option.Rel R' a (b.map f) := by
  cases h with
  | none => exact .none
  | some h => exact .some (hf _ _ h)

/-- A loop whose rounds are related to what a function returns is related to what the function
returns altogether. -/
theorem foldlM_rel {f : σ → ι → Option σ} {R : σ → List ω → σ → Prop} (hrefl : ∀ s, R s [] s)
    (htrans : ∀ {s ws s' ws' s''}, R s ws s' → R s' ws' s'' → R s (ws ++ ws') s'')
    {s₀ : σ} (hstep : ∀ s ws, R s₀ ws s → ∀ i, Option.Rel (R s) (g i) (f s i)) (l : List ι) :
    Option.Rel (R s₀) (collect g l) (l.foldlM f s₀) := by
  have run : ∀ l s ws, R s₀ ws s → Option.Rel (R s) (collect g l) (l.foldlM f s) := by
    intro l
    induction l with
    | nil => exact fun s ws _ ↦ .some (hrefl s)
    | cons i l ih =>
        intro s ws hs
        rw [List.foldlM_cons, collect]
        have hi := hstep s ws hs i
        revert hi
        generalize g i = vs?
        generalize f s i = s'?
        intro hi
        cases hi with
        | none => exact .none
        | some h =>
            rename_i vs s'
            have hrest := ih s' (ws ++ vs) (htrans hs h)
            simp only [Option.bind_some, bind]
            revert hrest
            generalize collect g l = us?
            generalize List.foldlM f s' l = s''?
            intro hrest
            cases hrest with
            | none => exact .none
            | some h' => exact .some (htrans h h')
  exact run l s₀ [] (hrefl s₀)

end Collect

namespace Config

def groupWrites (ini : Ini) : List (Str × Patch) :=
  (ini.filter fun sec ↦ sec.name.hasPrefix (str "group:")).map fun sec ↦ (sec.name, sec.patch)

def otherWrites (ini : Ini) : List (Str × Patch) :=
  (ini.filter isOther).map fun sec ↦ (sec.name, sec.patch)

/-- The keys `parseProgram` gives a section. -/
def ownKeys : List Str :=
  [str "command", str "process_name", str "numprocs_start", str "process_num"]

/-- The section of a process, with the keys of `parseProgram`. -/
def processSection (sec : Section) (cmd procName : Str) (i : Nat) : Section :=
  ((((sec.add (str "command") cmd).add (str "process_name") procName).add (str "numprocs_start")
    (Str.itoa (i - 1))).add (str "process_num") (Str.itoa i))

/-- The write for the `i`-th process of a section, where its expressions can be evaluated. -/
def processWrites (host : Host) (n : Nat) (configFileDir : Str) (groupOf : Str → Str)
    (kind : Str) (sec : Section) (i : Nat) : Option (List (Str × Patch)) :=
  let programName := sec.name.drop kind.length
  let envs := processEnv host configFileDir programName (groupOf programName) sec i
  (StringExpression.eval host envs n (sec.getValueWithDefault (str "command") [])).bind fun
    | .error _ => some []
    | .ok cmd =>
      (StringExpression.eval host envs n
        ((sec.getValue (str "process_name")).getD programName)).map fun
        | .error _ => []
        | .ok procName => [(procName, {
            name := some (kind ++ procName)
            group := some (groupOf programName)
            keyValues := (processSection sec cmd procName i).patch.keyValues })]

/-- The writes for the processes of a section. -/
def sectionWrites (host : Host) (n : Nat) (configFileDir : Str) (groupOf : Str → Str)
    (sec : Section) : Option (List (Str × Patch)) :=
  match isProgramOrEventListener sec with
  | none => some []
  | some kind => collect (processWrites host n configFileDir groupOf kind sec)
      (List.range' 1 (numProcs host sec))

/-- The writes for the processes of a document. -/
def programWrites (host : Host) (n : Nat) (configFileDir : Str) (groupOf : Str → Str) (ini : Ini) :
    Option (List (Str × Patch)) :=
  collect (sectionWrites host n configFileDir groupOf) ini

/-- The group of a program, which is named like the program if it has not been put into one. -/
def groupOf (c : Config) (programName : Str) : Str :=
  (c.programGroup.processGroup.lookup programName).getD programName

/-- What happens to the entries is a list of writes. -/
structure Loads (c : Config) (ws : List (Str × Patch)) (c' : Config) : Prop where
  get : c'.entries.get = Table.writes c.configFileDir c.entries.get ws
  extend : c.entries.Extends c'.entries
  dir : c'.configFileDir = c.configFileDir

variable {c c' c'' : Config} {ws ws' : List (Str × Patch)} {sec : Section} {ini : Ini}
  {host : Host} {n : Nat} {k programName kind : Str} {p : Ptr} {file : Option Ini}
  {ps : List (Str × Patch)}

theorem Loads.refl (c : Config) : Loads c [] c := ⟨rfl, .refl _, rfl⟩

theorem Loads.trans (h : Loads c ws c') (h' : Loads c' ws' c'') : Loads c (ws ++ ws') c'' where
  get := by rw [h'.get, h.dir, h.get, Table.writes, Table.writes, Table.writes, Write.writes_append]
  extend := h.extend.trans h'.extend
  dir := h'.dir.trans h.dir

/-- Writing to the entry of a name, which may be a new one. -/
theorem loads_modify_createEntry {f : Entry → Entry} {w : Patch} (hf : ∀ e, f e = w.apply e) :
    Loads c [(k, w)] ((c.createEntry k c.configFileDir).1.modify
      (c.createEntry k c.configFileDir).2 f) where
  get := by
    refine RefTable.get_modify_create f |>.trans ?_
    simp only [hf]
    rfl
  extend := (RefTable.extends_create _ _ _).trans (RefTable.extends_modify _ _ _)
  dir := rfl

/-! ## The rounds -/

theorem loads_parseGroupSection (c : Config) (sec : Section) :
    Loads c (groupWrites [sec]) (c.parseGroupSection sec) := by
  unfold parseGroupSection groupWrites
  cases h : sec.name.hasPrefix (str "group:") with
  | false => simpa [h] using Loads.refl c
  | true =>
      have hw := loads_modify_createEntry (c := c) (k := sec.name)
        (f := (·.parse sec)) fun e ↦ e.parse_eq sec
      simpa [h] using ⟨hw.get, hw.extend, hw.dir⟩

theorem loads_parseGroup (c : Config) (ini : Ini) :
    Loads c (groupWrites ini) (c.parseGroup ini) := by
  induction ini generalizing c with
  | nil => exact .refl c
  | cons sec ini ih =>
      have hcons : groupWrites (sec :: ini) = groupWrites [sec] ++ groupWrites ini := by
        rw [groupWrites, List.filter_cons]
        split <;> simp_all [groupWrites]
      rw [hcons]
      exact (loads_parseGroupSection c sec).trans (ih _)

theorem loads_parseOtherSection (c : Config) (sec : Section) :
    Loads c (otherWrites [sec]) (c.parseOtherSection sec) := by
  unfold parseOtherSection otherWrites
  cases h : isOther sec with
  | false => simpa [h] using Loads.refl c
  | true =>
      have hw := loads_modify_createEntry (c := c) (k := sec.name)
        (f := (·.parse sec)) fun e ↦ e.parse_eq sec
      simpa [h] using hw

theorem loads_parseOther (c : Config) (ini : Ini) :
    Loads c (otherWrites ini) (ini.foldl parseOtherSection c) := by
  induction ini generalizing c with
  | nil => exact .refl c
  | cons sec ini ih =>
      have hcons : otherWrites (sec :: ini) = otherWrites [sec] ++ otherWrites ini := by
        rw [otherWrites, List.filter_cons]
        split <;> simp_all [otherWrites]
      rw [hcons]
      exact (loads_parseOtherSection c sec).trans (ih _)

/-! ## The processes -/

/-- `s'` follows from `s` by the writes `ws`, each of which is for a process that is loaded. -/
structure Parsed (s : Parsing) (ws : List (Str × Patch)) (s' : Parsing) : Prop where
  loads : Loads s.config ws s'.config
  groupOf : s'.config.groupOf = s.config.groupOf
  loaded : s'.loadedPrograms = s.loadedPrograms ++ ws.map (·.1)
  sec : ∀ k ∉ ownKeys, s'.sec.getValue k = s.sec.getValue k

theorem Parsed.refl (s : Parsing) : Parsed s [] s :=
  ⟨.refl _, rfl, (List.append_nil _).symm, fun _ _ ↦ rfl⟩

theorem Parsed.trans {s s' s'' : Parsing} (h : Parsed s ws s') (h' : Parsed s' ws' s'') :
    Parsed s (ws ++ ws') s'' where
  loads := h.loads.trans h'.loads
  groupOf := h'.groupOf.trans h.groupOf
  loaded := by rw [h'.loaded, h.loaded, List.map_append, List.append_assoc]
  sec k hk := (h'.sec k hk).trans (h.sec k hk)

/-- To ask for the group of a program may store it, but does not change what it is. -/
theorem getGroup_spec (c : Config) (programName : Str) :
    (c.programGroup.getGroup programName programName).1 = c.groupOf programName ∧
      groupOf { c with
        programGroup := (c.programGroup.getGroup programName programName).2 } = c.groupOf := by
  unfold ProcessGroup.getGroup groupOf
  split
  · rename_i group hg
    simp [hg]
  · rename_i hg
    refine ⟨by simp [hg], ?_⟩
    funext q
    by_cases hq : q = programName
    · subst hq
      simp [ProcessGroup.add, hg]
    · simp [ProcessGroup.add, AList.lookup_insert_ne hq]

theorem getValue_processSection_congr {sec' : Section} {cmd procName : Str} {i : Nat}
    (h : ∀ k ∉ ownKeys, sec'.getValue k = sec.getValue k) :
    (processSection sec' cmd procName i).getValue =
      (processSection sec cmd procName i).getValue := by
  funext k
  simp only [processSection, Section.getValue_add]
  by_cases hk : k ∈ ownKeys
  · simp only [ownKeys, List.mem_cons, List.not_mem_nil, or_false] at hk
    rcases hk with rfl | rfl | rfl | rfl <;> simp
  · rw [h k hk]

theorem processEnv_congr {sec' : Section} {dir group : Str} {i : Nat}
    (h : ∀ k ∉ ownKeys, sec'.getValue k = sec.getValue k) :
    processEnv host dir programName group sec' i = processEnv host dir programName group sec i := by
  rw [processEnv, processEnv, h (str "environment") (by decide)]

theorem entries_addProcess (s : Parsing) (kind programName procName cmd : Str) (i : Nat) :
    (addProcess { s with sec := s.sec.add (str "command") cmd } kind programName procName
        i).config.entries =
      (s.config.entries.create procName (newEntry s.config.configFileDir)).1.modify
        (s.config.entries.create procName (newEntry s.config.configFileDir)).2 fun entry ↦
          { entry.parse (processSection s.sec cmd procName i) with
            name := kind ++ procName
            group := (s.config.programGroup.getGroup programName programName).1 } := by
  simp only [addProcess, Config.modify, createEntry, RefTable.modify_modify]
  rfl

/-- `addProcess`, of a state whose section has the command already. -/
theorem parsed_addProcess (kind programName cmd procName : Str) (i : Nat) {s : Parsing}
    (h : ∀ k ∉ ownKeys, s.sec.getValue k = sec.getValue k) :
    Parsed s [(procName, {
        name := some (kind ++ procName)
        group := some (s.config.groupOf programName)
        keyValues := (processSection sec cmd procName i).patch.keyValues })]
      (addProcess { s with sec := s.sec.add (str "command") cmd } kind programName procName i) := by
  have hgroup := getGroup_spec s.config programName
  have hkv : (processSection s.sec cmd procName i).patch.keyValues =
      (processSection sec cmd procName i).patch.keyValues := by
    unfold Section.patch
    rw [getValue_processSection_congr h]
  refine ⟨?_, hgroup.2, rfl, fun k hk ↦ ?_⟩
  · refine ⟨?_, ?_, rfl⟩
    · rw [entries_addProcess, RefTable.get_modify_create]
      simp only [Entry.parse_eq]
      rw [Table.writes, Write.writes, List.foldl_cons, List.foldl_nil, Write.write]
      congr 2
      simp only [Patch.apply, Option.getD_some, ← hkv, ← hgroup.1]
    · exact (RefTable.extends_create _ _ _).trans
        ((RefTable.extends_modify _ _ _).trans (RefTable.extends_modify _ _ _))
  · simp only [ownKeys, List.mem_cons, List.not_mem_nil, or_false, not_or] at hk
    simp only [addProcess, Section.getValue_add, hk, if_false]

/-- A round of the loop over the processes of a section makes the writes of the process. -/
theorem parseProcess_rel (host : Host) (n : Nat) (kind : Str) {s : Parsing} (i : Nat)
    (h : ∀ k ∉ ownKeys, s.sec.getValue k = sec.getValue k) :
    Option.Rel (Parsed s)
      (processWrites host n s.config.configFileDir s.config.groupOf kind sec i)
      (parseProcess host n kind (sec.name.drop kind.length)
        ((sec.getValue (str "process_name")).getD (sec.name.drop kind.length))
        (sec.getValueWithDefault (str "command") []) s i) := by
  obtain ⟨hfst, hsnd⟩ := getGroup_spec s.config (sec.name.drop kind.length)
  let s₁ : Parsing := { s with config.programGroup :=
    (s.config.programGroup.getGroup (sec.name.drop kind.length)
      (sec.name.drop kind.length)).2 }
  have h₁ : Parsed s [] s₁ := ⟨⟨rfl, .refl _, rfl⟩, hsnd, (List.append_nil _).symm, fun _ _ ↦ rfl⟩
  unfold processWrites parseProcess
  simp only [hfst, processEnv_congr h]
  cases StringExpression.eval host (processEnv host s.config.configFileDir
      (sec.name.drop kind.length) (s.config.groupOf (sec.name.drop kind.length)) sec i) n
      (sec.getValueWithDefault (str "command") []) with
  | none => exact .none
  | some r =>
      cases r with
      | error e => exact .some h₁
      | ok cmd =>
          simp only [Option.bind_some]
          cases StringExpression.eval host (processEnv host s.config.configFileDir
              (sec.name.drop kind.length) (s.config.groupOf (sec.name.drop kind.length)) sec i) n
              ((sec.getValue (str "process_name")).getD (sec.name.drop kind.length)) with
          | none => exact .none
          | some r =>
              cases r with
              | error e =>
                  refine .some ⟨h₁.loads, h₁.groupOf, h₁.loaded, fun k hk ↦ ?_⟩
                  simp only [ownKeys, List.mem_cons, not_or] at hk
                  simp only [Section.getValue_add, hk.1, if_false]
              | ok procName =>
                  have h₂ := parsed_addProcess (s := s₁) kind (sec.name.drop kind.length) cmd
                    procName i h
                  rw [hsnd] at h₂
                  exact .some (h₁.trans h₂)

/-- The states of the loop over the sections, related like those of the loop over the processes
of a section. -/
def ParsedSection (s : Config × List Str) (ws : List (Str × Patch)) (s' : Config × List Str) :
    Prop :=
  Loads s.1 ws s'.1 ∧ s'.1.groupOf = s.1.groupOf ∧ s'.2 = s.2 ++ ws.map (·.1)

theorem parseProgramSection_rel (host : Host) (n : Nat) (s : Config × List Str) (sec : Section) :
    Option.Rel (ParsedSection s)
      (sectionWrites host n s.1.configFileDir s.1.groupOf sec)
      (parseProgramSection host n s sec) := by
  unfold sectionWrites parseProgramSection
  cases isProgramOrEventListener sec with
  | none => exact .some ⟨.refl _, rfl, (List.append_nil _).symm⟩
  | some kind =>
      refine rel_map (foldlM_rel (R := Parsed) Parsed.refl Parsed.trans (fun s' ws hs i ↦ ?_)
        (List.range' 1 (numProcs host sec))) fun ws s' h ↦ ⟨h.loads, h.groupOf, h.loaded⟩
      have hround := parseProcess_rel host n kind i hs.sec
      rwa [hs.loads.dir, hs.groupOf] at hround

theorem parseProgram_rel (host : Host) (n : Nat) (c : Config) (ini : Ini) :
    Option.Rel (ParsedSection (c, [])) (programWrites host n c.configFileDir c.groupOf ini)
      (parseProgram host n c ini) := by
  refine foldlM_rel (fun s ↦ ⟨.refl _, rfl, (List.append_nil _).symm⟩) ?_ ?_ ini
  · rintro s ws s' ws' s'' ⟨h, hgroup, hloaded⟩ ⟨h', hgroup', hloaded'⟩
    refine ⟨h.trans h', hgroup'.trans hgroup, ?_⟩
    rw [hloaded', hloaded, List.map_append, List.append_assoc]
  · rintro s ws ⟨h, hgroup, -⟩ sec
    have hround := parseProgramSection_rel host n s sec
    rwa [h.dir, hgroup] at hround

/-! ## The document -/

/-- The sections of a document, and the configuration with its groups read: where the programs
of the document are parsed. -/
def grouped (c : Config) (file : Option Ini) : Config :=
  parseGroup { c with programGroup := {} } (setProgramDefaultParams (.loadFile file))

/-- The writes of `Load` for the processes of a file. -/
def processes (host : Host) (n : Nat) (c : Config) (file : Option Ini) :
    Option (List (Str × Patch)) :=
  programWrites host n c.configFileDir (c.grouped file).groupOf
    (setProgramDefaultParams (.loadFile file))

/-- The writes of `Load`, given those for the processes. -/
def loadWrites (file : Option Ini) (ps : List (Str × Patch)) : List (Str × Patch) :=
  groupWrites (setProgramDefaultParams (.loadFile file)) ++ ps ++
    otherWrites (setProgramDefaultParams (.loadFile file))

/-- What `Load` does. -/
theorem load_rel (host : Host) (n : Nat) (c : Config) (file : Option Ini) :
    Option.Rel (fun ps r ↦ Loads c (loadWrites file ps) r.1 ∧ r.2 = .ok (ps.map (·.1)))
      (c.processes host n file) (c.load host n file) := by
  have hgroup : Loads c (groupWrites (setProgramDefaultParams (.loadFile file)))
      (c.grouped file) := by
    have h := loads_parseGroup { c with programGroup := {} }
      (setProgramDefaultParams (.loadFile file))
    exact ⟨h.get, h.extend, h.dir⟩
  have hprog := parseProgram_rel host n (c.grouped file)
    (setProgramDefaultParams (.loadFile file))
  rw [hgroup.dir] at hprog
  have hparse : Option.Rel
      (fun ps r ↦ Loads c (loadWrites file ps) r.1 ∧ r.2 = ps.map (·.1))
      (c.processes host n file)
      (parse host n { c with programGroup := {} } (.loadFile file)) := by
    refine rel_map hprog fun ps s hs ↦ ⟨?_, hs.2.2⟩
    exact (hgroup.trans hs.1).trans (loads_parseOther _ _)
  refine rel_map hparse fun ps s hs ↦ ⟨hs.1, ?_⟩
  exact congrArg Except.ok hs.2

/-- `Load` comes to an end if the expressions for the processes can be evaluated. -/
theorem load_eq_some {r : Config × Except Str (List Str)} (h : c.load host n file = some r) :
    ∃ ps, c.processes host n file = some ps ∧ Loads c (loadWrites file ps) r.1 ∧
      r.2 = .ok (ps.map (·.1)) := by
  have hrel := load_rel host n c file
  rw [h] at hrel
  exact exists_of_rel hrel

/-- The other direction of `load_eq_some`. -/
theorem load_of_processes (hps : c.processes host n file = some ps) :
    ∃ c', c.load host n file = some (c', .ok (ps.map (·.1))) ∧ Loads c (loadWrites file ps) c' := by
  have hrel := load_rel host n c file
  rw [hps] at hrel
  obtain ⟨⟨c', r⟩, h, hloads, rfl⟩ := exists_of_rel_some hrel
  exact ⟨c', h, hloads⟩

theorem exists_load (host : Host) (n : Nat) (c : Config) (file : Option Ini)
    (h : (c.load host n file).isSome = true) :
    ∃ c' loaded, c.load host n file = some (c', .ok loaded) := by
  obtain ⟨⟨c', r⟩, hr⟩ := Option.isSome_iff_exists.mp h
  obtain ⟨ps, -, -, rfl⟩ := load_eq_some hr
  exact ⟨c', _, hr⟩

/-! ## Removing programs -/

theorem foldl_removeProgram (c : Config) (l : List Str) :
    (l.foldl removeProgram c).entries.refs = l.foldl (·.erase ·) c.entries.refs ∧
      (l.foldl removeProgram c).entries.cells = c.entries.cells ∧
      (l.foldl removeProgram c).configFileDir = c.configFileDir := by
  induction l generalizing c with
  | nil => exact ⟨rfl, rfl, rfl⟩
  | cons x l ih => exact ih (c.removeProgram x)

theorem lookup_foldl_removeProgram (l : List Str) :
    (l.foldl removeProgram c).entries.refs.lookup k =
      if k ∈ l then none else c.entries.refs.lookup k := by
  rw [(foldl_removeProgram c l).1, lookup_foldl_erase]
  congr

theorem get_foldl_removeProgram (l : List Str) :
    (l.foldl removeProgram c).entries.get k = if k ∈ l then none else c.entries.get k := by
  rw [RefTable.get, lookup_foldl_removeProgram, (foldl_removeProgram c l).2.1]
  split <;> rfl

/-- A section with one key. -/
def sectionOf (name key value : String) : Section where
  name := str name
  keyValues := AList.singleton (str key) (str value)

end Config

end Supervisord
