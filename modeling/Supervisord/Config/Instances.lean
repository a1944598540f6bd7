import Supervisord.Config.Sections
import Supervisord.Config.Template

/-!
# The processes of a section

A section with `numprocs` is parsed into an entry for each of its processes.  The loop keeps its
results in the section itself: the command and the name of a process are put where those of the
section were.  Each round starts from what was read before the loop, though, and overwrites the
same keys, so that no process sees another (`parseProgram_instances`).
-/

namespace Supervisord

open Go StringExpression

namespace Config

variable {host : Host} {n m : Nat} {c c₀ c' : Config} {pre post : Ini} {sec : Section} {dir x : Str}
  {groupOf : Str → Str} {kind k : Str} {i j : Nat} {vs ws : List (Str × Patch)} {t₁ t₂ : List Piece}

/-! ## More rounds -/

theorem processWrites_mono (hnm : n ≤ m)
    (h : processWrites host n dir groupOf kind sec i = some vs) :
    processWrites host m dir groupOf kind sec i = some vs := by
  obtain ⟨r, hr, h⟩ := Option.bind_eq_some_iff.mp h
  refine Option.bind_eq_some_iff.mpr ⟨r, eval_mono hr hnm, ?_⟩
  cases r with
  | error e => exact h
  | ok cmd =>
      obtain ⟨r', hr', h⟩ := Option.map_eq_some_iff.mp h
      exact Option.map_eq_some_iff.mpr ⟨r', eval_mono hr' hnm, h⟩

theorem sectionWrites_of_kind (hkind : isProgramOrEventListener sec = some kind) :
    sectionWrites host n dir groupOf sec =
      collect (processWrites host n dir groupOf kind sec) (List.range' 1 (numProcs host sec)) := by
  rw [sectionWrites, hkind]

theorem sectionWrites_mono (hnm : n ≤ m) (h : sectionWrites host n dir groupOf sec = some ws) :
    sectionWrites host m dir groupOf sec = some ws := by
  cases hkind : isProgramOrEventListener sec with
  | none =>
      rw [sectionWrites, hkind] at h ⊢
      exact h
  | some kind =>
      rw [sectionWrites_of_kind hkind] at h ⊢
      exact collect_mono (fun i vs ↦ processWrites_mono hnm) h

/-! ## Writes among others -/

section Among

variable {ps qs us : List (Str × Patch)} {w : Str × Patch}

/-- A section more, and rounds enough for all. -/
theorem programWrites_insert (hus : programWrites host m dir groupOf (pre ++ post) = some us)
    (hws : sectionWrites host n dir groupOf sec = some ws) :
    ∃ ps qs, us = ps ++ qs ∧ programWrites host (max m n) dir groupOf pre = some ps ∧
      programWrites host (max m n) dir groupOf (pre ++ sec :: post) = some (ps ++ (ws ++ qs)) := by
  rw [programWrites, collect_append] at hus
  obtain ⟨ps, hps, hus⟩ := Option.bind_eq_some_iff.mp hus
  obtain ⟨qs, hqs, rfl⟩ := Option.map_eq_some_iff.mp hus
  have hpre := collect_mono (fun sec vs ↦ sectionWrites_mono (Nat.le_max_left m n)) hps
  have hpost := collect_mono (fun sec vs ↦ sectionWrites_mono (Nat.le_max_left m n)) hqs
  refine ⟨ps, qs, rfl, hpre, ?_⟩
  rw [programWrites, collect_append, hpre, Option.bind_some, collect,
    sectionWrites_mono (Nat.le_max_right m n) hws, Option.bind_some, hpost]
  rfl

/-- Where a name is written once, the entry is as it has been written. -/
theorem Loads.exists_get (h : Loads c (ps ++ (ws ++ qs)) c') (hnodup : (ws.map (·.1)).Nodup)
    (hw : w ∈ ws) (hout : w.1 ∉ (ps ++ qs).map (·.1)) :
    ∃ e, c'.entries.get w.1 = some (w.2.apply e) := by
  rw [List.map_append, List.mem_append, not_or] at hout
  rw [h.get, Table.writes, Write.writes_append, Write.writes_append,
    Write.writes_of_notMem hout.2, Write.writes_of_nodup hnodup hw]
  exact ⟨_, rfl⟩

/-- The other entries are as they are without these writes. -/
theorem Loads.get_eq (h₀ : Loads c (ps ++ qs) c₀) (h : Loads c (ps ++ (ws ++ qs)) c')
    (hk : k ∉ ws.map (·.1)) : c'.entries.get k = c₀.entries.get k := by
  rw [h.get, h₀.get, Table.writes, Table.writes, Write.writes_append, Write.writes_append,
    Write.writes_append]
  exact Write.writes_congr (Write.writes_of_notMem hk)

end Among

/-! ## The environments of the processes -/

theorem foldl_add_congr {σ : Type} {key value : σ → Str} {se se' : Env} {v : Str}
    (h : se v = se' v) (l : List σ) :
    l.foldl (fun se e ↦ add se (key e) (value e)) se v =
      l.foldl (fun se e ↦ add se (key e) (value e)) se' v := by
  induction l generalizing se se' with
  | nil => exact h
  | cons e l ih =>
      refine ih ?_
      show add se (key e) (value e) v = add se' (key e) (value e) v
      by_cases hv : v = key e
      · rw [hv, add, add, Function.update_self, Function.update_self]
      · rw [add, add, Function.update_of_ne hv, Function.update_of_ne hv, h]

/-- The processes of a section differ in `process_num` only. -/
theorem processEnv_of_ne {group v : Str} (hv : v ≠ str "process_num") :
    processEnv host dir x group sec i v = processEnv host dir x group sec j v := by
  have hnew : StringExpression.new host [(str "program_name", x), (str "process_num", Str.itoa i),
        (str "group_name", group), (str "here", dir)] v =
      StringExpression.new host [(str "program_name", x), (str "process_num", Str.itoa j),
        (str "group_name", group), (str "here", dir)] v := by
    simp only [StringExpression.new, List.foldl_cons, List.foldl_nil, add]
    cases host.hostname <;> simp only [Function.update_apply, if_neg hv]
  unfold processEnv
  cases sec.getValue (str "environment") with
  | none => exact hnew
  | some envValue => exact foldl_add_congr hnew _

/-- The environment of the `i`-th process of a section. -/
def envAt (host : Host) (c : Config) (kind : Str) (sec : Section) (i : Nat) : Env :=
  processEnv host c.configFileDir (sec.name.drop kind.length)
    (c.groupOf (sec.name.drop kind.length)) sec i

/-! ## Names with a number -/

/-- A template with `%(process_num)d`. -/
def numbered (t₁ t₂ : List Piece) : List Piece :=
  t₁ ++ .integer (str "process_num") [] :: t₂

/-- The name of the `i`-th process of a section. -/
def nameAt (host : Host) (c : Config) (kind : Str) (sec : Section) (t₁ t₂ : List Piece) (i : Nat) :
    Str :=
  (numbered t₁ t₂).flatMap (Piece.value (envAt host c kind sec i))

section Names

theorem mem_numbered {x : Piece} :
    x ∈ numbered t₁ t₂ ↔ x = .integer (str "process_num") [] ∨ x ∈ t₁ ++ t₂ := by
  simp only [numbered, List.mem_append, List.mem_cons]
  exact or_left_comm

theorem envAt_processNum : envAt host c kind sec i (str "process_num") = some (Str.itoa i) :=
  processEnv_of_mem (.tail _ List.mem_cons_self)

theorem envAt_of_ne {v : Str} (hv : v ≠ str "process_num") :
    envAt host c kind sec i v = envAt host c kind sec j v :=
  processEnv_of_ne hv

theorem not_fails_processNum (hi : i < 2 ^ 63) :
    ¬(Piece.integer (str "process_num") []).Fails (envAt host c kind sec i) := by
  rintro (hn | ⟨v, hv, hnum⟩)
  · rw [envAt_processNum] at hn
    cases hn
  · obtain rfl := Option.some.inj (envAt_processNum.symm.trans hv)
    rw [Str.atoi_itoa hi] at hnum
    cases hnum

theorem value_processNum (hi : i < 2 ^ 63) :
    (Piece.integer (str "process_num") []).value (envAt host c kind sec i) = Str.itoa i := by
  rw [Piece.value, envAt_processNum, Option.bind_some, Str.atoi_itoa hi, Fmt.sprintfInt_nil]
  rfl

theorem values_eq {t : List Piece} (ht : ∀ x ∈ t, x.varName ≠ some (str "process_num")) :
    t.flatMap (Piece.value (envAt host c kind sec i)) =
      t.flatMap (Piece.value (envAt host c kind sec j)) := by
  rw [List.flatMap_def, List.flatMap_def]
  refine congrArg List.flatten (List.map_congr_left fun x hx ↦ Piece.value_congr fun v hv ↦ ?_)
  refine envAt_of_ne ?_
  rintro rfl
  exact ht x hx hv

/-- The number is the only thing the names of two processes differ in. -/
theorem nameAt_injective (ht : ∀ x ∈ t₁ ++ t₂, x.varName ≠ some (str "process_num"))
    (hi : i < 2 ^ 63) (hj : j < 2 ^ 63)
    (h : nameAt host c kind sec t₁ t₂ i = nameAt host c kind sec t₁ t₂ j) : i = j := by
  obtain ⟨h₁, h₂⟩ := List.forall_mem_append.mp ht
  simp only [nameAt, numbered, List.flatMap_append, List.flatMap_cons, value_processNum hi,
    value_processNum hj] at h
  rw [values_eq (i := i) (j := j) h₁, values_eq (i := i) (j := j) h₂] at h
  exact Str.itoa_injective (List.append_cancel_right (List.append_cancel_left h))

end Names

/-! ## The writes of a process -/

/-- The expressions of the `i`-th process can be evaluated. -/
def EvaluatesAt (host : Host) (c : Config) (kind : Str) (sec : Section) (t : List Piece) (i : Nat) :
    Prop :=
  (∃ m cmd, eval host (envAt host c kind sec i) m
    (sec.getValueWithDefault (str "command") []) = some (.ok cmd)) ∧
  ∀ x ∈ t, ¬x.Fails (envAt host c kind sec i)

/-- What is written for the `i`-th process comes from the section as it is in the document. -/
def WriteAt (host : Host) (c : Config) (kind : Str) (sec : Section) (t₁ t₂ : List Piece) (i : Nat)
    (w : Str × Patch) : Prop :=
  w.1 = nameAt host c kind sec t₁ t₂ i ∧
  ∃ m cmd, eval host (envAt host c kind sec i) m
      (sec.getValueWithDefault (str "command") []) = some (.ok cmd) ∧
    w.2 = {
      name := some (kind ++ w.1)
      group := some (c.groupOf (sec.name.drop kind.length))
      keyValues := (processSection sec cmd w.1 i).patch.keyValues }

/-- `process_name` is a template with one `%(process_num)d`. -/
structure NamedBy (host : Host) (c : Config) (kind : Str) (sec : Section) (t₁ t₂ : List Piece) :
    Prop where
  processName : sec.getValue (str "process_name") = some ((numbered t₁ t₂).flatMap Piece.text)
  wellFormed : ∀ x ∈ t₁ ++ t₂, x.WellFormed
  once : ∀ x ∈ t₁ ++ t₂, x.varName ≠ some (str "process_num")
  plain : ∀ i, ∀ x ∈ t₁ ++ t₂, x.Plain (envAt host c kind sec i)

section Writes

variable (hfmt : ∀ digits i, (∀ b ∈ digits, Str.isDigit b = true) →
  host.sprintf (37 :: digits ++ [100]) i = Fmt.sprintfInt digits i)

include hfmt

/-- The name of a process. -/
theorem NamedBy.eval_name (h : NamedBy host c kind sec t₁ t₂) (hi : i < 2 ^ 63) :
    ∃ n r, eval host (envAt host c kind sec i) n
        ((sec.getValue (str "process_name")).getD (sec.name.drop kind.length)) = some r ∧
      ((∃ e, r = .error e) ↔ ∃ x ∈ t₁ ++ t₂, x.Fails (envAt host c kind sec i)) ∧
      ∀ out, r = .ok out → out = nameAt host c kind sec t₁ t₂ i := by
  have hplain : ∀ x ∈ numbered t₁ t₂, x.Plain (envAt host c kind sec i) := by
    intro x hx
    rcases mem_numbered.mp hx with rfl | hx
    · trivial
    · exact h.plain i x hx
  have hwell : ∀ x ∈ numbered t₁ t₂, x.WellFormed := by
    intro x hx
    rcases mem_numbered.mp hx with rfl | hx
    · exact ⟨by decide, fun b hb ↦ absurd hb List.not_mem_nil⟩
    · exact h.wellFormed x hx
  obtain ⟨n, r, heval, herror, hok⟩ := eval_behind hfmt hplain hwell inert_nil
  refine ⟨n, r, ?_, herror.trans ⟨?_, ?_⟩, hok⟩
  · rw [h.processName]
    exact heval
  · rintro ⟨x, hx, hf⟩
    rcases mem_numbered.mp hx with rfl | hx
    · exact absurd hf (not_fails_processNum hi)
    · exact ⟨x, hx, hf⟩
  · rintro ⟨x, hx, hf⟩
    exact ⟨x, mem_numbered.mpr (.inr hx), hf⟩

/-- A round writes its entry if its expressions can be evaluated, and nothing otherwise. -/
theorem NamedBy.writeAt (h : NamedBy host c kind sec t₁ t₂) (hi : i < 2 ^ 63)
    (hvs : processWrites host n c.configFileDir c.groupOf kind sec i = some vs) :
    vs = [] ∧ ¬EvaluatesAt host c kind sec (t₁ ++ t₂) i ∨
      ∃ w, vs = [w] ∧ EvaluatesAt host c kind sec (t₁ ++ t₂) i ∧
        WriteAt host c kind sec t₁ t₂ i w := by
  obtain ⟨r, hr, hvs⟩ := Option.bind_eq_some_iff.mp hvs
  cases r with
  | error e =>
      cases hvs
      refine .inl ⟨rfl, ?_⟩
      rintro ⟨⟨m, cmd, hcmd⟩, -⟩
      cases eval_unique hr hcmd
  | ok cmd =>
      obtain ⟨r', hr', rfl⟩ := Option.map_eq_some_iff.mp hvs
      obtain ⟨m, r'', hname, herror, hok⟩ := h.eval_name hfmt hi
      obtain rfl := eval_unique hr' hname
      cases r' with
      | error e =>
          obtain ⟨x, hx, hf⟩ := herror.mp ⟨e, rfl⟩
          exact .inl ⟨rfl, fun hev ↦ hev.2 x hx hf⟩
      | ok procName =>
          refine .inr ⟨_, rfl, ⟨⟨n, cmd, hr⟩, fun x hx hf ↦ ?_⟩, hok procName rfl, n, cmd, hr, rfl⟩
          obtain ⟨e, he⟩ := herror.mpr ⟨x, hx, hf⟩
          cases he

/-- What is written for a section is written for one of its processes. -/
theorem NamedBy.exists_writeAt (h : NamedBy host c kind sec t₁ t₂)
    (hlt : ∀ i ∈ List.range' 1 (numProcs host sec), i < 2 ^ 63)
    (hws : collect (processWrites host n c.configFileDir c.groupOf kind sec)
      (List.range' 1 (numProcs host sec)) = some ws) {w : Str × Patch} (hw : w ∈ ws) :
    ∃ i ∈ List.range' 1 (numProcs host sec), WriteAt host c kind sec t₁ t₂ i w := by
  obtain ⟨i, hi, vs, hvs, hwvs⟩ := exists_of_mem_collect hws hw
  refine ⟨i, hi, ?_⟩
  rcases h.writeAt hfmt (hlt i hi) hvs with ⟨rfl, -⟩ | ⟨w', rfl, -, hw'⟩
  · cases hwvs
  · obtain rfl := List.mem_singleton.mp hwvs
    exact hw'

/-- A round comes to an end if the evaluation of the command does. -/
theorem NamedBy.exists_processWrites (h : NamedBy host c kind sec t₁ t₂) (hi : i < 2 ^ 63)
    (hcmd : ∃ m r, eval host (envAt host c kind sec i) m
      (sec.getValueWithDefault (str "command") []) = some r) :
    ∃ n vs, processWrites host n c.configFileDir c.groupOf kind sec i = some vs := by
  obtain ⟨m, r, hr⟩ := hcmd
  obtain ⟨m', r', hr', -, -⟩ := h.eval_name hfmt hi
  refine ⟨max m m', ?_⟩
  simp only [Option.bind_eq_some_iff, processWrites]
  cases r with
  | error e => exact ⟨[], .error e, eval_mono hr (Nat.le_max_left m m'), rfl⟩
  | ok cmd =>
      exact ⟨_, .ok cmd, eval_mono hr (Nat.le_max_left m m'), Option.map_eq_some_iff.mpr
        ⟨r', eval_mono hr' (Nat.le_max_right m m'), rfl⟩⟩

end Writes

/-! ## The entries -/

/-- What the entry of the `i`-th process of a section holds.  The command is that of the section,
evaluated for this process; all other keys are as in the section. -/
structure InstanceAt (host : Host) (c : Config) (kind : Str) (sec : Section) (i : Nat)
    (procName : Str) (e : Entry) : Prop where
  name : e.name = kind ++ procName
  group : e.group = c.groupOf (sec.name.drop kind.length)
  command : ∃ m cmd, eval host (envAt host c kind sec i) m
      (sec.getValueWithDefault (str "command") []) = some (.ok cmd) ∧
    e.keyValues (str "command") = some cmd.trimSpace
  processName : e.keyValues (str "process_name") = some procName.trimSpace
  numprocsStart : e.keyValues (str "numprocs_start") = some (Str.itoa (i - 1))
  processNum : e.keyValues (str "process_num") = some (Str.itoa i)
  others : ∀ k ∉ ownKeys, ∀ v, sec.getValue k = some v → e.keyValues k = some v.trimSpace

theorem numProcs_lt (hint : ∀ v i, host.parseInt v = some i → i < 2 ^ 63) :
    numProcs host sec < 2 ^ 63 := by
  unfold numProcs
  cases h : (sec.getValue (str "numprocs")).bind host.parseInt with
  | none => decide
  | some i =>
      obtain ⟨v, -, hv⟩ := Option.bind_eq_some_iff.mp h
      have hi := hint v i hv
      rw [Option.getD_some]
      omega

theorem getValue_processSection_own (sec : Section) (cmd procName : Str) (i : Nat) :
    (processSection sec cmd procName i).getValue (str "command") = some cmd ∧
      (processSection sec cmd procName i).getValue (str "process_name") = some procName ∧
      (processSection sec cmd procName i).getValue (str "numprocs_start") =
        some (Str.itoa (i - 1)) ∧
      (processSection sec cmd procName i).getValue (str "process_num") = some (Str.itoa i) := by
  have hne : str "command" ≠ str "process_name" ∧ str "command" ≠ str "numprocs_start" ∧
      str "command" ≠ str "process_num" ∧ str "process_name" ≠ str "numprocs_start" ∧
      str "process_name" ≠ str "process_num" ∧ str "numprocs_start" ≠ str "process_num" := by
    decide
  simp only [processSection, Section.getValue_add, hne, if_true, if_false, and_self]

theorem WriteAt.instanceAt {w : Str × Patch} (h : WriteAt host c kind sec t₁ t₂ i w) (e : Entry) :
    InstanceAt host c kind sec i w.1 (w.2.apply e) := by
  obtain ⟨-, m, cmd, hcmd, hw⟩ := h
  have hvalue : ∀ k v, (processSection sec cmd w.1 i).getValue k = some v →
      (w.2.apply e).keyValues k = some v.trimSpace := by
    intro k v hk
    rw [hw]
    show (((processSection sec cmd w.1 i).getValue k).map Str.trimSpace).or (e.keyValues k) = _
    rw [hk, Option.map_some, Option.some_or]
  have htrim {n : Nat} : (Str.itoa n).trimSpace = Str.itoa n :=
    Str.trimSpace_of_digits Str.isDigit_of_mem_itoa
  obtain ⟨hcommand, hname, hstart, hnum⟩ :=
    getValue_processSection_own sec cmd w.1 i
  exact {
    name := by rw [hw]; rfl
    group := by rw [hw]; rfl
    command := ⟨m, cmd, hcmd, hvalue _ _ hcommand⟩
    processName := hvalue _ _ hname
    numprocsStart := (hvalue _ _ hstart).trans (congrArg some htrim)
    processNum := (hvalue _ _ hnum).trans (congrArg some htrim)
    others := fun k hk v hv ↦ hvalue k v ((getValue_processSection hk).trans hv) }

/-- What `parseProgram` makes of a section: entries for the processes in `is`. -/
structure Instantiated (host : Host) (c c₀ c' : Config) (kind : Str) (sec : Section)
    (t₁ t₂ : List Piece) (is : List Nat) : Prop where
  sublist : is.Sublist (List.range' 1 (numProcs host sec))
  mem_iff : ∀ i ∈ List.range' 1 (numProcs host sec),
    i ∈ is ↔ EvaluatesAt host c kind sec (t₁ ++ t₂) i
  nodup : (is.map (nameAt host c kind sec t₁ t₂)).Nodup
  entries : ∀ i ∈ is, ∃ e, c'.entries.get (nameAt host c kind sec t₁ t₂ i) = some e ∧
    InstanceAt host c kind sec i (nameAt host c kind sec t₁ t₂ i) e
  frame : ∀ k ∉ is.map (nameAt host c kind sec t₁ t₂), c'.entries.get k = c₀.entries.get k

/-- The writes of a section, among those of other sections for other processes. -/
theorem NamedBy.instantiated (h : NamedBy host c kind sec t₁ t₂)
    (hfmt : ∀ digits i, (∀ b ∈ digits, Str.isDigit b = true) →
      host.sprintf (37 :: digits ++ [100]) i = Fmt.sprintfInt digits i)
    (hlt : ∀ i ∈ List.range' 1 (numProcs host sec), i < 2 ^ 63)
    (hws : collect (processWrites host n c.configFileDir c.groupOf kind sec)
      (List.range' 1 (numProcs host sec)) = some ws)
    {ps qs : List (Str × Patch)} (hfree : ∀ i ∈ List.range' 1 (numProcs host sec),
      nameAt host c kind sec t₁ t₂ i ∉ (ps ++ qs).map (·.1))
    (hloads₀ : Loads c (ps ++ qs) c₀) (hloads : Loads c (ps ++ (ws ++ qs)) c') :
    ∃ is, ws.map (·.1) = is.map (nameAt host c kind sec t₁ t₂) ∧
      Instantiated host c c₀ c' kind sec t₁ t₂ is := by
  have hround : ∀ i ∈ List.range' 1 (numProcs host sec), ∀ vs,
      processWrites host n c.configFileDir c.groupOf kind sec i = some vs →
      vs = [] ∧ ¬EvaluatesAt host c kind sec (t₁ ++ t₂) i ∨
        ∃ w, vs = [w] ∧ EvaluatesAt host c kind sec (t₁ ++ t₂) i ∧
          w.1 = nameAt host c kind sec t₁ t₂ i := by
    intro i hi vs hvs
    rcases h.writeAt hfmt (hlt i hi) hvs with hnone | ⟨w, hw, hev, hname, -⟩
    · exact .inl hnone
    · exact .inr ⟨w, hw, hev, hname⟩
  obtain ⟨is, hsub, hmem, hmap⟩ := exists_sublist_of_collect hround hws
  have hnodup : (is.map (nameAt host c kind sec t₁ t₂)).Nodup := by
    refine (hsub.nodup List.nodup_range').map_on fun i hi j hj he ↦ ?_
    exact nameAt_injective h.once (hlt i (hsub.subset hi)) (hlt j (hsub.subset hj)) he
  refine ⟨is, hmap, hsub, hmem, hnodup, fun i hi ↦ ?_, fun k hk ↦ ?_⟩
  · obtain ⟨w, hw, hname⟩ := List.mem_map.mp (hmap ▸ List.mem_map_of_mem hi)
    obtain ⟨j, hj, hwrite⟩ := h.exists_writeAt hfmt hlt hws hw
    -- no two processes are written under one name
    obtain rfl : j = i := nameAt_injective h.once (hlt j hj) (hlt i (hsub.subset hi))
      (hwrite.1.symm.trans hname)
    rw [← hname]
    obtain ⟨e, he⟩ := hloads.exists_get (hmap ▸ hnodup) hw (hname ▸ hfree j hj)
    exact ⟨_, he, hwrite.instanceAt e⟩
  · exact hloads₀.get_eq hloads (hmap ▸ hk)

/-- **The processes of a section.**  A section whose processes are called by their number, and
unlike all other processes, is parsed into one entry for each process whose expressions can be
evaluated, in the order of the numbers. -/
theorem parseProgram_instances (hfmt : ∀ digits i, (∀ b ∈ digits, Str.isDigit b = true) →
      host.sprintf (37 :: digits ++ [100]) i = Fmt.sprintfInt digits i)
    (hint : ∀ v i, host.parseInt v = some i → i < 2 ^ 63)
    (hkind : isProgramOrEventListener sec = some kind)
    (hnamed : NamedBy host c kind sec t₁ t₂)
    (hcmd : ∀ i ∈ List.range' 1 (numProcs host sec), ∃ m r, eval host (envAt host c kind sec i) m
      (sec.getValueWithDefault (str "command") []) = some r)
    {others : List Str} (hothers : parseProgram host m c (pre ++ post) = some (c₀, others))
    (hfree : ∀ i ∈ List.range' 1 (numProcs host sec), nameAt host c kind sec t₁ t₂ i ∉ others) :
    ∃ n c' before after is, others = before ++ after ∧
      parseProgram host n c (pre ++ sec :: post) =
        some (c', before ++ is.map (nameAt host c kind sec t₁ t₂) ++ after) ∧
      (∃ c₁, parseProgram host n c pre = some (c₁, before)) ∧
      Instantiated host c c₀ c' kind sec t₁ t₂ is := by
  have hlt : ∀ i ∈ List.range' 1 (numProcs host sec), i < 2 ^ 63 := by
    intro i hi
    have hle := (List.mem_range'_1.mp hi).2
    have hnum : numProcs host sec < 2 ^ 63 := numProcs_lt hint
    omega
  obtain ⟨n, ws, hws⟩ := exists_collect
    (g := fun n ↦ processWrites host n c.configFileDir c.groupOf kind sec)
    (fun n m i vs hnm ↦ processWrites_mono hnm)
    fun i hi ↦ hnamed.exists_processWrites hfmt (hlt i hi) (hcmd i hi)
  -- the writes of the other sections stand around those of this one
  have hrel₀ := parseProgram_rel host m c (pre ++ post)
  rw [hothers] at hrel₀
  obtain ⟨us, hus, hloads₀, -, hnames₀⟩ := exists_of_rel hrel₀
  obtain ⟨ps, qs, rfl, hpre, hall⟩ :=
    programWrites_insert hus ((sectionWrites_of_kind hkind).trans hws)
  have hrel := parseProgram_rel host (max m n) c (pre ++ sec :: post)
  rw [hall] at hrel
  obtain ⟨⟨c', loaded⟩, hparse, hloads, -, hnames⟩ := exists_of_rel_some hrel
  have hrel₁ := parseProgram_rel host (max m n) c pre
  rw [hpre] at hrel₁
  obtain ⟨⟨c₁, loaded₁⟩, hparse₁, -, -, hnames₁⟩ := exists_of_rel_some hrel₁
  obtain rfl : others = (ps ++ qs).map (·.1) := hnames₀
  obtain rfl : loaded = (ps ++ (ws ++ qs)).map (·.1) := hnames
  obtain rfl : loaded₁ = ps.map (·.1) := hnames₁
  obtain ⟨is, hmap, hinst⟩ := hnamed.instantiated hfmt hlt hws hfree hloads₀ hloads
  refine ⟨max m n, c', ps.map (·.1), qs.map (·.1), is, List.map_append, ?_, ⟨c₁, hparse₁⟩, hinst⟩
  rw [hparse, List.map_append, List.map_append, hmap, List.append_assoc]

/-- Two processes. -/
def websSection : Section where
  name := str "program:web"
  keyValues := ((AList.singleton (str "command") (str "serve %(process_num)d")).insert
    (str "process_name") (str "web-%(process_num)d")).insert (str "numprocs") (str "2")

theorem sprintf_decimalHost (digits : Str) (i : Int) :
    decimalHost.sprintf (37 :: digits ++ [100]) i = Fmt.sprintfInt digits i :=
  congrArg (Fmt.sprintfInt · i) List.dropLast_concat

theorem namedBy_web {keyValues : AList fun _ : Str ↦ Str}
    (hname : keyValues.lookup (str "process_name") = some (str "web-%(process_num)d")) :
    NamedBy decimalHost (newConfig []) (str "program:") { name := str "program:web", keyValues }
      [.literal (str "web-")] [] where
  processName := hname
  wellFormed := by
    intro x hx
    obtain rfl := List.mem_singleton.mp hx
    show 37 ∉ str "web-"
    decide
  once := by
    intro x hx
    obtain rfl := List.mem_singleton.mp hx
    simp [Piece.varName]
  plain := by
    intro i x hx
    obtain rfl := List.mem_singleton.mp hx
    trivial

/-- The statement for `web-1` and `web-2`. -/
theorem parseProgram_webs :
    ∃ n c' before after is, ([] : List Str) = before ++ after ∧
      parseProgram decimalHost n (newConfig []) ([] ++ websSection :: []) = some (c', before ++
        is.map (nameAt decimalHost (newConfig []) (str "program:") websSection
          [.literal (str "web-")] []) ++ after) ∧
      (∃ c₁, parseProgram decimalHost n (newConfig []) [] = some (c₁, before)) ∧
      Instantiated decimalHost (newConfig []) (newConfig []) c' (str "program:") websSection
        [.literal (str "web-")] [] is := by
  have hnum : numProcs decimalHost websSection = 2 := by decide
  have hnamed : NamedBy decimalHost (newConfig []) (str "program:") websSection
      [.literal (str "web-")] [] := namedBy_web (by decide)
  refine parseProgram_instances (m := 0) (fun digits i _ ↦ sprintf_decimalHost digits i)
    (fun v i h ↦ Str.lt_of_atoi h) (by decide) hnamed ?_ rfl ?_
  · rw [hnum]
    have heval : ∀ i ∈ List.range' 1 2, (eval decimalHost (envAt decimalHost (newConfig [])
        (str "program:") websSection i) 3
        (websSection.getValueWithDefault (str "command") [])).isSome = true := by
      decide
    exact fun i hi ↦ ⟨3, Option.isSome_iff_exists.mp (heval i hi)⟩
  · exact fun i _ ↦ List.not_mem_nil

/-- The command of this program cannot be evaluated. -/
def undefinedSection : Section where
  name := str "program:web"
  keyValues := (AList.singleton (str "command") (str "%(nope)s")).insert
    (str "process_name") (str "web-%(process_num)d")

/-- A process whose command cannot be evaluated is left out. -/
theorem parseProgram_undefined : ¬∀ (host : Host) (n : Nat) (c c' : Config) (sec : Section)
    (kind : Str) (t₁ t₂ : List Piece) (loaded : List Str),
    (∀ digits i, (∀ b ∈ digits, Str.isDigit b = true) →
      host.sprintf (37 :: digits ++ [100]) i = Fmt.sprintfInt digits i) →
    (∀ v i, host.parseInt v = some i → i < 2 ^ 63) →
    isProgramOrEventListener sec = some kind → 1 ≤ numProcs host sec →
    NamedBy host c kind sec t₁ t₂ → parseProgram host n c [sec] = some (c', loaded) →
    loaded.length = numProcs host sec := by
  intro h
  have hnone : (parseProgram decimalHost 2 (newConfig []) [undefinedSection]).map (·.2) =
      some [] := by decide
  obtain ⟨⟨c', loaded⟩, hparse, rfl⟩ := Option.map_eq_some_iff.mp hnone
  have hlen := h decimalHost 2 (newConfig []) c' undefinedSection (str "program:")
    [.literal (str "web-")] [] [] (fun digits i _ ↦ sprintf_decimalHost digits i)
    (fun v i h ↦ Str.lt_of_atoi h) (by decide) (by decide) (namedBy_web (by decide)) hparse
  revert hlen
  decide

end Config

end Supervisord
