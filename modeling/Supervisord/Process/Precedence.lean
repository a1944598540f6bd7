import Supervisord.Config.Assignments
import Supervisord.Config.Template
import Supervisord.Process.Environment

/-!
# Where a variable comes from

A variable may be forced for a user, and it may be set by `environment`, by the files of `envFiles`
and in the environment of the supervisor.  Of a variable that is there more than once, a program
sees the last value.  `createProgramCommand` puts the variables into such an order that the child
sees the forced value if there is one, else that of `environment`, else that of the files, else that
of the supervisor (`child_sees`).
-/

namespace Supervisord.Process

open Go StringExpression

variable {users : Users} {readEnvFile : Str → Option (Map Str Str)} {rt : Runtime} {host : Host}
  {n : Nat} {config : Entry} {cmd cmd' : ExecCmd} {userName item k k' v v' : Str} {u : User}
  {envFromFiles env arr1 arr2 l : List Str}

/-! ## The value of a variable -/

/-- The value that an element of an environment gives to a variable. -/
def assigned (k item : Str) : Option Str :=
  if 61 ∈ item ∧ keyOf item = k then some (item.drop (k.length + 1)) else none

/-- The value of a variable in an environment, which is the last one. -/
def valueIn (env : List Str) (k : Str) : Option Str := env.reverse.findSome? (assigned k)

theorem assigned_keyValue (hk : 61 ∉ k) : assigned k (keyValue k v) = some v := by
  have hmem : 61 ∈ keyValue k v := List.mem_append_right k List.mem_cons_self
  rw [assigned, if_pos ⟨hmem, keyOf_keyValue hk⟩, keyValue, List.append_cons,
    List.drop_left' (by rw [List.length_append, List.length_singleton])]

theorem eq_keyValue_of_assigned (h : assigned k item = some v) : item = keyValue k v := by
  unfold assigned at h
  by_cases hitem : 61 ∈ item ∧ keyOf item = k
  · obtain ⟨hmem, rfl⟩ := hitem
    rw [if_pos ⟨hmem, rfl⟩, Option.some.injEq] at h
    subst h
    obtain ⟨a, b, rfl, ha⟩ := List.eq_append_cons_of_mem hmem
    have hkey : keyOf (a ++ 61 :: b) = a := keyOf_keyValue ha
    have hlen : (a ++ [61]).length = a.length + 1 := List.length_append
    rw [hkey, keyValue, List.append_cons, List.drop_left' hlen, ← List.append_cons]
  · rw [if_neg hitem] at h
    cases h

theorem keyValue_inj (hk : 61 ∉ k) (hk' : 61 ∉ k') :
    keyValue k v = keyValue k' v' ↔ k = k' ∧ v = v' := by
  constructor
  · intro h
    have hkey := congrArg keyOf h
    rw [keyOf_keyValue hk, keyOf_keyValue hk'] at hkey
    subst hkey
    have hval := congrArg (assigned k) h
    rw [assigned_keyValue hk, assigned_keyValue hk, Option.some.injEq] at hval
    exact ⟨rfl, hval⟩
  · rintro ⟨rfl, rfl⟩
    rfl

theorem keyOf_eq_of_assigned (h : assigned k item ≠ none) : keyOf item = k := by
  by_contra hne
  exact h (if_neg fun hitem ↦ hne hitem.2)

theorem valueIn_append (l l' : List Str) (k : Str) :
    valueIn (l ++ l') k = (valueIn l' k).or (valueIn l k) := by
  rw [valueIn, List.reverse_append, List.findSome?_append]
  rfl

theorem valueIn_cons (item : Str) (l : List Str) (k : Str) :
    valueIn (item :: l) k = (valueIn l k).or (assigned k item) := by
  have hone : valueIn [item] k = assigned k item := List.findSome?_singleton
  rw [← hone, ← valueIn_append, List.singleton_append]

theorem valueIn_eq_none (h : k ∉ l.map keyOf) : valueIn l k = none := by
  refine List.findSome?_eq_none_iff.mpr fun item hi ↦ ?_
  by_contra hne
  refine h (List.mem_map.mpr ⟨item, List.mem_reverse.mp hi, keyOf_eq_of_assigned hne⟩)

/-- Elements for other variables make no difference. -/
theorem valueIn_filter {p : Str → Bool} (h : ∀ item, keyOf item = k → p item = true) :
    valueIn (l.filter p) k = valueIn l k := by
  induction l with
  | nil => rfl
  | cons item l ih =>
      by_cases hp : p item = true
      · rw [List.filter_cons_of_pos hp, valueIn_cons, valueIn_cons, ih]
      · have hnone : assigned k item = none := by
          by_contra hne
          exact hp (h item (keyOf_eq_of_assigned hne))
        rw [List.filter_cons_of_neg hp, ih, valueIn_cons, hnone, Option.or_none]

/-- Where each variable is there once, its order is of no matter. -/
theorem valueIn_eq_some_iff (hnodup : (l.map keyOf).Nodup) (hk : 61 ∉ k) :
    valueIn l k = some v ↔ keyValue k v ∈ l := by
  induction l with
  | nil => exact iff_of_false (Option.some_ne_none v).symm List.not_mem_nil
  | cons item l ih =>
      obtain ⟨hnot, hnodup⟩ := List.nodup_cons.mp hnodup
      rw [valueIn_cons, List.mem_cons, ← ih hnodup]
      by_cases hitem : keyOf item = k
      · rw [valueIn_eq_none (hitem ▸ hnot), Option.none_or]
        constructor
        · intro h
          exact .inl (eq_keyValue_of_assigned h).symm
        · rintro (rfl | h)
          · exact assigned_keyValue hk
          · cases h
      · have hnone : assigned k item = none := if_neg fun h ↦ hitem h.2
        rw [hnone, Option.or_none]
        refine (or_iff_right fun h ↦ hitem ?_).symm
        rw [← h, keyOf_keyValue hk]

/-! ## The values of a map -/

/-- What a string with variables is evaluated to. -/
def evalVariables (host : Host) (n : Nat) (config : Entry) (s : Str) : Option Str :=
  (config.envOfVariables host n).bind fun env ↦ (eval host env n s).bind Except.toOption

/-- The value of a variable in a map of variables, as far as it can be evaluated. -/
def settingValue (host : Host) (n : Nat) (config : Entry) (m : Map Str Str) (k : Str) :
    Option Str :=
  (m.lookup k).bind (evalVariables host n config)

/-- A loop that adds at most one element in each round. -/
theorem eq_append_of_foldlM {α ι : Type} {f : List α → ι → Option (List α)} {g : ι → Option α}
    (hf : ∀ acc i r, f acc i = some r → r = acc ++ (g i).toList) {is : List ι} {acc r : List α}
    (h : is.foldlM f acc = some r) : r = acc ++ is.filterMap g := by
  induction is generalizing acc with
  | nil =>
      obtain rfl := Option.some.inj h
      exact (List.append_nil acc).symm
  | cons i is ih =>
      rw [List.foldlM_cons] at h
      obtain ⟨acc', hi, h⟩ := Option.bind_eq_some_iff.mp h
      rw [ih h, hf acc i acc' hi, List.append_assoc, List.filterMap_cons]
      cases g i <;> rfl

theorem evalKeyValues_eq {m : Map Str Str} (h : config.evalKeyValues rt host n m = some l) :
    l = (rt.range m.entries).filterMap fun e ↦ evalVariables host n config (keyValue e.1 e.2) := by
  refine eq_append_of_foldlM (fun acc e r he ↦ ?_) h
  obtain ⟨env, henv, he⟩ := Option.bind_eq_some_iff.mp he
  obtain ⟨x, hx, rfl⟩ := Option.map_eq_some_iff.mp he
  rw [evalVariables, henv, Option.bind_some, hx, Option.bind_some]
  cases x with
  | error err => exact (List.append_nil acc).symm
  | ok tmp => rfl

/-- A name without a reference is left as it is. -/
theorem evalVariables_keyValue (hkey : NoReference k) (v : Str) :
    evalVariables host n config (keyValue k v) =
      (evalVariables host n config v).map (keyValue k) := by
  have hinert : Inert (k ++ [61]) := by
    refine ⟨?_, by rw [List.getLast?_concat]; decide⟩
    rw [noReference_iff] at hkey ⊢
    intro h
    rcases List.infix_concat_iff.mp h with h | h
    · obtain ⟨t, ht⟩ := h
      have hlast := congrArg List.getLast? ht
      have hne : opening.symbols ≠ [] := List.cons_ne_nil _ _
      rw [List.getLast?_concat, List.getLast?_append_of_ne_nil t hne] at hlast
      cases hlast
    · exact hkey h
  rw [evalVariables, evalVariables, keyValue]
  cases config.envOfVariables host n with
  | none => rfl
  | some env =>
      rw [Option.bind_some, Option.bind_some, List.append_cons, hinert.eval_append]
      cases eval host env n v with
      | none => rfl
      | some x =>
          cases x with
          | error err => rfl
          | ok r => exact congrArg some (List.append_assoc _ _ _)

theorem valueIn_evalKeyValues {m : Map Str Str}
    (h : config.evalKeyValues rt host n m = some l) (hm : ∀ k ∈ m, 61 ∉ k ∧ NoReference k)
    (hk : 61 ∉ k) : valueIn l k = settingValue host n config m k := by
  have hentry : ∀ e ∈ m.entries, 61 ∉ e.1 ∧ NoReference e.1 := fun e he ↦
    hm e.1 (List.mem_map_of_mem he)
  have hmem (item : Str) : item ∈ l ↔ ∃ e ∈ m.entries, ∃ r,
      evalVariables host n config e.2 = some r ∧ keyValue e.1 r = item := by
    rw [evalKeyValues_eq h, List.mem_filterMap]
    constructor
    · rintro ⟨e, he, hitem⟩
      have he := Runtime.mem_range.mp he
      rw [evalVariables_keyValue (hentry e he).2] at hitem
      exact ⟨e, he, Option.map_eq_some_iff.mp hitem⟩
    · rintro ⟨e, he, hr⟩
      refine ⟨e, Runtime.mem_range.mpr he, ?_⟩
      rw [evalVariables_keyValue (hentry e he).2]
      exact Option.map_eq_some_iff.mpr hr
  have hnodup : (l.map keyOf).Nodup := by
    have hkeys : ((rt.range m.entries).map (·.1)).Nodup :=
      ((rt.range_perm _).map _).nodup_iff.mpr m.nodupKeys
    have hkey {e : (_ : Str) × Str} {item : Str} (he : e ∈ rt.range m.entries)
        (hitem : evalVariables host n config (keyValue e.1 e.2) = some item) :
        keyOf item = e.1 := by
      have he := hentry e (Runtime.mem_range.mp he)
      rw [evalVariables_keyValue he.2] at hitem
      obtain ⟨r, -, rfl⟩ := Option.map_eq_some_iff.mp hitem
      exact keyOf_keyValue he.1
    rw [evalKeyValues_eq h, List.Nodup, List.pairwise_map, List.pairwise_filterMap]
    refine (List.pairwise_map.mp hkeys).imp_of_mem fun he he' hne item hi item' hi' ↦ ?_
    rwa [hkey he hi, hkey he' hi']
  ext v
  rw [valueIn_eq_some_iff hnodup hk, hmem, settingValue, Option.bind_eq_some_iff]
  constructor
  · rintro ⟨⟨k', v'⟩, he, r, hr, hitem⟩
    obtain ⟨rfl, rfl⟩ := (keyValue_inj (hentry _ he).1 hk).mp hitem
    exact ⟨v', AList.mem_lookup_iff.mpr he, hr⟩
  · rintro ⟨v', hv', hr⟩
    exact ⟨⟨k, v'⟩, AList.mem_lookup_iff.mp hv', v, hr, rfl⟩

/-! ## The order -/

theorem valueIn_ne_none (hl : ∀ item ∈ l, 61 ∈ item) (h : k ∈ l.map keyOf) :
    valueIn l k ≠ none := by
  obtain ⟨item, hi, rfl⟩ := List.mem_map.mp h
  intro hnone
  have := List.findSome?_eq_none_iff.mp hnone item (List.mem_reverse.mpr hi)
  rw [assigned, if_pos ⟨hl item hi, rfl⟩] at this
  cases this

/-- What the first list sets is not set again. -/
theorem valueIn_mergeKeyValueArrays (harr : ∀ item ∈ arr1, 61 ∈ item) (hk : k ≠ []) :
    valueIn (mergeKeyValueArrays arr1 arr2) k = (valueIn arr1 k).or (valueIn arr2 k) := by
  rw [mergeKeyValueArrays, valueIn_append]
  by_cases hmem : k ∈ arr1.map keyOf
  · obtain ⟨v, hv⟩ := Option.ne_none_iff_exists'.mp (valueIn_ne_none harr hmem)
    rw [valueIn_eq_none, Option.none_or, hv, Option.some_or]
    intro h
    obtain ⟨item, hi, rfl⟩ := List.mem_map.mp h
    have hfilter := (List.mem_filter.mp hi).2
    rw [decide_eq_false (not_not_intro hmem), Bool.and_false] at hfilter
    cases hfilter
  · rw [valueIn_eq_none hmem, Option.or_none, Option.none_or]
    refine valueIn_filter fun item hi ↦ ?_
    rw [hi, decide_eq_true hk, decide_eq_true hmem, Bool.and_self]

theorem valueIn_setEnv {cmdEnv : List Str} (hcmd : ∀ item ∈ cmdEnv, 61 ∈ item) (hk : k ≠ []) :
    valueIn (setEnv host envFromFiles env cmdEnv) k = (valueIn cmdEnv k).or
      ((valueIn env k).or ((valueIn envFromFiles k).or (valueIn (environ host) k))) := by
  rw [setEnv]
  split
  · rw [valueIn_mergeKeyValueArrays hcmd hk, valueIn_append, valueIn_append]
  · rename_i h
    have henv : env = [] ∧ envFromFiles = [] := by
      rw [not_not, Nat.add_eq_zero_iff, List.length_eq_zero_iff, List.length_eq_zero_iff] at h
      exact h
    rw [valueIn_mergeKeyValueArrays hcmd hk, henv.1, henv.2]
    rfl

/-- The value forced for a user. -/
def forcedValue (users : Users) (userName k : Str) : Option Str :=
  if userName = [] then none
  else (users.lookup (userName.takeWhile (· ≠ 58))).bind fun u ↦
    if k = str "HOME" then some u.homeDir
    else if k = str "USER" ∨ k = str "LOGNAME" then some u.username
    else if k = str "PATH" then some (defaultPath u)
    else none

/-- The list `setUser` makes. -/
def forcedEnv (u : User) : List Str :=
  [keyValue (str "HOME") u.homeDir, keyValue (str "USER") u.username,
    keyValue (str "LOGNAME") u.username, keyValue (str "PATH") (defaultPath u)]

theorem assigned_keyValue_ne (hk : 61 ∉ k') (hne : k ≠ k') : assigned k (keyValue k' v) = none :=
  if_neg fun h ↦ hne (h.2.symm.trans (keyOf_keyValue hk))

theorem valueIn_forcedEnv (u : User) (k : Str) : valueIn (forcedEnv u) k =
    if k = str "HOME" then some u.homeDir
    else if k = str "USER" ∨ k = str "LOGNAME" then some u.username
    else if k = str "PATH" then some (defaultPath u)
    else none := by
  have hassigned : ∀ k' ∈ forcedKeys, ∀ v,
      assigned k (keyValue k' v) = if k = k' then some v else none := by
    intro k' hk' v
    have hfree : ∀ k ∈ forcedKeys, 61 ∉ k := by decide
    by_cases h : k = k'
    · subst h
      rw [if_pos rfl, assigned_keyValue (hfree _ hk')]
    · rw [if_neg h, assigned_keyValue_ne (hfree _ hk') h]
  rw [forcedEnv, valueIn_cons, valueIn_cons, valueIn_cons, valueIn_cons,
    hassigned _ (by decide), hassigned _ (by decide), hassigned _ (by decide),
    hassigned _ (by decide)]
  by_cases hforced : k ∈ forcedKeys
  · rcases List.mem_cons.mp hforced with rfl | hforced
    · rfl
    · rcases List.mem_cons.mp hforced with rfl | hforced
      · rfl
      · rcases List.mem_cons.mp hforced with rfl | hforced
        · rfl
        · rw [List.mem_singleton.mp hforced]
          rfl
  · simp only [forcedKeys, List.mem_cons, List.not_mem_nil, or_false, not_or] at hforced
    obtain ⟨hhome, huser, hlogname, hpath⟩ := hforced
    rw [if_neg hhome, if_neg huser, if_neg hlogname, if_neg hpath, if_neg hhome,
      if_neg (not_or_intro huser hlogname)]
    rfl

/-- The list has no other elements, and no element of it is filtered out. -/
theorem env_of_setUser (h : setUser users userName cmd = some cmd') (henv : cmd.env = []) :
    (∀ item ∈ cmd'.env, 61 ∈ item) ∧ valueIn cmd'.env k = forcedValue users userName k := by
  by_cases hne : userName = []
  · rw [setUser, if_pos hne, Option.some.injEq] at h
    rw [← h, henv, forcedValue, if_pos hne]
    exact ⟨fun item hi ↦ absurd hi List.not_mem_nil, rfl⟩
  · rw [setUser, if_neg hne] at h
    obtain ⟨u, hu, h⟩ := Option.bind_eq_some_iff.mp h
    obtain ⟨uid, -, h⟩ := Option.bind_eq_some_iff.mp h
    obtain ⟨gid, -, h⟩ := Option.map_eq_some_iff.mp h
    have hset : cmd'.env = forcedEnv u := by
      rw [← h]
      dsimp only
      rw [env_setUserID, henv]
      rfl
    refine ⟨fun item hi ↦ ?_, ?_⟩
    · rw [hset] at hi
      have hmem (k v : Str) : 61 ∈ keyValue k v := List.mem_append_right k List.mem_cons_self
      rw [forcedEnv] at hi
      simp only [List.mem_cons, List.not_mem_nil, or_false] at hi
      rcases hi with rfl | rfl | rfl | rfl <;> exact hmem _ _
    · rw [hset, valueIn_forcedEnv, forcedValue, if_neg hne, hu, Option.bind_some]

/-- **Precedence.**  The child sees the value that is forced for the user, else the one that
`environment` gives, else the one of the files, else the one of the supervisor.  What `environment`
and the files give are the values in their maps. -/
theorem child_sees
    (hcmd : createProgramCommand users readEnvFile rt host n config = some (.ok cmd))
    (huser : config.getString host n (str "user") [] = some userName)
    (hfiles : config.getEnvFromFiles (rt.fork 0) host n readEnvFile (str "envFiles") =
      some envFromFiles)
    (henv : config.getEnv (rt.fork 1) host n (str "environment") = some env)
    (hne : k ≠ []) (hk : 61 ∉ k) :
    valueIn cmd.env k = (forcedValue users userName k).or
      ((valueIn env k).or ((valueIn envFromFiles k).or (valueIn (environ host) k))) ∧
    (∀ text, config.keyValues (str "environment") = some text →
      (∀ k ∈ parseEnv text, NoReference k) →
        valueIn env k = settingValue host n config (parseEnv text) k) ∧
    ∀ text, config.keyValues (str "envFiles") = some text →
      (∀ k ∈ parseEnvFiles readEnvFile text, 61 ∉ k ∧ NoReference k) →
        valueIn envFromFiles k =
          settingValue host n config (parseEnvFiles readEnvFile text) k := by
  refine ⟨?_, fun text ht hm ↦ ?_, fun text ht hm ↦ ?_⟩
  · obtain ⟨cmd₁, cmd₂, hnil, hsetUser, hcmdEnv⟩ :=
      env_of_createProgramCommand hcmd huser hfiles henv
    obtain ⟨hassign, hforced⟩ := env_of_setUser (k := k) hsetUser hnil
    rw [hcmdEnv, valueIn_setEnv hassign hne, hforced]
  · rw [Entry.getEnv, ht] at henv
    exact valueIn_evalKeyValues henv (fun k hk ↦ ⟨notMem_of_mem_parseEnv hk, hm k hk⟩) hk
  · rw [Entry.getEnvFromFiles, ht] at hfiles
    exact valueIn_evalKeyValues hfiles hm hk

/-- A program that is run as a user and sets two variables, one of which is forced. -/
def termProgram : Entry where
  configDir := []
  name := str "program:a"
  keyValues k := if k = str "environment" then some (str "TERM=xterm,HOME=/x")
    else userProgram.keyValues k

theorem createProgramCommand_termProgram (environ : List (Str × Str)) :
    createProgramCommand oneUser (fun _ ↦ none) .inOrder (hostWith environ) 2 termProgram =
      some (.ok {
        args := [str "a"]
        env := setEnv (hostWith environ) [] [str "HOME=/x", str "TERM=xterm"] [str "HOME=/",
          str "USER=u", str "LOGNAME=u",
          str "PATH=/usr/local/bin:/usr/bin:/bin:/usr/local/games:/usr/games"]
        credential := some (1000, 1000) }) := by
  have hcommand : termProgram.getStringExpression (hostWith environ) 2 (str "command") [] =
      some (str "a") := rfl
  rw [createProgramCommand, hcommand, Option.bind_some, parseCommand_letter, Option.bind_some]
  rfl

/-- The child sees the home directory of its user, and the terminal that is set for it. -/
theorem child_sees_term : ∃ cmd : ExecCmd,
    createProgramCommand oneUser (fun _ ↦ none) .inOrder
      (hostWith [(str "HOME", str "/root"), (str "TERM", str "vt100")]) 2 termProgram =
        some (.ok cmd) ∧
    valueIn cmd.env (str "HOME") = some (str "/") ∧
    valueIn cmd.env (str "TERM") = some (str "xterm") :=
  ⟨_, createProgramCommand_termProgram _,
    (child_sees (k := str "HOME") (createProgramCommand_termProgram _) rfl rfl rfl (by decide)
      (by decide)).1,
    (child_sees (k := str "TERM") (createProgramCommand_termProgram _) rfl rfl rfl (by decide)
      (by decide)).1⟩

end Supervisord.Process
