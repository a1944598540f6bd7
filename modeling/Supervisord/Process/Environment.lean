import Supervisord.Config.Values
import Supervisord.Process.Command

/-!
# The environment of a child

`createProgramCommand` makes the `exec.Cmd` of a program.  For a program with a `user` it forces
some variables and filters out those of the user the supervisor has been started by, before it
merges the environment of the supervisor into what it has: `hygienic_iff` states when the filter
makes no difference.
-/

namespace Supervisord.Process

open Go

/-- An entry of the user database. -/
structure User where
  uid : Str
  gid : Str
  username : Str
  homeDir : Str

/-- The package `os/user`. -/
structure Users where
  /-- `user.Current`. -/
  current : Option User := none
  lookup : Str → Option User
  /-- The gid `user.LookupGroup` finds. -/
  lookupGroup : Str → Option Str := fun _ ↦ none

/-- The fields of an `exec.Cmd` that `createProgramCommand` sets from the configuration. -/
structure ExecCmd where
  args : List Str
  env : List Str := []
  dir : Str := []
  /-- The `Uid` and the `Gid` of `SysProcAttr.Credential`. -/
  credential : Option (UInt32 × UInt32) := none

/-- `createCommand` of a list of arguments. -/
def createCommand (args : List Str) : Except Str ExecCmd :=
  if args = [] then .error (str "empty command") else .ok { args }

/-! ## The user -/

/-- `strconv.ParseUint(s, 10, 32)`. -/
def parseUint32 (s : Str) : Option UInt32 :=
  s.digits.bind fun n ↦ if n < 2 ^ 32 then some (.ofNat n) else none

def setUserID (users : Users) (uid gid : UInt32) (cmd : ExecCmd) : ExecCmd :=
  let ids := users.current.bind fun u ↦
    (parseUint32 u.uid).bind fun cuid ↦ (parseUint32 u.gid).map fun cgid ↦ (cuid, cgid)
  if ids = some (uid, gid) then cmd else { cmd with credential := some (uid, gid) }

/-- What stands before the first `=`, `strings.SplitN(item, "=", 2)[0]`. -/
def keyOf (item : Str) : Str := item.takeWhile (· ≠ 61)

def appendEnvWithOverride (env : List Str) (pairs : List (Str × Str)) : List Str :=
  pairs.map (fun pair ↦ keyValue pair.1 pair.2) ++
    env.filter fun e ↦ 61 ∈ e && keyOf e ∉ pairs.map (·.1)

/-- A safe `PATH`. -/
def defaultPath (u : User) : Str :=
  if u.uid = str "0" then str "/usr/local/sbin:/usr/local/bin:/usr/sbin:/usr/bin:/sbin:/bin"
  else str "/usr/local/bin:/usr/bin:/bin:/usr/local/games:/usr/games"

/-- Filter out dangerous variables. -/
def filterRootEnv (env : List Str) : List Str :=
  env.filter fun e ↦ !(e.hasPrefix (str "SUDO_") || e.hasPrefix (str "XDG_RUNTIME_DIR="))

/-- `setUser` for the value of `user`; nothing is returned when it fails. -/
def setUser (users : Users) (userName : Str) (cmd : ExecCmd) : Option ExecCmd :=
  if userName = [] then some cmd
  else
    -- check if group is provided
    let name := userName.takeWhile (· ≠ 58)
    let groupName := userName.drop (name.length + 1)
    (users.lookup name).bind fun u ↦
      (parseUint32 u.uid).bind fun uid ↦
        (if groupName = [] then parseUint32 u.gid
          else (users.lookupGroup groupName).bind parseUint32).map fun gid ↦
          let cmd := setUserID users uid gid cmd
          let env := appendEnvWithOverride cmd.env [(str "HOME", u.homeDir),
            (str "USER", u.username), (str "LOGNAME", u.username), (str "PATH", defaultPath u)]
          { cmd with env := filterRootEnv env }

/-! ## The environment -/

/-- `os.Environ()`. -/
def environ (host : Host) : List Str := host.environ.map fun t ↦ keyValue t.1 t.2

def mergeKeyValueArrays (arr1 arr2 : List Str) : List Str :=
  arr1 ++ arr2.filter fun item ↦ keyOf item ≠ [] && keyOf item ∉ arr1.map keyOf

/-- What `setEnv` makes of `p.cmd.Env`, for what the settings `envFiles` and `environment` give. -/
def setEnv (host : Host) (envFromFiles env cmdEnv : List Str) : List Str :=
  if env.length + envFromFiles.length ≠ 0 then
    mergeKeyValueArrays cmdEnv (environ host ++ envFromFiles ++ env)
  else mergeKeyValueArrays cmdEnv (environ host)

/-- `createProgramCommand`, up to the monitors, the pipes and the loggers.  Nothing is returned
where the command cannot be parsed without a panic and where an expression is not evaluated in `n`
rounds. -/
def createProgramCommand (users : Users) (readEnvFile : Str → Option (Map Str Str)) (rt : Runtime)
    (host : Host) (n : Nat) (config : Entry) : Option (Except Str ExecCmd) :=
  (config.getStringExpression host n (str "command") []).bind fun command ↦
    (Command.parseCommand command).bind fun args ↦
      match args.bind createCommand with
      | .error err => some (.error err)
      | .ok cmd =>
        (config.getString host n (str "user") []).bind fun userName ↦
          match setUser users userName cmd with
          | none => some (.error (str "fail to set user"))
          | some cmd =>
            (config.getEnvFromFiles (rt.fork 0) host n readEnvFile (str "envFiles")).bind
              fun envFromFiles ↦
                (config.getEnv (rt.fork 1) host n (str "environment")).bind fun env ↦
                  (config.getStringExpression host n (str "directory") []).map fun dir ↦
                    .ok { cmd with env := setEnv host envFromFiles env cmd.env, dir }

/-! ## Hygiene -/

/-- A variable the filter is for. -/
def RootVariable (name : Str) : Prop :=
  name.hasPrefix (str "SUDO_") ∨ name = str "XDG_RUNTIME_DIR"

instance : DecidablePred RootVariable := fun _ ↦ inferInstanceAs (Decidable (_ ∨ _))

/-- The list holds no such variable. -/
def Hygienic (env : List Str) : Prop := ∀ item ∈ env, ¬RootVariable (keyOf item)

instance : DecidablePred Hygienic := fun env ↦ List.decidableBAll _ env

/-- The variables `setUser` forces. -/
def forcedKeys : List Str := [str "HOME", str "USER", str "LOGNAME", str "PATH"]

variable {users : Users} {readEnvFile : Str → Option (Map Str Str)} {rt : Runtime} {host : Host}
  {n : Nat} {config : Entry} {cmd cmd' : ExecCmd} {userName item k v : Str}
  {envFromFiles env cmdEnv arr1 arr2 : List Str}

theorem keyOf_keyValue (h : 61 ∉ k) : keyOf (keyValue k v) = k := by
  have hall : ∀ b ∈ k, decide (b ≠ 61) = true := fun b hb ↦
    decide_eq_true fun he ↦ h (he ▸ hb)
  rw [keyOf, keyValue, List.takeWhile_append_of_pos hall]
  exact List.append_nil k

theorem not_rootVariable_of_mem (h : k ∈ forcedKeys) : ¬RootVariable k := by
  have hall : ∀ k ∈ forcedKeys, ¬RootVariable k := by decide
  exact hall k h

theorem RootVariable.ne_nil (h : RootVariable k) : k ≠ [] := by
  rintro rfl
  revert h
  decide

theorem mem_mergeKeyValueArrays : item ∈ mergeKeyValueArrays arr1 arr2 ↔
    item ∈ arr1 ∨ item ∈ arr2 ∧ keyOf item ≠ [] ∧ keyOf item ∉ arr1.map keyOf := by
  rw [mergeKeyValueArrays, List.mem_append, List.mem_filter, Bool.and_eq_true, decide_eq_true_iff,
    decide_eq_true_iff]

theorem env_setUserID (users : Users) (uid gid : UInt32) (cmd : ExecCmd) :
    (setUserID users uid gid cmd).env = cmd.env := by
  unfold setUserID
  dsimp only
  split <;> rfl

/-- With a user, the command has the forced variables and no others when `setUser` is done. -/
theorem keyOf_mem_of_setUser (h : setUser users userName cmd = some cmd') (hne : userName ≠ [])
    (henv : cmd.env = []) (hi : item ∈ cmd'.env) : keyOf item ∈ forcedKeys := by
  rw [setUser, if_neg hne] at h
  obtain ⟨u, -, h⟩ := Option.bind_eq_some_iff.mp h
  obtain ⟨uid, -, h⟩ := Option.bind_eq_some_iff.mp h
  obtain ⟨gid, -, rfl⟩ := Option.map_eq_some_iff.mp h
  have hforced := List.mem_of_mem_filter hi
  rw [appendEnvWithOverride, env_setUserID, henv, List.filter_nil, List.append_nil] at hforced
  obtain ⟨pair, hpair, rfl⟩ := List.mem_map.mp hforced
  have hkey : pair.1 ∈ forcedKeys := List.mem_map_of_mem (f := (·.1)) hpair
  have hno : ∀ k ∈ forcedKeys, 61 ∉ k := by decide
  rwa [keyOf_keyValue (hno _ hkey)]

/-- A forced variable is none of the filtered ones, and the merge keeps what is not forced. -/
theorem hygienic_setEnv_iff (hforced : ∀ item ∈ cmdEnv, keyOf item ∈ forcedKeys)
    (hset : Hygienic (envFromFiles ++ env)) :
    Hygienic (setEnv host envFromFiles env cmdEnv) ↔ Hygienic (environ host) := by
  have hcmd : Hygienic cmdEnv := fun item hi ↦ not_rootVariable_of_mem (hforced item hi)
  have hkeep (item : Str) (hi : RootVariable (keyOf item)) :
      keyOf item ≠ [] ∧ keyOf item ∉ cmdEnv.map keyOf := by
    refine ⟨hi.ne_nil, fun hmem ↦ ?_⟩
    obtain ⟨item', hi', he⟩ := List.mem_map.mp hmem
    exact hcmd item' hi' (he ▸ hi)
  have hmerge (arr2 : List Str) :
      Hygienic (mergeKeyValueArrays cmdEnv arr2) ↔ Hygienic arr2 := by
    constructor
    · intro h item hi hroot
      exact h item (mem_mergeKeyValueArrays.mpr (.inr ⟨hi, hkeep item hroot⟩)) hroot
    · intro h item hi
      rcases mem_mergeKeyValueArrays.mp hi with hi | ⟨hi, -⟩
      · exact hcmd item hi
      · exact h item hi
  rw [setEnv]
  split
  · rw [hmerge, List.append_assoc]
    constructor
    · exact fun h item hi ↦ h item (List.mem_append_left _ hi)
    · intro h item hi
      rcases List.mem_append.mp hi with hi | hi
      · exact h item hi
      · exact hset item hi
  · exact hmerge _

/-- How the environment of the command comes about. -/
theorem env_of_createProgramCommand
    (hcmd : createProgramCommand users readEnvFile rt host n config = some (.ok cmd))
    (huser : config.getString host n (str "user") [] = some userName)
    (hfiles : config.getEnvFromFiles (rt.fork 0) host n readEnvFile (str "envFiles") =
      some envFromFiles)
    (henv : config.getEnv (rt.fork 1) host n (str "environment") = some env) :
    ∃ cmd₁ cmd₂ : ExecCmd, cmd₁.env = [] ∧ setUser users userName cmd₁ = some cmd₂ ∧
      cmd.env = setEnv host envFromFiles env cmd₂.env := by
  obtain ⟨command, -, hcmd⟩ := Option.bind_eq_some_iff.mp hcmd
  obtain ⟨args, -, hcmd⟩ := Option.bind_eq_some_iff.mp hcmd
  split at hcmd
  · cases hcmd
  · rename_i cmd₁ hcreate
    have hnil : cmd₁.env = [] := by
      cases args with
      | error err => cases hcreate
      | ok args =>
          rw [Except.bind, createCommand] at hcreate
          split at hcreate
          · cases hcreate
          · cases hcreate
            rfl
    rw [huser, Option.bind_some] at hcmd
    split at hcmd
    · cases hcmd
    · rename_i cmd₂ hsetUser
      rw [hfiles, Option.bind_some, henv, Option.bind_some] at hcmd
      obtain ⟨dir, -, hcmd⟩ := Option.map_eq_some_iff.mp hcmd
      obtain rfl := Except.ok.inj hcmd
      exact ⟨cmd₁, cmd₂, hnil, hsetUser, rfl⟩

/-- **Hygiene.**  The child of a program with a user gets none of the variables that are filtered
out if and only if the supervisor has none of them. -/
theorem hygienic_iff
    (hcmd : createProgramCommand users readEnvFile rt host n config = some (.ok cmd))
    (huser : config.getString host n (str "user") [] = some userName) (hne : userName ≠ [])
    (hfiles : config.getEnvFromFiles (rt.fork 0) host n readEnvFile (str "envFiles") =
      some envFromFiles)
    (henv : config.getEnv (rt.fork 1) host n (str "environment") = some env)
    (hset : Hygienic (envFromFiles ++ env)) :
    Hygienic cmd.env ↔ Hygienic (environ host) := by
  obtain ⟨cmd₁, cmd₂, hnil, hsetUser, hcmdEnv⟩ := env_of_createProgramCommand hcmd huser hfiles henv
  rw [hcmdEnv]
  exact hygienic_setEnv_iff (fun item hi ↦ keyOf_mem_of_setUser hsetUser hne hnil hi) hset

/-- A program that is run as a user. -/
def userProgram : Entry where
  configDir := []
  name := str "program:a"
  keyValues k := if k = str "command" then some (str "a")
    else if k = str "user" then some (str "u") else none

/-- A user database. -/
def oneUser : Users where
  lookup _ := some { uid := str "1000", gid := str "1000", username := str "u", homeDir := str "/" }

theorem parseCommand_letter : Command.parseCommand (str "a") = some (.ok [str "a"]) := by
  have hspace : Command.skipSpace (str "a") 0 = some 0 := by
    rw [Command.skipSpace]
    rfl
  have hcut : Command.cutArgument (str "a") 0 0 [] = some ([str "a"], 1) := by
    rw [Command.cutArgument, dif_pos (by decide), if_neg (by decide), if_neg (by decide),
      if_neg (by decide), Command.cutArgument_end (by decide)]
    rfl
  have hend : Command.cutArguments (str "a") 1 [str "a"] = some [str "a"] :=
    Command.cutArguments_length _
  rw [Command.parseCommand, Command.cutArguments_some hspace, hcut, Option.bind_some, hend]
  rfl

/-- A supervisor with some environment. -/
def hostWith (environ : List (Str × Str)) : Host := { Host.bare with environ }

theorem createProgramCommand_userProgram (environ : List (Str × Str)) :
    createProgramCommand oneUser (fun _ ↦ none) .inOrder (hostWith environ) 2 userProgram =
      some (.ok {
        args := [str "a"]
        env := setEnv (hostWith environ) [] [] [str "HOME=/", str "USER=u", str "LOGNAME=u",
          str "PATH=/usr/local/bin:/usr/bin:/bin:/usr/local/games:/usr/games"]
        credential := some (1000, 1000) }) := by
  have hcommand : userProgram.getStringExpression (hostWith environ) 2 (str "command") [] =
      some (str "a") := rfl
  rw [createProgramCommand, hcommand, Option.bind_some, parseCommand_letter, Option.bind_some]
  rfl

/-- The statement for a supervisor without `USER` in its environment. -/
theorem hygienic_iff_user : ∃ cmd : ExecCmd,
    createProgramCommand oneUser (fun _ ↦ none) .inOrder
      (hostWith [(str "HOME", str "/root"), (str "TERM", str "vt100")]) 2 userProgram =
        some (.ok cmd) ∧ Hygienic cmd.env :=
  ⟨_, createProgramCommand_userProgram _,
    (hygienic_iff (createProgramCommand_userProgram _) rfl (by decide)
      rfl rfl (by decide)).mpr (by decide)⟩

/-- What the supervisor has of the user it was started by goes to the child. -/
theorem not_hygienic : ∃ cmd : ExecCmd,
    createProgramCommand oneUser (fun _ ↦ none) .inOrder
      (hostWith [(str "SUDO_USER", str "root")]) 2 userProgram = some (.ok cmd) ∧
    userProgram.getString (hostWith [(str "SUDO_USER", str "root")]) 2 (str "user") [] =
      some (str "u") ∧
    userProgram.keyValues (str "environment") = none ∧
    userProgram.keyValues (str "envFiles") = none ∧
    ¬Hygienic cmd.env :=
  ⟨_, createProgramCommand_userProgram _, rfl, rfl, rfl, by decide⟩

end Supervisord.Process
