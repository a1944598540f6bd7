import Supervisord.Config.Sort
import Supervisord.Memory.RefTable

/-!
# Loading the configuration

`Config.load` reads the sections of a configuration into the entries of the `Config`: the groups
first, then the programs and event listeners, one entry for each of their processes, and the other
sections last.  The entries are kept in one map and are shared with the processes, so that an
entry that exists is changed in place.

The ini library is not part of the repository.  A document is a list of sections with their keys
and values here; a file that cannot be opened leaves a document without sections.
-/

namespace Supervisord

open Go

/-! ## Documents -/

/-- A section of an ini document. -/
structure Section where
  name : Str
  keyValues : Map Str Str := ∅

namespace Section

def hasKey (sec : Section) (key : Str) : Bool := key ∈ sec.keyValues

def getValue (sec : Section) (key : Str) : Option Str := sec.keyValues.lookup key

def getValueWithDefault (sec : Section) (key defValue : Str) : Str :=
  (sec.getValue key).getD defValue

/-- `Add`, which replaces the value of a key that is there already. -/
def add (sec : Section) (key value : Str) : Section :=
  { sec with keyValues := sec.keyValues.insert key value }

/-- The keys with their values. -/
def keys (sec : Section) : List (Str × Str) := sec.keyValues.entries.map fun e ↦ (e.1, e.2)

end Section

/-- An ini document. -/
abbrev Ini := List Section

namespace Ini

/-- What `LoadFile` leaves of a new document, given what is in the file and in those it includes
or that it could not be opened. -/
def loadFile (file : Option Ini) : Ini := file.getD []

def getSection (ini : Ini) (name : Str) : Option Section := ini.find? (·.name = name)

end Ini

/-! ## Environments -/

/-- A round of `parseEnv`, from what is left of the string. -/
def parseEnvFrom : Nat → Str → Map Str Str → Map Str Str
  | 0, _, result => result
  | n + 1, s, result =>
    -- find the '='
    let key := s.takeWhile (· ≠ 61)
    let set (value : Str) := result.insert (Str.trimSpace key) value.trimSpace
    match s.drop key.length with
    | [] | [_] => result
    | _ :: 34 :: rest =>
      let value := rest.takeWhile (· ≠ 34)
      match rest.drop value.length with
      | [] => result
      | _ :: 44 :: rest => parseEnvFrom n rest (set value)
      | _ :: _ => set value
    | _ :: rest =>
      let value := rest.takeWhile (· ≠ 44)
      match rest.drop value.length with
      | [] => set value
      | _ :: rest => parseEnvFrom n rest (set value)

/-- `parseEnv`.  Each round takes a character of the string. -/
def parseEnv (s : Str) : Map Str Str := parseEnvFrom s.length s ∅

/-! ## Lists -/

namespace Util

/-- `Sub`: the elements of one list that are not in another. -/
def sub (arr1 arr2 : List Str) : List Str := arr1.filter (· ∉ arr2)

theorem mem_sub {arr1 arr2 : List Str} {s : Str} : s ∈ sub arr1 arr2 ↔ s ∈ arr1 ∧ s ∉ arr2 := by
  rw [sub, List.mem_filter, decide_eq_true_iff]

def isSameStringArray (arr1 arr2 : List Str) : Bool :=
  arr1.length = arr2.length && arr1.all (· ∈ arr2)

end Util

/-! ## Groups -/

/-- The mapping between the programs and their groups. -/
structure ProcessGroup where
  processGroup : Map Str Str := ∅

namespace ProcessGroup

def add (pg : ProcessGroup) (group procName : Str) : ProcessGroup where
  processGroup := pg.processGroup.insert procName group

def remove (pg : ProcessGroup) (procName : Str) : ProcessGroup where
  processGroup := pg.processGroup.erase procName

/-- `GetGroup`, which makes `defGroup` the group of a program that has none. -/
def getGroup (pg : ProcessGroup) (procName defGroup : Str) : Str × ProcessGroup :=
  match pg.processGroup.lookup procName with
  | some group => (group, pg)
  | none => (defGroup, pg.add defGroup procName)

def getAllGroup (rt : Runtime) (pg : ProcessGroup) : List Str :=
  let groups : Map Str Bool := ((rt.fork 0).range pg.processGroup.entries).foldl
    (fun groups e ↦ groups.insert e.2 true) ∅
  (rt.fork 1).range groups.keys

def getAllProcess (rt : Runtime) (pg : ProcessGroup) (group : Str) : List Str :=
  ((rt.range pg.processGroup.entries).filter fun e ↦ group = e.2).map (·.1)

/-- `Sub`: the groups added to `other`, changed and removed from it. -/
def sub (rt : Runtime) (pg other : ProcessGroup) : List Str × List Str × List Str :=
  let thisGroup := pg.getAllGroup (rt.fork 0)
  let otherGroup := other.getAllGroup (rt.fork 1)
  let changed := (thisGroup.zipIdx.filter fun (group, i) ↦
    let proc1 := pg.getAllProcess ((rt.fork 2).fork i) group
    let proc2 := other.getAllProcess ((rt.fork 3).fork i) group
    0 < proc2.length && !Util.isSameStringArray proc1 proc2).map (·.1)
  (Util.sub thisGroup otherGroup, changed, Util.sub otherGroup thisGroup)

end ProcessGroup

/-! ## The configuration -/

/-- The memory representation of the configuration file. -/
structure Config where
  /-- `GetConfigFileDir()`, the directory of the configuration file. -/
  configFileDir : Str
  /-- `entries`, with the entries they point to. -/
  entries : RefTable Str Entry
  programGroup : ProcessGroup := {}

/-- A pointer to an entry. -/
abbrev Ptr := Nat

/-- `NewConfig`. -/
def newConfig (configFileDir : Str) : Config where
  configFileDir := configFileDir
  entries := .empty (newEntry configFileDir)

/-- `parse` of an entry: the name and the keys of a section. -/
def Entry.parse (c : Entry) (sec : Section) : Entry :=
  sec.keys.foldl (fun c key ↦
      { c with keyValues := Function.update c.keyValues key.1 (some key.2.trimSpace) })
    { c with name := sec.name }

namespace Config

/-- The entry a pointer points to. -/
def entry (c : Config) (p : Ptr) : Entry := c.entries.cells p

/-- Write to the entry a pointer points to. -/
def modify (c : Config) (p : Ptr) (f : Entry → Entry) : Config :=
  { c with entries := c.entries.modify p f }

/-- Create a new entry or return the one that exists. -/
def createEntry (c : Config) (name configDir : Str) : Config × Ptr :=
  let (entries, p) := c.entries.create name (newEntry configDir)
  ({ c with entries }, p)

/-- The keys of `program-default` a section lacks, added to it. -/
def addDefaults (programDefaultSection sec : Section) : Section :=
  programDefaultSection.keys.foldl (fun sec key ↦
    if sec.hasKey key.1 then sec else sec.add key.1 key.2) sec

/-- `setProgramDefaultParams`. -/
def setProgramDefaultParams (ini : Ini) : Ini :=
  match ini.getSection (str "program-default") with
  | none => ini
  | some programDefaultSection => ini.map fun sec ↦
    if sec.name = str "program-default" || !sec.name.hasPrefix (str "program:") then sec
    else addDefaults programDefaultSection sec

/-- Put the programs of a group into it. -/
def addPrograms (c : Config) (groupName : Str) (programs : List Str) : Config :=
  { c with programGroup := programs.foldl (·.add groupName ·) c.programGroup }

/-- A round of `parseGroup`. -/
def parseGroupSection (c : Config) (sec : Section) : Config :=
  if sec.name.hasPrefix (str "group:") then
    let (c, p) := c.createEntry sec.name c.configFileDir
    let c := c.modify p (·.parse sec)
    c.addPrograms (c.entry p).getGroupName (c.entry p).getPrograms
  else c

def parseGroup (c : Config) (ini : Ini) : Config := ini.foldl parseGroupSection c

/-- `isProgramOrEventListener`: the prefix of the name of such a section. -/
def isProgramOrEventListener (sec : Section) : Option Str :=
  if sec.name.hasPrefix (str "program:") then some (str "program:")
  else if sec.name.hasPrefix (str "eventlistener:") then some (str "eventlistener:")
  else none

/-- The variables of the loop over the processes of a section. -/
structure Parsing where
  config : Config
  /-- `section`, which gets new keys on the way. -/
  sec : Section
  loadedPrograms : List Str

/-- The environment for the expressions of the `i`-th process of a section. -/
def processEnv (host : Host) (configFileDir programName group : Str) (sec : Section) (i : Nat) :
    Env :=
  let envs := StringExpression.new host [(str "program_name", programName),
    (str "process_num", Str.itoa i), (str "group_name", group), (str "here", configFileDir)]
  match sec.getValue (str "environment") with
  | some envValue => (parseEnv envValue).entries.foldl
      (fun envs e ↦ StringExpression.add envs (str "ENV_" ++ e.1) e.2) envs
  | none => envs

/-- The part of the loop that is reached when both expressions are evaluated. -/
def addProcess (s : Parsing) (kind programName procName : Str) (i : Nat) : Parsing :=
  let sec := ((s.sec.add (str "process_name") procName).add (str "numprocs_start")
    (Str.itoa (i - 1))).add (str "process_num") (Str.itoa i)
  let (c, p) := s.config.createEntry procName s.config.configFileDir
  let c := c.modify p fun entry ↦ { entry.parse sec with name := kind ++ procName }
  let (group, programGroup) := c.programGroup.getGroup programName programName
  let c := { c with programGroup }
  let c := c.modify p fun entry ↦ { entry with group }
  { config := c, sec, loadedPrograms := s.loadedPrograms ++ [procName] }

/-- A round of the loop over the processes of a section, the `i`-th from 1 on. -/
def parseProcess (host : Host) (n : Nat) (kind programName originalProcName originalCmd : Str)
    (s : Parsing) (i : Nat) : Option Parsing :=
  let (group, programGroup) := s.config.programGroup.getGroup programName programName
  let s := { s with config.programGroup := programGroup }
  let envs := processEnv host s.config.configFileDir programName group s.sec i
  (StringExpression.eval host envs n originalCmd).bind fun
    | .error _ => some s
    | .ok cmd =>
      let s := { s with sec := s.sec.add (str "command") cmd }
      (StringExpression.eval host envs n originalProcName).bind fun
        | .error _ => some s
        | .ok procName => some (addProcess s kind programName procName i)

/-- `numprocs` of a section. -/
def numProcs (host : Host) (sec : Section) : Nat :=
  (((sec.getValue (str "numprocs")).bind host.parseInt).getD 1).toNat

/-- A round of `parseProgram`. -/
def parseProgramSection (host : Host) (n : Nat) (s : Config × List Str) (sec : Section) :
    Option (Config × List Str) :=
  match isProgramOrEventListener sec with
  | none => some s
  | some kind =>
    let programName := sec.name.drop kind.length
    let originalProcName := (sec.getValue (str "process_name")).getD programName
    let originalCmd := sec.getValueWithDefault (str "command") []
    ((List.range' 1 (numProcs host sec)).foldlM
      (parseProcess host n kind programName originalProcName originalCmd)
      { config := s.1, sec, loadedPrograms := s.2 }).map fun s ↦ (s.config, s.loadedPrograms)

/-- `parseProgram`, which returns the names of all processes in the document. -/
def parseProgram (host : Host) (n : Nat) (c : Config) (ini : Ini) : Option (Config × List Str) :=
  ini.foldlM (parseProgramSection host n) (c, [])

/-- Whether a section is parsed after the groups, programs and event listeners. -/
def isOther (sec : Section) : Bool :=
  !sec.name.hasPrefix (str "group:") && !sec.name.hasPrefix (str "program:") &&
    !sec.name.hasPrefix (str "eventlistener:")

/-- A round of the loop over the other sections. -/
def parseOtherSection (c : Config) (sec : Section) : Config :=
  if isOther sec then
    let (c, p) := c.createEntry sec.name c.configFileDir
    c.modify p (·.parse sec)
  else c

def parse (host : Host) (n : Nat) (c : Config) (ini : Ini) : Option (Config × List Str) :=
  let ini := setProgramDefaultParams ini
  (parseProgram host n (c.parseGroup ini) ini).map fun (c, loadedPrograms) ↦
    (ini.foldl parseOtherSection c, loadedPrograms)

/-- `Load`, for what is in the configuration file.  Its error is a message; what `LoadFile`
returns is not looked at. -/
def load (host : Host) (n : Nat) (c : Config) (file : Option Ini) :
    Option (Config × Except Str (List Str)) :=
  let c := { c with programGroup := {} }
  (c.parse host n (.loadFile file)).map fun (c, loadedPrograms) ↦ (c, .ok loadedPrograms)

/-- `RemoveProgram`. -/
def removeProgram (c : Config) (programName : Str) : Config :=
  { c with
    entries := c.entries.erase programName
    programGroup := c.programGroup.remove programName }

/-! ## Listing -/

/-- `GetEntries`. -/
def getEntries (rt : Runtime) (c : Config) (filterFunc : Entry → Bool) : List Ptr :=
  ((rt.range c.entries.refs.entries).map (·.2)).filter fun p ↦ filterFunc (c.entry p)

/-- `GetPrograms`. -/
def getPrograms (rt : Runtime) (host : Host) (n : Nat) (c : Config) : Option (List Ptr) :=
  ProcessSorter.sortProgram (rt.fork 0) host n c.entry (c.getEntries (rt.fork 1) Entry.isProgram)

def getEventListeners (rt : Runtime) (c : Config) : List Ptr :=
  c.getEntries rt Entry.isEventListener

/-- `GetProgramNames`, which sorts the programs twice. -/
def getProgramNames (rt : Runtime) (host : Host) (n : Nat) (c : Config) : Option (List Str) :=
  (c.getPrograms (rt.fork 0) host n).bind fun programs ↦
    (ProcessSorter.sortProgram (rt.fork 1) host n c.entry programs).map
      (List.map fun p ↦ (c.entry p).getProgramName)

/-- `GetProgram`. -/
def getProgram (rt : Runtime) (c : Config) (name : Str) : Option Ptr :=
  ((rt.range c.entries.refs.entries).map (·.2)).find? fun p ↦
    (c.entry p).isProgram && (c.entry p).getProgramName = name

end Config

end Supervisord
