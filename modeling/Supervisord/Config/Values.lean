import Supervisord.Config.Load

/-!
# Values with variables

The getters of an `Entry` that replace the variables of a process, `%(program_name)s` and others,
by what the entry says of them, each time they are asked.
-/

namespace Supervisord

open Go

/-- What `fmt.Sprintf("%s=%s", k, v)` makes of a variable. -/
def keyValue (k v : Str) : Str := k ++ 61 :: v

/-- `parseEnvFiles`, where `readEnvFile` opens and parses a file. -/
def parseEnvFiles (readEnvFile : Str → Option (Map Str Str)) (s : Str) : Map Str Str :=
  (s.split 44).foldl (fun result envFilePath ↦ match readEnvFile envFilePath.trimSpace with
    | none => result
    | some r => r.entries.foldl (fun result e ↦ result.insert e.1 e.2) result) ∅

namespace Entry

variable (rt : Runtime) (host : Host) (n : Nat) (c : Entry)

/-- `strconv.ParseBool`. -/
def parseBool (s : Str) : Option Bool :=
  if s ∈ [str "1", str "t", str "T", str "TRUE", str "true", str "True"] then some true
  else if s ∈ [str "0", str "f", str "F", str "FALSE", str "false", str "False"] then some false
  else none

def getBool (key : Str) (defValue : Bool) : Bool :=
  ((c.keyValues key).bind parseBool).getD defValue

/-- `GetBytes`: a size with a unit. -/
def getBytes (key : Str) (defValue : Int) : Int :=
  match c.keyValues key with
  | none => defValue
  | some v =>
    let lastTwoBytes := v.drop (v.length - 2)
    let number := v.take (v.length - 2)
    if 2 < v.length ∧ lastTwoBytes = str "MB" then toInt number (1024 * 1024) defValue
    else if 2 < v.length ∧ lastTwoBytes = str "GB" then toInt number (1024 * 1024 * 1024) defValue
    else if 2 < v.length ∧ lastTwoBytes = str "KB" then toInt number 1024 defValue
    else toInt v 1 defValue

/-- The variables of the process. -/
def processVariables : Option (List (Str × Str)) :=
  (c.getString host n (str "process_num") (str "0")).map fun processNum ↦
    [(str "program_name", c.getProgramName), (str "process_num", processNum),
      (str "group_name", c.getGroupName), (str "here", c.configDir)]

/-- The environment in which `GetEnv` and `GetEnvFromFiles` evaluate. -/
def envOfVariables : Option Env := (c.processVariables host n).map (StringExpression.new host)

/-- The environment in which `GetStringExpression` evaluates. -/
def envOfExpression : Option Env := (c.processVariables host n).map fun envs ↦
  StringExpression.new host
    (envs ++ [(str "host_node_name", host.hostname.getD (str "Unknown"))])

def getStringExpression (key defValue : Str) : Option Str :=
  match c.keyValues key with
  | none => some defValue
  | some s =>
    if s = [] then some defValue
    else (c.envOfExpression host n).bind fun env ↦
      (StringExpression.eval host env n s).map fun
        | .ok result => result
        | .error _ => s

/-- The loop of `GetEnv` and `GetEnvFromFiles` over a map. -/
def evalKeyValues (m : Map Str Str) : Option (List Str) :=
  (rt.range m.entries).foldlM (fun result e ↦
    (c.envOfVariables host n).bind fun env ↦
      (StringExpression.eval host env n (keyValue e.1 e.2)).map fun
        | .ok tmp => result ++ [tmp]
        | .error _ => result) []

def getEnv (key : Str) : Option (List Str) := match c.keyValues key with
  | some value => c.evalKeyValues rt host n (parseEnv value)
  | none => some []

def getEnvFromFiles (readEnvFile : Str → Option (Map Str Str)) (key : Str) : Option (List Str) :=
  match c.keyValues key with
  | some value => c.evalKeyValues rt host n (parseEnvFiles readEnvFile value)
  | none => some []

end Entry

end Supervisord
