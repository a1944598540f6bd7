import Supervisord.Config.StringExpression

/-!
# Entries of the configuration

An `Entry` holds one section of the configuration file, under the name the section has or, for a
program or an event listener, the name its process has.  The functions that evaluate string
expressions take the number of rounds `Eval` may go through and return nothing when it is not
enough.
-/

namespace Supervisord

open Go

structure Entry where
  configDir : Str
  group : Str := []
  name : Str := []
  keyValues : Str → Option Str := fun _ ↦ none

/-- `NewEntry`. -/
def newEntry (configDir : Str) : Entry := { configDir }

namespace Entry

variable (c : Entry)

/-! ## Kinds of entries -/

/-- Whether the name begins with `kind`. -/
def isKind (kind : Str) : Bool := c.name.hasPrefix kind

/-- What follows `kind` in the name. -/
def nameOf (kind : Str) : Str := if c.isKind kind then c.name.drop kind.length else []

def isProgram : Bool := c.isKind (str "program:")

def getProgramName : Str := c.nameOf (str "program:")

def isEventListener : Bool := c.isKind (str "eventlistener:")

def getEventListenerName : Str := c.nameOf (str "eventlistener:")

def isGroup : Bool := c.isKind (str "group:")

def getGroupName : Str := c.nameOf (str "group:")

/-! ## Values -/

def hasParameter (key : Str) : Bool := (c.keyValues key).isSome

/-- `toInt`, whose product is one of 64-bit integers. -/
def toInt (s : Str) (factor defValue : Int) : Int := match s.atoi with
  | some i => (i * factor).bmod (2 ^ 64)
  | none => defValue

def getInt (key : Str) (defValue : Int) : Int := match c.keyValues key with
  | some value => toInt value 1 defValue
  | none => defValue

def getString (host : Host) (n : Nat) (key defValue : Str) : Option Str :=
  match c.keyValues key with
  | some s =>
    let env := StringExpression.new host [(str "here", c.configDir)]
    (StringExpression.eval host env n s).map fun
      | .ok repS => repS
      | .error _ => defValue
  | none => some defValue

def getStringArray (key : Str) (sep : UInt8) : List Str := match c.keyValues key with
  | some s => s.split sep
  | none => []

/-- `GetPrograms`: the programs of a group. -/
def getPrograms : List Str :=
  if c.isGroup then (c.getStringArray (str "programs") 44).map .trimSpace else []

variable {c} {host : Host} {n m : Nat} {key defValue v : Str}

theorem getString_mono (h : c.getString host n key defValue = some v) (hnm : n ≤ m) :
    c.getString host m key defValue = some v := by
  unfold getString at h ⊢
  split
  · rename_i s hs
    rw [hs] at h
    obtain ⟨r, hr, rfl⟩ := Option.map_eq_some_iff.mp h
    exact Option.map_eq_some_iff.mpr ⟨r, StringExpression.eval_mono hr hnm, rfl⟩
  · rename_i hs
    rwa [hs] at h

theorem getString_eq_default (h : c.hasParameter key = false) :
    c.getString host n key defValue = some defValue := by
  have hn : c.keyValues key = none := by simpa [hasParameter] using h
  rw [getString, hn]

end Entry

end Supervisord
