import Supervisord.Go.Range
import Supervisord.Go.Strings

/-!
# Reading XML

An `XMLProcessorManager` reads the tokens of a document and calls the handlers that are registered
for the path of an element, at the end of the element.  An element is read where it stands: the
path is the same before and after it, and so is what is told here of whole elements (`Reads`).

`ReloadConfig` counts the ends of lists with one handler and adds to the list with the number that
it has come to with another one.  It gets the lists that the server has sent
(`reloadConfig_encodeResponse`).
-/

namespace Supervisord

open Go

namespace Xml

/-- What `Token` returns. -/
inductive Token where
  | startElement (name : Str)
  | charData (data : Str)
  | endElement (name : Str)
  /-- A comment, a directive or an instruction. -/
  | other

/-- `String` of an `XMLPath`. -/
def pathString (elemNames : List Str) : Str := [47].intercalate elemNames

/-- The handlers, each of which changes a state of the caller. -/
structure XMLProcessorManager (σ : Type) where
  leafProcessors : Map Str (Str → σ → σ) := ∅
  switchTypeProcessors : Map Str (σ → σ) := ∅

/-- Where `ProcessXML` has come to, and the state of the caller. -/
structure Reader (σ : Type) where
  curPath : List Str
  curData : Option Str
  state : σ

namespace XMLProcessorManager

variable {σ : Type} (xpm : XMLProcessorManager σ)

def addLeafProcessor (path : Str) (processor : Str → σ → σ) : XMLProcessorManager σ :=
  { xpm with leafProcessors := xpm.leafProcessors.insert path processor }

def addSwitchTypeProcessor (path : Str) (processor : σ → σ) : XMLProcessorManager σ :=
  { xpm with switchTypeProcessors := xpm.switchTypeProcessors.insert path processor }

def processLeafNode (path data : Str) (s : σ) : σ :=
  match xpm.leafProcessors.lookup path with
  | some processor => processor data s
  | none => s

def processSwitchTypeNode (path : Str) (s : σ) : σ :=
  match xpm.switchTypeProcessors.lookup path with
  | some processor => processor s
  | none => s

/-- What is done at the end of the element with a path. -/
def close (path : List Str) (curData : Option Str) (s : σ) : σ :=
  let s := match curData with
    | some data => xpm.processLeafNode (pathString path) data s
    | none => s
  xpm.processSwitchTypeNode (pathString path) s

/-- A round of `ProcessXML`. -/
def process (r : Reader σ) : Token → Reader σ
  | .startElement name => { r with curPath := r.curPath ++ [name], curData := none }
  | .charData data => { r with curData := some data }
  | .endElement _ =>
    { r with curPath := r.curPath.dropLast, state := xpm.close r.curPath r.curData r.state }
  | .other => r

def processXML (tokens : List Token) (s : σ) : σ :=
  (tokens.foldl xpm.process ⟨[], none, s⟩).state

end XMLProcessorManager

/-! ## Elements -/

/-- An element around what it contains. -/
def element (name : Str) (tokens : List Token) : List Token :=
  .startElement name :: (tokens ++ [.endElement name])

/-- The text of an element, which is no token when it is empty. -/
def text (data : Str) : List Token := if data = [] then [] else [.charData data]

/-- The tokens are read at a path: with this character data and this state before them, and those
after them. -/
def Reads {σ : Type} (xpm : XMLProcessorManager σ) (path : List Str) (tokens : List Token)
    (x y : Option Str × σ) : Prop :=
  tokens.foldl xpm.process ⟨path, x.1, x.2⟩ = ⟨path, y.1, y.2⟩

section Reads

variable {σ : Type} {xpm : XMLProcessorManager σ} {path : List Str} {tokens tokens' : List Token}
  {x y z : Option Str × σ} {name data : Str} {s : σ}

theorem Reads.nil : Reads xpm path [] x x := rfl

theorem Reads.append (h : Reads xpm path tokens x y) (h' : Reads xpm path tokens' y z) :
    Reads xpm path (tokens ++ tokens') x z := by
  rw [Reads, List.foldl_append, h, h']

/-- Within an element its name is part of the path; what is pending after it has been there before
its end. -/
theorem Reads.element (h : Reads xpm (path ++ [name]) tokens (none, x.2) y) :
    Reads xpm path (element name tokens) x (y.1, xpm.close (path ++ [name]) y.1 y.2) := by
  rw [Reads, Xml.element, List.foldl_cons, List.foldl_append]
  show [Token.endElement name].foldl xpm.process
    (tokens.foldl xpm.process ⟨path ++ [name], none, x.2⟩) = _
  rw [h, List.foldl_cons, List.foldl_nil, XMLProcessorManager.process, List.dropLast_concat]

theorem Reads.text (h : data ≠ []) : Reads xpm path (text data) x (some data, x.2) := by
  rw [Reads, Xml.text, if_neg h]
  rfl

/-- Where no handler takes the text, it makes no difference which one is pending. -/
theorem close_of_lookup (h : xpm.leafProcessors.lookup (pathString path) = none)
    (curData : Option Str) :
    xpm.close path curData s = xpm.processSwitchTypeNode (pathString path) s := by
  cases curData with
  | none => rfl
  | some data => rw [XMLProcessorManager.close, XMLProcessorManager.processLeafNode, h]

/-- Elements that are read one after the other. -/
theorem Reads.flatMap {α : Type} {f : α → List Token} {g : α → σ → σ} {l : List α}
    (h : ∀ a ∈ l, ∀ x : Option Str × σ, ∃ d, Reads xpm path (f a) x (d, g a x.2)) :
    ∃ d, Reads xpm path (l.flatMap f) x (d, l.foldl (fun s a ↦ g a s) x.2) := by
  induction l generalizing x with
  | nil => exact ⟨x.1, .nil⟩
  | cons a l ih =>
      obtain ⟨ha, hl⟩ := List.forall_mem_cons.mp h
      obtain ⟨d, hd⟩ := ha x
      obtain ⟨d', hd'⟩ := ih (x := (d, g a x.2)) hl
      exact ⟨d', hd.append hd'⟩

end Reads

/-! ## The result of a reload -/

/-- The `ReloadConfigResult`, and `i`. -/
structure ReloadConfigResult where
  addedGroup : List Str := []
  changedGroup : List Str := []
  removedGroup : List Str := []
  i : Nat := 0
deriving DecidableEq

namespace ReloadConfigResult

/-- The handler for the value of a group. -/
def addValue (value : Str) (reply : ReloadConfigResult) : ReloadConfigResult :=
  match reply.i with
  | 0 => { reply with addedGroup := reply.addedGroup ++ [value] }
  | 1 => { reply with changedGroup := reply.changedGroup ++ [value] }
  | 2 => { reply with removedGroup := reply.removedGroup ++ [value] }
  | _ => reply

/-- The handler for the end of a list. -/
def endData (reply : ReloadConfigResult) : ReloadConfigResult := { reply with i := reply.i + 1 }

/-- The handlers of `ReloadConfig`. -/
def xmlProcMgr : XMLProcessorManager ReloadConfigResult :=
  (XMLProcessorManager.addSwitchTypeProcessor {}
    (str "methodResponse/params/param/value/array/data") endData).addLeafProcessor
      (str "methodResponse/params/param/value/array/data/value") addValue

/-- What `ReloadConfig` returns for the tokens of the response. -/
def reloadConfig (tokens : List Token) : ReloadConfigResult := xmlProcMgr.processXML tokens {}

end ReloadConfigResult

/-! ## The response -/

/-- The name of a group, as an element of an array. -/
def encodeName (name : Str) : List Token :=
  element (str "value") (element (str "string") (text name))

/-- A list of names, as a parameter. -/
def encodeGroups (groups : List Str) : List Token :=
  element (str "param") (element (str "value") (element (str "array")
    (element (str "data") (groups.flatMap encodeName))))

/-- The response of the server. -/
def encodeResponse (added changed removed : List Str) : List Token :=
  element (str "methodResponse") (element (str "params")
    (encodeGroups added ++ (encodeGroups changed ++ encodeGroups removed)))

namespace ReloadConfigResult

variable {groups : List Str} {name : Str} {x : Option Str × ReloadConfigResult}

/-- The path of the parameters. -/
def paramsPath : List Str := [str "methodResponse", str "params"]

/-- The path of the names in a parameter. -/
def dataPath : List Str :=
  paramsPath ++ [str "param"] ++ [str "value"] ++ [str "array"] ++ [str "data"]

/-- The handler is called at the outer end of the element, with the text of the inner one, and at
the inner end no handler is called. -/
theorem reads_encodeName (h : name ≠ []) :
    Reads xmlProcMgr dataPath (encodeName name) x (some name, addValue name x.2) :=
  (Reads.text h).element.element

/-- A list is read to its end, where the number goes up. -/
theorem reads_encodeGroups (h : ∀ name ∈ groups, name ≠ []) :
    ∃ d, Reads xmlProcMgr paramsPath (encodeGroups groups) x
      (d, endData (groups.foldl (fun reply name ↦ addValue name reply) x.2)) := by
  obtain ⟨d, hd⟩ : ∃ d, Reads xmlProcMgr dataPath (groups.flatMap encodeName) (none, x.2)
      (d, groups.foldl (fun reply name ↦ addValue name reply) x.2) :=
    Reads.flatMap fun name hname y ↦ ⟨some name, reads_encodeName (h name hname)⟩
  refine ⟨d, ?_⟩
  have hdata := hd.element (x := (none, x.2))
  have harray := hdata.element (x := (none, x.2))
  have hvalue := harray.element (x := (none, x.2))
  have hparam := hvalue.element (x := x)
  -- the text that is pending is no text of these elements
  rw [close_of_lookup rfl, close_of_lookup rfl, close_of_lookup rfl, close_of_lookup rfl] at hparam
  exact hparam

/-- The names go to the list with the number. -/
def addValues (groups : List Str) (reply : ReloadConfigResult) : ReloadConfigResult :=
  match reply.i with
  | 0 => { reply with addedGroup := reply.addedGroup ++ groups }
  | 1 => { reply with changedGroup := reply.changedGroup ++ groups }
  | 2 => { reply with removedGroup := reply.removedGroup ++ groups }
  | _ => reply

theorem addValues_nil (reply : ReloadConfigResult) : addValues [] reply = reply := by
  rw [addValues]
  split <;> simp

theorem addValues_cons (name : Str) (groups : List Str) (reply : ReloadConfigResult) :
    addValues (name :: groups) reply = addValues groups (addValue name reply) := by
  obtain ⟨added, changed, removed, i⟩ := reply
  rcases i with _ | _ | _ | i
  · simp [addValues, addValue]
  · simp [addValues, addValue]
  · simp [addValues, addValue]
  · rfl

theorem foldl_addValue (groups : List Str) (reply : ReloadConfigResult) :
    groups.foldl (fun reply name ↦ addValue name reply) reply = addValues groups reply := by
  induction groups generalizing reply with
  | nil => exact (addValues_nil reply).symm
  | cons name groups ih => rw [List.foldl_cons, ih, addValues_cons]

/-- **Round trip.**  The client gets the lists that the server has sent. -/
theorem reloadConfig_encodeResponse (added changed removed : List Str)
    (h : ∀ name ∈ added ++ (changed ++ removed), name ≠ []) :
    reloadConfig (encodeResponse added changed removed) =
      { addedGroup := added, changedGroup := changed, removedGroup := removed, i := 3 } := by
  obtain ⟨hadded, hrest⟩ := List.forall_mem_append.mp h
  obtain ⟨hchanged, hremoved⟩ := List.forall_mem_append.mp hrest
  obtain ⟨d₁, h₁⟩ := reads_encodeGroups (x := (none, ({} : ReloadConfigResult))) hadded
  obtain ⟨d₂, h₂⟩ := reads_encodeGroups (x := (d₁, _)) hchanged
  obtain ⟨d₃, h₃⟩ := reads_encodeGroups (x := (d₂, _)) hremoved
  have hparams : Reads xmlProcMgr ([] ++ [str "methodResponse"] ++ [str "params"]) _ _ _ :=
    h₁.append (h₂.append h₃)
  have hresponse := hparams.element (x := (none, ({} : ReloadConfigResult)))
  have hread := hresponse.element (x := (none, ({} : ReloadConfigResult)))
  rw [close_of_lookup rfl, close_of_lookup rfl] at hread
  rw [Reads] at hread
  rw [reloadConfig, XMLProcessorManager.processXML, encodeResponse, hread, foldl_addValue,
    foldl_addValue, foldl_addValue]
  rfl

theorem reloadConfig_encodeResponse_two :
    reloadConfig (encodeResponse [] [str "web"] [str "db", str "web"]) =
      { addedGroup := [], changedGroup := [str "web"], removedGroup := [str "db", str "web"],
        i := 3 } :=
  reloadConfig_encodeResponse [] [str "web"] [str "db", str "web"] (by decide)

end ReloadConfigResult

end Xml

end Supervisord
