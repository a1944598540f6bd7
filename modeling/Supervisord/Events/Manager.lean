import Supervisord.Events.Event
import Supervisord.Go.Multimap

/-!
# The event listeners

The `EventListenerManager` knows its listeners by their names and by the types of the events they
receive.  A listener asks for events by name: of a type, or of an ancestor of types in
`eventTypeDerives`.
-/

namespace Supervisord.Events

open Go

/-- An `*EventListener`. -/
abbrev ListenerId := Nat

/-- The types of events, each with its ancestors. -/
def eventTypes : List (String × List String) :=
  [("PROCESS_STATE_STARTING", ["EVENT", "PROCESS_STATE"]),
    ("PROCESS_STATE_RUNNING", ["EVENT", "PROCESS_STATE"]),
    ("PROCESS_STATE_BACKOFF", ["EVENT", "PROCESS_STATE"]),
    ("PROCESS_STATE_STOPPING", ["EVENT", "PROCESS_STATE"]),
    ("PROCESS_STATE_EXITED", ["EVENT", "PROCESS_STATE"]),
    ("PROCESS_STATE_STOPPED", ["EVENT", "PROCESS_STATE"]),
    ("PROCESS_STATE_FATAL", ["EVENT", "PROCESS_STATE"]),
    ("PROCESS_STATE_UNKNOWN", ["EVENT", "PROCESS_STATE"]),
    ("REMOTE_COMMUNICATION", ["EVENT"]),
    ("PROCESS_LOG_STDOUT", ["EVENT", "PROCESS_LOG"]),
    ("PROCESS_LOG_STDERR", ["EVENT", "PROCESS_LOG"]),
    ("PROCESS_COMMUNICATION_STDOUT", ["EVENT", "PROCESS_COMMUNICATION"]),
    ("PROCESS_COMMUNICATION_STDERR", ["EVENT", "PROCESS_COMMUNICATION"]),
    ("SUPERVISOR_STATE_CHANGE_RUNNING", ["EVENT", "SUPERVISOR_STATE_CHANGE"]),
    ("SUPERVISOR_STATE_CHANGE_STOPPING", ["EVENT", "SUPERVISOR_STATE_CHANGE"]),
    ("TICK_5", ["EVENT", "TICK"]),
    ("TICK_60", ["EVENT", "TICK"]),
    ("TICK_3600", ["EVENT", "TICK"]),
    ("PROCESS_GROUP_ADDED", ["EVENT", "PROCESS_GROUP"]),
    ("PROCESS_GROUP_REMOVED", ["EVENT", "PROCESS_GROUP"])]

def eventTypeDerives : Map Str (List Str) where
  entries := eventTypes.map fun (k, values) ↦ ⟨str k, values.map str⟩
  nodupKeys := by
    unfold List.NodupKeys
    decide +kernel

structure EventListenerManager where
  namedListeners : Map Str ListenerId := ∅
  eventListeners : Multimap Str ListenerId := ∅

/-- The body of the loop over `eventTypeDerives`. -/
def addEvent (event : Str) (allEvents : Map Str Bool) (kv : Σ _ : Str, List Str) : Map Str Bool :=
  if event = kv.1 then allEvents.insert kv.1 true
  else kv.2.foldl (fun all val ↦ if val = event then all.insert kv.1 true else all) allEvents

/-- The types that a list of names stands for. -/
def allEvents (rt : Runtime) (events : List Str) : Map Str Bool :=
  events.zipIdx.foldl (fun all (event, i) ↦
    ((rt.fork i).range eventTypeDerives.entries).foldl (addEvent event) all) ∅

namespace EventListenerManager

variable (em : EventListenerManager) (rt : Runtime)

def registerEventListener (eventListenerName : Str) (events : List Str) (listener : ListenerId) :
    EventListenerManager where
  namedListeners := em.namedListeners.insert eventListenerName listener
  eventListeners := ((rt.fork 1).range (allEvents (rt.fork 0) events).keys).foldl
    (fun m event ↦ m.add event listener) em.eventListeners

/-- The result is the listener whose `stop` is called. -/
def unregisterEventListener (eventListenerName : Str) :
    EventListenerManager × Option ListenerId :=
  match em.namedListeners.lookup eventListenerName with
  | some listener =>
    ({ namedListeners := em.namedListeners.erase eventListenerName
       eventListeners := (rt.range em.eventListeners.keys).foldl
        (fun m event ↦ m.drop event listener) em.eventListeners }, some listener)
  | none => (em, none)

/-- The listeners whose `HandleEvent` is called, in this order, for an event of a type. -/
def emitEvent (type : Str) : List ListenerId :=
  match em.eventListeners.lookup type with
  | some listeners => rt.range listeners.keys
  | none => []

end EventListenerManager

end Supervisord.Events
