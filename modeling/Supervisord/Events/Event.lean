import Supervisord.Go.Range
import Supervisord.Go.Decimal

/-!
# Events

An event is known by what the getters of the interface `Event` return.  Each constructor takes
the serial that `nextEventSerial` draws for it.

`encodeEvent` writes an event the way a listener program reads it: a line of text that ends in the
number of bytes of the body, and the body.
-/

namespace Supervisord.Events

open Go

structure Event where
  getSerial : UInt64
  getType : Str
  getBody : Str
deriving DecidableEq

/-! ## Constructors -/

def newRemoteCommunicationEvent (serial : UInt64) (typ data : Str) : Event where
  getSerial := serial
  getType := str "REMOTE_COMMUNICATION"
  getBody := str "type:" ++ typ ++ str "\n" ++ data

def newProcCommEvent (serial : UInt64) (eventType procName groupName : Str) (pid : Int)
    (data : Str) : Event where
  getSerial := serial
  getType := eventType
  getBody := str "processname:" ++ procName ++ str " groupname:" ++ groupName ++ str " pid:" ++
    Str.formatInt pid ++ str "\n" ++ data

def newTickEvent (serial : UInt64) (tickType : Str) (time : Int) : Event where
  getSerial := serial
  getType := tickType
  getBody := str "when:" ++ Str.formatInt time

structure ProcessStateEvent where
  processName : Str
  groupName : Str
  fromState : Str
  tries : Int
  expected : Int
  pid : Int

def ProcessStateEvent.getBody (pse : ProcessStateEvent) : Str :=
  str "processname:" ++ pse.processName ++ str " groupname:" ++ pse.groupName ++
    str " from_state:" ++ pse.fromState ++
    (if 0 ≤ pse.tries then str " tries:" ++ Str.formatInt pse.tries else []) ++
    (if pse.expected ≠ -1 then str " expected:" ++ Str.formatInt pse.expected else []) ++
    (if pse.pid ≠ 0 then str " pid:" ++ Str.formatInt pse.pid else [])

def createProcessStartingEvent (serial : UInt64) (process group fromState : Str) (tries : Int) :
    Event where
  getSerial := serial
  getType := str "PROCESS_STATE_STARTING"
  getBody := ProcessStateEvent.getBody ⟨process, group, fromState, tries, -1, 0⟩

def createProcessRunningEvent (serial : UInt64) (process group fromState : Str) (pid : Int) :
    Event where
  getSerial := serial
  getType := str "PROCESS_STATE_RUNNING"
  getBody := ProcessStateEvent.getBody ⟨process, group, fromState, -1, -1, pid⟩

def createProcessBackoffEvent (serial : UInt64) (process group fromState : Str) (tries : Int) :
    Event where
  getSerial := serial
  getType := str "PROCESS_STATE_BACKOFF"
  getBody := ProcessStateEvent.getBody ⟨process, group, fromState, tries, -1, 0⟩

def createProcessStoppingEvent (serial : UInt64) (process group fromState : Str) (pid : Int) :
    Event where
  getSerial := serial
  getType := str "PROCESS_STATE_STOPPING"
  getBody := ProcessStateEvent.getBody ⟨process, group, fromState, -1, -1, pid⟩

def createProcessExitedEvent (serial : UInt64) (process group fromState : Str)
    (expected pid : Int) : Event where
  getSerial := serial
  getType := str "PROCESS_STATE_EXITED"
  getBody := ProcessStateEvent.getBody ⟨process, group, fromState, -1, expected, pid⟩

def createProcessStoppedEvent (serial : UInt64) (process group fromState : Str) (pid : Int) :
    Event where
  getSerial := serial
  getType := str "PROCESS_STATE_STOPPED"
  getBody := ProcessStateEvent.getBody ⟨process, group, fromState, -1, -1, pid⟩

def createProcessFatalEvent (serial : UInt64) (process group fromState : Str) : Event where
  getSerial := serial
  getType := str "PROCESS_STATE_FATAL"
  getBody := ProcessStateEvent.getBody ⟨process, group, fromState, -1, -1, 0⟩

def createProcessUnknownEvent (serial : UInt64) (process group fromState : Str) : Event where
  getSerial := serial
  getType := str "PROCESS_STATE_UNKNOWN"
  getBody := ProcessStateEvent.getBody ⟨process, group, fromState, -1, -1, 0⟩

def createSupervisorStateChangeRunning (serial : UInt64) : Event where
  getSerial := serial
  getType := str "SUPERVISOR_STATE_CHANGE_RUNNING"
  getBody := []

def createSupervisorStateChangeStopping (serial : UInt64) : Event where
  getSerial := serial
  getType := str "SUPERVISOR_STATE_CHANGE_STOPPING"
  getBody := []

/-- `GetBody` of a `ProcessLogEvent`. -/
def processLogBody (processName groupName : Str) (pid : Int) (data : Str) : Str :=
  str "processname:" ++ processName ++ str " groupname:" ++ groupName ++ str " pid:" ++
    Str.formatInt pid ++ str "\n" ++ data

def createProcessLogStdoutEvent (serial : UInt64) (processName groupName : Str) (pid : Int)
    (data : Str) : Event where
  getSerial := serial
  getType := str "PROCESS_LOG_STDOUT"
  getBody := processLogBody processName groupName pid data

def createProcessLogStderrEvent (serial : UInt64) (processName groupName : Str) (pid : Int)
    (data : Str) : Event where
  getSerial := serial
  getType := str "PROCESS_LOG_STDERR"
  getBody := processLogBody processName groupName pid data

def createProcessGroupAddedEvent (serial : UInt64) (groupName : Str) : Event where
  getSerial := serial
  getType := str "PROCESS_GROUP_ADDED"
  getBody := str "groupname:" ++ groupName

def createProcessGroupRemovedEvent (serial : UInt64) (groupName : Str) : Event where
  getSerial := serial
  getType := str "PROCESS_GROUP_REMOVED"
  getBody := str "groupname:" ++ groupName

/-! ## The serials of a pool -/

/-- The next serial of each pool that has drawn one. -/
abbrev EventPoolSerial := Map Str UInt64

def EventPoolSerial.nextSerial (eps : EventPoolSerial) (pool : Str) : UInt64 × EventPoolSerial :=
  let r := (eps.lookup pool).getD 1
  (r, eps.insert pool (r + 1))

/-! ## Encoding -/

def eventSysVersion : Str := str "3.0"

/-- What does not change in an `EventListener`. -/
structure EventListener where
  pool : Str
  server : Str
  bufferSize : Int

/-- An encoded event, by what `encodeEvent` has put in. -/
structure Encoded where
  event : Event
  poolserial : UInt64
deriving DecidableEq

variable (el : EventListener)

/-- The header up to the number of bytes. -/
def Encoded.fields (x : Encoded) : Str :=
  str "ver:" ++ eventSysVersion ++ str " server:" ++ el.server ++
    str " serial:" ++ Str.itoa x.event.getSerial.toNat ++ str " pool:" ++ el.pool ++
    str " poolserial:" ++ Str.itoa x.poolserial.toNat ++ str " eventname:" ++ x.event.getType ++
    str " len:"

/-- The bytes. -/
def Encoded.bytes (x : Encoded) : Str :=
  x.fields el ++ Str.itoa x.event.getBody.length ++ str "\n" ++ x.event.getBody

def EventListener.encodeEvent (eps : EventPoolSerial) (event : Event) :
    Encoded × EventPoolSerial :=
  let (poolserial, eps) := eps.nextSerial el.pool
  (⟨event, poolserial⟩, eps)

end Supervisord.Events
