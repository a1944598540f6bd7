import Supervisord.Events.Event
import Supervisord.Machine.Basic

/-!
# An event listener

The goroutine of `start` waits until the listener program has written `READY`, sends it the first
event of the queue, reads what it answers and removes the event when the answer is `OK`.  Any
number of goroutines call `HandleEvent` meanwhile: each of them encodes its event, for which it
draws a serial of the pool, and then queues it.

The steps are between the points at which goroutines can be interleaved.  The delivery loop takes
one byte of the listener program at a time, so that its answers can be anything.
-/

namespace Supervisord.Events

open Go

/-- A goroutine that calls `HandleEvent`. -/
abbrev Tid := Nat

/-- Control points of the goroutine of `start`. -/
inductive Pc where
  /-- In `waitForReady`, with the part of a line read so far. -/
  | waitForReady (line : Str)
  | getFirstEvent
  /-- About to write the event. -/
  | write (b : Encoded)
  /-- In `readResult`, with the part of the first line read so far. -/
  | readResult (b : Encoded) (line : Str)
  /-- About to allocate `n` bytes for the result. -/
  | makeBytes (b : Encoded) (n : Nat)
  /-- Reading the `n` bytes of the result. -/
  | readBytes (b : Encoded) (n : Nat) (got : Str)
  /-- About to compare the result. -/
  | judge (b : Encoded) (result : Str)
  | removeFirstEvent (b : Encoded)
  | done
  | crashed
deriving DecidableEq

/-- What the pipes and the runtime answer to the goroutine of `start`. -/
inductive Answer where
  /-- The next byte of the listener program. -/
  | byte (b : UInt8)
  /-- The step goes through. -/
  | ok
  /-- The read, the write or the allocation fails. -/
  | err
deriving DecidableEq

/-- Control points of a goroutine that calls `HandleEvent`. -/
inductive HandlePc where
  | idle
  /-- About to encode the event. -/
  | encodeEvent (event : Event)
  /-- About to lock the queue. -/
  | lock (encodedEvent : Encoded)
deriving DecidableEq

structure Sys where
  /-- The serials of all pools. -/
  eventPoolSerial : EventPoolSerial
  events : List Encoded := []
  stopped : Bool := false
  deliver : Pc := .waitForReady []
  handlers : Tid → HandlePc := fun _ ↦ .idle

inductive Act where
  /-- `HandleEvent` is called. -/
  | call (t : Tid) (event : Event)
  /-- A goroutine in `HandleEvent` takes a step. -/
  | handle (t : Tid)
  /-- The goroutine of `start` takes a step. -/
  | deliver (r : Answer)
  /-- `stop` is called. -/
  | stop
  /-- Another listener draws a serial. -/
  | draw (pool : Str)
deriving DecidableEq

/-! ## Reading results -/

def readyLine : Str := str "READY\n"

/-- The number of bytes of the result that a line announces, if it does. -/
def resultLength (line : Str) : Option Nat :=
  match line.fields with
  | [f, len] =>
    if f = str "RESULT" then
      match len.atoi with
      | some n => if n < 0 then none else some n.toNat
      | none => none
    else none
  | _ => none

namespace Sys

variable (el : EventListener) (s : Sys)

/-! ## HandleEvent -/

/-- There is room for one more event. -/
def room : Bool := (s.events.length : Int) ≤ el.bufferSize

def goHandler (t : Tid) (pc : HandlePc) : Sys :=
  { s with handlers := Function.update s.handlers t pc }

def handleStep (t : Tid) : Option Sys :=
  match s.handlers t with
  | .idle => none
  | .encodeEvent event =>
    let (encodedEvent, eps) := el.encodeEvent s.eventPoolSerial event
    some ({ s with eventPoolSerial := eps }.goHandler t (.lock encodedEvent))
  | .lock encodedEvent =>
    if s.room el then some ({ s with events := s.events ++ [encodedEvent] }.goHandler t .idle)
    else some (s.goHandler t .idle)

/-! ## The delivery loop -/

def goDeliver (pc : Pc) : Sys := { s with deliver := pc }

def deliverStep (r : Answer) : Option Sys :=
  match s.deliver, r with
  | .waitForReady line, .byte b =>
    if b = 10 then
      if line ++ [b] = readyLine then some (s.goDeliver .getFirstEvent)
      else some (s.goDeliver (.waitForReady []))
    else some (s.goDeliver (.waitForReady (line ++ [b])))
  | .waitForReady _, .err => some (s.goDeliver .done)
  | .getFirstEvent, .ok =>
    if s.stopped then some (s.goDeliver .done)
    else match s.events with
      -- on the condition variable
      | [] => none
      | b :: _ => some (s.goDeliver (.write b))
  | .write b, .ok => some (s.goDeliver (.readResult b []))
  | .write _, .err => some (s.goDeliver (.waitForReady []))
  | .readResult b line, .byte c =>
    if c = 10 then
      match resultLength (line ++ [c]) with
      | some n => some (s.goDeliver (.makeBytes b n))
      | none => some (s.goDeliver (.waitForReady []))
    else some (s.goDeliver (.readResult b (line ++ [c])))
  | .readResult _ _, .err => some (s.goDeliver (.waitForReady []))
  | .makeBytes b n, .ok =>
    some (s.goDeliver (if n = 0 then .judge b [] else .readBytes b n []))
  | .makeBytes _ _, .err => some (s.goDeliver .crashed)
  | .readBytes b n got, .byte c =>
    some (s.goDeliver
      (if got.length + 1 = n then .judge b (got ++ [c]) else .readBytes b n (got ++ [c])))
  | .readBytes _ _ _, .err => some (s.goDeliver (.waitForReady []))
  | .judge b result, .ok =>
    if result = str "OK" then some (s.goDeliver (.removeFirstEvent b))
    else if result = str "FAIL" then some (s.goDeliver (.waitForReady []))
    else some (s.goDeliver .getFirstEvent)
  | .removeFirstEvent _, .ok =>
    some ({ s with events := s.events.tail }.goDeliver (.waitForReady []))
  | _, _ => none

def step : Act → Option Sys
  | .call t event =>
    if s.handlers t = .idle then some (s.goHandler t (.encodeEvent event)) else none
  | .handle t => s.handleStep el t
  | .deliver r => s.deliverStep r
  | .stop => some { s with stopped := true }
  | .draw pool => some { s with eventPoolSerial := (s.eventPoolSerial.nextSerial pool).2 }

end Sys

/-- One listener, with the serials that its pool and the others have drawn before. -/
def machine (el : EventListener) (eps : EventPoolSerial) : Machine Sys Act where
  init := { eventPoolSerial := eps }
  step := Sys.step el

end Supervisord.Events
