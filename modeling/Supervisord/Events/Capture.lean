import Supervisord.Events.Event
import Supervisord.Go.Slice

/-!
# Captured events

A program sends an event when it prints one between two tokens.  `ProcCommEventCapture` reads what
the program prints in whatever pieces it comes, and takes the events out of its buffer.  Where a
slice of the buffer is out of range it panics, which is `none`.
-/

namespace Supervisord.Events

open Go

def procCommonBeginStr : Str := str "<!--XSUPERVISOR:BEGIN-->"

def procCommonEndStr : Str := str "<!--XSUPERVISOR:END-->"

/-- `strings.Index`, where nothing is found at `-1`. -/
def indexInt (s sep : Str) : Int := ((s.index sep).map Int.ofNat).getD (-1)

/-- A captured event, by what is given to `NewProcCommEvent`. -/
structure ProcCommEvent where
  eventType : Str
  processName : Str
  groupName : Str
  pid : Int
  data : Str
deriving DecidableEq

structure ProcCommEventCapture where
  captureMaxBytes : Int
  stdType : Str
  procName : Str
  groupName : Str
  pid : Int := -1
  eventBuffer : Str := []
  eventBeginPos : Int := -1

namespace ProcCommEventCapture

variable (pec : ProcCommEventCapture)

def findBeginStr : Option ProcCommEventCapture :=
  if pec.eventBeginPos = -1 then
    let eventBeginPos := indexInt pec.eventBuffer procCommonBeginStr
    let n := pec.eventBuffer.length
    if eventBeginPos = -1 ∧ procCommonBeginStr.length < n then do
      return { pec with
        eventBeginPos := eventBeginPos
        eventBuffer := ← slice pec.eventBuffer (n - procCommonBeginStr.length) n }
    else return { pec with eventBeginPos := eventBeginPos }
  else return pec

def findEndStr : Int × ProcCommEventCapture :=
  if pec.eventBeginPos = -1 then (-1, pec)
  else
    let endPos := indexInt pec.eventBuffer procCommonEndStr
    if endPos = -1 ∧ pec.captureMaxBytes < pec.eventBuffer.length then
      (endPos, { pec with eventBeginPos := -1, eventBuffer := [] })
    else (endPos, pec)

/-- The part of `captureEvent` that follows `findBeginStr`. -/
def takeEvent : Option (Option ProcCommEvent × ProcCommEventCapture) :=
  let (endPos, pec) := pec.findEndStr
  if endPos = -1 then some (none, pec)
  else do
    let data ← slice pec.eventBuffer (pec.eventBeginPos + procCommonBeginStr.length) endPos
    let eventBuffer ←
      slice pec.eventBuffer (endPos + procCommonEndStr.length) pec.eventBuffer.length
    return (some ⟨pec.stdType, pec.procName, pec.groupName, pec.pid, data⟩,
      { pec with eventBuffer := eventBuffer, eventBeginPos := -1 })

def captureEvent : Option (Option ProcCommEvent × ProcCommEventCapture) :=
  pec.findBeginStr.bind takeEvent

theorem length_findBeginStr {pec' : ProcCommEventCapture} (h : pec.findBeginStr = some pec') :
    pec'.eventBuffer.length ≤ pec.eventBuffer.length := by
  unfold findBeginStr at h
  split at h
  · dsimp only at h
    split at h
    · obtain ⟨y, hy, h⟩ := Option.bind_eq_some_iff.mp h
      cases h
      have := length_of_slice hy
      show y.length ≤ _
      omega
    · cases h
      exact Nat.le_refl _
  · cases h
    exact Nat.le_refl _

theorem findEndStr_of_ne (h : pec.findEndStr.1 ≠ -1) :
    pec.findEndStr.2 = pec ∧ 0 ≤ pec.findEndStr.1 := by
  unfold findEndStr at h ⊢
  split at h
  · exact absurd rfl h
  · dsimp only at h ⊢
    split at h
    · rename_i he
      exact absurd he.1 h
    · rename_i hp he
      rw [if_neg hp, if_neg he]
      refine ⟨rfl, ?_⟩
      revert h
      unfold indexInt
      cases Str.index pec.eventBuffer procCommonEndStr with
      | none => exact fun h ↦ absurd rfl h
      | some i => exact fun _ ↦ Int.natCast_nonneg i

/-- An event is taken out of the buffer. -/
theorem length_captureEvent {e : ProcCommEvent} {pec' : ProcCommEventCapture}
    (h : pec.captureEvent = some (some e, pec')) :
    pec'.eventBuffer.length < pec.eventBuffer.length := by
  obtain ⟨pec₁, hb, h⟩ := Option.bind_eq_some_iff.mp h
  have hle := length_findBeginStr _ hb
  unfold takeEvent at h
  dsimp only at h
  split at h
  · cases h
  · rename_i hne
    obtain ⟨heq, hpos⟩ := findEndStr_of_ne _ hne
    rw [heq] at h
    obtain ⟨data, -, h⟩ := Option.bind_eq_some_iff.mp h
    obtain ⟨rest, hrest, h⟩ := Option.bind_eq_some_iff.mp h
    cases h
    have hend : procCommonEndStr.length = 22 := by decide
    have := length_of_slice hrest
    show rest.length < _
    omega

/-- The inner loop of `startCapture`: the events that are emitted. -/
def drain (pec : ProcCommEventCapture) : Option (List ProcCommEvent × ProcCommEventCapture) :=
  match h : pec.captureEvent with
  | none => none
  | some (none, pec) => some ([], pec)
  | some (some event, pec') =>
    have : pec'.eventBuffer.length < pec.eventBuffer.length := length_captureEvent _ h
    (drain pec').map fun (events, pec) ↦ (event :: events, pec)
termination_by pec.eventBuffer.length

theorem drain_of_none (h : pec.captureEvent = none) : pec.drain = none := by
  rw [drain]
  split
  · rfl
  · rename_i hn
    rw [h] at hn
    cases hn
  · rename_i hn
    rw [h] at hn
    cases hn

theorem drain_of_wait {pec' : ProcCommEventCapture} (h : pec.captureEvent = some (none, pec')) :
    pec.drain = some ([], pec') := by
  rw [drain]
  split
  · rename_i hn
    rw [h] at hn
    cases hn
  · rename_i hn
    rw [h] at hn
    cases hn
    rfl
  · rename_i hn
    rw [h] at hn
    cases hn

theorem drain_of_event {event : ProcCommEvent} {pec' : ProcCommEventCapture}
    (h : pec.captureEvent = some (some event, pec')) :
    pec.drain = pec'.drain.map fun (events, pec) ↦ (event :: events, pec) := by
  rw [drain]
  split
  · rename_i hn
    rw [h] at hn
    cases hn
  · rename_i hn
    rw [h] at hn
    cases hn
  · rename_i hn
    rw [h] at hn
    cases hn
    rfl

def setPid (pid : Int) : ProcCommEventCapture := { pec with pid := pid }

/-- What has been read is appended to the buffer. -/
def append (chunk : Str) : ProcCommEventCapture :=
  { pec with eventBuffer := pec.eventBuffer ++ chunk }

/-- The outer loop, for what the reader returns from now on. -/
def startCapture (pec : ProcCommEventCapture) :
    List Str → Option (List ProcCommEvent × ProcCommEventCapture)
  | [] => some ([], pec)
  | chunk :: chunks => do
    let (events, pec) ← (pec.append chunk).drain
    let (events', pec) ← startCapture pec chunks
    return (events ++ events', pec)

end ProcCommEventCapture

def newProcCommEventCapture (captureMaxBytes : Int) (stdType procName groupName : Str) :
    ProcCommEventCapture :=
  { captureMaxBytes := captureMaxBytes, stdType := stdType, procName := procName
    groupName := groupName }

end Supervisord.Events
