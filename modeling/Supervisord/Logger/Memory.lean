import Mathlib.Data.List.Induction
import Supervisord.Go.Ring
import Supervisord.Logger.Read

/-!
# The memory logger

A `MemoryLogger` writes into a ring.  Its text is the newest of the writes since the ring has last
been replaced by a new one, each of them on a new line.
-/

namespace Supervisord.Logger

open Go

/-- A ring of no cells is `nil`. -/
def newMemoryLogger (n : Int) : MemoryLogger where
  logs := RingBuffer.new Str n.toNat
  length_lt := by
    have hnil (k : Nat) : joinLogs (List.replicate k none) = [] := by
      induction k with
      | zero => rfl
      | succ k ih => exact ih
    rw [RingBuffer.new, hnil]
    decide

namespace MemoryLogger

variable (ml : MemoryLogger)

/-- `Write`, unless the ring is `nil`, which is a panic.  There is no memory for a text of `2 ^ 63`
bytes. -/
def write (p : Str) : Option (Written × MemoryLogger) :=
  if h : ml.logs ≠ [] ∧ (joinLogs (RingBuffer.put ml.logs p)).length < 2 ^ 63 then
    some (⟨p.length, none, some p⟩, ⟨RingBuffer.put ml.logs p, h.2⟩)
  else none

/-- `ClearCurLogFile`. -/
def clearCurLogFile : MemoryLogger := newMemoryLogger ml.logs.length

/-- `ClearAllLogFile`. -/
def clearAllLogFile : MemoryLogger := newMemoryLogger ml.logs.length

end MemoryLogger

/-! ## Histories -/

/-- What is done with a memory logger. -/
inductive MemoryOp where
  | write (p : Str)
  | clearCurLogFile
  | clearAllLogFile

namespace MemoryOp

def apply (ml : MemoryLogger) : MemoryOp → Option MemoryLogger
  | write p => (ml.write p).map Prod.snd
  | clearCurLogFile => some ml.clearCurLogFile
  | clearAllLogFile => some ml.clearAllLogFile

/-- What has been written since the logger has last been cleared. -/
def record (ws : List Str) : MemoryOp → List Str
  | write p => ws ++ [p]
  | clearCurLogFile => []
  | clearAllLogFile => []

end MemoryOp

/-- A new memory logger of `n` cells after these operations, if there has been no panic. -/
def memoryHistory (n : Int) (ops : List MemoryOp) : Option MemoryLogger :=
  ops.foldlM MemoryOp.apply (newMemoryLogger n)

/-- The newest `n` of the writes since the last clearing, each after a newline. -/
def memoryText (n : Int) (ops : List MemoryOp) : Str :=
  ((ops.foldl MemoryOp.record []).rtake n.toNat).flatMap fun p ↦ str "\n" ++ p

/-! ## Text and cells -/

theorem joinLogs_eq (logs : List (Option Str)) :
    joinLogs logs = (logs.filterMap id).flatMap fun p ↦ str "\n" ++ p := by
  induction logs using List.reverseRecOn with
  | nil => rfl
  | append_singleton logs p ih =>
      rw [joinLogs, List.foldl_append, List.filterMap_append, List.flatMap_append, ← ih]
      cases p with
      | none => exact (List.append_nil _).symm
      | some p =>
          show joinLogs logs ++ str "\n" ++ p = joinLogs logs ++ (str "\n" ++ p ++ [])
          rw [List.append_nil, List.append_assoc]

/-- A write that is no panic goes into a cell. -/
theorem MemoryLogger.write_logs {ml : MemoryLogger} {p : Str} {w : Written × MemoryLogger}
    (h : ml.write p = some w) : ml.logs ≠ [] ∧ w.2.logs = RingBuffer.put ml.logs p := by
  rw [write] at h
  by_cases hfit : ml.logs ≠ [] ∧ (joinLogs (RingBuffer.put ml.logs p)).length < 2 ^ 63
  · rw [dif_pos hfit] at h
    cases h
    exact ⟨hfit.1, rfl⟩
  · rw [dif_neg hfit] at h
    cases h

end Supervisord.Logger
