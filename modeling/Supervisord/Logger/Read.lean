import Supervisord.Go.Slice
import Supervisord.Logger.File

/-!
# Reading logs

`ReadLog` and `ReadTailLog` of the file logger and of the memory logger, with the offsets and
lengths that clients of the RPC interface ask for: any 64-bit integers, whose sums wrap around.
A slice that is out of range is a panic, and so is a buffer of negative length.
-/

namespace Supervisord.Logger

open Go

/-- The errors that the loggers return. -/
inductive LogError where
  /-- `faults.NewFault(faults.BadArguments, "BAD_ARGUMENTS")` -/
  | badArguments
  /-- `faults.NewFault(faults.Failed, "FAILED")` -/
  | failed
  | text (s : Str)
  /-- An error of the operating system. -/
  | os (s : Str)
deriving DecidableEq

/-- What `ReadTailLog` returns. -/
structure Tail where
  data : Str
  offset : Int64
  overflow : Bool
  err : Option LogError := none

/-- A file that has been opened to be read. -/
structure File where
  data : Str
  /-- The system tells the size of a file as a 64-bit integer. -/
  length_lt : data.length < 2 ^ 63
  /-- The errors of `Stat` and of `ReadAt`, if they fail. -/
  statError : Option Str := none
  readError : Option Str := none

/-- A buffer, to be filled from an offset of a file. -/
structure Buffer where
  file : File
  offset : Int64
  length : Int64

/-- What reading does. -/
structure Reading (ρ : Type) where
  /-- The buffer, when one is made. -/
  made : Option Buffer := none
  /-- What is returned, if there is no panic. -/
  result : Option ρ

/-! ## The file logger -/

namespace File

variable (f : File)

def size : Int64 := .ofNat f.data.length

/-- `ReadAt` for a buffer of `n` bytes, which it fills or returns an error. -/
def readAt (n offset : Int64) : Except LogError Str :=
  if offset < 0 then .error (.text (str "negative offset"))
  else if n = 0 then .ok []
  else match f.readError with
    | some e => .error (.os e)
    | none =>
      let data := (f.data.drop offset.toInt.toNat).take n.toInt.toNat
      if data.length = n.toInt then .ok data else .error (.text (str "EOF"))

/-- A buffer of `length` bytes is made and filled. -/
def fill {ρ : Type} (length offset : Int64) (k : Except LogError Str → ρ) : Reading ρ where
  made := some ⟨f, offset, length⟩
  result := if length < 0 then none else some (k (f.readAt length offset))

end File

namespace FileLogger

variable (l : FileLogger) (os : Str → Except Str File)

/-- Which part of a file of `fileLen` bytes `ReadLog` reads, if any. -/
def window (fileLen offset length : Int64) : Option (Int64 × Int64) :=
  if offset < 0 then
    let offset := fileLen + offset
    let offset := if offset < 0 then 0 else offset
    some (offset, fileLen - offset)
  else if length = 0 then
    if fileLen < offset then none else some (offset, fileLen - offset)
  else if fileLen ≤ offset then none
  else if fileLen < offset + length then some (offset, fileLen - offset)
  else some (offset, length)

def readLog (offset length : Int64) : Reading (Except LogError Str) :=
  if offset < 0 ∧ length ≠ 0 then { result := some (.error .badArguments) }
  else if 0 ≤ offset ∧ length < 0 then { result := some (.error .badArguments) }
  else match os l.name with
    | .error _ => { result := some (.error .failed) }
    | .ok f =>
      if f.statError.isSome then { result := some (.error .failed) }
      else match window f.size offset length with
        | none => { result := some (.ok []) }
        | some (offset, length) => f.fill length offset fun r ↦ r.mapError fun _ ↦ .failed

def readTailLog (offset length : Int64) : Reading Tail :=
  if offset < 0 then
    { result := some ⟨[], offset, false, some (.text (str "offset should not be less than 0"))⟩ }
  else if length < 0 then
    { result := some ⟨[], offset, false,
        some (.text (str "length should be not be less than 0"))⟩ }
  else match os l.name with
    | .error e => { result := some ⟨[], 0, false, some (.os e)⟩ }
    | .ok f =>
      match f.statError with
      | some e => { result := some ⟨[], 0, false, some (.os e)⟩ }
      | none =>
        if f.size ≤ offset then { result := some ⟨[], f.size, true, none⟩ }
        else
          let length := if f.size < offset + length then f.size - offset else length
          f.fill length offset fun
            | .error e => ⟨[], offset, false, some e⟩
            | .ok data => ⟨data, offset + .ofNat data.length, false, none⟩

end FileLogger

/-! ## The memory logger -/

/-- What the entries of a ring are joined to. -/
def joinLogs (logs : List (Option Str)) : Str :=
  logs.foldl (fun logs p ↦ match p with
    | some p => logs ++ str "\n" ++ p
    | none => logs) []

/-- The ring of a memory logger from its current cell on; a cell that has not been written holds
nothing. -/
structure MemoryLogger where
  logs : List (Option Str)
  /-- The length of a string that is in memory is an `int`. -/
  length_lt : (joinLogs logs).length < 2 ^ 63

namespace MemoryLogger

variable (ml : MemoryLogger)

def readLog (offset length : Int64) : Reading (Except LogError Str) :=
  if offset < 0 ∧ length ≠ 0 then { result := some (.error .badArguments) }
  else if 0 ≤ offset ∧ length < 0 then { result := some (.error .badArguments) }
  else
    let logs := joinLogs ml.logs
    let len : Int64 := .ofNat logs.length
    if len ≤ offset then { result := some (.error (.text (str "offset out of range"))) }
    else if length ≤ 0 then { result := some (.ok logs) }
    else
      let end_ := offset + length
      let end_ := if len < end_ then len else end_
      { result := (slice logs offset.toInt end_.toInt).map .ok }

def readTailLog (offset length : Int64) : Reading Tail :=
  let logs := ml.logs.filterMap id
  let len : Int64 := .ofNat logs.length
  if len ≤ offset then { result := some ⟨[], offset, true, none⟩ }
  else
    let end_ := offset + length
    let end_ := if len < end_ then len else end_
    { result := (slice logs offset.toInt end_.toInt).map fun data ↦
        ⟨data.flatten, end_, end_ = len, none⟩ }

end MemoryLogger

end Supervisord.Logger
