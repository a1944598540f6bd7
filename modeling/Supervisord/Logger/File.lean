import Supervisord.Go.Strings
import Supervisord.Storage.Files

/-!
# The file logger

A `FileLogger` writes to the file under its name, and starts a new one when the file has become
too long: the files `name.1`, `name.2`, ... keep the old contents.

The file that is open is the one under the logger's name: it is closed before it is renamed.  The
operations on files do what they are asked to, and sizes are not bounded: there are no files of
`2 ^ 63` bytes.
-/

namespace Supervisord.Logger

open Go

/-- The files, by their paths. -/
abbrev FS := Files Str Str

/-- The errors of the operations on files. -/
inductive FileError where
  /-- The file is not open. -/
  | invalid
  | notExist
deriving DecidableEq

structure FileLogger where
  name : Str
  maxSize : Int
  backups : Int
  fileSize : Int := 0
  /-- Whether a file is open. -/
  file : Bool := false

/-- What `Write` returns, and what it gives to the `logEventEmitter`. -/
structure Written where
  n : Nat
  err : Option FileError := none
  logEvent : Option Str := none

/-- The path `name.i`. -/
def backupName (name : Str) (i : Nat) : Str := name ++ str "." ++ Str.itoa i

namespace FileLogger

variable (l : FileLogger) (fs : FS)

def openFile (trunc : Bool) : FileLogger × FS :=
  match trunc, fs l.name with
  | false, some data => ({ l with fileSize := data.length, file := true }, fs)
  | _, _ => ({ l with file := true }, fs.write l.name [])

def backupFiles : FS :=
  (Files.shift (backupName l.name) (l.backups - 1).toNat fs).rename l.name (backupName l.name 1)

def close : FileLogger := { l with file := false }

/-- The end of `Write`, which is reached when the file is full. -/
def rotate : FileLogger × FS := l.close.openFile (l.backupFiles fs) true

/-- The counter is compared with the size of the file when it says that the file is full. -/
def syncSize : Except FileError FileLogger :=
  if l.maxSize ≤ l.fileSize then
    match fs l.name with
    | some data => .ok { l with fileSize := data.length }
    | none => .error .notExist
  else .ok l

/-- `l.file.Write`. -/
def append (p : Str) : FS :=
  match fs l.name with
  | some data => fs.write l.name (data ++ p)
  | none => fs

/-- The logger and the files when `Write` decides whether the file is full. -/
def grow (p : Str) : Except FileError FileLogger :=
  syncSize { l with fileSize := l.fileSize + p.length } (l.append fs p)

def write (p : Str) : Written × FileLogger × FS :=
  if l.file then
    match l.grow fs p with
    | .error err =>
      (⟨p.length, some err, some p⟩,
        { l with fileSize := l.fileSize + p.length }, l.append fs p)
    | .ok l' =>
      (⟨p.length, none, some p⟩,
        if l'.maxSize ≤ l'.fileSize then l'.rotate (l.append fs p) else (l', l.append fs p))
  else (⟨0, some .invalid, none⟩, l, fs)

/-- Whether `Write` rotates the files. -/
def rotates (p : Str) : Bool :=
  l.file && match l.grow fs p with
    | .error _ => false
    | .ok l' => l'.maxSize ≤ l'.fileSize

end FileLogger

def newFileLogger (name : Str) (maxSize backups : Int) (fs : FS) : FileLogger × FS :=
  FileLogger.openFile { name := name, maxSize := maxSize, backups := backups } fs false

end Supervisord.Logger
