import Supervisord.Events.Event
import Supervisord.Logger.Ring
import Supervisord.Process.LogFile

/-!
# Log events

What the loggers of a `CompositeLogger` do with a write: what each of them returns, and what it
gives to its emitter.  The first logger has the emitter of the program, and the others have one that
does nothing.

What a write meets outside of the program is the answers of the system: whether there is an error,
the size of a file, and whether a new file can be created.
-/

namespace Supervisord.Logger

open Go
open Process (Stream LoggerKind FileOrDevice loggerKind newLogger splitLogFile)
open Events (Event createProcessLogStdoutEvent createProcessLogStderrEvent)

/-! ## Emitters -/

structure StdLogEventEmitter where
  type : Stream
  processName : Str
  groupName : Str

/-- `emitLogEvent`, with the serial that is drawn and the process ID. -/
def StdLogEventEmitter.emitLogEvent (se : StdLogEventEmitter) (serial : UInt64) (pid : Int)
    (data : Str) : Event :=
  match se.type with
  | .stdout => createProcessLogStdoutEvent serial se.processName se.groupName pid data
  | .stderr => createProcessLogStderrEvent serial se.processName se.groupName pid data

/-! ## Loggers -/

/-- What answers a `SysLogger`. -/
inductive SysWriter where
  /-- `syslog.Writer`. -/
  | syslog
  /-- `BackendSysLogWriter`, which connects later. -/
  | backend

/-- A logger, without its emitter. -/
inductive LogWriter where
  | file (l : FileLogger)
  | std (device : Stream)
  | null
  /-- `logWriter` is `nil` if there is no connection. -/
  | sys (logWriter : Option SysWriter)
  | memory (logs : Option (Go.Ring Str))

/-- What the system answers when a logger is made. -/
structure Setup where
  /-- The size of the log file, if there is one. -/
  stat : Option Nat
  /-- The log file is open. -/
  opened : Bool
  /-- `syslog.New` and `syslog.Dial` return no error. -/
  connected : Bool
  dialed : Bool

/-- `parseSysLogConfig`: the protocol, the host and the port. -/
def parseSysLogConfig (config : Str) : Except Str (Str × Str × Int) :=
  match config.split 58 with
  | [host] => .ok (str "udp", host, 514)
  | [a, b] =>
    if a = str "tcp" then .ok (str "tcp", b, 6514)
    else if a = str "udp" then .ok (str "udp", b, 514)
    else match b.atoi with
      | some port => .ok (str "udp", a, port)
      | none => .error (str "invalid syntax")
  | [protocol, host, port] =>
    match port.atoi with
    | some port => .ok (protocol, host, port)
    | none => .error (str "invalid syntax")
  | _ => .error (str "invalid format")

def newSysLogger (s : Setup) : LogWriter := .sys (if s.connected then some .syslog else none)

def newRemoteSysLogger (config : Str) (s : Setup) : LogWriter :=
  if config.length ≤ 0 then newSysLogger s
  else match parseSysLogConfig config with
    | .error _ => newSysLogger s
    | .ok _ => .sys (some (if s.dialed then .syslog else .backend))

/-- The logger that is made for a log file. -/
def LogWriter.new (maxBytes backups : Int) (s : Setup) : LoggerKind → LogWriter
  | .std device => .std device
  | .null => .null
  | .sys none => newSysLogger s
  | .sys (some address) => newRemoteSysLogger address s
  | .memory => .memory (Ring.new Str 1000)
  | .file name => .file
      { name := name, maxSize := maxBytes, backups := backups, fileSize := s.stat.getD 0
        file := s.opened }

/-! ## Writing -/

/-- What the system answers during a write. -/
structure Answers where
  /-- What `Write` of the file, of the device or of `syslog` returns. -/
  written : Nat
  error : Option Str
  /-- What `os.Stat` returns. -/
  stat : Except Str Nat
  /-- `os.Create` returns no error. -/
  created : Bool
  serial : UInt64
  pid : Int

/-- What `Write` returns, and what it gives to the `logEventEmitter`. -/
structure Outcome where
  n : Nat
  err : Option Str
  logEvent : Option Str

variable (p : Str) (a : Answers)

/-- The counter is compared with the size of the file. -/
def FileLogger.syncStat (l : FileLogger) : Except Str FileLogger :=
  if l.maxSize ≤ l.fileSize then a.stat.map fun size : Nat ↦ { l with fileSize := size } else .ok l

def FileLogger.writeFile (l : FileLogger) : Outcome × FileLogger :=
  if l.file then
    match a.error with
    | some err => (⟨a.written, some err, none⟩, l)
    | none =>
      let l := { l with fileSize := l.fileSize + a.written }
      match l.syncStat a with
      | .error err => (⟨a.written, some err, some p⟩, l)
      | .ok l =>
        (⟨a.written, none, some p⟩,
          if l.maxSize ≤ l.fileSize then { l with file := a.created } else l)
  else (⟨0, some (str "invalid argument"), none⟩, l)

/-- `Write`, if it is not a panic. -/
def LogWriter.write : LogWriter → Option (Outcome × LogWriter)
  | .file l => some ((l.writeFile p a).1, .file (l.writeFile p a).2)
  | .std device => some (⟨a.written, a.error, if a.error.isSome then some p else none⟩, .std device)
  | .null => some (⟨p.length, none, some p⟩, .null)
  | .sys none => some (⟨0, some (str "not connect to syslog server"), some p⟩, .sys none)
  | .sys (some .syslog) => some (⟨a.written, a.error, some p⟩, .sys (some .syslog))
  | .sys (some .backend) => some (⟨p.length, none, some p⟩, .sys (some .backend))
  | .memory logs => ((MemoryOp.write p).onRing logs).map fun logs ↦
      (⟨p.length, none, some p⟩, .memory logs)

/-- A logger of a `CompositeLogger`. -/
structure Member where
  writer : LogWriter
  logEventEmitter : Option StdLogEventEmitter

/-- The events that are emitted. -/
def Member.emit (m : Member) (o : Outcome) : List Event :=
  (m.logEventEmitter.bind fun se ↦ o.logEvent.map (se.emitLogEvent a.serial a.pid)).toList

/-- A write to a `CompositeLogger`: what it returns, which is what the first logger returns, and the
events that are emitted. -/
structure CompositeOutcome where
  n : Nat := 0
  err : Option Str := none
  events : List Event := []

/-- A write comes to the loggers one after the other, of which the first is at index `i`. -/
def writeFrom (p : Str) (answers : Nat → Answers) :
    Nat → List Member → Option (CompositeOutcome × List Member)
  | _, [] => some ({}, [])
  | i, m :: ms =>
    (m.writer.write p (answers i)).bind fun (o, writer) ↦
      (writeFrom p answers (i + 1) ms).map fun (os, ms) ↦
        (⟨o.n, o.err, m.emit (answers i) o ++ os.events⟩, { m with writer := writer } :: ms)

/-- `Write` of a `CompositeLogger`. -/
def compositeWrite (p : Str) (answers : Nat → Answers) (ms : List Member) :
    Option (CompositeOutcome × List Member) :=
  writeFrom p answers 0 ms

/-- A write, and how the system answers each of the loggers. -/
structure LogWrite where
  data : Str
  answers : Nat → Answers

/-- The outcomes of these writes, if none of them is a panic. -/
def compositeWrites : List LogWrite → List Member → Option (List CompositeOutcome)
  | [], _ => some []
  | w :: ws, ms =>
    (compositeWrite w.data w.answers ms).bind fun (o, ms) ↦ (compositeWrites ws ms).map (o :: ·)

/-- The loggers of a new `CompositeLogger`. -/
def newMembers (processName groupName : Str) (maxBytes backups : Int) (setup : Nat → Setup)
    (loggers : List FileOrDevice) : List Member :=
  loggers.zipIdx.map fun (l, i) ↦
    { writer := .new maxBytes backups (setup i) l.kind
      logEventEmitter := l.logEventEmitter.map fun type ↦ ⟨type, processName, groupName⟩ }

/-! ## What one logger does -/

/-- `StdLogger`. -/
def LogWriter.isStd : LogWriter → Bool
  | .std _ => true
  | .file _ | .null | .sys _ | .memory _ => false

/-- There is a ring to write to. -/
def LogWriter.Ready : LogWriter → Prop
  | .memory logs => logs ≠ none
  | .file _ | .std _ | .null | .sys _ => True

section Member

variable {p : Str} {a : Answers} {answers : Nat → Answers} {w : LogWriter} {se : StdLogEventEmitter}
  {ms : List Member} {std : Bool}

/-- A write to the file that succeeds is announced. -/
theorem writeFile_logEvent {l : FileLogger} (h : (l.writeFile p a).1.err = none) :
    (l.writeFile p a).1.logEvent = some p := by
  revert h
  rw [FileLogger.writeFile]
  by_cases hfile : l.file = true
  · rw [if_pos hfile]
    cases a.error with
    | some err => exact fun h ↦ absurd h (Option.some_ne_none err)
    | none =>
        dsimp only
        cases FileLogger.syncStat a { l with fileSize := l.fileSize + a.written } with
        | error err => exact fun _ ↦ rfl
        | ok l => exact fun _ ↦ rfl
  · rw [if_neg hfile]
    exact fun h ↦ absurd h (Option.some_ne_none _)

/-- **One logger.**  A write is no panic; if it succeeds, it calls the emitter with what is written,
unless the logger writes to `stdout` or `stderr`. -/
theorem LogWriter.write_spec (h : w.Ready) (p : Str) (a : Answers) :
    ∃ o w', w.write p a = some (o, w') ∧ w'.Ready ∧ w'.isStd = w.isStd ∧
      (w.isStd = true → o.err = a.error) ∧
      (o.err = none → o.logEvent = if w.isStd then none else some p) := by
  cases w with
  | file l => exact ⟨_, _, rfl, trivial, rfl, Bool.noConfusion, writeFile_logEvent⟩
  | std device =>
      refine ⟨_, _, rfl, trivial, rfl, fun _ ↦ rfl, fun herr ↦ ?_⟩
      have herr : a.error = none := herr
      rw [herr]
      rfl
  | null => exact ⟨_, _, rfl, trivial, rfl, Bool.noConfusion, fun _ ↦ rfl⟩
  | sys logWriter =>
      cases logWriter with
      | none => exact ⟨_, _, rfl, trivial, rfl, Bool.noConfusion, fun _ ↦ rfl⟩
      | some writer =>
          cases writer with
          | syslog => exact ⟨_, _, rfl, trivial, rfl, Bool.noConfusion, fun _ ↦ rfl⟩
          | backend => exact ⟨_, _, rfl, trivial, rfl, Bool.noConfusion, fun _ ↦ rfl⟩
  | memory logs =>
      cases logs with
      | none => exact absurd rfl h
      | some r =>
          exact ⟨_, _, rfl, Option.some_ne_none _, rfl, Bool.noConfusion, fun _ ↦ rfl⟩

/-! ## What a composite logger does -/

/-- The loggers after the first one emit nothing. -/
theorem writeFrom_quiet (h : ∀ m ∈ ms, m.logEventEmitter = none ∧ m.writer.Ready) (p : Str)
    (answers : Nat → Answers) (i : Nat) :
    ∃ o ms', writeFrom p answers i ms = some (o, ms') ∧ o.events = [] ∧
      ∀ m ∈ ms', m.logEventEmitter = none ∧ m.writer.Ready := by
  induction ms generalizing i with
  | nil => exact ⟨_, _, rfl, rfl, h⟩
  | cons m ms ih =>
      obtain ⟨⟨hm, hready⟩, hms⟩ := List.forall_mem_cons.mp h
      obtain ⟨o, w, hw, hwready, -⟩ := m.writer.write_spec hready p (answers i)
      obtain ⟨os, ms', hos, hev, hms'⟩ := ih hms (i + 1)
      refine ⟨⟨o.n, o.err, m.emit (answers i) o ++ os.events⟩, { m with writer := w } :: ms', ?_,
        ?_, List.forall_mem_cons.mpr ⟨⟨hm, hwready⟩, hms'⟩⟩
      · rw [writeFrom, hw, Option.bind_some, hos]
        rfl
      · show m.emit (answers i) o ++ os.events = []
        rw [hev, List.append_nil, Member.emit, hm]
        rfl

/-- The first of the loggers has the emitter, and the others have none. -/
structure Composed (std : Bool) (se : StdLogEventEmitter) (ms : List Member) : Prop where
  exists_cons : ∃ m rest, ms = m :: rest ∧ m.logEventEmitter = some se ∧ m.writer.isStd = std ∧
    m.writer.Ready ∧ ∀ r ∈ rest, r.logEventEmitter = none ∧ r.writer.Ready

/-- The event of a write. -/
def StdLogEventEmitter.logEvent (se : StdLogEventEmitter) (w : LogWrite) : Event :=
  se.emitLogEvent (w.answers 0).serial (w.answers 0).pid w.data

/-- **One write.** -/
theorem Composed.write (h : Composed std se ms) (x : LogWrite) :
    ∃ o ms', compositeWrite x.data x.answers ms = some (o, ms') ∧ Composed std se ms' ∧
      (std = true → o.err = (x.answers 0).error) ∧
      (o.err = none → o.events = if std then [] else [se.logEvent x]) := by
  obtain ⟨m, rest, rfl, hm, rfl, hready, hrest⟩ := h.exists_cons
  obtain ⟨o, w, hw, hwready, hstd, herr, hlog⟩ := m.writer.write_spec hready x.data (x.answers 0)
  obtain ⟨os, rest', hos, hev, hrest'⟩ := writeFrom_quiet hrest x.data x.answers 1
  refine ⟨⟨o.n, o.err, m.emit (x.answers 0) o ++ os.events⟩, { m with writer := w } :: rest', ?_,
    ⟨_, _, rfl, hm, hstd, hwready, hrest'⟩, herr, fun hok ↦ ?_⟩
  · rw [compositeWrite, writeFrom, hw, Option.bind_some, hos]
    rfl
  · show m.emit (x.answers 0) o ++ os.events = _
    rw [hev, List.append_nil, Member.emit, hm, hlog hok]
    cases m.writer.isStd with
    | true => rfl
    | false => rfl

/-- **Runs.** -/
theorem Composed.writes (h : Composed std se ms) (ws : List LogWrite) :
    ∃ os, compositeWrites ws ms = some os ∧ List.Forall₂ (fun w o ↦
      (std = true → o.err = (w.answers 0).error) ∧
      (o.err = none → o.events = if std then [] else [se.logEvent w])) ws os := by
  induction ws generalizing ms with
  | nil => exact ⟨_, rfl, .nil⟩
  | cons w ws ih =>
      obtain ⟨o, ms', hw, hms', ho⟩ := h.write w
      obtain ⟨os, hos, hall⟩ := ih hms'
      refine ⟨o :: os, ?_, .cons ho hall⟩
      rw [compositeWrites, hw, Option.bind_some]
      show Option.map _ (compositeWrites ws ms') = _
      rw [hos]
      rfl

end Member

/-! ## New loggers -/

section New

variable {kind : LoggerKind} {f logFile : Str} {typ : Stream} {loggers : List FileOrDevice}
  {std : Bool} {ws : List LogWrite}

theorem newRemoteSysLogger_eq (config : Str) (s : Setup) :
    ∃ logWriter, newRemoteSysLogger config s = .sys logWriter := by
  rw [newRemoteSysLogger]
  by_cases hlen : config.length ≤ 0
  · rw [if_pos hlen]
    exact ⟨_, rfl⟩
  · rw [if_neg hlen]
    cases parseSysLogConfig config with
    | error _ => exact ⟨_, rfl⟩
    | ok _ => exact ⟨_, rfl⟩

/-- Which of the new loggers write to `stdout` or `stderr`. -/
theorem new_spec (maxBytes backups : Int) (s : Setup) (kind : LoggerKind) :
    (LogWriter.new maxBytes backups s kind).Ready ∧
      ((LogWriter.new maxBytes backups s kind).isStd = true ↔ ∃ device, kind = .std device) := by
  cases kind with
  | std device => exact ⟨trivial, iff_of_true rfl ⟨device, rfl⟩⟩
  | null => exact ⟨trivial, iff_of_false Bool.false_ne_true (by rintro ⟨_, ⟨⟩⟩)⟩
  | memory =>
      exact ⟨Option.some_ne_none _, iff_of_false Bool.false_ne_true (by rintro ⟨_, ⟨⟩⟩)⟩
  | file name => exact ⟨trivial, iff_of_false Bool.false_ne_true (by rintro ⟨_, ⟨⟩⟩)⟩
  | sys address =>
      obtain ⟨logWriter, hw⟩ : ∃ logWriter,
          LogWriter.new maxBytes backups s (.sys address) = .sys logWriter := by
        cases address with
        | none => exact ⟨_, rfl⟩
        | some address => exact newRemoteSysLogger_eq address s
      rw [hw]
      exact ⟨trivial, iff_of_false Bool.false_ne_true (by rintro ⟨_, ⟨⟩⟩)⟩

/-- The loggers of a new `CompositeLogger`. -/
theorem composed_new (h : newLogger logFile (some typ) = some loggers)
    (processName groupName : Str) (maxBytes backups : Int) (setup : Nat → Setup) :
    ∃ std f, (splitLogFile logFile).head? = some f ∧
      (std = true ↔ f = str "/dev/stdout" ∨ f = str "/dev/stderr") ∧
      Composed std ⟨typ, processName, groupName⟩
        (newMembers processName groupName maxBytes backups setup loggers) := by
  obtain ⟨f, kind, rest, hf, hkind, rfl, hrest⟩ := Process.newLogger_eq_some h
  obtain ⟨hready, hstd⟩ := new_spec maxBytes backups (setup 0) kind
  refine ⟨_, f, hf, hstd.trans (Process.loggerKind_std_iff hkind),
    ⟨_, _, rfl, rfl, rfl, hready, ?_⟩⟩
  intro r hr
  obtain ⟨⟨l, i⟩, hl, rfl⟩ := List.mem_map.mp hr
  refine ⟨?_, (new_spec maxBytes backups _ _).1⟩
  show l.logEventEmitter.map _ = none
  rw [hrest l (List.fst_mem_of_mem_zipIdx hl)]
  rfl

end New

/-- Each write that succeeds emits its event and nothing else, and writes that all succeed emit
their events in order. -/
structure EmitsEach (se : StdLogEventEmitter) (ws : List LogWrite) (os : List CompositeOutcome) :
    Prop where
  each : List.Forall₂ (fun w o ↦ o.err = none → o.events = [se.logEvent w]) ws os
  order : (∀ o ∈ os, o.err = none) → os.flatMap (·.events) = ws.map se.logEvent

theorem EmitsEach.of_each {se : StdLogEventEmitter} {ws : List LogWrite}
    {os : List CompositeOutcome}
    (h : List.Forall₂ (fun w o ↦ o.err = none → o.events = [se.logEvent w]) ws os) :
    EmitsEach se ws os where
  each := h
  order := by
    induction h with
    | nil => exact fun _ ↦ rfl
    | cons hwo _ ih =>
        intro hok
        obtain ⟨ho, hos⟩ := List.forall_mem_cons.mp hok
        rw [List.flatMap_cons, hwo ho, ih hos]
        rfl

/-- **Log events.**  Every write to the log files that succeeds for the first of them emits exactly
its event, if and only if the first of them is neither `/dev/stdout` nor `/dev/stderr`. -/
theorem emits_each_iff {logFile : Str} {typ : Stream} {loggers : List FileOrDevice}
    (h : newLogger logFile (some typ) = some loggers) (processName groupName : Str)
    (maxBytes backups : Int) :
    (∀ setup ws, ∃ os, compositeWrites ws
        (newMembers processName groupName maxBytes backups setup loggers) = some os ∧
      EmitsEach ⟨typ, processName, groupName⟩ ws os) ↔
    ∀ f ∈ (splitLogFile logFile).head?, f ≠ str "/dev/stdout" ∧ f ≠ str "/dev/stderr" := by
  constructor
  · intro hall f hf
    by_contra hno
    obtain ⟨std, f', hf', hstd, hc⟩ := composed_new h processName groupName maxBytes backups
      fun _ ↦ ⟨none, true, true, true⟩
    obtain rfl := Option.some.inj (Eq.trans (Eq.symm hf) hf')
    obtain rfl : std = true := by
      rw [hstd]
      by_contra hnone
      exact hno (not_or.mp hnone)
    -- the device takes what is written
    have hspec := hc.writes [⟨[], fun _ ↦ ⟨0, none, .ok 0, true, 0, 0⟩⟩]
    obtain ⟨os, hos, hspec⟩ := hspec
    obtain ⟨os', hos', heach⟩ := hall _ [⟨[], fun _ ↦ ⟨0, none, .ok 0, true, 0, 0⟩⟩]
    obtain rfl := Option.some.inj (hos.symm.trans hos')
    obtain ⟨o, os, ⟨herr, hev⟩, -, rfl⟩ := List.forall₂_cons_left_iff.mp hspec
    have hone := (List.forall₂_cons.mp heach.each).1 (herr rfl)
    rw [hev (herr rfl)] at hone
    exact List.cons_ne_nil _ _ hone.symm
  · intro hne setup ws
    obtain ⟨std, f, hf, hstd, hc⟩ := composed_new h processName groupName maxBytes backups setup
    obtain ⟨os, hos, hspec⟩ := hc.writes ws
    obtain rfl : std = false := by
      rw [Bool.eq_false_iff, Ne, hstd, not_or]
      exact hne f hf
    exact ⟨os, hos, .of_each (hspec.imp fun w o ho ↦ ho.2)⟩

/-- The memory, and what is written to it goes to `stdout` as well. -/
theorem emits_each_memory : ∃ loggers,
    newLogger (str "memory, /dev/stdout") (some .stderr) = some loggers ∧
    ((∀ setup ws, ∃ os, compositeWrites ws
        (newMembers (str "a") (str "g") 50 10 setup loggers) = some os ∧
      EmitsEach ⟨.stderr, str "a", str "g"⟩ ws os) ↔
    ∀ f ∈ (splitLogFile (str "memory, /dev/stdout")).head?,
      f ≠ str "/dev/stdout" ∧ f ≠ str "/dev/stderr") :=
  ⟨[{ kind := .memory, logEventEmitter := some .stderr }, { kind := .std .stdout }], by decide,
    emits_each_iff (by decide) (str "a") (str "g") 50 10⟩

/-- What is written to `stdout` is not announced. -/
theorem emits_each_stdout : ¬∀ (logFile : Str) (typ : Stream) (loggers : List FileOrDevice),
    newLogger logFile (some typ) = some loggers →
    ∀ (processName groupName : Str) (maxBytes backups : Int) (setup : Nat → Setup)
      (ws : List LogWrite), ∃ os,
      compositeWrites ws (newMembers processName groupName maxBytes backups setup loggers) =
        some os ∧ EmitsEach ⟨typ, processName, groupName⟩ ws os := by
  intro h
  obtain ⟨os, hos, heach⟩ := h (str "/dev/stdout") .stdout
    [{ kind := .std .stdout, logEventEmitter := some .stdout }] (by decide) (str "a") (str "g")
    50 10 (fun _ ↦ ⟨none, true, true, true⟩)
    [⟨str "hello", fun _ ↦ ⟨5, none, .ok 0, true, 0, 7⟩⟩]
  obtain rfl := Option.some.inj hos
  have hone := (List.forall₂_cons.mp heach.each).1 rfl
  exact List.cons_ne_nil _ _ hone.symm

end Supervisord.Logger
