import Supervisord.Config.Values

/-!
# The streams of a child

`setLog` makes the loggers that a child writes its `stdout` and its `stderr` to.  What is written
to one of them may go through a logger that captures it and comes to the loggers of one of the two
settings, of which the first may announce it by a log event.

A write is a piece of what the child writes, as it arrives at the logger of its stream.  The pipes
of the capturing loggers are read from all the time.
-/

namespace Supervisord.Process

open Go

inductive Stream where
  | stdout
  | stderr
deriving DecidableEq

/-! ## Loggers -/

/-- What `createLogger` makes of the name of a log file. -/
inductive LoggerKind where
  /-- `StdLogger`. -/
  | std (device : Stream)
  /-- `NullLogger`. -/
  | null
  /-- `SysLogger`, with the address of a remote one. -/
  | sys (address : Option Str)
  /-- `MemoryLogger`. -/
  | memory
  /-- `FileLogger`. -/
  | file (name : Str)
deriving DecidableEq

/-- A logger for one log file. -/
structure FileOrDevice where
  kind : LoggerKind
  /-- The type of the `StdLogEventEmitter`, nothing for a `NullLogEventEmitter`. -/
  logEventEmitter : Option Stream := none
deriving DecidableEq

/-- The kind of logger for a log file; `none` where an index is out of range. -/
def loggerKind (logFile : Str) : Option LoggerKind :=
  if logFile = str "/dev/stdout" then some (.std .stdout)
  else if logFile = str "/dev/stderr" then some (.std .stderr)
  else if logFile = str "/dev/null" then some .null
  else if logFile = str "syslog" then some (.sys none)
  else if logFile = str "memory" ∨ logFile = str "AUTO" then some .memory
  else
    let byName := if 0 < logFile.length then .file logFile else .null
    if logFile.hasPrefix (str "syslog") then
      match logFile.split 64 with
      | [] | [_] => none
      | [protocol, address] =>
        if protocol.trimSpace = str "syslog" then some (.sys (some address.trimSpace))
        else some byName
      | _ => some byName
    else some byName

def createLogger (logFile : Str) (logEventEmitter : Option Stream) : Option FileOrDevice :=
  (loggerKind logFile).map fun kind ↦ { kind, logEventEmitter }

def splitLogFile (logFile : Str) : List Str := (logFile.split 44).map .trimSpace

/-- `NewLogger`: the loggers of the `CompositeLogger`, of which the first has the emitter. -/
def newLogger (logFile : Str) (logEventEmitter : Option Stream) : Option (List FileOrDevice) :=
  match splitLogFile logFile with
  | [] => some []
  | f :: files => (createLogger f logEventEmitter).bind fun lr ↦
    (files.mapM (createLogger · none)).map (lr :: ·)

inductive Logger where
  /-- The `CompositeLogger` for the log files of a stream. -/
  | composite (source : Stream) (loggers : List FileOrDevice)
  /-- A `LogCaptureLogger`. -/
  | capture (underlineLogger : Logger) (stdType : Str)

/-! ## Writing -/

/-- What a write does. -/
inductive Effect where
  /-- The logger for the log files of a stream gets the bytes. -/
  | received (source : Stream) (p : Str)
  /-- The bytes are searched for communication events. -/
  | captured (stdType p : Str)
  /-- A log event is emitted. -/
  | logEvent (eventType data : Str)
deriving DecidableEq

/-- The type of the events of a `StdLogEventEmitter`. -/
def eventTypeOf : Stream → Str
  | .stdout => str "PROCESS_LOG_STDOUT"
  | .stderr => str "PROCESS_LOG_STDERR"

/-- Whether `Write` calls the emitter, where the write to the file or the device below succeeds or
fails. -/
def LoggerKind.emits : LoggerKind → Bool → Bool
  | .std _, ok => !ok
  | .file _, ok => ok
  | .null, _ | .sys _, _ | .memory, _ => true

def FileOrDevice.write (l : FileOrDevice) (p : Str) (ok : Bool) : List Effect :=
  match l.logEventEmitter with
  | some typ => if l.kind.emits ok then [.logEvent (eventTypeOf typ) p] else []
  | none => []

/-- `Write`, where `outcome` says which of the files and devices can be written to. -/
def Logger.write (outcome : Nat → Bool) (p : Str) : Logger → List Effect
  | .composite source loggers =>
    .received source p :: loggers.zipIdx.flatMap fun l ↦ l.1.write p (outcome l.2)
  | .capture underlineLogger stdType =>
    .captured stdType p :: underlineLogger.write outcome p

/-! ## The loggers of a child -/

variable (pathExpand : Str → Option Str) (host : Host) (n : Nat) (config : Entry)

/-- `GetStdoutLogfile` and `GetStderrLogfile`, where `pathExpand` is `PathExpand`. -/
def getLogfile : Stream → Option Str
  | .stdout => (config.getStringExpression host n (str "stdout_logfile") (str "AUTO")).map
    fun fileName ↦ (pathExpand fileName).getD fileName
  | .stderr => (config.getStringExpression host n (str "stderr_logfile") (str "AUTO")).map
    fun fileName ↦ (pathExpand fileName).getD fileName

def stdoutCaptureBytes : Int := config.getBytes (str "stdout_capture_maxbytes") 0

def stderrCaptureBytes : Int := config.getBytes (str "stderr_capture_maxbytes") 0

def redirectStderr : Bool := config.getBool (str "redirect_stderr") false

/-- The log events of a stream are wanted. -/
def eventsEnabled : Stream → Bool
  | .stdout => stdoutCaptureBytes config ≤ 0 && config.getBool (str "stdout_events_enabled") false
  | .stderr => stderrCaptureBytes config ≤ 0 && config.getBool (str "stderr_events_enabled") false

def createStdoutLogEventEmitter : Option Stream :=
  if eventsEnabled config .stdout then some .stdout else none

/-- The emitter for `stderr` is made by `NewStdoutLogEventEmitter` as well. -/
def createStderrLogEventEmitter : Option Stream :=
  if eventsEnabled config .stderr then some .stdout else none

def createStdoutLogger : Option Logger :=
  ((getLogfile pathExpand host n config .stdout).bind fun logFile ↦
    newLogger logFile (createStdoutLogEventEmitter config)).map (.composite .stdout)

def createStderrLogger : Option Logger :=
  ((getLogfile pathExpand host n config .stderr).bind fun logFile ↦
    newLogger logFile (createStderrLogEventEmitter config)).map (.composite .stderr)

/-- `setLog` for a program: what `StdoutLog` and `StderrLog` are when it is done. -/
def setLog : Option (Logger × Logger) :=
  (createStdoutLogger pathExpand host n config).bind fun stdoutLog ↦
    let stdoutLog :=
      if 0 < stdoutCaptureBytes config then
        .capture stdoutLog (str "PROCESS_COMMUNICATION_STDOUT")
      else stdoutLog
    (if redirectStderr config then some stdoutLog
      else createStderrLogger pathExpand host n config).map fun stderrLog ↦
        let stderrLog :=
          if 0 < stderrCaptureBytes config then
            .capture stdoutLog (str "PROCESS_COMMUNICATION_STDERR")
          else stderrLog
        (stdoutLog, stderrLog)

/-! ## The writes of a child -/

/-- A write of the child. -/
structure ChildWrite where
  stream : Stream
  data : Str
  /-- Which of the files and devices can be written to. -/
  outcome : Nat → Bool := fun _ ↦ true

/-- `p.cmd.Stdout` and `p.cmd.Stderr`. -/
def writerOf (logs : Logger × Logger) : Stream → Logger
  | .stdout => logs.1
  | .stderr => logs.2

/-- What the writes of a child do, each effect with the stream that was written to. -/
def effects (logs : Logger × Logger) (writes : List ChildWrite) : List (Stream × Effect) :=
  writes.flatMap fun w ↦ ((writerOf logs w.stream).write w.outcome w.data).map (w.stream, ·)

/-- The streams are kept apart. -/
structure Separated (redirect : Bool) (writes : List ChildWrite)
    (done : List (Stream × Effect)) : Prop where
  stderr_reaches : redirect = false → ∀ w ∈ writes, w.stream = .stderr →
    (.stderr, .received .stderr w.data) ∈ done
  stderr_only : redirect = false → ∀ p, (.stderr, .received .stdout p) ∉ done
  stdout_reaches : ∀ w ∈ writes, w.stream = .stdout → (.stdout, .received .stdout w.data) ∈ done
  stdout_only : ∀ p, (.stdout, .received .stderr p) ∉ done
  events : ∀ stream typ p, (stream, .logEvent typ p) ∈ done → typ = eventTypeOf stream

/-- The kind of the logger for the first log file of a stream. -/
def FirstKind (stream : Stream) (kind : LoggerKind) : Prop :=
  ∃ logFile f, getLogfile pathExpand host n config stream = some logFile ∧
    (splitLogFile logFile).head? = some f ∧ loggerKind f = some kind

/-- The logger for the first log file of a stream calls its emitter on a write. -/
def FirstEmits (stream : Stream) (w : ChildWrite) : Prop :=
  ∃ kind, FirstKind pathExpand host n config stream kind ∧ kind.emits (w.outcome 0)

variable {pathExpand host n config} {logs : Logger × Logger} {l : Logger} {source : Stream}
  {loggers : List FileOrDevice} {logFile p : Str} {emitter : Option Stream} {outcome : Nat → Bool}
  {writes : List ChildWrite} {w : ChildWrite} {e : Effect}

/-! ## What a write does -/

theorem mem_effects {x : Stream × Effect} : x ∈ effects logs writes ↔
    ∃ w ∈ writes, x.1 = w.stream ∧ x.2 ∈ (writerOf logs w.stream).write w.outcome w.data := by
  rw [effects, List.mem_flatMap]
  refine exists_congr fun w ↦ and_congr_right fun _ ↦ ?_
  rw [List.mem_map]
  constructor
  · rintro ⟨e, he, rfl⟩
    exact ⟨rfl, he⟩
  · rintro ⟨h, he⟩
    exact ⟨x.2, he, Prod.ext h.symm rfl⟩

/-- What is written to a logger comes to the log files of one stream, and the first of them may
announce it. -/
structure Into (l : Logger) (source : Stream) (kind : LoggerKind) (emitter : Option Stream) :
    Prop where
  received {outcome : Nat → Bool} {p q : Str} {s : Stream} :
    .received s q ∈ l.write outcome p ↔ s = source ∧ q = p
  logEvent {outcome : Nat → Bool} {p q typ : Str} :
    .logEvent typ q ∈ l.write outcome p ↔
      ∃ stream, emitter = some stream ∧ kind.emits (outcome 0) ∧ typ = eventTypeOf stream ∧ q = p

theorem Into.capture {kind : LoggerKind} {stdType : Str} (h : Into l source kind emitter) :
    Into (.capture l stdType) source kind emitter where
  received := by
    intro outcome p q s
    rw [Logger.write, List.mem_cons, h.received, or_iff_right (by rintro ⟨⟩)]
  logEvent := by
    intro outcome p q typ
    rw [Logger.write, List.mem_cons, h.logEvent, or_iff_right (by rintro ⟨⟩)]

theorem write_of_none {l : FileOrDevice} (h : l.logEventEmitter = none) (ok : Bool) :
    l.write p ok = [] := by
  rw [FileOrDevice.write, h]

theorem exists_of_mem_mapM {α β : Type} {f : α → Option β} {as : List α} {bs : List β} {b : β}
    (h : as.mapM f = some bs) (hb : b ∈ bs) : ∃ a ∈ as, f a = some b := by
  induction as generalizing bs with
  | nil =>
      cases h
      cases hb
  | cons a as ih =>
      rw [List.mapM_cons] at h
      obtain ⟨b', hb', h⟩ := Option.bind_eq_some_iff.mp h
      obtain ⟨bs', hbs', h⟩ := Option.bind_eq_some_iff.mp h
      obtain rfl := Option.some.inj h
      rcases List.mem_cons.mp hb with rfl | hb
      · exact ⟨a, List.mem_cons_self, hb'⟩
      · obtain ⟨a', ha', he⟩ := ih hbs' hb
        exact ⟨a', List.mem_cons_of_mem a ha', he⟩

/-- Only the first of the loggers has the emitter. -/
theorem newLogger_eq_some (h : newLogger logFile emitter = some loggers) :
    ∃ f kind rest, (splitLogFile logFile).head? = some f ∧ loggerKind f = some kind ∧
      loggers = { kind, logEventEmitter := emitter } :: rest ∧
      ∀ r ∈ rest, r.logEventEmitter = none := by
  unfold newLogger at h
  split at h
  · rename_i hnil
    exact absurd (List.map_eq_nil_iff.mp hnil) (List.splitOn_ne_nil _ _)
  · rename_i f files hfiles
    obtain ⟨lr, hlr, h⟩ := Option.bind_eq_some_iff.mp h
    obtain ⟨rest, hrest, rfl⟩ := Option.map_eq_some_iff.mp h
    obtain ⟨kind, hkind, rfl⟩ := Option.map_eq_some_iff.mp hlr
    refine ⟨f, kind, rest, by rw [hfiles]; rfl, hkind, rfl, ?_⟩
    intro r hr
    obtain ⟨f', -, hf'⟩ := exists_of_mem_mapM hrest hr
    obtain ⟨kind', -, rfl⟩ := Option.map_eq_some_iff.mp hf'
    rfl

/-- The emitter of a new logger is that of its first part. -/
theorem into_composite (h : newLogger logFile emitter = some loggers) :
    ∃ f kind, (splitLogFile logFile).head? = some f ∧ loggerKind f = some kind ∧
      Into (.composite source loggers) source kind emitter := by
  obtain ⟨f, kind, rest, hf, hkind, rfl, hnone⟩ := newLogger_eq_some h
  refine ⟨f, kind, hf, hkind, ?_⟩
  have hwrite (outcome : Nat → Bool) (p : Str) :
      (Logger.composite source ({ kind, logEventEmitter := emitter } :: rest)).write outcome p =
        .received source p ::
          ({ kind, logEventEmitter := emitter } : FileOrDevice).write p (outcome 0) := by
    have hempty : (rest.zipIdx 1).flatMap (fun l ↦ l.1.write p (outcome l.2)) = [] :=
      List.flatMap_eq_nil_iff.mpr fun l hl ↦
        write_of_none (hnone l.1 (List.fst_mem_of_mem_zipIdx hl)) _
    rw [Logger.write, List.zipIdx_cons, List.flatMap_cons, Nat.zero_add, hempty, List.append_nil]
  constructor
  · intro outcome p q s
    rw [hwrite, List.mem_cons, FileOrDevice.write, or_iff_left]
    · rw [Effect.received.injEq]
    · split
      · split <;> simp
      · simp
  · intro outcome p q typ
    rw [hwrite, List.mem_cons, FileOrDevice.write, or_iff_right (by rintro ⟨⟩)]
    cases emitter with
    | none => simp
    | some stream =>
        dsimp only
        split
        · simp [*]
        · simp [*]

theorem FirstKind.unique {stream : Stream} {kind kind' : LoggerKind}
    (h : FirstKind pathExpand host n config stream kind)
    (h' : FirstKind pathExpand host n config stream kind') : kind = kind' := by
  obtain ⟨logFile, f, hl, hf, hk⟩ := h
  obtain ⟨logFile', f', hl', hf', hk'⟩ := h'
  obtain rfl := Option.some.inj (hl.symm.trans hl')
  obtain rfl := Option.some.inj (hf.symm.trans hf')
  exact Option.some.inj (hk.symm.trans hk')

theorem FirstKind.firstEmits_iff {stream : Stream} {kind : LoggerKind}
    (h : FirstKind pathExpand host n config stream kind) :
    FirstEmits pathExpand host n config stream w ↔ kind.emits (w.outcome 0) := by
  constructor
  · rintro ⟨kind', h', he⟩
    rwa [h.unique h']
  · exact fun he ↦ ⟨kind, h, he⟩

theorem into_createStdoutLogger (h : createStdoutLogger pathExpand host n config = some l) :
    ∃ kind, FirstKind pathExpand host n config .stdout kind ∧
      Into l .stdout kind (createStdoutLogEventEmitter config) := by
  obtain ⟨loggers, hnew, rfl⟩ := Option.map_eq_some_iff.mp h
  obtain ⟨logFile, hl, hnew⟩ := Option.bind_eq_some_iff.mp hnew
  obtain ⟨f, kind, hf, hk, hi⟩ := into_composite hnew
  exact ⟨kind, ⟨logFile, f, hl, hf, hk⟩, hi⟩

theorem into_createStderrLogger (h : createStderrLogger pathExpand host n config = some l) :
    ∃ kind, FirstKind pathExpand host n config .stderr kind ∧
      Into l .stderr kind (createStderrLogEventEmitter config) := by
  obtain ⟨loggers, hnew, rfl⟩ := Option.map_eq_some_iff.mp h
  obtain ⟨logFile, hl, hnew⟩ := Option.bind_eq_some_iff.mp hnew
  obtain ⟨f, kind, hf, hk, hi⟩ := into_composite hnew
  exact ⟨kind, ⟨logFile, f, hl, hf, hk⟩, hi⟩

/-- Where the two streams come to.  What is written to `stderr` comes to the log files of `stdout`
where it is redirected, and where it is captured. -/
theorem setLog_spec (h : setLog pathExpand host n config = some logs) :
    ∃ kind, FirstKind pathExpand host n config .stdout kind ∧
      Into logs.1 .stdout kind (createStdoutLogEventEmitter config) ∧
      (redirectStderr config = true ∨ 0 < stderrCaptureBytes config →
        Into logs.2 .stdout kind (createStdoutLogEventEmitter config)) ∧
      (redirectStderr config = false → stderrCaptureBytes config ≤ 0 →
        ∃ kind', FirstKind pathExpand host n config .stderr kind' ∧
          Into logs.2 .stderr kind' (createStderrLogEventEmitter config)) := by
  obtain ⟨stdoutLog, hstdout, h⟩ := Option.bind_eq_some_iff.mp h
  obtain ⟨stderrLog, hstderr, rfl⟩ := Option.map_eq_some_iff.mp h
  obtain ⟨kind, hkind, hinto⟩ := into_createStdoutLogger hstdout
  have hout : Into (if 0 < stdoutCaptureBytes config then
      .capture stdoutLog (str "PROCESS_COMMUNICATION_STDOUT") else stdoutLog) .stdout kind
        (createStdoutLogEventEmitter config) := by
    split
    · exact hinto.capture
    · exact hinto
  refine ⟨kind, hkind, hout, ?_, ?_⟩
  · intro hor
    dsimp only
    split
    · exact hout.capture
    · rename_i hcap
      rw [if_pos (hor.resolve_right hcap)] at hstderr
      exact Option.some.inj hstderr ▸ hout
  · intro hredirect hcap
    dsimp only
    rw [if_neg (Int.not_lt.mpr hcap)]
    rw [if_neg (by rw [hredirect]; exact Bool.false_ne_true)] at hstderr
    exact into_createStderrLogger hstderr

/-! ## Separation -/

/-- Whether a write to `stderr` is kept apart from `stdout`. -/
def KeptApart (pathExpand : Str → Option Str) (host : Host) (n : Nat) (config : Entry)
    (w : ChildWrite) : Prop :=
  if redirectStderr config then
    ¬(eventsEnabled config .stdout ∧ FirstEmits pathExpand host n config .stdout w)
  else
    stderrCaptureBytes config ≤ 0 ∧
      ¬(eventsEnabled config .stderr ∧ FirstEmits pathExpand host n config .stderr w)

/-- An event of a write to `stdout` is one of `stdout`. -/
theorem Into.stdout_event {kind : LoggerKind} {typ q : Str}
    (h : Into l source kind (createStdoutLogEventEmitter config))
    (he : .logEvent typ q ∈ l.write outcome p) : typ = eventTypeOf .stdout := by
  obtain ⟨stream, hemit, -, rfl, -⟩ := h.logEvent.mp he
  rw [createStdoutLogEventEmitter] at hemit
  split at hemit
  · rw [Option.some.inj hemit]
  · cases hemit

/-- The events of the writes to `stderr` have its type if there are none. -/
theorem events_iff {kind kind' : LoggerKind} {enabled : Bool}
    (hout : Into logs.1 .stdout kind (createStdoutLogEventEmitter config))
    (herr : Into logs.2 source kind' (if enabled then some .stdout else none)) :
    (∀ stream typ p, (stream, .logEvent typ p) ∈ effects logs writes → typ = eventTypeOf stream) ↔
      ∀ w ∈ writes, w.stream = .stderr → ¬(enabled ∧ kind'.emits (w.outcome 0)) := by
  constructor
  · rintro h w hw hstream ⟨henabled, hemits⟩
    have heff : (Stream.stderr, Effect.logEvent (eventTypeOf .stdout) w.data) ∈
        effects logs writes := by
      refine mem_effects.mpr ⟨w, hw, hstream.symm, ?_⟩
      rw [hstream]
      exact herr.logEvent.mpr ⟨.stdout, if_pos henabled, hemits, rfl, rfl⟩
    have heq := h _ _ _ heff
    revert heq
    decide
  · intro h stream typ p he
    obtain ⟨w, hw, rfl, he⟩ := mem_effects.mp he
    cases hstream : w.stream with
    | stdout =>
        rw [hstream] at he
        exact hout.stdout_event he
    | stderr =>
        rw [hstream] at he
        obtain ⟨stream, hemit, hemits, -, -⟩ := herr.logEvent.mp he
        split at hemit
        · rename_i henabled
          exact absurd ⟨henabled, hemits⟩ (h w hw hstream)
        · cases hemit

/-- **Separation.**  The streams are kept apart if and only if each write to `stderr` is: no event
announces it, and it is not captured where it is not redirected. -/
theorem separated_iff (h : setLog pathExpand host n config = some logs) :
    Separated (redirectStderr config) writes (effects logs writes) ↔
      ∀ w ∈ writes, w.stream = .stderr → KeptApart pathExpand host n config w := by
  obtain ⟨kind, hkind, hout, hshared, howned⟩ := setLog_spec h
  have hstdout_reaches : ∀ w ∈ writes, w.stream = .stdout →
      (.stdout, .received .stdout w.data) ∈ effects logs writes := by
    intro w hw hstream
    refine mem_effects.mpr ⟨w, hw, hstream.symm, ?_⟩
    rw [hstream]
    exact hout.received.mpr ⟨rfl, rfl⟩
  have hstdout_only : ∀ p, (.stdout, .received .stderr p) ∉ effects logs writes := by
    intro p he
    obtain ⟨w, -, hstream, he⟩ := mem_effects.mp he
    rw [← hstream] at he
    cases (hout.received.mp he).1
  cases hredirect : redirectStderr config with
  | true =>
      have herr := hshared (.inl hredirect)
      simp only [KeptApart, hredirect, if_true, hkind.firstEmits_iff]
      constructor
      · intro hs
        exact (events_iff hout herr).mp hs.events
      · intro hw
        exact ⟨by rintro ⟨⟩, by rintro ⟨⟩, hstdout_reaches, hstdout_only,
          (events_iff hout herr).mpr hw⟩
  | false =>
      simp only [KeptApart, hredirect, Bool.false_eq_true, if_false]
      by_cases hcap : 0 < stderrCaptureBytes config
      · -- what is captured comes to the log files of stdout
        have herr := hshared (.inr hcap)
        constructor
        · intro hs w hw hstream
          refine absurd (mem_effects.mpr ⟨w, hw, hstream.symm, ?_⟩) (hs.stderr_only rfl w.data)
          rw [hstream]
          exact herr.received.mpr ⟨rfl, rfl⟩
        · intro hw
          have hno : ∀ w ∈ writes, w.stream ≠ .stderr := fun w hmem hstream ↦
            absurd hcap (Int.not_lt.mpr (hw w hmem hstream).1)
          refine ⟨fun _ w hmem hstream ↦ absurd hstream (hno w hmem), ?_, hstdout_reaches,
            hstdout_only, (events_iff hout herr).mpr fun w hmem hstream ↦
              absurd hstream (hno w hmem)⟩
          intro _ p he
          obtain ⟨w, hmem, hstream, -⟩ := mem_effects.mp he
          exact hno w hmem hstream.symm
      · have hcap := Int.not_lt.mp hcap
        obtain ⟨kind', hkind', herr⟩ := howned hredirect hcap
        simp only [hcap, true_and, hkind'.firstEmits_iff]
        constructor
        · intro hs
          exact (events_iff hout herr).mp hs.events
        · intro hw
          refine ⟨fun _ w hmem hstream ↦ mem_effects.mpr ⟨w, hmem, hstream.symm, ?_⟩, ?_,
            hstdout_reaches, hstdout_only, (events_iff hout herr).mpr hw⟩
          · rw [hstream]
            exact herr.received.mpr ⟨rfl, rfl⟩
          · intro _ p he
            obtain ⟨w, -, hstream, he⟩ := mem_effects.mp he
            rw [← hstream] at he
            cases (herr.received.mp he).1

/-- A program with one setting. -/
def withSetting (key value : Str) : Entry where
  configDir := []
  name := str "program:a"
  keyValues k := if k = key then some value else none

/-- A write to each of the streams. -/
def twoWrites : List ChildWrite :=
  [{ stream := .stdout, data := str "a" }, { stream := .stderr, data := str "b" }]

/-- The events of `stdout` do no harm. -/
theorem separated_iff_events : ∃ logs,
    setLog some Host.bare 1 (withSetting (str "stdout_events_enabled") (str "true")) = some logs ∧
      Separated false twoWrites (effects logs twoWrites) := by
  have h : setLog some Host.bare 1 (withSetting (str "stdout_events_enabled") (str "true")) =
      some _ := rfl
  refine ⟨_, h, (separated_iff h).mpr ?_⟩
  intro w _ _
  exact ⟨by decide, fun h ↦ absurd h.1 (by decide)⟩

/-- What is captured of `stderr` comes to the log files of `stdout`. -/
theorem not_separated : ∃ logs,
    setLog some Host.bare 1 (withSetting (str "stderr_capture_maxbytes") (str "1KB")) = some logs ∧
      redirectStderr (withSetting (str "stderr_capture_maxbytes") (str "1KB")) = false ∧
      ¬Separated false twoWrites (effects logs twoWrites) := by
  refine ⟨_, rfl, rfl, fun h ↦ h.stderr_only rfl (str "b") (mem_effects.mpr ?_)⟩
  exact ⟨{ stream := .stderr, data := str "b" }, List.mem_cons_of_mem _ List.mem_cons_self, rfl,
    List.mem_cons_of_mem _ List.mem_cons_self⟩

end Supervisord.Process
