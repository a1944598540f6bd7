import Mathlib.Data.List.Forall2
import Supervisord.Go.Split
import Supervisord.Process.Streams

/-!
# The names of log files

What `NewLogger` makes of a setting: a list of words that are reserved, of addresses of `syslog` and
of names of files.  A name that begins like an address, and is none, is an index out of range.
-/

namespace Supervisord.Process

open Go

/-- The words that are no names of files. -/
def reservedWords : List Str :=
  [str "/dev/stdout", str "/dev/stderr", str "/dev/null", str "syslog", str "memory", str "AUTO"]

/-- The form `syslog@address`, with spaces around the `@`. -/
def IsSyslogAddress (f : Str) : Prop :=
  ∃ protocol address : Str, f = protocol ++ 64 :: address ∧ 64 ∉ protocol ∧ 64 ∉ address ∧
    protocol.trimSpace = str "syslog"

/-- The logger for the name of a file.  Without a name, there is no file. -/
def LoggerKind.byName (f : Str) : LoggerKind := if 0 < f.length then .file f else .null

/-- The log file begins like the address of a `syslog`, but has no `@`. -/
def NoAddress (f : Str) : Prop := f.hasPrefix (str "syslog") = true ∧ f ≠ str "syslog" ∧ 64 ∉ f

variable {f logFile : Str} {kind : LoggerKind} {emitter : Option Stream}
  {loggers : List FileOrDevice}

/-! ## One log file -/

/-- The fields of a log file: one, two, or more of them. -/
theorem split_at (f : Str) :
    64 ∉ f ∧ f.split 64 = [f] ∨
    (∃ a b : Str, f = a ++ 64 :: b ∧ 64 ∉ a ∧ 64 ∉ b ∧ f.split 64 = [a, b]) ∨
    ∃ (a b c : Str) (fields : List Str), f = a ++ 64 :: (b ++ 64 :: c) ∧
      f.split 64 = a :: b :: fields ∧ fields ≠ [] := by
  by_cases hf : 64 ∈ f
  · obtain ⟨a, b, rfl, ha⟩ := List.eq_append_cons_of_mem hf
    have hsplit := Str.split_append_cons ha b
    by_cases hb : 64 ∈ b
    · obtain ⟨b, c, rfl, hb'⟩ := List.eq_append_cons_of_mem hb
      rw [Str.split_append_cons hb'] at hsplit
      exact .inr (.inr ⟨a, b, c, Str.split c 64, rfl, hsplit, List.splitOn_ne_nil 64 c⟩)
    · rw [Str.split_of_notMem hb] at hsplit
      exact .inr (.inl ⟨a, b, rfl, ha, hb, hsplit⟩)
  · exact .inl ⟨hf, Str.split_of_notMem hf⟩

/-- What is not reserved is a name of a file, the address of a `syslog`, or an index out of
range. -/
theorem loggerKind_cases (h : f ∉ reservedWords) :
    loggerKind f = some (.byName f) ∧ ¬NoAddress f ∨
      (∃ address, loggerKind f = some (.sys (some address))) ∧ IsSyslogAddress f ∧
        ¬NoAddress f ∨
      loggerKind f = none ∧ NoAddress f := by
  have hne (w : Str) (hw : w ∈ reservedWords) : f ≠ w := by
    rintro rfl
    exact h hw
  have hsys := hne (str "syslog") (by decide)
  rw [loggerKind, if_neg (hne _ (by decide)), if_neg (hne _ (by decide)),
    if_neg (hne _ (by decide)), if_neg hsys,
    if_neg (not_or.mpr ⟨hne _ (by decide), hne _ (by decide)⟩)]
  by_cases hp : f.hasPrefix (str "syslog") = true
  · rw [if_pos hp]
    rcases split_at f with ⟨hf, hs⟩ | ⟨a, b, hf, ha, hb, hs⟩ | ⟨a, b, c, fields, hf, hs, hfields⟩
    · rw [hs]
      exact .inr (.inr ⟨rfl, hp, hsys, hf⟩)
    · have hmem : 64 ∈ f := hf ▸ List.mem_append_right _ List.mem_cons_self
      rw [hs]
      dsimp only
      by_cases htrim : a.trimSpace = str "syslog"
      · rw [if_pos htrim]
        exact .inr (.inl ⟨⟨_, rfl⟩, ⟨a, b, hf, ha, hb, htrim⟩, fun hno ↦ hno.2.2 hmem⟩)
      · rw [if_neg htrim]
        exact .inl ⟨rfl, fun hno ↦ hno.2.2 hmem⟩
    · have hmem : 64 ∈ f := hf ▸ List.mem_append_right _ List.mem_cons_self
      obtain ⟨d, fields, rfl⟩ := List.exists_cons_of_ne_nil hfields
      rw [hs]
      exact .inl ⟨rfl, fun hno ↦ hno.2.2 hmem⟩
  · rw [if_neg hp]
    exact .inl ⟨rfl, fun hno ↦ hp hno.1⟩

/-- A word that is reserved has its logger. -/
theorem loggerKind_reserved (h : f ∈ reservedWords) :
    (∃ kind, loggerKind f = some kind) ∧ ¬NoAddress f := by
  have hall : ∀ w ∈ reservedWords, (loggerKind w).isSome = true ∧
      ¬(w.hasPrefix (str "syslog") = true ∧ w ≠ str "syslog") := by decide
  obtain ⟨hsome, hno⟩ := hall f h
  exact ⟨Option.isSome_iff_exists.mp hsome, fun h ↦ hno ⟨h.1, h.2.1⟩⟩

/-- **One log file.**  The only panic is at what begins like the address of a `syslog`. -/
theorem loggerKind_eq_none_iff : loggerKind f = none ↔ NoAddress f := by
  by_cases h : f ∈ reservedWords
  · obtain ⟨⟨kind, hkind⟩, hno⟩ := loggerKind_reserved h
    rw [hkind]
    exact iff_of_false (Option.some_ne_none _) hno
  · rcases loggerKind_cases h with ⟨hk, hno⟩ | ⟨⟨kind, hk⟩, -, hno⟩ | ⟨hk, hno⟩
    · exact iff_of_false (hk ▸ Option.some_ne_none _) hno
    · exact iff_of_false (hk ▸ Option.some_ne_none _) hno
    · exact iff_of_true hk hno

/-- What is neither reserved nor an address is a name. -/
theorem loggerKind_byName (h : f ∉ reservedWords) (hsys : ¬IsSyslogAddress f)
    (hk : loggerKind f = some kind) : kind = .byName f := by
  rcases loggerKind_cases h with ⟨hk', -⟩ | ⟨-, hsys', -⟩ | ⟨hk', -⟩
  · exact Option.some.inj (hk.symm.trans hk')
  · exact absurd hsys' hsys
  · rw [hk'] at hk
    cases hk

/-- Which log files are `stdout` and `stderr`. -/
theorem loggerKind_std_iff (hk : loggerKind f = some kind) :
    (∃ device, kind = .std device) ↔ f = str "/dev/stdout" ∨ f = str "/dev/stderr" := by
  by_cases hstd : f = str "/dev/stdout" ∨ f = str "/dev/stderr"
  · refine iff_of_true ?_ hstd
    rcases hstd with rfl | rfl
    · exact ⟨.stdout, (Option.some.inj hk).symm⟩
    · exact ⟨.stderr, (Option.some.inj hk).symm⟩
  refine iff_of_false ?_ hstd
  rintro ⟨device, rfl⟩
  by_cases h : f ∈ reservedWords
  · have hall : ∀ w ∈ reservedWords, (w = str "/dev/stdout" ∨ w = str "/dev/stderr") ∨
        loggerKind w ≠ some (.std .stdout) ∧ loggerKind w ≠ some (.std .stderr) := by decide
    have hne := (hall f h).resolve_left hstd
    cases device with
    | stdout => exact hne.1 hk
    | stderr => exact hne.2 hk
  · rcases loggerKind_cases h with ⟨hk', -⟩ | ⟨⟨address, hk'⟩, -⟩ | ⟨hk', -⟩
    · rw [hk', LoggerKind.byName] at hk
      by_cases hlen : 0 < f.length
      · rw [if_pos hlen] at hk
        cases hk
      · rw [if_neg hlen] at hk
        cases hk
    · rw [hk'] at hk
      cases hk
    · rw [hk'] at hk
      cases hk

/-! ## All log files -/

theorem mapM_eq_some_iff {α β : Type} {g : α → Option β} {as : List α} {bs : List β} :
    as.mapM g = some bs ↔ List.Forall₂ (fun a b ↦ g a = some b) as bs := by
  induction as generalizing bs with
  | nil => exact ⟨fun h ↦ by cases h; exact .nil, fun h ↦ by cases h; rfl⟩
  | cons a as ih =>
      rw [List.mapM_cons, List.forall₂_cons_left_iff]
      constructor
      · intro h
        obtain ⟨b, hb, h⟩ := Option.bind_eq_some_iff.mp h
        obtain ⟨bs', hbs, h⟩ := Option.bind_eq_some_iff.mp h
        obtain rfl := Option.some.inj h
        exact ⟨b, bs', hb, ih.mp hbs, rfl⟩
      · rintro ⟨b, bs', hb, hbs, rfl⟩
        rw [hb, ih.mpr hbs]
        rfl

theorem mapM_eq_none_iff {α β : Type} {g : α → Option β} {as : List α} :
    as.mapM g = none ↔ ∃ a ∈ as, g a = none := by
  induction as with
  | nil =>
      refine iff_of_false (Option.some_ne_none _) ?_
      rintro ⟨_, ha, -⟩
      exact List.not_mem_nil ha
  | cons a as ih =>
      rw [List.mapM_cons, List.exists_mem_cons_iff, ← ih]
      cases ha : g a with
      | none => exact iff_of_true rfl (.inl rfl)
      | some b =>
          rw [or_iff_right (Option.some_ne_none b)]
          cases as.mapM g with
          | none => exact iff_of_true rfl rfl
          | some bs => exact iff_of_false (Option.some_ne_none _) (Option.some_ne_none _)

theorem createLogger_eq_some {lr : FileOrDevice} (h : createLogger f emitter = some lr) :
    loggerKind f = some lr.kind := by
  obtain ⟨kind, hkind, rfl⟩ := Option.map_eq_some_iff.mp h
  exact hkind

/-- Each of the log files gets its logger. -/
theorem newLogger_kinds (h : newLogger logFile emitter = some loggers) :
    List.Forall₂ (fun f lr ↦ loggerKind f = some lr.kind) (splitLogFile logFile) loggers := by
  rw [newLogger] at h
  cases hfiles : splitLogFile logFile with
  | nil =>
      rw [hfiles] at h
      cases h
      exact .nil
  | cons f files =>
      rw [hfiles] at h
      obtain ⟨lr, hlr, h⟩ := Option.bind_eq_some_iff.mp h
      obtain ⟨rest, hrest, rfl⟩ := Option.map_eq_some_iff.mp h
      exact .cons (createLogger_eq_some hlr)
        ((mapM_eq_some_iff.mp hrest).imp fun _ _ ↦ createLogger_eq_some)

/-- A log file that has no logger is a panic. -/
theorem newLogger_eq_none_iff : newLogger logFile emitter = none ↔
    ∃ f ∈ splitLogFile logFile, loggerKind f = none := by
  rw [newLogger]
  cases splitLogFile logFile with
  | nil =>
      refine iff_of_false (Option.some_ne_none _) ?_
      rintro ⟨_, hf, -⟩
      exact List.not_mem_nil hf
  | cons f files =>
      have hcreate (e : Option Stream) (f : Str) :
          createLogger f e = none ↔ loggerKind f = none := Option.map_eq_none_iff
      rw [List.exists_mem_cons_iff, ← hcreate emitter, Option.bind_eq_none_iff]
      constructor
      · intro h
        cases hlr : createLogger f emitter with
        | none => exact .inl rfl
        | some lr =>
            obtain ⟨f', hf', hnone⟩ := mapM_eq_none_iff.mp (Option.map_eq_none_iff.mp (h lr hlr))
            exact .inr ⟨f', hf', (hcreate none f').mp hnone⟩
      · rintro (h | ⟨f', hf', hnone⟩) lr hlr
        · rw [h] at hlr
          cases hlr
        · rw [Option.map_eq_none_iff, mapM_eq_none_iff]
          exact ⟨f', hf', (hcreate none f').mpr hnone⟩

/-- **Log files.**  `NewLogger` returns, and treats as the name of a file whatever is neither
reserved nor an address, if and only if no log file begins with `syslog` without being that word or
having an `@`. -/
theorem newLogger_safe_iff (logFile : Str) (emitter : Option Stream) :
    (∃ loggers, newLogger logFile emitter = some loggers ∧
      List.Forall₂ (fun f lr ↦ f ∉ reservedWords → ¬IsSyslogAddress f →
        lr.kind = .byName f) (splitLogFile logFile) loggers) ↔
    ∀ f ∈ splitLogFile logFile, ¬NoAddress f := by
  constructor
  · rintro ⟨loggers, h, -⟩ f hf hno
    have hnone : newLogger logFile emitter = none :=
      newLogger_eq_none_iff.mpr ⟨f, hf, loggerKind_eq_none_iff.mpr hno⟩
    rw [h] at hnone
    cases hnone
  · intro hall
    cases h : newLogger logFile emitter with
    | none =>
        obtain ⟨f, hf, hnone⟩ := newLogger_eq_none_iff.mp h
        exact absurd (loggerKind_eq_none_iff.mp hnone) (hall f hf)
    | some loggers =>
        exact ⟨loggers, rfl, (newLogger_kinds h).imp fun f lr hk hres hsys ↦
          loggerKind_byName hres hsys hk⟩

/-- The name of a file that begins like an address. -/
theorem newLogger_panics : ¬∀ (logFile : Str) (emitter : Option Stream),
    ∃ loggers, newLogger logFile emitter = some loggers ∧
      List.Forall₂ (fun f lr ↦ f ∉ reservedWords → ¬IsSyslogAddress f →
        lr.kind = .byName f) (splitLogFile logFile) loggers := by
  intro h
  obtain ⟨loggers, hnew, -⟩ := h (str "out.log, syslogd.log") none
  have hnone : newLogger (str "out.log, syslogd.log") none = none := by decide
  rw [hnone] at hnew
  cases hnew

end Supervisord.Process
