import Supervisord.Logger.Excerpt
import Supervisord.Machine.Basic

/-!
# Following a file

A client follows a log: it calls `ReadTailLog` again and again, each time with the offset that it
has got from the call before, while the program writes.  The loggers are made with a locker that
does not lock, so that there can be writes between the `Stat` and the `ReadAt` of one call.
-/

namespace Supervisord.Logger

open Go

/-! ## One call -/

/-- What `ReadTailLog` does after the buffer of `n` bytes has been made. -/
def File.tailReadAt (f : File) (offset n : Int64) : Tail :=
  match f.readAt n offset with
  | .error e => ⟨[], offset, false, some e⟩
  | .ok data => ⟨data, offset + .ofNat data.length, false, none⟩

namespace FileLogger

variable (l : FileLogger) (os : Str → Except Str File)

/-- `ReadTailLog` up to its buffer: it has returned, or the buffer is to have `n` bytes. -/
def tailStat (offset length : Int64) : Tail ⊕ Int64 :=
  if offset < 0 then
    .inl ⟨[], offset, false, some (.text (str "offset should not be less than 0"))⟩
  else if length < 0 then
    .inl ⟨[], offset, false, some (.text (str "length should be not be less than 0"))⟩
  else match os l.name with
    | .error e => .inl ⟨[], 0, false, some (.os e)⟩
    | .ok f =>
      match f.statError with
      | some e => .inl ⟨[], 0, false, some (.os e)⟩
      | none =>
        if f.size ≤ offset then .inl ⟨[], f.size, true, none⟩
        else .inr (capped f offset length)

end FileLogger

/-! ## Calls and writes -/

/-- The file as it is now. -/
def fileAt (fs : FS) (name : Str) (statError readError : Option Str) : Option File :=
  (fs name).bind fun data ↦
    if h : data.length < 2 ^ 63 then some ⟨data, h, statError, readError⟩ else none

/-- `os.Open`. -/
def openLog (fs : FS) (openError statError : Option Str) (name : Str) : Except Str File :=
  match openError with
  | some e => .error e
  | none => (fileAt fs name statError none).elim (.error (str "no such file or directory")) .ok

/-- A file logger and a client that follows its file. -/
structure Following where
  logger : FileLogger
  fs : FS
  /-- The offset of the next call, and the results of all calls so far. -/
  offset : Int64 := 0
  received : Str := []
  /-- The length of the buffer, while a call is between `Stat` and `ReadAt`. -/
  buffer : Option Int64 := none

namespace Following

/-- What is in the file. -/
def data (s : Following) : Str := (s.fs s.logger.name).getD []

/-- A call ends.  `TailProcessStdoutLog` and `TailProcessStderrLog` return its error, and then the
client gets a fault and no offset. -/
def reply (s : Following) (t : Tail) : Following :=
  match t.err with
  | some _ => { s with buffer := none }
  | none => { s with offset := t.offset, received := s.received ++ t.data, buffer := none }

/-- What can happen, with the errors of the system, if there are any. -/
inductive Act where
  | write (p : Str)
  /-- A write that fails when these bytes have been written. -/
  | failedWrite (p : Str)
  /-- A call begins. -/
  | stat (length : Int64) (openError statError : Option Str)
  /-- The call that has begun ends. -/
  | readAt (readError : Option Str)

/-- There are no rotations; the lengths that are asked for are positive, and the ends are 64-bit
integers.  A buffer of negative length is a panic. -/
def step (s : Following) : Act → Option Following
  | .write p =>
    if s.logger.rotates s.fs p then none
    else
      let written := s.logger.write s.fs p
      some { s with logger := written.2.1, fs := written.2.2 }
  | .failedWrite p =>
    some { s with fs := if s.logger.file then s.logger.append s.fs p else s.fs }
  | .stat length openError statError =>
    if s.buffer.isNone ∧ 0 < length.toInt ∧ s.offset.toInt + length.toInt < 2 ^ 63 then
      match s.logger.tailStat (openLog s.fs openError statError) s.offset length with
      | .inl t => some (s.reply t)
      | .inr n => if n < 0 then none else some { s with buffer := some n }
    else none
  | .readAt readError =>
    s.buffer.map fun n ↦
      match fileAt s.fs s.logger.name none readError with
      | none => { s with buffer := none }
      | some f => s.reply (f.tailReadAt s.offset n)

end Following

/-- A client begins to follow the file of a logger. -/
def following (l : FileLogger) (fs : FS) : Machine Following Following.Act where
  init := { logger := l, fs := fs }
  step := Following.step

/-! ## What the client has got -/

section Call

variable {l : FileLogger} {fs : FS} {f : File} {name data p : Str} {offset length n : Int64}
  {openError statError readError : Option Str} {t : Tail}

theorem fileAt_data (h : fileAt fs name statError readError = some f) :
    fs name = some f.data ∧ f.statError = statError ∧ f.readError = readError := by
  obtain ⟨data, hdata, hf⟩ := Option.bind_eq_some_iff.mp h
  by_cases hlt : data.length < 2 ^ 63
  · rw [dif_pos hlt] at hf
    cases hf
    exact ⟨hdata, rfl, rfl⟩
  · rw [dif_neg hlt] at hf
    cases hf

theorem openLog_data (h : openLog fs openError statError name = .ok f) : fs name = some f.data := by
  cases openError with
  | some e => cases h
  | none =>
      rw [openLog] at h
      cases hf : fileAt fs name statError none with
      | none =>
          rw [hf] at h
          cases h
      | some g =>
          rw [hf] at h
          cases h
          exact (fileAt_data hf).1

/-- A call that has returned without an error was at the end of the file; a buffer has its place in
the file. -/
theorem tailStat_cases (l : FileLogger) (fs : FS) (openError statError : Option Str)
    (ho : 0 ≤ offset.toInt) (hl : 0 < length.toInt) (hw : offset.toInt + length.toInt < 2 ^ 63) :
    (∃ t, l.tailStat (openLog fs openError statError) offset length = .inl t ∧ t.err ≠ none) ∨
    ∃ data, fs l.name = some data ∧
      ((∃ end_, l.tailStat (openLog fs openError statError) offset length =
          .inl ⟨[], end_, true, none⟩ ∧ end_.toInt = data.length ∧ data.length ≤ offset.toInt) ∨
        ∃ n, l.tailStat (openLog fs openError statError) offset length = .inr n ∧
          0 ≤ n.toInt ∧ offset.toInt + n.toInt ≤ data.length) := by
  have hzero : (0 : Int64).toInt = 0 := rfl
  have h1 : ¬offset < 0 := by
    rw [Int64.lt_iff_toInt_lt]
    exact Int.not_lt.mpr ho
  have h2 : ¬length < 0 := by
    rw [Int64.lt_iff_toInt_lt, hzero]
    exact Int.not_lt.mpr (Int.le_of_lt hl)
  rw [FileLogger.tailStat, if_neg h1, if_neg h2]
  cases hos : openLog fs openError statError l.name with
  | error e => exact .inl ⟨_, rfl, Option.some_ne_none _⟩
  | ok f =>
      dsimp only
      cases hstat : f.statError with
      | some e => exact .inl ⟨_, rfl, Option.some_ne_none _⟩
      | none =>
          dsimp only
          refine .inr ⟨f.data, openLog_data hos, ?_⟩
          by_cases h3 : f.size ≤ offset
          · rw [if_pos h3]
            rw [Int64.le_iff_toInt_le, f.toInt_size] at h3
            exact .inl ⟨f.size, rfl, f.toInt_size, h3⟩
          · rw [if_neg h3]
            rw [Int64.le_iff_toInt_le, Int.not_le] at h3
            obtain ⟨-, hn, hle⟩ :=
              (FileLogger.capped_spec ho (Int.le_of_lt hl) h3).mpr fun hwrap ↦
                Int.not_lt.mpr hwrap.2.2 hw
            exact .inr ⟨_, rfl, hn, hle⟩

/-- A buffer is filled from its place in the file, or there is an error. -/
theorem readAt_cases (f : File) (n offset : Int64) : (∃ e, f.readAt n offset = .error e) ∨
    ∃ data, f.readAt n offset = .ok data ∧
      data = (f.data.drop offset.toInt.toNat).take n.toInt.toNat := by
  rw [File.readAt]
  by_cases h1 : offset < 0
  · rw [if_pos h1]
    exact .inl ⟨_, rfl⟩
  rw [if_neg h1]
  by_cases h2 : n = 0
  · subst h2
    exact .inr ⟨[], rfl, rfl⟩
  rw [if_neg h2]
  cases f.readError with
  | some e => exact .inl ⟨_, rfl⟩
  | none =>
      dsimp only
      by_cases h3 : ((f.data.drop offset.toInt.toNat).take n.toInt.toNat).length = n.toInt
      · rw [if_pos h3]
        exact .inr ⟨_, rfl, rfl⟩
      · rw [if_neg h3]
        exact .inl ⟨_, rfl⟩

/-- What a call returns that has made a buffer. -/
theorem tailReadAt_cases (ho : 0 ≤ offset.toInt) (hn : 0 ≤ n.toInt)
    (hle : offset.toInt + n.toInt ≤ f.data.length) :
    (f.tailReadAt offset n).err ≠ none ∨
      ∃ end_, f.tailReadAt offset n =
        ⟨(f.data.drop offset.toInt.toNat).take n.toInt.toNat, end_, false, none⟩ ∧
          end_.toInt = offset.toInt + n.toInt := by
  rw [File.tailReadAt]
  rcases readAt_cases f n offset with ⟨e, he⟩ | ⟨data, hdata, rfl⟩
  · rw [he]
    exact .inl (Option.some_ne_none _)
  · have hlt := f.length_lt
    have hlen : (((f.data.drop offset.toInt.toNat).take n.toInt.toNat).length : Int) =
        n.toInt := by
      rw [List.length_take, List.length_drop]
      omega
    have hof := Int64.toInt_ofNat_of_lt (n :=
      ((f.data.drop offset.toInt.toNat).take n.toInt.toNat).length) (by omega)
    rw [hdata]
    refine .inr ⟨_, rfl, ?_⟩
    rw [toInt_add_of_lt (by omega) (by omega), hof, hlen]

theorem grow_name {l' : FileLogger} (h : l.grow fs p = .ok l') : l'.name = l.name := by
  rw [FileLogger.grow, FileLogger.syncSize] at h
  by_cases hfull : l.maxSize ≤ l.fileSize + p.length
  · rw [if_pos hfull] at h
    cases hdata : l.append fs p l.name with
    | none =>
        rw [hdata] at h
        cases h
    | some data =>
        rw [hdata] at h
        cases h
        rfl
  · rw [if_neg hfull] at h
    cases h
    rfl

/-- A write appends to the file, if it does not rotate. -/
theorem write_appends (h : l.rotates fs p = false) :
    (l.write fs p).2.1.name = l.name ∧
      (l.write fs p).2.2 = if l.file then l.append fs p else fs := by
  rw [FileLogger.rotates] at h
  rw [FileLogger.write]
  by_cases hfile : l.file = true
  · rw [hfile, Bool.true_and] at h
    rw [if_pos hfile, if_pos hfile]
    cases hgrow : l.grow fs p with
    | error err => exact ⟨rfl, rfl⟩
    | ok l' =>
        rw [hgrow] at h
        dsimp only at h ⊢
        rw [if_neg (of_decide_eq_false h)]
        exact ⟨grow_name hgrow, rfl⟩
  · rw [if_neg hfile, if_neg hfile]
    exact ⟨rfl, rfl⟩

/-- What is appended. -/
theorem append_getD (l : FileLogger) (fs : FS) (p : Str) :
    (fs l.name).getD [] <+: ((if l.file then l.append fs p else fs) l.name).getD [] := by
  by_cases hfile : l.file = true
  · rw [if_pos hfile, FileLogger.append]
    cases hdata : fs l.name with
    | none => exact List.nil_prefix
    | some data =>
        dsimp only
        rw [Files.write_self]
        exact List.prefix_append data p
  · exact ⟨[], by rw [if_neg hfile, List.append_nil]⟩

end Call

/-- The client has got the file up to its offset, and its buffer has its place in the file. -/
structure Follows (s : Following) : Prop where
  length : s.offset.toInt = s.received.length
  received : s.received <+: s.data
  buffer : ∀ n, s.buffer = some n → 0 ≤ n.toInt ∧ s.offset.toInt + n.toInt ≤ s.data.length

namespace Follows

variable {s s' : Following} {a : Following.Act} {t : Tail}

/-- The file grows. -/
theorem grow (h : Follows s) {l : FileLogger} {fs : FS}
    (hg : s.data <+: (fs l.name).getD []) : Follows { s with logger := l, fs := fs } where
  length := h.length
  received := h.received.trans hg
  buffer n hn := by
    have hle := hg.length_le
    have hbuf := h.buffer n hn
    exact ⟨hbuf.1, Int.le_trans hbuf.2 (Int.ofNat_le.mpr hle)⟩

/-- A call ends with the part of the file behind the offset. -/
theorem reply (h : Follows s)
    (ht : t.err ≠ none ∨ ∃ k ≤ (s.data.drop s.received.length).length,
      t.data = (s.data.drop s.received.length).take k ∧ t.offset.toInt = s.offset.toInt + k) :
    Follows (s.reply t) := by
  rw [Following.reply]
  cases herr : t.err with
  | some e => exact ⟨h.length, h.received, fun n hn ↦ absurd hn (Option.some_ne_none n).symm⟩
  | none =>
      obtain hne | ⟨k, hk, hdata, hoff⟩ := ht
      · exact absurd herr hne
      refine ⟨?_, ?_, fun n hn ↦ absurd hn (Option.some_ne_none n).symm⟩
      · show t.offset.toInt = (s.received ++ t.data).length
        rw [List.length_append, hdata, List.length_take_of_le hk, hoff, h.length, Int.natCast_add]
      · show s.received ++ t.data <+: s.data
        obtain ⟨rest, hrest⟩ := h.received
        rw [hdata, ← hrest, List.drop_left]
        exact (List.prefix_append_right_inj _).mpr (List.take_prefix _ _)

theorem offset_nonneg (h : Follows s) : 0 ≤ s.offset.toInt := by
  rw [h.length]
  exact Int.natCast_nonneg _

theorem data_eq {data : Str} (hdata : s.fs s.logger.name = some data) : s.data = data := by
  rw [Following.data, hdata, Option.getD_some]

theorem of_write (h : Follows s) {p : Str} (hst : s.step (.write p) = some s') : Follows s' := by
  rw [Following.step] at hst
  by_cases hrot : s.logger.rotates s.fs p = true
  · rw [if_pos hrot] at hst
    cases hst
  · rw [if_neg hrot] at hst
    obtain rfl := Option.some.inj hst
    obtain ⟨hname, hfs⟩ := write_appends (Bool.eq_false_iff.mpr hrot)
    refine h.grow ?_
    rw [hname, hfs]
    exact append_getD s.logger s.fs p

/-- A call up to its buffer. -/
theorem of_stat (h : Follows s) {length : Int64} {openError statError : Option Str}
    (hst : s.step (.stat length openError statError) = some s') : Follows s' := by
  rw [Following.step] at hst
  by_cases hcall : s.buffer.isNone ∧ 0 < length.toInt ∧ s.offset.toInt + length.toInt < 2 ^ 63
  · rw [if_pos hcall] at hst
    obtain ⟨-, hl, hw⟩ := hcall
    rcases tailStat_cases s.logger s.fs openError statError h.offset_nonneg hl hw with
      ⟨t, ht, hne⟩ | ⟨data, hdata, ⟨end_, ht, hend, hle⟩ | ⟨n, hn, hpos, hle⟩⟩
    · rw [ht] at hst
      cases hst
      exact h.reply (.inl hne)
    · -- the end of the file is the offset
      have hlen := h.received.length_le
      rw [ht] at hst
      cases hst
      refine h.reply (.inr ⟨0, Nat.zero_le _, rfl, ?_⟩)
      rw [data_eq hdata] at hlen
      show end_.toInt = _
      rw [h.length] at hle ⊢
      omega
    · have hneg : ¬n < 0 := by
        rw [Int64.lt_iff_toInt_lt]
        exact Int.not_lt.mpr hpos
      rw [hn] at hst
      dsimp only at hst
      rw [if_neg hneg] at hst
      cases hst
      refine ⟨h.length, h.received, ?_⟩
      rintro m hm
      cases hm
      exact ⟨hpos, by rwa [← data_eq hdata] at hle⟩
  · rw [if_neg hcall] at hst
    cases hst

/-- The rest of a call. -/
theorem of_readAt (h : Follows s) {readError : Option Str}
    (hst : s.step (.readAt readError) = some s') : Follows s' := by
  obtain ⟨n, hn, rfl⟩ := Option.map_eq_some_iff.mp hst
  cases hf : fileAt s.fs s.logger.name .none readError with
  | none => exact ⟨h.length, h.received, fun n hn ↦ absurd hn (Option.some_ne_none n).symm⟩
  | some f =>
      have hs : s.data = f.data := data_eq (fileAt_data hf).1
      have hto : s.offset.toInt.toNat = s.received.length := by
        rw [h.length, Int.toNat_natCast]
      obtain ⟨hpos, hle⟩ := h.buffer n hn
      rw [hs] at hle
      dsimp only
      refine h.reply ?_
      rcases tailReadAt_cases h.offset_nonneg hpos hle with hne | ⟨end_, ht, hend⟩
      · exact .inl hne
      · refine .inr ⟨n.toInt.toNat, ?_, ?_, ?_⟩
        · have ho := h.offset_nonneg
          rw [hs, List.length_drop, ← hto]
          omega
        · rw [ht, hs, hto]
        · rw [ht, Int.toNat_of_nonneg hpos]
          exact hend

/-- **One step.** -/
theorem step (h : Follows s) (hst : s.step a = some s') : Follows s' := by
  cases a with
  | write p => exact h.of_write hst
  | failedWrite p =>
      cases hst
      exact h.grow (append_getD s.logger s.fs p)
  | stat length openError statError => exact h.of_stat hst
  | readAt readError => exact h.of_readAt hst

/-- **Runs.** -/
theorem of_reachable {l : FileLogger} {fs : FS} (h : (following l fs).Reachable s) :
    Follows s := by
  refine h.invariant ?_ fun _ _ _ _ hs _ hst ↦ hs.step hst
  exact ⟨rfl, List.nil_prefix, fun n hn ↦ absurd hn (Option.some_ne_none n).symm⟩

end Follows

/-- **Every byte once.**  At every moment, the results of the calls are the file up to the offset
that the client has got. -/
theorem received_eq_take {l : FileLogger} {fs : FS} {s : Following}
    (h : (following l fs).Reachable s) :
    0 ≤ s.offset.toInt ∧ s.offset.toInt ≤ s.data.length ∧
      s.received = s.data.take s.offset.toInt.toNat := by
  have hs := Follows.of_reachable h
  rw [hs.length, Int.toNat_natCast]
  exact ⟨Int.natCast_nonneg _, Int.ofNat_le.mpr hs.received.length_le,
    List.prefix_iff_eq_take.mp hs.received⟩

/-- A write between the two parts of a call, a call that fails, and a call at the end. -/
theorem received_eq_take_hello :
    let l : FileLogger := { name := str "log", maxSize := 100, backups := 1, file := true }
    let fs : FS := fun name ↦ if name = str "log" then some (str "hel") else none
    ∃ s, (following l fs).Reachable s ∧ s.received = str "hello" ∧
      0 ≤ s.offset.toInt ∧ s.offset.toInt ≤ s.data.length ∧
      s.received = s.data.take s.offset.toInt.toNat := by
  intro l fs
  obtain ⟨s, hs, hrec⟩ := Machine.exists_reachable (m := following l fs)
    (fun s ↦ s.received = str "hello")
    [.stat 9 .none .none, .write (str "lo"), .readAt .none, .stat 2 .none (some (str "EIO")),
      .stat 9 .none .none, .readAt .none, .stat 1 .none .none, .write (str "!")] (by decide)
  exact ⟨s, hs, of_decide_eq_true hrec, received_eq_take hs⟩

end Supervisord.Logger
