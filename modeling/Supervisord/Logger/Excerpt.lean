import Supervisord.Logger.Bounds
import Supervisord.Logger.Ring

/-!
# Excerpts

What a client gets from `ReadLog`.  The file logger gives the part of its file that is asked for.
The memory logger gives the same part of its text only where a length is given and the offset is
inside of the text, or where all of the text is asked for.
-/

namespace Supervisord.Logger

open Go

/-- What is asked for by an offset and a length. -/
def excerpt (s : Str) (offset length : Int) : Except LogError Str :=
  if 0 ≤ offset ∧ 0 < length then
    .ok ((s.take (min (offset + length) s.length).toNat).drop offset.toNat)
  else if 0 ≤ offset ∧ length = 0 then .ok (s.drop offset.toNat)
  else if offset < 0 ∧ length = 0 then .ok (s.rtake (min (-offset) s.length).toNat)
  else .error .badArguments

section Excerpt

variable {s : Str} {o n : Int}

theorem excerpt_of_pos (ho : 0 ≤ o) (hn : 0 < n) :
    excerpt s o n = .ok ((s.take (min (o + n) s.length).toNat).drop o.toNat) :=
  if_pos ⟨ho, hn⟩

theorem excerpt_to_end (ho : 0 ≤ o) : excerpt s o 0 = .ok (s.drop o.toNat) := by
  rw [excerpt, if_neg fun h ↦ Int.lt_irrefl 0 h.2, if_pos ⟨ho, rfl⟩]

theorem excerpt_tail (ho : o < 0) :
    excerpt s o 0 = .ok (s.rtake (min (-o) s.length).toNat) := by
  have ho' : ¬0 ≤ o := Int.not_le.mpr ho
  rw [excerpt, if_neg fun h ↦ ho' h.1, if_neg fun h ↦ ho' h.1, if_pos ⟨ho, rfl⟩]

theorem excerpt_bad (h : o < 0 ∧ n ≠ 0 ∨ 0 ≤ o ∧ n < 0) :
    excerpt s o n = .error .badArguments := by
  have hno : ¬(0 ≤ o ∧ 0 < n) ∧ ¬(0 ≤ o ∧ n = 0) ∧ ¬(o < 0 ∧ n = 0) := by
    rcases h with h | h
    all_goals omega
  rw [excerpt, if_neg hno.1, if_neg hno.2.1, if_neg hno.2.2]

end Excerpt

variable {offset length : Int64}

/-- The arguments are not refused. -/
def Accepted (offset length : Int64) : Prop :=
  ¬(offset < 0 ∧ length ≠ 0) ∧ ¬(0 ≤ offset ∧ length < 0)

theorem accepted_iff : Accepted offset length ↔
    ¬(offset.toInt < 0 ∧ length.toInt ≠ 0 ∨ 0 ≤ offset.toInt ∧ length.toInt < 0) := by
  have hzero : (0 : Int64).toInt = 0 := rfl
  rw [Accepted, Int64.lt_iff_toInt_lt, Int64.le_iff_toInt_le, Int64.lt_iff_toInt_lt, Ne,
    ← Int64.toInt_inj, hzero, not_or]

/-! ## The file logger -/

section File

variable {f : File} {a k : Int64}

/-- A part that is in the file is read. -/
theorem File.fill_result {ρ : Type} (hread : f.readError = none) (ha : 0 ≤ a.toInt)
    (hk : 0 ≤ k.toInt) (hle : a.toInt + k.toInt ≤ f.data.length)
    (g : Except LogError Str → ρ) : (f.fill k a g).result =
      some (g (.ok ((f.data.drop a.toInt.toNat).take k.toInt.toNat))) := by
  have hlen : (((f.data.drop a.toInt.toNat).take k.toInt.toNat).length : Int) = k.toInt := by
    rw [List.length_take, List.length_drop]
    omega
  have ha : ¬a < 0 := by
    rw [Int64.lt_iff_toInt_lt]
    exact Int.not_lt.mpr ha
  have hk : ¬k < 0 := by
    rw [Int64.lt_iff_toInt_lt]
    exact Int.not_lt.mpr hk
  rw [File.fill, if_neg hk]
  dsimp only
  rw [File.readAt, if_neg ha]
  by_cases h0 : k = 0
  · subst h0
    rfl
  · rw [if_neg h0, hread]
    dsimp only
    rw [if_pos hlen]

/-- What is read is what is asked for. -/
structure Reads (f : File) (a k offset length : Int64) : Prop where
  le_start : 0 ≤ a.toInt
  le_count : 0 ≤ k.toInt
  le_size : a.toInt + k.toInt ≤ f.data.length
  data : excerpt f.data offset.toInt length.toInt =
    .ok ((f.data.drop a.toInt.toNat).take k.toInt.toNat)

/-- Up to the end of the file. -/
theorem reads_to_end (ha : 0 ≤ a.toInt) (hle : a.toInt ≤ f.data.length)
    (hdata : excerpt f.data offset.toInt length.toInt = .ok (f.data.drop a.toInt.toNat)) :
    Reads f a (f.size - a) offset length := by
  have hn : (f.size - a).toInt = f.size.toInt - a.toInt :=
    toInt_sub_of_le ha (by rwa [f.toInt_size])
  rw [f.toInt_size] at hn
  refine ⟨ha, by omega, by omega, ?_⟩
  rw [hdata, List.take_of_length_le]
  rw [List.length_drop]
  omega

/-- The offset counts from the end. -/
theorem reads_tail (ho : offset.toInt < 0) :
    Reads f (FileLogger.fromEnd f offset) (f.size - FileLogger.fromEnd f offset) offset 0 := by
  have hsize := f.toInt_size
  have hlt := f.length_lt
  have hlo := offset.le_toInt
  have hzero : (0 : Int64).toInt = 0 := rfl
  have hsum : (f.size + offset).toInt = f.size.toInt + offset.toInt :=
    toInt_add_of_lt (by omega) (by omega)
  have hfrom : (FileLogger.fromEnd f offset).toInt =
      f.data.length - min (-offset.toInt) f.data.length := by
    unfold FileLogger.fromEnd
    split_ifs with h
    all_goals
      rw [Int64.lt_iff_toInt_lt] at h
      omega
  refine reads_to_end (by omega) (by omega) ?_
  rw [hzero, excerpt_tail ho, List.rtake]
  congr 2
  omega

/-- The length is positive, and the offset is in the file. -/
theorem reads_part (ho : 0 ≤ offset.toInt) (hn : 0 < length.toInt)
    (hlt : offset.toInt < f.data.length) (hw : offset.toInt + length.toInt < 2 ^ 63) :
    Reads f offset (FileLogger.capped f offset length) offset length := by
  have hsum : (offset + length).toInt = offset.toInt + length.toInt :=
    toInt_add_of_lt (by omega) hw
  have hdata := excerpt_of_pos (s := f.data) ho hn
  unfold FileLogger.capped
  split_ifs with h
  all_goals rw [Int64.lt_iff_toInt_lt, f.toInt_size, hsum] at h
  · refine reads_to_end ho (Int.le_of_lt hlt) ?_
    rw [hdata, Int.min_eq_right (Int.le_of_lt h), Int.toNat_natCast,
      List.take_of_length_le (Nat.le_refl _)]
  · refine ⟨ho, Int.le_of_lt hn, Int.not_lt.mp h, ?_⟩
    rw [hdata, Int.min_eq_left (Int.not_lt.mp h), Int.toNat_add ho (Int.le_of_lt hn),
      List.drop_take, Nat.add_sub_cancel_left]

/-- Nothing or what is asked for is read. -/
theorem window_reads (f : File) (hacc : Accepted offset length)
    (hw : offset.toInt + length.toInt < 2 ^ 63) :
    (FileLogger.window f.size offset length = none ∧
      excerpt f.data offset.toInt length.toInt = .ok []) ∨
    ∃ a k, FileLogger.window f.size offset length = some (a, k) ∧ Reads f a k offset length := by
  have hsize := f.toInt_size
  have hzero : (0 : Int64).toInt = 0 := rfl
  rw [accepted_iff] at hacc
  unfold FileLogger.window
  split_ifs with h1 h2 h3 h4 h5
  · rw [Int64.lt_iff_toInt_lt, hzero] at h1
    obtain rfl : length = 0 := by
      rw [← Int64.toInt_inj, hzero]
      omega
    exact .inr ⟨_, _, rfl, reads_tail h1⟩
  all_goals rw [Int64.lt_iff_toInt_lt, hzero, Int.not_lt] at h1
  · subst h2
    rw [Int64.lt_iff_toInt_lt, hsize] at h3
    refine .inl ⟨rfl, ?_⟩
    rw [hzero, excerpt_to_end h1, List.drop_eq_nil_of_le]
    omega
  · subst h2
    rw [Int64.lt_iff_toInt_lt, hsize, Int.not_lt] at h3
    exact .inr ⟨_, _, rfl, reads_to_end h1 h3 (excerpt_to_end h1)⟩
  all_goals
    rw [← Int64.toInt_inj, hzero] at h2
    rw [Int64.le_iff_toInt_le, hsize] at h4
    have hpos : 0 < length.toInt := by omega
  · refine .inl ⟨rfl, ?_⟩
    rw [excerpt_of_pos h1 hpos, List.drop_eq_nil_of_le]
    rw [List.length_take]
    omega
  all_goals
    have hreads := reads_part h1 hpos (Int.not_le.mp h4) hw
    unfold FileLogger.capped at hreads
  · rw [if_pos h5] at hreads
    exact .inr ⟨_, _, rfl, hreads⟩
  · rw [if_neg h5] at hreads
    exact .inr ⟨_, _, rfl, hreads⟩

end File

/-- **Excerpts of files.**  `ReadLog` returns the part of the file that is asked for. -/
theorem FileLogger.readLog_excerpt (l : FileLogger) {os : Str → Except Str File} {f : File}
    (hos : os l.name = .ok f) (hstat : f.statError = none) (hread : f.readError = none)
    (hw : offset.toInt + length.toInt < 2 ^ 63) :
    (l.readLog os offset length).result = some (excerpt f.data offset.toInt length.toInt) := by
  have hzero : (0 : Int64).toInt = 0 := rfl
  rw [readLog]
  by_cases h1 : offset < 0 ∧ length ≠ 0
  · rw [if_pos h1]
    rw [Int64.lt_iff_toInt_lt, Ne, ← Int64.toInt_inj, hzero] at h1
    rw [excerpt_bad (.inl h1)]
  by_cases h2 : 0 ≤ offset ∧ length < 0
  · rw [if_neg h1, if_pos h2]
    rw [Int64.le_iff_toInt_le, Int64.lt_iff_toInt_lt, hzero] at h2
    rw [excerpt_bad (.inr h2)]
  rw [if_neg h1, if_neg h2, hos]
  dsimp only
  rw [hstat, if_neg (by decide)]
  rcases window_reads f ⟨h1, h2⟩ hw with ⟨hwin, he⟩ | ⟨a, k, hwin, hr⟩
  · rw [hwin, he]
  · rw [hwin, hr.data]
    exact File.fill_result hread hr.le_start hr.le_count hr.le_size _

/-- An inner part, the empty part at the end, the lowest offset, and a length that is negative. -/
theorem FileLogger.readLog_excerpt_hello :
    let f : File := { data := str "hello", length_lt := by decide }
    let l : FileLogger := { name := str "log", maxSize := 10, backups := 1 }
    let os : Str → Except Str File := fun _ ↦ .ok f
    (l.readLog os 1 3).result = some (.ok (str "ell")) ∧
      (l.readLog os 5 0).result = some (.ok []) ∧
      (l.readLog os Int64.minValue 0).result = some (.ok (str "hello")) ∧
      (l.readLog os 5 (-1)).result = some (.error .badArguments) := by
  intro f l os
  have hread {o n : Int64} (hw : o.toInt + n.toInt < 2 ^ 63) :
      (l.readLog os o n).result = some (excerpt f.data o.toInt n.toInt) :=
    l.readLog_excerpt (f := f) rfl rfl rfl hw
  exact ⟨hread (by decide), hread (by decide), hread (by decide), hread (by decide)⟩

/-! ## The memory logger -/

section Memory

variable {ml : MemoryLogger}

theorem toInt_length (ml : MemoryLogger) :
    (Int64.ofNat (joinLogs ml.logs).length).toInt = (joinLogs ml.logs).length :=
  Int64.toInt_ofNat_of_lt ml.length_lt

/-- Behind the text. -/
theorem MemoryLogger.readLog_beyond (hacc : Accepted offset length)
    (hle : (joinLogs ml.logs).length ≤ offset.toInt) :
    (ml.readLog offset length).result =
      some (.error (.text (str "offset out of range"))) := by
  rw [readLog, if_neg hacc.1, if_neg hacc.2]
  dsimp only
  rw [if_pos (by rwa [Int64.le_iff_toInt_le, toInt_length])]

/-- Without a length, the offset does not matter. -/
theorem MemoryLogger.readLog_whole (hacc : Accepted offset 0)
    (hlt : offset.toInt < (joinLogs ml.logs).length) :
    (ml.readLog offset 0).result = some (.ok (joinLogs ml.logs)) := by
  rw [readLog, if_neg hacc.1, if_neg hacc.2]
  dsimp only
  rw [if_neg (by rw [Int64.le_iff_toInt_le, toInt_length]; exact Int.not_le.mpr hlt),
    if_pos (by decide)]

/-- With a length, the part of the text is returned, if its end is a 64-bit integer. -/
theorem MemoryLogger.readLog_part (ho : 0 ≤ offset.toInt) (hn : 0 < length.toInt)
    (hlt : offset.toInt < (joinLogs ml.logs).length) :
    (ml.readLog offset length).result =
      if offset.toInt + length.toInt < 2 ^ 63 then
        some (excerpt (joinLogs ml.logs) offset.toInt length.toInt)
      else none := by
  have hacc : Accepted offset length := accepted_iff.mpr (by omega)
  have hzero : (0 : Int64).toInt = 0 := rfl
  have hcut := @cutEnd_spec offset length _ _ (toInt_length ml) hlt
  have hlen := toInt_length ml
  rw [readLog, if_neg hacc.1, if_neg hacc.2]
  dsimp only
  rw [if_neg (by rw [Int64.le_iff_toInt_le, hlen]; exact Int.not_le.mpr hlt),
    if_neg (by rw [Int64.le_iff_toInt_le, hzero]; exact Int.not_le.mpr hn)]
  show (slice (joinLogs ml.logs) offset.toInt (cutEnd _ offset length).toInt).map _ = _
  by_cases hw : offset.toInt + length.toInt < 2 ^ 63
  · have hend : (cutEnd (Int64.ofNat (joinLogs ml.logs).length) offset length).toInt =
        min (offset.toInt + length.toInt) (joinLogs ml.logs).length := by
      have hsum : (offset + length).toInt = offset.toInt + length.toInt :=
        toInt_add_of_lt (by omega) hw
      unfold cutEnd
      split_ifs with h
      all_goals
        rw [Int64.lt_iff_toInt_lt] at h
        omega
    rw [if_pos hw, hend, slice, if_pos (by omega), excerpt_of_pos ho hn]
    rfl
  · have hnone : slice (joinLogs ml.logs) offset.toInt
        (cutEnd (Int64.ofNat (joinLogs ml.logs).length) offset length).toInt = none := by
      rw [slice_eq_none_iff]
      omega
    rw [if_neg hw, hnone, Option.map_none]

end Memory

/-! ## Agreement -/

/-- Both of them return, and they return the same. -/
def Agree {ρ : Type} (x y : Reading ρ) : Prop := ∃ r, x.result = some r ∧ y.result = some r

theorem agree_iff_eq {ρ : Type} {x y : Reading ρ} {r s : ρ} (hx : x.result = some r)
    (hy : y.result = some s) : Agree x y ↔ r = s := by
  constructor
  · rintro ⟨t, ht, ht'⟩
    rw [hx] at ht
    rw [hy] at ht'
    exact (Option.some.inj ht).trans (Option.some.inj ht').symm
  · rintro rfl
    exact ⟨r, hx, hy⟩

/-- The errors of the file logger are faults. -/
theorem FileLogger.readLog_ne_text (l : FileLogger) (os : Str → Except Str File) (s : Str) :
    (l.readLog os offset length).result ≠ some (.error (.text s)) := by
  intro h
  rw [readLog] at h
  by_cases h1 : offset < 0 ∧ length ≠ 0
  · rw [if_pos h1] at h
    cases h
  by_cases h2 : 0 ≤ offset ∧ length < 0
  · rw [if_neg h1, if_pos h2] at h
    cases h
  rw [if_neg h1, if_neg h2] at h
  cases hos : os l.name with
  | error e =>
      rw [hos] at h
      cases h
  | ok f =>
      rw [hos] at h
      dsimp only at h
      by_cases hstat : f.statError.isSome
      · rw [if_pos hstat] at h
        cases h
      rw [if_neg hstat] at h
      cases hw : window f.size offset length with
      | none =>
          rw [hw] at h
          cases h
      | some w =>
          rw [hw] at h
          dsimp only at h
          rw [File.fill] at h
          by_cases hneg : w.2 < 0
          · rw [if_pos hneg] at h
            cases h
          · rw [if_neg hneg] at h
            cases hr : f.readAt w.2 w.1 with
            | error e =>
                rw [hr] at h
                cases h
            | ok data =>
                rw [hr] at h
                cases h

theorem drop_eq_self_iff {s : Str} {k : Nat} : s.drop k = s ↔ k = 0 ∨ s.length = 0 := by
  constructor
  · intro h
    have := congrArg List.length h
    rw [List.length_drop] at this
    omega
  · rintro (rfl | h)
    · rfl
    · rw [List.length_eq_zero_iff.mp h, List.drop_nil]

/-- A text is what is asked for without a length if the offset is its start, or is counted from
its end and not too low. -/
theorem excerpt_eq_self_iff {s : Str} {o : Int} (hlt : o < s.length) :
    excerpt s o 0 = .ok s ↔ o = 0 ∧ s ≠ [] ∨ o < 0 ∧ (s.length : Int) ≤ -o := by
  rcases Int.lt_or_le o 0 with ho | ho
  · rw [excerpt_tail ho, Except.ok.injEq, List.rtake, drop_eq_self_iff, ← List.length_pos_iff]
    omega
  · rw [excerpt_to_end ho, Except.ok.injEq, drop_eq_self_iff, ← List.length_pos_iff]
    omega

/-- **Backends.**  The memory logger gives what the file logger gives for a file with its text if
and only if a length is given and the offset is inside of the text, or everything is asked for: from
the start of a text that is not empty, or from the end at least as many bytes as there are. -/
theorem backends_agree_iff {n : Int} {ops : List MemoryOp} {ml : MemoryLogger}
    (hml : memoryHistory n ops = some ml) (l : FileLogger) {os : Str → Except Str File} {f : File}
    (hos : os l.name = .ok f) (hstat : f.statError = none) (hread : f.readError = none)
    (hdata : f.data = joinLogs ml.logs) (hacc : Accepted offset length) :
    Agree (ml.readLog offset length) (l.readLog os offset length) ↔
      0 < length.toInt ∧ offset.toInt < (memoryText n ops).length ∧
          offset.toInt + length.toInt < 2 ^ 63 ∨
        length = 0 ∧ (offset = 0 ∧ memoryText n ops ≠ [] ∨
          offset < 0 ∧ (memoryText n ops).length ≤ -offset.toInt) := by
  have hzero : (0 : Int64).toInt = 0 := rfl
  have hacc' := accepted_iff.mp hacc
  have hfile (hw : offset.toInt + length.toInt < 2 ^ 63) :
      (l.readLog os offset length).result = _ := l.readLog_excerpt hos hstat hread hw
  rw [← memoryHistory_text hml, Int64.lt_iff_toInt_lt, ← Int64.toInt_inj, ← Int64.toInt_inj, hzero]
  rw [hdata] at hfile
  rcases Int.lt_or_le offset.toInt (joinLogs ml.logs).length with hlt | hle
  · rcases Int.lt_or_le 0 length.toInt with hpos | hnpos
    · have ho : 0 ≤ offset.toInt := by omega
      have hmem := MemoryLogger.readLog_part ho hpos hlt
      by_cases hw : offset.toInt + length.toInt < 2 ^ 63
      · rw [if_pos hw] at hmem
        exact iff_of_true ⟨_, hmem, hfile hw⟩ (.inl ⟨hpos, hlt, hw⟩)
      · -- the slice of the memory logger is out of range
        rw [if_neg hw] at hmem
        refine iff_of_false ?_ ?_
        · rintro ⟨r, hr, -⟩
          rw [hmem] at hr
          cases hr
        · rintro (⟨-, -, hw'⟩ | ⟨h0, -⟩)
          · exact hw hw'
          · omega
    · have h0 : length = 0 := by
        rw [← Int64.toInt_inj, hzero]
        omega
      subst h0
      have hw : offset.toInt + (0 : Int64).toInt < 2 ^ 63 := by
        rw [hzero, Int.add_zero]
        exact offset.toInt_lt
      rw [agree_iff_eq (MemoryLogger.readLog_whole hacc hlt) (hfile hw), hzero, eq_comm,
        excerpt_eq_self_iff hlt]
      exact ((or_iff_right fun h ↦ Int.lt_irrefl 0 h.1).trans (and_iff_right rfl)).symm
  · have hmem := MemoryLogger.readLog_beyond hacc hle
    refine iff_of_false ?_ ?_
    · rintro ⟨r, hr, hr'⟩
      rw [hmem] at hr
      cases hr
      exact l.readLog_ne_text os _ hr'
    · rw [← List.length_pos_iff]
      omega

/-- With the offset of an entry, and no length, the whole text comes back. -/
theorem backends_agree_rest : ¬∀ (n : Int) (ops : List MemoryOp) (ml : MemoryLogger)
    (l : FileLogger) (os : Str → Except Str File) (f : File) (offset length : Int64),
    memoryHistory n ops = some ml → os l.name = .ok f → f.statError = none →
    f.readError = none → f.data = joinLogs ml.logs → Accepted offset length →
    Agree (ml.readLog offset length) (l.readLog os offset length) := by
  intro h
  have hrest := h 2 [.write (str "a")] _ { name := str "log", maxSize := 10, backups := 1 }
    (fun _ ↦ .ok { data := str "\na", length_lt := by decide }) _ 1 0 rfl rfl rfl rfl rfl
    ⟨by decide, by decide⟩
  obtain ⟨r, hr, hr'⟩ := hrest
  rw [← hr'] at hr
  revert hr
  decide

/-- A ring of two cells after three writes, read from inside. -/
theorem backends_agree_inner :
    let ops : List MemoryOp := [.write (str "a"), .write (str "b"), .write (str "c")]
    let l : FileLogger := { name := str "log", maxSize := 10, backups := 1 }
    let os : Str → Except Str File := fun _ ↦
      .ok { data := str "\nb\nc", length_lt := by decide }
    ∃ ml, memoryHistory 2 ops = some ml ∧
      (ml.readLog 1 2).result = some (.ok (str "b\n")) ∧
      Agree (ml.readLog 1 2) (l.readLog os 1 2) := by
  intro ops l os
  obtain ⟨ml, hml⟩ : ∃ ml, memoryHistory 2 ops = some ml := ⟨_, rfl⟩
  have hacc : Accepted 1 2 := ⟨by decide, by decide⟩
  have htext : joinLogs ml.logs = str "\nb\nc" := memoryHistory_text hml
  have hagree : Agree (ml.readLog 1 2) (l.readLog os 1 2) :=
    (backends_agree_iff hml l rfl rfl rfl htext.symm hacc).mpr
      (.inl ⟨by decide, by decide, by decide⟩)
  have hfile : (l.readLog os 1 2).result = some (.ok (str "b\n")) := by decide
  obtain ⟨r, hr, hr'⟩ := hagree
  exact ⟨ml, hml, hr.trans (hr'.symm.trans hfile), r, hr, hr'⟩

end Supervisord.Logger
