import Mathlib.Data.List.Induction
import Mathlib.Tactic.SplitIfs
import Supervisord.Go.Decimal
import Supervisord.Logger.Read

/-!
# What a client can ask for

Which offsets and lengths make the readers of a log panic, or ask for a buffer that is longer than
what there is to read.
-/

namespace Supervisord.Logger

open Go

/-- There is no panic, and what is read into a buffer is in the file. -/
structure Reading.Safe {ρ : Type} (x : Reading ρ) : Prop where
  result : x.result ≠ none
  made : ∀ b, x.made = some b → 0 ≤ b.offset.toInt ∧ 0 ≤ b.length.toInt ∧
    b.offset.toInt + b.length.toInt ≤ b.file.data.length

/-- The offset is inside of `n` items, and the end is beyond the 64-bit integers. -/
def Wraps (offset length : Int64) (n : Nat) : Prop :=
  0 ≤ offset.toInt ∧ offset.toInt < n ∧ 2 ^ 63 ≤ offset.toInt + length.toInt

variable {ρ : Type} {offset length : Int64}

theorem safe_of_returned {r : ρ} : Reading.Safe { result := some r } where
  result := Option.some_ne_none r
  made _ h := nomatch h

/-! ## The file logger -/

namespace File

variable (f : File)

theorem toInt_size : f.size.toInt = f.data.length := Int64.toInt_ofNat_of_lt f.length_lt

theorem fill_safe_iff {k : Except LogError Str → ρ} : (f.fill length offset k).Safe ↔
    0 ≤ offset.toInt ∧ 0 ≤ length.toInt ∧ offset.toInt + length.toInt ≤ f.data.length := by
  constructor
  · intro h
    exact h.made ⟨f, offset, length⟩ rfl
  · intro h
    refine ⟨?_, ?_⟩
    · have hneg : ¬length < 0 := by
        rw [Int64.lt_iff_toInt_lt]
        exact Int.not_lt.mpr h.2.1
      rw [fill, if_neg hneg]
      exact Option.some_ne_none _
    · rintro b hb
      cases hb
      exact h

end File

namespace FileLogger

variable {l : FileLogger} {os : Str → Except Str File}

/-- The length that is cut at the end of the file. -/
def capped (f : File) (offset length : Int64) : Int64 :=
  if f.size < offset + length then f.size - offset else length

/-- What is read up to the end of the file is in the file, where nothing wraps around. -/
theorem capped_spec {f : File} (ho : 0 ≤ offset.toInt) (hl : 0 ≤ length.toInt)
    (hlt : offset.toInt < f.size.toInt) :
    (0 ≤ offset.toInt ∧ 0 ≤ (capped f offset length).toInt ∧
      offset.toInt + (capped f offset length).toInt ≤ f.data.length) ↔
        ¬Wraps offset length f.data.length := by
  have hsize := f.toInt_size
  have hsize' := f.length_lt
  have hlen := length.toInt_lt
  have hn : (f.size - offset).toInt = f.size.toInt - offset.toInt :=
    toInt_sub_of_le ho (Int.le_of_lt hlt)
  unfold capped Wraps
  by_cases hw : offset.toInt + length.toInt < 2 ^ 63
  · have := toInt_add_of_lt (by omega) hw
    split_ifs with h
    all_goals
      rw [Int64.lt_iff_toInt_lt] at h
      omega
  · -- a sum that wraps around is not longer than the file
    have := toInt_add_of_le (Int.not_lt.mp hw)
    rw [if_neg (by rw [Int64.lt_iff_toInt_lt]; omega)]
    omega

/-- The offset that counts from the end of the file. -/
def fromEnd (f : File) (offset : Int64) : Int64 :=
  if f.size + offset < 0 then 0 else f.size + offset

theorem fromEnd_spec {f : File} (ho : offset.toInt < 0) :
    0 ≤ (fromEnd f offset).toInt ∧ 0 ≤ (f.size - fromEnd f offset).toInt ∧
      (fromEnd f offset).toInt + (f.size - fromEnd f offset).toInt ≤ f.data.length := by
  have hsize := f.toInt_size
  have hlt := f.length_lt
  have hlo := offset.le_toInt
  have hzero : (0 : Int64).toInt = 0 := rfl
  have hsum : (f.size + offset).toInt = f.size.toInt + offset.toInt :=
    toInt_add_of_lt (by omega) (by omega)
  have hpos : 0 ≤ (fromEnd f offset).toInt ∧ (fromEnd f offset).toInt ≤ f.size.toInt := by
    unfold fromEnd
    split_ifs with h
    · exact ⟨Int.le_refl 0, by omega⟩
    · rw [Int64.lt_iff_toInt_lt] at h
      omega
  have := toInt_sub_of_le hpos.1 hpos.2
  omega

/-- The part of the file that is read is in the file, where nothing wraps around. -/
theorem window_spec (f : File) (offset length : Int64)
    (hl : 0 ≤ offset.toInt → 0 ≤ length.toInt) :
    match window f.size offset length with
    | none => ¬Wraps offset length f.data.length
    | some (o, n) => (0 ≤ o.toInt ∧ 0 ≤ n.toInt ∧ o.toInt + n.toInt ≤ f.data.length) ↔
        ¬Wraps offset length f.data.length := by
  have hsize := f.toInt_size
  have hhi := offset.toInt_lt
  have hzero : (0 : Int64).toInt = 0 := rfl
  unfold window
  split_ifs with h1 h2 h3 h4 h5
  · rw [Int64.lt_iff_toInt_lt] at h1
    exact iff_of_true (fromEnd_spec h1) fun hw ↦ Int.not_lt.mpr hw.1 h1
  · rw [Int64.lt_iff_toInt_lt] at h3
    show ¬(_ ∧ _ ∧ _)
    omega
  · rw [Int64.lt_iff_toInt_lt] at h1 h3
    have hn : (f.size - offset).toInt = f.size.toInt - offset.toInt :=
      toInt_sub_of_le (by omega) (by omega)
    subst h2
    show (0 ≤ offset.toInt ∧ 0 ≤ (f.size - offset).toInt ∧ _) ↔ ¬(_ ∧ _ ∧ _)
    omega
  · rw [Int64.le_iff_toInt_le] at h4
    show ¬(_ ∧ _ ∧ _)
    omega
  all_goals
    rw [Int64.lt_iff_toInt_lt, Int.not_lt] at h1
    rw [Int64.le_iff_toInt_le, Int.not_le] at h4
    have hcap := capped_spec h1 (hl h1) h4
    unfold capped at hcap
  · rwa [if_pos h5] at hcap
  · rwa [if_neg h5] at hcap

/-- Only a file that can be opened and has a size is read. -/
theorem safe_iff_opened {r : Reading ρ} {P : File → Prop}
    (herror : ∀ e, os l.name = .error e → r.Safe)
    (hstat : ∀ f e, os l.name = .ok f → f.statError = some e → r.Safe)
    (hread : ∀ f, os l.name = .ok f → f.statError = none → (r.Safe ↔ P f)) :
    r.Safe ↔ ∀ f, os l.name = .ok f → f.statError = none → P f := by
  constructor
  · intro h f hf hn
    exact (hread f hf hn).mp h
  · intro h
    cases hos : os l.name with
    | error e => exact herror e hos
    | ok f =>
        cases hs : f.statError with
        | some e => exact hstat f e hos hs
        | none => exact (hread f hos hs).mpr (h f hos hs)

theorem readLog_safe_iff : (l.readLog os offset length).Safe ↔
    ∀ f, os l.name = .ok f → f.statError = none → ¬Wraps offset length f.data.length := by
  have hzero : (0 : Int64).toInt = 0 := rfl
  unfold readLog
  simp only [Int64.lt_iff_toInt_lt, Int64.le_iff_toInt_le, Ne, ← Int64.toInt_inj, hzero]
  split_ifs with h1 h2
  · refine iff_of_true safe_of_returned fun f _ _ hw ↦ ?_
    exact Int.not_lt.mpr hw.1 h1.1
  · refine iff_of_true safe_of_returned fun f _ _ hw ↦ ?_
    have := offset.toInt_lt
    have := hw.2.2
    omega
  · refine safe_iff_opened (fun e hos ↦ ?_) (fun f e hos hstat ↦ ?_) fun f hos hstat ↦ ?_
    all_goals
      rw [hos]
      dsimp only
    · exact safe_of_returned
    · rw [if_pos (by rw [hstat]; rfl)]
      exact safe_of_returned
    · have hspec := window_spec f offset length (by omega)
      rw [if_neg (by rw [hstat]; decide)]
      cases hw : window f.size offset length with
      | none =>
          rw [hw] at hspec
          exact iff_of_true safe_of_returned hspec
      | some w =>
          rw [hw] at hspec
          exact (File.fill_safe_iff f).trans hspec

theorem readTailLog_safe_iff : (l.readTailLog os offset length).Safe ↔
    ∀ f, os l.name = .ok f → f.statError = none → ¬Wraps offset length f.data.length := by
  have hzero : (0 : Int64).toInt = 0 := rfl
  unfold readTailLog
  split_ifs with h1 h2
  · rw [Int64.lt_iff_toInt_lt] at h1
    refine iff_of_true safe_of_returned fun f _ _ hw ↦ ?_
    exact Int.not_lt.mpr hw.1 h1
  · rw [Int64.lt_iff_toInt_lt] at h2
    refine iff_of_true safe_of_returned fun f _ _ hw ↦ ?_
    have := offset.toInt_lt
    have := hw.2.2
    omega
  · rw [Int64.lt_iff_toInt_lt, hzero, Int.not_lt] at h1 h2
    refine safe_iff_opened (fun e hos ↦ ?_) (fun f e hos hstat ↦ ?_) fun f hos hstat ↦ ?_
    all_goals
      rw [hos]
      dsimp only
    · exact safe_of_returned
    · rw [hstat]
      exact safe_of_returned
    · rw [hstat]
      dsimp only
      by_cases h3 : f.size ≤ offset
      · rw [if_pos h3]
        rw [Int64.le_iff_toInt_le, f.toInt_size] at h3
        exact iff_of_true safe_of_returned fun hw ↦ Int.not_lt.mpr h3 hw.2.1
      · rw [if_neg h3]
        rw [Int64.le_iff_toInt_le, Int.not_le] at h3
        exact (File.fill_safe_iff f).trans (capped_spec h1 h2 h3)

end FileLogger

/-! ## The memory logger -/

namespace MemoryLogger

variable {ml : MemoryLogger}

theorem safe_of_slice {α : Type} {xs : List α} {lo hi : Int} {k : List α → ρ} :
    Reading.Safe { result := (slice xs lo hi).map k } ↔ 0 ≤ lo ∧ lo ≤ hi ∧ hi ≤ xs.length := by
  have hnone : (slice xs lo hi).map k ≠ none ↔ 0 ≤ lo ∧ lo ≤ hi ∧ hi ≤ xs.length := by
    rw [Ne, Option.map_eq_none_iff, slice_eq_none_iff]
    omega
  exact ⟨fun h ↦ hnone.mp h.result, fun h ↦ ⟨hnone.mpr h, fun _ hb ↦ nomatch hb⟩⟩

/-- The end of a slice that is cut at the number of items. -/
def cutEnd (len offset length : Int64) : Int64 :=
  if len < offset + length then len else offset + length

theorem cutEnd_spec {len : Int64} {n : Nat} (hn : len.toInt = n) (hlt : offset.toInt < n) :
    (0 ≤ offset.toInt ∧ offset.toInt ≤ (cutEnd len offset length).toInt ∧
      (cutEnd len offset length).toInt ≤ n) ↔
        0 ≤ offset.toInt ∧ 0 ≤ length.toInt ∧ offset.toInt + length.toInt < 2 ^ 63 := by
  have ho := offset.toInt_lt
  have hl := length.toInt_lt
  have hl' := length.le_toInt
  unfold cutEnd
  by_cases h0 : 0 ≤ offset.toInt
  · by_cases hw : offset.toInt + length.toInt < 2 ^ 63
    · have := toInt_add_of_lt (by omega) hw
      split_ifs with h
      all_goals
        rw [Int64.lt_iff_toInt_lt] at h
        omega
    · have := toInt_add_of_le (Int.not_lt.mp hw)
      rw [if_neg (by rw [Int64.lt_iff_toInt_lt]; omega)]
      omega
  · omega

theorem readLog_safe_iff : (ml.readLog offset length).Safe ↔
    ¬Wraps offset length (joinLogs ml.logs).length := by
  have hzero : (0 : Int64).toInt = 0 := rfl
  have hlen : (Int64.ofNat (joinLogs ml.logs).length).toInt = (joinLogs ml.logs).length :=
    Int64.toInt_ofNat_of_lt ml.length_lt
  have ho := offset.toInt_lt
  unfold readLog
  dsimp only
  by_cases h1 : offset < 0 ∧ length ≠ 0
  · rw [if_pos h1]
    rw [Int64.lt_iff_toInt_lt] at h1
    exact iff_of_true safe_of_returned fun hw ↦ Int.not_lt.mpr hw.1 h1.1
  by_cases h2 : 0 ≤ offset ∧ length < 0
  · rw [if_neg h1, if_pos h2]
    rw [Int64.lt_iff_toInt_lt] at h2
    refine iff_of_true safe_of_returned fun hw ↦ ?_
    have := hw.2.2
    omega
  rw [if_neg h1, if_neg h2]
  by_cases h3 : Int64.ofNat (joinLogs ml.logs).length ≤ offset
  · rw [if_pos h3]
    rw [Int64.le_iff_toInt_le, hlen] at h3
    exact iff_of_true safe_of_returned fun hw ↦ Int.not_lt.mpr h3 hw.2.1
  rw [if_neg h3]
  rw [Int64.le_iff_toInt_le, hlen, Int.not_le] at h3
  by_cases h4 : length ≤ 0
  · rw [if_pos h4]
    rw [Int64.le_iff_toInt_le] at h4
    refine iff_of_true safe_of_returned fun hw ↦ ?_
    have := hw.2.2
    omega
  rw [if_neg h4]
  rw [Int64.le_iff_toInt_le, Int.not_le] at h4
  have h0 : 0 ≤ offset.toInt := by
    by_contra hneg
    refine h1 ⟨Int64.lt_iff_toInt_lt.mpr (Int.not_le.mp hneg), ?_⟩
    rintro rfl
    exact Int.lt_irrefl _ h4
  refine safe_of_slice.trans ((cutEnd_spec hlen h3).trans ?_)
  unfold Wraps
  omega

theorem length_le_joinLogs (logs : List (Option Str)) :
    (logs.filterMap id).length ≤ (joinLogs logs).length := by
  induction logs using List.reverseRecOn with
  | nil => exact Nat.le_refl 0
  | append_singleton logs p ih =>
      rw [joinLogs, List.foldl_append, List.filterMap_append, List.length_append]
      cases p with
      | none => exact ih
      | some p =>
          have hnl : (str "\n").length = 1 := by decide
          show _ + 1 ≤ (joinLogs logs ++ str "\n" ++ p).length
          rw [List.length_append, List.length_append, hnl]
          omega

theorem readTailLog_safe_iff : (ml.readTailLog offset length).Safe ↔
    (ml.logs.filterMap id).length ≤ offset.toInt ∨
      0 ≤ offset.toInt ∧ 0 ≤ length.toInt ∧ offset.toInt + length.toInt < 2 ^ 63 := by
  have hlt := Nat.lt_of_le_of_lt (length_le_joinLogs ml.logs) ml.length_lt
  have hlen : (Int64.ofNat (ml.logs.filterMap id).length).toInt = (ml.logs.filterMap id).length :=
    Int64.toInt_ofNat_of_lt hlt
  unfold readTailLog
  dsimp only
  by_cases h : Int64.ofNat (ml.logs.filterMap id).length ≤ offset
  · rw [if_pos h]
    rw [Int64.le_iff_toInt_le, hlen] at h
    exact iff_of_true safe_of_returned (.inl h)
  · rw [if_neg h]
    rw [Int64.le_iff_toInt_le, hlen, Int.not_le] at h
    refine safe_of_slice.trans ((cutEnd_spec hlen h).trans ?_)
    exact (or_iff_right (Int.not_le.mpr h)).symm

end MemoryLogger

/-! ## All readers -/

/-- **Reading is safe.**  A file is read safely unless the offset is in it and the end is beyond the
64-bit integers, and so is the text of the memory logger; the entries of the memory logger are
read safely when the offset is behind them, or when nothing is negative and the end is a 64-bit
integer. -/
theorem reads_safe_iff (l : FileLogger) (os : Str → Except Str File) (ml : MemoryLogger)
    (offset length : Int64) :
    ((l.readLog os offset length).Safe ↔
      ∀ f, os l.name = .ok f → f.statError = none → ¬Wraps offset length f.data.length) ∧
    ((l.readTailLog os offset length).Safe ↔
      ∀ f, os l.name = .ok f → f.statError = none → ¬Wraps offset length f.data.length) ∧
    ((ml.readLog offset length).Safe ↔ ¬Wraps offset length (joinLogs ml.logs).length) ∧
    ((ml.readTailLog offset length).Safe ↔
      (ml.logs.filterMap id).length ≤ offset.toInt ∨
        0 ≤ offset.toInt ∧ 0 ≤ length.toInt ∧ offset.toInt + length.toInt < 2 ^ 63) :=
  ⟨FileLogger.readLog_safe_iff, FileLogger.readTailLog_safe_iff, MemoryLogger.readLog_safe_iff,
    MemoryLogger.readTailLog_safe_iff⟩

/-- A negative offset is out of range of the entries, and a length that does not fit makes a buffer
that is longer than the file. -/
theorem reads_unsafe :
    let ml : MemoryLogger := ⟨[some (str "a")], by decide⟩
    let l : FileLogger := { name := str "log", maxSize := 10, backups := 1 }
    let os : Str → Except Str File := fun _ ↦ .ok { data := str "ab", length_lt := by decide }
    (ml.readTailLog (-1) 0).result.isNone ∧
      (ml.readLog 1 9223372036854775807).result.isNone ∧
      (l.readLog os 1 9223372036854775807).made.any
        (fun b ↦ (b.file.data.length : Int) < b.length.toInt) := by
  decide

end Supervisord.Logger
