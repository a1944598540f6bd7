import Supervisord.Go.Decimal
import Supervisord.Logger.File
import Supervisord.Storage.Segments

/-!
# Rotation

What is written to a file logger is cut into segments, each of them some whole writes.  The files
are the current segment and the newest closed ones.
-/

namespace Supervisord.Logger

open Go

/-! ## Names -/

theorem backupName_injective (name : Str) : Function.Injective (backupName name) := by
  intro i j h
  exact Str.itoa_injective (List.append_cancel_left h)

theorem ne_backupName (name : Str) (i : Nat) : name ≠ backupName name i := by
  intro h
  have := congrArg List.length h
  have hdot : (str ".").length = 1 := by decide
  rw [backupName, List.length_append, List.length_append] at this
  omega

/-! ## Runs -/

/-- A file logger and the files, with what the file held whenever it was rotated, the last time
first. -/
structure Log where
  logger : FileLogger
  fs : FS
  rotated : List Str := []

namespace Log

def write (s : Log) (p : Str) : Log :=
  let (_, logger, fs) := s.logger.write s.fs p
  { logger := logger, fs := fs
    rotated := if s.logger.rotates s.fs p then
      ((s.logger.append s.fs p) s.logger.name).getD [] :: s.rotated else s.rotated }

/-- A new logger, before there are any files. -/
def start (name : Str) (maxSize backups : Int) : Log :=
  let (logger, fs) := newFileLogger name maxSize backups fun _ ↦ none
  { logger := logger, fs := fs }

def run (name : Str) (maxSize backups : Int) (ws : List Str) : Log :=
  ws.foldl write (start name maxSize backups)

/-- The contents of `name.k`, ..., `name.1` and `name`. -/
def text (s : Log) (k : Nat) : Str :=
  ((List.range k).map fun i ↦ (s.fs (backupName s.logger.name (i + 1))).getD []).reverse.flatten ++
    (s.fs s.logger.name).getD []

theorem run_concat (name : Str) (maxSize backups : Int) (ws : List Str) (p : Str) :
    run name maxSize backups (ws ++ [p]) = (run name maxSize backups ws).write p :=
  List.foldl_append

end Log

/-! ## Refinement -/

variable {name : Str} {maxSize backups : Int}

theorem size_eq (seg : List Str) : Segments.size List.length seg = seg.flatten.length :=
  List.length_flatten.symm

/-- The files hold the segments.  The counter may be stale after a rotation, but then it says that
the file is full, which makes `Write` look. -/
structure Refines (name : Str) (maxSize backups : Int) (s : Log) (g : Segments Str) : Prop where
  logger : ∃ n, s.logger = ⟨name, maxSize, backups, n, true⟩ ∧
    (n = g.current.flatten.length ∨ maxSize ≤ n)
  rotated : s.rotated = g.closed.map List.flatten
  current : s.fs name = some g.current.flatten
  holds : Files.Holds (backupName name) backups.toNat (g.closed.map List.flatten) s.fs
  other : ∀ path, path ≠ name → (∀ i, path ≠ backupName name (i + 1)) → s.fs path = none

theorem refines_start (name : Str) (maxSize backups : Int) :
    Refines name maxSize backups (Log.start name maxSize backups) {} := by
  have hself : Files.write (fun _ : Str ↦ (none : Option Str)) name [] name = some [] :=
    Files.write_self
  have hne {path : Str} (hp : path ≠ name) :
      Files.write (fun _ : Str ↦ (none : Option Str)) name [] path = none :=
    Files.write_of_ne hp
  constructor
  · exact ⟨0, rfl, .inl rfl⟩
  · rfl
  · exact hself
  · intro i
    rw [List.map_nil, List.take_nil, List.getElem?_nil]
    exact hne (ne_backupName name (i + 1)).symm
  · exact fun path hp _ ↦ hne hp

section Write

variable {n : Int} {fs : FS} {cur p : Str}

theorem append_eq (hcur : fs name = some cur) :
    FileLogger.append ⟨name, maxSize, backups, n, true⟩ fs p = fs.write name (cur ++ p) := by
  rw [FileLogger.append, hcur]

/-- When it is decided whether the file is full, the counter is the size of the file. -/
theorem grow_eq (hcur : fs name = some cur) (hn : n = cur.length ∨ maxSize ≤ n) :
    FileLogger.grow ⟨name, maxSize, backups, n, true⟩ fs p =
      .ok ⟨name, maxSize, backups, (cur ++ p).length, true⟩ := by
  rw [FileLogger.grow, append_eq hcur, FileLogger.syncSize]
  split
  · rw [Files.write_self]
  · rename_i hlt
    have hlt : ¬maxSize ≤ n + p.length := hlt
    rcases hn with rfl | hle
    · rw [List.length_append, Int.natCast_add]
    · exact absurd (Int.le_trans hle (Int.le_add_of_nonneg_right (Int.natCast_nonneg _))) hlt

theorem rotates_eq (hcur : fs name = some cur) (hn : n = cur.length ∨ maxSize ≤ n) :
    FileLogger.rotates ⟨name, maxSize, backups, n, true⟩ fs p =
      decide (maxSize ≤ (cur ++ p).length) := by
  rw [FileLogger.rotates, grow_eq hcur hn]
  rfl

theorem write_eq (hcur : fs name = some cur) (hn : n = cur.length ∨ maxSize ≤ n) :
    FileLogger.write ⟨name, maxSize, backups, n, true⟩ fs p =
      (⟨p.length, none, some p⟩,
        if maxSize ≤ (cur ++ p).length then
          FileLogger.rotate ⟨name, maxSize, backups, (cur ++ p).length, true⟩
            (fs.write name (cur ++ p))
        else (⟨name, maxSize, backups, (cur ++ p).length, true⟩, fs.write name (cur ++ p))) := by
  rw [FileLogger.write, if_pos rfl, grow_eq hcur hn, append_eq hcur]

/-- The counter is not reset. -/
theorem rotate_eq :
    FileLogger.rotate ⟨name, maxSize, backups, n, true⟩ fs =
      (⟨name, maxSize, backups, n, true⟩,
        ((Files.shift (backupName name) (backups - 1).toNat fs).rename name
          (backupName name 1)).write name []) := by
  rfl

end Write

/-- **One write.** -/
theorem Refines.write {s : Log} {g : Segments Str} (h : Refines name maxSize backups s g)
    (hb : 1 ≤ backups) (p : Str) :
    Refines name maxSize backups (s.write p) (g.push List.length maxSize.toNat p) := by
  obtain ⟨l, fs, rotated⟩ := s
  obtain ⟨⟨n, hl, hn⟩, hrot, hcur, hholds, hother⟩ := h
  dsimp only at hl hrot hcur hholds hother
  subst hl hrot
  have hflat : (g.current ++ [p]).flatten = g.current.flatten ++ p := by
    rw [List.flatten_append, List.flatten_singleton]
  have hsize : Segments.size List.length (g.current ++ [p]) = (g.current.flatten ++ p).length := by
    rw [size_eq, hflat]
  -- the files with what is appended
  have hcur' : fs.write name (g.current.flatten ++ p) name = some (g.current.flatten ++ p) :=
    Files.write_self
  have hholds' : Files.Holds (backupName name) backups.toNat (g.closed.map List.flatten)
      (fs.write name (g.current.flatten ++ p)) := by
    intro i
    rw [Files.write_of_ne (ne_backupName name (i + 1)).symm]
    exact hholds i
  have hother' (path : Str) (hp : path ≠ name) (hi : ∀ i, path ≠ backupName name (i + 1)) :
      fs.write name (g.current.flatten ++ p) path = none := by
    rw [Files.write_of_ne hp]
    exact hother path hp hi
  have hrotates : FileLogger.rotates ⟨name, maxSize, backups, n, true⟩ fs p = _ :=
    rotates_eq hcur hn
  have hwrite : FileLogger.write ⟨name, maxSize, backups, n, true⟩ fs p = _ := write_eq hcur hn
  unfold Log.write
  rw [hrotates, hwrite, append_eq hcur, hcur']
  by_cases hfull : maxSize ≤ (g.current.flatten ++ p).length
  · rw [if_pos hfull, if_pos (decide_eq_true hfull), rotate_eq,
      Segments.push_of_le (by rw [hsize]; omega)]
    have hcap : (backups - 1).toNat + 1 = backups.toNat := by omega
    rw [← hcap] at hholds'
    have hpush :=
      hholds'.push (backupName_injective name) (fun i ↦ ne_backupName name (i + 1)) hcur'
    rw [hcap] at hpush
    constructor
    · exact ⟨_, rfl, .inr hfull⟩
    · rw [List.map_cons, hflat]
      rfl
    · exact Files.write_self
    · intro i
      show Files.write _ _ _ _ = _
      rw [Files.write_of_ne (ne_backupName name (i + 1)).symm, List.map_cons, hflat]
      exact hpush i
    · intro path hp hi
      show Files.write _ _ _ _ = _
      rw [Files.write_of_ne hp, Files.rename_of_ne hp (hi 0), Files.shift_of_ne fun i _ ↦ hi i]
      exact hother' path hp hi
  · rw [if_neg hfull, if_neg (by rwa [decide_eq_true_iff]),
      Segments.push_of_lt (by rw [hsize]; omega)]
    constructor
    · exact ⟨_, rfl, .inl (by rw [hflat])⟩
    · rfl
    · exact hcur'.trans (by rw [hflat])
    · exact hholds'
    · exact hother'

/-- **Runs.**  The files hold the segments of what has been written. -/
theorem refines_run (hb : 1 ≤ backups) (ws : List Str) :
    Refines name maxSize backups (Log.run name maxSize backups ws)
      (Segments.ofItems List.length maxSize.toNat ws) := by
  induction ws using List.reverseRecOn with
  | nil => exact refines_start name maxSize backups
  | append_singleton ws p ih =>
      rw [Log.run_concat, Segments.ofItems_concat]
      exact ih.write hb p

/-! ## What is kept -/

section Kept

variable {s : Log} {g : Segments Str}

theorem Refines.backup_eq (h : Refines name maxSize backups s g) {i : Nat}
    (hi : i < g.closed.length) (hb : i < backups.toNat) :
    s.fs (backupName name (i + 1)) = some g.closed[i].flatten := by
  rw [h.holds, List.getElem?_take_of_lt hb, List.getElem?_map, List.getElem?_eq_getElem hi]
  rfl

/-- The contents of the newest files are the newest segments. -/
theorem Refines.text_eq (h : Refines name maxSize backups s g) {k : Nat}
    (hk : k ≤ min g.closed.length backups.toNat) :
    s.text k = ((g.closed.take k).reverse.flatten ++ g.current).flatten := by
  obtain ⟨n, hl, -⟩ := h.logger
  have hname : s.logger.name = name := by rw [hl]
  have hmap : (List.range k).map (fun i ↦ (s.fs (backupName name (i + 1))).getD []) =
      (g.closed.take k).map List.flatten := by
    apply List.ext_getElem
    · rw [List.length_map, List.length_map, List.length_range, List.length_take]
      omega
    · intro i hi _
      rw [List.length_map, List.length_range] at hi
      rw [List.getElem_map, List.getElem_range, List.getElem_map, List.getElem_take,
        h.backup_eq (by omega) (by omega)]
      rfl
  rw [Log.text, hname, hmap, h.current, ← List.map_reverse, ← List.flatten_flatten,
    List.flatten_append]
  rfl

/-- Apart from the current file there are the newest segments, as far as there are backups. -/
theorem Refines.isSome_iff (h : Refines name maxSize backups s g) {path : Str} (hp : path ≠ name) :
    (s.fs path).isSome ↔
      ∃ i < min g.closed.length backups.toNat, path = backupName name (i + 1) := by
  constructor
  · intro hs
    by_contra hno
    have hnone : s.fs path = none := by
      by_cases hb : ∃ i, path = backupName name (i + 1)
      · obtain ⟨i, rfl⟩ := hb
        have : ¬i < min g.closed.length backups.toNat := fun hi ↦ hno ⟨i, hi, rfl⟩
        rw [h.holds, List.getElem?_eq_none_iff, List.length_take, List.length_map]
        omega
      · exact h.other path hp fun i he ↦ hb ⟨i, he⟩
    rw [hnone] at hs
    cases hs
  · rintro ⟨i, hi, rfl⟩
    rw [h.backup_eq (by omega) (by omega)]
    rfl

end Kept

/-- **Rotation.**  After any writes to a new file logger: the current file is shorter than
`maxSize`; the other files are `name.1`, ..., `name.k`, where `k` is the number of rotations or of
backups; each of them has at least `maxSize` bytes and ends where a write ends; and the contents of
`name.k`, ..., `name.1`, `name` are all that has been written, but for what the rotations before the
last `k` have put away. -/
theorem rotation_keeps_newest (name : Str) (hm : 0 < maxSize) (hb : 1 ≤ backups)
    (ws : List Str) :
    let s := Log.run name maxSize backups ws
    let k := min s.rotated.length backups.toNat
    (∃ data, s.fs name = some data ∧ data.length < maxSize) ∧
    (∀ path, path ≠ name →
      ((s.fs path).isSome ↔ ∃ i < k, path = backupName name (i + 1))) ∧
    (∀ i < k, ∃ data, s.fs (backupName name (i + 1)) = some data ∧ maxSize ≤ data.length ∧
      ∃ m ≤ ws.length, data <:+ (ws.take m).flatten ∧ s.text i = (ws.drop m).flatten) ∧
    ws.flatten = (s.rotated.drop k).reverse.flatten ++ s.text k := by
  intro s k
  have h : Refines name maxSize backups s _ := refines_run hb ws
  have hpos : 0 < maxSize.toNat := Int.pos_iff_toNat_pos.mp hm
  have hitems := Segments.items_ofItems List.length maxSize.toNat ws
  have hge := Segments.le_size_of_closed List.length maxSize.toNat ws
  have hlt := Segments.size_current_lt List.length hpos ws
  generalize Segments.ofItems List.length maxSize.toNat ws = g at h hitems hge hlt
  have hk : k = min g.closed.length backups.toNat := by
    show min s.rotated.length _ = _
    rw [h.rotated, List.length_map]
  rw [hk]
  refine ⟨⟨_, h.current, ?_⟩, fun path hp ↦ h.isSome_iff hp, fun i hi ↦ ?_, ?_⟩
  · rw [size_eq] at hlt
    omega
  · have hi' : i < g.closed.length := by omega
    obtain ⟨m, hm, ⟨t, ht⟩, hdrop⟩ := g.exists_cut hi'
    rw [hitems] at hm ht hdrop
    refine ⟨_, h.backup_eq hi' (by omega), ?_, m, hm, ?_, ?_⟩
    · have := hge _ (List.getElem_mem hi')
      rw [size_eq] at this
      omega
    · rw [← ht, List.flatten_append]
      exact List.suffix_append _ _
    · rw [hdrop]
      exact h.text_eq (by omega)
  · rw [← hitems, g.items_eq, List.flatten_append, h.text_eq (Nat.le_refl _), h.rotated,
      ← List.map_drop, ← List.map_reverse, ← List.flatten_flatten]

/-- A write that fills the file, two that fill it together, and one more. -/
theorem rotation_keeps_newest_one :
    let ws := [str "abc", str "de", str "fgh", str "i"]
    let s := Log.run (str "log") 3 1 ws
    s.rotated = [str "defgh", str "abc"] ∧
    (∃ data, s.fs (str "log") = some data ∧ data.length < (3 : Int)) ∧
    (∀ path, path ≠ str "log" →
      ((s.fs path).isSome ↔ ∃ i < 1, path = backupName (str "log") (i + 1))) ∧
    ws.flatten = str "abc" ++ s.text 1 := by
  intro ws s
  have hrot : s.rotated = [str "defgh", str "abc"] := by decide
  obtain ⟨hcur, hfiles, -, htext⟩ :=
    rotation_keeps_newest (str "log") (by decide : (0 : Int) < 3) (by decide : (1 : Int) ≤ 1) ws
  exact ⟨hrot, hcur, hfiles, htext⟩

end Supervisord.Logger
