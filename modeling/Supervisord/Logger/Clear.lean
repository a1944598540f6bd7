import Supervisord.Logger.Rotate

/-!
# Clearing

`ClearAllLogFile` removes the files `name.1`, ..., as many of them as there are backups, and empties
the current file.  A rotation makes `name.1` even where there are no backups, and that file is never
removed.
-/

namespace Supervisord.Logger

open Go

namespace FileLogger

variable (l : FileLogger) (fs : FS)

/-- `ClearCurLogFile`. -/
def clearCurLogFile : FileLogger × FS := l.openFile fs true

/-- The loop of `ClearAllLogFile`, which ends at the first file that cannot be removed. -/
def removeBackups (name : Str) (removeError : Str → Option Str) : Nat → FS → Option Str × FS
  | 0, fs => (none, fs)
  | i + 1, fs =>
    let logFile := backupName name (i + 1)
    if (fs logFile).isSome then
      match removeError logFile with
      | some err => (some err, fs)
      | none => removeBackups name removeError i (fs.remove logFile)
    else removeBackups name removeError i fs

/-- `ClearAllLogFile`, with the errors of `os.Remove`. -/
def clearAllLogFile (removeError : Str → Option Str) : Option Str × FileLogger × FS :=
  match removeBackups l.name removeError l.backups.toNat fs with
  | (some err, fs) => (some err, l, fs)
  | (none, fs) => (none, l.openFile fs true)

end FileLogger

/-! ## Histories -/

/-- What is done with a file logger. -/
inductive LogOp where
  | write (p : Str)
  | clearCurLogFile
  | clearAllLogFile (removeError : Str → Option Str)

/-- The logger and the files after it. -/
def LogOp.apply (s : FileLogger × FS) : LogOp → FileLogger × FS
  | write p => (s.1.write s.2 p).2
  | clearCurLogFile => s.1.clearCurLogFile s.2
  | clearAllLogFile removeError => (s.1.clearAllLogFile s.2 removeError).2

/-- What is done with a new logger, before there are any files. -/
def history (name : Str) (maxSize backups : Int) (ops : List LogOp) : FileLogger × FS :=
  ops.foldl LogOp.apply (newFileLogger name maxSize backups fun _ ↦ none)

/-- One of the writes has rotated the files. -/
def Rotated (name : Str) (maxSize backups : Int) (ops : List LogOp) : Prop :=
  ∃ pre p post, ops = pre ++ .write p :: post ∧
    (history name maxSize backups pre).1.rotates (history name maxSize backups pre).2 p = true

/-- There is nothing in the current file and in the files `name.k`. -/
def Cleared (name : Str) (fs : FS) : Prop :=
  (fs name).getD [] = [] ∧ ∀ k, (fs (backupName name k)).getD [] = []

theorem history_concat (name : Str) (maxSize backups : Int) (ops : List LogOp) (op : LogOp) :
    history name maxSize backups (ops ++ [op]) = op.apply (history name maxSize backups ops) :=
  List.foldl_append

theorem rotated_concat {name : Str} {maxSize backups : Int} {ops : List LogOp} {op : LogOp} :
    Rotated name maxSize backups (ops ++ [op]) ↔ Rotated name maxSize backups ops ∨
      ∃ p, op = .write p ∧ (history name maxSize backups ops).1.rotates
        (history name maxSize backups ops).2 p = true := by
  constructor
  · rintro ⟨pre, p, post, he, hr⟩
    induction post using List.reverseRecOn with
    | nil =>
        obtain ⟨rfl, hop⟩ := List.append_inj' he rfl
        cases hop
        exact .inr ⟨p, rfl, hr⟩
    | append_singleton post op' _ =>
        rw [← List.cons_append, ← List.append_assoc] at he
        obtain ⟨rfl, -⟩ := List.append_inj' he rfl
        exact .inl ⟨pre, p, post, rfl, hr⟩
  · rintro (⟨pre, p, post, rfl, hr⟩ | ⟨p, rfl, hr⟩)
    · exact ⟨pre, p, post ++ [op], List.append_assoc _ _ _, hr⟩
    · exact ⟨ops, p, [], rfl, hr⟩

/-! ## Files -/

/-- The other files are some of those that a rotation makes. -/
structure Kept (name : Str) (maxSize backups : Int) (s : FileLogger × FS) : Prop where
  logger : ∃ n, s.1 = ⟨name, maxSize, backups, n, true⟩
  current : ∃ cur, s.2 name = some cur
  other : ∀ path, path ≠ name → (∀ i ≤ (backups - 1).toNat, path ≠ backupName name (i + 1)) →
    s.2 path = none

section Step

variable {name : Str} {maxSize backups n : Int} {fs fs' : FS} {p cur path : Str}
  {removeError : Str → Option Str} {k : Nat}

theorem kept_start : Kept name maxSize backups
    (newFileLogger name maxSize backups fun _ ↦ none) where
  logger := ⟨0, rfl⟩
  current := by
    have hself : Files.write (fun _ : Str ↦ (none : Option Str)) name [] name = some [] :=
      Files.write_self
    exact ⟨[], hself⟩
  other path hp _ := by
    have hne : Files.write (fun _ : Str ↦ (none : Option Str)) name [] path = none :=
      Files.write_of_ne hp
    exact hne

/-- A write appends to the current file; where it rotates, that is at least `maxSize` bytes long. -/
theorem write_cases (maxSize backups n : Int) (p : Str) (hcur : fs name = some cur) :
    FileLogger.rotates ⟨name, maxSize, backups, n, true⟩ fs p = false ∧
      (∃ n', (FileLogger.write ⟨name, maxSize, backups, n, true⟩ fs p).2 =
        (⟨name, maxSize, backups, n', true⟩, fs.write name (cur ++ p))) ∨
    FileLogger.rotates ⟨name, maxSize, backups, n, true⟩ fs p = true ∧
      maxSize ≤ (cur ++ p).length ∧
      (∃ n', (FileLogger.write ⟨name, maxSize, backups, n, true⟩ fs p).2 =
        (⟨name, maxSize, backups, n', true⟩,
          ((Files.shift (backupName name) (backups - 1).toNat (fs.write name (cur ++ p))).rename
            name (backupName name 1)).write name [])) := by
  have hgrow : ∃ n', FileLogger.grow ⟨name, maxSize, backups, n, true⟩ fs p =
      .ok ⟨name, maxSize, backups, n', true⟩ ∧ (maxSize ≤ n' → maxSize ≤ (cur ++ p).length) := by
    rw [FileLogger.grow, append_eq hcur, FileLogger.syncSize]
    split
    · rw [Files.write_self]
      exact ⟨_, rfl, id⟩
    · rename_i hlt
      exact ⟨_, rfl, fun hle ↦ absurd hle hlt⟩
  obtain ⟨n', hgrow, hle⟩ := hgrow
  rw [FileLogger.rotates, FileLogger.write, if_pos rfl, hgrow, append_eq hcur]
  by_cases hfull : maxSize ≤ n'
  · refine .inr ⟨decide_eq_true hfull, hle hfull, n', ?_⟩
    exact (if_pos hfull).trans rotate_eq
  · refine .inl ⟨decide_eq_false hfull, n', ?_⟩
    exact if_neg hfull

/-- Files are only removed. -/
theorem removeBackups_or (name : Str) (removeError : Str → Option Str) (k : Nat) (fs : FS)
    (path : Str) :
    (FileLogger.removeBackups name removeError k fs).2 path = fs path ∨
      (FileLogger.removeBackups name removeError k fs).2 path = none := by
  induction k generalizing fs with
  | zero => exact .inl rfl
  | succ k ih =>
      rw [FileLogger.removeBackups]
      split
      · cases removeError (backupName name (k + 1)) with
        | some err => exact .inl rfl
        | none =>
            rcases ih (fs.remove (backupName name (k + 1))) with h | h
            · by_cases hp : path = backupName name (k + 1)
              · subst hp
                exact .inr (h.trans Files.remove_self)
              · exact .inl (h.trans (Files.remove_of_ne hp))
            · exact .inr h
      · exact ih fs

theorem removeBackups_of_none (hp : fs path = none) :
    (FileLogger.removeBackups name removeError k fs).2 path = none :=
  (removeBackups_or name removeError k fs path).elim (·.trans hp) id

theorem removeBackups_of_ne (h : ∀ i < k, path ≠ backupName name (i + 1)) :
    (FileLogger.removeBackups name removeError k fs).2 path = fs path := by
  induction k generalizing fs with
  | zero => rfl
  | succ k ih =>
      have hk := fun i hi ↦ h i (Nat.lt_succ_of_lt hi)
      rw [FileLogger.removeBackups]
      split
      · cases removeError (backupName name (k + 1)) with
        | some err => rfl
        | none => exact (ih hk).trans (Files.remove_of_ne (h k (Nat.lt_succ_self k)))
      · exact ih hk

/-- A round that does not fail leaves no file of its number. -/
theorem removeBackups_succ
    (hok : (FileLogger.removeBackups name removeError (k + 1) fs).1 = none) :
    FileLogger.removeBackups name removeError (k + 1) fs =
      FileLogger.removeBackups name removeError k (fs.remove (backupName name (k + 1))) := by
  rw [FileLogger.removeBackups] at hok ⊢
  by_cases hs : (fs (backupName name (k + 1))).isSome
  · rw [if_pos hs] at hok ⊢
    cases hr : removeError (backupName name (k + 1)) with
    | some err =>
        rw [hr] at hok
        cases hok
    | none => rfl
  · rw [if_neg hs, Files.remove_of_none (Option.not_isSome_iff_eq_none.mp hs)]

/-- Where nothing fails, all of them are removed. -/
theorem removeBackups_self (hok : (FileLogger.removeBackups name removeError k fs).1 = none)
    {i : Nat} (hi : i < k) :
    (FileLogger.removeBackups name removeError k fs).2 (backupName name (i + 1)) = none := by
  induction k generalizing fs with
  | zero => exact absurd hi (Nat.not_lt_zero i)
  | succ k ih =>
      have hround := removeBackups_succ hok
      rw [hround] at hok ⊢
      rcases Nat.lt_succ_iff_lt_or_eq.mp hi with hi | rfl
      · exact ih hok hi
      · rw [removeBackups_of_ne, Files.remove_self]
        intro j hj he
        have := backupName_injective name he
        omega

theorem Kept.write {s : FileLogger × FS} (h : Kept name maxSize backups s) (p : Str) :
    Kept name maxSize backups (LogOp.apply s (.write p)) := by
  obtain ⟨l, fs⟩ := s
  obtain ⟨⟨n, hl⟩, ⟨cur, hcur⟩, hother⟩ := h
  dsimp only at hl hcur hother
  subst hl
  show Kept name maxSize backups (FileLogger.write _ fs p).2
  have hother' (path : Str) (hp : path ≠ name)
      (hi : ∀ i ≤ (backups - 1).toNat, path ≠ backupName name (i + 1)) :
      fs.write name (cur ++ p) path = none :=
    (Files.write_of_ne hp).trans (hother path hp hi)
  rcases write_cases maxSize backups n p hcur with ⟨-, n', hw⟩ | ⟨-, -, n', hw⟩
  · rw [hw]
    exact ⟨⟨n', rfl⟩, ⟨_, Files.write_self⟩, hother'⟩
  · rw [hw]
    refine ⟨⟨n', rfl⟩, ⟨_, Files.write_self⟩, fun path hp hi ↦ ?_⟩
    show Files.write _ _ _ _ = _
    rw [Files.write_of_ne hp, Files.rename_of_ne hp (hi 0 (Nat.zero_le _)), Files.shift_of_ne hi]
    exact hother' path hp hi

theorem clearAllLogFile_cases (l : FileLogger) (fs : FS) (removeError : Str → Option Str) :
    (∃ err, l.clearAllLogFile fs removeError =
      (some err, l, (FileLogger.removeBackups l.name removeError l.backups.toNat fs).2)) ∨
    (FileLogger.removeBackups l.name removeError l.backups.toNat fs).1 = none ∧
      l.clearAllLogFile fs removeError = (none, { l with file := true },
        (FileLogger.removeBackups l.name removeError l.backups.toNat fs).2.write l.name []) := by
  rw [FileLogger.clearAllLogFile]
  rcases FileLogger.removeBackups l.name removeError l.backups.toNat fs with ⟨_ | err, fs'⟩
  · exact .inr ⟨rfl, rfl⟩
  · exact .inl ⟨err, rfl⟩

theorem Kept.clearAll {s : FileLogger × FS} (h : Kept name maxSize backups s)
    (removeError : Str → Option Str) :
    Kept name maxSize backups (LogOp.apply s (.clearAllLogFile removeError)) := by
  obtain ⟨l, fs⟩ := s
  obtain ⟨⟨n, hl⟩, ⟨cur, hcur⟩, hother⟩ := h
  dsimp only at hl hcur hother
  subst hl
  have hother' (path : Str) (hp : path ≠ name)
      (hi : ∀ i ≤ (backups - 1).toNat, path ≠ backupName name (i + 1)) :
      (FileLogger.removeBackups name removeError backups.toNat fs).2 path = none :=
    removeBackups_of_none (hother path hp hi)
  show Kept name maxSize backups (FileLogger.clearAllLogFile _ fs removeError).2
  rcases clearAllLogFile_cases ⟨name, maxSize, backups, n, true⟩ fs removeError with
    ⟨err, he⟩ | ⟨-, he⟩
  · rw [he]
    refine ⟨⟨n, rfl⟩, ⟨cur, ?_⟩, hother'⟩
    exact (removeBackups_of_ne fun i _ ↦ ne_backupName name (i + 1)).trans hcur
  · rw [he]
    refine ⟨⟨n, rfl⟩, ⟨[], Files.write_self⟩, fun path hp hi ↦ ?_⟩
    exact (Files.write_of_ne hp).trans (hother' path hp hi)

theorem Kept.apply {s : FileLogger × FS} (h : Kept name maxSize backups s) (op : LogOp) :
    Kept name maxSize backups (op.apply s) := by
  cases op with
  | write p => exact h.write p
  | clearAllLogFile removeError => exact h.clearAll removeError
  | clearCurLogFile =>
      obtain ⟨l, fs⟩ := s
      obtain ⟨⟨n, hl⟩, -, hother⟩ := h
      dsimp only at hl hother
      subst hl
      refine ⟨⟨n, rfl⟩, ⟨[], Files.write_self⟩, fun path hp hi ↦ ?_⟩
      exact (Files.write_of_ne hp).trans (hother path hp hi)

theorem kept_history (name : Str) (maxSize backups : Int) (ops : List LogOp) :
    Kept name maxSize backups (history name maxSize backups ops) := by
  induction ops using List.reverseRecOn with
  | nil => exact kept_start
  | append_singleton ops op ih =>
      rw [history_concat]
      exact ih.apply op

/-- Without a rotation, nothing is added to the other files; and they stay as they are where there
are no backups. -/
theorem Kept.unrotated {s : FileLogger × FS} (h : Kept name maxSize backups s) {op : LogOp}
    (hop : ∀ p, op = .write p → s.1.rotates s.2 p = false) (hp : path ≠ name) :
    ((op.apply s).2 path = s.2 path ∨ (op.apply s).2 path = none) ∧
      (backups ≤ 0 → (op.apply s).2 path = s.2 path) := by
  obtain ⟨l, fs⟩ := s
  obtain ⟨⟨n, hl⟩, ⟨cur, hcur⟩, -⟩ := h
  dsimp only at hl hcur
  subst hl
  have hwrite (fs : FS) (d : Str) : fs.write name d path = fs path := Files.write_of_ne hp
  cases op with
  | write p =>
      have hno : FileLogger.rotates ⟨name, maxSize, backups, n, true⟩ fs p = false := hop p rfl
      rcases write_cases maxSize backups n p hcur with ⟨-, n', hw⟩ | ⟨hyes, -⟩
      · have hall : (LogOp.apply (⟨name, maxSize, backups, n, true⟩, fs) (.write p)).2 path =
            fs path := by
          show (FileLogger.write _ fs p).2.2 path = _
          rw [hw]
          exact hwrite fs _
        exact ⟨.inl hall, fun _ ↦ hall⟩
      · rw [hyes] at hno
        cases hno
  | clearCurLogFile => exact ⟨.inl (hwrite fs []), fun _ ↦ hwrite fs []⟩
  | clearAllLogFile removeError =>
      have hall : (LogOp.apply (⟨name, maxSize, backups, n, true⟩, fs)
          (.clearAllLogFile removeError)).2 path =
            (FileLogger.removeBackups name removeError backups.toNat fs).2 path := by
        show (FileLogger.clearAllLogFile _ fs removeError).2.2 path = _
        rcases clearAllLogFile_cases ⟨name, maxSize, backups, n, true⟩ fs removeError with
          ⟨err, he⟩ | ⟨-, he⟩
        · rw [he]
        · rw [he]
          exact hwrite _ []
      rw [hall]
      refine ⟨removeBackups_or name removeError _ fs path, fun hb ↦ ?_⟩
      rw [Int.toNat_of_nonpos hb]
      rfl

/-- A rotation leaves what it has put away. -/
theorem Kept.rotated {s : FileLogger × FS} (h : Kept name maxSize backups s) (hm : 0 < maxSize)
    (hr : s.1.rotates s.2 p = true) :
    ∃ d, d ≠ [] ∧ (LogOp.apply s (.write p)).2 (backupName name 1) = some d := by
  obtain ⟨l, fs⟩ := s
  obtain ⟨⟨n, hl⟩, ⟨cur, hcur⟩, -⟩ := h
  dsimp only at hl hcur
  subst hl
  have hr : FileLogger.rotates ⟨name, maxSize, backups, n, true⟩ fs p = true := hr
  rcases write_cases maxSize backups n p hcur with ⟨hno, -⟩ | ⟨-, hle, n', hw⟩
  · rw [hno] at hr
    cases hr
  · refine ⟨cur ++ p, ?_, ?_⟩
    · intro he
      rw [he, List.length_nil] at hle
      exact absurd hm (Int.not_lt.mpr hle)
    · show (FileLogger.write _ fs p).2.2 _ = _
      have hself : Files.shift (backupName name) (backups - 1).toNat
          (fs.write name (cur ++ p)) name = some (cur ++ p) := by
        rw [Files.shift_of_ne fun i _ ↦ ne_backupName name (i + 1), Files.write_self]
      rw [hw]
      show Files.write _ _ _ _ = _
      rw [Files.write_of_ne (ne_backupName name 1).symm, Files.rename_of_some hself, if_pos rfl]

/-- There are other files only after a rotation, and without backups one of them stays. -/
theorem history_others (name : Str) (backups : Int) (hm : 0 < maxSize) (ops : List LogOp) :
    (¬Rotated name maxSize backups ops →
      ∀ path ≠ name, (history name maxSize backups ops).2 path = none) ∧
    (backups ≤ 0 → Rotated name maxSize backups ops →
      ∃ d, d ≠ [] ∧ (history name maxSize backups ops).2 (backupName name 1) = some d) := by
  induction ops using List.reverseRecOn with
  | nil =>
      constructor
      · intro _ path hp
        have hne : Files.write (fun _ : Str ↦ (none : Option Str)) name [] path = none :=
          Files.write_of_ne hp
        exact hne
      · rintro - ⟨pre, p, post, he, -⟩
        simp at he
  | append_singleton ops op ih =>
      have hk := kept_history name maxSize backups ops
      rw [history_concat, rotated_concat]
      constructor
      · intro hno path hp
        rw [not_or] at hno
        have hop : ∀ p, op = .write p → (history name maxSize backups ops).1.rotates
            (history name maxSize backups ops).2 p = false := by
          intro p he
          exact Bool.eq_false_iff.mpr fun hr ↦ hno.2 ⟨p, he, hr⟩
        rcases (hk.unrotated hop hp).1 with h | h
        · exact h.trans (ih.1 hno.1 path hp)
        · exact h
      · intro hb hr
        by_cases hlast : ∃ p, op = .write p ∧ (history name maxSize backups ops).1.rotates
            (history name maxSize backups ops).2 p = true
        · obtain ⟨p, rfl, hlast⟩ := hlast
          exact hk.rotated hm hlast
        · obtain ⟨d, hd, he⟩ := ih.2 hb (hr.resolve_right hlast)
          refine ⟨d, hd, ((hk.unrotated ?_ (ne_backupName name 1).symm).2 hb).trans he⟩
          intro p hp
          exact Bool.eq_false_iff.mpr fun hr ↦ hlast ⟨p, hp, hr⟩

end Step

/-- **Clearing.**  A `ClearAllLogFile` that succeeds leaves nothing in the files of the logger if
and only if there are backups or the files have never been rotated. -/
theorem clearAll_clears_iff (name : Str) {maxSize backups : Int} (hm : 0 < maxSize)
    (ops : List LogOp) (removeError : Str → Option Str) {l : FileLogger} {fs : FS}
    (hok : (history name maxSize backups ops).1.clearAllLogFile
      (history name maxSize backups ops).2 removeError = (none, l, fs)) :
    Cleared name fs ↔ 1 ≤ backups ∨ ¬Rotated name maxSize backups ops := by
  obtain ⟨hnone, hrotated⟩ := history_others name backups hm ops
  obtain ⟨⟨n, hl⟩, -, hother⟩ := kept_history name maxSize backups ops
  generalize (history name maxSize backups ops).2 = fs₀ at hok hnone hrotated hother
  rw [hl] at hok
  rcases clearAllLogFile_cases ⟨name, maxSize, backups, n, true⟩ fs₀ removeError with
    ⟨err, he⟩ | ⟨hremoved, he⟩
  · rw [he] at hok
    cases hok
  rw [he] at hok
  cases hok
  have hcur : Files.write (FileLogger.removeBackups name removeError backups.toNat fs₀).2 name []
      name = some [] := Files.write_self
  have hfile (k : Nat) : Files.write (FileLogger.removeBackups name removeError backups.toNat
      fs₀).2 name [] (backupName name k) =
        (FileLogger.removeBackups name removeError backups.toNat fs₀).2 (backupName name k) :=
    Files.write_of_ne (ne_backupName name k).symm
  constructor
  · rintro ⟨-, hall⟩
    by_contra hno
    rw [not_or, not_not, Int.not_le] at hno
    have hb : backups ≤ 0 := Int.lt_add_one_iff.mp hno.1
    obtain ⟨d, hd, he⟩ := hrotated hb hno.2
    have hd' := hall 1
    rw [hfile, Int.toNat_of_nonpos hb] at hd'
    exact hd ((congrArg (·.getD []) he).symm.trans hd')
  · intro hor
    refine ⟨congrArg (·.getD []) hcur, fun k ↦ ?_⟩
    have hgone : (FileLogger.removeBackups name removeError backups.toNat fs₀).2
        (backupName name k) = none := by
      rcases hor with hb | hr
      · by_cases hk : 1 ≤ k ∧ k ≤ backups.toNat
        · obtain ⟨i, rfl⟩ := Nat.exists_eq_add_of_le' hk.1
          exact removeBackups_self hremoved hk.2
        · refine removeBackups_of_none (hother _ (ne_backupName name k).symm fun i hi he ↦ ?_)
          have := backupName_injective name he
          omega
      · exact removeBackups_of_none (hnone hr _ (ne_backupName name k).symm)
    rw [hfile, hgone]
    rfl

/-- What has been written stays when there are no backups. -/
theorem clearAll_clears_rotated : ¬∀ (name : Str) (maxSize backups : Int) (ops : List LogOp)
    (removeError : Str → Option Str) (l : FileLogger) (fs : FS), 0 < maxSize → 0 ≤ backups →
    (history name maxSize backups ops).1.clearAllLogFile
      (history name maxSize backups ops).2 removeError = (none, l, fs) →
    Cleared name fs := by
  intro h
  have hall := (h (str "log") 3 0 [.write (str "abc")] (fun _ ↦ none) _ _ (by decide) (by decide)
    rfl).2 1
  revert hall
  decide

/-- With one backup, two rotations and a write after them. -/
theorem clearAll_clears_one :
    let ops := [.write (str "abc"), .clearCurLogFile, .write (str "defg"), .write (str "h")]
    let s := history (str "log") 3 1 ops
    s.2 (backupName (str "log") 1) = some (str "defg") ∧ s.2 (str "log") = some (str "h") ∧
      Cleared (str "log") (s.1.clearAllLogFile s.2 fun _ ↦ none).2.2 := by
  intro ops s
  have hb : (1 : Int) ≤ 1 := by decide
  have hok : s.1.clearAllLogFile s.2 (fun _ ↦ none) =
      (none, (s.1.clearAllLogFile s.2 fun _ ↦ none).2) := by rfl
  exact ⟨by decide, by decide,
    (clearAll_clears_iff (str "log") (by decide) ops (fun _ ↦ none) hok).mpr (.inl hb)⟩

end Supervisord.Logger
