import Mathlib.Data.UInt
import Supervisord.Config.Entry
import Supervisord.Machine.Streak

/-!
# Liveness checks

A `LivenessChecker` counts the results of its script in two counters that stop at their thresholds
and set each other back, and calls one of its callbacks when a counter comes to its threshold.  For
checks done one after another, the callbacks are called at the ends of streaks of results
(`check_actions`).
-/

namespace Supervisord.Process

open Go

/-- What the script of a check returns. -/
inductive CheckResult where
  | success
  | failure
deriving DecidableEq

/-- A call of one of the two callbacks, with the action it is given. -/
inductive CheckCallback where
  | success (successAction : Str)
  | failure (failureAction : Str)
deriving DecidableEq

structure LivenessChecker where
  successThreshold : UInt32
  failureThreshold : UInt32
  successAction : Str
  failureAction : Str
  successes : UInt32 := 0
  failures : UInt32 := 0

/-- `NewLivenessChecker`, with the actions its entry gives. -/
def newLivenessChecker (config : Entry) (successAction failureAction : Str) : LivenessChecker where
  successThreshold := .ofInt (config.getInt (str "liveness_check_success_threshold") 1)
  failureThreshold := .ofInt (config.getInt (str "liveness_check_failure_threshold") 3)
  successAction := successAction
  failureAction := failureAction

namespace LivenessChecker

variable (l : LivenessChecker)

def addSuccess : LivenessChecker :=
  { l with
    successes := if l.successes < l.successThreshold then l.successes + 1 else l.successes
    failures := 0 }

def addFailure : LivenessChecker :=
  { l with
    failures := if l.failures < l.failureThreshold then l.failures + 1 else l.failures
    successes := 0 }

def isFailed : Bool := l.failures ≥ l.failureThreshold

def isSuccess : Bool := l.successes ≥ l.successThreshold

def reset : LivenessChecker := { l with successes := 0, failures := 0 }

def add : CheckResult → LivenessChecker
  | .success => l.addSuccess
  | .failure => l.addFailure

/-- `DoLivenessCheck` once the script has returned, and the callbacks it calls. -/
def doLivenessCheck (result : CheckResult) : LivenessChecker × List CheckCallback :=
  let l' := l.add result
  let succeeded := if !l.isSuccess && l'.isSuccess then [.success l.successAction] else []
  if !l.isFailed && l'.isFailed then (l'.reset, succeeded ++ [.failure l.failureAction])
  else (l', succeeded)

/-! ## Checks done one after another -/

variable (results : Nat → CheckResult) (i : Nat)

/-- The checker when `i` checks have been done. -/
def after : Nat → LivenessChecker
  | 0 => l
  | i + 1 => ((after i).doLivenessCheck (results i)).1

/-- The callbacks of the check `i`. -/
def callbacks : List CheckCallback := ((l.after results i).doLivenessCheck (results i)).2

/-- The failure action runs at the check `i`. -/
def FailureActionAt : Prop := .failure l.failureAction ∈ l.callbacks results i

/-- The success action runs at the check `i`. -/
def SuccessActionAt : Prop := .success l.successAction ∈ l.callbacks results i

instance : DecidablePred (l.FailureActionAt results) :=
  fun i ↦ inferInstanceAs (Decidable (_ ∈ l.callbacks results i))

/-! ## One check -/

variable {l : LivenessChecker} {results : Nat → CheckResult} {i j : Nat}

theorem toNat_succ_of_lt {a b : UInt32} (h : a < b) : (a + 1).toNat = a.toNat + 1 := by
  have ha := UInt32.lt_iff_toNat_lt.mp h
  have hb := b.toNat_lt
  rw [UInt32.toNat_add]
  exact Nat.mod_eq_of_lt (by simp only [UInt32.toNat_one]; omega)

/-- A success is the end of the failures. -/
theorem doLivenessCheck_success (hf : 0 < l.failureThreshold) :
    l.doLivenessCheck .success = (l.addSuccess,
      if l.successes.toNat + 1 = l.successThreshold.toNat then [.success l.successAction]
      else []) := by
  have hfailed : l.addSuccess.isFailed = false := by
    simpa [isFailed, addSuccess] using (UInt32.ne_of_lt hf).symm
  have hsuccess : (!l.isSuccess && l.addSuccess.isSuccess) =
      decide (l.successes.toNat + 1 = l.successThreshold.toNat) := by
    by_cases hlt : l.successes < l.successThreshold
    · have hn := UInt32.lt_iff_toNat_lt.mp hlt
      have hadd := toNat_succ_of_lt hlt
      simp only [isSuccess, addSuccess, if_pos hlt, ge_iff_le, UInt32.le_iff_toNat_le, hadd]
      rw [decide_eq_false (by omega), Bool.not_false, Bool.true_and]
      exact decide_eq_decide.mpr (by omega)
    · have hn := mt UInt32.lt_iff_toNat_lt.mpr hlt
      simp only [isSuccess, addSuccess, if_neg hlt, ge_iff_le, UInt32.le_iff_toNat_le]
      rw [decide_eq_true (by omega), Bool.not_true, Bool.false_and]
      exact (decide_eq_false (by omega)).symm
  simp [doLivenessCheck, add, hfailed, hsuccess]

/-- A failure is the end of the successes, and the last of the failures that are too many is the
end of the failures. -/
theorem doLivenessCheck_failure (hs : 0 < l.successThreshold)
    (hf : l.failures < l.failureThreshold) :
    l.doLivenessCheck .failure =
      if l.failures.toNat + 1 = l.failureThreshold.toNat then
        (l.addFailure.reset, [.failure l.failureAction])
      else (l.addFailure, []) := by
  have hsuccess : l.addFailure.isSuccess = false := by
    simpa [isSuccess, addFailure] using (UInt32.ne_of_lt hs).symm
  have hn := UInt32.lt_iff_toNat_lt.mp hf
  have hadd := toNat_succ_of_lt hf
  have hfailed : (!l.isFailed && l.addFailure.isFailed) =
      decide (l.failures.toNat + 1 = l.failureThreshold.toNat) := by
    simp only [isFailed, addFailure, if_pos hf, ge_iff_le, UInt32.le_iff_toNat_le, hadd]
    rw [decide_eq_false (by omega), Bool.not_false, Bool.true_and]
    exact decide_eq_decide.mpr (by omega)
  simp [doLivenessCheck, add, hfailed, hsuccess]

/-! ## Streaks of results -/

/-- The failures in a row since the last failure action when `i` checks have been done. -/
def failuresInRow (l : LivenessChecker) (results : Nat → CheckResult) (i : Nat) : Nat :=
  Streak.length (results · = .failure) (l.FailureActionAt results) i

/-- The successes in a row when `i` checks have been done. -/
def successesInRow (l : LivenessChecker) (results : Nat → CheckResult) (i : Nat) : Nat :=
  Streak.length (results · = .success) (l.FailureActionAt results) i

/-- The checker `l'` is `l` after `i` checks. -/
structure Counts (l : LivenessChecker) (results : Nat → CheckResult) (i : Nat)
    (l' : LivenessChecker) : Prop where
  successThreshold : l'.successThreshold = l.successThreshold
  failureThreshold : l'.failureThreshold = l.failureThreshold
  successAction : l'.successAction = l.successAction
  failureAction : l'.failureAction = l.failureAction
  successes : l'.successes.toNat = min l.successThreshold.toNat (l.successesInRow results i)
  failures : l'.failures.toNat = l.failuresInRow results i
  lt : l'.failures < l'.failureThreshold

section Run

variable (hs : 0 < l.successThreshold) (hf : 0 < l.failureThreshold)

include hs hf

theorem Counts.failureActionAt_iff (h : l.Counts results i (l.after results i)) :
    l.FailureActionAt results i ↔
      results i = .failure ∧ l.failuresInRow results i + 1 = l.failureThreshold.toNat := by
  rw [FailureActionAt, callbacks, ← h.failures, ← h.failureThreshold, ← h.failureAction]
  cases hr : results i with
  | success =>
      rw [doLivenessCheck_success (h.failureThreshold ▸ hf)]
      split <;> simp
  | failure =>
      rw [doLivenessCheck_failure (h.successThreshold ▸ hs) h.lt]
      split <;> simp [*]

theorem Counts.successActionAt_iff (h : l.Counts results i (l.after results i)) :
    l.SuccessActionAt results i ↔
      results i = .success ∧ l.successesInRow results i + 1 = l.successThreshold.toNat := by
  have hmin : (l.after results i).successes.toNat + 1 = l.successThreshold.toNat ↔
      l.successesInRow results i + 1 = l.successThreshold.toNat := by
    rw [h.successes]
    omega
  rw [SuccessActionAt, callbacks, ← hmin, ← h.successThreshold, ← h.successAction]
  cases hr : results i with
  | success =>
      rw [doLivenessCheck_success (h.failureThreshold ▸ hf)]
      split <;> simp [*]
  | failure =>
      rw [doLivenessCheck_failure (h.successThreshold ▸ hs) h.lt]
      split <;> simp

/-- One more check. -/
theorem Counts.step (h : l.Counts results i (l.after results i)) :
    l.Counts results (i + 1) (l.after results (i + 1)) := by
  have hfa := h.failureActionAt_iff hs hf
  have hsn := UInt32.lt_iff_toNat_lt.mp hs
  have hfn := UInt32.lt_iff_toNat_lt.mp hf
  have hsucc := h.successes
  have hfail := h.failures
  cases hr : results i with
  | success =>
      have hnot : ¬l.FailureActionAt results i := fun ha ↦ by simp [hr] at hfa; exact hfa ha
      have hrow : l.failuresInRow results (i + 1) = 0 := if_neg (by simp [hr])
      have hrow' : l.successesInRow results (i + 1) = l.successesInRow results i + 1 :=
        if_pos ⟨hr, hnot⟩
      have hafter : l.after results (i + 1) = (l.after results i).addSuccess := by
        rw [after, hr, doLivenessCheck_success (h.failureThreshold ▸ hf)]
      rw [hafter]
      refine ⟨h.successThreshold, h.failureThreshold, h.successAction, h.failureAction, ?_, ?_,
        h.failureThreshold ▸ hf⟩
      · rw [hrow', addSuccess]
        by_cases hlt : (l.after results i).successes < (l.after results i).successThreshold
        · have hn := UInt32.lt_iff_toNat_lt.mp hlt
          rw [h.successThreshold] at hn
          simp only [if_pos hlt, toNat_succ_of_lt hlt]
          omega
        · have hn := mt UInt32.lt_iff_toNat_lt.mpr hlt
          rw [h.successThreshold] at hn
          simp only [if_neg hlt]
          omega
      · rw [hrow]
        rfl
  | failure =>
      have hrow : l.successesInRow results (i + 1) = 0 := if_neg (by simp [hr])
      have hadd := toNat_succ_of_lt h.lt
      by_cases ha : l.FailureActionAt results i
      · have hrow' : l.failuresInRow results (i + 1) = 0 := if_neg (by simp [ha])
        have heq : (l.after results i).failures.toNat + 1 =
            (l.after results i).failureThreshold.toNat := by
          rw [hfail, h.failureThreshold]
          exact (hfa.mp ha).2
        have hafter : l.after results (i + 1) = (l.after results i).addFailure.reset := by
          rw [after, hr, doLivenessCheck_failure (h.successThreshold ▸ hs) h.lt, if_pos heq]
        rw [hafter]
        refine ⟨h.successThreshold, h.failureThreshold, h.successAction, h.failureAction, ?_, ?_,
          h.failureThreshold ▸ hf⟩
        · rw [hrow, Nat.min_zero]
          rfl
        · rw [hrow']
          rfl
      · have hrow' : l.failuresInRow results (i + 1) = l.failuresInRow results i + 1 :=
          if_pos ⟨hr, ha⟩
        have hne : (l.after results i).failures.toNat + 1 ≠
            (l.after results i).failureThreshold.toNat := by
          rw [hfail, h.failureThreshold]
          exact fun heq ↦ ha (hfa.mpr ⟨hr, heq⟩)
        have hafter : l.after results (i + 1) = (l.after results i).addFailure := by
          rw [after, hr, doLivenessCheck_failure (h.successThreshold ▸ hs) h.lt, if_neg hne]
        have hfailures : (l.after results i).addFailure.failures =
            (l.after results i).failures + 1 := if_pos h.lt
        rw [hafter]
        refine ⟨h.successThreshold, h.failureThreshold, h.successAction, h.failureAction, ?_, ?_,
          ?_⟩
        · rw [hrow, Nat.min_zero]
          rfl
        · rw [hrow', hfailures, hadd, hfail]
        · rw [hfailures, UInt32.lt_iff_toNat_lt, hadd]
          have hn := UInt32.lt_iff_toNat_lt.mp h.lt
          exact Nat.lt_of_le_of_ne hn hne

theorem counts (h₀ : l.successes = 0) (h₀' : l.failures = 0) (i : Nat) :
    l.Counts results i (l.after results i) := by
  induction i with
  | zero =>
      refine ⟨rfl, rfl, rfl, rfl, ?_, ?_, ?_⟩
      · show l.successes.toNat = min _ 0
        rw [h₀, Nat.min_zero]
        rfl
      · show l.failures.toNat = 0
        rw [h₀']
        rfl
      · show l.failures < l.failureThreshold
        rwa [h₀']
  | succ i ih => exact ih.step hs hf

end Run

/-- The failure action runs when the last results since the previous one are failures, as many as
the threshold. -/
theorem failureActionAt_iff_since
    (h : ∀ i, l.FailureActionAt results i ↔
      results i = .failure ∧ l.failuresInRow results i + 1 = l.failureThreshold.toNat)
    (hlt : ∀ i, l.failuresInRow results i < l.failureThreshold.toNat) :
    l.FailureActionAt results i ↔ ∃ j, Streak.Since (fun _ ↦ True) (l.FailureActionAt results) j i ∧
      j + l.failureThreshold.toNat ≤ i + 1 ∧
      ∀ k, k ≤ i → i < k + l.failureThreshold.toNat → results k = .failure := by
  have hi := hlt i
  rw [h]
  constructor
  · rintro ⟨hr, hn⟩
    obtain ⟨hle, hlast⟩ := Streak.le_length_iff.mp (Nat.le_refl (l.failuresInRow results i))
    have hs := Streak.since_length (fun _ ↦ True) (l.FailureActionAt results) i
    refine ⟨_, hs, ?_, fun k hk hik ↦ ?_⟩
    · -- None of the failures in a row is the one of the previous failure action.
      have hrow : l.failuresInRow results i ≤
          Streak.length (fun _ ↦ True) (l.FailureActionAt results) i :=
        Streak.le_length_iff.mpr ⟨hle, fun k hk hki ↦ ⟨trivial, (hlast k hk hki).2⟩⟩
      have hrow' := Streak.length_le (fun _ ↦ True) (l.FailureActionAt results) i
      omega
    · obtain rfl | hki := Nat.eq_or_lt_of_le hk
      · exact hr
      · exact (hlast k (by omega) hki).1
  · rintro ⟨j, hs, hj, hlast⟩
    refine ⟨hlast i (Nat.le_refl i) (by omega), Nat.le_antisymm hi ?_⟩
    have hrow : l.failureThreshold.toNat - 1 ≤ l.failuresInRow results i :=
      Streak.le_length_iff.mpr ⟨by omega, fun k hk hki ↦
        ⟨hlast k (Nat.le_of_lt hki) (by omega), (hs.inner k (by omega) hki).2⟩⟩
    omega

/-- The success action runs when the threshold is reached by the successes since the last failure
or failure action. -/
theorem successActionAt_iff_since (hs : 0 < l.successThreshold.toNat)
    (hfa : ∀ i, l.FailureActionAt results i → results i = .failure)
    (h : l.SuccessActionAt results i ↔
      results i = .success ∧ l.successesInRow results i + 1 = l.successThreshold.toNat) :
    l.SuccessActionAt results i ↔
      ∃ j, Streak.Since (results · = .success) (l.FailureActionAt results) j (i + 1) ∧
        i + 1 = j + l.successThreshold.toNat := by
  have hle : l.successesInRow results i ≤ i := Streak.length_le _ _ i
  have hrow (hr : results i = .success) :
      l.successesInRow results (i + 1) = l.successesInRow results i + 1 :=
    if_pos ⟨hr, fun ha ↦ by simp [hfa i ha] at hr⟩
  rw [h]
  constructor
  · rintro ⟨hr, hn⟩
    refine ⟨_, Streak.since_length (results · = .success) (l.FailureActionAt results) (i + 1), ?_⟩
    show i + 1 = i + 1 - l.successesInRow results (i + 1) + l.successThreshold.toNat
    rw [hrow hr]
    omega
  · rintro ⟨j, hsince, hj⟩
    have hr := (hsince.inner i (by omega) (Nat.lt_succ_self i)).1
    have hlen : l.successesInRow results (i + 1) = i + 1 - j := hsince.length_eq
    rw [hrow hr] at hlen
    exact ⟨hr, by omega⟩

theorem nodup_doLivenessCheck (l : LivenessChecker) (result : CheckResult) :
    (l.doLivenessCheck result).2.Nodup := by
  unfold doLivenessCheck
  dsimp only
  split <;> split <;> simp

end LivenessChecker

open LivenessChecker in
/-- When checks are done one after another, the failure action runs at the check that is the last
of as many failures as the threshold since the previous failure action, the success action at the
one that is the success with the number of the threshold since the last failure or failure action,
and each once in a streak. -/
theorem check_actions {l : LivenessChecker} {config : Entry} {successAction failureAction : Str}
    (hl : l = newLivenessChecker config successAction failureAction)
    (hs : 1 ≤ l.successThreshold) (hf : 1 ≤ l.failureThreshold)
    (results : Nat → CheckResult) :
    (∀ i, l.FailureActionAt results i ↔
      ∃ j, Streak.Since (fun _ ↦ True) (l.FailureActionAt results) j i ∧
        j + l.failureThreshold.toNat ≤ i + 1 ∧
        ∀ k, k ≤ i → i < k + l.failureThreshold.toNat → results k = .failure) ∧
    (∀ i, l.SuccessActionAt results i ↔
      ∃ j, Streak.Since (results · = .success) (l.FailureActionAt results) j (i + 1) ∧
        i + 1 = j + l.successThreshold.toNat) ∧
    (∀ i, (l.callbacks results i).Nodup) ∧
    (∀ i j, i < j → l.FailureActionAt results i → l.FailureActionAt results j →
      i + l.failureThreshold.toNat ≤ j) ∧
    ∀ i j, i < j → l.SuccessActionAt results i → l.SuccessActionAt results j →
      ∃ k, i < k ∧ k < j ∧ results k = .failure := by
  have hcounts (i : Nat) : l.Counts results i (l.after results i) :=
    counts hs hf (by rw [hl]; rfl) (by rw [hl]; rfl) i
  have hfa := fun i ↦ (hcounts i).failureActionAt_iff hs hf
  have hlt : ∀ i, l.failuresInRow results i < l.failureThreshold.toNat := by
    intro i
    have h := UInt32.lt_iff_toNat_lt.mp (hcounts i).lt
    rwa [(hcounts i).failures, (hcounts i).failureThreshold] at h
  have hfailure := fun i ↦ failureActionAt_iff_since (i := i) hfa hlt
  have hsuccess := fun i ↦ successActionAt_iff_since (UInt32.le_iff_toNat_le.mp hs)
    (fun i h ↦ ((hfa i).mp h).1) ((hcounts i).successActionAt_iff hs hf)
  refine ⟨hfailure, hsuccess, fun i ↦ nodup_doLivenessCheck _ _, ?_, ?_⟩
  · intro i j hij hi hj
    obtain ⟨n, hsince, hn, _⟩ := (hfailure j).mp hj
    have hin : i < n := by
      by_contra hni
      exact (hsince.inner i (Nat.not_lt.mp hni) hij).2 hi
    omega
  · intro i j hij hi hj
    obtain ⟨m, hm, hmi⟩ := (hsuccess i).mp hi
    obtain ⟨n, hn, hnj⟩ := (hsuccess j).mp hj
    have hpos := UInt32.le_iff_toNat_le.mp hs
    rw [UInt32.toNat_one] at hpos
    have hfail : results (n - 1) = .failure := by
      obtain h | h | h := hn.first
      · omega
      · cases hr : results (n - 1) with
        | success => exact absurd hr h
        | failure => rfl
      · exact ((hfa (n - 1)).mp h).1
    refine ⟨n - 1, ?_, by omega, hfail⟩
    by_contra hni
    have hgood := (hm.inner (n - 1) (by omega) (by omega)).1
    rw [hfail] at hgood
    cases hgood

/-- After a failure and a success, two more failures are too many. -/
theorem check_actions_two :
    (newLivenessChecker
      { configDir := [], keyValues := fun k ↦
          if k = str "liveness_check_failure_threshold" then some (str "2") else none }
      [] (str "restart")).FailureActionAt (fun i ↦ if i = 1 then .success else .failure) 3 := by
  have h : ∀ k < 3, ¬(newLivenessChecker
      { configDir := [], keyValues := fun k ↦
          if k = str "liveness_check_failure_threshold" then some (str "2") else none }
      [] (str "restart")).FailureActionAt (fun i ↦ if i = 1 then .success else .failure) k := by
    decide
  refine ((check_actions rfl (by decide) (by decide) _).1 3).mpr
    ⟨0, ⟨Nat.zero_le 3, fun k _ hk ↦ ⟨trivial, h k hk⟩, .inl rfl⟩, by decide, ?_⟩
  intro k hk hik
  obtain rfl | rfl : k = 2 ∨ k = 3 := by
    have hn : 3 < k + 2 := hik
    omega
  · rfl
  · rfl

end Supervisord.Process
