import Supervisord.Config.Load

/-!
# Limits of resources

`checkRequiredResources` compares `minfds` and `minprocs` with the limits of the process and raises
a limit that is too low.  It looks at one of the two settings only, and it sets the limit of open
files for both of them: `keeps_minima_iff` states when the limits are as the settings ask for.
-/

namespace Supervisord.Supervisor

open Go

/-- A `syscall.Rlimit`. -/
structure Rlimit where
  cur : UInt64
  max : UInt64
deriving DecidableEq

/-- `RLIMIT_NOFILE`, and 6. -/
inductive Resource where
  | nofile
  | nproc
deriving DecidableEq

abbrev Limits := Resource → Rlimit

/-- What the system answers. -/
structure Kernel where
  /-- `Getrlimit` returns no error. -/
  readable : Resource → Bool
  /-- `Setrlimit` returns no error. -/
  permits : Limits → Resource → Rlimit → Bool

variable (k : Kernel) (c : Config) (limits : Limits)

/-! ## The check -/

def getMinRequiredRes (resourceName : Str) : Except Str UInt64 :=
  match c.entries.get (str "supervisord") with
  | some entry =>
    let value := UInt64.ofInt (entry.getInt resourceName 0)
    if 0 < value then .ok value else .error (str "no such key " ++ resourceName)
  | none => .error (str "no supervisord section")

/-- The error of the check and the limits after it. -/
def checkMinLimit (resource : Resource) (resourceName : Str) (minRequiredSource : UInt64) :
    Option Str × Limits :=
  if !k.readable resource then
    (some (str "fail to get the " ++ resourceName ++ str " limit"), limits)
  else
    let limit := limits resource
    if limit.max < minRequiredSource then
      (some (resourceName ++ str " " ++ Str.itoa minRequiredSource.toNat ++
        str " is greater than Hard limit " ++ Str.itoa limit.max.toNat), limits)
    else if minRequiredSource ≤ limit.cur then (none, limits)
    else
      let limit := { limit with cur := limit.max }
      if !k.permits limits .nofile limit then
        (some (str "fail to set the " ++ resourceName ++ str " to " ++
          Str.itoa limit.cur.toNat), limits)
      else (none, Function.update limits .nofile limit)

def checkRequiredResources : Option Str × Limits :=
  match getMinRequiredRes c (str "minfds") with
  | .ok minfds => checkMinLimit k limits .nofile (str "NOFILE") minfds
  | .error _ =>
    match getMinRequiredRes c (str "minprocs") with
    | .ok minprocs => checkMinLimit k limits .nproc (str "NPROC") minprocs
    | .error _ => (none, limits)

/-! ## The settings -/

/-- What is configured; nothing is the same as zero. -/
def minRequired (resourceName : Str) : Int :=
  match c.entries.get (str "supervisord") with
  | some entry => entry.getInt resourceName 0
  | none => 0

/-- A limit has not been changed, or it has been raised to its own hard limit. -/
def Raised (old new : Rlimit) : Prop := new = old ∨ old.cur ≤ new.cur ∧ new = ⟨old.max, old.max⟩

/-- The limits are as the settings ask for, and none is set from another one or lowered. -/
structure KeepsMinima (limits' : Limits) : Prop where
  nofile : minRequired c (str "minfds") ≤ (limits' .nofile).cur.toNat
  nproc : minRequired c (str "minprocs") ≤ (limits' .nproc).cur.toNat
  raised : ∀ resource, Raised (limits resource) (limits' resource)

/-- The check of the resource ends with an error: its limit cannot be read, its hard limit is too
low, or the limit of open files cannot be set to the hard limit. -/
def Refused (resource : Resource) (minimum : Int) : Prop :=
  k.readable resource = false ∨ (limits resource).max.toNat < minimum ∨
    (limits resource).cur.toNat < minimum ∧
      k.permits limits .nofile ⟨(limits resource).max, (limits resource).max⟩ = false

variable {k c limits} {limits' : Limits} {resource : Resource} {resourceName : Str}
  {minimum : UInt64}

theorem getInt_lt (e : Entry) (key : Str) : e.getInt key 0 < 2 ^ 63 := by
  rw [Entry.getInt]
  split
  · rw [Entry.toInt]
    split
    · exact Int.bmod_lt (by decide)
    · decide
  · decide

theorem toNat_ofInt {i : Int} (h : 0 ≤ i) (hlt : i < 2 ^ 63) :
    ((UInt64.ofInt i).toNat : Int) = i := by
  show ((i % 2 ^ 64).toNat % 2 ^ 64 : Nat) = i
  omega

/-- A setting that is not zero is a minimum. -/
theorem getMinRequiredRes_of_pos (h : 0 < minRequired c resourceName) :
    ∃ minimum, getMinRequiredRes c resourceName = .ok minimum ∧
      (minimum.toNat : Int) = minRequired c resourceName := by
  rw [getMinRequiredRes]
  cases hentry : c.entries.get (str "supervisord") with
  | none =>
      rw [minRequired, hentry] at h
      exact absurd h (Int.lt_irrefl 0)
  | some entry =>
      have hmin : minRequired c resourceName = entry.getInt resourceName 0 := by
        rw [minRequired, hentry]
      rw [hmin] at h ⊢
      have hvalue := toNat_ofInt (Int.le_of_lt h) (getInt_lt entry resourceName)
      refine ⟨_, if_pos (UInt64.lt_iff_toNat_lt.mpr ?_), hvalue⟩
      rw [UInt64.toNat_zero]
      omega

theorem getMinRequiredRes_of_eq_zero (h : minRequired c resourceName = 0) :
    ∃ err, getMinRequiredRes c resourceName = .error err := by
  rw [getMinRequiredRes]
  cases hentry : c.entries.get (str "supervisord") with
  | none => exact ⟨_, rfl⟩
  | some entry =>
      have hmin : minRequired c resourceName = entry.getInt resourceName 0 := by
        rw [minRequired, hentry]
      rw [hmin] at h
      dsimp only
      rw [h]
      exact ⟨_, rfl⟩

/-- A check is refused, or the limit of the resource is high enough, or the limit of open files is
set. -/
theorem checkMinLimit_cases (k : Kernel) (limits : Limits) (resource : Resource)
    (resourceName : Str) (minimum : UInt64) :
    Refused k limits resource minimum.toNat ∧
      (∃ err, checkMinLimit k limits resource resourceName minimum = (some err, limits)) ∨
    ¬Refused k limits resource minimum.toNat ∧
      ∃ limits', checkMinLimit k limits resource resourceName minimum = (none, limits') ∧
        (limits' = limits ∧ minimum ≤ (limits resource).cur ∨
          (limits resource).cur < minimum ∧ minimum ≤ (limits resource).max ∧
          limits' =
            Function.update limits .nofile ⟨(limits resource).max, (limits resource).max⟩) := by
  unfold checkMinLimit Refused
  cases hread : k.readable resource with
  | false => exact .inl ⟨.inl rfl, _, rfl⟩
  | true =>
      rw [if_neg (by decide)]
      dsimp only
      by_cases hmax : (limits resource).max < minimum
      · rw [if_pos hmax]
        exact .inl ⟨.inr (.inl (Int.ofNat_lt.mpr (UInt64.lt_iff_toNat_lt.mp hmax))), _, rfl⟩
      · rw [if_neg hmax]
        have hmax' := UInt64.not_lt.mp hmax
        have hmaxNat : ¬((limits resource).max.toNat : Int) < minimum.toNat := by
          rw [Int.ofNat_lt, Nat.not_lt]
          exact UInt64.le_iff_toNat_le.mp hmax'
        by_cases hcur : minimum ≤ (limits resource).cur
        · rw [if_pos hcur]
          have hcurNat : ¬((limits resource).cur.toNat : Int) < minimum.toNat := by
            rw [Int.ofNat_lt, Nat.not_lt]
            exact UInt64.le_iff_toNat_le.mp hcur
          refine .inr ⟨?_, limits, rfl, .inl ⟨rfl, hcur⟩⟩
          rintro (h | h | ⟨h, -⟩)
          · cases h
          · exact hmaxNat h
          · exact hcurNat h
        · rw [if_neg hcur]
          have hcur' := UInt64.not_le.mp hcur
          have hcurNat : ((limits resource).cur.toNat : Int) < minimum.toNat :=
            Int.ofNat_lt.mpr (UInt64.lt_iff_toNat_lt.mp hcur')
          cases hset : k.permits limits .nofile
              ⟨(limits resource).max, (limits resource).max⟩ with
          | false => exact .inl ⟨.inr (.inr ⟨hcurNat, rfl⟩), _, rfl⟩
          | true =>
              refine .inr ⟨?_, _, rfl, .inr ⟨hcur', hmax', rfl⟩⟩
              rintro (h | h | ⟨-, h⟩)
              · cases h
              · exact hmaxNat h
              · cases h

/-- The limit of processes stays as it is. -/
theorem nproc_of_set {hard : Rlimit}
    (h : limits' = limits ∨ limits' = Function.update limits .nofile hard) :
    limits' .nproc = limits .nproc := by
  rcases h with rfl | rfl
  · rfl
  · exact Function.update_of_ne (show Resource.nproc ≠ .nofile by decide) hard limits

/-- A check of the open files that returns no error does what `minfds` asks for. -/
theorem keepsMinima_nofile (hminimum : minRequired c (str "minfds") = minimum.toNat)
    (hset : limits' = limits ∧ minimum ≤ (limits .nofile).cur ∨
      (limits .nofile).cur < minimum ∧ minimum ≤ (limits .nofile).max ∧
        limits' = Function.update limits .nofile ⟨(limits .nofile).max, (limits .nofile).max⟩) :
    KeepsMinima c limits limits' ↔
      minRequired c (str "minprocs") ≤ (limits .nproc).cur.toNat := by
  have hnproc : limits' .nproc = limits .nproc :=
    nproc_of_set (hset.imp And.left fun h ↦ h.2.2)
  constructor
  · intro h
    rw [← hnproc]
    exact h.nproc
  · intro h
    rcases hset with ⟨rfl, hcur⟩ | ⟨hcur, hmax, rfl⟩
    · refine ⟨?_, h, fun resource ↦ .inl rfl⟩
      rw [hminimum]
      exact Int.ofNat_le.mpr (UInt64.le_iff_toNat_le.mp hcur)
    · refine ⟨?_, by rwa [hnproc], fun resource ↦ ?_⟩
      · rw [hminimum, Function.update_self]
        exact Int.ofNat_le.mpr (UInt64.le_iff_toNat_le.mp hmax)
      · cases resource with
        | nofile =>
            rw [Function.update_self]
            exact .inr ⟨UInt64.le_of_lt (UInt64.lt_of_lt_of_le hcur hmax), rfl⟩
        | nproc => exact .inl hnproc

/-- Limits that stay are as the settings ask for if they are high enough. -/
theorem keepsMinima_self (hfds : minRequired c (str "minfds") = 0) :
    KeepsMinima c limits limits ↔
      minRequired c (str "minprocs") ≤ (limits .nproc).cur.toNat := by
  refine ⟨KeepsMinima.nproc, fun h ↦ ⟨?_, h, fun resource ↦ .inl rfl⟩⟩
  rw [hfds]
  exact Int.natCast_nonneg _

/-- A result without an error has the limits that are returned. -/
theorem forall_none_iff {P : Limits → Prop} :
    (∀ limits'', ((none : Option Str), limits') = (none, limits'') → P limits'') ↔ P limits' :=
  ⟨fun h ↦ h limits' rfl, fun h _ heq ↦ (Prod.mk.inj heq).2 ▸ h⟩

/-- A result with an error says nothing of the limits. -/
theorem forall_some {P : Limits → Prop} (err : Str) (limits' : Limits) :
    ∀ limits'', (some err, limits') = (none, limits'') → P limits'' := by
  intro limits'' heq
  cases heq

/-- **Limits.**  A check that returns no error leaves the limits as the settings ask for if and only
if the limit of processes is high enough already, or the check returns an error. -/
theorem keeps_minima_iff (hfds : 0 ≤ minRequired c (str "minfds"))
    (hprocs : 0 ≤ minRequired c (str "minprocs")) :
    (∀ limits', checkRequiredResources k c limits = (none, limits') →
      KeepsMinima c limits limits') ↔
    minRequired c (str "minprocs") ≤ (limits .nproc).cur.toNat ∨
      if 0 < minRequired c (str "minfds") then
        Refused k limits .nofile (minRequired c (str "minfds"))
      else Refused k limits .nproc (minRequired c (str "minprocs")) := by
  rw [checkRequiredResources]
  rcases Int.lt_or_eq_of_le hfds with hpos | hzero
  · -- only the limit of open files is looked at
    obtain ⟨minfds, hget, hminfds⟩ := getMinRequiredRes_of_pos hpos
    rw [hget, if_pos hpos, ← hminfds]
    dsimp only
    rcases checkMinLimit_cases k limits .nofile (str "NOFILE") minfds with
      ⟨hrefused, err, heq⟩ | ⟨hok, limits', heq, hset⟩
    · rw [heq]
      exact iff_of_true (forall_some err limits) (.inr hrefused)
    · rw [heq, forall_none_iff, keepsMinima_nofile hminfds.symm hset]
      exact (or_iff_left hok).symm
  · obtain ⟨err, hget⟩ := getMinRequiredRes_of_eq_zero hzero.symm
    rw [hget, if_neg (hzero ▸ Int.lt_irrefl 0)]
    dsimp only
    rcases Int.lt_or_eq_of_le hprocs with hpos | hprocs
    · obtain ⟨minprocs, hget, hminprocs⟩ := getMinRequiredRes_of_pos hpos
      rw [hget, ← hminprocs]
      dsimp only
      rcases checkMinLimit_cases k limits .nproc (str "NPROC") minprocs with
        ⟨hrefused, err, heq⟩ | ⟨hok, limits', heq, hset⟩
      · rw [heq]
        exact iff_of_true (forall_some err limits) (.inr hrefused)
      · rw [heq, forall_none_iff, or_iff_left hok, hminprocs]
        rcases hset with ⟨rfl, -⟩ | ⟨hcur, -, rfl⟩
        · exact keepsMinima_self hzero.symm
        · -- the limit of open files is set, and the limit of processes stays too low
          have hnproc : (Function.update limits .nofile
              ⟨(limits .nproc).max, (limits .nproc).max⟩) .nproc = limits .nproc :=
            nproc_of_set (.inr rfl)
          have hlow : ¬minRequired c (str "minprocs") ≤ (limits .nproc).cur.toNat := by
            rw [← hminprocs]
            exact fun h ↦ UInt64.not_le.mpr hcur (UInt64.le_iff_toNat_le.mpr (Int.ofNat_le.mp h))
          exact iff_of_false (fun h ↦ hlow (hnproc ▸ h.nproc)) hlow
    · obtain ⟨err, hget⟩ := getMinRequiredRes_of_eq_zero hprocs.symm
      rw [hget]
      dsimp only
      rw [forall_none_iff, keepsMinima_self hzero.symm]
      refine iff_of_true ?_ (.inl ?_) <;> rw [← hprocs] <;> exact Int.natCast_nonneg _

/-- A `supervisord` section that asks for 100 processes. -/
def procsConfig : Config :=
  (newConfig (str "/etc")).parseOtherSection
    ⟨str "supervisord", AList.singleton (str "minprocs") (str "100")⟩

/-- The system answers, and it accepts a soft limit up to the hard limit, which may be lowered. -/
def lenient : Kernel where
  readable _ := true
  permits limits resource new := new.cur ≤ new.max && new.max ≤ (limits resource).max

theorem minRequired_minfds : minRequired procsConfig (str "minfds") = 0 := by decide +kernel

theorem minRequired_minprocs : minRequired procsConfig (str "minprocs") = 100 := by decide +kernel

/-- 1024 open files and `n` processes, with hard limits of 4096 and 1000. -/
def fewProcs (n : UInt64) : Limits
  | .nofile => ⟨1024, 4096⟩
  | .nproc => ⟨n, 1000⟩

/-- The statement for limits that are high enough. -/
theorem keeps_minima_enough : KeepsMinima procsConfig (fewProcs 200) (fewProcs 200) := by
  refine (keeps_minima_iff (k := lenient) ?_ ?_).mpr (.inl ?_) _ rfl
  · rw [minRequired_minfds]
  · rw [minRequired_minprocs]
    decide
  · rw [minRequired_minprocs]
    decide

/-- The limit of 10 processes stays, and the limit of open files is lowered to the hard limit of
processes. -/
theorem keeps_minima_lowered :
    checkRequiredResources lenient procsConfig (fewProcs 10) =
        (none, Function.update (fewProcs 10) .nofile ⟨1000, 1000⟩) ∧
      ¬KeepsMinima procsConfig (fewProcs 10)
        (Function.update (fewProcs 10) .nofile ⟨1000, 1000⟩) := by
  refine ⟨rfl, fun h ↦ ?_⟩
  have hnproc := h.nproc
  rw [minRequired_minprocs] at hnproc
  exact absurd hnproc (by decide)

end Supervisord.Supervisor
