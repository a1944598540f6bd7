import Supervisord.Process.Invariant

/-!
# No child to come

A start loop may spawn a child without being asked again: when a pause is over, in the attempt that
is under way, in a retry or in an automatic restart.  `Core.Retired` says that none of these is
ahead, and `Retired.started_eq` that then no child comes, whatever happens, until a `Start` is
accepted.
-/

namespace Supervisord.Process

/-- The stages in which an attempt is made whatever `stopByUser` is. -/
def Stage.attempting : Stage → Bool
  | .pausing | .paused | .trying | .making | .made => true
  | .idle | .entering | .checking | .refusing | .head | .failed _ | .launching | .born | .watching
  | .seen | .settling | .judging | .excused | .judged _ | .exhausted | .failing | .over | .rested
  | .deciding | .ending => false

/-- The stages in which the last attempt of `run` is over. -/
def Stage.past : Stage → Bool
  | .refusing | .failed .createFatal | .failed .spawnFatal | .judged .exited | .judged .stopped
  | .exhausted | .failing | .over | .rested | .deciding => true
  | _ => false

/-- The start loop has ended but for the reset of `inStart`. -/
def Stage.ended : Stage → Bool
  | .idle | .ending => true
  | _ => false

attribute [grind] Stage.attempting Stage.past Stage.ended

/-- `isAutoRestart()`. -/
def Core.isAutoRestart (cfg : Config) (c : Core) : Bool := cfg.isAutoRestart (c.cmd.map c.cmds)

/-- No start loop will spawn a child by itself. -/
def Core.Retired (cfg : Config) (c : Core) : Prop :=
  ∀ t, (c.loops t).stage.attempting = false ∧
    ((c.loops t).stage.ended ∨ c.stopByUser ∨
      (c.loops t).stage.past ∧ c.isAutoRestart cfg = false)

/-- A `Start` is accepted. -/
def Label.accepts : Label → Bool
  | .start _ accepted => accepted
  | _ => false

variable {cfg : Config} {c c' : Core} {k : Label} {t : Tid}

namespace Core

/-- There is no start loop. -/
theorem Inv.retired (hc : c.Inv) (hin : c.inStart = false) : c.Retired cfg := by
  intro t
  have hidle : (c.loops t).stage = .idle := by
    by_contra hne
    rw [hc.turns.inStart t hne] at hin
    cases hin
  rw [hidle]
  exact ⟨rfl, .inl rfl⟩

theorem isAutoRestart_congr
    (h : (c'.cmd.map c'.cmds).bind Cmd.processState = (c.cmd.map c.cmds).bind Cmd.processState) :
    c'.isAutoRestart cfg = c.isAutoRestart cfg := by
  rw [isAutoRestart, isAutoRestart, Config.isAutoRestart, Config.isAutoRestart, h]

/-- A step of a start loop that is not to make an attempt. -/
theorem Retired.own (hm : Move cfg c k c') (hk : k.loop = some t) (ha : k.accepts = false)
    (h : c.Retired cfg) : (c'.loops t).stage.attempting = false ∧
      ((c'.loops t).stage.ended ∨ c'.stopByUser ∨
        (c'.loops t).stage.past ∧ c'.isAutoRestart cfg = false) := by
  obtain ⟨hno, ht⟩ := h t
  cases hm with
  | accept => cases ha
  | loop hs =>
      cases hk
      simp only [Function.update_self, hs]
      exact ⟨hno, ht⟩
  | pause hs | resume _ hs | starting hs | create hs | spawn hs =>
      cases hk
      rw [hs] at hno
      cases hno
  | fail hs =>
      cases hk
      rcases hs with hs | ⟨hs, -⟩ <;> rw [hs] at hno <;> cases hno
  | pass hs hu =>
      cases hk
      rw [hs] at ht
      rcases ht with he | hu' | ⟨hp, -⟩
      · cases he
      · rw [hu] at hu'
        cases hu'
      · cases hp
  | rest hs hl =>
      cases hk
      simp only [Function.update_self, hl]
      by_cases hu : c.stopByUser
      · rw [if_pos hu]
        exact ⟨rfl, .inl rfl⟩
      · rw [if_neg hu]
        rw [hs] at ht
        rcases ht with he | hu' | ⟨-, hr⟩
        · cases he
        · exact absurd hu' hu
        · exact ⟨rfl, .inr (.inr ⟨rfl, hr⟩)⟩
  | decide hs hl =>
      cases hk
      simp only [Function.update_self, hl]
      by_cases hr : cfg.isAutoRestart (c.cmd.map c.cmds)
      · rw [if_pos hr]
        rw [hs] at ht
        rcases ht with he | hu | ⟨-, hr'⟩
        · cases he
        · exact ⟨rfl, .inr (.inl hu)⟩
        · exact absurd hr (Bool.eq_false_iff.mp hr')
      · rw [if_neg hr]
        exact ⟨rfl, .inl rfl⟩
  | verdict hs hl =>
      cases hk
      simp only [Function.update_self, hl]
      rw [hs] at ht
      rcases ht with he | hu | ⟨hp, -⟩
      · cases he
      · exact ⟨rfl, .inr (.inl hu)⟩
      · cases hp
  | quit hs hu hl =>
      cases hk
      simp only [Function.update_self, hl]
      exact ⟨rfl, .inr (.inl hu)⟩
  | finish _ _ hl =>
      cases hk
      simp only [Function.update_self, hl]
      exact ⟨rfl, .inl rfl⟩
  | _ =>
      -- the stages between them are past the attempt, or it is `stopByUser` that was set
      cases hk
      all_goals
        simp only [Function.update_self, *]
        rw [‹(c.loops t).stage = _›] at ht
        rcases ht with he | hu | ⟨hp, hr⟩
        · cases he
        · exact ⟨rfl, .inr (.inl hu)⟩
        · first | exact ⟨rfl, .inr (.inr ⟨rfl, hr⟩)⟩ | cases hp

/-- Only an accepted `Start` resets `stopByUser`. -/
theorem stopByUser_move (hm : Move cfg c k c') (ha : k.accepts = false) (hu : c.stopByUser) :
    c'.stopByUser := by
  cases hm with
  | accept => cases ha
  | stop => rfl
  | _ => exact hu

theorem Stage.ne_idle_of_past {s : Stage} (h : s.past) : s ≠ .idle := by
  rintro rfl
  cases h

/-- Behind the last attempt nobody waits for a child, so that its exit code stays what it is. -/
theorem isAutoRestart_eq (hc : c.Inv) (hm : Move cfg c k c') (hk : k.loop = none)
    (ht : (c.loops t).stage.past) : c'.isAutoRestart cfg = c.isAutoRestart cfg := by
  cases hm with
  | @reaped i j hs | @returned i j hs =>
      obtain ⟨u, hw, -⟩ := hc.child.waiter i (by rw [hs]; rfl)
      have hne := Stage.ne_idle_of_past ht
      obtain rfl := hc.turns.one t u hne (by rw [hw]; exact nofun)
      rw [hw] at ht
      cases ht
  | @exit i st hs he =>
      refine isAutoRestart_congr ?_
      cases c.cmd with
      | none => rfl
      | some j =>
          by_cases hij : j = i
          · subst hij
            simp only [Option.map_some, Option.bind_some, Function.update_self]
          · simp only [Option.map_some, Option.bind_some, Function.update_of_ne hij]
  | accept | loop | enter | refused | busy | clear | quit | pass | pause | resume | starting
  | create | fail | createFatal | spawnFatal | retry | spawn | up | release | see | tell | relock
  | excuse | blame | verdict | closeExited | closeStopped | backoff | exhaust | retryFatal | gaveUp
  | leave | rest | decide | finish => cases hk
  | _ => rfl

theorem Retired.aside (hc : c.Inv) (hm : Move cfg c k c') (hk : k.loop ≠ some t)
    (ha : k.accepts = false) (h : c.Retired cfg) : (c'.loops t).stage.attempting = false ∧
      ((c'.loops t).stage.ended ∨ c'.stopByUser ∨
        (c'.loops t).stage.past ∧ c'.isAutoRestart cfg = false) := by
  obtain ⟨hat, ht⟩ := h t
  rw [hm.loops_eq hk]
  refine ⟨hat, ht.imp_right fun ht ↦ ?_⟩
  rcases ht with hu | ⟨hp, hr⟩
  · exact .inl (stopByUser_move hm ha hu)
  · have hnone : k.loop = none := by
      cases hl : k.loop with
      | none => rfl
      | some u =>
          obtain rfl := hc.turns.loop_eq hm (Stage.ne_idle_of_past hp) hl
          exact absurd hl hk
    exact .inr ⟨hp, (isAutoRestart_eq hc hm hnone hp).trans hr⟩

/-- Only an accepted `Start` brings a start loop to another attempt. -/
theorem Retired.move (hc : c.Inv) (hm : Move cfg c k c') (ha : k.accepts = false)
    (h : c.Retired cfg) : c'.Retired cfg := by
  intro t
  by_cases hk : k.loop = some t
  · exact h.own hm hk ha
  · exact h.aside hc hm hk ha

theorem Retired.started_eq (hm : Move cfg c k c') (h : c.Retired cfg) (i : CmdId) :
    (c'.cmds i).started = (c.cmds i).started := by
  cases hm with
  | @create t l hs => exact absurd (h t).1 (by rw [hs]; decide)
  | @spawn t l w hs => exact absurd (h t).1 (by rw [hs]; decide)
  | @reaped j j' | @returned j j' | @exit j =>
      simp only [Function.update_apply]
      split
      · rename_i hij
        rw [hij]
      · rfl
  | _ => rfl

end Core

/-- No child comes in a run in which no `Start` is accepted. -/
def Sys.NoChild (cfg : Config) (s : Sys) : Prop :=
  ∀ as s', (machine cfg).execWhile (fun s a ↦ !(s.label a).accepts) s as = some s' →
    ∀ i, (s'.cmds i).started = (s.cmds i).started

theorem Core.Retired.noChild {s : Sys} (hs : (machine cfg).Reachable s)
    (h : s.toCore.Retired cfg) : s.NoChild cfg := by
  intro as s' hexec i
  induction as generalizing s with
  | nil =>
      cases hexec
      rfl
  | cons a as ih =>
      rw [Machine.execWhile] at hexec
      by_cases ha : (s.label a).accepts = true
      · rw [ha] at hexec
        cases hexec
      · rw [Bool.not_eq_true] at ha
        rw [ha, if_pos (by rfl)] at hexec
        obtain ⟨s₁, hst, hexec⟩ := Option.bind_eq_some_iff.mp hexec
        have hc := reachable_inv hs
        have hm := hc.step_move hst
        rw [ih (.step hs trivial hst) (h.move hc hm ha) hexec, h.started_eq hm]

end Supervisord.Process
