import Supervisord.Process.Move

/-!
# Invariants of a process

What holds in every reachable state, whatever was called and in whatever order: `Turns` and
`Locks` say that the start loops take turns and who holds the lock, `Child` ties the command,
its child and `waitForExit` to the one start loop that made them, and `Watch` does so for the
monitors.  Each is preserved by every `Move`.
-/

namespace Supervisord.Process

attribute [grind] Stage.holds Stage.hasCmd Stage.hasChild Stage.newborn MonitorStage.holds
  RWLock.readable Cmd.alive Cmd.hasPid WaiterPc.pre WaiterPc.early WaiterPc.awaits State.isRunning
  Loop.Keeps Monitor.Keeps

theorem Stage.ne_idle_of_hasCmd {s : Stage} (h : s.hasCmd) : s ≠ .idle := by
  rintro rfl
  cases h

namespace Core

variable {cfg : Config} {c c' : Core} {t : Tid} {i : CmdId} {k : Label}

/-! ## The start loops and the lock -/

/-- The start loops take turns. -/
structure Turns (c : Core) : Prop where
  inStart : ∀ t, (c.loops t).stage ≠ .idle → c.inStart = true
  one : ∀ t u, (c.loops t).stage ≠ .idle → (c.loops u).stage ≠ .idle → t = u

/-- A start loop that takes a step is active, or it is launched by it. -/
theorem Turns.loop_active (h : Move cfg c k c') (hk : k.loop = some t) :
    (c.loops t).stage ≠ .idle ∨ k = .start t true ∧ c.inStart = false := by
  cases h <;> cases hk <;> grind

theorem Turns.inStart_move (hc : Turns c) (h : Move cfg c k c') (ht : (c'.loops t).stage ≠ .idle) :
    c'.inStart = true := by
  by_cases hk : k.loop = some t
  · rcases loop_active h hk with ha | ⟨rfl, -⟩
    · have hi := hc.inStart t ha
      cases h with
      | accept => rfl
      | finish _ _ hl =>
          cases hk
          simp only [Function.update_self] at ht
          exact absurd hl ht
      | _ => exact hi
    · cases h with
      | accept => rfl
  · rw [h.loops_eq hk] at ht
    have hi := hc.inStart t ht
    cases h with
    | accept => rfl
    | finish _ hs =>
        -- the start loop that ends is the active one
        have ho := hc.one t _ ht (by rw [hs]; decide)
        exact absurd (congrArg some ho.symm) hk
    | _ => exact hi

theorem Turns.one_move (hc : Turns c) (h : Move cfg c k c') {u : Tid}
    (ht : (c'.loops t).stage ≠ .idle) (hu : (c'.loops u).stage ≠ .idle) : t = u := by
  by_contra hne
  -- of two start loops one does not move
  wlog hk : k.loop ≠ some t generalizing t u
  · exact this hu ht (Ne.symm hne) fun hu ↦ hne (Option.some.inj ((not_not.mp hk).symm.trans hu))
  rw [h.loops_eq hk] at ht
  by_cases hk' : k.loop = some u
  · rcases loop_active h hk' with hu | ⟨-, hi⟩
    · exact hne (hc.one t u ht hu)
    · rw [hc.inStart t ht] at hi
      cases hi
  · rw [h.loops_eq hk'] at hu
    exact hne (hc.one t u ht hu)

theorem Turns.move (hc : Turns c) (h : Move cfg c k c') : Turns c' :=
  ⟨fun _ ht ↦ hc.inStart_move h ht, fun _ _ ht hu ↦ hc.one_move h ht hu⟩

/-- While a start loop is active, no other moves. -/
theorem Turns.loop_eq (hc : Turns c) (h : Move cfg c k c') (ht : (c.loops t).stage ≠ .idle)
    {u : Tid} (hk : k.loop = some u) : u = t := by
  rcases loop_active h hk with hu | ⟨-, hu⟩
  · exact hc.one u t hu ht
  · rw [hc.inStart t ht] at hu
    cases hu

/-- Where a start loop is active after a step, it has taken it, or no start loop has. -/
theorem Turns.own_or_none (hc : Turns c) (h : Move cfg c k c') (ht : (c'.loops t).stage ≠ .idle) :
    k.loop = some t ∨ k.loop = none ∧ c'.loops t = c.loops t := by
  cases hk : k.loop with
  | none => exact .inr ⟨rfl, h.loops_eq (by simp [hk])⟩
  | some u =>
      by_cases hu : u = t
      · exact .inl (congrArg some hu)
      · rw [h.loops_eq fun hk' ↦ hu (Option.some.inj (hk.symm.trans hk'))] at ht
        exact absurd (hc.loop_eq h ht hk) hu

/-- Who is in a critical section holds the lock. -/
structure Locks (c : Core) : Prop where
  loop : ∀ t, (c.loops t).stage.holds → c.lock = .held (.loop t)
  monitor : ∀ i, (c.monitors i).stage.holds → c.lock = .held (.monitor i)

theorem Locks.loop_move (hc : Locks c) (h : Move cfg c k c') (ht : (c'.loops t).stage.holds) :
    c'.lock = .held (.loop t) := by
  have hl := hc.loop
  by_cases hk : k.loop = some t
  · cases h with
    | enter | resume | relock =>
        cases hk
        rfl
    | loop hs =>
        cases hk
        simp only [Function.update_self, hs] at ht
        exact hl t ht
    | accept _ _ hs | pause _ hs | release _ hs | see _ _ hs | tell _ hs | leave _ hs
    | finish _ _ hs =>
        cases hk
        simp only [Function.update_self, hs] at ht
        cases ht
    | rest _ hs | decide _ hs =>
        cases hk
        simp only [Function.update_self, hs] at ht
        split_ifs at ht <;> cases ht
    | fail hs =>
        cases hk
        refine hl t ?_
        rcases hs with hs | ⟨hs, -⟩ <;> rw [hs] <;> rfl
    | _ =>
        -- the lock has been held before
        cases hk
        all_goals exact hl t (by rw [‹(c.loops t).stage = _›]; rfl)
  · rw [h.loops_eq hk] at ht
    have hlock := hl t ht
    cases h with
    | readers | enter | resume | relock | pause | release | leave | monEnter | monLeave =>
        have hm := hc.monitor
        simp only [Label.loop] at hk
        grind -linarith
    | _ => exact hlock

theorem Locks.monitor_move (hc : Locks c) (h : Move cfg c k c') {i : CmdId}
    (hi : (c'.monitors i).stage.holds) : c'.lock = .held (.monitor i) := by
  have hm := hc.monitor
  have hl := hc.loop
  revert hi
  cases h with
  | readers | enter | resume | relock | pause | release | leave => grind -linarith
  | spawn | up | tell | monitor | monEnter | monPass | monDrop | monRunning | monLeave | answer =>
      simp only [Function.update_apply]
      grind -linarith
  | _ => exact hm i

theorem Locks.move (hc : Locks c) (h : Move cfg c k c') : Locks c' :=
  ⟨fun _ ht ↦ hc.loop_move h ht, fun _ hi ↦ hc.monitor_move h hi⟩

/-- What the steps of the other goroutines leave alone. -/
structure Same (c c' : Core) : Prop where
  cmd : c'.cmd = c.cmd
  started : ∀ i, (c'.cmds i).started = (c.cmds i).started
  nextCmd : c'.nextCmd = c.nextCmd
  retryTimes : c'.retryTimes = c.retryTimes

theorem same_of_none (h : Move cfg c k c') (hk : k.loop = none) : Same c c' := by
  cases h with
  | reaped | returned | exit =>
      refine ⟨rfl, fun i ↦ ?_, rfl, rfl⟩
      simp only [Function.update_apply]
      split <;> simp_all
  | _ => first | exact ⟨rfl, fun _ ↦ rfl, rfl, rfl⟩ | cases hk

/-! ## The child -/

/-- The command and the child belong to the start loop that is in an attempt, and the state is
a running one until `waitForExit` has stored `Stopped`. -/
structure Child (c : Core) : Prop where
  cmd : ∀ t, (c.loops t).stage.hasCmd → c.cmd = some (c.loops t).att
  started : ∀ t, (c.loops t).stage.hasChild → (c.cmds (c.loops t).att).started
  target : ∀ i j, c.waiters i = .waiting j ∨ c.waiters i = .copying j → j = i
  waiter : ∀ i, (c.waiters i).pre → ∃ t, (c.loops t).stage = .watching ∧ (c.loops t).att = i
  alive : ∀ i, (c.cmds i).alive → ∃ t, (c.loops t).att = i ∧
    ((c.loops t).stage.newborn ∨ (c.loops t).stage = .watching ∧ (c.waiters i).awaits)
  up : ∀ t, ((c.loops t).stage = .making ∨ (c.loops t).stage = .made ∨
    (c.loops t).stage.newborn ∨
    (c.loops t).stage = .watching ∧ (c.waiters (c.loops t).att).pre) → c.state.isRunning

theorem Child.pid (hc : Child c) (hs : (c.loops t).stage.hasChild) :
    c.pid = some (c.loops t).att := by
  have hm := hc.cmd t (Stage.hasCmd_of_hasChild hs)
  have hst := hc.started t hs
  simp [Core.pid, hm, hst]

/-- The commands are created one after another, and each child is reaped once, by its own
`waitForExit`, before `Wait` returns for it. -/
structure Ids (c : Core) : Prop where
  loop : ∀ t, (c.loops t).stage.hasCmd → (c.loops t).att < c.nextCmd
  started : ∀ i, (c.cmds i).started → i < c.nextCmd
  reaped : ∀ i, (c.cmds i).reaped → (c.cmds i).started ∧ (c.cmds i).exited
  returned : ∀ i, (c.cmds i).waited → (c.cmds i).reaped
  newborn : ∀ t, (c.loops t).stage.newborn → (c.cmds (c.loops t).att).reaped = false
  early : ∀ i, (c.waiters i).early → (c.cmds i).reaped = false
  copying : ∀ i, c.waiters i = .copying i → (c.cmds i).reaped ∧ (c.cmds i).waited = false
  made : ∀ t, (c.loops t).stage = .made → (c.cmds (c.loops t).att).started = false
  monitor : ∀ i, (c.monitors i).stage ≠ .off → (c.cmds i).started

theorem Ids.waited (hc : Ids c) (i : CmdId) (h : (c.cmds i).waited) :
    (c.cmds i).started ∧ (c.cmds i).exited :=
  hc.reaped i (hc.returned i h)

/-- The step has created the command of the start loop. -/
structure Creates (c c' : Core) (t : Tid) : Prop where
  stage : (c'.loops t).stage = .made
  att : (c'.loops t).att = c.nextCmd
  cmd : c'.cmd = some c.nextCmd
  nextCmd : c'.nextCmd = c.nextCmd + 1
  started : (c'.cmds c.nextCmd).started = false

/-- The start loop goes on with its command, which may have been started. -/
structure GoesOn (c : Core) (k : Label) (c' : Core) (t : Tid) : Prop where
  hasCmd : (c.loops t).stage.hasCmd
  keeps : (c'.loops t).Keeps (c.loops t)
  cmd : c'.cmd = c.cmd
  nextCmd : c'.nextCmd = c.nextCmd
  child : (c'.loops t).stage.hasChild → (c.loops t).stage.hasChild ∧ c'.cmds = c.cmds ∨
    k = .spawned t ∧ (c'.cmds (c.loops t).att).started
  made : (c'.loops t).stage = .made → (c.loops t).stage = .made ∧ c'.cmds = c.cmds

/-- A start loop that has a command has created it or has had it before. -/
theorem creates_or_goesOn (h : Move cfg c k c') (hk : k.loop = some t)
    (hs' : (c'.loops t).stage.hasCmd) : Creates c c' t ∨ GoesOn c k c' t := by
  cases h with
  | create _ hl ha =>
      cases hk
      refine .inl ⟨?_, ?_, rfl, rfl, ?_⟩
      all_goals simp only [Function.update_self, hl, ha.1]
  | spawn hs hl ha =>
      cases hk
      refine .inr ⟨by rw [hs]; rfl, ?_, rfl, rfl, fun _ ↦ .inr ⟨rfl, ?_⟩, fun hm ↦ ?_⟩
      · simpa only [Function.update_self] using ha
      · simp only [Function.update_self]
      · simp only [Function.update_self] at hm
        rcases hl with ⟨hl, -⟩ | ⟨hl, -⟩ <;> rw [hl] at hm <;> cases hm
  | loop hs _ ha =>
      cases hk
      simp only [Function.update_self, hs] at hs'
      refine .inr ⟨hs', ?_, rfl, rfl, fun h ↦ .inl ⟨?_, rfl⟩, fun h ↦ ⟨?_, rfl⟩⟩
      · simpa only [Function.update_self] using ha
      all_goals simpa only [Function.update_self, hs] using h
  | up hs hl ha | release hs hl ha | see hs _ hl ha | tell hs hl ha | relock _ hs hl ha
  | excuse hs _ hl ha | blame hs _ hl ha | verdict hs hl ha | exhaust hs _ hl ha =>
      -- the child has been spawned before
      cases hk
      refine .inr ⟨by rw [hs]; rfl, ?_, rfl, rfl, fun _ ↦ .inl ⟨by rw [hs]; rfl, rfl⟩, fun h ↦ ?_⟩
      · simpa only [Function.update_self] using ha
      · simp only [Function.update_self, hl] at h
        cases h
  | accept _ _ hl | enter _ _ hl | refused _ _ hl | busy _ hl | clear _ _ hl | quit _ _ hl
  | pause _ hl | resume _ _ hl | starting _ hl | fail _ hl | createFatal _ hl | spawnFatal _ hl
  | retry _ hl | closeExited _ hl | closeStopped _ hl | backoff _ _ hl | retryFatal _ hl
  | gaveUp _ hl | leave _ hl | finish _ _ hl =>
      cases hk
      simp only [Function.update_self, hl] at hs'
      cases hs'
  | pass _ _ hl | rest _ hl | decide _ hl =>
      cases hk
      simp only [Function.update_self, hl] at hs'
      split_ifs at hs' <;> cases hs'
  | _ => cases hk

theorem Child.cmd_move (hc : Child c) (ht : Turns c) (h : Move cfg c k c')
    (hs : (c'.loops t).stage.hasCmd) : c'.cmd = some (c'.loops t).att := by
  have hcmd := hc.cmd t
  rcases ht.own_or_none h (Stage.ne_idle_of_hasCmd hs) with hk | ⟨hk, hl⟩
  · rcases creates_or_goesOn h hk hs with hn | hg
    · rw [hn.cmd, hn.att]
    · rw [hg.cmd, hg.keeps.1]
      exact hcmd hg.hasCmd
  · rw [hl] at hs ⊢
    rw [(same_of_none h hk).cmd]
    exact hcmd hs

theorem Child.started_move (hc : Child c) (ht : Turns c) (h : Move cfg c k c')
    (hs : (c'.loops t).stage.hasChild) : (c'.cmds (c'.loops t).att).started := by
  have hst := hc.started t
  rcases ht.own_or_none h (Stage.ne_idle_of_hasCmd (Stage.hasCmd_of_hasChild hs)) with
    hk | ⟨hk, hl⟩
  · rcases creates_or_goesOn h hk (Stage.hasCmd_of_hasChild hs) with hn | hg
    · rw [hn.stage] at hs
      cases hs
    · rw [hg.keeps.1]
      rcases hg.child hs with ⟨hs, hcmds⟩ | ⟨-, hstarted⟩
      · rw [hcmds]
        exact hst hs
      · exact hstarted
  · rw [hl] at hs ⊢
    rw [(same_of_none h hk).started]
    exact hst hs

theorem Child.target_move (hc : Child c) (h : Move cfg c k c') :
    ∀ i j, c'.waiters i = .waiting j ∨ c'.waiters i = .copying j → j = i := by
  have htg := hc.target
  intro i j
  cases h with
  | release | reaped | returned | noChild | stopped | waiter =>
      simp only [Function.update_apply]
      grind -linarith
  | wait =>
      -- the command is still that of the start loop that has called `waitForExit`
      have hw := hc.waiter
      have hcmd := hc.cmd
      simp only [Function.update_apply]
      grind -linarith
  | _ => exact htg i j

theorem Child.waiter_move (hc : Child c) (ht : Turns c) (h : Move cfg c k c')
    (hi : (c'.waiters i).pre) : ∃ t, (c'.loops t).stage = .watching ∧ (c'.loops t).att = i := by
  have hw := hc.waiter i
  by_cases hpre : (c.waiters i).pre
  · obtain ⟨t, hst, hat⟩ := hw hpre
    by_cases hk : k.loop = some t
    · -- `run` only goes on when `waitForExit` has stored `Stopped`
      refine ⟨t, ?_⟩
      cases h with
      | loop hs _ ha =>
          cases hk
          simp only [Function.update_self, hs]
          exact ⟨hst, ha.1.trans hat⟩
      | see hs hg =>
          cases hk
          subst hat
          have hup := hc.up t (.inr (.inr (.inr ⟨hs, hpre⟩)))
          rcases hg with hg | hg
          · rw [hg] at hpre
            cases hpre
          · rw [hg] at hup
            cases hup
      | accept hfree hnot =>
          cases hk
          have hin := ht.inStart t (by rw [hst]; decide)
          rw [hnot] at hin
          cases hin
      | fail hs =>
          cases hk
          rcases hs with hs | ⟨hs, -⟩ <;> rw [hs] at hst <;> cases hst
      | _ =>
          -- no other stage watches
          cases hk
          all_goals
            rw [‹(c.loops t).stage = _›] at hst
            cases hst
    · exact ⟨t, by rw [h.loops_eq hk]; exact ⟨hst, hat⟩⟩
  · cases h with
    | release =>
        simp only [Function.update_apply] at hi ⊢
        grind -linarith
    | wait | reaped | returned | noChild | stopped | waiter =>
        simp only [Function.update_apply] at hi
        grind -linarith
    | _ => exact absurd hi hpre

theorem Child.alive_move (hc : Child c) (ht : Turns c) (hids : Ids c) (h : Move cfg c k c')
    (hi : (c'.cmds i).alive) :
    ∃ t, (c'.loops t).att = i ∧ ((c'.loops t).stage.newborn ∨
      (c'.loops t).stage = .watching ∧ (c'.waiters i).awaits) := by
  by_cases hal : (c.cmds i).alive
  · obtain ⟨t, hat, hst⟩ := hc.alive i hal
    refine ⟨t, ?_⟩
    by_cases hk : k.loop = some t
    · cases h with
      | loop hs hne ha =>
          cases hk
          simp only [Function.update_self, hs]
          exact ⟨ha.1.trans hat, hst⟩
      | up hs hl ha =>
          cases hk
          simp only [Function.update_self, hl]
          exact ⟨ha.1.trans hat, .inl rfl⟩
      | release hs hl ha =>
          cases hk
          subst hat
          simp only [Function.update_self, hl]
          exact ⟨ha.1, .inr ⟨trivial, rfl⟩⟩
      | see hs hg =>
          -- `waitForExit` is not through, and has not stored `Stopped`
          cases hk
          subst hat
          rcases hst with hst | ⟨-, hw⟩
          · rw [hs] at hst
            cases hst
          · have hup := hc.up t (.inr (.inr (.inr ⟨hs, WaiterPc.pre_of_awaits hw⟩)))
            rcases hg with hg | hg
            · rw [hg] at hw
              cases hw
            · rw [hg] at hup
              cases hup
      | accept hfree hnot =>
          cases hk
          have hin := ht.inStart t fun hidle ↦ by
            rw [hidle] at hst
            rcases hst with hst | ⟨hst, -⟩ <;> cases hst
          rw [hnot] at hin
          cases hin
      | fail hs =>
          cases hk
          rcases hs with hs | ⟨hs, -⟩ <;> rw [hs] at hst <;> rcases hst with hst | ⟨hst, -⟩ <;>
            cases hst
      | _ =>
          -- no other stage has a child that is alive
          cases hk
          all_goals
            rw [‹(c.loops t).stage = _›] at hst
            rcases hst with hst | ⟨hst, -⟩ <;> cases hst
    · rw [h.loops_eq hk]
      refine ⟨hat, hst.imp_right fun hst ↦ ⟨hst.1, ?_⟩⟩
      have hcmd := hc.cmd t
      have htg := hc.target
      cases h with
      | noChild hs hj =>
          -- the process of a command that is waited for has not been reaped
          have hj' := hids.early i
          have hstarted := hc.started t (by rw [hst.1]; rfl)
          simp only [Function.update_apply] at hi ⊢
          grind -linarith
      | returned hs =>
          obtain rfl := htg _ _ (.inr hs)
          simp only [Function.update_apply] at hi ⊢
          grind -linarith
      | release | wait | reaped | stopped | waiter =>
          simp only [Function.update_apply] at hi ⊢
          grind -linarith
      | _ => exact hst.2
  · cases h with
    | create | spawn | reaped | returned | exit =>
        simp only [Function.update_apply] at hi ⊢
        grind -linarith
    | _ => exact absurd hi hal

theorem Child.up_move (hc : Child c) (ht : Turns c) (h : Move cfg c k c')
    (hs : (c'.loops t).stage = .making ∨ (c'.loops t).stage = .made ∨
      (c'.loops t).stage.newborn ∨
      (c'.loops t).stage = .watching ∧ (c'.waiters (c'.loops t).att).pre) : c'.state.isRunning := by
  have hup := hc.up t
  have hne : (c'.loops t).stage ≠ .idle := by
    intro hi
    rw [hi] at hs
    rcases hs with hs | hs | hs | ⟨hs, -⟩ <;> cases hs
  rcases ht.own_or_none h hne with hk | ⟨hk, hl⟩
  · cases h with
    | starting | up =>
        cases hk
        rfl
    | create hm =>
        cases hk
        exact hup (.inl hm)
    | spawn hm =>
        cases hk
        exact hup (.inr (.inl hm))
    | release hb =>
        cases hk
        exact hup (.inr (.inr (.inl (by rw [hb]; rfl))))
    | loop hl _ ha =>
        cases hk
        simp only [Function.update_self, hl, ha.1] at hs
        exact hup hs
    | pass _ _ hl | rest _ hl | decide _ hl =>
        cases hk
        simp only [Function.update_self, hl] at hs
        split_ifs at hs
        all_goals rcases hs with hs | hs | hs | ⟨hs, -⟩ <;> cases hs
    | accept _ _ hl | enter _ _ hl | refused _ _ hl | busy _ hl | clear _ _ hl | quit _ _ hl
    | pause _ hl | resume _ _ hl | fail _ hl | createFatal _ hl | spawnFatal _ hl | retry _ hl
    | see _ _ hl | tell _ hl | relock _ _ hl | excuse _ _ hl | blame _ _ hl | verdict _ hl
    | closeExited _ hl | closeStopped _ hl | backoff _ _ hl | exhaust _ _ hl | retryFatal _ hl
    | gaveUp _ hl | leave _ hl | finish _ _ hl =>
        cases hk
        simp only [Function.update_self, hl] at hs
        rcases hs with hs | hs | hs | ⟨hs, -⟩ <;> cases hs
    | _ => cases hk
  · rw [hl] at hs
    cases h with
    | stopping | monRunning => rfl
    | wait | reaped | returned | noChild | stopped | waiter =>
        have hw := hc.waiter
        have ho := ht.one t
        simp only [Function.update_apply] at hs
        grind -linarith
    | _ => first | exact hup hs | cases hk

theorem Child.move (hc : Child c) (ht : Turns c) (hids : Ids c) (h : Move cfg c k c') :
    Child c' where
  cmd _ hs := hc.cmd_move ht h hs
  started _ hs := hc.started_move ht h hs
  target := hc.target_move h
  waiter _ hi := hc.waiter_move ht h hi
  alive _ hi := hc.alive_move ht hids h hi
  up _ hs := hc.up_move ht h hs

theorem Ids.loop_move (hc : Ids c) (ht : Turns c) (h : Move cfg c k c')
    (hs : (c'.loops t).stage.hasCmd) : (c'.loops t).att < c'.nextCmd := by
  have hl := hc.loop t
  rcases ht.own_or_none h (Stage.ne_idle_of_hasCmd hs) with hk | ⟨hk, hloop⟩
  · rcases creates_or_goesOn h hk hs with hn | hg
    · rw [hn.att, hn.nextCmd]
      exact Nat.lt_succ_self _
    · rw [hg.keeps.1, hg.nextCmd]
      exact hl hg.hasCmd
  · rw [hloop] at hs ⊢
    rw [(same_of_none h hk).nextCmd]
    exact hl hs

theorem Ids.started_move (hc : Ids c) (h : Move cfg c k c') :
    ∀ i, (c'.cmds i).started → i < c'.nextCmd := by
  have hl := hc.loop
  have hs := hc.started
  intro i
  cases h with
  | create | spawn | reaped | returned | exit =>
      simp only [Function.update_apply]
      grind -linarith
  | _ => exact hs i

theorem Ids.reaped_move (hc : Ids c) (h : Move cfg c k c') :
    ∀ i, (c'.cmds i).reaped → (c'.cmds i).started ∧ (c'.cmds i).exited := by
  have hr := hc.reaped
  intro i
  cases h with
  | create | spawn | reaped | returned | exit =>
      simp only [Function.update_apply]
      grind -linarith
  | _ => exact hr i

theorem Ids.returned_move (hc : Ids c) (hd : Child c) (h : Move cfg c k c') :
    ∀ i, (c'.cmds i).waited → (c'.cmds i).reaped := by
  have hr := hc.returned
  intro i
  cases h with
  | returned hs =>
      obtain rfl := hd.target _ _ (.inr hs)
      have hcp := (hc.copying _ hs).1
      simp only [Function.update_apply]
      grind -linarith
  | create | spawn | reaped | exit =>
      simp only [Function.update_apply]
      grind -linarith
  | _ => exact hr i

theorem Ids.newborn_move (hc : Ids c) (ht : Turns c) (hd : Child c) (h : Move cfg c k c')
    (hs : (c'.loops t).stage.newborn) : (c'.cmds (c'.loops t).att).reaped = false := by
  have hn := hc.newborn t
  rcases ht.own_or_none h (Stage.ne_idle_of_hasCmd (Stage.hasCmd_of_newborn hs)) with
    hk | ⟨hk, hl⟩
  · cases h with
    | spawn hm _ ha =>
        -- what has not been started has not been reaped
        cases hk
        have hst := hc.made t hm
        have hr := hc.reaped (c.loops t).att
        simp only [Function.update_self, ha.1]
        grind
    | up hst _ ha =>
        cases hk
        simp only [Function.update_self, ha.1]
        exact hn (by rw [hst]; rfl)
    | loop hl _ ha =>
        cases hk
        simp only [Function.update_self, hl, ha.1] at hs ⊢
        exact hn hs
    | pass _ _ hl | rest _ hl | decide _ hl =>
        cases hk
        simp only [Function.update_self, hl] at hs
        split_ifs at hs <;> cases hs
    | accept _ _ hl | enter _ _ hl | refused _ _ hl | busy _ hl | clear _ _ hl | quit _ _ hl
    | pause _ hl | resume _ _ hl | starting _ hl | create _ hl | fail _ hl | createFatal _ hl
    | spawnFatal _ hl | retry _ hl | release _ hl | see _ _ hl | tell _ hl | relock _ _ hl
    | excuse _ _ hl | blame _ _ hl | verdict _ hl | closeExited _ hl | closeStopped _ hl
    | backoff _ _ hl | exhaust _ _ hl | retryFatal _ hl | gaveUp _ hl | leave _ hl
    | finish _ _ hl =>
        cases hk
        simp only [Function.update_self, hl] at hs
        cases hs
    | _ => cases hk
  · rw [hl] at hs ⊢
    cases h with
    | reaped hw | returned hw =>
        -- a child that is waited for is not that of an attempt under the lock
        have htg := hd.target
        have hpre := hd.waiter
        have ho := ht.one t
        simp only [Function.update_apply]
        grind -linarith
    | exit =>
        simp only [Function.update_apply]
        grind -linarith
    | _ => first | exact hn hs | cases hk

theorem Ids.early_move (hc : Ids c) (hd : Child c) (h : Move cfg c k c') :
    ∀ i, (c'.waiters i).early → (c'.cmds i).reaped = false := by
  have he := hc.early
  have hn := hc.newborn
  have htg := hd.target
  intro i
  cases h with
  | create | spawn | exit | release | wait | reaped | returned | noChild | stopped | waiter =>
      simp only [Function.update_apply]
      grind -linarith
  | _ => exact he i

theorem Ids.copying_move (hc : Ids c) (hd : Child c) (h : Move cfg c k c') :
    ∀ i, c'.waiters i = .copying i → (c'.cmds i).reaped ∧ (c'.cmds i).waited = false := by
  have hcp := hc.copying
  have hret := hc.returned
  have hr := hc.reaped
  have hst := hc.started
  have hm := hc.made
  have htg := hd.target
  intro i
  cases h with
  | returned hs =>
      obtain rfl := htg _ _ (.inr hs)
      simp only [Function.update_apply]
      grind -linarith
  | create | spawn | exit | release | wait | reaped | noChild | stopped | waiter =>
      simp only [Function.update_apply]
      grind -linarith
  | _ => exact hcp i

theorem Ids.made_move (hc : Ids c) (ht : Turns c) (h : Move cfg c k c')
    (hs : (c'.loops t).stage = .made) : (c'.cmds (c'.loops t).att).started = false := by
  have hm := hc.made t
  rcases ht.own_or_none h (by rw [hs]; decide) with hk | ⟨hk, hl⟩
  · rcases creates_or_goesOn h hk (by rw [hs]; rfl) with hn | hg
    · rw [hn.att]
      exact hn.started
    · obtain ⟨hs, hcmds⟩ := hg.made hs
      rw [hg.keeps.1, hcmds]
      exact hm hs
  · rw [hl] at hs ⊢
    rw [(same_of_none h hk).started]
    exact hm hs

/-- A child is never taken back. -/
theorem Ids.started_mono (hc : Ids c) (h : Move cfg c k c') (hi : (c.cmds i).started) :
    (c'.cmds i).started := by
  have hlt := hc.started i hi
  cases h with
  | create | spawn | reaped | returned | exit =>
      simp only [Function.update_apply]
      grind -linarith
  | _ => exact hi

theorem Ids.monitor_move (hc : Ids c) (hd : Child c) (h : Move cfg c k c')
    (hi : (c'.monitors i).stage ≠ .off) : (c'.cmds i).started := by
  by_cases hs : (c.monitors i).stage = .off
  · cases h with
    | spawn | up | tell | monitor | monEnter | monPass | monDrop | monRunning | monLeave
    | answer =>
        have hst := hd.started
        simp only [Function.update_apply] at hi ⊢
        grind -linarith
    | _ => exact absurd hs hi
  · exact hc.started_mono h (hc.monitor i hs)

theorem Ids.move (hc : Ids c) (ht : Turns c) (hd : Child c) (h : Move cfg c k c') : Ids c' where
  loop _ hs := hc.loop_move ht h hs
  started := hc.started_move h
  reaped := hc.reaped_move h
  returned := hc.returned_move hd h
  newborn _ hs := hc.newborn_move ht hd h hs
  early := hc.early_move hd h
  copying := hc.copying_move hd h
  made _ hs := hc.made_move ht h hs
  monitor _ hi := hc.monitor_move hd h hi

/-- A child that has not exited is alive. -/
theorem Ids.alive (hc : Ids c) (hs : (c.cmds i).started) (he : (c.cmds i).exited = false) :
    (c.cmds i).alive := by
  have hw := hc.waited i
  grind

/-! ## The monitors -/

/-- A monitor that may still store `Running` watches the child of the start loop. -/
structure Watch (c : Core) : Prop where
  fresh : ∀ i, ((c.monitors i).stage = .early ∨ (c.monitors i).stage = .checking) →
    (c.monitors i).programExited = false → ∃ t, (c.loops t).att = i ∧
      ((c.loops t).stage.newborn ∨ (c.loops t).stage = .watching ∨ (c.loops t).stage = .seen)
  passed : ∀ i, (c.monitors i).stage = .passed → ∃ t, (c.loops t).att = i ∧
    ((c.loops t).stage = .watching ∨ (c.loops t).stage = .seen ∨ (c.loops t).stage = .settling)

theorem Watch.fresh_move (hc : Watch c) (ht : Turns c) (h : Move cfg c k c')
    (hi : (c'.monitors i).stage = .early ∨ (c'.monitors i).stage = .checking)
    (he : (c'.monitors i).programExited = false) : ∃ t, (c'.loops t).att = i ∧
      ((c'.loops t).stage.newborn ∨ (c'.loops t).stage = .watching ∨
        (c'.loops t).stage = .seen) := by
  have hbefore : ((c.monitors i).stage = .early ∨ (c.monitors i).stage = .checking) ∧
      (c.monitors i).programExited = false ∨ ∃ t, k = .spawned t ∧ (c.loops t).att = i := by
    cases h with
    | spawn | up | tell | monitor | monEnter | monPass | monDrop | monRunning | monLeave
    | answer =>
        simp only [Function.update_apply] at hi he
        grind -linarith
    | _ => exact .inl ⟨hi, he⟩
  rcases hbefore with ⟨hi', he'⟩ | ⟨t, rfl, hat⟩
  · obtain ⟨t, hat, hst⟩ := hc.fresh i hi' he'
    refine ⟨t, ?_⟩
    by_cases hk : k.loop = some t
    · cases h with
      | loop hs _ ha =>
          cases hk
          simp only [Function.update_self, hs]
          exact ⟨ha.1.trans hat, hst⟩
      | up _ hl ha | release _ hl ha | see _ _ hl ha =>
          cases hk
          simp only [Function.update_self, hl]
          exact ⟨ha.1.trans hat, by decide⟩
      | tell =>
          -- `run` has told the monitor
          cases hk
          subst hat
          simp only [Function.update_self] at he
          cases he
      | accept _ hnot =>
          cases hk
          rw [ht.inStart t fun hidle ↦ by rw [hidle] at hst; exact absurd hst (by decide)] at hnot
          cases hnot
      | fail hs =>
          cases hk
          rcases hs with hs | ⟨hs, -⟩ <;> rw [hs] at hst <;> exact absurd hst (by decide)
      | _ =>
          cases hk
          all_goals
            rw [‹(c.loops t).stage = _›] at hst
            rcases hst with hst | hst | hst <;> cases hst
    · rw [h.loops_eq hk]
      exact ⟨hat, hst⟩
  · refine ⟨t, ?_⟩
    cases h
    simp only [Function.update_self]
    grind

theorem Watch.passed_move (hc : Watch c) (ht : Turns c) (hl : Locks c) (h : Move cfg c k c')
    (hi : (c'.monitors i).stage = .passed) : ∃ t, (c'.loops t).att = i ∧
      ((c'.loops t).stage = .watching ∨ (c'.loops t).stage = .seen ∨
        (c'.loops t).stage = .settling) := by
  have hlm := hl.monitor i
  by_cases hp : (c.monitors i).stage = .passed
  · obtain ⟨t, hat, hst⟩ := hc.passed i hp
    refine ⟨t, ?_⟩
    by_cases hk : k.loop = some t
    · cases h with
      | loop hs _ ha =>
          cases hk
          simp only [Function.update_self, hs]
          exact ⟨ha.1.trans hat, hst⟩
      | see _ _ hl ha | tell _ hl ha =>
          cases hk
          simp only [Function.update_self, hl]
          exact ⟨ha.1.trans hat, by decide⟩
      | relock hfree =>
          -- `run` cannot take the lock, which the monitor holds
          rw [hlm (by rw [hp]; rfl)] at hfree
          cases hfree
      | accept _ hnot =>
          cases hk
          rw [ht.inStart t fun hidle ↦ by rw [hidle] at hst; exact absurd hst (by decide)] at hnot
          cases hnot
      | fail hs =>
          cases hk
          rcases hs with hs | ⟨hs, -⟩ <;> rw [hs] at hst <;> exact absurd hst (by decide)
      | _ =>
          cases hk
          all_goals
            rw [‹(c.loops t).stage = _›] at hst
            rcases hst with hst | hst | hst <;> cases hst
    · rw [h.loops_eq hk]
      exact ⟨hat, hst⟩
  · cases h with
    | monPass =>
        have hf := hc.fresh i
        have hll := hl.loop
        simp only [Function.update_apply] at hi ⊢
        grind -linarith
    | spawn | up | tell | monitor | monEnter | monDrop | monRunning | monLeave | answer =>
        simp only [Function.update_apply] at hi
        grind -linarith
    | _ => exact absurd hi hp

/-! ## Reachable states -/

/-- What holds in every reachable state. -/
structure Inv (c : Core) : Prop where
  turns : Turns c
  locks : Locks c
  child : Child c
  ids : Ids c
  watch : Watch c

theorem Inv.move (hc : Inv c) (h : Move cfg c k c') : Inv c' where
  turns := hc.turns.move h
  locks := hc.locks.move h
  child := hc.child.move hc.turns hc.ids h
  ids := hc.ids.move hc.turns hc.child h
  watch :=
    { fresh := fun _ hi he ↦ hc.watch.fresh_move hc.turns h hi he
      passed := fun _ hi ↦ hc.watch.passed_move hc.turns hc.locks h hi }

theorem Inv.init : Inv {} where
  turns := ⟨fun _ h ↦ absurd rfl h, fun _ _ h ↦ absurd rfl h⟩
  locks := ⟨fun _ h ↦ (nomatch h), fun _ h ↦ (nomatch h)⟩
  child :=
    { cmd := fun _ h ↦ (nomatch h)
      started := fun _ h ↦ (nomatch h)
      target := fun _ _ h ↦ by rcases h with h | h <;> cases h
      waiter := fun _ h ↦ (nomatch h)
      alive := fun _ h ↦ (nomatch h)
      up := fun _ h ↦ by rcases h with h | h | h | ⟨h, _⟩ <;> cases h }
  ids :=
    { loop := fun _ h ↦ (nomatch h)
      started := fun _ h ↦ (nomatch h)
      reaped := fun _ h ↦ (nomatch h)
      returned := fun _ h ↦ (nomatch h)
      newborn := fun _ h ↦ (nomatch h)
      early := fun _ _ ↦ rfl
      copying := fun _ h ↦ (nomatch h)
      made := fun _ h ↦ (nomatch h)
      monitor := fun _ h ↦ absurd rfl h }
  watch :=
    { fresh := fun _ h ↦ by rcases h with h | h <;> cases h
      passed := fun _ h ↦ (nomatch h) }

/-- There is a process to be reaped where `waitForExit` waits for one. -/
theorem Inv.hasPid_of_waiting (hc : c.Inv) {l : CmdId} (hp : c.waiters i = .waiting l) :
    l = i ∧ (c.cmds l).hasPid = true := by
  obtain rfl := hc.child.target i l (.inl hp)
  obtain ⟨t, ht, rfl⟩ := hc.child.waiter l (by rw [hp]; rfl)
  have hst := hc.child.started t (by rw [ht]; rfl)
  have hr := hc.ids.early (c.loops t).att (by rw [hp]; rfl)
  exact ⟨rfl, Cmd.hasPid_iff.mpr ⟨hst, hr⟩⟩

/-- `Wait` returns only for a child that has exited. -/
theorem Inv.exited_of_copying (hc : c.Inv) {l : CmdId} (hp : c.waiters i = .copying l) :
    l = i ∧ (c.cmds l).started = true ∧ (c.cmds l).exited = true := by
  obtain rfl := hc.child.target i l (.inr hp)
  exact ⟨rfl, hc.ids.reaped l (hc.ids.copying l hp).1⟩

end Core

theorem Core.Inv.step_move {cfg : Config} {s s' : Sys} {a : Act} (hi : s.toCore.Inv)
    (h : s.step cfg a = some s') : Move cfg s.toCore (s.label a) s'.toCore := by
  refine Sys.step_move (fun t ht ↦ ?_) (fun i hp ↦ ?_) h
  · rw [hi.child.pid ht]
    exact Option.some_ne_none _
  · obtain ⟨t, -, ht⟩ := hi.watch.passed i hp
    rw [hi.child.pid (t := t) (by rcases ht with ht | ht | ht <;> rw [ht] <;> rfl)]
    exact Option.some_ne_none _

theorem reachable_inv {cfg : Config} {s : Sys} (h : (machine cfg).Reachable s) :
    s.toCore.Inv :=
  h.invariant (P := fun s ↦ s.toCore.Inv) .init fun _ _ _ _ hi _ hst ↦
    hi.move (hi.step_move hst)

/-- A start loop is active from the `Start` that launches it until `inStart` is reset. -/
def Loop.active (l : Loop) : Bool := l.pc ≠ .off ∧ l.pc ≠ .done

theorem Loop.active_iff {l : Loop} : l.active ↔ l.stage ≠ .idle := by
  cases h : l.pc with
  | change k ph => simp [active, stage, h, Sys.change_stage_ne]
  | _ => simp [active, stage, h, LoopPc.stage]

/-- **One start loop, one child.**  Whatever is called on a process and however the goroutines
are interleaved, no two start loops are active and no two children are alive. -/
theorem one_loop_one_child {cfg : Config} {s : Sys} (h : (machine cfg).Reachable s) :
    (∀ t u, (s.loops t).active → (s.loops u).active → t = u) ∧
      ∀ i j, (s.cmds i).alive → (s.cmds j).alive → i = j := by
  have hi := reachable_inv h
  constructor
  · intro t u ht hu
    exact hi.turns.one t u (Loop.active_iff.mp ht) (Loop.active_iff.mp hu)
  · intro i j hai haj
    -- a living child belongs to the attempt of an active start loop
    obtain ⟨t, rfl, ht⟩ := hi.child.alive i hai
    obtain ⟨u, rfl, hu⟩ := hi.child.alive j haj
    have hidle : ∀ {v : Tid} {p : Prop}, (s.loops v).stage.newborn ∨
        (s.loops v).stage = .watching ∧ p → (s.loops v).stage ≠ .idle := by
      rintro v p (hv | ⟨hv, _⟩) hi <;> rw [hi] at hv <;> cases hv
    rw [hi.turns.one t u (hidle ht) (hidle hu)]

/-- A program is started and stays up for `startsecs`. -/
def startAndRun : List Act :=
  List.flatten [[.call 0 (.start false), .caller 0 .ok], .replicate 12 (.loop 0 .ok),
    .replicate 9 (.monitor 0)]

set_option maxRecDepth 4000 in
/-- With a program up, its start loop and its child are the only ones. -/
theorem one_loop_one_child_running : ∃ s : Sys, (machine {}).Reachable s ∧
    (∀ t, (s.loops t).active → t = 0) ∧ ∀ i, (s.cmds i).alive → i = 0 := by
  obtain ⟨s, hs, hp⟩ := Machine.exists_reachable (m := machine {})
    (fun s ↦ (s.loops 0).active && (s.cmds 0).alive) startAndRun (by decide +kernel)
  obtain ⟨hl, hc⟩ := Bool.and_eq_true_iff.mp hp
  obtain ⟨h₁, h₂⟩ := one_loop_one_child hs
  exact ⟨s, hs, fun t ht ↦ h₁ t 0 ht hl, fun i hi ↦ h₂ i 0 hi hc⟩

/-! ## Histories -/

section History

universe w

variable {η : Type w}

/-- A process beside an observer that sees the labels of its steps. -/
def observed (cfg : Config) (h₀ : η) (next : η → Core → Label → η) : Machine (Sys × η) Act :=
  (machine cfg).observe h₀ fun h s a _ ↦ next h s.toCore (s.label a)

/-- The steps whose label meets a condition. -/
def heeds (cond : η → Core → Label → Prop) : Sys × η → Act → Prop :=
  fun w a ↦ cond w.2 w.1.toCore (w.1.label a)

variable {cfg : Config} {h₀ : η} {next : η → Core → Label → η}
  {ok : Sys × η → Act → Prop} {cond : η → Core → Label → Prop} {w : Sys × η}

theorem observed_inv (hw : (observed cfg h₀ next).Reach ok w) : w.1.toCore.Inv :=
  reachable_inv hw.fst

/-- The invariant rule for observed processes. -/
theorem observed_step_invariant {P : Sys → η → Prop} (hinit : P {} h₀)
    (hstep : ∀ {s h a s'}, s.toCore.Inv → P s h → ok (s, h) a → s.step cfg a = some s' →
      P s' (next h s.toCore (s.label a)))
    (hw : (observed cfg h₀ next).Reach ok w) : P w.1 w.2 := by
  refine hw.invariant (P := fun w ↦ P w.1 w.2) hinit ?_
  intro v a v' hv hp hok hst
  obtain ⟨s', hs', rfl⟩ := Machine.observe_step_eq_some.mp hst
  exact hstep (observed_inv hv) hp hok hs'

/-- The same for a property of the core: a step is a `Move` with a label. -/
theorem observed_invariant {P : Core → η → Prop} (hinit : P {} h₀)
    (hmove : ∀ {c k c' h}, c.Inv → P c h → cond h c k → Move cfg c k c' → P c' (next h c k))
    (hw : (observed cfg h₀ next).Reach (heeds cond) w) : P w.1.toCore w.2 :=
  observed_step_invariant (P := fun s h ↦ P s.toCore h) hinit
    (fun hc hp hok hst ↦ hmove hc hp hok (hc.step_move hst)) hw

/-- The same for runs under no condition. -/
theorem observed_reachable {P : Core → η → Prop} (hinit : P {} h₀)
    (hmove : ∀ {c k c' h}, c.Inv → P c h → Move cfg c k c' → P c' (next h c k))
    (hw : (observed cfg h₀ next).Reachable w) : P w.1.toCore w.2 :=
  observed_invariant hinit (fun hc hp _ hm ↦ hmove hc hp hm)
    (show (observed cfg h₀ next).Reach (heeds fun _ _ _ ↦ True) w from hw)

end History

end Supervisord.Process
