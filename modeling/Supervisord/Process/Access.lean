import Supervisord.Process.Frame

/-!
# Reading the pid

`GetPid` and `GetDescription` load the state first and read `p.cmd.Process.Pid` later, under the
read lock; `Stop` reads it for its event under no lock.  In between an attempt may have failed,
or the next one may have put a command in place that is not started yet: `p.cmd.Process` is nil
then.  `access_safe` says that these are the only ways to a nil pointer, and that
`GetExitstatus`, which needs no more than a command, has none.
-/

namespace Supervisord.Process

/-- The accessor dereferences the process when it has loaded this state. -/
def Accessor.needsPid : Accessor → State → Bool
  | .getPid, st => st.isRunning
  | .getDescription, st => st = .running
  | .getExitstatus, _ => false

/-- The accessor dereferences the command when it has loaded this state. -/
def Accessor.needsCmd : Accessor → State → Bool
  | .getExitstatus, st => st = .exited || st = .backoff
  | .getPid, _ | .getDescription, _ => false

theorem Accessor.needsPid_isRunning {k : Accessor} {st : State} (h : k.needsPid st) :
    st.isRunning := by
  cases k with
  | getPid => exact h
  | getDescription => rw [of_decide_eq_true h]; rfl
  | getExitstatus => cases h

theorem Sys.accessCrash_eq {s : Sys} {k : Accessor} {st : State} (h : s.accessCrash k st) :
    k.needsPid st ∧ s.pid = none ∨ k.needsCmd st ∧ s.cmd = none := by
  cases k <;> simpa [accessCrash, Accessor.needsPid, Accessor.needsCmd] using h

/-- The steps that do not race with a reading of the pid. -/
structure Calm (s : Sys) (a : Act) : Prop where
  /-- Where `run` unlocks with no process behind `p.cmd`, no accessor is about to read its pid. -/
  release : ∀ t ch, a = .loop t ch → (s.loops t).pc = .pause ∨ (s.loops t).pc = .leave →
    s.pid = none → ∀ u k st, s.callers u = .accessRead k st → k.needsPid st = false
  /-- `Stop` finds the process running only with a process behind `p.cmd`. -/
  check : ∀ u ch wait restart, a = .caller u ch → s.callers u = .stopCheck wait restart →
    s.state.isRunning → s.pid ≠ none
  /-- Where `run` replaces `p.cmd`, no `Stop` is in its state change. -/
  create : ∀ t, s.label a = .created t →
    ∀ u wait restart ph, s.callers u ≠ .stopChange wait restart ph

variable {cfg : Config} {c c' : Core} {k : Label}

/-! ## The command -/

namespace Core

theorem pid_ne_none : c.pid ≠ none ↔ ∃ i, c.cmd = some i ∧ (c.cmds i).started := by
  unfold pid
  cases c.cmd <;> simp [Option.filter_eq_none_iff]

theorem cmd_move (hm : Move cfg c k c') (h : c.cmd ≠ none) : c'.cmd ≠ none := by
  cases hm <;> first | exact h | exact Option.some_ne_none _

/-- Only a new command takes the process away. -/
theorem pid_move (hm : Move cfg c k c') (hk : ∀ t, k ≠ .created t) (h : c.pid ≠ none) :
    c'.pid ≠ none := by
  rw [pid_ne_none] at h ⊢
  cases hm with
  | create => exact absurd rfl (hk _)
  | spawn | reaped | returned | exit =>
      simp only [Function.update_apply]
      grind -linarith
  | _ => exact h

/-- The state is a running one only with a process behind `p.cmd`, or during an attempt. -/
def Backing (c : Core) : Prop :=
  c.state.isRunning → c.pid ≠ none ∨
    ∃ t, (c.loops t).stage = .making ∨ (c.loops t).stage = .made ∨
      ∃ k, (c.loops t).stage = .failed k

/-- The state is an ended one only with a command. -/
structure Ended (c : Core) : Prop where
  cmd : c.state = .exited ∨ c.state = .backoff → c.cmd ≠ none
  failed : ∀ t, (c.loops t).stage = .failed .spawnBackoff → c.cmd ≠ none

theorem Backing.move (hc : c.Inv) (hb : Backing c) (hs : ∀ t, k = .stopping t → c.pid ≠ none)
    (hm : Move cfg c k c') : Backing c' := by
  intro hr
  by_cases hat : ∃ t, (c.loops t).stage = .making ∨ (c.loops t).stage = .made ∨
      ∃ k, (c.loops t).stage = .failed k
  · obtain ⟨t, ht⟩ := hat
    by_cases hk : k.loop = some t
    · -- the attempt goes on, has spawned a child, or has failed and stores its state
      have hnew : (c'.loops t).stage.hasChild → c'.pid ≠ none := fun ht ↦ by
        rw [(hc.move hm).child.pid ht]
        exact Option.some_ne_none _
      have hin : (c'.loops t).stage.hasChild ∨ (c'.loops t).stage = .making ∨
          (c'.loops t).stage = .made ∨ ∃ k, (c'.loops t).stage = .failed k := by
        cases hm with
        | loop hst =>
            cases hk
            simp only [Function.update_self, hst]
            exact .inr ht
        | accept _ hnot =>
            cases hk
            have hin := hc.turns.inStart t fun hidle ↦ by simp [hidle] at ht
            rw [hnot] at hin
            cases hin
        | create _ hl =>
            cases hk
            simp only [Function.update_self, hl]
            exact .inr (.inr (.inl trivial))
        | fail _ hl =>
            cases hk
            simp only [Function.update_self, hl]
            exact .inr (.inr (.inr ⟨_, rfl⟩))
        | spawn _ hl =>
            cases hk
            rcases hl with ⟨hl, -⟩ | ⟨hl, -⟩ <;> simp only [Function.update_self, hl] <;>
              exact .inl rfl
        | createFatal | spawnFatal | retry => cases hr
        | _ =>
            cases hk
            all_goals simp [‹(c.loops t).stage = _›] at ht
      exact hin.imp hnew fun h ↦ ⟨t, h⟩
    · refine .inr ⟨t, ?_⟩
      rw [hm.loops_eq hk]
      exact ht
  · by_cases hp : c.pid = none
    · have hno : ¬c.state.isRunning := fun hrun ↦ (hb hrun).elim (· hp) hat
      have hchild (t) (ht : (c.loops t).stage.hasChild) : False := by
        rw [hc.child.pid ht] at hp
        cases hp
      cases hm with
      | @starting t _ _ hl =>
          refine .inr ⟨t, .inl ?_⟩
          simp only [Function.update_self, hl]
      | stopping => exact absurd hp (hs _ rfl)
      | @up t _ _ ht => exact (hchild t (by rw [ht]; rfl)).elim
      | monRunning hm =>
          obtain ⟨t, -, ht⟩ := hc.watch.passed _ hm
          refine (hchild t ?_).elim
          rcases ht with ht | ht | ht <;> rw [ht] <;> rfl
      | _ => first | exact absurd hr hno | cases hr
    · refine .inl (Core.pid_move hm (fun t he ↦ ?_) hp)
      subst he
      cases hm with
      | create hm => exact hat ⟨t, .inl hm⟩

theorem Ended.move (hc : c.Inv) (he : Ended c) (hm : Move cfg c k c') : Ended c' := by
  obtain ⟨hcmd, hf⟩ := he
  have hh := hc.child.cmd
  constructor
  · intro hst
    by_cases hno : c.cmd = none
    · cases hm with
      | retry hs => exact absurd hno (hf _ hs)
      | closeExited hs | backoff hs | exhaust hs =>
          have hsome := hh _ (by rw [hs]; rfl)
          rw [hno] at hsome
          cases hsome
      | _ => first | exact absurd hno (hcmd hst) | rcases hst with hst | hst <;> cases hst
    · exact cmd_move hm hno
  · intro t ht
    by_cases hk : k.loop = some t
    · cases hm with
      | loop hs =>
          cases hk
          simp only [Function.update_self, hs] at ht
          exact hf t ht
      | fail hs hl =>
          cases hk
          simp only [Function.update_self, hl, Stage.failed.injEq] at ht
          subst ht
          have hmade : (c.loops t).stage = .made := hs.resolve_right fun hs ↦ nomatch hs.2
          rw [hh t (by rw [hmade]; rfl)]
          exact Option.some_ne_none _
      | pass _ _ hl | rest _ hl | decide _ hl =>
          cases hk
          simp only [Function.update_self, hl] at ht
          split at ht <;> cases ht
      | spawn _ hl =>
          cases hk
          rcases hl with ⟨hl, -⟩ | ⟨hl, -⟩ <;> simp only [Function.update_self, hl] at ht <;>
            cases ht
      | accept _ _ hl | enter _ _ hl | refused _ _ hl | busy _ hl | clear _ _ hl | quit _ _ hl
      | pause _ hl | resume _ _ hl | starting _ hl | create _ hl | createFatal _ hl
      | spawnFatal _ hl | retry _ hl | up _ hl | release _ hl | see _ _ hl | tell _ hl
      | relock _ _ hl | excuse _ _ hl | blame _ _ hl | verdict _ hl | closeExited _ hl
      | closeStopped _ hl | backoff _ _ hl | exhaust _ _ hl | retryFatal _ hl | gaveUp _ hl
      | leave _ hl | finish _ _ hl =>
          cases hk
          simp only [Function.update_self, hl] at ht
          cases ht
      | _ => cases hk
    · rw [hm.loops_eq hk] at ht
      exact cmd_move hm (hf t ht)

end Core

/-- A start loop unlocks with a child, for the restart pause, or at the end of `run`. -/
theorem Core.holds_move {t : Tid} (hm : Move cfg c k c') (hs : (c.loops t).stage.holds)
    (hi : c.Inv) : (c'.loops t).stage.holds ∨ (c.loops t).stage.hasChild ∨
      k.loop = some t ∧ ((c.loops t).stage = .pausing ∨
        (c.loops t).stage = .over ∧ (c'.loops t).stage = .rested) := by
  by_cases hk : k.loop = some t
  · cases hm with
    | loop hst =>
        cases hk
        simp only [Function.update_self, hst]
        exact .inl hs
    | accept _ hnot =>
        cases hk
        have hin := hi.turns.inStart t fun hidle ↦ by rw [hidle] at hs; cases hs
        rw [hnot] at hin
        cases hin
    | pause hst => exact .inr (.inr ⟨hk, .inl (by cases hk; exact hst)⟩)
    | leave hst hl =>
        refine .inr (.inr ⟨hk, .inr ?_⟩)
        cases hk
        simp only [Function.update_self, hl]
        exact ⟨hst, trivial⟩
    | release hst | see hst | tell hst | relock _ hst =>
        cases hk
        exact .inr (.inl (by rw [hst]; rfl))
    | enter _ hst | resume _ hst | rest hst | decide hst | finish _ hst =>
        cases hk
        rw [hst] at hs
        cases hs
    | pass _ _ hl =>
        cases hk
        simp only [Function.update_self, hl]
        split <;> exact .inl rfl
    | spawn _ hl =>
        cases hk
        rcases hl with ⟨hl, -⟩ | ⟨hl, -⟩ <;> simp only [Function.update_self, hl] <;> exact .inl rfl
    | refused _ _ hl | busy _ hl | clear _ _ hl | quit _ _ hl | starting _ hl | create _ hl
    | fail _ hl | createFatal _ hl | spawnFatal _ hl | retry _ hl | up _ hl | excuse _ _ hl
    | blame _ _ hl | verdict _ hl | closeExited _ hl | closeStopped _ hl | backoff _ _ hl
    | exhaust _ _ hl | retryFatal _ hl | gaveUp _ hl =>
        cases hk
        simp only [Function.update_self, hl]
        exact .inl rfl
    | _ => cases hk
  · rw [hm.loops_eq hk]
    exact .inl hs

/-! ## The calls -/

namespace Sys

variable {s s' : Sys} {a : Act} {t u : Tid} {ch : Choice}

theorem pc_of_pausing {l : Loop} (h : l.stage = .pausing) : l.pc = .pause := by
  rw [Loop.stage] at h
  cases hp : l.pc with
  | change k ph => rw [hp] at h; cases k <;> cases h
  | pause => rfl
  | _ => rw [hp] at h; cases h

/-- `run` returns by unlocking. -/
theorem pc_of_over (h : s.loopStep cfg t ch = some s') (hs : (s.loops t).stage = .over)
    (hr : (s'.loops t).stage = .rested) : (s.loops t).pc = .leave := by
  have hgo (s₁ : Sys) : ((s₁.goLoop t .leave).loops t).stage = .over := by
    simp [goLoop, Loop.stage, LoopPc.stage]
  rw [Loop.stage] at hs
  unfold loopStep at h
  cases hp : (s.loops t).pc with
  | leave => rfl
  | runningCb | fatalCb =>
      simp only [hp] at h
      cases h
      rw [hgo] at hr
      cases hr
  | crashed => simp [hp] at h
  | change k ph => rw [hp] at hs; cases k <;> cases hs
  | _ => rw [hp] at hs; cases hs

/-- The same for a step. -/
theorem step_holds (hc : s.toCore.Inv) (h : s.step cfg a = some s')
    (hs : (s.loops t).stage.holds) : (s'.loops t).stage.holds ∨ (s.loops t).stage.hasChild ∨
      ∃ ch, a = .loop t ch ∧ ((s.loops t).pc = .pause ∨ (s.loops t).pc = .leave) := by
  have hm := hc.step_move h
  rcases Core.holds_move hm hs hc with h' | h' | ⟨hl, h'⟩
  · exact .inl h'
  · exact .inr (.inl h')
  · rcases label_loop hl with ⟨ch, rfl⟩ | hl
    · refine .inr (.inr ⟨ch, rfl, ?_⟩)
      exact h'.imp pc_of_pausing fun h' ↦ pc_of_over h h'.1 h'.2
    · -- a start loop is launched where none is active
      rw [hl] at hm
      generalize s'.toCore = c' at hm
      cases hm with
      | accept hk hi =>
          have hin := hc.turns.inStart t (by intro h; rw [h] at hs; cases hs)
          rw [hi] at hin
          cases hin

/-! ## `GetExitstatus` -/

/-- An ended state has a command, and so has an accessor that has loaded one. -/
structure HasCmd (s : Sys) : Prop where
  ended : s.Ended
  reads : ∀ u k st, s.callers u = .accessRead k st → k.needsCmd st → s.cmd ≠ none

theorem HasCmd.step (hc : s.toCore.Inv) (hs : s.HasCmd) (h : s.step cfg a = some s') :
    s'.HasCmd where
  ended := hs.ended.move hc (hc.step_move h)
  reads := by
    intro u k st hu hn
    refine Core.cmd_move (hc.step_move h) ?_
    rcases step_callers_of_not_plain h (by rw [hu]; rfl) with ⟨ch, -, hx⟩ | hx
    · rw [hu] at hx
      generalize s.callers u = pc at hx
      cases hx with
      | read k =>
          refine hs.ended.cmd ?_
          cases k with
          | getExitstatus => simpa [Accessor.needsCmd] using hn
          | _ => cases hn
      | plain hp => cases hp
    · exact hs.reads u k st (hx.trans hu) hn

theorem reachable_hasCmd (hs : (machine cfg).Reachable s) : s.HasCmd := by
  refine hs.invariant (P := HasCmd) ?_ fun _ _ _ hr hp _ hst ↦ hp.step (reachable_inv hr) hst
  refine ⟨⟨?_, fun t h ↦ by cases h⟩, fun u k st h ↦ by cases h⟩
  rintro (h | h) <;> cases h

/-- `GetExitstatus` never dereferences nil, whatever is going on. -/
theorem exitstatus_safe (hs : (machine cfg).Reachable s) {st : State}
    (hu : s.callers u = .accessRead .getExitstatus st)
    (h : s.step cfg (.caller u ch) = some s') : s'.callers u ≠ .crashed := by
  intro hcr
  have hx := callerStep_next h
  rw [hcr, hu] at hx
  cases hx with
  | readCrash _ hc =>
      rcases accessCrash_eq hc with ⟨hn, -⟩ | ⟨hn, hp⟩
      · cases hn
      · exact (reachable_hasCmd hs).reads u _ _ hu hn hp
  | plain _ hsg => cases hsg rfl

/-! ## The pid -/

/-- A call that is about to read the pid will find one, or a start loop holds the lock the call
is waiting for. -/
structure Safe (s : Sys) : Prop where
  backing : s.Backing
  stops : ∀ u wait restart ph, s.callers u = .stopChange wait restart ph → s.pid ≠ none
  reads : ∀ u k st, s.callers u = .accessRead k st → k.needsPid st →
    s.pid ≠ none ∨ ∃ t, (s.loops t).stage.holds

theorem label_caller (t : Tid) : s.label (.caller u ch) ≠ .created t := by
  simp only [label]
  split <;> (try split) <;> rintro ⟨⟩

theorem Safe.stops_step (hc : s.toCore.Inv) (hs : s.Safe) (hk : Calm s a)
    (h : s.step cfg a = some s') (u : Tid) (wait restart : Bool) (ph : Phase)
    (hu : s'.callers u = .stopChange wait restart ph) : s'.pid ≠ none := by
  have hpid := Core.pid_move (hc.step_move h)
  rcases step_callers_of_not_plain h (by rw [hu]; rfl) with ⟨ch, rfl, hx⟩ | hx
  · rw [hu] at hx
    generalize hpc : s.callers u = pc at hx
    cases hx with
    | change hr => exact hpid label_caller (hk.check u ch _ _ rfl hpc hr)
    | changing ph' => exact hpid label_caller (hs.stops u _ _ _ hpc)
    | plain hp => cases hp
  · rw [hu] at hx
    exact hpid (fun t ht ↦ hk.create t ht u _ _ _ hx) (hs.stops u _ _ _ hx)

/-- What is promised to an accessor that waits for the read lock stays promised. -/
theorem Safe.promise_step (hc : s.toCore.Inv) (hk : Calm s a) (h : s.step cfg a = some s')
    {k : Accessor} {st : State} (hu : ∀ t ch, a = .loop t ch → s.callers u = .accessRead k st)
    (hn : k.needsPid st) (hp : s.pid ≠ none ∨ ∃ t, (s.loops t).stage.holds) :
    s'.pid ≠ none ∨ ∃ t, (s'.loops t).stage.holds := by
  have hm := hc.step_move h
  by_cases hcr : ∃ t, s.label a = .created t
  · -- the new command is under the lock
    obtain ⟨t, ht⟩ := hcr
    rw [ht] at hm
    refine .inr ⟨t, ?_⟩
    generalize s'.toCore = c' at hm
    cases hm with
    | create _ hl => simp [hl, Stage.holds]
  · rw [not_exists] at hcr
    by_cases hpn : s.pid = none
    · obtain ⟨t, ht⟩ := hp.resolve_left (fun hp ↦ hp hpn)
      rcases step_holds hc h ht with h' | h' | ⟨ch, rfl, h'⟩
      · exact .inr ⟨t, h'⟩
      · rw [hc.child.pid h'] at hpn
        cases hpn
      · -- the lock is given away without a process: then nobody may be waiting to read it
        have hf := hk.release t ch rfl h' hpn u k st (hu t ch rfl)
        rw [hn] at hf
        cases hf
    · exact .inl (Core.pid_move hm hcr hpn)

theorem Safe.reads_step (hc : s.toCore.Inv) (hs : s.Safe) (hk : Calm s a)
    (h : s.step cfg a = some s') (u : Tid) (k : Accessor) (st : State)
    (hu : s'.callers u = .accessRead k st) (hn : k.needsPid st) :
    s'.pid ≠ none ∨ ∃ t, (s'.loops t).stage.holds := by
  rcases step_callers_of_not_plain h (by rw [hu]; rfl) with ⟨ch, rfl, hx⟩ | hx
  · rw [hu] at hx
    generalize hpc : s.callers u = pc at hx
    cases hx with
    | read k =>
        refine promise_step hc hk h (u := u) nofun hn ?_
        exact (hs.backing (Accessor.needsPid_isRunning hn)).imp_right fun ⟨t, ht⟩ ↦
          ⟨t, by rcases ht with ht | ht | ⟨k, ht⟩ <;> rw [ht] <;> rfl⟩
    | plain hp => cases hp
  · rw [hu] at hx
    exact promise_step hc hk h (fun _ _ _ ↦ hx) hn (hs.reads u _ _ hx hn)

theorem Safe.step (hc : s.toCore.Inv) (hs : s.Safe) (hk : Calm s a) (h : s.step cfg a = some s') :
    s'.Safe where
  backing := by
    refine hs.backing.move hc ?_ (hc.step_move h)
    intro t ht
    obtain ⟨wait, restart, hu⟩ := stopChange_of_stopping ht
    exact hs.stops t wait restart .store hu
  stops := hs.stops_step hc hk h
  reads := hs.reads_step hc hk h

theorem Safe.init : Safe {} where
  backing := fun h ↦ (nomatch h)
  stops := fun u _ _ _ h ↦ by cases h
  reads := fun u _ _ h ↦ by cases h

end Sys

/-- **No call dereferences nil** where no attempt fails or begins behind the back of a call that
is about to read the pid: the accessors and the state change of `Stop` go on. -/
theorem access_safe {s s' : Sys} {u : Tid} {ch : Choice} (hs : (machine cfg).Reach Calm s)
    (hu : (∃ k st, s.callers u = .accessRead k st) ∨
      ∃ wait restart ph, s.callers u = .stopChange wait restart ph)
    (h : s.step cfg (.caller u ch) = some s') : s'.callers u ≠ .crashed := by
  have hc := reachable_inv hs.reachable
  have hsafe : s.Safe := hs.invariant (P := Sys.Safe) .init
    fun _ _ _ hr hp hok hst ↦ hp.step (reachable_inv hr.reachable) hok hst
  intro hcr
  have hx := Sys.callerStep_next h
  rw [hcr] at hx
  rcases hu with ⟨k, st, hu⟩ | ⟨wait, restart, ph, hu⟩ <;> rw [hu] at hx
  · cases hx with
    | readCrash hk hcrash =>
        rcases Sys.accessCrash_eq hcrash with ⟨hn, hp⟩ | ⟨hn, hp⟩
        · -- the read lock is taken, so no start loop holds the lock
          obtain ⟨t, ht⟩ := (hsafe.reads u k st hu hn).resolve_left fun h ↦ h hp
          rw [hc.locks.loop t ht] at hk
          cases hk
        · exact (Sys.reachable_hasCmd hs.reachable).reads u _ _ hu hn hp
    | plain _ hsg => cases hsg rfl
  · cases hx with
    | stopCrash hp => exact hsafe.stops u _ _ _ hu hp
    | plain _ hsg => cases hsg rfl

/-- The steps of a single start loop with nothing but accessors beside it are calm, as long as
the loop does not unlock without a child. -/
def calmBelow (s : Sys) (a : Act) : Bool :=
  CallsBelow 2 a && match a with
    | .loop t _ => s.callers 0 = .done && s.callers 1 = .idle &&
        (s.loops t).pc ≠ .pause && (s.loops t).pc ≠ .leave
    | .caller u _ => match s.callers u with
      | .stopCheck _ _ => false
      | _ => true
    | _ => true

theorem calm_of_calmBelow {ok : Sys → Act → Prop} {s : Sys} {a : Act}
    (hs : (machine cfg).Reach ok s) (hb : ∀ s a, ok s a → CallsBelow 2 a)
    (h : calmBelow s a) : Calm s a := by
  obtain ⟨-, ha⟩ := Bool.and_eq_true_iff.mp h
  constructor
  · rintro t ch rfl hpc
    simp only [Bool.and_eq_true, decide_eq_true_eq] at ha
    exact absurd hpc (by simp [ha.1.2, ha.2])
  · rintro u ch wait restart rfl hu
    simp only [hu] at ha
    cases ha
  · intro t ht u wait restart ph
    rcases Sys.label_loop (t := t) (by rw [ht]; rfl) with ⟨ch, rfl⟩ | hst
    · simp only [Bool.and_eq_true, decide_eq_true_eq] at ha
      match u with
      | 0 => rw [ha.1.1.1]; exact nofun
      | 1 => rw [ha.1.1.2]; exact nofun
      | u + 2 => rw [callers_idle hs hb (Nat.le_add_left 2 u)]; exact nofun
    · rw [ht] at hst
      cases hst

set_option maxRecDepth 4000 in
/-- The pid of a running program is read. -/
theorem access_safe_running : ∃ s s' : Sys, (machine {}).Reach Calm s ∧
    s.callers 1 = .accessRead .getPid .running ∧ s.step {} (.caller 1 .ok) = some s' ∧
      s'.callers 1 ≠ .crashed := by
  obtain ⟨s, hs, hp⟩ : ∃ s, (machine {}).Reach (fun s a ↦ Calm s a ∧ CallsBelow 2 a) s ∧ _ :=
    Machine.exists_reach calmBelow
      (fun s ↦ s.callers 1 = .accessRead .getPid .running ∧
        (s.step {} (.caller 1 .ok)).isSome = true)
      (List.flatten [startAndRun, [.call 1 (.access .getPid), .caller 1 .ok]])
      (fun s a hr h ↦ ⟨calm_of_calmBelow hr (fun _ _ h ↦ h.2) h, (Bool.and_eq_true_iff.mp h).1⟩)
      (by decide +kernel)
  obtain ⟨hu, hst⟩ := of_decide_eq_true hp
  obtain ⟨s', hst⟩ := Option.isSome_iff_exists.mp hst
  have hs := hs.mono fun _ _ h ↦ h.1
  exact ⟨s, s', hs, hu, hst, access_safe hs (.inl ⟨_, _, hu⟩) hst⟩

set_option maxRecDepth 4000 in
/-- `GetPid` loads `Starting`, the attempt fails before there is a process, and `run` unlocks. -/
theorem access_crash : ¬∀ (cfg : Config) (s s' : Sys) (u : Tid) (ch : Choice),
    (machine cfg).Reachable s → ((∃ k st, s.callers u = .accessRead k st) ∨
      ∃ wait restart ph, s.callers u = .stopChange wait restart ph) →
    s.step cfg (.caller u ch) = some s' → s'.callers u ≠ .crashed := by
  intro h
  obtain ⟨s, hs, hp⟩ := Machine.exists_reachable (m := machine {})
    (fun s ↦ s.callers 1 = .accessRead .getPid .starting ∧
      (s.step {} (.caller 1 .ok)).map (fun s' ↦ s'.callers 1) = some .crashed)
    (List.flatten [[.call 0 (.start false), .caller 0 .ok], .replicate 6 (.loop 0 .ok),
      [.call 1 (.access .getPid), .caller 1 .ok, .loop 0 .fail], .replicate 5 (.loop 0 .ok)])
    (by decide +kernel)
  obtain ⟨hu, hst⟩ := of_decide_eq_true hp
  obtain ⟨s', hst, hcr⟩ := Option.map_eq_some_iff.mp hst
  exact h {} s s' 1 .ok hs (.inl ⟨_, _, hu⟩) hst hcr

end Supervisord.Process
