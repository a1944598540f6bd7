import Supervisord.Process.Changes

/-!
# Stopping stays stopping

`Stop` stores `Stopping` without the lock, and whoever is about to store `Running` for the child
does not look at the state again.  There are two: the monitor, once it has found the process
starting, and `run` itself, between `cmd.Start` and its own store where the program need not stay
up.  `stopping_kept` says that no other store brings back a child that is being stopped.
-/

namespace Supervisord.Process

namespace Core

/-- `i` is the child of the attempt a start loop is in. -/
def Current (c : Core) (i : CmdId) : Prop :=
  ∃ t, (c.loops t).stage.hasChild ∧ (c.loops t).att = i

/-- Somebody is about to store `Running` for the child `i`. -/
def Rising (c : Core) (i : CmdId) : Prop :=
  (c.monitors i).pc.changing ≠ none ∨ ∃ t, (c.loops t).stage = .launching ∧ (c.loops t).att = i

end Core

/-- The children `Stop` has stored `Stopping` for: the processes of its events. -/
structure Stoppings where
  children : List CmdId := []

def Stoppings.next (h : Stoppings) (c : Core) : Label → Stoppings
  | .stopping _ => { children := c.pid.toList ++ h.children }
  | _ => h

/-- A process whose stopped children are recorded. -/
def stoppings (cfg : Config) : Machine (Sys × Stoppings) Act := observed cfg {} Stoppings.next

/-- `Stop` stores `Stopping` while nobody is about to store `Running` for the same child. -/
def Alone (_ : Stoppings) (c : Core) : Label → Prop
  | .stopping _ => ∀ i, c.pid = some i → ¬c.Rising i
  | _ => True

/-- A recorded child stays down as long as it is the current one. -/
structure Stoppings.Kept (c : Core) (h : Stoppings) : Prop where
  started : ∀ i ∈ h.children, (c.cmds i).started
  down : ∀ i ∈ h.children, c.Current i → c.state ≠ .starting ∧ c.state ≠ .running ∧ ¬c.Rising i

namespace Stoppings

variable {cfg : Config} {c c' : Core} {h : Stoppings} {k : Label} {i : CmdId}

theorem started_of_pid (hp : c.pid = some i) : (c.cmds i).started :=
  (Option.filter_eq_some_iff.mp hp).2

theorem mem_next (hi : i ∈ (h.next c k).children) :
    i ∈ h.children ∨ c.pid = some i ∧ ∃ t, k = .stopping t := by
  cases k with
  | stopping t =>
      simp only [next, List.mem_append, Option.mem_toList] at hi
      exact hi.symm.imp_right fun hp ↦ ⟨hp, t, rfl⟩
  | _ => exact .inl hi

/-- A child that has been started is no new one. -/
theorem current_move (hc : c.Inv) (hm : Move cfg c k c') (hi : (c.cmds i).started)
    (hcur : c'.Current i) : c.Current i := by
  obtain ⟨t, ht, rfl⟩ := hcur
  have hcmd := Stage.hasCmd_of_hasChild ht
  rcases hc.turns.own_or_none hm (Stage.ne_idle_of_hasCmd hcmd) with hk | ⟨-, hl⟩
  · rcases Core.creates_or_goesOn hm hk hcmd with hn | hg
    · rw [hn.stage] at ht
      cases ht
    · rw [hg.keeps.1] at hi ⊢
      rcases hg.child ht with ⟨hs, -⟩ | ⟨rfl, -⟩
      · exact ⟨t, hs, rfl⟩
      · cases hm with
        | spawn hs =>
            rw [hc.ids.made t hs] at hi
            cases hi
  · rw [hl] at ht ⊢
    exact ⟨t, ht, rfl⟩

/-- The monitor that may still store `Running` is that of the current child. -/
theorem eq_of_passed (hc : c.Inv) (hcur : c.Current i) {j : CmdId}
    (hj : (c.monitors j).stage = .passed) : j = i := by
  obtain ⟨t, ht, rfl⟩ := hcur
  obtain ⟨u, rfl, hu⟩ := hc.watch.passed j hj
  have htu : u = t := by
    refine hc.turns.one u t ?_ ?_
    · rcases hu with hu | hu | hu <;> rw [hu] <;> exact nofun
    · intro hi
      rw [hi] at ht
      cases ht
  rw [htu]

/-- The current child comes up by a step of its monitor or of its `run`. -/
theorem state_move (hc : c.Inv) (hcur : c.Current i) (hm : Move cfg c k c')
    (hs : c'.state = .starting ∨ c'.state = .running) :
    c'.state = c.state ∨ k = .running i ∨
      ∃ t, k = .stored t .running ∧ (c.loops t).stage = .launching := by
  cases hm with
  | starting ht =>
      -- `run` makes no attempt while it has a child
      obtain ⟨u, hu, -⟩ := hcur
      rw [hc.turns.one u _ (Stage.ne_idle_of_hasCmd (Stage.hasCmd_of_hasChild hu))
        (by rw [ht]; decide), ht] at hu
      cases hu
  | up hl => exact .inr (.inr ⟨_, rfl, hl⟩)
  | monRunning hp => exact .inr (.inl (congrArg Label.running (eq_of_passed hc hcur hp)))
  | stopping | createFatal | spawnFatal | retry | closeExited | closeStopped | backoff | exhaust
  | retryFatal | stopped => rcases hs with hs | hs <;> cases hs
  | _ => exact .inl rfl

end Stoppings

theorem Sys.changing_of_running {s : Sys} {a : Act} {i : CmdId} (h : s.label a = .running i) :
    (s.monitors i).pc.changing ≠ none := by
  cases a with
  | monitor c =>
      simp only [label] at h
      split at h <;> cases h
      rename_i hp
      rw [hp]
      exact Option.some_ne_none _
  | caller | loop | call | waiter =>
      simp only [label] at h
      split at h <;> (try split at h) <;> cases h
  | stopper | closer | exit | sigchld => cases h

/-- A monitor sets out to store `Running` only where it finds the process starting. -/
theorem Sys.step_rising {cfg : Config} {s s' : Sys} {a : Act} {i : CmdId} (hc : s.toCore.Inv)
    (h : s.step cfg a = some s') (hi : (s'.monitors i).pc.changing ≠ none) :
    (s.monitors i).pc.changing ≠ none ∨ s.state = .starting ∧ s'.state = .starting := by
  by_cases ha : a.changer = some (.monitor i)
  · cases step_changing h ha with
    | outside _ hs _ _ hm =>
        have hst := hm i rfl hi
        exact .inr ⟨hst, hs.trans hst⟩
    | load hx | emit hx | crash hx | store hx =>
        refine .inl ?_
        rw [show (s.monitors i).pc.changing = _ from hx]
        exact Option.some_ne_none _
  · refine .inl ?_
    rw [show (s'.monitors i).pc.changing = _ from step_changing_of_ne (x := .monitor i) hc h ha]
      at hi
    exact hi

namespace Stoppings

variable {cfg : Config} {s s' : Sys} {h : Stoppings} {a : Act}

/-- `run` sets out to store `Running` only for a new child. -/
theorem rising_move {c c' : Core} {k : Label} (hc : c.Inv) (hm : Move cfg c k c') {i : CmdId}
    (hi : (c.cmds i).started) {t : Tid} (ht : (c'.loops t).stage = .launching)
    (hat : (c'.loops t).att = i) : (c.loops t).stage = .launching ∧ (c.loops t).att = i := by
  subst hat
  by_cases hk : k.loop = some t
  · rcases Core.creates_or_goesOn hm hk (by rw [ht]; rfl) with hn | hg
    · rw [hn.stage] at ht
      cases ht
    · rw [hg.keeps.1] at hi ⊢
      refine ⟨?_, rfl⟩
      cases hm with
      | loop hs =>
          cases hk
          simp only [Function.update_self, hs] at ht
          exact ht
      | spawn hs =>
          cases hk
          rw [hc.ids.made t hs] at hi
          cases hi
      | pass _ _ hl | rest _ hl | decide _ hl =>
          cases hk
          simp only [Function.update_self, hl] at ht
          split_ifs at ht
      | _ =>
          cases hk
          all_goals
            simp only [Function.update_self, *] at ht
            cases ht
  · rw [hm.loops_eq hk] at ht ⊢
    exact ⟨ht, rfl⟩

/-- A child that nobody is about to store `Running` for keeps out of the way. -/
theorem not_rising_step (hc : s.toCore.Inv) (hst : s.step cfg a = some s') {i : CmdId}
    (hi : (s.cmds i).started) (hr : ¬s.Rising i)
    (hs : s.state ≠ .starting ∨ s'.state ≠ .starting) : ¬s'.Rising i := by
  rintro (hm | ⟨t, ht, hat⟩)
  · rcases Sys.step_rising hc hst hm with hm | ⟨h₁, h₂⟩
    · exact hr (.inl hm)
    · exact hs.elim (fun h ↦ h h₁) fun h ↦ h h₂
  · exact hr (.inr ⟨t, rising_move hc (hc.step_move hst) hi ht hat⟩)

/-- The store of `Stop`. -/
theorem state_of_stopping {c c' : Core} {t : Tid} (hm : Move cfg c (.stopping t) c') :
    c'.state = .stopping := by
  cases hm
  rfl

theorem Kept.step (hc : s.toCore.Inv) (hh : Kept s.toCore h)
    (hk : Alone h s.toCore (s.label a)) (hst : s.step cfg a = some s') :
    Kept s'.toCore (h.next s.toCore (s.label a)) := by
  have hm := hc.step_move hst
  constructor
  · intro i hi
    rcases mem_next hi with hi | ⟨hi, -⟩
    · exact hc.ids.started_mono hm (hh.started i hi)
    · exact hc.ids.started_mono hm (started_of_pid hi)
  · intro i hi hcur'
    rcases mem_next hi with hi | ⟨hp, t, hl⟩
    · -- the child was recorded before, so nobody is about to store another state for it
      have hs := hh.started i hi
      have hcur := current_move hc hm hs hcur'
      obtain ⟨hns, hnr, hr⟩ := hh.down i hi hcur
      have hstate : ¬(s'.state = .starting ∨ s'.state = .running) := by
        intro hup
        rcases state_move hc hcur hm hup with he | hl | ⟨t, hl, ht⟩
        · rw [he] at hup
          exact hup.elim hns hnr
        · exact hr (.inl (Sys.changing_of_running hl))
        · obtain ⟨u, hu, rfl⟩ := hcur
          have htu : t = u := by
            refine hc.turns.one t u (by rw [ht]; exact nofun) fun hi ↦ ?_
            rw [hi] at hu
            cases hu
          exact hr (.inr ⟨t, ht, by rw [htu]⟩)
      exact ⟨fun h ↦ hstate (.inl h), fun h ↦ hstate (.inr h),
        not_rising_step hc hst hs hr (.inl hns)⟩
    · -- the child is recorded now
      rw [hl] at hk hm
      have hs := state_of_stopping hm
      have hns : s'.state ≠ .starting := by
        rw [hs]
        exact nofun
      refine ⟨hns, ?_, not_rising_step hc hst (started_of_pid hp) (hk i hp) (.inr hns)⟩
      rw [hs]
      exact nofun

theorem Kept.init : Kept {} {} where
  started _ h := nomatch h
  down _ h := nomatch h

end Stoppings

/-- **A child that is being stopped does not come back.**  Once `Stop` has stored `Stopping` for the
current child, the state is neither `Starting` nor `Running` as long as that child is the current
one, in every run in which `Stop` stores `Stopping` only while nobody is about to store `Running`
for it. -/
theorem stopping_kept {cfg : Config} {w : Sys × Stoppings}
    (hw : (stoppings cfg).Reach (heeds Alone) w) {i : CmdId} (hi : i ∈ w.2.children)
    (hcur : w.1.Current i) : w.1.state ≠ .starting ∧ w.1.state ≠ .running := by
  have hh : w.2.Kept w.1.toCore :=
    observed_step_invariant (P := fun s h ↦ Stoppings.Kept s.toCore h) .init
      (fun hc hh hk hst ↦ hh.step hc hk hst) hw
  obtain ⟨hs, hr, -⟩ := hh.down i hi hcur
  exact ⟨hs, hr⟩

set_option maxRecDepth 4000 in
/-- A program that is up is stopped, and its child is still there. -/
theorem stopping_kept_term : ∃ w : Sys × Stoppings, (stoppings {}).Reach (heeds Alone) w ∧
    0 ∈ w.2.children ∧ w.1.Current 0 ∧ w.1.state ≠ .starting ∧ w.1.state ≠ .running := by
  obtain ⟨w, hw, hp⟩ := Machine.exists_reach (m := stoppings {})
    (fun w a ↦ match w.1.label a with
      | .stopping _ => w.1.pid = some 0 && (w.1.monitors 0).pc = .callback &&
          (w.1.loops 0).pc = .poll
      | _ => true)
    (fun w ↦ w.2.children = [0] ∧ (w.1.loops 0).pc = .poll ∧ (w.1.loops 0).att = 0)
    (List.flatten [startAndRun, [.call 1 (.stop false)], .replicate 6 (.caller 1 .ok)])
    (fun w a hw hp ↦ by
      show Alone w.2 w.1.toCore (w.1.label a)
      cases hk : w.1.label a with
      | stopping u =>
          rw [hk] at hp
          simp only [Bool.and_eq_true, decide_eq_true_eq] at hp
          obtain ⟨⟨hpid, hmon⟩, hloop⟩ := hp
          intro i hi
          rw [hpid] at hi
          cases hi
          rintro (h | ⟨t, ht, -⟩)
          · rw [hmon] at h
            exact h rfl
          · have hc := observed_inv hw
            have ht0 := hc.turns.one t 0 (by rw [ht]; decide)
              (by rw [Loop.stage, hloop]; decide)
            rw [ht0, Loop.stage, hloop] at ht
            cases ht
      | _ => trivial)
    (by decide +kernel)
  obtain ⟨hc, hpc, hat⟩ := of_decide_eq_true hp
  have hmem : 0 ∈ w.2.children := by
    rw [hc]
    exact List.mem_singleton_self 0
  have hcur : w.1.Current 0 := ⟨0, by rw [Loop.stage, hpc]; rfl, hat⟩
  exact ⟨w, hw, hmem, hcur, stopping_kept hw hmem hcur⟩

set_option maxRecDepth 4000 in
/-- `Stop` stores `Stopping` between the test of the monitor and its store of `Running`. -/
theorem stopping_lost : ¬∀ (cfg : Config) (w : Sys × Stoppings), (stoppings cfg).Reachable w →
    ∀ i ∈ w.2.children, w.1.Current i → w.1.state ≠ .starting ∧ w.1.state ≠ .running := by
  intro h
  obtain ⟨w, hw, hp⟩ := Machine.exists_reachable (m := stoppings {})
    (fun w ↦ w.2.children = [0] ∧ (w.1.loops 0).pc = .poll ∧ (w.1.loops 0).att = 0 ∧
      w.1.state = .running)
    (List.flatten [[.call 0 (.start false), .caller 0 .ok], .replicate 12 (.loop 0 .ok),
      [.call 1 (.stop false), .caller 1 .ok], .replicate 5 (.monitor 0),
      .replicate 4 (.caller 1 .ok), .replicate 3 (.monitor 0)])
    (by decide +kernel)
  obtain ⟨hc, hpc, hat, hs⟩ := of_decide_eq_true hp
  have hmem : 0 ∈ w.2.children := by
    rw [hc]
    exact List.mem_singleton_self 0
  exact (h {} w hw 0 hmem ⟨0, by rw [Loop.stage, hpc]; rfl, hat⟩).2 hs

end Supervisord.Process
