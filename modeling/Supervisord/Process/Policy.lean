import Supervisord.Process.Invariant

/-!
# The restart policy

A program that was up and has exited is started again by the start loop, which asks
`isAutoRestart`, or by the retry loop of `run`, which asks nobody: it is meant for programs that
did not come up.  But `run` takes the exit of a program that was up for a failed start as well,
and retries it while `startretries` lasts.  `restart_by_policy` says that this is the only way
around the policy.
-/

namespace Supervisord.Process

/-- The stages from the spawn of a child to the end of the start loop. -/
def Stage.after : Stage → Bool
  | .launching | .born | .watching | .seen | .settling | .judging | .excused | .judged _
  | .exhausted | .failing | .over | .rested | .deciding | .ending => true
  | .idle | .entering | .checking | .refusing | .head | .pausing | .paused | .trying | .making
  | .made | .failed _ => false

attribute [grind] Stage.after

/-- The exits after which the policy decides. -/
structure Exits where
  /-- `Running` was stored for the child. -/
  up : CmdId → Bool := fun _ ↦ false
  /-- The child was up when it exited, and no `Start` has been requested since. -/
  owed : CmdId → Bool := fun _ ↦ false

def Exits.next (h : Exits) (c : Core) : Label → Exits
  | .running i => { h with up := Function.update h.up i true }
  | .stored t .running => { h with up := Function.update h.up (c.loops t).att true }
  | .exit i => { h with owed := Function.update h.owed i (h.up i) }
  | .start _ _ => { h with owed := fun _ ↦ false }
  | _ => h

/-- A process whose exits are recorded. -/
def exits (cfg : Config) : Machine (Sys × Exits) Act := observed cfg {} Exits.next

/-- No `Stop` is requested. -/
def NoStop : Label → Prop
  | .stop _ => False
  | _ => True

instance (k : Label) : Decidable (NoStop k) := by
  unfold NoStop
  split <;> infer_instance

/-- Where `run` classifies the exit of a child that was up, the state is `Running`, or no retry
is left, or the policy is to restart it. -/
def Backed (cfg : Config) (h : Exits) (c : Core) : Label → Prop
  | .classify t => h.owed (c.loops t).att = true →
      c.state = .running ∨ cfg.getStartRetries ≤ c.retryTimes ∨
        cfg.isAutoRestart (some (c.cmds (c.loops t).att)) = true
  | _ => True

instance (cfg : Config) (h : Exits) (c : Core) (k : Label) : Decidable (Backed cfg h c k) := by
  unfold Backed
  split <;> infer_instance

/-- An exit the policy decides: the decision was to restart, or the start loop of the child is
still on its way to it. -/
def Exits.Due (cfg : Config) (c : Core) (i : CmdId) : Prop :=
  (c.cmds i).waited = true ∧ cfg.isAutoRestart (some (c.cmds i)) = true ∨
    c.cmd = some i ∧ ∀ t, (c.loops t).stage ≠ .idle → (c.loops t).att = i ∧
      (c.loops t).stage.after ∧
        ((c.loops t).stage = .judged .exitBackoff → cfg.getStartRetries ≤ c.retryTimes)

/-- Every exit that is owed a decision is due. -/
structure Exits.Inv (cfg : Config) (c : Core) (h : Exits) : Prop where
  started : ∀ i, h.owed i = true → (c.cmds i).started
  due : ∀ i, h.owed i = true → Due cfg c i

variable {cfg : Config} {c c' : Core} {h : Exits} {k : Label}

namespace Exits

theorem Inv.started_move (hc : c.Inv) (hh : Inv cfg c h) (hm : Move cfg c k c') (i : CmdId)
    (hi : (h.next c k).owed i = true) : (c'.cmds i).started := by
  have hs := hh.started i
  have hid := hc.ids.started i
  revert hi
  cases hm <;> simp only [next, Function.update_apply]
  all_goals grind -linarith

/-- `Wait` has returned for the child of an exit that is owed a decision where no start loop
watches. -/
theorem waited_of_stage (hc : c.Inv) {t : Tid} {i : CmdId} (hs : (c.cmds i).started)
    (ht : (c.loops t).stage ≠ .idle) (hb : (c.loops t).stage.newborn = false)
    (hw : (c.loops t).stage ≠ .watching) : (c.cmds i).waited = true := by
  have ha := hc.child.alive i
  have ho := fun u ↦ hc.turns.one t u ht
  grind

/-- A command for which `Wait` has returned does not change any more. -/
theorem cmds_eq_of_waited (hc : c.Inv) (hm : Move cfg c k c') {i : CmdId}
    (hw : (c.cmds i).waited = true) : c'.cmds i = c.cmds i := by
  obtain ⟨hs, he⟩ := hc.ids.waited i hw
  have hlt := hc.ids.started i hs
  have hmade := hc.ids.made
  have hreaped := hc.ids.returned i hw
  cases hm with
  | create | spawn | reaped | exit =>
      simp only [Function.update_apply]
      grind -linarith
  | @returned _ j =>
      by_cases hij : i = j
      · subst hij
        simp only [Function.update_self, ← hw]
      · simp only [Function.update_of_ne hij]
  | _ => rfl

theorem owed_of_next {i : CmdId} (hk : ∀ j, k ≠ .exit j) (hi : (h.next c k).owed i = true) :
    h.owed i = true := by
  cases k with
  | exit j => exact absurd rfl (hk j)
  | start => cases hi
  | stored t k => cases k <;> exact hi
  | _ => exact hi

/-- The start loop of a child is on its way to the decision, makes it, or leaves it to `run`. -/
theorem Inv.due_own (hc : c.Inv) (hh : Inv cfg c h) (hb : Backed cfg h c k) (hm : Move cfg c k c')
    {i : CmdId} (hi : h.owed i = true) {t : Tid} (hk : k.loop = some t) (hcmd : c.cmd = some i)
    (hat : (c.loops t).att = i) (haf : (c.loops t).stage.after)
    (hj : (c.loops t).stage = .judged .exitBackoff → cfg.getStartRetries ≤ c.retryTimes) :
    (c'.cmds i).waited = true ∧ cfg.isAutoRestart (some (c'.cmds i)) = true ∨
      c'.cmd = some i ∧ ((c'.loops t).stage ≠ .idle → (c'.loops t).att = i ∧
        (c'.loops t).stage.after ∧
          ((c'.loops t).stage = .judged .exitBackoff → cfg.getStartRetries ≤ c'.retryTimes)) := by
  have hs := hh.started i hi
  cases hm with
  | loop hs' _ ha =>
      cases hk
      right
      simp only [Function.update_self, hs', ha.1]
      exact ⟨hcmd, fun _ ↦ ⟨hat, haf, hj⟩⟩
  | accept _ hnot =>
      cases hk
      have hin := hc.turns.inStart t fun h ↦ by rw [h] at haf; cases haf
      rw [hnot] at hin
      cases hin
  | enter _ hst | refused hst | busy hst | clear hst | quit hst | pass hst | pause hst
  | resume _ hst | starting hst | create hst | createFatal hst | spawnFatal hst | retry hst
  | spawn hst =>
      cases hk
      rw [hst] at haf
      cases haf
  | fail hst =>
      cases hk
      rcases hst with hst | ⟨hst, -⟩ <;> rw [hst] at haf <;> cases haf
  | up _ hl ha | release _ hl ha | see _ _ hl ha | tell _ hl ha | relock _ _ hl ha
  | excuse _ _ hl ha | closeExited _ hl ha | closeStopped _ hl ha | exhaust _ _ hl ha
  | retryFatal _ hl ha | gaveUp _ hl ha | leave _ hl ha =>
      cases hk
      right
      simp only [Function.update_self, hl, ha.1]
      exact ⟨hcmd, fun _ ↦ ⟨hat, rfl, fun h ↦ by cases h⟩⟩
  | verdict _ hl ha =>
      cases hk
      right
      simp only [Function.update_self, hl, ha.1]
      refine ⟨hcmd, fun _ ↦ ⟨hat, rfl, fun h ↦ ?_⟩⟩
      split at h <;> cases h
  | rest _ hl ha =>
      cases hk
      right
      simp only [Function.update_self, hl, ha.1]
      refine ⟨hcmd, fun _ ↦ ⟨hat, ?_, fun h ↦ ?_⟩⟩
      · split <;> rfl
      · split at h <;> cases h
  | backoff hst hr =>
      cases hk
      exact absurd (hj hst) hr
  | blame hst hr hl ha =>
      -- the state is not a running one, so that the exit is retried only if the policy says so
      cases hk
      have hwt := waited_of_stage hc hs (t := t) (by rw [hst]; decide) (by rw [hst]; rfl)
        (by rw [hst]; decide)
      have hback := hb (by rw [hat]; exact hi)
      rw [hat] at hback
      rcases hback with hrun | hretry | hpol
      · exact absurd (.inl hrun) hr
      · right
        simp only [Function.update_self, hl, ha.1]
        exact ⟨hcmd, fun _ ↦ ⟨hat, rfl, fun _ ↦ hretry⟩⟩
      · exact .inl ⟨hwt, hpol⟩
  | decide hst hl ha =>
      cases hk
      have hwt := waited_of_stage hc hs (t := t) (by rw [hst]; decide) (by rw [hst]; rfl)
        (by rw [hst]; decide)
      rw [hcmd] at hl
      by_cases hpol : cfg.isAutoRestart (some (c.cmds i)) = true
      · exact .inl ⟨hwt, hpol⟩
      · right
        rw [Option.map_some, if_neg hpol] at hl
        simp only [Function.update_self, hl, ha.1]
        exact ⟨hcmd, fun _ ↦ ⟨hat, rfl, fun h ↦ by cases h⟩⟩
  | finish _ _ hl =>
      cases hk
      right
      simp only [Function.update_self, hl]
      exact ⟨hcmd, fun h ↦ absurd rfl h⟩
  | _ => cases hk

theorem Inv.due_move (hc : c.Inv) (hh : Inv cfg c h) (hb : Backed cfg h c k)
    (hm : Move cfg c k c') (i : CmdId) (hi : (h.next c k).owed i = true) : Due cfg c' i := by
  by_cases hex : ∃ j, k = .exit j
  · obtain ⟨j, rfl⟩ := hex
    have hs := hh.started i
    have hd := hh.due i
    have ho := hc.turns.one
    revert hi
    unfold Due at hd ⊢
    cases hm with
    | exit =>
        have hal := hc.ids.alive (i := i)
        have hch := hc.child.alive i
        have hcmd := hc.child.cmd
        simp only [next, Function.update_apply]
        grind -linarith
  have howed : h.owed i = true := owed_of_next (fun j he ↦ hex ⟨j, he⟩) hi
  rcases hh.due i howed with ⟨hw, hr⟩ | ⟨hcmd, hall⟩
  · refine .inl ?_
    rw [cmds_eq_of_waited hc hm hw]
    exact ⟨hw, hr⟩
  cases hk : k.loop with
  | none =>
      have hsame := Core.same_of_none hm hk
      refine .inr ⟨hsame.cmd.trans hcmd, fun u hu ↦ ?_⟩
      rw [hm.loops_eq (by rw [hk]; exact nofun)] at hu ⊢
      rw [hsame.retryTimes]
      exact hall u hu
  | some t =>
      rcases Core.Turns.loop_active hm hk with ha | ⟨rfl, -⟩
      · obtain ⟨hat, haf, hj⟩ := hall t ha
        refine (hh.due_own hc hb hm howed hk hcmd hat haf hj).imp_right fun hown ↦ ⟨hown.1, ?_⟩
        intro u hu
        rcases hc.turns.own_or_none hm hu with hku | ⟨hku, -⟩
        · obtain rfl : t = u := Option.some.inj (hk.symm.trans hku)
          exact hown.2 hu
        · rw [hk] at hku
          cases hku
      · cases hi

theorem Inv.init : Inv cfg {} {} where
  started := fun _ h ↦ (nomatch h)
  due := fun _ h ↦ (nomatch h)

end Exits

/-- **The restart policy.**  In a run without a `Stop`, in which `run` takes no exit of a program
that was up for a failed start it may retry against the policy, a child is only spawned if every
child that was up and has exited since the last `Start` was to be restarted. -/
theorem restart_by_policy {w : Sys × Exits}
    (hw : (exits cfg).Reach (heeds fun h c k ↦ NoStop k ∧ Backed cfg h c k) w) {a : Act} {t : Tid}
    (ha : w.1.label a = .spawned t) (i : CmdId) (hi : w.2.owed i = true) :
    cfg.isAutoRestart (some (w.1.cmds i)) = true ∧
      cfg.RestartPolicy (w.1.cmds i).processState := by
  have hh : Exits.Inv cfg w.1.toCore w.2 :=
    observed_invariant (P := Exits.Inv cfg) .init
      (fun hc hh hb hm ↦
        ⟨hh.started_move hc hm, hh.due_move hc hb.2 hm⟩) hw
  have hs : (w.1.loops t).stage = .made := Sys.stage_of_spawned ha
  rcases hh.due i hi with ⟨-, hp⟩ | ⟨-, hp⟩
  · exact ⟨hp, (cfg.isAutoRestart_iff _).mp hp⟩
  · have hst := (hp t (by rw [hs]; decide)).2.1
    rw [hs] at hst
    cases hst

set_option maxRecDepth 4000 in
/-- With `autorestart` set to `true`, a program that was up is spawned again. -/
theorem restart_by_policy_always : ∃ w : Sys × Exits,
    (exits { autorestart := "true" }).Reach
      (heeds fun h c k ↦ NoStop k ∧ Backed { autorestart := "true" } h c k) w ∧
    w.1.label (.loop 0 .ok) = .spawned 0 ∧ w.2.owed 0 = true ∧
      Config.RestartPolicy { autorestart := "true" } (w.1.cmds 0).processState := by
  obtain ⟨w, hw, hp⟩ := Machine.exists_reach (m := exits { autorestart := "true" })
    (fun w a ↦ NoStop (w.1.label a) ∧ Backed { autorestart := "true" } w.2 w.1.toCore
      (w.1.label a))
    (fun w ↦ w.1.label (.loop 0 .ok) = .spawned 0 ∧ w.2.owed 0 = true)
    (List.flatten [startAndRun, [.exit 0 (some 0)], .replicate 4 (.waiter 0),
      .replicate 16 (.loop 0 .ok)])
    (fun w a _ hp ↦ of_decide_eq_true hp) (by decide +kernel)
  obtain ⟨hl, ho⟩ := of_decide_eq_true hp
  exact ⟨w, hw, hl, ho, (restart_by_policy hw hl 0 ho).2⟩

set_option maxRecDepth 4000 in
/-- By default a program that was up and exits with code 0 is not to be restarted, and is. -/
theorem restart_against_policy : ¬∀ (cfg : Config) (w : Sys × Exits),
    (exits cfg).Reach (heeds fun _ _ k ↦ NoStop k) w → ∀ a t, w.1.label a = .spawned t →
      ∀ i, w.2.owed i = true → cfg.RestartPolicy (w.1.cmds i).processState := by
  intro h
  obtain ⟨w, hw, hp⟩ := Machine.exists_reach (m := exits {})
    (fun w a ↦ NoStop (w.1.label a))
    (fun w ↦ w.1.label (.loop 0 .ok) = .spawned 0 ∧ w.2.owed 0 = true ∧
      Config.isAutoRestart {} (some (w.1.cmds 0)) = false)
    (List.flatten [startAndRun, [.exit 0 (some 0)], .replicate 4 (.waiter 0),
      .replicate 16 (.loop 0 .ok)])
    (fun w a _ hp ↦ of_decide_eq_true hp) (by decide +kernel)
  obtain ⟨hl, ho, hr⟩ := of_decide_eq_true hp
  have hpol := (Config.isAutoRestart_iff {} _).mpr (h {} w hw _ 0 hl 0 ho)
  rw [hr] at hpol
  cases hpol

end Supervisord.Process
