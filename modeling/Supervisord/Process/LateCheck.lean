import Supervisord.Process.Frame

/-!
# A liveness check that fails after a Stop

The callback of a failed liveness check stops the process and starts it again, and its `Start` is
as good as any other: it resets the flag of a `Stop` that was requested while the script of the
check was being executed.  `stopped_check` says that this is the only way a check starts a process
that was stopped after the check began.
-/

namespace Supervisord.Process

/-- The liveness checks. -/
structure Checks where
  /-- The check has begun. -/
  began : Tid → Bool := fun _ ↦ false
  /-- A `Stop` was requested since the check began, and no `Start` since that. -/
  stopped : Tid → Bool := fun _ ↦ false

def Checks.next (h : Checks) (s : Sys) : Act → Checks
  | .call _ op => match op with
    | .stop _ => { h with stopped := h.began }
    | .start _ => { h with stopped := fun _ ↦ false }
    | _ => h
  | .caller t _ =>
    if s.callers t = .livenessCheck ∧ s.state.isRunning then
      { h with began := Function.update h.began t true }
    else h
  | _ => h

/-- A process whose liveness checks are recorded. -/
def checks (cfg : Config) : Machine (Sys × Checks) Act :=
  (machine cfg).observe {} fun h s a _ ↦ h.next s a

/-- The call is on its way to a `Start`. -/
def CallerPc.restarts : CallerPc → Bool
  | .startEnter _ | .stopEnter _ true | .stopCheck _ true | .stopChange _ true _
  | .stopLaunch _ true | .stopWait true => true
  | _ => false

/-- The call may be one of a liveness check that has begun. -/
def CallerPc.ofCheck : CallerPc → Bool
  | .checking | .stopEnter _ _ | .stopCheck _ _ | .stopChange _ _ _ | .stopLaunch _ _ | .stopWait _
  | .startEnter _ | .condWait | .done | .crashed => true
  | _ => false

/-- No `Stop` is requested between the beginning of a check whose failure restarts the process, and
the `Start` of its callback. -/
structure Overruled (cfg : Config) (h : Checks) (s : Sys) (a : Act) : Prop where
  fail : ∀ t, a = .caller t .fail → s.callers t = .checking →
    cfg.livenessFailureAction = "restart" → h.stopped t = false
  stop : ∀ u wait, a = .call u (.stop wait) → ∀ t, h.began t = true →
    (s.callers t).restarts = false

namespace Sys

variable {cfg : Config} {s s' : Sys} {a : Act} {t : Tid} {ch : Choice}

/-- What a step of its own can make of the call of a liveness check. -/
structure CheckStep (cfg : Config) (ch : Choice) (pc pc' : CallerPc) : Prop where
  ofCheck : pc'.ofCheck = true
  restarts : pc'.restarts = true → pc.restarts = true ∨
    pc = .checking ∧ ch = .fail ∧ cfg.livenessFailureAction = "restart"

theorem callerStep_check (h : s.callerStep cfg t ch = some s') (hp : (s.callers t).ofCheck) :
    CheckStep cfg ch (s.callers t) (s'.callers t) := by
  have hgo (s₁ : Sys) (pc : CallerPc) : (s₁.goCaller t pc).callers t = pc :=
    Function.update_self _ _ _
  unfold callerStep at h
  cases hpc : s.callers t with
  | condWait | done | crashed => simp [hpc] at h
  | startEnter wait =>
      simp only [hpc] at h
      repeat' split at h
      all_goals cases h
      all_goals rw [hgo]
      all_goals exact ⟨rfl, fun _ ↦ .inl rfl⟩
  | stopEnter wait restart | stopCheck wait restart | stopWait restart =>
      simp only [hpc] at h
      split at h <;> cases h <;> rw [hgo]
      all_goals cases restart <;> exact ⟨rfl, fun h ↦ .inl h⟩
  | stopLaunch wait restart =>
      simp only [hpc] at h
      cases h
      rw [hgo]
      cases wait <;> cases restart <;> exact ⟨rfl, fun h ↦ .inl h⟩
  | stopChange wait restart ph =>
      have hkeep (pc : CallerPc) (hc : pc.ofCheck) (hr : pc.restarts → restart = true) :
          CheckStep cfg ch (.stopChange wait restart ph) pc :=
        ⟨hc, fun h ↦ .inl (by rw [hr h]; rfl)⟩
      cases ph <;> simp only [hpc] at h
      case emit =>
        split at h <;> cases h <;> rw [hgo] <;> refine hkeep _ rfl fun hr ↦ ?_
        · cases restart <;> first | rfl | cases hr
        · cases hr
      all_goals
        cases h
        rw [hgo]
        refine hkeep _ rfl fun hr ↦ ?_
        cases restart <;> first | rfl | cases hr
  | checking =>
      cases ch <;> simp only [hpc] at h <;> cases h <;> rw [hgo]
      · exact ⟨rfl, nofun⟩
      · split
        · exact ⟨rfl, fun _ ↦ .inr ⟨rfl, rfl, ‹_›⟩⟩
        · split <;> exact ⟨rfl, nofun⟩
      · exact ⟨rfl, nofun⟩
  | idle | cronCheck | livenessCheck | access | accessRead | signalEnter | signalling =>
      rw [hpc] at hp
      cases hp

end Sys

/-! ## The checks -/

/-- A check that has begun is not on its way to a `Start` if the process was stopped since. -/
structure Checks.Kept (s : Sys) (h : Checks) : Prop where
  began : ∀ t, h.stopped t = true → h.began t = true
  ofCheck : ∀ t, h.began t = true → (s.callers t).ofCheck = true
  restarts : ∀ t, h.stopped t = true → (s.callers t).restarts = false

namespace Checks

variable {cfg : Config} {s s' : Sys} {h : Checks} {a : Act} {t : Tid}

theorem aside {pc pc' : CallerPc} (ha : CallerPc.Aside pc pc') :
    (pc.ofCheck = true → pc'.ofCheck = true) ∧
      (pc.restarts = false → pc'.restarts = false) := by
  cases ha with
  | refl => exact ⟨id, id⟩
  | wake | raise => exact ⟨fun _ ↦ by first | rfl | assumption, fun _ ↦ rfl⟩

theorem next_began (ht : (h.next s a).began t = true) : h.began t = true ∨
    ∃ ch, a = .caller t ch ∧ s.callers t = .livenessCheck ∧ s.state.isRunning = true := by
  cases a with
  | call u op => cases op <;> exact .inl ht
  | caller u ch =>
      simp only [next] at ht
      split at ht
      · rename_i hp
        by_cases htu : t = u
        · subst htu
          exact .inr ⟨ch, rfl, hp⟩
        · exact .inl ((Function.update_of_ne htu _ _).symm.trans ht)
      · exact .inl ht
  | _ => exact .inl ht

theorem next_stopped (ht : (h.next s a).stopped t = true) : h.stopped t = true ∨
    ∃ u wait, a = .call u (.stop wait) ∧ h.began t = true := by
  cases a with
  | call u op =>
      cases op with
      | stop wait => exact .inr ⟨u, wait, rfl, ht⟩
      | start wait => cases ht
      | _ => exact .inl ht
  | caller u ch =>
      simp only [next] at ht
      split at ht <;> exact .inl ht
  | _ => exact .inl ht

theorem began_next (ht : h.began t = true) : (h.next s a).began t = true := by
  cases a with
  | call u op => cases op <;> exact ht
  | caller u ch =>
      simp only [next]
      split
      · show Function.update h.began u true t = true
        rw [Function.update_apply, ht, ite_self]
      · exact ht
  | _ => exact ht

/-- What a step makes of the call of a check that has begun. -/
theorem step_check (hst : s.step cfg a = some s') (hof : (s.callers t).ofCheck = true) :
    (s'.callers t).ofCheck = true ∧ ((s'.callers t).restarts = true →
      (s.callers t).restarts = true ∨ a = .caller t .fail ∧ s.callers t = .checking ∧
        cfg.livenessFailureAction = "restart") := by
  rcases Sys.step_callers hst t with ⟨op, -, hi, -⟩ | ⟨ch, rfl⟩ | ha
  · rw [hi] at hof
    cases hof
  · have hc := Sys.callerStep_check hst hof
    refine ⟨hc.ofCheck, fun hr ↦ (hc.restarts hr).imp_right ?_⟩
    rintro ⟨hp, rfl, haction⟩
    exact ⟨rfl, hp, haction⟩
  · refine ⟨(aside ha).1 hof, fun hr ↦ .inl ?_⟩
    by_contra hn
    rw [(aside ha).2 (Bool.eq_false_iff.mpr hn)] at hr
    cases hr

/-- Where a check begins. -/
theorem callers_of_began {ch : Choice} (hst : s.step cfg (.caller t ch) = some s')
    (hp : s.callers t = .livenessCheck) (hr : s.state.isRunning = true) :
    s'.callers t = .checking := by
  simp only [Sys.step, Sys.callerStep, hp, hr, if_true] at hst
  cases hst
  exact Function.update_self _ _ _

theorem Kept.step (hh : Kept s h) (ho : Overruled cfg h s a) (hst : s.step cfg a = some s') :
    Kept s' (h.next s a) := by
  constructor
  · intro t ht
    rcases next_stopped ht with ht | ⟨u, wait, -, ht⟩
    · exact began_next (hh.began t ht)
    · exact began_next ht
  · intro t ht
    rcases next_began ht with ht | ⟨ch, rfl, hp, hr⟩
    · exact (step_check hst (hh.ofCheck t ht)).1
    · rw [callers_of_began hst hp hr]
      rfl
  · intro t ht
    by_contra hr
    have hr := Bool.eq_false_iff.not_left.mp hr
    rcases next_stopped ht with ht | ⟨u, wait, rfl, hb⟩
    · rcases (step_check hst (hh.ofCheck t (hh.began t ht))).2 hr with hr | ⟨ha, hp, haction⟩
      · rw [hh.restarts t ht] at hr
        cases hr
      · rw [ho.fail t ha hp haction] at ht
        cases ht
    · rcases (step_check hst (hh.ofCheck t hb)).2 hr with hr | ⟨ha, -⟩
      · rw [ho.stop u wait rfl t hb] at hr
        cases hr
      · cases ha

theorem Kept.init : Kept {} {} where
  began _ ht := nomatch ht
  ofCheck _ ht := nomatch ht
  restarts _ ht := nomatch ht

end Checks

/-- A call that launches a start loop, or is refused, was on its way to it. -/
theorem restarts_of_start {s : Sys} {a : Act} {t : Tid} {accepted : Bool}
    (h : s.label a = .start t accepted) : (s.callers t).restarts = true := by
  cases a with
  | caller u ch =>
      simp only [Sys.label] at h
      split at h <;> (try split at h) <;> cases h
      rename_i hp
      rw [hp]
      rfl
  | loop | call | monitor | waiter =>
      simp only [Sys.label] at h
      split at h <;> (try split at h) <;> cases h
  | stopper | closer | exit | sigchld => cases h

/-- **A liveness check does not start a process that was stopped after the check began**, if no
`Stop` is requested between the beginning of a check whose failure restarts the process and the
`Start` of its callback. -/
theorem stopped_check {cfg : Config} {w : Sys × Checks}
    (hw : (checks cfg).Reach (fun w ↦ Overruled cfg w.2 w.1) w) {t : Tid}
    (ht : w.2.stopped t = true) (a : Act) (accepted : Bool) : w.1.label a ≠ .start t accepted := by
  have hh : w.2.Kept w.1 := by
    refine hw.invariant (P := fun w ↦ w.2.Kept w.1) .init ?_
    intro v a v' _ hh ho hst
    obtain ⟨s', hst', rfl⟩ := Machine.observe_step_eq_some.mp hst
    exact hh.step ho (show v.1.step cfg a = some s' from hst')
  intro hl
  have hr := hh.restarts t ht
  rw [restarts_of_start hl] at hr
  cases hr

/-- With another failure action than `restart`, a liveness check starts nothing. -/
theorem check_starts_nothing {cfg : Config} (hf : cfg.livenessFailureAction ≠ "restart")
    {w : Sys × Checks} (hw : (checks cfg).Reachable w) {t : Tid} (ht : w.2.began t = true)
    (a : Act) (accepted : Bool) : w.1.label a ≠ .start t accepted := by
  have hh : ∀ t, w.2.began t = true →
      (w.1.callers t).ofCheck = true ∧ (w.1.callers t).restarts = false := by
    refine hw.invariant (P := fun w ↦ ∀ t, w.2.began t = true →
      (w.1.callers t).ofCheck = true ∧ (w.1.callers t).restarts = false) nofun ?_
    intro v a v' _ hh _ hst t ht
    obtain ⟨s', hst', rfl⟩ := Machine.observe_step_eq_some.mp hst
    replace hst' : v.1.step cfg a = some s' := hst'
    rcases Checks.next_began ht with ht | ⟨ch, rfl, hp, hr⟩
    · obtain ⟨hof, hnr⟩ := hh t ht
      obtain ⟨hof', hnr'⟩ := Checks.step_check hst' hof
      refine ⟨hof', Bool.eq_false_iff.mpr fun hr ↦ ?_⟩
      rcases hnr' hr with hr | ⟨-, -, haction⟩
      · rw [hnr] at hr
        cases hr
      · exact hf haction
    · show (s'.callers t).ofCheck = true ∧ (s'.callers t).restarts = false
      rw [Checks.callers_of_began hst' hp hr]
      exact ⟨rfl, rfl⟩
  intro hl
  have hr := (hh t ht).2
  rw [restarts_of_start hl] at hr
  cases hr

/-- The step lets no call fail, and stops nothing while one of three callers restarts it. -/
def Sys.overrules (s : Sys) : Act → Bool
  | .caller _ .fail => false
  | .call _ (.stop _) => !(s.callers 0).restarts && !(s.callers 1).restarts &&
      !(s.callers 2).restarts
  | _ => true

set_option maxRecDepth 4000 in
/-- A program is stopped while it is being checked, and the check succeeds. -/
theorem stopped_check_success : ∃ w : Sys × Checks,
    (checks {}).Reach (fun w ↦ Overruled {} w.2 w.1) w ∧ w.2.stopped 1 = true ∧
      ∀ a accepted, w.1.label a ≠ .start 1 accepted := by
  obtain ⟨w, hw, hp⟩ : ∃ w, (checks {}).Reach
      (fun w a ↦ Overruled {} w.2 w.1 a ∧ CallsBelow 3 a) w ∧ _ := Machine.exists_reach
    (fun w a ↦ CallsBelow 3 a && w.1.overrules a)
    (fun w ↦ w.2.stopped 1)
    (List.flatten [startAndRun, [.call 1 .liveness, .caller 1 .ok, .call 2 (.stop true)],
      .replicate 6 (.caller 2 .ok), [.caller 1 .ok]])
    (fun w a hw hp ↦ by
      obtain ⟨hb, hp⟩ := Bool.and_eq_true_iff.mp hp
      refine ⟨⟨?_, ?_⟩, hb⟩
      · rintro t rfl - -
        exact absurd hp Bool.false_ne_true
      · rintro u wait rfl t -
        simp only [Sys.overrules, Bool.and_eq_true, Bool.not_eq_true'] at hp
        obtain ⟨⟨h₀, h₁⟩, h₂⟩ := hp
        rcases t with _ | _ | _ | t
        · exact h₀
        · exact h₁
        · exact h₂
        · have hr : (machine {}).Reach (fun _ a ↦ CallsBelow 3 a) w.1 :=
            Machine.Reach.fst_of (fun _ _ h ↦ h.2) (show (checks {}).Reach
              (fun w a ↦ Overruled {} w.2 w.1 a ∧ CallsBelow 3 a) w from hw)
          rw [callers_idle hr (fun _ _ h ↦ h) (Nat.le_add_left 3 t)]
          rfl)
    (by decide +kernel)
  have hw := hw.mono fun _ _ h ↦ h.1
  exact ⟨w, hw, hp, stopped_check hw hp⟩

set_option maxRecDepth 8000 in
/-- A program is stopped while it is being checked, and the check fails. -/
theorem stopped_check_restarts : ¬∀ (cfg : Config) (w : Sys × Checks), (checks cfg).Reachable w →
    ∀ t, w.2.stopped t = true → ∀ a s', w.1.step cfg a = some s' → w.1.label a ≠ .start t true := by
  intro h
  obtain ⟨w, hw, hp⟩ := Machine.exists_reachable (m := checks {})
    (fun w ↦ w.2.stopped 1 = true ∧ w.1.label (.caller 1 .ok) = .start 1 true ∧
      (w.1.step {} (.caller 1 .ok)).isSome)
    (List.flatten [startAndRun, [.call 1 .liveness, .caller 1 .ok, .call 2 (.stop true)],
      .replicate 6 (.caller 2 .ok), [.exit 0 none], .replicate 6 (.waiter 0),
      .replicate 12 (.loop 0 .ok), [.caller 2 .ok, .caller 1 .fail, .caller 1 .ok, .caller 1 .ok]])
    (by decide +kernel)
  obtain ⟨hs, hl, hsome⟩ := of_decide_eq_true hp
  obtain ⟨s', hst⟩ := Option.isSome_iff_exists.mp hsome
  exact h {} w hw 1 hs _ s' hst hl

end Supervisord.Process
