import Supervisord.Process.Logs

/-!
# Who closes the logs

Two goroutines close the logs of a child: `waitForExit`, once it has the lock, and the one `run`
launches beside it, once it has seen the process not running.  Neither has been given the loggers
of its child; they close what `p.StdoutLog` and `p.StderrLog` hold when they come to it.
`closes_own_logs` says that these are the right ones as long as `run` does not set the loggers of
a further attempt before the goroutines of the earlier ones are through.
-/

namespace Supervisord.Process

/-! ## Exited children -/

/-- The goroutines of a child come to closing the logs once it has exited. -/
structure Closing (s : Sys) : Prop where
  started : ∀ c, s.closers c ≠ .off → (s.cmds c).started = true
  closer : ∀ c, s.closers c = .closeStdout ∨ s.closers c = .closeStderr →
    (s.cmds c).exited = true
  waiter : ∀ c, s.waiters c = .store ∨ s.waiters c = .closeLogs →
    (s.cmds c).started = true ∧ (s.cmds c).exited = true

variable {cfg : Config} {s s' : Sys} {a : Act} {c l : CmdId}

/-- What has been started, or has exited, stays so, as long as no new command takes its place. -/
theorem Core.Inv.started_step (hc : s.toCore.Inv) (h : s.step cfg a = some s')
    (hst : (s.cmds c).started = true) :
    (s'.cmds c).started = true ∧ ((s.cmds c).exited = true → (s'.cmds c).exited = true) := by
  have hm := hc.step_move h
  have hid := hc.ids.started c hst
  generalize s.label a = k at hm
  generalize s.toCore = d at *
  generalize s'.toCore = d' at *
  cases hm with
  | create | spawn | reaped | returned | exit =>
      simp only [Function.update_apply]
      grind -linarith
  | _ => exact ⟨hst, id⟩

/-- A child that has been started has exited where the state is not a running one. -/
theorem Core.Inv.exited {c : Core} {i : CmdId} (hc : c.Inv) (hst : (c.cmds i).started = true)
    (hr : c.state.isRunning = false) : (c.cmds i).exited = true := by
  by_contra he
  obtain ⟨t, rfl, ht⟩ := hc.child.alive i (hc.ids.alive hst (Bool.eq_false_iff.mpr he))
  have hup := hc.child.up t
  rw [hr] at hup
  rcases ht with ht | ⟨ht, hw⟩
  · cases hup (.inr (.inr (.inl ht)))
  · cases hup (.inr (.inr (.inr ⟨ht, WaiterPc.pre_of_awaits hw⟩)))

theorem Closing.step (hs : Closing s) (hc : s.toCore.Inv) (h : s.step cfg a = some s') :
    Closing s' := by
  have hl := Sys.step_logs h
  have hkeep (i : CmdId) (hst : (s.cmds i).started = true) (he : (s.cmds i).exited = true) :
      (s'.cmds i).exited = true := (hc.started_step h hst).2 he
  constructor
  · intro i hi
    cases hl.closersTo i with
    | same he => exact (hc.started_step h (hs.started i (he ▸ hi))).1
    | launch t hp ha hs' he =>
        rw [hs', ← ha]
        simp [Sys.spawned, Sys.goLoop]
    | seen hp | next hp | done hp =>
        exact (hc.started_step h (hs.started i (by rw [hp]; rintro ⟨⟩))).1
  · intro i hi
    cases hl.closersTo i with
    | same he =>
        rw [he] at hi
        refine hkeep i (hs.started i ?_) (hs.closer i hi)
        rcases hi with hi | hi <;> rw [hi] <;> rintro ⟨⟩
    | launch t hp ha hs' he => rw [he] at hi; rcases hi with hi | hi <;> cases hi
    | seen hp hr =>
        have hst := hs.started i (by rw [hp]; rintro ⟨⟩)
        exact hkeep i hst (hc.exited hst hr)
    | next hp => exact hkeep i (hs.started i (by rw [hp]; rintro ⟨⟩)) (hs.closer i (.inl hp))
    | done _ he => rw [he] at hi; rcases hi with hi | hi <;> cases hi
  · intro i hi
    cases hl.waitersTo i with
    | same he =>
        rw [he] at hi
        obtain ⟨hst, hx⟩ := hs.waiter i hi
        exact ⟨(hc.started_step h hst).1, hkeep i hst hx⟩
    | launch t hp ha he => rw [he] at hi; rcases hi with hi | hi <;> cases hi
    | wait l hp hs' =>
        -- the process has been reaped, `Wait` does not return yet
        obtain ⟨rfl, hpid⟩ := hc.hasPid_of_waiting hp
        obtain ⟨-, -, rfl⟩ | ⟨hno, -⟩ := Sys.wait_eq_some hs'
        · have he : ((s.reap l).goWaiter l (.copying l)).waiters l = .copying l :=
            Function.update_self _ _ _
          rw [he] at hi
          rcases hi with hi | hi <;> cases hi
        · rw [hpid] at hno
          cases hno
    | returned l hp hs' =>
        obtain ⟨rfl, hst, hx⟩ := hc.exited_of_copying hp
        rw [hs']
        simp only [Sys.waited, Function.update_self]
        exact ⟨hst, hx⟩
    | stored hp hs' =>
        rw [hs']
        exact hs.waiter i (.inl hp)
    | step _ he => rcases hi with hi | hi; exacts [absurd hi he.1, absurd hi he.2]

/-! ## The loggers of the current child -/

/-- `run` sets the loggers of an attempt when the goroutines of the earlier children are through. -/
def Settled (cfg : Config) (s : Sys) (a : Act) : Prop :=
  cfg.isProgram = true → ∀ t ch, a = .loop t ch → (s.loops t).pc = .setStdoutLog →
    ∀ c, (s.waiters c).open = false ∧ (s.closers c).open = false

/-- The loggers are those of the child whose goroutines are not through. -/
structure Owns (s : Sys) : Prop where
  stdout : ∀ t, (s.loops t).pc.hasStdoutLog → s.stdoutLog = some (s.loops t).att
  stderr : ∀ t, (s.loops t).pc.hasStderrLog → s.stderrLog = some (s.loops t).att
  quiet : ∀ t, (s.loops t).pc = .setStderrLog →
    ∀ c, (s.waiters c).open = false ∧ (s.closers c).open = false
  waiter : ∀ c, (s.waiters c).open → s.stdoutLog = some c ∧ s.stderrLog = some c
  closer : ∀ c, (s.closers c).open → s.stdoutLog = some c ∧ s.stderrLog = some c

theorem LoopPc.stage_of_hasStdoutLog {pc : LoopPc} (h : pc.hasStdoutLog) : pc.stage ≠ .idle := by
  cases pc with
  | change k ph => exact Sys.change_stage_ne k ph
  | off | done => cases h
  | _ => exact nofun

theorem LoopPc.hasStdoutLog_of_hasStderrLog {pc : LoopPc} (h : pc.hasStderrLog) :
    pc.hasStdoutLog := by
  cases pc with
  | change k ph => cases k <;> first | rfl | cases h
  | _ => first | rfl | cases h

/-- The goroutines of a child get through, one after the other. -/
theorem Owns.of_open (ho : Owns s) (hl : s'.loops = s.loops) (hout : s'.stdoutLog = s.stdoutLog)
    (herr : s'.stderrLog = s.stderrLog)
    (hws : ∀ i, (s'.waiters i).open → (s.waiters i).open)
    (hcs : ∀ i, (s'.closers i).open → (s.closers i).open) : Owns s' where
  stdout t ht := by
    rw [hl] at ht ⊢
    rw [hout]
    exact ho.stdout t ht
  stderr t ht := by
    rw [hl] at ht ⊢
    rw [herr]
    exact ho.stderr t ht
  quiet t ht i := by
    rw [hl] at ht
    obtain ⟨hw, hc⟩ := ho.quiet t ht i
    exact ⟨Bool.eq_false_iff.mpr (mt (hws i) (Bool.eq_false_iff.mp hw)),
      Bool.eq_false_iff.mpr (mt (hcs i) (Bool.eq_false_iff.mp hc))⟩
  waiter i hi := by
    rw [hout, herr]
    exact ho.waiter i (hws i hi)
  closer i hi := by
    rw [hout, herr]
    exact ho.closer i (hcs i hi)

theorem Sys.goCloser_open {pc : CloserPc} (hp : (s.closers c).open) {i : CmdId}
    (hi : ((s.goCloser c pc).closers i).open) : (s.closers i).open := by
  by_cases hic : i = c
  · rwa [hic]
  · simpa only [Sys.goCloser, Function.update_of_ne hic] using hi

/-- A start loop takes a step, and no other one has a logger. -/
theorem Owns.of_turn {t : Tid} (honly : ∀ u, (s.loops u).pc.hasStdoutLog → u = t)
    (hl : ∀ u, u ≠ t → s'.loops u = s.loops u)
    (hout : (s'.loops t).pc.hasStdoutLog → s'.stdoutLog = some (s'.loops t).att)
    (herr : (s'.loops t).pc.hasStderrLog → s'.stderrLog = some (s'.loops t).att)
    (hquiet : (s'.loops t).pc = .setStderrLog →
      ∀ c, (s'.waiters c).open = false ∧ (s'.closers c).open = false)
    (hw : ∀ c, (s'.waiters c).open → s'.stdoutLog = some c ∧ s'.stderrLog = some c)
    (hc : ∀ c, (s'.closers c).open → s'.stdoutLog = some c ∧ s'.stderrLog = some c) :
    Owns s' := by
  have hturn (u : Tid) (hu : (s'.loops u).pc.hasStdoutLog) : u = t := by
    by_contra hne
    rw [hl u hne] at hu
    exact hne (honly u hu)
  refine ⟨fun u hu ↦ ?_, fun u hu ↦ ?_, fun u hu ↦ ?_, hw, hc⟩
  · obtain rfl := hturn u hu
    exact hout hu
  · obtain rfl := hturn u (LoopPc.hasStdoutLog_of_hasStderrLog hu)
    exact herr hu
  · obtain rfl := hturn u (by rw [hu]; rfl)
    exact hquiet hu

theorem Owns.step (hown : Owns s) (hp : cfg.isProgram = true) (hc : s.toCore.Inv)
    (hk : Settled cfg s a) (h : s.step cfg a = some s') : Owns s' := by
  have honly (t : Tid) (ht : (s.loops t).pc.stage ≠ .idle) (u : Tid)
      (hu : (s.loops u).pc.hasStdoutLog) : u = t :=
    hc.turns.one u t (LoopPc.stage_of_hasStdoutLog hu) ht
  have hsub (t : Tid) (ht : (s.loops t).pc.hasStderrLog) : (s.loops t).pc.hasStdoutLog :=
    LoopPc.hasStdoutLog_of_hasStderrLog ht
  have hl := Sys.step_logs h
  have h₁ := hown.stdout
  have h₂ := hown.stderr
  have h₃ := hown.quiet
  have h₄ := hown.waiter
  have h₅ := hown.closer
  cases hl with
  | keep ho he hcs hws _ hl =>
      rw [← ho] at h₁ h₄ h₅
      rw [← he] at h₂ h₄ h₅
      rw [← hcs] at h₃ h₅
      rw [← hws] at h₃ h₄
      refine ⟨fun t ht ↦ ?_, fun t ht ↦ ?_, fun t ht ↦ ?_, h₄, h₅⟩
      · rcases hl t ht with heq | ⟨ha, hb, -⟩
        · rw [heq] at ht ⊢
          exact h₁ t ht
        · rw [ha]
          exact h₁ t (hsub t hb)
      · rcases hl t (LoopPc.hasStdoutLog_of_hasStderrLog ht) with heq | ⟨ha, hb, -⟩
        · rw [heq] at ht ⊢
          exact h₂ t ht
        · rw [ha]
          exact h₂ t hb
      · rcases hl t (by rw [ht]; rfl) with heq | ⟨-, -, hn⟩
        · rw [heq] at ht
          exact h₃ t ht
        · exact absurd ht hn
  | setStdout hpc hs =>
      subst hs
      have hquiet := hk hp _ _ rfl hpc
      refine of_turn (honly _ (by rw [hpc]; decide)) (fun u hu ↦ Function.update_of_ne hu _ _)
        ?_ ?_ (fun _ ↦ hquiet) (fun i hi ↦ ?_) fun i hi ↦ ?_
      · simp only [Sys.goLoop, Function.update_self, if_pos hp, implies_true]
      · simp only [Sys.goLoop, Function.update_self]
        rintro ⟨⟩
      · exact absurd hi (Bool.eq_false_iff.mp (hquiet i).1)
      · exact absurd hi (Bool.eq_false_iff.mp (hquiet i).2)
  | setStderr hpc hs =>
      subst hs
      have hquiet := hown.quiet _ hpc
      have hout := hown.stdout _ (by rw [hpc]; rfl)
      refine of_turn (honly _ (by rw [hpc]; decide)) (fun u hu ↦ Function.update_of_ne hu _ _)
        ?_ ?_ (fun _ ↦ hquiet) (fun i hi ↦ ?_) fun i hi ↦ ?_
      · simp only [Sys.goLoop, Function.update_self, hout, implies_true]
      · simp only [Sys.goLoop, Function.update_self, if_pos hp, implies_true]
      · exact absurd hi (Bool.eq_false_iff.mp (hquiet i).1)
      · exact absurd hi (Bool.eq_false_iff.mp (hquiet i).2)
  | @spawn t _ hpc hs =>
      subst hs
      have hout := hown.stdout t (by rw [hpc]; rfl)
      have herr := hown.stderr t (by rw [hpc]; rfl)
      refine of_turn (honly t (by rw [hpc]; decide)) (fun u hu ↦ Function.update_of_ne hu _ _)
        ?_ ?_ ?_ hown.waiter fun i hi ↦ ?_
      · simp only [Sys.spawned, Sys.goLoop, Function.update_self, hout, implies_true]
      · simp only [Sys.spawned, Sys.goLoop, Function.update_self, herr, implies_true]
      · simp only [Sys.spawned, Sys.goLoop, Function.update_self]
        split <;> rintro ⟨⟩
      · by_cases hi' : i = (s.loops t).att
        · subst hi'
          exact ⟨hout, herr⟩
        · simp only [Sys.spawned, Sys.goLoop, Function.update_of_ne hi'] at hi
          exact hown.closer i hi
  | @release t _ hpc hs =>
      subst hs
      have hout := hown.stdout t (by rw [hpc]; rfl)
      have herr := hown.stderr t (by rw [hpc]; rfl)
      refine of_turn (honly t (by rw [hpc]; decide)) (fun u hu ↦ Function.update_of_ne hu _ _)
        ?_ ?_ ?_ (fun i hi ↦ ?_) hown.closer
      · simp only [Sys.goLoop, Function.update_self]
        rintro ⟨⟩
      · simp only [Sys.goLoop, Function.update_self]
        rintro ⟨⟩
      · simp only [Sys.goLoop, Function.update_self]
        rintro ⟨⟩
      · by_cases hi' : i = (s.loops t).att
        · subst hi'
          exact ⟨hout, herr⟩
        · simp only [Sys.goLoop, Function.update_of_ne hi'] at hi
          exact hown.waiter i hi
  | waiter hout herr hcs hl hs =>
      exact hown.of_open hl hout herr (fun _ ↦ Sys.waiterStep_open hs) fun _ h ↦ by rwa [hcs] at h
  | poll hpc hr hs =>
      subst hs
      exact hown.of_open rfl rfl rfl (fun _ h ↦ h) fun _ ↦ Sys.goCloser_open (by rw [hpc]; rfl)
  | stdout hpc hs =>
      subst hs
      rw [Sys.closeStdout_eq]
      exact hown.of_open rfl rfl rfl (fun _ h ↦ h) fun _ ↦ Sys.goCloser_open (by rw [hpc]; rfl)
  | stderr hpc hs =>
      subst hs
      rw [Sys.closeStderr_eq]
      exact hown.of_open rfl rfl rfl (fun _ h ↦ h) fun _ ↦ Sys.goCloser_open (by rw [hpc]; rfl)

theorem logs_none_step (hp : cfg.isProgram = false) (hn : s.stdoutLog = none ∧ s.stderrLog = none)
    (h : s.step cfg a = some s') : s'.stdoutLog = none ∧ s'.stderrLog = none := by
  cases Sys.step_logs h with
  | keep ho he | waiter ho he => rw [ho, he]; exact hn
  | setStdout _ hs | setStderr _ hs =>
      subst hs
      simpa [Sys.goLoop, hp] using hn
  | spawn _ hs | release _ hs | poll _ _ hs => subst hs; exact hn
  | stdout _ hs => rw [hs, Sys.closeStdout_eq]; exact hn
  | stderr _ hs => rw [hs, Sys.closeStderr_eq]; exact hn

/-! ## The goroutines of a child close its own loggers -/

theorem Closing.init : Closing {} where
  started _ h := absurd rfl h
  closer _ h := by rcases h with h | h <;> cases h
  waiter _ h := by rcases h with h | h <;> cases h

theorem Owns.init : Owns {} := ⟨nofun, nofun, nofun, nofun, nofun⟩

theorem reachable_closing (hs : (machine cfg).Reachable s) : Closing s :=
  hs.invariant .init fun _ _ _ hr hc _ hst ↦ hc.step (reachable_inv hr) hst

theorem Sys.Closes.started (h : s.Closes a c l) (hs : Closing s) : (s.cmds c).started = true := by
  cases h with
  | waiter hp => exact (hs.waiter c (.inr hp)).1
  | stdout hp | stderr hp => exact hs.started c (by rw [hp]; exact nofun)

/-- **The goroutines of a child close its own loggers, and only after it has exited**, if `run`
sets the loggers of each attempt when the goroutines of the earlier children are through. -/
theorem closes_own_logs (hs : (machine cfg).Reach (Settled cfg) s) (hc : s.Closes a c l) :
    l = c ∧ (s.cmds l).exited = true := by
  have hcl := reachable_closing hs.reachable
  have hown : l = c := by
    cases hp : cfg.isProgram with
    | false =>
        obtain ⟨ho, he⟩ := hs.invariant
          (P := fun s ↦ s.stdoutLog = none ∧ s.stderrLog = none) ⟨rfl, rfl⟩
          fun _ _ _ _ hn _ hst ↦ logs_none_step hp hn hst
        cases hc with
        | waiter _ hl => rcases hl with hl | hl <;> simp [ho, he] at hl
        | stdout _ hl => simp [ho] at hl
        | stderr _ hl => simp [he] at hl
    | true =>
        have hown := hs.invariant (P := Owns) .init fun _ _ _ hr ho hk hst ↦
          ho.step hp (reachable_inv hr.reachable) hk hst
        cases hc with
        | waiter hp hl =>
            obtain ⟨ho, he⟩ := hown.waiter c (by rw [hp]; rfl)
            rcases hl with hl | hl <;> simp_all
        | stdout hp hl =>
            rw [(hown.closer c (by rw [hp]; rfl)).1] at hl
            exact (Option.some.inj hl).symm
        | stderr hp hl =>
            rw [(hown.closer c (by rw [hp]; rfl)).2] at hl
            exact (Option.some.inj hl).symm
  subst hown
  cases hc with
  | waiter hp => exact ⟨rfl, (hcl.waiter l (.inr hp)).2⟩
  | stdout hp => exact ⟨rfl, hcl.closer l (.inl hp)⟩
  | stderr hp => exact ⟨rfl, hcl.closer l (.inr hp)⟩

/-- A logger is closed only after its child has exited. -/
theorem exited_of_closed (hs : (machine cfg).Reach (Settled cfg) s)
    (hl : s.stdoutClosed l = true ∨ s.stderrClosed l = true) : (s.cmds l).exited = true := by
  have hcl : (s.cmds l).started = true ∧ (s.cmds l).exited = true := by
    revert hl
    refine hs.invariant (P := fun s ↦ s.stdoutClosed l = true ∨ s.stderrClosed l = true →
      (s.cmds l).started = true ∧ (s.cmds l).exited = true) (by rintro (h | h) <;> cases h) ?_
    intro s a s' hr hp _ hst hl
    have hc := reachable_inv hr.reachable
    have hx : (s.cmds l).started = true ∧ (s.cmds l).exited = true := by
      rcases Sys.closes_of_closed hst hl with hl | ⟨c, hcl⟩
      · exact hp hl
      · obtain ⟨rfl, hx⟩ := closes_own_logs hr hcl
        exact ⟨hcl.started (reachable_closing hr.reachable), hx⟩
    obtain ⟨h₁, h₂⟩ := hc.started_step hst hx.1
    exact ⟨h₁, h₂ hx.2⟩
  exact hcl.2

/-- The goroutines of a child are not through until it has been started. -/
theorem Closing.started_of_open (hs : Closing s) (hc : s.toCore.Inv)
    (ho : (s.waiters c).open ∨ (s.closers c).open) : (s.cmds c).started = true := by
  rcases ho with ho | ho
  · by_cases hw : s.waiters c = .closeLogs
    · exact (hs.waiter c (.inr hw)).1
    · obtain ⟨t, ht, rfl⟩ := hc.child.waiter c (WaiterPc.pre_of_open ho hw)
      exact hc.child.started t (by rw [ht]; rfl)
  · exact hs.started c fun hn ↦ by rw [hn] at ho; cases ho

/-- The first attempt comes before all goroutines. -/
theorem settled_first (hs : (machine cfg).Reachable s) (hn : s.nextCmd = 1)
    (hst : (s.cmds 0).started = false) : Settled cfg s a := by
  intro _ t ch _ _ c
  have hc := reachable_inv hs
  have hnot : ¬((s.waiters c).open ∨ (s.closers c).open) := fun ho ↦ by
    have hsc := (reachable_closing hs).started_of_open hc ho
    have hlt := hc.ids.started c hsc
    rw [hn, Nat.lt_one_iff] at hlt
    rw [hlt, hst] at hsc
    cases hsc
  simpa [not_or] using hnot

set_option maxRecDepth 4000 in
/-- A program exits, and `waitForExit` closes its logs. -/
theorem closes_own_logs_exit : ∃ s : Sys, (machine {}).Reach (Settled {}) s ∧
    s.Closes (.waiter 0) 0 0 ∧ (s.cmds 0).exited = true := by
  obtain ⟨s, hs, hp⟩ : ∃ s, (machine {}).Reach (Settled {}) s ∧ _ :=
    Machine.exists_reach (fun s a ↦ match a with
      | .loop t _ => (s.loops t).pc ≠ .setStdoutLog ∨
          s.nextCmd = 1 ∧ (s.cmds 0).started = false
      | _ => true)
    (fun s ↦ s.waiters 0 = .closeLogs ∧ s.stdoutLog = some 0)
    (List.flatten [startAndRun, [.exit 0 (some 0)], .replicate 4 (.waiter 0)])
    (fun s a hr hp hg t ch ha hpc ↦ by
      subst ha
      rcases of_decide_eq_true hp with hn | ⟨hn, hst⟩
      · exact absurd hpc hn
      · exact settled_first hr.reachable hn hst hg t ch rfl hpc)
    (by decide +kernel)
  obtain ⟨hw, hl⟩ := of_decide_eq_true hp
  have hc : s.Closes (.waiter 0) 0 0 := .waiter hw (.inl hl)
  exact ⟨s, hs, hc, (closes_own_logs hs hc).2⟩

set_option maxRecDepth 4000 in
/-- A child exits too early, and `run` has spawned the next one before `waitForExit` gets the
lock to close the logs. -/
theorem closes_younger_logs : ¬∀ (cfg : Config) (s : Sys) (a : Act) (c l : CmdId),
    (machine cfg).Reachable s → s.Closes a c l → (s.cmds l).exited = true ∧ l ≤ c := by
  intro h
  obtain ⟨s, hs, hp⟩ := Machine.exists_reachable (m := machine {})
    (fun s ↦ s.waiters 0 = .closeLogs ∧ s.stdoutLog = some 1 ∧ (s.cmds 1).exited = false)
    (List.flatten [[.call 0 (.start false), .caller 0 .ok], .replicate 12 (.loop 0 .ok),
      [.exit 0 (some 1)], .replicate 4 (.waiter 0), .replicate 2 (.monitor 0),
      .replicate 18 (.loop 0 .ok)]) (by decide +kernel)
  obtain ⟨hw, hl, he⟩ := of_decide_eq_true hp
  obtain ⟨hx, -⟩ := h {} s (.waiter 0) 0 1 hs (.waiter hw (.inl hl))
  rw [he] at hx
  cases hx

end Supervisord.Process
