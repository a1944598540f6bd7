import Supervisord.Process.Logs
import Supervisord.Process.Signals

/-!
# Whom a requested signal reaches

`Signal` sends to the process `p.cmd` remembers, and `p.cmd` goes on remembering a process that has
exited and has been reaped; the pid may be anybody's by then.  `signal_alive` says that a requested
signal goes to a child that has not been reaped, and the process is running, as long as
`waitForExit` is not past `wait4` with an exited child from the look at `p.cmd` to the system call.
-/

namespace Supervisord.Process

/-- The calls that are ones of `Signal`. -/
def recordSignal (h : Tid → Bool) : Act → Tid → Bool
  | .call t (.signal _) => Function.update h t true
  | _ => h

theorem recordSignal_of_ne {h : Tid → Bool} {a : Act} {t : Tid}
    (ha : ∀ sig, a ≠ .call t (.signal sig)) : recordSignal h a t = h t := by
  cases a with
  | call u op =>
      cases op with
      | signal sig => exact Function.update_of_ne (fun htu ↦ ha sig (by rw [htu])) _ _
      | _ => rfl
  | _ => rfl

/-- A process beside its calls of `Signal`. -/
def signalled (cfg : Config) : Machine (Sys × (Tid → Bool)) Act :=
  (machine cfg).observe (fun _ ↦ false) fun h _ a _ ↦ recordSignal h a

/-- The process `Signal` finds in `p.cmd` has not exited, or `waitForExit` has not been scheduled
since then; and it is not scheduled to take the exit in while a `Signal` is still to signal the
process it has found. -/
structure Timely (h : Tid → Bool) (s : Sys) (a : Act) : Prop where
  look : ∀ t ch sigs i, a = .caller t ch → h t = true → s.callers t = .signalEnter true sigs →
    s.pid = some i → (s.cmds i).exited = true → (s.waiters i).early
  between : ∀ c t job i, a = .waiter c → s.waiters c = .waiting i → h t = true →
    s.callers t = .signalling job → job.process = some i → job.sigs = []

/-- A call of `Signal`, with a child that is not reaped where there is still something to send. -/
def Sys.SignalsChild (s : Sys) : CallerPc → Prop
  | .signalEnter checked _ => checked = true
  | .signalling job => job.sigs ≠ [] → ∃ i, job.process = some i ∧ (s.cmds i).hasPid = true
  | .done | .crashed => True
  | _ => False

namespace Sys

variable {cfg : Config} {s s' : Sys} {a : Act} {t : Tid} {ch : Choice} {i : CmdId}
  {h : Tid → Bool}

/-! ## The children -/

/-- A child keeps its pid until `wait4` returns for it. -/
theorem hasPid_move {c c' : Core} {k : Label} (hc : c.Inv) (hm : Move cfg c k c')
    (hi : (c.cmds i).hasPid = true) :
    (c'.cmds i).hasPid = true ∨ ∃ j, c.waiters j = .waiting i ∧ c'.waiters j = .copying i := by
  have hlt := hc.ids.started i
  revert hi
  cases hm <;> try simp only [Function.update_apply]
  all_goals grind -linarith

/-- Who comes back from `wait4` has moved. -/
theorem waiter_of_copying (h : s.step cfg a = some s') {c : CmdId} (hc : s.waiters c = .waiting i)
    (hc' : s'.waiters c = .copying i) : a = .waiter c := by
  have hne : s'.waiters c ≠ s.waiters c := by
    rw [hc, hc']
    exact nofun
  cases step_logs h with
  | keep _ _ _ hw => exact absurd (congrFun hw c) hne
  | setStdout _ hs | setStderr _ hs | spawn _ hs | poll _ _ hs =>
      exact absurd (by rw [hs]; rfl) hne
  | stdout _ hs => exact absurd (by rw [hs, closeStdout_eq]; rfl) hne
  | stderr _ hs => exact absurd (by rw [hs, closeStderr_eq]; rfl) hne
  | release hp hs =>
      rename_i u _
      by_cases hcu : c = (s.loops u).att
      · rw [hs, hcu] at hc'
        simp [goLoop] at hc'
      · exact absurd (by rw [hs]; exact Function.update_of_ne hcu _ _) hne
  | @waiter d _ _ _ _ hs =>
      by_cases hcd : c = d
      · rw [hcd]
      · exact absurd (waiterStep_waiters hs hcd) hne

theorem step_hasPid (hc : s.toCore.Inv) (hst : s.step cfg a = some s')
    (hi : (s.cmds i).hasPid = true) :
    (s'.cmds i).hasPid = true ∨ ∃ c, a = .waiter c ∧ s.waiters c = .waiting i :=
  (hasPid_move hc (hc.step_move hst) hi).imp_right fun h ↦
    h.imp fun _ hw ↦ ⟨waiter_of_copying hst hw.1 hw.2, hw.1⟩

/-- The state of a process with a child that is not reaped is a running one. -/
theorem isRunning_of_hasPid (hc : s.toCore.Inv) (hi : (s.cmds i).hasPid = true) :
    s.state.isRunning = true := by
  obtain ⟨hst, hr⟩ := Cmd.hasPid_iff.mp hi
  have ha : (s.cmds i).alive = true := by
    have hw := hc.ids.returned i
    rw [hr] at hw
    rw [Cmd.alive, hst]
    simpa using hw
  obtain ⟨t, rfl, ht⟩ := hc.child.alive i ha
  exact hc.child.up t
    (.inr (.inr (ht.imp_right fun hw ↦ ⟨hw.1, WaiterPc.pre_of_awaits hw.2⟩)))

/-! ## The calls -/

/-- `signals.Kill` sends what is left of its signals. -/
theorem sigs_of_more {job job' : KillJob} {sent : Option (CmdId × String × Bool)}
    (hj : job.step ch = some (.more job' sent)) (hs : job.sigs = []) :
    job'.sigs = [] ∧ sent = none := by
  unfold KillJob.step at hj
  rw [hs] at hj
  split at hj
  · cases ch <;> simp only at hj
    · split at hj <;> cases hj
    · cases hj
    · cases hj
      exact ⟨rfl, rfl⟩
  · cases hj

theorem callerStep_signalsChild (hst : s.callerStep cfg t ch = some s')
    (hl : s.SignalsChild (s.callers t)) (hlook : ∀ sigs i, s.callers t = .signalEnter true sigs →
      s.pid = some i → (s.cmds i).reaped = false) : s'.SignalsChild (s'.callers t) := by
  unfold callerStep at hst
  cases hp : s.callers t with
  | signalEnter checked sigs =>
      rw [hp] at hl
      obtain rfl : checked = true := hl
      simp only [hp, Option.map_eq_some_iff] at hst
      obtain ⟨k, _, rfl⟩ := hst
      split
      · rw [goCaller_callers]
        trivial
      · rename_i hn
        split <;> rw [goCaller_callers]
        · trivial
        · intro _
          cases hpid : s.pid with
          | none => simp [hpid] at hn
          | some i =>
              have hst : (s.cmds i).started = true := (Option.filter_eq_some_iff.mp hpid).2
              refine ⟨i, rfl, ?_⟩
              exact Cmd.hasPid_iff.mpr ⟨hst, hlook sigs i hp hpid⟩
  | signalling job =>
      rw [hp] at hl
      simp only [hp, Option.map_eq_some_iff] at hst
      obtain ⟨res, hj, rfl⟩ := hst
      cases res with
      | more job' sent =>
          dsimp only
          rw [goCaller_callers]
          intro hs
          obtain ⟨i, hi, ha⟩ := hl fun hnil ↦ hs (sigs_of_more hj hnil).1
          refine ⟨i, by rw [(KillJob.step_more hj).1, hi], ?_⟩
          show ((s.kill t false job.sigChildren sent).cmds i).hasPid = true
          rw [kill_toCore]
          exact ha
      | done | crash =>
          dsimp only
          rw [goCaller_callers]
          trivial
  | done | crashed => simp [hp] at hst
  | _ =>
      rw [hp] at hl
      cases hl

theorem callerStep_kills (hst : s.callerStep cfg t ch = some s')
    (hp : ∀ job, s.callers t ≠ .signalling job) : s'.kills = s.kills := by
  unfold callerStep at hst
  cases hpc : s.callers t with
  | signalling job => exact absurd hpc (hp job)
  | stopChange wait restart ph =>
      cases ph <;> simp only [hpc] at hst
      case emit =>
        split at hst <;> cases hst
        · rename_i s₁ he
          have hsame := (emit_same he).1
          exact hsame.kills
        · rfl
      all_goals
        cases hst
        rfl
  | checking =>
      cases ch <;> simp only [hpc] at hst <;> cases hst <;> rfl
  | signalEnter checked sigs =>
      simp only [hpc, Option.map_eq_some_iff] at hst
      obtain ⟨k, _, rfl⟩ := hst
      repeat' split
      all_goals rfl
  | _ =>
      simp only [hpc] at hst
      repeat' split at hst
      all_goals cases hst
      all_goals rfl

theorem stopperStep_kills (hst : s.stopperStep cfg t ch = some s') :
    s'.kills = s.kills ∨ ∃ k, k.byStopper = true ∧ s'.kills = s.kills ++ [k] := by
  unfold stopperStep at hst
  cases hp : s.stoppers t with
  | off | done | crashed => simp [hp] at hst
  | check =>
      simp only [hp] at hst
      cases hst
      exact .inl rfl
  | send kill =>
      simp only [hp, Option.map_eq_some_iff] at hst
      obtain ⟨k, _, rfl⟩ := hst
      split <;> exact .inl rfl
  | killing kill job =>
      simp only [hp, Option.map_eq_some_iff] at hst
      obtain ⟨res, _, rfl⟩ := hst
      cases res with
      | more job' sent =>
          cases sent with
          | none => exact .inl rfl
          | some sent => exact .inr ⟨_, rfl, rfl⟩
      | done | crash => exact .inl rfl

/-- A `kill` that is not one of a stopping goroutine is one of a call, with the signal it has still
to send. -/
theorem step_signal (hst : s.step cfg a = some s') {k : KillCall} (hk : s'.kills = s.kills ++ [k])
    (hb : k.byStopper = false) :
    ∃ job, s.callers k.caller = .signalling job ∧ job.process = some k.target ∧ job.sigs ≠ [] := by
  have hno (hs : s'.kills = s.kills) : False := by
    rw [hs] at hk
    simpa using congrArg List.length hk
  cases a with
  | caller u ch =>
      cases hp : s.callers u with
      | signalling job =>
          simp only [step, callerStep, hp, Option.map_eq_some_iff] at hst
          obtain ⟨res, hj, rfl⟩ := hst
          cases res with
          | more job' sent =>
              cases sent with
              | none => exact (hno rfl).elim
              | some sent =>
                  obtain ⟨i, sig, ok⟩ := sent
                  obtain rfl := (List.singleton_inj.mp (List.append_cancel_left hk))
                  refine ⟨job, hp, (KillJob.step_more hj).2 i sig ok rfl, fun hnil ↦ ?_⟩
                  cases (sigs_of_more hj hnil).2
          | done | crash => exact (hno rfl).elim
      | _ =>
          refine (hno (callerStep_kills hst fun job h ↦ ?_)).elim
          rw [hp] at h
          cases h
  | stopper u ch =>
      rcases stopperStep_kills hst with hs | ⟨k', hb', hk'⟩
      · exact (hno hs).elim
      · rw [hk'] at hk
        obtain rfl := List.singleton_inj.mp (List.append_cancel_left hk)
        rw [hb'] at hb
        cases hb
  | call u op =>
      simp only [step] at hst
      split at hst <;> cases hst
      exact (hno rfl).elim
  | loop u ch => exact (hno (loopStep_aside hst).kills).elim
  | monitor c => exact (hno (monitorStep_aside hst).kills).elim
  | waiter c => exact (hno (waiterStep_aside hst).kills).elim
  | closer c => exact (hno (closerStep_aside hst).kills).elim
  | exit c status =>
      simp only [step, exitStep] at hst
      split at hst <;> cases hst
      exact (hno rfl).elim
  | sigchld =>
      cases hst
      exact (hno rfl).elim

end Sys

variable {cfg : Config} {w : Sys × (Tid → Bool)}

/-- The calls recorded are ones of `Signal`, and signal children that are not reaped. -/
def Sys.Signals (s : Sys) (h : Tid → Bool) : Prop :=
  ∀ t, h t = true → s.SignalsChild (s.callers t)

theorem Sys.SignalsChild.aside {s s' : Sys} {pc pc' : CallerPc} (hl : s.SignalsChild pc)
    (ha : CallerPc.Aside pc pc')
    (hk : ∀ job i, pc = .signalling job → job.sigs ≠ [] → job.process = some i →
      (s.cmds i).hasPid = true → (s'.cmds i).hasPid = true) : s'.SignalsChild pc' := by
  have hjob (job : KillJob) (hl : s.SignalsChild (.signalling job))
      (hk : ∀ i, job.sigs ≠ [] → job.process = some i → (s.cmds i).hasPid = true →
        (s'.cmds i).hasPid = true) : s'.SignalsChild (.signalling job) := fun hs ↦ by
    obtain ⟨i, hi, ha⟩ := hl hs
    exact ⟨i, hi, hk i hs hi ha⟩
  cases ha with
  | refl =>
      cases pc with
      | signalling job => exact hjob job hl fun i ↦ hk job i rfl
      | _ => exact hl
  | wake => trivial
  | raise job => exact hjob job hl fun i ↦ hk job i rfl

theorem signals_child (hw : (signalled cfg).Reach (fun w ↦ Timely w.2 w.1) w) :
    w.1.Signals w.2 := by
  refine hw.invariant (P := fun w ↦ w.1.Signals w.2) nofun ?_
  rintro ⟨s, h⟩ a v' hv hs hu hst'
  obtain ⟨s', hst, rfl⟩ := Machine.observe_step_eq_some.mp hst'
  have hc : s.toCore.Inv := reachable_inv hv.fst
  intro t ht
  show s'.SignalsChild (s'.callers t)
  by_cases hcall : ∃ sig, a = .call t (.signal sig)
  · -- the call begins
    obtain ⟨sig, rfl⟩ := hcall
    simp only [machine, Sys.step] at hst
    split at hst <;> cases hst
    rw [Sys.goCaller_callers]
    rfl
  · -- the call was recorded before
    replace ht : h t = true :=
      (recordSignal_of_ne fun sig hsig ↦ hcall ⟨sig, hsig⟩).symm.trans ht
    rcases Sys.step_callers hst t with ⟨op, rfl, hi, hop⟩ | ⟨ch, rfl⟩ | ha
    · have hl := hs t ht
      rw [show (s, h).1.callers t = .idle from hi] at hl
      cases hl
    · refine Sys.callerStep_signalsChild hst (hs t ht) fun sigs i hp hpid ↦ ?_
      -- what has not exited has not been reaped either
      rw [← Bool.not_eq_true]
      intro hr
      have he := hu.look t ch sigs i rfl ht hp hpid (hc.ids.reaped i hr).2
      rw [hc.ids.early i he] at hr
      cases hr
    · refine (hs t ht).aside ha fun job i hp hsigs hi hai ↦ ?_
      rcases Sys.step_hasPid hc hst hai with hai | ⟨c, hca, hwt⟩
      · exact hai
      · exact absurd (hu.between c t job i hca hwt ht hp hi) hsigs

end Supervisord.Process
