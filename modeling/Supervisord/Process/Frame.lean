import Supervisord.Process.Invariant

/-!
# What a step does to a call

A call of a method is only moved on by its own steps, with two exceptions: the finish callback
wakes a `Start` that waits, and SIGCHLD is delivered to a running `signals.Kill`.  The goroutines
of `run` and of a child send no signals and leave those that do alone.  Of the own steps of a call,
those matter here that lead to a wait for the callback, through the state change of `Stop`, to a
reading of the pid, or to a nil pointer.
-/

namespace Supervisord.Process

/-- What the step of another goroutine can do to a call. -/
inductive CallerPc.Aside : CallerPc → CallerPc → Prop
  | refl (pc : CallerPc) : Aside pc pc
  | wake : Aside .condWait .done
  | raise (job : KillJob) : Aside (.signalling job) (.signalling job.raise)

theorem CallerPc.aside_raise (pc : CallerPc) : Aside pc pc.raise := by
  cases pc with
  | signalling job => exact .raise job
  | _ => exact .refl _

/-- The call neither waits for the finish callback, nor is it in a state change or a reading. -/
def CallerPc.plain : CallerPc → Bool
  | .condWait | .stopChange _ _ _ | .accessRead _ _ => false
  | _ => true

/-- The call is one of `Signal` or `sendSignals`. -/
def CallerPc.signals : CallerPc → Bool
  | .signalEnter _ _ | .signalling _ => true
  | _ => false

/-- What a step of a call can do to it. -/
inductive CallerPc.Next (s : Sys) : CallerPc → CallerPc → Prop
  | launch (hi : s.inStart = false) : Next s (.startEnter true) .condWait
  | change {wait restart : Bool} (hr : s.state.isRunning) :
      Next s (.stopCheck wait restart) (.stopChange wait restart .load)
  | changing {wait restart : Bool} (ph ph' : Phase) :
      Next s (.stopChange wait restart ph) (.stopChange wait restart ph')
  | stopCrash {wait restart : Bool} {ph : Phase} (hp : s.pid = none) :
      Next s (.stopChange wait restart ph) .crashed
  | read (k : Accessor) : Next s (.access k) (.accessRead k s.state)
  | readCrash {k : Accessor} {st : State} (hk : s.lock.readable) (hc : s.accessCrash k st) :
      Next s (.accessRead k st) .crashed
  | plain {pc pc' : CallerPc} (hp : pc'.plain) (hc : pc' = .crashed → pc.signals) : Next s pc pc'

namespace Sys

variable {cfg : Config} {s s' s₁ : Sys} {a : Act} {t u : Tid} {ch : Choice} {c : CmdId}
  {r : Nat}

/-! ## The goroutines of `run` and of a child -/

/-- What the step of another goroutine leaves of the signalling: SIGCHLD apart, all. -/
structure SameSignals (s s' : Sys) : Prop where
  kills : s'.kills = s.kills
  stoppers : s'.stoppers = s.stoppers

/-- What a step of `run` or of a goroutine of a child does to the calls and to the signalling. -/
structure Aside (s s' : Sys) : Prop extends SameSignals s s' where
  callers : ∀ t, CallerPc.Aside (s.callers t) (s'.callers t)

theorem SameSignals.aside (h : SameSignals s s') (hc : s'.callers = s.callers) : Aside s s' where
  toSameSignals := h
  callers t := by
    rw [hc]
    exact .refl _

theorem Aside.refl : Aside s s := SameSignals.aside ⟨rfl, rfl⟩ rfl

theorem Aside.trans_eq (h : Aside s s₁) (hs : SameSignals s₁ s') (hc : s'.callers = s₁.callers) :
    Aside s s' where
  kills := hs.kills.trans h.kills
  stoppers := hs.stoppers.trans h.stoppers
  callers t := by
    rw [hc]
    exact h.callers t

theorem signal_aside : Aside s (s.signal u) where
  kills := rfl
  stoppers := rfl
  callers t := by
    simp only [signal, Function.update_apply]
    split
    · rename_i htu
      rw [htu]
      split
      · rename_i hp
        rw [hp]
        exact .wake
      · exact .refl _
    · exact .refl _

theorem finishCbWrapper_aside : Aside s (s.finishCbWrapper u r) := by
  unfold finishCbWrapper
  split
  · exact .refl
  · exact signal_aside.trans_eq ⟨rfl, rfl⟩ rfl

theorem emit_same {new old : State} (h : s.emit cfg new old = some s') :
    SameSignals s s' ∧ s'.callers = s.callers := by
  unfold emit at h
  split at h
  · obtain ⟨e, _, rfl⟩ := Option.map_eq_some_iff.mp h
    exact ⟨⟨rfl, rfl⟩, rfl⟩
  · cases h
    exact ⟨⟨rfl, rfl⟩, rfl⟩

theorem emit_aside {new old : State} (h : s.emit cfg new old = some s') : Aside s s' :=
  (emit_same h).1.aside (emit_same h).2

@[simp] theorem kill_callers (b g : Bool) (sent : Option (CmdId × String × Bool)) :
    (s.kill t b g sent).callers = s.callers := by
  cases sent <;> rfl

theorem closeStdout_aside : Aside s s.closeStdout := by
  unfold closeStdout
  split <;> exact SameSignals.aside ⟨rfl, rfl⟩ rfl

theorem closeStderr_aside (h : Aside s s₁) : Aside s s₁.closeStderr := by
  unfold closeStderr
  split
  · exact h.trans_eq ⟨rfl, rfl⟩ rfl
  · exact h

theorem loopStep_aside (h : s.loopStep cfg u ch = some s') : Aside s s' := by
  unfold loopStep at h
  cases hp : (s.loops u).pc with
  | change k ph =>
      cases ph with
      | emit old =>
          simp only [hp] at h
          split at h
          · rename_i he
            cases h
            exact (emit_aside he).trans_eq ⟨rfl, rfl⟩ rfl
          · cases h
            exact Aside.refl.trans_eq ⟨rfl, rfl⟩ rfl
      | load =>
          simp only [hp] at h
          cases h
          exact Aside.refl.trans_eq ⟨rfl, rfl⟩ rfl
      | store =>
          simp only [hp] at h
          cases h
          cases k <;> exact Aside.refl.trans_eq ⟨rfl, rfl⟩ rfl
  | runningCb =>
      simp only [hp] at h
      cases h
      exact signal_aside.trans_eq ⟨rfl, rfl⟩ rfl
  | fatalCb =>
      simp only [hp] at h
      cases h
      exact finishCbWrapper_aside.trans_eq ⟨rfl, rfl⟩ rfl
  | enter | paused | relock =>
      simp only [hp, Option.map_eq_some_iff] at h
      obtain ⟨_, _, rfl⟩ := h
      exact Aside.refl.trans_eq ⟨rfl, rfl⟩ rfl
  | create | setUser | spawn =>
      cases ch <;> simp only [hp] at h <;> cases h <;>
        exact Aside.refl.trans_eq ⟨rfl, rfl⟩ rfl
  | _ =>
      simp only [hp] at h
      repeat' split at h
      all_goals cases h
      all_goals exact Aside.refl.trans_eq ⟨rfl, rfl⟩ rfl

theorem monitorStep_aside (h : s.monitorStep cfg c = some s') : Aside s s' := by
  unfold monitorStep at h
  cases hp : (s.monitors c).pc with
  | change ph =>
      cases ph with
      | emit old =>
          simp only [hp] at h
          split at h
          · rename_i he
            cases h
            exact (emit_aside he).trans_eq ⟨rfl, rfl⟩ rfl
          · cases h
            exact Aside.refl.trans_eq ⟨rfl, rfl⟩ rfl
      | load | store =>
          simp only [hp] at h
          cases h
          exact Aside.refl.trans_eq ⟨rfl, rfl⟩ rfl
  | callback =>
      simp only [hp] at h
      cases h
      exact finishCbWrapper_aside.trans_eq ⟨rfl, rfl⟩ rfl
  | enter =>
      simp only [hp, Option.map_eq_some_iff] at h
      obtain ⟨_, _, rfl⟩ := h
      exact Aside.refl.trans_eq ⟨rfl, rfl⟩ rfl
  | _ =>
      simp only [hp] at h
      cases h
      all_goals exact Aside.refl.trans_eq ⟨rfl, rfl⟩ rfl

theorem waiterStep_aside (h : s.waiterStep c = some s') : Aside s s' := by
  unfold waiterStep at h
  cases hp : s.waiters c with
  | off | done | crashed => simp [hp] at h
  | waiting l =>
      simp only [hp] at h
      obtain ⟨-, -, rfl⟩ | ⟨-, rfl⟩ := wait_eq_some h <;>
        exact Aside.refl.trans_eq ⟨rfl, rfl⟩ rfl
  | closeLogs =>
      simp only [hp] at h
      split at h <;> cases h
      exact (closeStderr_aside closeStdout_aside).trans_eq ⟨rfl, rfl⟩ rfl
  | call | copying | store | closeChan =>
      simp only [hp] at h
      cases h
      exact Aside.refl.trans_eq ⟨rfl, rfl⟩ rfl

theorem closerStep_aside (h : s.closerStep c = some s') : Aside s s' := by
  unfold closerStep at h
  cases hp : s.closers c with
  | off | done => simp [hp] at h
  | poll =>
      simp only [hp] at h
      split at h <;> cases h
      exact Aside.refl.trans_eq ⟨rfl, rfl⟩ rfl
  | closeStdout =>
      simp only [hp] at h
      cases h
      exact closeStdout_aside.trans_eq ⟨rfl, rfl⟩ rfl
  | closeStderr =>
      simp only [hp] at h
      cases h
      exact (closeStderr_aside .refl).trans_eq ⟨rfl, rfl⟩ rfl

/-! ## Calls -/

theorem callerStep_aside (h : s.callerStep cfg u ch = some s') (htu : t ≠ u) :
    s'.callers t = s.callers t := by
  have hgo (s₁ : Sys) (pc : CallerPc) (hs : s₁.callers = s.callers) :
      (s₁.goCaller u pc).callers t = s.callers t := by
    rw [← hs]
    exact Function.update_of_ne htu _ _
  unfold callerStep at h
  cases hp : s.callers u with
  | stopChange wait restart ph =>
      cases ph with
      | emit old =>
          simp only [hp] at h
          split at h
          · rename_i s₁ he
            cases h
            exact hgo _ _ (emit_same he).2
          · cases h
            exact hgo _ _ rfl
      | load | store =>
          simp only [hp] at h
          cases h
          exact hgo _ _ rfl
  | checking =>
      cases ch <;> simp only [hp] at h <;> cases h <;> exact hgo _ _ rfl
  | signalEnter checked sigs =>
      simp only [hp, Option.map_eq_some_iff] at h
      obtain ⟨k, _, rfl⟩ := h
      split
      · exact hgo _ _ rfl
      · split <;> exact hgo _ _ rfl
  | signalling job =>
      simp only [hp, Option.map_eq_some_iff] at h
      obtain ⟨res, _, rfl⟩ := h
      cases res with
      | more job' sent => exact hgo _ _ (kill_callers _ _ _)
      | done | crash => exact hgo _ _ rfl
  | _ =>
      simp only [hp] at h
      repeat' split at h
      all_goals cases h
      all_goals exact hgo _ _ rfl

theorem opEnter_plain (op : Op) : (opEnter op).plain ∧ opEnter op ≠ .crashed := by
  cases op <;> exact ⟨rfl, nofun⟩

/-- The own steps of a call. -/
theorem callerStep_next (h : s.callerStep cfg u ch = some s') :
    CallerPc.Next s (s.callers u) (s'.callers u) := by
  have hgo (s₁ : Sys) (pc : CallerPc) : (s₁.goCaller u pc).callers u = pc :=
    Function.update_self _ _ _
  unfold callerStep at h
  cases hp : s.callers u with
  | idle | condWait | done | crashed => simp [hp] at h
  | startEnter wait =>
      simp only [hp] at h
      split at h
      · split at h
        · cases h
          rw [hgo]
          exact .plain rfl nofun
        · rename_i hi
          cases h
          rw [hgo]
          cases wait with
          | true => exact .launch (by simpa using hi)
          | false => exact .plain rfl nofun
      · cases h
  | stopCheck wait restart =>
      simp only [hp] at h
      split at h <;> cases h <;> rw [hgo]
      · exact .change ‹_›
      · cases restart <;> exact .plain rfl nofun
  | stopChange wait restart ph =>
      cases ph with
      | load =>
          simp only [hp] at h
          cases h
          rw [hgo]
          exact .changing _ _
      | emit old =>
          simp only [hp] at h
          split at h
          · cases h
            rw [hgo]
            exact .changing _ _
          · rename_i he
            cases h
            rw [hgo]
            exact .stopCrash (emit_eq_none he).1
      | store =>
          simp only [hp] at h
          cases h
          rw [hgo]
          exact .plain rfl nofun
  | access k =>
      simp only [hp] at h
      cases h
      rw [hgo]
      exact .read k
  | accessRead k st =>
      simp only [hp] at h
      split at h
      · rename_i hk
        cases h
        rw [hgo]
        split
        · exact .readCrash hk ‹_›
        · exact .plain rfl nofun
      · cases h
  | checking =>
      cases ch <;> simp only [hp] at h <;> cases h <;> rw [hgo] <;> (repeat' split) <;>
        exact .plain rfl nofun
  | signalEnter checked sigs =>
      simp only [hp, Option.map_eq_some_iff] at h
      obtain ⟨k, _, rfl⟩ := h
      split
      · rw [hgo]; exact .plain rfl nofun
      · split <;> rw [hgo] <;> exact .plain rfl fun _ ↦ rfl
  | signalling job =>
      simp only [hp, Option.map_eq_some_iff] at h
      obtain ⟨res, _, rfl⟩ := h
      cases res <;> dsimp only <;> rw [hgo] <;> exact .plain rfl fun _ ↦ rfl
  | stopEnter wait restart | stopLaunch wait restart | stopWait restart | cronCheck |
      livenessCheck =>
      simp only [hp] at h
      repeat' split at h
      all_goals cases h
      all_goals rw [hgo]
      all_goals first
        | exact .plain rfl nofun
        | (cases restart <;> exact .plain rfl nofun)

theorem stopperStep_callers (h : s.stopperStep cfg u ch = some s') : s'.callers = s.callers := by
  unfold stopperStep at h
  cases hp : s.stoppers u with
  | off | done | crashed => simp [hp] at h
  | check =>
      simp only [hp] at h
      cases h
      rfl
  | send kill =>
      simp only [hp, Option.map_eq_some_iff] at h
      obtain ⟨k, _, rfl⟩ := h
      split <;> rfl
  | killing kill job =>
      simp only [hp, Option.map_eq_some_iff] at h
      obtain ⟨res, _, rfl⟩ := h
      cases res with
      | more job' sent => exact kill_callers _ _ _
      | done | crash => rfl

/-- **What a step does to a call**: the call begins, or takes a step itself, or is moved on from
aside. -/
theorem step_callers (h : s.step cfg a = some s') (t : Tid) :
    (∃ op, a = .call t op ∧ s.callers t = .idle ∧ s'.callers t = opEnter op) ∨
      (∃ ch, a = .caller t ch) ∨ CallerPc.Aside (s.callers t) (s'.callers t) := by
  cases a with
  | call u op =>
      simp only [step] at h
      split at h <;> cases h
      rename_i hi
      by_cases htu : t = u
      · subst htu
        exact .inl ⟨op, rfl, hi, Function.update_self _ _ _⟩
      · refine .inr (.inr ?_)
        rw [show (s.goCaller u (opEnter op)).callers t = s.callers t from
          Function.update_of_ne htu _ _]
        exact .refl _
  | caller u ch =>
      by_cases htu : t = u
      · exact .inr (.inl ⟨ch, by rw [htu]⟩)
      · refine .inr (.inr ?_)
        rw [callerStep_aside h htu]
        exact .refl _
  | stopper u ch =>
      refine .inr (.inr ?_)
      rw [stopperStep_callers h]
      exact .refl _
  | loop u ch => exact .inr (.inr ((loopStep_aside h).callers t))
  | monitor c => exact .inr (.inr ((monitorStep_aside h).callers t))
  | waiter c => exact .inr (.inr ((waiterStep_aside h).callers t))
  | closer c => exact .inr (.inr ((closerStep_aside h).callers t))
  | exit c status =>
      simp only [step, exitStep] at h
      split at h <;> cases h
      exact .inr (.inr (CallerPc.aside_raise _))
  | sigchld =>
      cases h
      exact .inr (.inr (CallerPc.aside_raise _))

/-- A call that is not plain has come there by a step of its own. -/
theorem step_callers_of_not_plain (h : s.step cfg a = some s') (ht : (s'.callers t).plain = false) :
    (∃ ch, a = .caller t ch ∧ CallerPc.Next s (s.callers t) (s'.callers t)) ∨
      s.callers t = s'.callers t := by
  rcases step_callers h t with ⟨op, -, -, hop⟩ | ⟨ch, rfl⟩ | ha
  · rw [hop, (opEnter_plain op).1] at ht
    cases ht
  · exact .inl ⟨ch, rfl, callerStep_next h⟩
  · right
    generalize s.callers t = pc at ha
    generalize s'.callers t = pc' at ha ht
    cases ha with
    | refl => rfl
    | wake | raise => cases ht

end Sys

/-- Calls are made by the first `n` callers only. -/
def CallsBelow (n : Nat) : Act → Bool
  | .call t _ => t < n
  | _ => true

theorem callers_idle {ok : Sys → Act → Prop} {n : Nat} {s : Sys}
    (hs : (machine cfg).Reach ok s) (hn : ∀ s a, ok s a → CallsBelow n a) {t : Tid}
    (ht : n ≤ t) : s.callers t = .idle := by
  refine hs.invariant (P := fun s ↦ s.callers t = .idle) rfl ?_
  intro s a s' _ hi hok hst
  rcases Sys.step_callers hst t with ⟨op, rfl, -⟩ | ⟨ch, rfl⟩ | ha
  · exact absurd (of_decide_eq_true (hn _ _ hok)) (Nat.not_lt.mpr ht)
  · simp [machine, Sys.step, Sys.callerStep, hi] at hst
  · rw [hi] at ha
    generalize s'.callers t = pc at ha
    cases ha
    rfl

end Supervisord.Process
