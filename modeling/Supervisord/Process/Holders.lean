import Supervisord.Process.Signals

/-!
# Who holds the lock

`Core.Locks` says that a goroutine in a critical section holds the lock.  Here is the converse:
the lock is held by a start loop or a monitor that is in a critical section, its readers are the
calls of `signals.Kill` under way, and `inStart` is set for the sake of a start loop.  Nothing is
left locked by a goroutine that has gone on.
-/

namespace Supervisord.Process

namespace Core

variable {cfg : Config} {c c' : Core} {t : Tid} {i : CmdId} {k : Label}

/-! ## The write lock and the start loops -/

/-- What is held is held by somebody. -/
structure Owned (c : Core) : Prop where
  loop : ∀ t, c.lock = .held (.loop t) → (c.loops t).stage.holds
  monitor : ∀ i, c.lock = .held (.monitor i) → (c.monitors i).stage.holds
  launched : c.inStart = true → ∃ t, (c.loops t).stage ≠ .idle

theorem Owned.loop_move (ho : c.Owned) (h : Move cfg c k c')
    (hl : c'.lock = .held (.loop t)) : (c'.loops t).stage.holds := by
  have hw := ho.loop t
  by_cases hk : k.loop = some t
  · cases h with
    | loop hs =>
        cases hk
        simpa only [Function.update_self, hs] using hw hl
    | pass _ _ hs =>
        cases hk
        simp only [Function.update_self, hs]
        split <;> rfl
    | spawn _ hs =>
        cases hk
        rcases hs with ⟨hs, -⟩ | ⟨hs, -⟩ <;> simp only [Function.update_self, hs] <;> rfl
    | pause | release | leave => cases hl
    | accept hf | finish hf =>
        rw [show c.lock = .held (.loop t) from hl] at hf
        cases hf
    | see hs | tell hs | rest hs | decide hs =>
        -- outside of the critical sections
        cases hk
        have hh := hw hl
        rw [hs] at hh
        cases hh
    | enter _ _ hs | refused _ _ hs | busy _ hs | clear _ _ hs | quit _ _ hs | resume _ _ hs
    | starting _ hs | create _ hs | fail _ hs | createFatal _ hs | spawnFatal _ hs | retry _ hs
    | up _ hs | relock _ _ hs | excuse _ _ hs | blame _ _ hs | verdict _ hs | closeExited _ hs
    | closeStopped _ hs | backoff _ _ hs | exhaust _ _ hs | retryFatal _ hs | gaveUp _ hs =>
        cases hk
        simp only [Function.update_self, hs]
        rfl
    | _ => cases hk
  · rw [h.loops_eq hk]
    cases h with
    | readers _ hr =>
        dsimp only at hl
        rw [hl] at hr
        cases hr
    | enter | resume | relock =>
        cases hl
        exact absurd rfl hk
    | pause | release | leave | monEnter | monLeave => cases hl
    | _ => exact hw hl

theorem Owned.monitor_move (ho : c.Owned) (hc : c.Inv) (h : Move cfg c k c')
    (hl : c'.lock = .held (.monitor i)) : (c'.monitors i).stage.holds := by
  have hw := ho.monitor i
  have hll := hc.locks.loop
  revert hl
  cases h with
  | readers | enter | resume | relock | pause | release | leave => grind -linarith
  | spawn | up | tell | monitor | monEnter | monPass | monDrop | monRunning | monLeave | answer =>
      simp only [Function.update_apply]
      grind -linarith
  | _ => exact hw

/-- A start loop that is active stays so until it resets `inStart`. -/
theorem active_move (h : Move cfg c k c') (hi : c'.inStart = true) (hk : k.loop = some t) :
    (c'.loops t).stage ≠ .idle := by
  cases h with
  | loop hs hne =>
      cases hk
      simpa only [Function.update_self, hs] using hne
  | finish => cases hi
  | pass _ _ hs | rest _ hs | decide _ hs =>
      cases hk
      simp only [Function.update_self, hs]
      split <;> exact Stage.noConfusion
  | spawn _ hs =>
      cases hk
      rcases hs with ⟨hs, -⟩ | ⟨hs, -⟩ <;> simp only [Function.update_self, hs] <;>
        exact Stage.noConfusion
  | accept _ _ hs | pause _ hs | release _ hs | leave _ hs | see _ _ hs | tell _ hs
  | enter _ _ hs | refused _ _ hs | busy _ hs | clear _ _ hs | quit _ _ hs | resume _ _ hs
  | starting _ hs | create _ hs | fail _ hs | createFatal _ hs | spawnFatal _ hs | retry _ hs
  | up _ hs | relock _ _ hs | excuse _ _ hs | blame _ _ hs | verdict _ hs | closeExited _ hs
  | closeStopped _ hs | backoff _ _ hs | exhaust _ _ hs | retryFatal _ hs | gaveUp _ hs =>
      cases hk
      simp only [Function.update_self, hs]
      exact Stage.noConfusion
  | _ => cases hk

theorem Owned.launched_move (ho : c.Owned) (h : Move cfg c k c') (hi : c'.inStart = true) :
    ∃ t, (c'.loops t).stage ≠ .idle := by
  cases hk : k.loop with
  | some t => exact ⟨t, active_move h hi hk⟩
  | none =>
      have hin : c.inStart = true := by
        cases h with
        | accept | finish => cases hk
        | _ => exact hi
      obtain ⟨t, ht⟩ := ho.launched hin
      exact ⟨t, by rwa [h.loops_eq (by simp [hk])]⟩

theorem Owned.move (ho : c.Owned) (hc : c.Inv) (h : Move cfg c k c') : c'.Owned where
  loop _ hl := ho.loop_move h hl
  monitor _ hl := ho.monitor_move hc h hl
  launched hi := ho.launched_move h hi

/-- What `run` and the goroutines of a child do to the lock. -/
inductive LockStep (c c' : Core) : Prop
  | same (h : c'.lock = c.lock)
  | take (o : Holder) (h : c.lock = .free) (h' : c'.lock = .held o)
  | give (o : Holder) (h : c.lock = .held o) (h' : c'.lock = .free)

theorem LockStep.readers (h : LockStep c c') : c'.lock.readers = c.lock.readers := by
  cases h with
  | same h => rw [h]
  | take o h h' | give o h h' => rw [h, h']; rfl

theorem lockStep_move (hc : c.Inv) (h : Move cfg c k c')
    (hk : k ≠ .tau) : LockStep c c' := by
  cases h with
  | enter hf | resume hf | relock hf => exact .take _ hf rfl
  | pause hs | release hs | leave hs => exact .give _ (hc.locks.loop _ (by rw [hs]; rfl)) rfl
  | readers | monEnter | monLeave => exact absurd rfl hk
  | _ => exact .same rfl

end Core

theorem reachable_owned {cfg : Config} {s : Sys} (h : (machine cfg).Reachable s) :
    s.toCore.Owned := by
  refine h.invariant (P := fun s ↦ s.toCore.Owned) ?_ fun s a s' hr ho _ hst ↦ ?_
  · refine ⟨fun t ht ↦ ?_, fun i hi ↦ ?_, fun hi ↦ ?_⟩
    · cases ht
    · cases hi
    · cases hi
  · have hi := reachable_inv hr
    exact ho.move hi (hi.step_move hst)

/-! ## The readers -/

/-- The goroutine is in `signals.Kill`, under the read lock. -/
def CallerPc.reads : CallerPc → Bool
  | .signalling _ => true
  | _ => false

def StopperPc.reads : StopperPc → Bool
  | .killing _ _ => true
  | _ => false

/-- The call may still launch a stopping goroutine. -/
def CallerPc.early : CallerPc → Bool
  | .idle | .stopEnter _ _ | .stopCheck _ _ | .stopChange _ _ _ | .stopLaunch _ _ | .livenessCheck
  | .checking => true
  | .startEnter _ | .condWait | .stopWait _ | .cronCheck | .access _ | .accessRead _ _
  | .signalEnter _ _ | .signalling _ | .done | .crashed => false

namespace Sys

variable {cfg : Config} {s s' s₁ : Sys} {a : Act} {t u : Tid} {ch : Choice} {c : CmdId}

/-- The reader is in `signals.Kill`. -/
def reads (s : Sys) : Reader → Bool
  | .caller t => (s.callers t).reads
  | .stopper t => (s.stoppers t).reads

/-- The readers of the lock are those in `signals.Kill`. -/
structure Reads (s : Sys) : Prop where
  nodup : s.lock.readers.Nodup
  iff : ∀ r, r ∈ s.lock.readers ↔ s.reads r

/-- What a step does to the readers. -/
inductive ReadStep (s s' : Sys) : Prop
  | same (hl : s'.lock.readers = s.lock.readers) (hr : ∀ r, s'.reads r = s.reads r)
  | enter (r : Reader) (hl : s'.lock.readers = r :: s.lock.readers) (hn : s.reads r = false)
      (hr : ∀ q, s'.reads q = (q = r || s.reads q))
  | leave (r : Reader) (hl : s'.lock.readers = s.lock.readers.erase r)
      (hr : ∀ q, s'.reads q = (q ≠ r && s.reads q))

theorem Reads.step (hs : s.Reads) (h : ReadStep s s') : s'.Reads := by
  cases h with
  | same hl hr => exact ⟨by rw [hl]; exact hs.nodup, fun r ↦ by rw [hl, hr]; exact hs.iff r⟩
  | enter r hl hn hr =>
      refine ⟨?_, fun q ↦ ?_⟩
      · rw [hl, List.nodup_cons]
        refine ⟨fun hm ↦ ?_, hs.nodup⟩
        rw [(hs.iff r).mp hm] at hn
        cases hn
      · rw [hl, hr, List.mem_cons, hs.iff]
        simp
  | leave r hl hr =>
      refine ⟨by rw [hl]; exact hs.nodup.erase r, fun q ↦ ?_⟩
      rw [hl, hr, hs.nodup.mem_erase_iff, hs.iff]
      simp

theorem label_loop_ne_tau (t : Tid) (ch : Choice) : s.label (.loop t ch) ≠ .tau := by
  simp only [label]
  split <;> (try split) <;> exact Label.noConfusion

theorem monitorStep_lock (hc : s.toCore.Inv) (h : s.monitorStep cfg c = some s') :
    Core.LockStep s.toCore s'.toCore := by
  unfold monitorStep at h
  cases hp : (s.monitors c).pc with
  | off | done | crashed => simp [hp] at h
  | enter =>
      simp only [hp, Option.map_eq_some_iff, RWLock.lock_eq_some] at h
      obtain ⟨_, ⟨hk, rfl⟩, rfl⟩ := h
      exact .take _ hk rfl
  | unlock =>
      simp only [hp] at h
      cases h
      exact .give _ (hc.locks.monitor c (by rw [Monitor.stage, hp]; rfl)) rfl
  | change ph =>
      cases ph with
      | emit old =>
          simp only [hp] at h
          split at h <;> cases h
          · rename_i he
            have hl := congrArg Core.lock (emit_toCore he)
            exact .same hl
          · exact .same rfl
      | load | store =>
          simp only [hp] at h
          cases h
          exact .same rfl
  | callback =>
      simp only [hp] at h
      cases h
      have hl := congrArg Core.lock (finishCbWrapper_toCore (s := s) (t := (s.monitors c).loop)
        (r := (s.monitors c).rid))
      exact .same hl
  | poll | leave | checkExited | checkState =>
      simp only [hp] at h
      cases h
      exact .same rfl

theorem waiterStep_same (h : s.waiterStep c = some s') :
    s'.lock = s.lock ∧ s'.monitors = s.monitors := by
  unfold waiterStep at h
  cases hp : s.waiters c with
  | off | done | crashed => simp [hp] at h
  | waiting l =>
      simp only [hp] at h
      obtain ⟨-, -, rfl⟩ | ⟨-, rfl⟩ := wait_eq_some h <;> exact ⟨rfl, rfl⟩
  | closeLogs =>
      simp only [hp] at h
      split at h <;> cases h
      have hsame : s.closeStdout.closeStderr.toCore = s.toCore :=
        closeStderr_toCore.trans closeStdout_toCore
      exact ⟨(congrArg Core.lock hsame :), (congrArg Core.monitors hsame :)⟩
  | call | copying | store | closeChan =>
      simp only [hp] at h
      cases h
      exact ⟨rfl, rfl⟩

/-- `run` and the goroutines of a child leave the readers alone. -/
theorem Aside.readStep (h : Aside s s') (hl : s'.lock.readers = s.lock.readers) :
    ReadStep s s' := by
  refine .same hl fun r ↦ ?_
  cases r with
  | caller t =>
      have hc := h.callers t
      simp only [reads]
      generalize s.callers t = pc at hc
      generalize s'.callers t = pc' at hc
      cases hc <;> rfl
  | stopper t => simp only [reads, h.stoppers]

@[simp] theorem kill_lock (b g : Bool) (sent : Option (CmdId × String × Bool)) :
    (s.kill t b g sent).lock = s.lock := by
  cases sent <;> rfl

@[simp] theorem kill_stoppers (b g : Bool) (sent : Option (CmdId × String × Bool)) :
    (s.kill t b g sent).stoppers = s.stoppers := by
  cases sent <;> rfl

/-- SIGCHLD reaches the readers, and moves none. -/
theorem raise_readStep (hl : s₁.lock = s.lock) (hc : s₁.callers = s.callers)
    (hs : s₁.stoppers = s.stoppers) : ReadStep s s₁.raise := by
  refine .same (congrArg RWLock.readers hl) fun r ↦ ?_
  cases r with
  | caller t =>
      simp only [reads, raise, hc]
      cases s.callers t <;> rfl
  | stopper t =>
      simp only [reads, raise, hs]
      cases s.stoppers t <;> rfl

theorem goCaller_reads {pc : CallerPc} (hs : s₁.callers = s.callers)
    (hst : s₁.stoppers = s.stoppers)
    (r : Reader) : (s₁.goCaller t pc).reads r = if r = .caller t then pc.reads else s.reads r := by
  cases r with
  | caller u =>
      simp only [reads, goCaller, Function.update_apply, hs, Reader.caller.injEq]
      split <;> rfl
  | stopper u => simp [reads, goCaller, hst]

theorem goStopper_reads {pc : StopperPc} (hs : s₁.callers = s.callers)
    (hst : s₁.stoppers = s.stoppers) (r : Reader) :
    (s₁.goStopper t pc).reads r = if r = .stopper t then pc.reads else s.reads r := by
  cases r with
  | caller u => simp [reads, goStopper, hs]
  | stopper u =>
      simp only [reads, goStopper, Function.update_apply, hst, Reader.stopper.injEq]
      split <;> rfl

/-! ## The stopping goroutines -/

/-- A call launches its stopping goroutine once. -/
theorem callerStep_early (h : s.callerStep cfg u ch = some s') (he : (s'.callers u).early) :
    (s.callers u).early ∧ s'.stoppers = s.stoppers := by
  unfold callerStep at h
  cases hp : s.callers u with
  | idle | condWait | done | crashed => simp [hp] at h
  | stopChange wait restart ph =>
      refine ⟨rfl, ?_⟩
      cases ph with
      | emit old =>
          simp only [hp] at h
          split at h <;> cases h
          · rename_i hem
            have hst := (emit_same hem).1.stoppers
            exact hst
          · rfl
      | load | store =>
          simp only [hp] at h
          cases h
          rfl
  | stopEnter wait restart | livenessCheck | stopCheck =>
      simp only [hp] at h
      split at h <;> cases h
      all_goals exact ⟨rfl, rfl⟩
  | checking =>
      refine ⟨rfl, ?_⟩
      cases ch <;> simp only [hp] at h <;> cases h <;> rfl
  | signalEnter checked sigs =>
      simp only [hp, Option.map_eq_some_iff] at h
      obtain ⟨k, _, rfl⟩ := h
      repeat' split at he
      all_goals rw [goCaller_callers] at he
      all_goals cases he
  | signalling job =>
      simp only [hp, Option.map_eq_some_iff] at h
      obtain ⟨res, _, rfl⟩ := h
      cases res <;> dsimp only at he <;> rw [goCaller_callers] at he <;> cases he
  | _ =>
      simp only [hp] at h
      repeat' split at h
      all_goals cases h
      all_goals rw [goCaller_callers] at he
      all_goals first
        | cases he
        | (unfold CallerPc.stopReturn at he; split at he <;> cases he)

/-- A call that has not launched its stopping goroutine has none. -/
structure LaunchesOnce (s : Sys) : Prop where
  off : ∀ t, (s.callers t).early → s.stoppers t = .off

theorem LaunchesOnce.step (hs : s.LaunchesOnce) (h : s.step cfg a = some s') :
    s'.LaunchesOnce := by
  refine ⟨fun t he ↦ ?_⟩
  have hearly : (s.callers t).early ∧ ∀ ch, a = .caller t ch → s'.stoppers = s.stoppers := by
    rcases step_callers h t with ⟨op, rfl, hi, -⟩ | ⟨ch, rfl⟩ | ha
    · exact ⟨by rw [hi]; rfl, fun _ hch ↦ by cases hch⟩
    · have hc := callerStep_early h he
      exact ⟨hc.1, fun _ _ ↦ hc.2⟩
    · refine ⟨?_, fun ch hch ↦ ?_⟩
      · generalize s.callers t = pc at ha
        generalize s'.callers t = pc' at ha he
        cases ha with
        | refl => exact he
        | wake | raise => cases he
      · subst hch
        exact (callerStep_early h he).2
  have hoff := hs.off t hearly.1
  by_cases hst : ∃ ch, a = .stopper t ch
  · obtain ⟨ch, rfl⟩ := hst
    simp [step, stopperStep, hoff] at h
  · cases step_stopper_aside h fun ch hch ↦ hst ⟨ch, hch⟩ with
    | same hst => rw [hst, hoff]
    | raise hst => rw [hst, hoff]; rfl
    | launch ch _ _ ha => rw [hearly.2 ch ha, hoff]

/-! ## The steps of the readers -/

theorem callerStep_readStep (hs : s.LaunchesOnce) (h : s.callerStep cfg u ch = some s') :
    ReadStep s s' := by
  -- a call that is no reader, before and after
  have hgo {s₁ : Sys} {pc : CallerPc} (hp : (s.callers u).reads = false) (hpc : pc.reads = false)
      (hl : s₁.lock = s.lock) (hc : s₁.callers = s.callers)
      (hst : ∀ t, (s₁.stoppers t).reads = (s.stoppers t).reads) :
      ReadStep s (s₁.goCaller u pc) := by
    refine .same (congrArg RWLock.readers hl) fun r ↦ ?_
    cases r with
    | caller t =>
        simp only [reads, goCaller, Function.update_apply, hc]
        split
        · rename_i htu
          rw [htu, hp, hpc]
        · rfl
    | stopper t => exact hst t
  unfold callerStep at h
  cases hp : s.callers u with
  | idle | condWait | done | crashed => simp [hp] at h
  | stopLaunch wait restart =>
      simp only [hp] at h
      cases h
      refine hgo (by rw [hp]; rfl) (by cases wait <;> cases restart <;> rfl) rfl rfl fun t ↦ ?_
      simp only [goStopper, Function.update_apply]
      split
      · rename_i htu
        rw [htu, hs.off u (by rw [hp]; rfl)]
        rfl
      · rfl
  | signalEnter checked sigs =>
      simp only [hp, Option.map_eq_some_iff] at h
      obtain ⟨k, hk, rfl⟩ := h
      have hr : (s.callers u).reads = false := by rw [hp]; rfl
      split
      · exact hgo hr rfl rfl rfl fun _ ↦ rfl
      · split
        · exact hgo hr rfl rfl rfl fun _ ↦ rfl
        · refine .enter (.caller u) (RWLock.readers_rlock hk) hr fun q ↦ ?_
          refine (goCaller_reads (s := s) rfl rfl q).trans ?_
          split <;> simp [*, CallerPc.reads]
  | signalling job =>
      simp only [hp, Option.map_eq_some_iff] at h
      obtain ⟨res, hk, rfl⟩ := h
      cases res with
      | more job' sent =>
          refine .same (congrArg RWLock.readers (kill_lock _ _ sent)) fun q ↦ ?_
          refine (goCaller_reads (kill_callers _ _ _) (kill_stoppers _ _ _) q).trans ?_
          split
          · rename_i hq
            rw [hq, reads, hp]
            rfl
          · rfl
      | done | crash =>
          refine .leave (.caller u) (RWLock.readers_runlock _ _) fun q ↦ ?_
          refine (goCaller_reads (s := s) rfl rfl q).trans ?_
          split <;> simp [*, CallerPc.reads]
  | stopChange wait restart ph =>
      have hr : (s.callers u).reads = false := by rw [hp]; rfl
      cases ph with
      | emit old =>
          simp only [hp] at h
          split at h <;> cases h
          · rename_i he
            exact hgo hr rfl (congrArg Core.lock (emit_toCore he)) (emit_same he).2
              fun t ↦ by rw [(emit_same he).1.stoppers]
          · exact hgo hr rfl rfl rfl fun _ ↦ rfl
      | load | store =>
          simp only [hp] at h
          cases h
          exact hgo hr rfl rfl rfl fun _ ↦ rfl
  | checking =>
      have hr : (s.callers u).reads = false := by rw [hp]; rfl
      cases ch <;> simp only [hp] at h <;> cases h
      · exact hgo hr rfl rfl rfl fun _ ↦ rfl
      · refine hgo hr ?_ rfl rfl fun _ ↦ rfl
        repeat' split
        all_goals rfl
      · exact hgo hr rfl rfl rfl fun _ ↦ rfl
  | startEnter | stopEnter | stopCheck | stopWait | cronCheck | livenessCheck | access
  | accessRead =>
      have hr : (s.callers u).reads = false := by rw [hp]; rfl
      simp only [hp] at h
      repeat' split at h
      all_goals cases h
      all_goals refine hgo hr ?_ rfl rfl fun _ ↦ rfl
      all_goals first
        | rfl
        | (unfold CallerPc.stopReturn; split <;> rfl)

theorem stopperStep_readStep (h : s.stopperStep cfg u ch = some s') : ReadStep s s' := by
  have hgo {pc : StopperPc} (hp : (s.stoppers u).reads = false) (hpc : pc.reads = false) :
      ReadStep s (s.goStopper u pc) := by
    refine .same rfl fun q ↦ ?_
    refine (goStopper_reads (s := s) rfl rfl q).trans ?_
    split
    · rename_i hq
      rw [hpc, hq, reads, hp]
    · rfl
  unfold stopperStep at h
  cases hp : s.stoppers u with
  | off | done | crashed => simp [hp] at h
  | check =>
      simp only [hp] at h
      cases h
      exact hgo (by rw [hp]; rfl) (by split <;> rfl)
  | send kill =>
      simp only [hp, Option.map_eq_some_iff] at h
      obtain ⟨k, hk, rfl⟩ := h
      have hr : (s.stoppers u).reads = false := by rw [hp]; rfl
      split
      · exact hgo hr rfl
      · refine .enter (.stopper u) (RWLock.readers_rlock hk) hr fun q ↦ ?_
        refine (goStopper_reads (s := s) rfl rfl q).trans ?_
        split <;> simp [*, StopperPc.reads]
  | killing kill job =>
      simp only [hp, Option.map_eq_some_iff] at h
      obtain ⟨res, hk, rfl⟩ := h
      cases res with
      | more job' sent =>
          refine .same (congrArg RWLock.readers (kill_lock _ _ sent)) fun q ↦ ?_
          refine (goStopper_reads (kill_callers _ _ _) (kill_stoppers _ _ _) q).trans ?_
          split
          · rename_i hq
            rw [hq, reads, hp]
            rfl
          · rfl
      | done =>
          refine .leave (.stopper u) (RWLock.readers_runlock _ _) fun q ↦ ?_
          refine (goStopper_reads (s := s) rfl rfl q).trans ?_
          cases kill <;> split <;> simp [*, StopperPc.reads]
      | crash =>
          refine .leave (.stopper u) (RWLock.readers_runlock _ _) fun q ↦ ?_
          refine (goStopper_reads (s := s) rfl rfl q).trans ?_
          split <;> simp [*, StopperPc.reads]

/-- What a step does to the readers. -/
theorem step_readStep (hc : s.toCore.Inv) (hs : s.LaunchesOnce) (h : s.step cfg a = some s') :
    ReadStep s s' := by
  cases a with
  | call t op =>
      simp only [step] at h
      split at h <;> cases h
      rename_i hi
      refine .same rfl fun q ↦ ?_
      refine (goCaller_reads (s := s) rfl rfl q).trans ?_
      split
      · rename_i hq
        rw [hq, reads, hi]
        cases op <;> rfl
      · rfl
  | caller t ch => exact callerStep_readStep hs h
  | stopper t ch => exact stopperStep_readStep h
  | loop t ch =>
      exact (loopStep_aside h).readStep
        (Core.lockStep_move hc (hc.step_move h) (label_loop_ne_tau t ch)).readers
  | monitor i => exact (monitorStep_aside h).readStep (monitorStep_lock hc h).readers
  | waiter i => exact (waiterStep_aside h).readStep (by rw [(waiterStep_same h).1])
  | closer i => exact (closerStep_aside h).readStep (by rw [closerStep_toCore h])
  | exit i st =>
      simp only [step, exitStep] at h
      split at h <;> cases h
      exact raise_readStep rfl rfl rfl
  | sigchld =>
      cases h
      exact raise_readStep rfl rfl rfl

end Sys

theorem reachable_launchesOnce {cfg : Config} {s : Sys} (h : (machine cfg).Reachable s) :
    s.LaunchesOnce :=
  h.invariant (P := Sys.LaunchesOnce) ⟨fun _ _ ↦ rfl⟩ fun _ _ _ _ hp _ hst ↦ hp.step hst

theorem reachable_reads {cfg : Config} {s : Sys} (h : (machine cfg).Reachable s) : s.Reads := by
  refine h.invariant (P := Sys.Reads) ?_ fun s a s' hr hp _ hst ↦ ?_
  · refine ⟨List.nodup_nil, fun r ↦ ?_⟩
    cases r <;> simp [machine, Sys.reads, CallerPc.reads, StopperPc.reads]
  · exact hp.step (Sys.step_readStep (reachable_inv hr) (reachable_launchesOnce hr) hst)

/-- **The lock is held by those who are in a critical section, and by nobody else.**  No
goroutine leaves its critical section with the lock, and none goes on in it without. -/
theorem lock_owned {cfg : Config} {s : Sys} (h : (machine cfg).Reachable s) :
    (∀ t, s.lock = .held (.loop t) ↔ (s.loops t).stage.holds) ∧
      (∀ i, s.lock = .held (.monitor i) ↔ (s.monitors i).stage.holds) ∧
      ∀ r, r ∈ s.lock.readers ↔ s.reads r := by
  have hc := (reachable_inv h).locks
  have ho := reachable_owned h
  exact ⟨fun t ↦ ⟨ho.loop t, hc.loop t⟩, fun i ↦ ⟨ho.monitor i, hc.monitor i⟩,
    (reachable_reads h).iff⟩

/-- While a child is spawned, `run` holds the lock, and no call is in `signals.Kill`. -/
theorem lock_owned_spawn : ∃ s : Sys, (machine {}).Reachable s ∧
    s.lock = .held (.loop 0) ∧ ∀ r, s.reads r = false := by
  obtain ⟨s, hs, hp⟩ := Machine.exists_reachable (m := machine {})
    (fun s ↦ decide ((s.loops 0).stage = .born)) (startAndRun.take 13) (by decide +kernel)
  obtain ⟨hl, -, hr⟩ := lock_owned hs
  have hlock := (hl 0).mpr (by rw [of_decide_eq_true hp]; rfl)
  refine ⟨s, hs, hlock, fun r ↦ ?_⟩
  rw [← Bool.not_eq_true, ← hr, hlock]
  exact List.not_mem_nil

end Supervisord.Process
