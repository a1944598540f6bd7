import Supervisord.Process.Invariant

/-!
# The verdict on an exit

When its child has exited, `run` loads the state once more and takes the exit for a failed
start unless the state is still `Running` or `Stopping`.  But it only gets there because
`waitForExit` has stored `Stopped`, so the exit of a child that ran is classified as it should
be only where somebody has overwritten that store in between.

The history of this file keeps, for each child, the state it exited in and the state `run` read
afterwards, and judges every state `run` stores while it handles the exit.
-/

namespace Supervisord.Process

/-- The state lets `run` take an exit for the end of a program that was up. -/
def Excuses (st : Option State) : Prop := st = some .running ∨ st = some .stopping

/-- A state `run` stores while it handles the exit of a child. -/
structure Verdict where
  /-- The state stored. -/
  state : State
  /-- The state the child exited in. -/
  was : Option State
  /-- The state `run` loaded to classify the exit. -/
  read : Option State
  /-- A `Stop` was requested since the last `Start`. -/
  stop : Bool
  /-- That `Start` was refused and left an earlier `stopByUser` standing. -/
  ignored : Bool

/-- A child that was running or stopping when it exited is stored as stopped if a stop was
requested, and as exited otherwise. -/
def Verdict.Proper (v : Verdict) : Prop :=
  Excuses v.was → v.state = if v.stop then .stopped else .exited

/-- What has become of the exits. -/
structure Handling where
  stop : Bool := false
  ignored : Bool := false
  was : CmdId → Option State := fun _ ↦ none
  read : CmdId → Option State := fun _ ↦ none
  verdicts : CmdId → List Verdict := fun _ ↦ []

namespace Handling

/-- The verdict `st` on the exit of `i`. -/
def verdict (h : Handling) (i : CmdId) (st : State) : Verdict where
  state := st
  was := h.was i
  read := h.read i
  stop := h.stop
  ignored := h.ignored

def next (h : Handling) (c : Core) : Label → Handling
  | .start _ accepted =>
    { h with stop := false, ignored := !accepted && (h.ignored || h.stop) }
  | .stop _ => { h with stop := true, ignored := false }
  | .exit i => { h with was := Function.update h.was i (some c.state) }
  | .classify t => { h with read := Function.update h.read (c.loops t).att (some c.state) }
  | .stored t k => match k with
    | .exited | .stopped | .exitBackoff | .retryFatal =>
      let i := (c.loops t).att
      { h with verdicts := Function.update h.verdicts i (h.verdicts i ++ [h.verdict i k.target]) }
    | .starting | .createFatal | .spawnFatal | .spawnBackoff | .running => h
  | _ => h

/-- What the history says about the handling of an exit that is under way. -/
structure Inv (c : Core) (h : Handling) : Prop where
  flag : c.stopByUser = (h.stop || h.ignored)
  once : h.stop = true → h.ignored = false
  excused : ∀ t, (c.loops t).stage = .excused → Excuses (h.read (c.loops t).att)
  closing : ∀ t k, (c.loops t).stage = .judged k → k ≠ .exitBackoff →
    Excuses (h.read (c.loops t).att) ∧ k = if c.stopByUser then .stopped else .exited
  failed : ∀ t, (c.loops t).stage = .judged .exitBackoff ∨ (c.loops t).stage = .exhausted →
    ¬Excuses (h.read (c.loops t).att)
  verdict : ∀ i, ∀ v ∈ h.verdicts i,
    (v.state = if v.stop then .stopped else .exited) ↔ Excuses v.read ∧ v.ignored = false

attribute [grind] Excuses Handling.verdict Change.target

variable {cfg : Config} {c c' : Core} {h : Handling} {k : Label}

theorem Inv.flag_move (hh : Inv c h) (hm : Move cfg c k c') :
    c'.stopByUser = ((next h c k).stop || (next h c k).ignored) ∧
      ((next h c k).stop = true → (next h c k).ignored = false) := by
  cases hm with
  | accept => exact ⟨rfl, fun _ ↦ rfl⟩
  | refuse =>
      refine ⟨?_, fun hstop ↦ ?_⟩
      · rw [hh.flag, Bool.or_comm]
        rfl
      · cases hstop
  | stop => exact ⟨rfl, fun _ ↦ rfl⟩
  | _ => exact ⟨hh.flag, hh.once⟩

/-- How a start loop classifies the exit of its child, or goes on with an exit it has
classified. -/
inductive Classifies (c : Core) (k : Label) (c' : Core) (t : Tid) : Prop
  | stay (hk : k = .run t) (hs : (c'.loops t).stage = (c.loops t).stage)
  | excuse (hk : k = .classify t) (hr : c.state = .running ∨ c.state = .stopping)
      (hs : (c'.loops t).stage = .excused)
  | blame (hk : k = .classify t) (hr : ¬(c.state = .running ∨ c.state = .stopping))
      (hs : (c'.loops t).stage = .judged .exitBackoff)
  | verdict (hk : k = .run t) (he : (c.loops t).stage = .excused)
      (hs : (c'.loops t).stage = .judged (if c.stopByUser then .stopped else .exited))
  | exhaust (hk : k = .stored t .exitBackoff) (he : (c.loops t).stage = .judged .exitBackoff)
      (hs : (c'.loops t).stage = .exhausted)

/-- Only the steps that classify an exit lead behind it. -/
theorem classifies (hm : Move cfg c k c') {t : Tid} (hk : k.loop = some t)
    (hs' : (c'.loops t).stage = .excused ∨ (∃ k', (c'.loops t).stage = .judged k') ∨
      (c'.loops t).stage = .exhausted) :
    (c'.loops t).att = (c.loops t).att ∧ c'.stopByUser = c.stopByUser ∧
      Classifies c k c' t := by
  cases hm with
  | loop hs _ ha =>
      cases hk
      simp only [Function.update_self]
      exact ⟨ha.1, trivial, .stay rfl (by simp only [Function.update_self, hs])⟩
  | excuse _ hr hl ha =>
      cases hk
      simp only [Function.update_self]
      exact ⟨ha.1, trivial, .excuse rfl hr (by simp only [Function.update_self, hl])⟩
  | blame _ hr hl ha =>
      cases hk
      simp only [Function.update_self]
      exact ⟨ha.1, trivial, .blame rfl hr (by simp only [Function.update_self, hl])⟩
  | verdict hs hl ha =>
      cases hk
      simp only [Function.update_self]
      exact ⟨ha.1, trivial, .verdict rfl hs (by simp only [Function.update_self, hl])⟩
  | exhaust hs _ hl ha =>
      cases hk
      simp only [Function.update_self]
      exact ⟨ha.1, trivial, .exhaust rfl hs (by simp only [Function.update_self, hl])⟩
  | spawn _ hl =>
      cases hk
      simp only [Function.update_self] at hs'
      rcases hl with ⟨hl, -⟩ | ⟨hl, -⟩ <;> rw [hl] at hs' <;>
        rcases hs' with hs' | ⟨k', hs'⟩ | hs' <;> cases hs'
  | pass _ _ hl | rest _ hl | decide _ hl =>
      cases hk
      simp only [Function.update_self, hl] at hs'
      split_ifs at hs' <;> rcases hs' with hs' | ⟨k', hs'⟩ | hs' <;> cases hs'
  | accept _ _ hl | enter _ _ hl | refused _ _ hl | busy _ hl | clear _ _ hl | quit _ _ hl
  | pause _ hl | resume _ _ hl | starting _ hl | create _ hl | fail _ hl | createFatal _ hl
  | spawnFatal _ hl | retry _ hl | up _ hl | release _ hl | see _ _ hl | tell _ hl
  | relock _ _ hl | closeExited _ hl | closeStopped _ hl | backoff _ _ hl | retryFatal _ hl
  | gaveUp _ hl | leave _ hl | finish _ _ hl =>
      cases hk
      simp only [Function.update_self, hl] at hs'
      rcases hs' with hs' | ⟨k', hs'⟩ | hs' <;> cases hs'
  | _ => cases hk

/-- What `run` has read is kept while no start loop moves. -/
theorem next_read (hk : k.loop = none) : (next h c k).read = h.read := by
  cases k <;> first | rfl | cases hk

theorem Inv.excused_move (hc : c.Inv) (hh : Inv c h) (hm : Move cfg c k c') (t : Tid)
    (ht : (c'.loops t).stage = .excused) : Excuses ((next h c k).read (c'.loops t).att) := by
  rcases hc.turns.own_or_none hm (by rw [ht]; exact nofun) with hk | ⟨hk, hl⟩
  · obtain ⟨ha, -, hcl⟩ := classifies hm hk (.inl ht)
    rw [ha]
    cases hcl with
    | stay hk hs =>
        subst hk
        exact hh.excused t (hs.symm.trans ht)
    | excuse hk hr =>
        subst hk
        simp only [next, Function.update_self]
        exact hr.imp (congrArg some) (congrArg some)
    | blame _ _ hs | verdict _ _ hs | exhaust _ _ hs =>
        rw [hs] at ht
        cases ht
  · rw [hl] at ht ⊢
    rw [next_read hk]
    exact hh.excused t ht

theorem Inv.closing_move (hc : c.Inv) (hh : Inv c h) (hm : Move cfg c k c') (t : Tid)
    (k' : Change) (ht : (c'.loops t).stage = .judged k') (hk : k' ≠ .exitBackoff) :
    Excuses ((next h c k).read (c'.loops t).att) ∧
      k' = if c'.stopByUser then .stopped else .exited := by
  rcases hc.turns.own_or_none hm (by rw [ht]; exact nofun) with hkl | ⟨hkl, hl⟩
  · obtain ⟨ha, hu, hcl⟩ := classifies hm hkl (.inr (.inl ⟨k', ht⟩))
    rw [ha, hu]
    cases hcl with
    | stay hkl hs =>
        subst hkl
        exact hh.closing t k' (hs.symm.trans ht) hk
    | blame _ _ hs =>
        rw [hs, Stage.judged.injEq] at ht
        exact absurd ht.symm hk
    | verdict hkl he hs =>
        subst hkl
        rw [hs, Stage.judged.injEq] at ht
        exact ⟨hh.excused t he, ht.symm⟩
    | excuse _ _ hs | exhaust _ _ hs =>
        rw [hs] at ht
        cases ht
  · rw [hl] at ht ⊢
    cases hm with
    | stop hfree =>
        -- the start loop holds the lock
        rw [hc.locks.loop t (by rw [ht]; rfl)] at hfree
        cases hfree
    | _ => first | exact hh.closing t k' ht hk | cases hkl

theorem Inv.failed_move (hc : c.Inv) (hh : Inv c h) (hm : Move cfg c k c') (t : Tid)
    (ht : (c'.loops t).stage = .judged .exitBackoff ∨ (c'.loops t).stage = .exhausted) :
    ¬Excuses ((next h c k).read (c'.loops t).att) := by
  have hne : (c'.loops t).stage ≠ .idle := by rcases ht with ht | ht <;> rw [ht] <;> exact nofun
  rcases hc.turns.own_or_none hm hne with hk | ⟨hk, hl⟩
  · obtain ⟨ha, -, hcl⟩ := classifies hm hk (.inr (ht.imp_left fun ht ↦ ⟨_, ht⟩))
    rw [ha]
    cases hcl with
    | stay hk hs =>
        subst hk
        rw [hs] at ht
        exact hh.failed t ht
    | blame hk hr =>
        subst hk
        simp only [next, Function.update_self]
        exact fun he ↦ hr (he.imp Option.some.inj Option.some.inj)
    | exhaust hk he =>
        subst hk
        exact hh.failed t (.inl he)
    | excuse _ _ hs =>
        rw [hs] at ht
        rcases ht with ht | ht <;> cases ht
    | verdict _ _ hs =>
        rw [hs] at ht
        split_ifs at ht <;> rcases ht with ht | ht <;> cases ht
  · rw [hl] at ht ⊢
    rw [next_read hk]
    exact hh.failed t ht

theorem Inv.verdict_move (hh : Inv c h) (hm : Move cfg c k c') (i : CmdId) :
    ∀ v ∈ (next h c k).verdicts i,
      (v.state = if v.stop then .stopped else .exited) ↔ Excuses v.read ∧ v.ignored = false := by
  have hv := hh.verdict i
  have hf := hh.flag
  have ho := hh.once
  have hcl := hh.closing
  have hfa := hh.failed
  cases hm with
  | closeExited | closeStopped | backoff | exhaust | retryFatal =>
      simp only [next, Function.update_apply]
      grind -linarith
  | _ => exact hv

theorem Inv.move (hc : c.Inv) (hh : Inv c h) (hm : Move cfg c k c') : Inv c' (next h c k) where
  flag := (hh.flag_move hm).1
  once := (hh.flag_move hm).2
  excused := hh.excused_move hc hm
  closing := hh.closing_move hc hm
  failed := hh.failed_move hc hm
  verdict := hh.verdict_move hm

theorem Inv.init : Inv {} {} where
  flag := rfl
  once := fun h ↦ (nomatch h)
  excused := fun _ h ↦ (nomatch h)
  closing := fun _ _ h ↦ (nomatch h)
  failed := fun _ h ↦ by rcases h with h | h <;> cases h
  verdict := fun _ _ h ↦ (nomatch h)

end Handling

/-- A process whose verdicts are recorded. -/
def handling (cfg : Config) : Machine (Sys × Handling) Act := observed cfg {} Handling.next

/-- **When the verdict on an exit is right.**  A state stored for a child that was running or
stopping when it exited is the right one exactly if `run` still read `Running` or `Stopping`,
and the last `Start` before was not one that left the flag of an earlier `Stop` standing. -/
theorem verdict_proper_iff {cfg : Config} {w : Sys × Handling}
    (hw : (handling cfg).Reachable w) (i : CmdId) (v : Verdict) (hv : v ∈ w.2.verdicts i) :
    v.Proper ↔ (Excuses v.was → Excuses v.read ∧ v.ignored = false) := by
  have hi : Handling.Inv w.1.toCore w.2 :=
    observed_reachable (P := Handling.Inv) .init (fun hc hh hm ↦ hh.move hc hm) hw
  exact imp_congr_right fun _ ↦ hi.verdict i v hv

set_option maxRecDepth 4000 in
/-- The exit of a program that was up is taken for a failed start. -/
theorem verdict_not_proper : ¬∀ (cfg : Config) (w : Sys × Handling),
    (handling cfg).Reachable w → ∀ i, ∀ v ∈ w.2.verdicts i, v.Proper := by
  intro h
  obtain ⟨w, hw, hv⟩ := Machine.exists_reachable (m := handling {})
    (fun w ↦ (w.2.verdicts 0).any fun v ↦ v.state = .backoff ∧ v.was = some .running)
    (List.flatten [startAndRun, [.exit 0 (some 0)], .replicate 4 (.waiter 0),
      .replicate 8 (.loop 0 .ok)]) (by decide +kernel)
  obtain ⟨v, hv, hvs⟩ := List.any_eq_true.mp hv
  obtain ⟨hb, hr⟩ := of_decide_eq_true hvs
  have hp := h {} w hw 0 v hv (.inl hr)
  rw [hb] at hp
  split at hp <;> cases hp

set_option maxRecDepth 4000 in
/-- A child is stopped and exits while `Stop` is still on its way to store `Stopping`: the
store comes behind the `Stopped` of `waitForExit`, and the verdict is the right one. -/
theorem verdict_proper_late_stop : ∃ w : Sys × Handling, (handling {}).Reachable w ∧
    ∃ v ∈ w.2.verdicts 0, Excuses v.was ∧ v.Proper := by
  obtain ⟨w, hw, hv⟩ := Machine.exists_reachable (m := handling {})
    (fun w ↦ (w.2.verdicts 0).any fun v ↦
      v.was = some .running ∧ v.read = some .stopping ∧ v.ignored = false)
    (List.flatten [startAndRun, [.call 1 (.stop false), .caller 1 .ok, .caller 1 .ok,
      .exit 0 (some 0)], .replicate 4 (.waiter 0), [.loop 0 .ok], .replicate 3 (.caller 1 .ok),
      .replicate 8 (.loop 0 .ok)]) (by decide +kernel)
  obtain ⟨v, hv, hvs⟩ := List.any_eq_true.mp hv
  obtain ⟨hwas, hread, hign⟩ := of_decide_eq_true hvs
  exact ⟨w, hw, v, hv, .inl hwas,
    (verdict_proper_iff hw 0 v hv).mpr fun _ ↦ ⟨.inr hread, hign⟩⟩

end Supervisord.Process
