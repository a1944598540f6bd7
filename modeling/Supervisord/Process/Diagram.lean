import Supervisord.Process.Invariant

/-!
# The state diagram

Four goroutines store the state of a process without asking which one it had: `run` under the
lock, the monitor of a child after it has tested for `Starting`, `waitForExit` and `Stop` without
the lock.  Which changes of state there are is therefore not written anywhere in the source.

`State.origins` is the diagram, and `diagram` says that it is exact.  The invariant behind it is
`Core.Agrees`: the state is `Stopping`, or one of those a start loop may find where it stands.
-/

namespace Supervisord.Process

/-- The states in which no attempt is made and no child is expected. -/
def State.resting : List State := [.stopped, .exited, .backoff, .fatal]

/-- The states a state is stored over. -/
def State.origins : State → List State
  | .starting => .stopping :: resting
  | .running => [.starting, .stopped, .stopping]
  | .stopping => [.starting, .running] ++ resting
  | .stopped => [.starting, .running, .stopping]
  | .exited => [.running, .stopping]
  | .backoff => [.starting, .stopped, .stopping]
  | .fatal => [.starting, .backoff, .stopping]
  | .unknown => []

/-- The states a start loop may find at a stage, apart from `Stopping`; `pre` says that
`waitForExit` has not stored `Stopped` yet. -/
def Stage.states (pre : Bool) : Stage → List State
  | .making | .made | .failed _ | .launching => [.starting]
  | .born => [.starting, .running]
  | .watching => if pre then [.starting, .running] else [.running, .stopped]
  | .seen | .settling | .judging => [.running, .stopped]
  | .excused | .judged .exited | .judged .stopped => [.running]
  | .judged _ => [.stopped]
  | .exhausted => [.backoff]
  | .failing => [.fatal]
  | .idle | .entering | .checking | .refusing | .head | .pausing | .paused | .trying | .over
  | .rested | .deciding | .ending => State.resting

namespace Core

variable {cfg : Config} {c c' : Core} {t : Tid} {i : CmdId} {k : Label}

/-- The start loop `t` finds one of these states. -/
def Finds (c : Core) (t : Tid) : Prop :=
  c.state = .stopping ∨ c.state ∈ (c.loops t).stage.states (c.waiters (c.loops t).att).pre

/-- The state is one of those the start loops may find. -/
structure Agrees (c : Core) : Prop where
  known : c.state ≠ .unknown
  rest : c.inStart = false → c.state = .stopping ∨ c.state ∈ State.resting
  active : ∀ t, (c.loops t).stage ≠ .idle → c.Finds t

/-- A start loop goes on with the state it has found. -/
theorem Agrees.goOn (ha : c.Agrees) {l : Loop} {a b : Stage} (hs : (c.loops t).stage = a)
    (hi : a ≠ .idle) (hl : l.stage = b) (hk : l.att = (c.loops t).att)
    (h : ∀ p, a.states p ⊆ b.states p) :
    c.state = .stopping ∨ c.state ∈ l.stage.states (c.waiters l.att).pre := by
  have hf := ha.active t (hs ▸ hi)
  rw [Finds, hs] at hf
  rw [hl, hk]
  exact hf.imp_right fun hf ↦ h _ hf

theorem Agrees.known_move (ha : c.Agrees) (h : Move cfg c k c') : c'.state ≠ .unknown := by
  have hs := ha.known
  cases h <;> first | exact hs | exact State.noConfusion

theorem Agrees.rest_move (ha : c.Agrees) (hc : c.Inv) (h : Move cfg c k c')
    (hi : c'.inStart = false) : c'.state = .stopping ∨ c'.state ∈ State.resting := by
  have hr := ha.rest
  have hact (u : Tid) (hu : (c.loops u).stage ≠ .idle) : c.inStart = true := hc.turns.inStart u hu
  cases h with
  | accept => cases hi
  | finish _ hs =>
      have hf := ha.active _ (by rw [hs]; decide)
      rwa [Finds, hs] at hf
  | stopping => exact .inl rfl
  | monRunning hs =>
      -- the monitor watches the child of an active start loop
      obtain ⟨u, -, hu⟩ := hc.watch.passed _ hs
      rw [hact u (by rcases hu with hu | hu | hu <;> rw [hu] <;> decide)] at hi
      cases hi
  | starting hs | up hs =>
      rw [hact _ (by rw [hs]; decide)] at hi
      cases hi
  | createFatal | spawnFatal | retry | closeExited | closeStopped | backoff | exhaust
  | retryFatal | stopped => exact .inr (by simp [State.resting])
  | _ => exact hr hi

theorem Agrees.own_move (ha : c.Agrees) (hc : c.Inv) (h : Move cfg c k c')
    (hk : k.loop = some t) (ht : (c'.loops t).stage ≠ .idle) : c'.Finds t := by
  unfold Finds
  cases h with
  | accept _ hi hl ha' =>
      cases hk
      simp only [Function.update_self, hl]
      exact ha.rest hi
  | loop hs hi hat =>
      cases hk
      simp only [Function.update_self]
      exact ha.goOn rfl hi hs hat.1 fun p ↦ List.Subset.refl _
  | enter _ hs hl hat | refused hs _ hl hat | clear hs _ hl hat | busy hs hl hat | quit hs _ hl hat
  | pause hs hl hat | resume _ hs hl hat | tell hs hl hat | relock _ hs hl hat | leave hs hl hat
  | gaveUp hs hl hat =>
      cases hk
      simp only [Function.update_self]
      exact ha.goOn hs (by decide) hl hat.1 (by simp [Stage.states, State.resting])
  | pass hs _ hl hat | rest hs hl hat | decide hs hl hat =>
      cases hk
      simp only [Function.update_self]
      refine ha.goOn hs (by decide) hl hat.1 fun p ↦ ?_
      split_ifs <;> exact List.Subset.refl _
  | fail hs hl hat =>
      cases hk
      simp only [Function.update_self]
      rcases hs with hs | ⟨hs, -⟩ <;>
        exact ha.goOn hs (by decide) hl hat.1 fun p ↦ List.Subset.refl _
  | spawn hs hl hat =>
      cases hk
      simp only [Function.update_self]
      rcases hl with ⟨hl, -⟩ | ⟨hl, -⟩ <;>
        exact ha.goOn hs (by decide) hl hat.1 (by simp [Stage.states])
  | create hs hl hat =>
      cases hk
      have hf := ha.active t (by rw [hs]; decide)
      rw [Finds, hs] at hf
      simp only [Function.update_self, hl]
      exact hf
  | release hs hl hat =>
      cases hk
      have hf := ha.active t (by rw [hs]; decide)
      rw [Finds, hs] at hf
      simp only [Function.update_self, hl, hat.1]
      exact hf
  | see hs hg hl hat =>
      -- where `waitForExit` has not stored `Stopped`, the state is a running one
      cases hk
      have hf := ha.active t (by rw [hs]; decide)
      have hup := hc.child.up t
      simp only [Finds, hs] at hf hup
      simp only [Function.update_self, hl, hat.1]
      refine hf.imp_right fun hf ↦ ?_
      cases hw : (c.waiters (c.loops t).att).pre with
      | false => simpa [hw, Stage.states] using hf
      | true =>
          have hr := hup (.inr (.inr (.inr ⟨trivial, hw⟩)))
          rcases hg with hg | hg
          · rw [hg] at hw
            cases hw
          · rw [hr] at hg
            cases hg
  | excuse hs hr hl hat | blame hs hr hl hat =>
      cases hk
      have hf := ha.active t (by rw [hs]; decide)
      rw [Finds, hs] at hf
      simp only [Function.update_self, hl]
      simp only [Stage.states, List.mem_cons, List.not_mem_nil] at hf ⊢
      grind
  | verdict hs hl hat =>
      cases hk
      simp only [Function.update_self]
      refine ha.goOn hs (by decide) hl hat.1 fun p ↦ ?_
      split_ifs <;> exact List.Subset.refl _
  | starting _ hl | createFatal _ hl | spawnFatal _ hl | retry _ hl | up _ hl | closeExited _ hl
  | closeStopped _ hl | backoff _ _ hl | exhaust _ _ hl | retryFatal _ hl =>
      cases hk
      simp [hl, Stage.states, State.resting]
  | finish _ _ hl =>
      cases hk
      simp only [Function.update_self] at ht
      exact absurd hl ht
  | _ => cases hk

theorem pre_update {w : WaiterPc} (h : w.pre = (c.waiters i).pre) (j : CmdId) :
    (Function.update c.waiters i w j).pre = (c.waiters j).pre := by
  rw [Function.update_apply]
  split
  · rename_i hj
    rw [h, hj]
  · rfl

theorem Agrees.other_move (ha : c.Agrees) (hc : c.Inv) (h : Move cfg c k c')
    (hk : k.loop = none) (hl : c'.loops t = c.loops t) (ht : (c.loops t).stage ≠ .idle) :
    c'.Finds t := by
  have hf := ha.active t ht
  unfold Finds at hf ⊢
  rw [hl]
  cases h with
  | stopping => exact .inl rfl
  | monRunning hs =>
      obtain ⟨u, -, hu⟩ := hc.watch.passed _ hs
      have hne : (c.loops u).stage ≠ .idle := by
        rcases hu with hu | hu | hu <;> rw [hu] <;> decide
      obtain rfl := hc.turns.one t u ht hne
      right
      rcases hu with hu | hu | hu <;> simp [hu, Stage.states]
      split <;> simp
  | stopped hs hw =>
      obtain ⟨u, hu, rfl⟩ := hc.child.waiter _ (by rw [hs]; rfl)
      obtain rfl := hc.turns.one t u ht (by rw [hu]; decide)
      simp [hu, hw, Stage.states]
  | wait hs hw =>
      obtain ⟨u, hu, rfl⟩ := hc.child.waiter _ (by rw [hs]; rfl)
      rw [hc.child.cmd u (by rw [hu]; rfl)] at hw
      rwa [pre_update (by rw [hs, hw]; rfl)]
  | reaped hs | returned hs | noChild hs => rwa [pre_update (by rw [hs]; rfl)]
  | waiter hs hw => rwa [pre_update (hw.trans hs.symm)]
  | _ => first | exact hf | cases hk

theorem Agrees.move (ha : c.Agrees) (hc : c.Inv) (h : Move cfg c k c') : c'.Agrees where
  known := ha.known_move h
  rest := ha.rest_move hc h
  active t ht := by
    rcases hc.turns.own_or_none h ht with hk | ⟨hk, hl⟩
    · exact ha.own_move hc h hk ht
    · exact ha.other_move hc h hk hl (hl ▸ ht)

/-- **A change of state follows the diagram.** -/
theorem Agrees.origin (ha : c.Agrees) (hc : c.Inv) (h : Move cfg c k c')
    (hne : c'.state ≠ c.state) : c.state ∈ c'.state.origins := by
  cases h with
  | stopping =>
      have hn := ha.known
      cases hs : c.state <;> simp_all [State.origins, State.resting]
  | monRunning hs =>
      obtain ⟨u, -, hu⟩ := hc.watch.passed _ hs
      have hf := ha.active u (by rcases hu with hu | hu | hu <;> rw [hu] <;> decide)
      unfold Finds at hf
      rcases hu with hu | hu | hu <;>
        simp only [hu, Stage.states, State.origins, List.mem_cons, List.not_mem_nil] at hf ⊢ <;>
        grind
  | stopped hs =>
      obtain ⟨u, hu, rfl⟩ := hc.child.waiter _ (by rw [hs]; rfl)
      have hf := ha.active u (by rw [hu]; decide)
      simp only [Finds, hu, hs, Stage.states, WaiterPc.pre, if_true] at hf
      simp only [State.origins, List.mem_cons, List.not_mem_nil] at hf ⊢
      grind
  | starting hs | up hs | createFatal hs | spawnFatal hs | retry hs | closeExited hs
  | closeStopped hs | backoff hs | exhaust hs | retryFatal hs =>
      have hf := ha.active _ (by rw [hs]; decide)
      simp only [Finds, hs, Stage.states] at hf
      simp only [State.origins, State.resting, List.mem_cons, List.not_mem_nil] at hf ⊢
      grind
  | _ => exact absurd rfl hne

end Core

/-- The agreement holds in every reachable state. -/
theorem reachable_agrees {cfg : Config} {s : Sys} (h : (machine cfg).Reachable s) :
    s.toCore.Agrees := by
  refine h.invariant (P := fun s ↦ s.toCore.Agrees) ?_ fun s a s' hr ha _ hst ↦ ?_
  · exact ⟨State.noConfusion, fun _ ↦ .inr (by simp [machine, State.resting]),
      fun _ h ↦ absurd rfl h⟩
  · have hi := reachable_inv hr
    exact ha.move hi (hi.step_move hst)

/-! ## Every edge is taken -/

namespace Diagram

/-- A start loop, a monitor and `waitForExit` take some steps. -/
def loops (t : Tid) (n : Nat) : List Act := .replicate n (.loop t .ok)

def monitors (c : CmdId) (n : Nat) : List Act := .replicate n (.monitor c)

/-- A child exits, and `waitForExit` stores `Stopped`. -/
def dies (c : CmdId) : List Act := .exit c (some 1) :: .replicate 4 (.waiter c)

/-- `Start` launches a start loop. -/
def starts (t : Tid) : List Act := [.call t (.start false), .caller t .ok]

/-- `Stop` has tested `IsRunning`. -/
def stops : List Act := [.call 1 (.stop false), .caller 1 .ok, .caller 1 .ok]

/-- `Stop` goes through `changeStateTo(Stopping)`. -/
def stores : List Act := .replicate 3 (.caller 1 .ok)

/-- A child is spawned and waited for. -/
def watched : List Act := starts 0 ++ loops 0 12

/-- The start loop sees the exit of a child whose monitor has left, and takes the lock. -/
def relocks (t : Tid) (c : CmdId) : List Act := loops t 2 ++ monitors c 2 ++ loops t 2

/-- The child exits while its monitor is about to store `Running`. -/
def outrun (t : Tid) (c : CmdId) : List Act :=
  monitors c 7 ++ dies c ++ loops t 2 ++ monitors c 2 ++ loops t 2

/-- A `Stop` that has tested `IsRunning` is overtaken by the exit, by the end of the start loop and
by another `Start`. -/
def overtaken : List Act :=
  watched ++ stops ++ dies 0 ++ relocks 0 0 ++ loops 0 8 ++ starts 2

/-- A configuration without retries. -/
def noRetries : Config := { startretries := 0 }

/-- A run that ends with the change of state. -/
def route : State → State → Config × List Act
  | .stopped, .starting => ({}, starts 0 ++ loops 0 6)
  | .exited, .starting => ({}, watched ++ outrun 0 0 ++ loops 0 14)
  | .backoff, .starting => ({}, starts 0 ++ loops 0 10 ++ [.loop 0 .fail] ++ loops 0 7)
  | .fatal, .starting =>
    ({}, starts 0 ++ loops 0 6 ++ [.loop 0 .fail] ++ loops 0 8 ++ starts 1 ++ loops 1 6)
  | .stopping, .starting => ({}, overtaken ++ loops 2 3 ++ stores ++ loops 2 3)
  | .starting, .running => ({}, watched ++ monitors 0 8)
  | .stopped, .running => ({}, watched ++ monitors 0 7 ++ dies 0 ++ monitors 0 1)
  | .stopping, .running => ({}, watched ++ stops ++ monitors 0 7 ++ stores ++ monitors 0 1)
  | .starting, .stopping => ({}, watched ++ stops ++ stores)
  | .running, .stopping => ({}, watched ++ monitors 0 9 ++ stops ++ stores)
  | .stopped, .stopping => ({}, watched ++ stops ++ dies 0 ++ stores)
  | .exited, .stopping => ({}, overtaken ++ loops 2 12 ++ outrun 2 1 ++ loops 2 5 ++ stores)
  | .backoff, .stopping => ({}, watched ++ stops ++ dies 0 ++ relocks 0 0 ++ loops 0 4 ++ stores)
  | .fatal, .stopping =>
    (noRetries, watched ++ stops ++ dies 0 ++ relocks 0 0 ++ loops 0 7 ++ stores)
  | .starting, .stopped => ({}, watched ++ dies 0)
  | .running, .stopped => ({}, watched ++ monitors 0 9 ++ dies 0)
  | .stopping, .stopped => ({}, watched ++ stops ++ stores ++ dies 0)
  | .running, .exited => ({}, watched ++ outrun 0 0 ++ loops 0 5)
  | .stopping, .exited =>
    ({}, overtaken ++ loops 2 12 ++ dies 1 ++ relocks 2 1 ++ stores ++ loops 2 5)
  | .starting, .backoff => ({}, starts 0 ++ loops 0 10 ++ [.loop 0 .fail] ++ loops 0 3)
  | .stopped, .backoff => ({}, watched ++ dies 0 ++ relocks 0 0 ++ loops 0 4)
  | .stopping, .backoff =>
    ({}, watched ++ stops ++ dies 0 ++ relocks 0 0 ++ loops 0 3 ++ stores ++ loops 0 1)
  | .starting, .fatal => ({}, starts 0 ++ loops 0 6 ++ [.loop 0 .fail] ++ loops 0 3)
  | .backoff, .fatal => (noRetries, watched ++ dies 0 ++ relocks 0 0 ++ loops 0 7)
  | .stopping, .fatal =>
    (noRetries, watched ++ stops ++ dies 0 ++ relocks 0 0 ++ loops 0 6 ++ stores ++ loops 0 1)
  | _, _ => ({}, [])

/-- The last step of the run makes the change. -/
def shows (old new : State) : Bool :=
  let r := route old new
  ((machine r.1).exec {} r.2.dropLast).any fun s ↦
    s.state = old && r.2.getLast?.any fun a ↦ (s.step r.1 a).any fun s' ↦ s'.state = new

set_option maxRecDepth 8000 in
theorem shows_of_origin {old new : State} (h : old ∈ new.origins) :
    shows old new = true := by
  have hall : (State.stopping :: State.stopping.origins).all
      (fun new ↦ new.origins.all fun old ↦ shows old new) = true := by
    decide +kernel
  have hnew : new ∈ State.stopping :: State.stopping.origins := by
    cases new with
    | unknown => cases h
    | _ => simp [State.origins, State.resting]
  exact List.all_eq_true.mp (List.all_eq_true.mp hall new hnew) old h

end Diagram

/-- **The state diagram.**  Whatever is called on a process and however its goroutines are
interleaved, the state changes along `State.origins` only, and every one of these changes is made
in some run. -/
theorem diagram {old new : State} (hne : new ≠ old) :
    old ∈ new.origins ↔ ∃ (cfg : Config) (s s' : Sys) (a : Act), (machine cfg).Reachable s ∧
      s.step cfg a = some s' ∧ s.state = old ∧ s'.state = new := by
  constructor
  · intro h
    have hs := Diagram.shows_of_origin h
    obtain ⟨s, hr, hs⟩ := Machine.exists_reachable (m := machine (Diagram.route old new).1) _ _ hs
    obtain ⟨ho, hs⟩ := Bool.and_eq_true_iff.mp hs
    obtain ⟨a, -, hs⟩ := (Option.any_eq_true _ _).mp hs
    obtain ⟨s', hst, hn⟩ := (Option.any_eq_true _ _).mp hs
    exact ⟨_, s, s', a, hr, hst, of_decide_eq_true ho, of_decide_eq_true hn⟩
  · rintro ⟨cfg, s, s', a, hr, hst, rfl, rfl⟩
    have hi := reachable_inv hr
    exact (reachable_agrees hr).origin hi (hi.step_move hst) hne

/-- A `Stop` that has been overtaken by an exit stores `Stopping` over `Exited`. -/
theorem diagram_exited_stopping : ∃ (cfg : Config) (s s' : Sys) (a : Act),
    (machine cfg).Reachable s ∧ s.step cfg a = some s' ∧ s.state = .exited ∧
      s'.state = .stopping :=
  (@diagram .exited .stopping (by decide)).mp (by decide)

end Supervisord.Process
