import Supervisord.Machine.Journal
import Supervisord.Process.Changes

/-!
# The events as a trace of the state

`changeStateTo` announces a change of the state by an event before it makes it.  The events are a
faithful trace of the state as long as nobody changes the state behind its back and no two calls of
it are under way at once.  The second is only ever broken by `Stop`, which calls it without the
lock; the first is broken by every `waitForExit`, which stores `Stopped` over a running state and
emits nothing (`stopped_unannounced`).  `faithful_trace` says that there is no third way.
-/

namespace Supervisord.Process

/-- The change an event announces. -/
def Event.change (e : Event) : State × State := (e.fromState, e.newState)

/-- A process beside the changes of its state, oldest first. -/
def journaled (cfg : Config) : Machine (Sys × List (State × State)) Act :=
  (machine cfg).observe [] fun h s _ s' ↦ h ++ Journal.changes [(s.state, s'.state)]

namespace Sys

/-- The goroutine is in `changeStateTo`, and has loaded the state. -/
def Announcing (s : Sys) (x : Changer) : Prop :=
  ∃ st ph, s.changing x = some (st, ph) ∧ ph ≠ .load

/-- The events announce the changes made to the state, each exactly once and from the state
announced before it, and the one change that is announced and not made yet. -/
def Faithful (s : Sys) (made : List (State × State)) : Prop :=
  ∃ pending, Journal.Faithful .stopped (s.events.map Event.change) made s.state pending ∧
    ∀ st, pending = some st ↔ ∃ x, s.changing x = some (st, .store)

end Sys

/-- `waitForExit` stores nothing, and `changeStateTo` loads the state while no other call of it is
under way. -/
structure Undisturbed (s : Sys) (a : Act) : Prop where
  stopped : ∀ c, s.label a ≠ .stopped c
  load : ∀ x st, a.changer = some x → s.changing x = some (st, .load) → ∀ y, ¬s.Announcing y

variable {cfg : Config} {s s' : Sys} {a : Act} {made : List (State × State)}

/-- One call of `changeStateTo` at a time is under way, and has loaded the state as it is. -/
structure Sys.Journaled (s : Sys) (made : List (State × State)) : Prop where
  one : ∀ x y, s.Announcing x → s.Announcing y → x = y
  loaded : ∀ x st old, s.changing x = some (st, .emit old) → old = s.state
  faithful : s.Faithful made

namespace Sys.Journaled

theorem announcing_of_some {x : Changer} {st : State} {ph : Phase}
    (h : s.changing x = some (st, ph)) (hp : ph ≠ .load) : s.Announcing x := ⟨st, ph, h, hp⟩

/-- Nobody is about to store a state while another call of `changeStateTo` announces one. -/
theorem pending_eq_none (hj : s.Journaled made) {x : Changer} {st old : State}
    (hx : s.changing x = some (st, .emit old)) :
    Journal.Faithful .stopped (s.events.map Event.change) made s.state none := by
  obtain ⟨pending, hf, hp⟩ := hj.faithful
  cases pending with
  | none => exact hf
  | some b =>
      obtain ⟨y, hy⟩ := (hp b).mp rfl
      obtain rfl := hj.one x y (announcing_of_some hx nofun) (announcing_of_some hy nofun)
      rw [hx] at hy
      cases hy

/-- A step that stores no state and emits no event, and takes nobody past the load. -/
theorem keep (hj : s.Journaled made) (hs : s'.state = s.state) (he : s'.events = s.events)
    (hx : ∀ x, s'.Announcing x → s'.changing x = s.changing x)
    (hst : ∀ x st, s.changing x = some (st, .store) → s'.changing x = s.changing x) :
    s'.Journaled made := by
  have hann {x : Changer} (h : s'.Announcing x) : s.Announcing x := by
    have hsame := hx x h
    obtain ⟨st, ph, hc, hp⟩ := h
    exact ⟨st, ph, hsame.symm.trans hc, hp⟩
  refine ⟨fun x y h h' ↦ hj.one x y (hann h) (hann h'), fun x st old h ↦ ?_, ?_⟩
  · rw [hs]
    exact hj.loaded x st old ((hx x (announcing_of_some h nofun)).symm.trans h)
  · obtain ⟨pending, hf, hp⟩ := hj.faithful
    refine ⟨pending, by rw [hs, he]; exact hf, fun st ↦ (hp st).trans ?_⟩
    refine exists_congr fun x ↦ ⟨fun h ↦ (hst x st h).trans h, fun h ↦ ?_⟩
    exact (hx x (announcing_of_some h nofun)).symm.trans h

/-- Only one call of `changeStateTo` is under way. -/
theorem of_only (x : Changer) (pending : Option State) (ho : ∀ y, s.Announcing y → y = x)
    (hl : ∀ st old, s.changing x = some (st, .emit old) → old = s.state)
    (hf : Journal.Faithful .stopped (s.events.map Event.change) made s.state pending)
    (hp : ∀ st, pending = some st ↔ s.changing x = some (st, .store)) : s.Journaled made := by
  refine ⟨fun y z hy hz ↦ (ho y hy).trans (ho z hz).symm, fun y st old h ↦ ?_, pending, hf, ?_⟩
  · obtain rfl := ho y (announcing_of_some h nofun)
    exact hl st old h
  · intro st
    refine (hp st).trans ⟨fun h ↦ ⟨x, h⟩, ?_⟩
    rintro ⟨y, h⟩
    obtain rfl := ho y (announcing_of_some h nofun)
    exact h

theorem changes_of_eq (h : s'.state = s.state) :
    made ++ Journal.changes [(s.state, s'.state)] = made := by
  rw [h, Journal.changes_self, List.append_nil]

theorem step (hp : cfg.isProgram = true) (hc : s.toCore.Inv) (hj : s.Journaled made)
    (hu : Undisturbed s a) (hst : s.step cfg a = some s') :
    s'.Journaled (made ++ Journal.changes [(s.state, s'.state)]) := by
  cases ha : a.changer with
  | none =>
      have hb := Sys.step_bystands hst ha
      have hs : s'.state = s.state := hb.state.resolve_right fun h ↦
        h.elim fun c hl ↦ hu.stopped c hl.1
      have hx (x : Changer) : s'.changing x = s.changing x :=
        Sys.step_changing_of_ne hc hst (by rw [ha]; exact nofun)
      rw [changes_of_eq hs]
      exact hj.keep hs hb.events (fun x _ ↦ hx x) fun x _ _ ↦ hx x
  | some x =>
      have hne {y : Changer} (hy : y ≠ x) : s'.changing y = s.changing y :=
        Sys.step_changing_of_ne hc hst (by rw [ha]; exact fun h ↦ hy (Option.some.inj h).symm)
      have hother {y : Changer} (hy : y ≠ x) (h : s'.Announcing y) : s.Announcing y := by
        obtain ⟨st, ph, hy', hph⟩ := h
        exact ⟨st, ph, (hne hy).symm.trans hy', hph⟩
      -- where `x` itself is past the load, nobody else is, before the step and after it
      have honly {st : State} {ph : Phase} (hx : s.changing x = some (st, ph)) (hph : ph ≠ .load)
          (y : Changer) (hy : s'.Announcing y) : y = x := by
        by_contra hyx
        exact hyx (hj.one y x (hother hyx hy) (announcing_of_some hx hph))
      cases Sys.step_changing hst ha with
      | outside hn hs he hx hm =>
          rw [changes_of_eq hs]
          refine hj.keep hs he (fun y hy ↦ hne ?_) fun y st hy ↦ hne ?_
          · rintro rfl
            obtain ⟨st, ph, hc, hph⟩ := hy
            exact hph (hx st ph hc)
          · rintro rfl
            rw [hn] at hy
            cases hy
      | @load st hl hs he hx =>
          have hnone := hu.load x st ha hl
          rw [changes_of_eq hs]
          refine of_only x none (fun y hy ↦ ?_) (fun st' old h ↦ ?_) ?_
            fun st' ↦ ?_
          · by_contra hyx
            exact hnone y (hother hyx hy)
          · rw [hx] at h
            cases h
            exact hs.symm
          · obtain ⟨pending, hf, hp⟩ := hj.faithful
            cases pending with
            | none =>
                rw [hs, he]
                exact hf
            | some b =>
                obtain ⟨y, hy⟩ := (hp b).mp rfl
                exact absurd (announcing_of_some hy nofun) (hnone y)
          · rw [hx]
            exact ⟨nofun, nofun⟩
      | @emit st old hl hs he hx =>
          rw [changes_of_eq hs]
          obtain ⟨e, rfl, hfrom, he⟩ := he hp
          refine of_only x (some e.newState) (honly hl nofun) (fun st' old h ↦ ?_)
            ?_ fun st' ↦ ?_
          · rw [hx] at h
            cases h
          · have hchange : Event.change e = (s.state, e.newState) := by
              rw [Event.change, hfrom, hj.loaded x _ old hl]
            rw [he, List.map_append, List.map_singleton, hchange, hs]
            exact (hj.pending_eq_none hl).announce e.newState
          · rw [hx]
            simp
      | @crash st old hl hs he hx =>
          rw [changes_of_eq hs]
          refine of_only x none (honly hl nofun) (fun st' old h ↦ ?_) ?_
            fun st' ↦ ?_
          · rw [hx] at h
            cases h
          · rw [hs, he]
            exact hj.pending_eq_none hl
          · rw [hx]
            exact ⟨nofun, nofun⟩
      | @store st hl hs he hx =>
          have hnot (st' : State) (ph : Phase) (hph : ph ≠ .load) :
              s'.changing x ≠ some (st', ph) := fun h ↦ hph (hx st' ph h)
          refine of_only x none (honly hl nofun)
            (fun st' old h ↦ absurd h (hnot _ _ nofun)) ?_
            fun st' ↦ ⟨nofun, fun h ↦ absurd h (hnot _ _ nofun)⟩
          obtain ⟨pending, hf, hp⟩ := hj.faithful
          obtain rfl : pending = some st := (hp st).mpr ⟨x, hl⟩
          rw [hs, he]
          exact hf.write

theorem init : ({} : Sys).Journaled [] where
  one x _ h := by
    obtain ⟨st, ph, h, -⟩ := h
    cases x <;> cases h
  loaded x _ _ h := by cases x <;> cases h
  faithful := by
    refine ⟨none, .init, fun st ↦ ⟨nofun, ?_⟩⟩
    rintro ⟨x, h⟩
    cases x <;> cases h

end Sys.Journaled

/-- **The events are a faithful trace of the state** of a program, in every run in which
`waitForExit` stores nothing and `changeStateTo` loads the state while no other call of it is under
way. -/
theorem faithful_trace (hp : cfg.isProgram = true) {w : Sys × List (State × State)}
    (hw : (journaled cfg).Reach (fun w ↦ Undisturbed w.1) w) : w.1.Faithful w.2 := by
  have hj : w.1.Journaled w.2 := by
    refine hw.invariant (P := fun w ↦ w.1.Journaled w.2) .init ?_
    intro v a v' hv hj hu hst
    obtain ⟨s', hs', rfl⟩ := Machine.observe_step_eq_some.mp hst
    exact hj.step hp (reachable_inv hv.fst) hu hs'
  exact hj.faithful

theorem Act.changer_of_stopped {c : CmdId} (h : s.label a = .stopped c) : a.changer = none := by
  cases a with
  | loop | caller | monitor =>
      simp only [Sys.label] at h
      split at h <;> (try split at h) <;> cases h
  | call | stopper | waiter | closer | exit | sigchld => rfl

/-- `waitForExit` always stores `Stopped` over a running state, and no event announces it. -/
theorem stopped_unannounced (hs : (machine cfg).Reachable s) (hst : s.step cfg a = some s')
    {c : CmdId} (ha : s.label a = .stopped c) :
    s.state.isRunning = true ∧ s'.state = .stopped ∧ s'.events = s.events := by
  have hc := reachable_inv hs
  have hm := hc.step_move hst
  rw [ha] at hm
  have hwait : s.waiters c = .store ∧ s'.state = .stopped := by
    generalize s'.toCore = c' at hm
    cases hm with
    | stopped hw => exact ⟨hw, rfl⟩
  obtain ⟨t, ht, rfl⟩ := hc.child.waiter c (by rw [hwait.1]; rfl)
  refine ⟨hc.child.up t ?_, hwait.2, (Sys.step_bystands hst (Act.changer_of_stopped ha)).events⟩
  exact .inr (.inr (.inr ⟨ht, by rw [hwait.1]; rfl⟩))

/-! ## Disturbances -/

/-- `run` and the monitors call `changeStateTo` under the lock. -/
def Changer.locks : Changer → Option Holder
  | .loop t => some (.loop t)
  | .monitor c => some (.monitor c)
  | .caller _ => none

theorem Sys.holder_of_changing (hc : s.toCore.Inv) {x : Changer} {o : Holder}
    (ho : x.locks = some o) (hx : s.changing x ≠ none) : s.lock = .held o := by
  cases x with
  | loop t =>
      cases ho
      refine hc.locks.loop t ?_
      rw [Loop.stage]
      cases hp : (s.loops t).pc with
      | change k ph => cases k <;> rfl
      | _ => simp [changing, hp] at hx
  | monitor c =>
      cases ho
      refine hc.locks.monitor c ?_
      rw [passed_of_changing hx]
      rfl
  | caller t => cases ho

/-- Where no `Stop` is in `changeStateTo`, one goroutine is at most. -/
theorem Sys.changing_unique (hc : s.toCore.Inv) (hn : ∀ t, s.changing (.caller t) = none)
    {x y : Changer} (hx : s.changing x ≠ none) (hy : s.changing y ≠ none) : x = y := by
  have hlock {z : Changer} (hz : s.changing z ≠ none) :
      ∃ o, z.locks = some o ∧ s.lock = .held o := by
    cases z with
    | caller t => exact absurd (hn t) hz
    | loop t => exact ⟨_, rfl, holder_of_changing hc rfl hz⟩
    | monitor c => exact ⟨_, rfl, holder_of_changing hc rfl hz⟩
  obtain ⟨o, hxo, ho⟩ := hlock hx
  obtain ⟨o', hyo, ho'⟩ := hlock hy
  rw [ho] at ho'
  cases ho'
  cases x <;> cases y <;> cases hxo <;> cases hyo <;> rfl

/-- Where no `Stop` is in `changeStateTo`, no call of it is disturbed. -/
theorem undisturbed_of_callers (hc : s.toCore.Inv) (hn : ∀ t, s.changing (.caller t) = none)
    (ha : ∀ c, s.label a ≠ .stopped c) : Undisturbed s a := by
  refine ⟨ha, fun x st _ hx y hy ↦ ?_⟩
  obtain ⟨st', ph, hy, hph⟩ := hy
  obtain rfl := s.changing_unique hc hn (x := x) (y := y) (by rw [hx]; exact nofun)
    (by rw [hy]; exact nofun)
  rw [hx] at hy
  cases hy
  exact hph rfl

/-- A call is made where all calls made before have returned. -/
def Apart (s : Sys) (a : Act) : Prop :=
  ∀ t op, a = .call t op → ∀ u, s.callers u = .idle ∨ s.callers u = .done

theorem journaled_inv {ok : Sys × List (State × State) → Act → Prop}
    {w : Sys × List (State × State)} (hw : (journaled cfg).Reach ok w) : w.1.toCore.Inv :=
  reachable_inv hw.fst

set_option maxRecDepth 4000 in
/-- A program is started and comes up: two changes, two events. -/
theorem faithful_trace_up : ∃ w : Sys × List (State × State),
    (journaled {}).Reach (fun w ↦ Undisturbed w.1) w ∧
      w.2 = [(.stopped, .starting), (.starting, .running)] ∧ w.1.Faithful w.2 := by
  obtain ⟨w, hw, hp⟩ : ∃ w, (journaled {}).Reach
      (fun w a ↦ Undisturbed w.1 a ∧ CallsBelow 1 a) w ∧ _ := Machine.exists_reach
    (fun w a ↦ CallsBelow 1 a && (w.1.callers 0).changing.isNone &&
      match w.1.label a with
      | .stopped _ => false
      | _ => true)
    (fun w ↦ w.2 = [(.stopped, .starting), (.starting, .running)]) startAndRun
    (fun w a hw hp ↦ by
      simp only [Bool.and_eq_true] at hp
      obtain ⟨⟨hb, h₀⟩, hl⟩ := hp
      refine ⟨undisturbed_of_callers (journaled_inv hw) (fun t ↦ ?_) (fun c hc ↦ ?_), hb⟩
      · cases t with
        | zero => exact Option.isNone_iff_eq_none.mp h₀
        | succ t =>
            have hr : (machine {}).Reach (fun _ a ↦ CallsBelow 1 a) w.1 :=
              Machine.Reach.fst_of (fun _ _ h ↦ h.2) (show (journaled {}).Reach
                (fun w a ↦ Undisturbed w.1 a ∧ CallsBelow 1 a) w from hw)
            rw [Sys.changing, callers_idle hr (fun _ _ h ↦ h) (Nat.le_add_left 1 t)]
            rfl
      · rw [hc] at hl
        cases hl)
    (by decide +kernel)
  have hw := hw.mono fun _ _ h ↦ h.1
  exact ⟨w, hw, of_decide_eq_true hp, faithful_trace rfl hw⟩

/-- The first caller has nothing to do when something is called. -/
def Sys.freshCall (s : Sys) : Act → Bool
  | .call _ _ => s.callers 0 = .idle
  | _ => true

set_option maxRecDepth 4000 in
/-- A program is started, comes up and exits, and nobody calls anything else. -/
theorem not_faithful : ¬∀ (cfg : Config) (w : Sys × List (State × State)),
    cfg.isProgram = true → (journaled cfg).Reach (fun w ↦ Apart w.1) w → w.1.Faithful w.2 := by
  intro h
  obtain ⟨w, hw, hp⟩ : ∃ w, (journaled {}).Reach
      (fun w a ↦ Apart w.1 a ∧ CallsBelow 1 a) w ∧ _ := Machine.exists_reach
    (fun w a ↦ CallsBelow 1 a && w.1.freshCall a)
    (fun w ↦ w.2.length = 3 ∧ w.1.events.length = 2)
    (List.flatten [startAndRun, [.exit 0 (some 0)], .replicate 4 (.waiter 0)])
    (fun w a hw hp ↦ by
      obtain ⟨hb, hl⟩ := Bool.and_eq_true_iff.mp hp
      refine ⟨fun t op ha u ↦ .inl ?_, hb⟩
      rw [ha] at hl
      cases u with
      | zero => exact of_decide_eq_true hl
      | succ u =>
          have hr : (machine {}).Reach (fun _ a ↦ CallsBelow 1 a) w.1 :=
            Machine.Reach.fst_of (fun _ _ h ↦ h.2) (show (journaled {}).Reach
              (fun w a ↦ Apart w.1 a ∧ CallsBelow 1 a) w from hw)
          exact callers_idle hr (fun _ _ h ↦ h) (Nat.le_add_left 1 u))
    (by decide +kernel)
  obtain ⟨hlen, hev⟩ := of_decide_eq_true hp
  obtain ⟨pending, hf, -⟩ := h {} w rfl (hw.mono fun _ _ h ↦ h.1)
  -- three changes cannot be announced by two events
  obtain ⟨done, hlog, hmade, -⟩ := hf.exact
  have hle : w.2.length ≤ done.length := by
    rw [hmade]
    exact List.length_filter_le _ _
  have hlog := congrArg List.length hlog
  rw [List.length_map, List.length_append] at hlog
  omega

end Supervisord.Process
