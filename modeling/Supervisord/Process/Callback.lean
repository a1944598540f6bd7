import Supervisord.Process.Frame

/-!
# The finish callback

`Start(true)` waits on a condition variable that only the callback it gives to `run` signals.
`run` calls it itself where it refuses or gives up, and leaves it to a goroutine of its own
where a child has come up; the wrapper sees to it that this happens once.  One way out of `run`
has neither: the retry loop is left because `stopByUser` is set, and no child has been spawned
before.  `callback_once_iff` says that this is the only one.
-/

namespace Supervisord.Process

/-- The stages inside of `run`. -/
def Stage.inRun : Stage → Bool
  | .checking | .refusing | .head | .pausing | .paused | .trying | .making | .made | .failed _
  | .launching | .born | .watching | .seen | .settling | .judging | .excused | .judged _
  | .exhausted | .failing | .over => true
  | .idle | .entering | .rested | .deciding | .ending => false

/-- The goroutine of the monitor is still to call the finish callback. -/
def MonitorStage.pending : MonitorStage → Bool
  | .early | .checking | .passed | .ending | .calling => true
  | .off | .done => false

attribute [grind] Stage.inRun MonitorStage.pending Callback.call Callback.once

@[grind →] theorem Stage.ne_idle_of_inRun {s : Stage} (h : s.inRun) : s ≠ .idle := by
  rintro rfl
  cases h

@[grind →] theorem MonitorStage.ne_off_of_pending {s : MonitorStage} (h : s.pending) :
    s ≠ .off := by
  rintro rfl
  cases h

/-- `run` is entered in one place. -/
theorem Move.inRun {cfg : Config} {c c' : Core} {k : Label} {t : Tid} (hm : Move cfg c k c')
    (ht : (c'.loops t).stage.inRun) : (c.loops t).stage.inRun ∨ k = .enter t := by
  by_cases hk : k.loop = some t
  · cases hm with
    | enter =>
        cases hk
        exact .inr rfl
    | loop hs =>
        cases hk
        simp only [Function.update_self, hs] at ht
        exact .inl ht
    | accept hfree hi hl | leave hs hl | finish hfree hs hl =>
        cases hk
        simp only [Function.update_self, hl] at ht
        cases ht
    | rest hs hl | decide hs hl =>
        cases hk
        simp only [Function.update_self, hl] at ht
        revert ht
        split <;> exact nofun
    | fail hs =>
        cases hk
        rcases hs with hs | ⟨hs, -⟩
        · exact .inl (by rw [hs]; rfl)
        · exact .inl (by rw [hs]; rfl)
    | refused hs | busy hs | clear hs | quit hs | pass hs | pause hs | resume _ hs | starting hs
    | create hs | createFatal hs | spawnFatal hs | retry hs | spawn hs | up hs | release hs | see hs
    | tell hs | relock _ hs | excuse hs | blame hs | verdict hs | closeExited hs | closeStopped hs
    | backoff hs | exhaust hs | retryFatal hs | gaveUp hs =>
        cases hk
        exact .inl (by rw [hs]; rfl)
    | _ => cases hk
  · rw [hm.loops_eq hk] at ht
    exact .inl ht

/-- An invocation keeps its number. -/
theorem Move.rid_eq {cfg : Config} {c c' : Core} {k : Label} {t : Tid} (hm : Move cfg c k c')
    (he : k ≠ .enter t) (ht : (c'.loops t).stage.inRun) :
    (c'.loops t).rid = (c.loops t).rid := by
  by_cases hk : k.loop = some t
  · cases hm with
    | enter =>
        cases hk
        exact absurd rfl he
    | finish hfree hs hl =>
        cases hk
        simp only [Function.update_self, hl] at ht
        cases ht
    | create hs hl ha =>
        cases hk
        simp only [Function.update_self, ha]
    | _ =>
        cases hk
        all_goals
          simp only [Function.update_self]
          exact (‹Loop.Keeps _ _› : Loop.Keeps _ _).2
  · rw [hm.loops_eq hk]

/-- The invocations of `run`. -/
structure Invocations where
  /-- The start loop of the invocation. -/
  owner : Nat → Tid := fun _ ↦ 0
  /-- A child has been spawned. -/
  bore : Nat → Bool := fun _ ↦ false
  /-- The retry loop was left because of `stopByUser`, with no child spawned before. -/
  silent : Nat → Bool := fun _ ↦ false

def Invocations.next (h : Invocations) (c : Core) : Label → Invocations
  | .enter t => { h with owner := Function.update h.owner c.nextRun t }
  | .spawned t => { h with bore := Function.update h.bore (c.loops t).rid true }
  | .test t => { h with
      silent := Function.update h.silent (c.loops t).rid
        (h.silent (c.loops t).rid || c.stopByUser && !h.bore (c.loops t).rid) }
  | _ => h

/-- A process whose invocations of `run` are recorded. -/
def invocations (cfg : Config) : Machine (Sys × Invocations) Act := observed cfg {} Invocations.next

namespace Invocations

/-- Who is to call the callback of which invocation, and who has. -/
structure Inv (c : Core) (h : Invocations) : Prop where
  fresh : ∀ r, c.nextRun ≤ r → c.callbacks r = {} ∧ h.bore r = false ∧ h.silent r = false
  loop : ∀ t, (c.loops t).stage.inRun →
    (c.loops t).rid < c.nextRun ∧ h.owner (c.loops t).rid = t
  monitor : ∀ i, (c.monitors i).stage.pending →
    h.bore (c.monitors i).rid = true ∧ h.owner (c.monitors i).rid = (c.monitors i).loop
  launching : ∀ t, (c.loops t).stage = .launching →
    (c.monitors (c.loops t).att).loop = t ∧
      (c.monitors (c.loops t).att).rid = (c.loops t).rid ∧
      (c.monitors (c.loops t).att).stage = .off
  child : ∀ t, (c.loops t).stage.hasChild → h.bore (c.loops t).rid = true
  none : ∀ t, (c.loops t).stage = .checking ∨ (c.loops t).stage = .refusing →
    h.bore (c.loops t).rid = false
  /-- An invocation that has not come to its end. -/
  inside : ∀ t, (c.loops t).stage.inRun → (c.loops t).stage ≠ .over →
    h.silent (c.loops t).rid = false ∧
      (h.bore (c.loops t).rid = false → c.callbacks (c.loops t).rid = {})
  fired : ∀ r, (c.callbacks r).fired = true → (c.callbacks r).calls = 1
  bore : ∀ r, h.bore r = true → (c.callbacks r).fired = true ∨ (c.callbacks r).calls = 0 ∧
    ((∃ i, (c.monitors i).stage.pending ∧ (c.monitors i).rid = r) ∨
      ∃ t, (c.loops t).stage = .launching ∧ (c.loops t).rid = r)
  silent : ∀ r, h.silent r = true → h.bore r = false ∧ c.callbacks r = {} ∧
    ∀ t, (c.loops t).stage.inRun → (c.loops t).rid = r → (c.loops t).stage = .over
  /-- An invocation that has come to its end. -/
  ended : ∀ r, r < c.nextRun → h.silent r = false →
    (∀ t, (c.loops t).stage.inRun → (c.loops t).rid = r → (c.loops t).stage = .over) →
      (c.callbacks r).calls = 1 ∨ h.bore r = true

variable {cfg : Config} {c c' : Core} {h : Invocations} {k : Label}

/-- Only what start loops do is recorded. -/
theorem next_of_none (hk : k.loop = .none) : h.next c k = h := by
  cases k <;> first | rfl | cases hk

theorem Inv.fresh_move (hh : Inv c h) (hm : Move cfg c k c') (r : Nat)
    (hr : c'.nextRun ≤ r) :
    c'.callbacks r = {} ∧ (h.next c k).bore r = false ∧ (h.next c k).silent r = false := by
  have hf := hh.fresh r
  have hl := hh.loop
  have hb := hh.monitor
  have hbf := fun r ↦ (hh.fresh r)
  cases hm with
  | enter | quit | pass | busy | gaveUp | spawn | answer =>
      revert hr
      simp only [next, Function.update_apply]
      grind -linarith
  | _ => exact hf hr

theorem nextRun_le (hm : Move cfg c k c') : c.nextRun ≤ c'.nextRun := by
  cases hm <;> first | exact Nat.le_refl _ | exact Nat.le_succ _

theorem next_owner {r : Nat} (hr : r < c.nextRun) : (h.next c k).owner r = h.owner r := by
  cases k with
  | enter t => exact Function.update_of_ne (Nat.ne_of_lt hr) _ _
  | _ => rfl

theorem Inv.loop_move (hh : Inv c h) (hm : Move cfg c k c') (t : Tid)
    (ht : (c'.loops t).stage.inRun) :
    (c'.loops t).rid < c'.nextRun ∧ (h.next c k).owner (c'.loops t).rid = t := by
  by_cases he : k = .enter t
  · subst he
    cases hm with
    | enter hfree hs hl ha =>
        simp only [next, Function.update_self, ha]
        exact ⟨Nat.lt_succ_self _, trivial⟩
  · obtain ⟨hlt, hown⟩ := hh.loop t ((hm.inRun ht).resolve_right he)
    rw [hm.rid_eq he ht]
    exact ⟨Nat.lt_of_lt_of_le hlt (nextRun_le hm), (next_owner hlt).trans hown⟩

theorem bore_next {r : Nat} (hb : h.bore r = true) : (h.next c k).bore r = true := by
  cases k with
  | spawned t =>
      simp only [next, Function.update_apply, hb, ite_self]
  | _ => exact hb

theorem Inv.lt_of_bore (hh : Inv c h) {r : Nat} (hb : h.bore r = true) : r < c.nextRun := by
  by_contra hr
  rw [(hh.fresh r (Nat.not_lt.mp hr)).2.1] at hb
  cases hb

/-- A monitor that is to call was to do so before, or it belongs to the child of the start loop. -/
theorem pending_cases (hm : Move cfg c k c') {i : CmdId} (ht : (c'.monitors i).stage.pending) :
    (c.monitors i).stage.pending ∧ (c'.monitors i).rid = (c.monitors i).rid ∧
        (c'.monitors i).loop = (c.monitors i).loop ∨
      (∃ t, k = .spawned t ∧ (c.loops t).stage.inRun ∧ (c'.monitors i).rid = (c.loops t).rid ∧
        (c'.monitors i).loop = t) ∨
      ∃ t, (c.loops t).stage = .launching ∧ (c.loops t).att = i ∧
        (c'.monitors i).rid = (c.monitors i).rid ∧ (c'.monitors i).loop = (c.monitors i).loop := by
  cases hm with
  | @spawn t _ _ hs _ _ hw =>
      by_cases hi : i = (c.loops t).att
      · subst hi
        simp only [Function.update_self]
        exact .inr (.inl ⟨t, rfl, by rw [hs]; rfl, hw.2, hw.1⟩)
      · simp only [Function.update_of_ne hi] at ht ⊢
        exact .inl ⟨ht, trivial, trivial⟩
  | @up t _ _ hs _ _ _ hw =>
      by_cases hi : i = (c.loops t).att
      · subst hi
        simp only [Function.update_self]
        exact .inr (.inr ⟨t, hs, rfl, hw.2.2, hw.2.1⟩)
      · simp only [Function.update_of_ne hi] at ht ⊢
        exact .inl ⟨ht, trivial, trivial⟩
  | tell | monitor | monEnter | monPass | monDrop | monRunning | monLeave | answer =>
      refine .inl ?_
      simp only [Function.update_apply] at ht ⊢
      grind -linarith
  | _ => exact .inl ⟨ht, rfl, rfl⟩

theorem Inv.monitor_move (hh : Inv c h) (hm : Move cfg c k c') (i : CmdId)
    (ht : (c'.monitors i).stage.pending) :
    (h.next c k).bore (c'.monitors i).rid = true ∧
      (h.next c k).owner (c'.monitors i).rid = (c'.monitors i).loop := by
  rcases pending_cases hm ht with ⟨hp, hr, hl⟩ | ⟨t, rfl, hin, hr, hl⟩ | ⟨t, hs, rfl, hr, hl⟩
  · obtain ⟨hb, ho⟩ := hh.monitor i hp
    rw [hr, hl]
    exact ⟨bore_next hb, (next_owner (hh.lt_of_bore hb)).trans ho⟩
  · obtain ⟨hlt, ho⟩ := hh.loop t hin
    rw [hr, hl]
    exact ⟨Function.update_self _ _ _, (next_owner hlt).trans ho⟩
  · obtain ⟨hl', hr', -⟩ := hh.launching t hs
    obtain ⟨hlt, ho⟩ := hh.loop t (by rw [hs]; rfl)
    rw [hr, hl, hr', hl']
    exact ⟨bore_next (hh.child t (by rw [hs]; rfl)), (next_owner hlt).trans ho⟩

theorem Inv.launching_move (hh : Inv c h) (hc : c.Inv) (hm : Move cfg c k c') (t : Tid)
    (ht : (c'.loops t).stage = .launching) :
    (c'.monitors (c'.loops t).att).loop = t ∧
      (c'.monitors (c'.loops t).att).rid = (c'.loops t).rid ∧
      (c'.monitors (c'.loops t).att).stage = .off := by
  have hl := hh.launching t
  rcases hc.turns.own_or_none hm (by rw [ht]; exact nofun) with hk | ⟨hk, he⟩
  · cases hm with
    | spawn hs hs' ha hw =>
        cases hk
        simp only [Function.update_self] at ht
        simp only [Function.update_self, ha.1, ha.2]
        rcases hs' with ⟨hs', -⟩ | ⟨-, hoff⟩
        · rw [hs'] at ht
          cases ht
        · exact ⟨hw.1, hw.2, hoff⟩
    | loop hs _ ha =>
        cases hk
        simp only [Function.update_self, hs] at ht
        simp only [Function.update_self, ha.1, ha.2]
        exact hl ht
    | _ =>
        -- no other step leads there
        cases hk
        all_goals
          simp only [Function.update_self] at ht
          clear hl hh hc
          grind -linarith
  · rw [he] at ht ⊢
    cases hm with
    | monitor | monEnter | monPass | monDrop | monRunning | monLeave | answer =>
        -- the monitor of another child
        simp only [Function.update_apply]
        grind -linarith
    | _ => first | exact hl ht | cases hk

theorem Inv.child_move (hh : Inv c h) (hc : c.Inv) (hm : Move cfg c k c') (t : Tid)
    (ht : (c'.loops t).stage.hasChild) : (h.next c k).bore (c'.loops t).rid = true := by
  have hl := hh.child t
  have hne := Stage.ne_idle_of_hasCmd (Stage.hasCmd_of_hasChild ht)
  rcases hc.turns.own_or_none hm hne with hk | ⟨hk, he⟩
  · rcases Core.creates_or_goesOn hm hk (Stage.hasCmd_of_hasChild ht) with hn | hg
    · rw [hn.stage] at ht
      cases ht
    · rw [hg.keeps.2]
      rcases hg.child ht with ⟨hs, -⟩ | ⟨rfl, -⟩
      · exact bore_next (hl hs)
      · exact Function.update_self _ _ _
  · rw [he] at ht ⊢
    rw [next_of_none hk]
    exact hl ht

theorem Inv.none_move (hh : Inv c h) (hc : c.Inv) (hm : Move cfg c k c') (t : Tid)
    (ht : (c'.loops t).stage = .checking ∨ (c'.loops t).stage = .refusing) :
    (h.next c k).bore (c'.loops t).rid = false := by
  have hrun : (c'.loops t).stage.inRun := by rcases ht with ht | ht <;> rw [ht] <;> rfl
  rcases hc.turns.own_or_none hm (Stage.ne_idle_of_inRun hrun) with hk | ⟨hk, he⟩
  · cases hm with
    | enter hfree hs hl ha =>
        cases hk
        simp only [Function.update_self, ha]
        exact (hh.fresh c.nextRun (Nat.le_refl _)).2.1
    | refused hs hr hl ha =>
        cases hk
        simp only [Function.update_self, ha.2]
        exact hh.none t (.inl hs)
    | loop hs hi ha =>
        cases hk
        simp only [Function.update_self, hs] at ht
        simp only [Function.update_self, ha.2]
        exact hh.none t ht
    | _ =>
        -- no other step leads there
        cases hk
        all_goals
          simp only [Function.update_self] at ht
          grind -linarith
  · rw [he] at ht ⊢
    rw [next_of_none hk]
    exact hh.none t ht

/-- What has come to its end does not go on. -/
theorem ne_over (hm : Move cfg c k c') {t : Tid} (ht : (c'.loops t).stage.inRun)
    (hto : (c'.loops t).stage ≠ .over) : (c.loops t).stage ≠ .over := by
  intro hs
  by_cases hk : k.loop = some t
  · cases hm with
    | loop hs' =>
        cases hk
        simp only [Function.update_self, hs'] at hto
        exact hto hs
    | leave hs' hl =>
        cases hk
        simp only [Function.update_self, hl] at ht
        cases ht
    | accept hfree hi hl =>
        cases hk
        simp only [Function.update_self, hl] at ht
        cases ht
    | fail hs' =>
        cases hk
        rcases hs' with hs' | ⟨hs', -⟩ <;> rw [hs'] at hs <;> cases hs
    | _ =>
        cases hk
        all_goals
          rw [‹(c.loops t).stage = _›] at hs
          cases hs
  · rw [hm.loops_eq hk] at hto
    exact hto hs

theorem Inv.inside_move (hh : Inv c h) (hc : c.Inv) (hm : Move cfg c k c') (t : Tid)
    (ht : (c'.loops t).stage.inRun) (hto : (c'.loops t).stage ≠ .over) :
    (h.next c k).silent (c'.loops t).rid = false ∧
      ((h.next c k).bore (c'.loops t).rid = false → c'.callbacks (c'.loops t).rid = {}) := by
  by_cases he : k = .enter t
  · subst he
    cases hm with
    | enter hfree hs hl ha =>
        obtain ⟨hcb, -, hsilent⟩ := hh.fresh c.nextRun (Nat.le_refl _)
        simp only [Function.update_self, ha]
        exact ⟨hsilent, fun _ ↦ hcb⟩
  have hrun := (hm.inRun ht).resolve_right he
  obtain ⟨hsilent, hcb⟩ := hh.inside t hrun (ne_over hm ht hto)
  rw [hm.rid_eq he ht]
  have hone : ∀ u, k.loop = some u → u = t :=
    fun u hu ↦ hc.turns.loop_eq hm (Stage.ne_idle_of_inRun hrun) hu
  cases hm with
  | quit hs hu hl | busy hs hl | gaveUp hs hl =>
      obtain rfl := hone _ rfl
      simp only [Function.update_self, hl, ne_eq, not_true] at hto
  | pass hs hu =>
      obtain rfl := hone _ rfl
      refine ⟨?_, hcb⟩
      simp only [next, hu, hsilent, Bool.false_and, Bool.or_false, Function.update_self]
  | spawn =>
      obtain rfl := hone _ rfl
      refine ⟨hsilent, fun hb ↦ ?_⟩
      simp only [next, Function.update_self] at hb
      cases hb
  | @answer i w hs =>
      -- a child has been born where a monitor answers
      refine ⟨hsilent, fun hb ↦ ?_⟩
      have hmon := (hh.monitor i (by rw [hs]; rfl)).1
      have hne : (c.loops t).rid ≠ (c.monitors i).rid := fun heq ↦ by
        rw [← heq] at hmon
        exact absurd hmon (Bool.eq_false_iff.mp hb)
      simp only [Function.update_of_ne hne]
      exact hcb hb
  | _ => exact ⟨hsilent, hcb⟩

/-- As long as an invocation has not come to its end, only the wrapper has called. -/
theorem Inv.calls_eq_zero (hh : Inv c h) {t : Tid} (ht : (c.loops t).stage.inRun)
    (hto : (c.loops t).stage ≠ .over) (hf : (c.callbacks (c.loops t).rid).fired = false) :
    (c.callbacks (c.loops t).rid).calls = 0 := by
  cases hb : h.bore (c.loops t).rid with
  | false => rw [(hh.inside t ht hto).2 hb]
  | true =>
      rcases hh.bore _ hb with hf' | ⟨hz, _⟩
      · rw [hf] at hf'
        cases hf'
      · exact hz

theorem next_silent {r : Nat} (hs : h.silent r = true) : (h.next c k).silent r = true := by
  cases k with
  | test t =>
      simp only [next, Function.update_apply]
      split
      · rename_i hr
        rw [← hr, hs, Bool.true_or]
      · exact hs
  | _ => exact hs

/-- A monitor that is to call does so for the same start loop until it has called. -/
theorem pending_move (hc : c.Inv) (hh : Inv c h) (hm : Move cfg c k c') {i : CmdId}
    (hi : (c.monitors i).stage.pending) (hk : k ≠ .answer i) :
    (c'.monitors i).stage.pending ∧ (c'.monitors i).loop = (c.monitors i).loop ∧
      (c'.monitors i).rid = (c.monitors i).rid := by
  cases hm with
  | spawn | up =>
      have hla := hh.launching
      have hma := hc.ids.made
      have hmon := hc.ids.monitor i
      simp only [Function.update_apply]
      grind -linarith
  | tell | monitor | monEnter | monPass | monDrop | monRunning | monLeave | answer =>
      simp only [Function.update_apply]
      grind -linarith
  | _ => exact ⟨hi, rfl, rfl⟩

/-- Which callbacks a step calls, and how. -/
theorem callback_cases (hm : Move cfg c k c') (r : Nat) :
    c'.callbacks r = c.callbacks r ∨
    (∃ t, k = .busy t ∧ (c.loops t).stage = .refusing ∧ (c.loops t).rid = r ∧
      c'.callbacks r = (c.callbacks r).call) ∨
    ((∃ t, k = .gaveUp t ∧ (c.loops t).stage = .failing ∧ (c.loops t).rid = r) ∨
      ∃ i, k = .answer i ∧ (c.monitors i).stage = .calling ∧ (c.monitors i).rid = r) ∧
        c'.callbacks r = (c.callbacks r).once := by
  cases hm with
  | @busy t _ hs =>
      by_cases hr : (c.loops t).rid = r
      · subst hr
        exact .inr (.inl ⟨t, rfl, hs, rfl, Function.update_self _ _ _⟩)
      · exact .inl (Function.update_of_ne (Ne.symm hr) _ _)
  | @gaveUp t _ hs =>
      by_cases hr : (c.loops t).rid = r
      · subst hr
        exact .inr (.inr ⟨.inl ⟨t, rfl, hs, rfl⟩, Function.update_self _ _ _⟩)
      · exact .inl (Function.update_of_ne (Ne.symm hr) _ _)
  | @answer i _ hs =>
      by_cases hr : (c.monitors i).rid = r
      · subst hr
        exact .inr (.inr ⟨.inr ⟨i, rfl, hs, rfl⟩, Function.update_self _ _ _⟩)
      · exact .inl (Function.update_of_ne (Ne.symm hr) _ _)
  | _ => exact .inl rfl

theorem once_of_fired {b : Callback} (hf : b.fired = true) : b.once = b := if_pos hf

theorem once_of_not_fired {b : Callback} (hf : b.fired = false) :
    b.once = { b.call with fired := true } := by
  rw [Callback.once, if_neg (by rw [hf]; exact Bool.false_ne_true)]

theorem fired_once (b : Callback) : b.once.fired = true := by
  cases hf : b.fired with
  | true => rw [once_of_fired hf, hf]
  | false => rw [once_of_not_fired hf]

/-- What refuses has not called yet. -/
theorem Inv.callback_of_refusing (hh : Inv c h) {t : Tid} (ht : (c.loops t).stage = .refusing) :
    h.bore (c.loops t).rid = false ∧ c.callbacks (c.loops t).rid = {} := by
  have hb := hh.none t (.inr ht)
  exact ⟨hb, (hh.inside t (by rw [ht]; rfl) (by rw [ht]; exact nofun)).2 hb⟩

theorem Inv.fired_move (hh : Inv c h) (hm : Move cfg c k c') (r : Nat)
    (hr : (c'.callbacks r).fired = true) : (c'.callbacks r).calls = 1 := by
  rcases callback_cases hm r with he | ⟨t, -, hs, rfl, he⟩ | ⟨hwho, he⟩
  · rw [he] at hr ⊢
    exact hh.fired r hr
  · rw [he, (hh.callback_of_refusing hs).2] at hr
    cases hr
  · rw [he]
    cases hf : (c.callbacks r).fired with
    | true =>
        rw [once_of_fired hf]
        exact hh.fired r hf
    | false =>
        have hz : (c.callbacks r).calls = 0 := by
          rcases hwho with ⟨t, -, hs, rfl⟩ | ⟨i, -, hs, rfl⟩
          · exact hh.calls_eq_zero (by rw [hs]; rfl) (by rw [hs]; exact nofun) hf
          · rcases hh.bore _ (hh.monitor i (by rw [hs]; rfl)).1 with hf' | ⟨hz, -⟩
            · rw [hf] at hf'
              cases hf'
            · exact hz
        rw [once_of_not_fired hf]
        show (c.callbacks r).calls + 1 = 1
        rw [hz]

/-- A start loop stays in `launching` until it has stored `Running`. -/
theorem launching_stays (hc : c.Inv) (hm : Move cfg c k c') {t : Tid}
    (ht : (c.loops t).stage = .launching) (hk : k ≠ .stored t .running) :
    (c'.loops t).stage = .launching ∧ (c'.loops t).rid = (c.loops t).rid := by
  by_cases hkl : k.loop = some t
  · have hst := hc.turns.inStart t (by rw [ht]; exact nofun)
    cases hm <;> cases hkl <;> simp only [Function.update_self]
    all_goals grind -linarith
  · rw [hm.loops_eq hkl]
    exact ⟨ht, rfl⟩

theorem next_bore {r : Nat} (hr : (h.next c k).bore r = true) :
    h.bore r = true ∨ ∃ t, k = .spawned t ∧ (c.loops t).rid = r := by
  cases k with
  | spawned t =>
      by_cases he : (c.loops t).rid = r
      · exact .inr ⟨t, rfl, he⟩
      · exact .inl ((Function.update_of_ne (Ne.symm he) _ _).symm.trans hr)
  | _ => exact .inl hr

theorem Inv.bore_move (hh : Inv c h) (hc : c.Inv) (hm : Move cfg c k c') (r : Nat)
    (hr : (h.next c k).bore r = true) :
    (c'.callbacks r).fired = true ∨ (c'.callbacks r).calls = 0 ∧
      ((∃ i, (c'.monitors i).stage.pending ∧ (c'.monitors i).rid = r) ∨
        ∃ t, (c'.loops t).stage = .launching ∧ (c'.loops t).rid = r) := by
  rcases next_bore hr with hb | ⟨t, rfl, rfl⟩
  · rcases callback_cases hm r with he | ⟨t, -, hs, rfl, -⟩ | ⟨-, he⟩
    · rcases hh.bore r hb with hf | ⟨hz, ⟨i, hi, hri⟩ | ⟨t, ht, hrt⟩⟩
      · exact .inl (by rw [he, hf])
      · by_cases hk : k = .answer i
        · subst hk hri
          cases hm with
          | answer => exact .inl (by simp only [Function.update_self]; exact fired_once _)
        · obtain ⟨hi', -, hri'⟩ := pending_move hc hh hm hi hk
          exact .inr ⟨by rw [he, hz], .inl ⟨i, hi', hri'.trans hri⟩⟩
      · by_cases hk : k = .stored t .running
        · -- the monitor answers from now on for the start loop
          subst hk hrt
          have hrid := (hh.launching t ht).2.1
          refine .inr ⟨by rw [he, hz], .inl ⟨(c.loops t).att, ?_⟩⟩
          cases hm with
          | up _ _ _ hw hkeep =>
              simp only [Function.update_self]
              exact ⟨by rw [hw]; rfl, hkeep.2.2.trans hrid⟩
        · obtain ⟨ht', hrt'⟩ := launching_stays hc hm ht hk
          exact .inr ⟨by rw [he, hz], .inr ⟨t, ht', hrt'.trans hrt⟩⟩
    · rw [(hh.callback_of_refusing hs).1] at hb
      cases hb
    · exact .inl (by rw [he, fired_once])
  · cases hm with
    | spawn hs hl ha hw =>
        cases hf : (c.callbacks (c.loops t).rid).fired with
        | true => exact .inl rfl
        | false =>
            refine .inr ⟨hh.calls_eq_zero (by rw [hs]; rfl) (by rw [hs]; exact nofun) hf, ?_⟩
            rcases hl with ⟨-, hst⟩ | ⟨hst, -⟩
            · refine .inl ⟨(c.loops t).att, ?_⟩
              simp only [Function.update_self]
              exact ⟨by rw [hst]; rfl, hw.2⟩
            · refine .inr ⟨t, ?_⟩
              simp only [Function.update_self]
              exact ⟨hst, ha.2⟩

/-- An invocation that has come to its end does not go on. -/
theorem over_stays (hm : Move cfg c k c') {r : Nat} (hr : r < c.nextRun)
    (hov : ∀ t, (c.loops t).stage.inRun → (c.loops t).rid = r → (c.loops t).stage = .over)
    (t : Tid) (ht : (c'.loops t).stage.inRun) (hrt : (c'.loops t).rid = r) :
    (c'.loops t).stage = .over := by
  by_contra hne
  by_cases he : k = .enter t
  · subst he
    cases hm with
    | enter hfree hs hl ha =>
        simp only [Function.update_self, ha] at hrt
        exact absurd hrt (Nat.ne_of_gt hr)
  · rw [hm.rid_eq he ht] at hrt
    exact ne_over hm ht hne (hov t ((hm.inRun ht).resolve_right he) hrt)

theorem silent_of_next {r : Nat} (hs : (h.next c k).silent r = true) :
    h.silent r = true ∨
      ∃ t, k = .test t ∧ (c.loops t).rid = r ∧ c.stopByUser = true ∧ h.bore r = false := by
  cases k with
  | test t =>
      by_cases hr : (c.loops t).rid = r
      · subst hr
        simp only [next, Function.update_self, Bool.or_eq_true, Bool.and_eq_true,
          Bool.not_eq_true'] at hs
        exact hs.imp_right fun h ↦ ⟨t, rfl, rfl, h⟩
      · exact .inl ((Function.update_of_ne (Ne.symm hr) _ _).symm.trans hs)
  | _ => exact .inl hs

theorem Inv.lt_of_silent (hh : Inv c h) {r : Nat} (hs : h.silent r = true) : r < c.nextRun := by
  by_contra hr
  rw [(hh.fresh r (Nat.not_lt.mp hr)).2.2] at hs
  cases hs

theorem Inv.silent_move (hh : Inv c h) (hc : c.Inv) (hm : Move cfg c k c') (r : Nat)
    (hr : (h.next c k).silent r = true) :
    (h.next c k).bore r = false ∧ c'.callbacks r = {} ∧
      ∀ t, (c'.loops t).stage.inRun → (c'.loops t).rid = r → (c'.loops t).stage = .over := by
  rcases silent_of_next hr with hs | ⟨t, rfl, rfl, hu, hb⟩
  · obtain ⟨hb, hcb, hov⟩ := hh.silent r hs
    refine ⟨Bool.eq_false_iff.mpr fun hb' ↦ ?_, ?_, over_stays hm (hh.lt_of_silent hs) hov⟩
    · rcases next_bore hb' with hb' | ⟨t, rfl, rfl⟩
      · rw [hb] at hb'
        cases hb'
      · cases hm with
        | spawn hst =>
            have hover := hov t (by rw [hst]; rfl) rfl
            rw [hst] at hover
            cases hover
    · rcases callback_cases hm r with he | ⟨t, -, hst, rfl, -⟩ |
        ⟨⟨t, -, hst, rfl⟩ | ⟨i, -, hst, rfl⟩, -⟩
      · exact he.trans hcb
      · have hover := hov t (by rw [hst]; rfl) rfl
        rw [hst] at hover
        cases hover
      · have hover := hov t (by rw [hst]; rfl) rfl
        rw [hst] at hover
        cases hover
      · rw [(hh.monitor i (by rw [hst]; rfl)).1] at hb
        cases hb
  · have hover (ht : (c'.loops t).stage = .over) (u) (hui : (c'.loops u).stage.inRun)
        (_ : (c'.loops u).rid = (c.loops t).rid) : (c'.loops u).stage = .over := by
      rcases hc.turns.own_or_none hm (Stage.ne_idle_of_inRun hui) with hk | ⟨hk, -⟩
      · cases hk
        exact ht
      · cases hk
    cases hm with
    | pass _ hu' =>
        rw [hu] at hu'
        cases hu'
    | quit hst _ hl =>
        refine ⟨hb, (hh.inside t (by rw [hst]; rfl) (by rw [hst]; exact nofun)).2 hb, hover ?_⟩
        simp only [Function.update_self]
        exact hl

/-- A start loop that comes to the end of `run` has called, a child has been born, or it is
silent. -/
theorem Inv.ended_own (hh : Inv c h) (hc : c.Inv) (hm : Move cfg c k c') {t : Tid}
    (ht : (c.loops t).stage.inRun) (hto : (c.loops t).stage ≠ .over) (hk : k.loop = some t)
    (hs : (h.next c k).silent (c.loops t).rid = false)
    (he : ∀ u, (c'.loops u).stage.inRun → (c'.loops u).rid = (c.loops t).rid →
      (c'.loops u).stage = .over) :
    (c'.callbacks (c.loops t).rid).calls = 1 ∨ (h.next c k).bore (c.loops t).rid = true := by
  have het := he t
  have hin := hc.turns.inStart t (Stage.ne_idle_of_inRun ht)
  cases hm with
  | busy hst =>
      cases hk
      refine .inl ?_
      simp only [Function.update_self, (hh.callback_of_refusing hst).2]
      rfl
  | gaveUp hst =>
      cases hk
      refine .inl ?_
      simp only [Function.update_self]
      cases hf : (c.callbacks (c.loops t).rid).fired with
      | true =>
          rw [once_of_fired hf]
          exact hh.fired _ hf
      | false =>
          rw [once_of_not_fired hf]
          exact congrArg (· + 1) (hh.calls_eq_zero ht hto hf)
  | quit hst hu =>
      cases hk
      simp only [next, Function.update_self, hu, Bool.true_and, Bool.or_eq_false_iff,
        Bool.not_eq_false'] at hs
      exact .inr hs.2
  | closeExited hst | closeStopped hst =>
      cases hk
      exact .inr (hh.child t (by rw [hst]; rfl))
  | _ =>
      -- `run` goes on
      clear hs he
      revert het
      cases hk <;> simp only [Function.update_self] <;> grind -linarith

theorem Inv.ended_move (hh : Inv c h) (hc : c.Inv) (hm : Move cfg c k c') (r : Nat)
    (hr : r < c'.nextRun) (hs : (h.next c k).silent r = false)
    (he : ∀ t, (c'.loops t).stage.inRun → (c'.loops t).rid = r → (c'.loops t).stage = .over) :
    (c'.callbacks r).calls = 1 ∨ (h.next c k).bore r = true := by
  have hsil : h.silent r = false := by
    refine Bool.eq_false_iff.mpr fun hs' ↦ ?_
    rw [next_silent hs'] at hs
    cases hs
  by_cases hall : ∀ t, (c.loops t).stage.inRun → (c.loops t).rid = r → (c.loops t).stage = .over
  · by_cases hlt : r < c.nextRun
    · rcases hh.ended r hlt hsil hall with hz | hb
      · rcases callback_cases hm r with heq | ⟨t, -, hst, rfl, -⟩ |
          ⟨⟨t, -, hst, rfl⟩ | ⟨i, -, hst, rfl⟩, -⟩
        · exact .inl (by rw [heq, hz])
        · have hover := hall t (by rw [hst]; rfl) rfl
          rw [hst] at hover
          cases hover
        · have hover := hall t (by rw [hst]; rfl) rfl
          rw [hst] at hover
          cases hover
        · exact .inr (bore_next (hh.monitor i (by rw [hst]; rfl)).1)
      · exact .inr (bore_next hb)
    · -- the invocation begins
      cases hm with
      | @enter t _ _ _ hl hrid =>
          have hrn : r = c.nextRun := Nat.le_antisymm (Nat.le_of_lt_succ hr) (Nat.not_lt.mp hlt)
          have hover := he t
          simp only [Function.update_self, hl, hrid.2] at hover
          cases hover rfl hrn.symm
      | _ => exact absurd hr hlt
  · push Not at hall
    obtain ⟨t, ht, rfl, hto⟩ := hall
    by_cases hk : k.loop = some t
    · exact hh.ended_own hc hm ht hto hk hs he
    · have hover := he t
      rw [hm.loops_eq hk] at hover
      exact absurd (hover ht rfl) hto

theorem Inv.move (hh : Inv c h) (hc : c.Inv) (hm : Move cfg c k c') : Inv c' (h.next c k) where
  fresh := hh.fresh_move hm
  loop := hh.loop_move hm
  monitor := hh.monitor_move hm
  launching := hh.launching_move hc hm
  child := hh.child_move hc hm
  none := hh.none_move hc hm
  inside := hh.inside_move hc hm
  fired := hh.fired_move hm
  bore := hh.bore_move hc hm
  silent := hh.silent_move hc hm
  ended := hh.ended_move hc hm

theorem Inv.init : Inv {} {} where
  fresh _ _ := ⟨rfl, rfl, rfl⟩
  loop _ h := nomatch h
  monitor _ h := nomatch h
  launching _ h := nomatch h
  child _ h := nomatch h
  none _ h := by rcases h with h | h <;> cases h
  inside _ h := nomatch h
  fired _ h := nomatch h
  bore _ h := nomatch h
  silent _ h := nomatch h
  ended _ h := nomatch h

end Invocations

/-! ## Waiting for the callback -/

/-- What a step with the label `k` does to the calls that wait for their callback. -/
structure Wakes (c : Core) (k : Label) (p p' : Tid → CallerPc) : Prop where
  wait : ∀ t, p' t = .condWait → p t = .condWait ∨ k = .start t true ∧ p t = .startEnter true
  stay : ∀ t, p t = .condWait ∨ p t = .done → p' t = .condWait ∨ p' t = .done
  start : ∀ t, k = .start t true → p' t = .condWait ∨ p' t = .done
  busy : ∀ t, k = .busy t → p' t ≠ .condWait
  gaveUp : ∀ t, k = .gaveUp t → (c.callbacks (c.loops t).rid).fired = false → p' t ≠ .condWait
  answer : ∀ i, k = .answer i → (c.callbacks (c.monitors i).rid).fired = false →
    p' (c.monitors i).loop ≠ .condWait

namespace Sys

variable {cfg : Config} {s s' : Sys} {a : Act} {t : Tid} {c : CmdId} {r : Nat}

theorem signal_wakes : (s.signal t).callers t ≠ .condWait := by
  simp only [signal, Function.update_self]
  split
  · rintro ⟨⟩
  · assumption

theorem finishCbWrapper_wakes (hf : (s.callbacks r).fired = false) :
    (s.finishCbWrapper t r).callers t ≠ .condWait := by
  rw [finishCbWrapper, hf]
  exact signal_wakes

theorem busy_wakes (h : s.step cfg a = some s') (hk : s.label a = .busy t) :
    s'.callers t ≠ .condWait := by
  cases a with
  | loop u ch =>
      simp only [label] at hk
      split at hk <;> (try split at hk) <;> cases hk
      simp only [step, loopStep, ‹(s.loops t).pc = .runningCb›] at h
      cases h
      exact signal_wakes
  | caller | call | monitor | waiter =>
      simp only [label] at hk
      split at hk <;> (try split at hk) <;> cases hk
  | stopper | closer | exit | sigchld => cases hk

theorem gaveUp_wakes (h : s.step cfg a = some s') (hk : s.label a = .gaveUp t)
    (hf : (s.callbacks (s.loops t).rid).fired = false) : s'.callers t ≠ .condWait := by
  cases a with
  | loop u ch =>
      simp only [label] at hk
      split at hk <;> (try split at hk) <;> cases hk
      simp only [step, loopStep, ‹(s.loops t).pc = .fatalCb›] at h
      cases h
      exact finishCbWrapper_wakes hf
  | caller | call | monitor | waiter =>
      simp only [label] at hk
      split at hk <;> (try split at hk) <;> cases hk
  | stopper | closer | exit | sigchld => cases hk

theorem answer_wakes (h : s.step cfg a = some s') (hk : s.label a = .answer c)
    (hf : (s.callbacks (s.monitors c).rid).fired = false) :
    s'.callers (s.monitors c).loop ≠ .condWait := by
  cases a with
  | monitor i =>
      simp only [label] at hk
      split at hk <;> cases hk
      simp only [step, monitorStep, ‹(s.monitors c).pc = .callback›] at h
      cases h
      exact finishCbWrapper_wakes hf
  | caller | call | loop | waiter =>
      simp only [label] at hk
      split at hk <;> (try split at hk) <;> cases hk
  | stopper | closer | exit | sigchld => cases hk

theorem start_waits (h : s.step cfg a = some s') (hk : s.label a = .start t true) :
    s'.callers t = .condWait ∨ s'.callers t = .done := by
  cases a with
  | caller u ch =>
      cases hp : s.callers u with
      | startEnter wait =>
          simp only [label, hp] at hk
          injection hk with ht hi
          subst ht
          rw [Bool.not_eq_true'] at hi
          simp only [step, callerStep, hp, hi] at h
          split at h <;> cases h
          simp only [goCaller, Function.update_self]
          cases wait
          · exact .inr rfl
          · exact .inl rfl
      | stopChange wait restart ph => cases ph <;> simp [label, hp] at hk
      | _ =>
          simp only [label, hp] at hk
          repeat' split at hk
          all_goals cases hk
  | call | loop | monitor | waiter =>
      simp only [label] at hk
      split at hk <;> (try split at hk) <;> cases hk
  | stopper | closer | exit | sigchld => cases hk

/-- Only a call of `Start` comes to wait, by launching its start loop. -/
theorem step_condWait (h : s.step cfg a = some s') (ht : s'.callers t = .condWait) :
    s.callers t = .condWait ∨ s.label a = .start t true ∧ s.callers t = .startEnter true := by
  rcases step_callers_of_not_plain h (t := t) (by rw [ht]; rfl) with ⟨ch, rfl, hn⟩ | he
  · rw [ht] at hn
    generalize hp : s.callers t = pc at hn
    cases hn with
    | launch hi => exact .inr ⟨by simp [label, hp, hi], rfl⟩
    | plain hpl => cases hpl
  · exact .inl (he.trans ht)

/-- A call of `Start` that waits or has returned does not do anything else. -/
theorem step_launched (h : s.step cfg a = some s')
    (ht : s.callers t = .condWait ∨ s.callers t = .done) :
    s'.callers t = .condWait ∨ s'.callers t = .done := by
  rcases step_callers h t with ⟨op, -, hi, -⟩ | ⟨ch, rfl⟩ | ha
  · rw [hi] at ht
    rcases ht with ht | ht <;> cases ht
  · rcases ht with ht | ht <;> simp [step, callerStep, ht] at h
  · generalize s.callers t = pc at ha ht
    generalize s'.callers t = pc' at ha
    cases ha with
    | refl => exact ht
    | wake => exact .inr rfl
    | raise => rcases ht with ht | ht <;> cases ht

theorem step_wakes (h : s.step cfg a = some s') :
    Wakes s.toCore (s.label a) s.callers s'.callers where
  wait _ := step_condWait h
  stay _ := step_launched h
  start _ := start_waits h
  busy _ := busy_wakes h
  gaveUp _ := gaveUp_wakes h
  answer _ := answer_wakes h

end Sys

namespace Invocations

/-- Who waits for a callback, and who is to call it. -/
structure Waits (c : Core) (p : Tid → CallerPc) (h : Invocations) : Prop where
  launched : ∀ t, (c.loops t).stage ≠ .idle → p t = .condWait ∨ p t = .done
  owned : ∀ r, r < c.nextRun → p (h.owner r) = .condWait ∨ p (h.owner r) = .done
  called : ∀ r, r < c.nextRun → (c.callbacks r).calls ≠ 0 → p (h.owner r) ≠ .condWait
  waited : ∀ t, p t = .condWait → (∃ r, r < c.nextRun ∧ h.silent r = true ∧ h.owner r = t) ∨
    ((c.loops t).stage = .entering ∨ (c.loops t).stage.inRun ∧ (c.loops t).stage ≠ .over) ∨
      ∃ i, (c.monitors i).stage.pending ∧ (c.monitors i).loop = t

variable {cfg : Config} {c c' : Core} {p p' : Tid → CallerPc} {h : Invocations} {k : Label}

theorem Waits.launched_move (hw : Waits c p h) (hk : Wakes c k p p') (hm : Move cfg c k c')
    (t : Tid) (ht : (c'.loops t).stage ≠ .idle) : p' t = .condWait ∨ p' t = .done := by
  by_cases hidle : (c.loops t).stage = .idle
  · -- it is launched by the step
    have hkl : k.loop = some t := by
      by_contra hkl
      rw [hm.loops_eq hkl] at ht
      exact ht hidle
    rcases Core.Turns.loop_active hm hkl with ha | ⟨rfl, -⟩
    · exact absurd hidle ha
    · exact hk.start t rfl
  · exact hk.stay t (hw.launched t hidle)

theorem Waits.owned_move (hw : Waits c p h) (hk : Wakes c k p p') (hm : Move cfg c k c')
    (r : Nat) (hr : r < c'.nextRun) :
    p' ((h.next c k).owner r) = .condWait ∨ p' ((h.next c k).owner r) = .done := by
  refine hk.stay _ ?_
  by_cases hlt : r < c.nextRun
  · rw [next_owner hlt]
    exact hw.owned r hlt
  · cases hm with
    | enter _ hs =>
        obtain rfl : r = c.nextRun :=
          Nat.le_antisymm (Nat.le_of_lt_succ hr) (Nat.not_lt.mp hlt)
        simp only [next, Function.update_self]
        exact hw.launched _ (by rw [hs]; exact nofun)
    | _ => exact absurd hr hlt

theorem Waits.called_move (hw : Waits c p h) (hh : Inv c h) (hk : Wakes c k p p')
    (hm : Move cfg c k c') (r : Nat) (hr : r < c'.nextRun) (hz : (c'.callbacks r).calls ≠ 0) :
    p' ((h.next c k).owner r) ≠ .condWait := by
  have hcl := hw.called r
  have hwt := hk.wait
  cases hm with
  | busy | gaveUp | answer =>
      -- who has just been called does not wait any more
      have hb := hk.busy
      have hg := hk.gaveUp
      have ha := hk.answer
      have hfi := hh.fired
      have hl := hh.loop
      have hmo := hh.monitor
      revert hr hz
      simp only [next, Function.update_apply]
      grind -linarith
  | enter =>
      have hf := hh.fresh
      revert hr hz
      simp only [next, Function.update_apply]
      grind -linarith
  | accept | refuse =>
      have ho := hw.owned r hr
      intro hp
      rcases hwt _ hp with hp | ⟨-, hp⟩
      · exact hcl hr hz hp
      · have hp : p (h.owner r) = .startEnter true := hp
        rw [hp] at ho
        rcases ho with ho | ho <;> cases ho
  | _ =>
      intro hp
      rcases hwt _ hp with hp | ⟨hk, -⟩
      · exact hcl hr hz hp
      · cases hk

/-- Who still waits has not been called. -/
theorem Waits.not_fired (hw : Waits c p h) (hh : Inv c h) {r : Nat} (hr : r < c.nextRun)
    (ht : p (h.owner r) = .condWait) : (c.callbacks r).fired = false := by
  refine Bool.eq_false_iff.mpr fun hf ↦ hw.called r hr ?_ ht
  rw [hh.fired r hf]
  exact Nat.one_ne_zero

/-- Once a child has been born, the monitor is to wake the `Start` that waits. -/
theorem Waits.exists_pending (hw : Waits c p h) (hh : Inv c h) {t : Tid} (ht : p t = .condWait)
    (hs : (c.loops t).stage.inRun) (hl : (c.loops t).stage ≠ .launching)
    (hc : c.Inv) (hb : h.bore (c.loops t).rid = true) :
    ∃ i, (c.monitors i).stage.pending ∧ (c.monitors i).loop = t := by
  obtain ⟨hlt, ho⟩ := hh.loop t hs
  rcases hh.bore _ hb with hf | ⟨-, ⟨i, hi, he⟩ | ⟨u, hu, -⟩⟩
  · rw [hw.not_fired hh hlt (by rwa [ho])] at hf
    cases hf
  · refine ⟨i, hi, ?_⟩
    rw [← (hh.monitor i hi).2, he, ho]
  · have htu := hc.turns.one t u (Stage.ne_idle_of_inRun hs) (by rw [hu]; exact nofun)
    rw [htu] at hl
    exact absurd hu hl

/-- A start loop that leaves `run` has woken its `Start`, leaves that to a monitor, or is silent. -/
theorem Waits.waited_own (hw : Waits c p h) (hh : Inv c h) (hc : c.Inv) (hk : Wakes c k p p')
    (hm : Move cfg c k c') {t : Tid} (hp : p t = .condWait) (ht : p' t = .condWait)
    (hs : (c.loops t).stage = .entering ∨ (c.loops t).stage.inRun ∧ (c.loops t).stage ≠ .over)
    (hkl : k.loop = some t) :
    (∃ r, r < c'.nextRun ∧ (h.next c k).silent r = true ∧ (h.next c k).owner r = t) ∨
      ((c'.loops t).stage = .entering ∨
        (c'.loops t).stage.inRun ∧ (c'.loops t).stage ≠ .over) ∨
      ∃ i, (c'.monitors i).stage.pending ∧ (c'.monitors i).loop = t := by
  have hpend := fun hs hl ↦ hw.exists_pending hh hp hs hl hc
  cases hm with
  | busy => cases hkl; exact absurd ht (hk.busy t rfl)
  | gaveUp hst =>
      cases hkl
      obtain ⟨hlt, ho⟩ := hh.loop t (by rw [hst]; rfl)
      exact absurd ht (hk.gaveUp t rfl (hw.not_fired hh hlt (by rwa [ho])))
  | quit hst hu =>
      cases hkl
      obtain ⟨hlt, ho⟩ := hh.loop t (by rw [hst]; rfl)
      cases hb : h.bore (c.loops t).rid with
      | true => exact .inr (.inr (hpend (by rw [hst]; rfl) (by rw [hst]; exact nofun) hb))
      | false =>
          refine .inl ⟨_, hlt, ?_, ho⟩
          simp only [next, Function.update_self, hu, hb, Bool.not_false, Bool.and_self,
            Bool.or_true]
  | closeExited hst | closeStopped hst =>
      cases hkl
      have hb := hh.child t (by rw [hst]; rfl)
      exact .inr (.inr (hpend (by rw [hst]; rfl) (by rw [hst]; exact nofun) hb))
  | _ =>
      refine .inr (.inl ?_)
      cases hkl <;> simp only [Function.update_self] <;> grind -linarith

theorem Waits.waited_move (hw : Waits c p h) (hh : Inv c h) (hc : c.Inv) (hk : Wakes c k p p')
    (hm : Move cfg c k c') (t : Tid) (ht : p' t = .condWait) :
    (∃ r, r < c'.nextRun ∧ (h.next c k).silent r = true ∧ (h.next c k).owner r = t) ∨
      ((c'.loops t).stage = .entering ∨
        (c'.loops t).stage.inRun ∧ (c'.loops t).stage ≠ .over) ∨
      ∃ i, (c'.monitors i).stage.pending ∧ (c'.monitors i).loop = t := by
  rcases hk.wait t ht with hp | ⟨rfl, -⟩
  · rcases hw.waited t hp with ⟨r, hr, hs, ho⟩ | hs | ⟨i, hi, he⟩
    · exact .inl ⟨r, Nat.lt_of_lt_of_le hr (nextRun_le hm), next_silent hs,
        (next_owner hr).trans ho⟩
    · by_cases hkl : k.loop = some t
      · exact hw.waited_own hh hc hk hm hp ht hs hkl
      · rw [hm.loops_eq hkl]
        exact .inr (.inl hs)
    · have hna : k ≠ .answer i := by
        rintro rfl
        obtain ⟨hb, ho⟩ := hh.monitor i hi
        have hf := hw.not_fired hh (hh.lt_of_bore hb) (by rwa [ho, he])
        exact hk.answer i rfl hf (by rwa [he])
      obtain ⟨hi', he', -⟩ := pending_move hc hh hm hi hna
      exact .inr (.inr ⟨i, hi', he'.trans he⟩)
  · cases hm with
    | accept _ _ hl =>
        refine .inr (.inl (.inl ?_))
        simp only [Function.update_self, hl]

theorem Waits.move (hw : Waits c p h) (hh : Inv c h) (hc : c.Inv) (hk : Wakes c k p p')
    (hm : Move cfg c k c') : Waits c' p' (h.next c k) where
  launched := hw.launched_move hk hm
  owned := hw.owned_move hk hm
  called := hw.called_move hh hk hm
  waited := hw.waited_move hh hc hk hm

theorem Waits.init : Waits {} (fun _ ↦ .idle) {} where
  launched _ h := absurd rfl h
  owned _ h := nomatch h
  called _ h := nomatch h
  waited _ h := nomatch h

end Invocations

/-! ## Every invocation but a silent one is answered -/

namespace Core

variable (c : Core)

/-- The invocation `r` of `run` has returned. -/
def Returned (r : Nat) : Prop :=
  r < c.nextRun ∧ ∀ t, (c.loops t).stage.inRun → (c.loops t).rid ≠ r

/-- `finishCb` has been called once, or a goroutine that will call it has been started. -/
def Answered (r : Nat) : Prop :=
  (c.callbacks r).calls = 1 ∨
    (c.callbacks r).calls = 0 ∧ ∃ i, (c.monitors i).stage.pending ∧ (c.monitors i).rid = r

/-- Somebody is left to wake the `Start` of the start loop `t`: `run`, which is entered or has
not come to its end, or the goroutine of a monitor. -/
def Attended (t : Tid) : Prop :=
  ((c.loops t).stage = .entering ∨ (c.loops t).stage.inRun ∧ (c.loops t).stage ≠ .over) ∨
    ∃ i, (c.monitors i).stage.pending ∧ (c.monitors i).loop = t

/-- Behind `run`, all of its invocations have returned. -/
theorem Inv.returned {c : Core} (hc : c.Inv) {t : Tid} {r : Nat} (hr : r < c.nextRun)
    (ht : (c.loops t).stage = .rested) : c.Returned r := by
  refine ⟨hr, fun u hu ↦ ?_⟩
  have htu := hc.turns.one t u (by rw [ht]; exact nofun) (Stage.ne_idle_of_inRun hu)
  rw [← htu, ht] at hu
  cases hu

end Core

variable {cfg : Config} {w : Sys × Invocations}

theorem reachable_invocations (hw : (invocations cfg).Reachable w) :
    w.2.Inv w.1.toCore ∧ w.2.Waits w.1.toCore w.1.callers := by
  refine observed_step_invariant (P := fun s h ↦ h.Inv s.toCore ∧ h.Waits s.toCore s.callers)
    ⟨.init, .init⟩ ?_ hw
  rintro s h a s' hc ⟨hh, hwt⟩ - hst
  have hm := hc.step_move hst
  exact ⟨hh.move hc hm, hwt.move hh hc (Sys.step_wakes hst) hm⟩

namespace Invocations

variable {c : Core} {h : Invocations}

theorem Inv.calls_le (hh : Inv c h) (r : Nat) : (c.callbacks r).calls ≤ 1 := by
  by_cases hf : (c.callbacks r).fired = true
  · exact Nat.le_of_eq (hh.fired r hf)
  · rw [Bool.not_eq_true] at hf
    by_cases he : ∃ t, (c.loops t).stage.inRun ∧ (c.loops t).rid = r ∧ (c.loops t).stage ≠ .over
    · obtain ⟨t, ht, rfl, hto⟩ := he
      rw [hh.calls_eq_zero ht hto hf]
      exact Nat.zero_le _
    · cases hs : h.silent r with
      | true =>
          rw [(hh.silent r hs).2.1]
          exact Nat.zero_le _
      | false =>
          by_cases hlt : r < c.nextRun
          · have ho : ∀ t, (c.loops t).stage.inRun → (c.loops t).rid = r →
                (c.loops t).stage = .over := fun t ht hr ↦ by
              by_contra hto
              exact he ⟨t, ht, hr, hto⟩
            rcases hh.ended r hlt hs ho with hz | hb
            · exact Nat.le_of_eq hz
            · rcases hh.bore r hb with hf' | ⟨hz, _⟩
              · rw [hf] at hf'
                cases hf'
              · rw [hz]
                exact Nat.zero_le _
          · rw [(hh.fresh r (Nat.not_lt.mp hlt)).1]
            exact Nat.zero_le _

theorem Inv.answered_iff (hh : Inv c h) {r : Nat} (hr : c.Returned r) :
    c.Answered r ↔ h.silent r = false := by
  obtain ⟨hlt, hret⟩ := hr
  constructor
  · intro ha
    by_contra hs
    obtain ⟨hb, hcb, -⟩ := hh.silent r (by simpa using hs)
    rcases ha with ha | ⟨-, i, hi, rfl⟩
    · rw [hcb] at ha
      cases ha
    · rw [(hh.monitor i hi).1] at hb
      cases hb
  · intro hs
    rcases hh.ended r hlt hs (fun t ht he ↦ absurd he (hret t ht)) with hz | hb
    · exact .inl hz
    · rcases hh.bore r hb with hf | ⟨hz, hi | ⟨t, ht, he⟩⟩
      · exact .inl (hh.fired r hf)
      · exact .inr ⟨hz, hi⟩
      · exact absurd he (hret t (by rw [ht]; rfl))

end Invocations

/-- **The finish callback is called once**, or left to a goroutine that calls it, by exactly the
invocations of `run` that do not leave the retry loop because of `stopByUser` before a child has
been spawned; and a `Start` that waits is attended to unless an invocation of its start loop has
left in this way. -/
theorem callback_once_iff (hw : (invocations cfg).Reachable w) :
    (∀ r, (w.1.callbacks r).calls ≤ 1) ∧
      (∀ r, w.1.Returned r → (w.1.Answered r ↔ w.2.silent r = false)) ∧
      ∀ t, w.1.callers t = .condWait → w.1.Attended t ∨
        ∃ r, r < w.1.nextRun ∧ w.2.silent r = true ∧ w.2.owner r = t := by
  obtain ⟨hh, hwt⟩ := reachable_invocations hw
  refine ⟨hh.calls_le, fun r hr ↦ hh.answered_iff hr, fun t ht ↦ ?_⟩
  exact (hwt.waited t ht).symm

set_option maxRecDepth 4000 in
/-- The command cannot be created: `run` gives up, and has called its callback. -/
theorem callback_once_failed : ∃ w : Sys × Invocations, (invocations {}).Reachable w ∧
    w.1.Returned 0 ∧ w.1.Answered 0 := by
  obtain ⟨w, hw, hp⟩ := Machine.exists_reachable (m := invocations {})
    (fun w ↦ w.1.nextRun = 1 ∧ w.2.silent 0 = false ∧ (w.1.loops 0).stage = .rested)
    (List.flatten [[.call 0 (.start true), .caller 0 .ok], .replicate 6 (.loop 0 .ok),
      [.loop 0 .fail], .replicate 5 (.loop 0 .ok)]) (by decide +kernel)
  obtain ⟨hn, hs, hl⟩ := of_decide_eq_true hp
  have hr := (observed_inv hw).returned (hn ▸ Nat.zero_lt_one) hl
  exact ⟨w, hw, hr, ((callback_once_iff hw).2.1 0 hr).mpr hs⟩

set_option maxRecDepth 4000 in
/-- A `Stop` that comes before the first attempt: `run` leaves, and the `Start` waits for ever. -/
theorem callback_forgotten :
    (¬∀ (cfg : Config) (w : Sys × Invocations), (invocations cfg).Reachable w →
      ∀ r, w.1.Returned r → w.1.Answered r) ∧
    ¬∀ (cfg : Config) (w : Sys × Invocations), (invocations cfg).Reachable w →
      ∀ t, w.1.callers t = .condWait → w.1.Attended t := by
  obtain ⟨w, hw, hp⟩ := Machine.exists_reachable (m := invocations {})
    (fun w ↦ w.1.nextRun = 1 ∧ w.2.silent 0 = true ∧ (w.1.loops 0).stage = .rested ∧
      w.1.callers 0 = .condWait)
    (List.flatten [[.call 0 (.start true), .caller 0 .ok, .call 1 (.stop false), .caller 1 .ok],
      .replicate 4 (.loop 0 .ok)]) (by decide +kernel)
  obtain ⟨hn, hs, hl, hcw⟩ := of_decide_eq_true hp
  obtain ⟨hh, -⟩ := reachable_invocations hw
  have hr := (observed_inv hw).returned (hn ▸ Nat.zero_lt_one) hl
  constructor
  · intro h
    have ha := (hh.answered_iff hr).mp (h {} w hw 0 hr)
    rw [hs] at ha
    cases ha
  · intro h
    rcases h {} w hw 0 hcw with (he | ⟨he, -⟩) | ⟨i, hi, -⟩
    · rw [hl] at he
      cases he
    · rw [hl] at he
      cases he
    · -- the only invocation has not spawned a child, so that there is no monitor
      obtain ⟨hb, -⟩ := hh.monitor i hi
      by_cases hlt : (w.1.monitors i).rid < w.1.nextRun
      · rw [hn, Nat.lt_one_iff] at hlt
        rw [hlt, (hh.silent 0 hs).1] at hb
        cases hb
      · rw [(hh.fresh _ (Nat.not_lt.mp hlt)).2.1] at hb
        cases hb

end Supervisord.Process
