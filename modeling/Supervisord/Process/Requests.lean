import Supervisord.Process.Invariant

/-!
# Requests are not lost

A `Stop` is carried out by a flag that `run` tests at the head of its retry loop, a `Start` by
the start loop it launches.  A request counts from the moment its call holds the lock.

`run` gives the lock away between the test of the flag and the attempt it decides on, for the
restart pause: a `Stop` that comes then is lost, and `stop_kept` says that no other is.  A
`Start` is refused while the old start loop is still active, also where that loop is about to
obey an earlier `Stop`: such a `Start` is lost, and `start_kept` says that no other is.
-/

namespace Supervisord.Process

/-- The stages between the test of `stopByUser` and the start of the command. -/
def Stage.bound : Stage → Bool
  | .pausing | .paused | .trying | .making | .made => true
  | .idle | .entering | .checking | .refusing | .head | .failed _ | .launching | .born | .watching
  | .seen | .settling | .judging | .excused | .judged _ | .exhausted | .failing | .over | .rested
  | .deciding | .ending => false

attribute [grind] Stage.bound

theorem Stage.holds_of_bound {s : Stage} (h : s.bound) (hp : s ≠ .paused) : s.holds := by
  cases s <;> first | rfl | exact absurd rfl hp | cases h

/-- A request that counts. -/
inductive Request where
  | none
  | stop (t : Tid)
  /-- A `Start`, and whether it was issued while the process was not running. -/
  | start (idle : Bool)
deriving DecidableEq

/-- The requests made so far. -/
structure Requests where
  last : Request := .none
  /-- The `Start` of the call was issued while the process was not running. -/
  idle : Tid → Bool := fun _ ↦ false
  /-- There was a `Stop`. -/
  stopped : Bool := false
  /-- The last `Start` since the last `Stop` that was not refused. -/
  launched : Option Tid := none
  /-- How many steps its start loop has taken. -/
  steps : Nat := 0
  /-- It has stored `Starting`. -/
  attempted : Bool := false

/-- `run` stores `Starting`. -/
def Label.isStarting : Label → Bool
  | .stored _ .starting => true
  | _ => false

def Requests.next (h : Requests) (c : Core) (k : Label) : Requests :=
  match k with
  | .issue t => { h with idle := Function.update h.idle t !c.state.isRunning }
  | .start t true =>
    { h with last := .start (h.idle t), launched := some t, steps := 0, attempted := false }
  | .start t false => { h with last := .start (h.idle t) }
  | .stop t => { h with last := .stop t, stopped := true, launched := none }
  | _ =>
    if h.launched ≠ none ∧ k.loop = h.launched then
      { h with steps := h.steps + 1, attempted := h.attempted || k.isStarting }
    else h

/-- A process whose requests are recorded. -/
def requests (cfg : Config) : Machine (Sys × Requests) Act := observed cfg {} Requests.next

variable {cfg : Config} {c c' : Core} {h : Requests} {k : Label}

/-- Any other step is counted where it is one of the start loop launched last. -/
theorem Requests.next_else (hi : ∀ t, k ≠ .issue t) (hs : ∀ t b, k ≠ .start t b)
    (hp : ∀ t, k ≠ .stop t) : h.next c k = if h.launched ≠ none ∧ k.loop = h.launched then
      { h with steps := h.steps + 1, attempted := h.attempted || k.isStarting } else h := by
  cases k with
  | issue t => exact absurd rfl (hi t)
  | start t b => exact absurd rfl (hs t b)
  | stop t => exact absurd rfl (hp t)
  | _ => rfl

/-- It is no request. -/
theorem Requests.next_frame (hs : ∀ t b, k ≠ .start t b) (hp : ∀ t, k ≠ .stop t) :
    (h.next c k).last = h.last ∧ (h.next c k).launched = h.launched ∧
      (h.next c k).stopped = h.stopped := by
  by_cases hi : ∃ t, k = .issue t
  · obtain ⟨t, rfl⟩ := hi
    exact ⟨rfl, rfl, rfl⟩
  · rw [next_else (fun t ht ↦ hi ⟨t, ht⟩) hs hp]
    split <;> exact ⟨rfl, rfl, rfl⟩

/-! ## Stop -/

/-- No `Stop` comes while `run` is in its restart pause. -/
def OutsidePause (_ : Requests) (c : Core) : Label → Prop
  | .stop _ => ∀ t, (c.loops t).stage ≠ .paused
  | _ => True

/-- The last request was a `Stop`: its flag stands, and no start loop is past its test. -/
def Requests.Halted (c : Core) (h : Requests) : Prop :=
  ∀ t, h.last = .stop t → c.stopByUser = true ∧ ∀ u, (c.loops u).stage.bound = false

/-- Where the flag stands, no start loop comes past its test. -/
theorem not_bound_move (hm : Move cfg c k c') (hu : c.stopByUser = true) {t : Tid}
    (hb : (c.loops t).stage.bound = false) : (c'.loops t).stage.bound = false := by
  by_cases hk : k.loop = some t
  · cases hm with
    | loop hs =>
        cases hk
        simp only [Function.update_self, hs]
        exact hb
    | pass _ hn =>
        rw [hu] at hn
        cases hn
    | pause hs | resume _ hs | starting hs | create hs =>
        cases hk
        rw [hs] at hb
        cases hb
    | rest _ hl | decide _ hl =>
        cases hk
        simp only [Function.update_self, hl]
        split <;> rfl
    | spawn _ hl =>
        cases hk
        rcases hl with ⟨hl, -⟩ | ⟨hl, -⟩ <;> simp only [Function.update_self, hl] <;> rfl
    | accept _ _ hl | enter _ _ hl | refused _ _ hl | busy _ hl | clear _ _ hl | quit _ _ hl
    | fail _ hl | createFatal _ hl | spawnFatal _ hl | retry _ hl | up _ hl | release _ hl
    | see _ _ hl | tell _ hl | relock _ _ hl | excuse _ _ hl | blame _ _ hl | verdict _ hl
    | closeExited _ hl | closeStopped _ hl | backoff _ _ hl | exhaust _ _ hl | retryFatal _ hl
    | gaveUp _ hl | leave _ hl | finish _ _ hl =>
        cases hk
        simp only [Function.update_self, hl]
        rfl
    | _ => cases hk
  · rw [hm.loops_eq hk]
    exact hb

theorem Requests.Halted.move (hc : c.Inv) (hh : Halted c h) (ho : OutsidePause h c k)
    (hm : Move cfg c k c') : Halted c' (h.next c k) := by
  intro t ht
  have hkeep (hu : c.stopByUser = true) (u) := not_bound_move (t := u) hm hu
  have hframe := next_frame (h := h) (c := c) (k := k)
  cases hm with
  | stop hfree =>
      refine ⟨rfl, fun u ↦ Bool.eq_false_iff.mpr fun hb ↦ ?_⟩
      have hheld := hc.locks.loop u (Stage.holds_of_bound hb (ho u))
      rw [hfree] at hheld
      cases hheld
  | accept | refuse => cases ht
  | _ =>
      rw [(hframe (fun _ _ ↦ nofun) fun _ ↦ nofun).1] at ht
      obtain ⟨hu, hb⟩ := hh t ht
      exact ⟨hu, fun u ↦ hkeep hu u (hb u)⟩

/-- A step that stores `Starting` or executes `cmd.Start`. -/
def Sys.attempts (s : Sys) : Act → Prop
  | .loop t _ => (s.loops t).pc = .change .starting .store ∨ (s.loops t).pc = .spawn
  | _ => False

theorem Sys.not_attempts {s : Sys} (hb : ∀ t, (s.loops t).stage.bound = false) (a : Act) :
    ¬s.attempts a := by
  intro ha
  cases a with
  | loop t ch =>
      have ht := hb t
      rcases ha with ha | ha <;> rw [Loop.stage, ha] at ht <;> cases ht
  | _ => exact ha

/-- **No stop request is lost** outside of the restart pause: from the moment the last request is
a `Stop`, and so also when that `Stop` has returned, nothing is spawned. -/
theorem stop_kept {w : Sys × Requests} (hw : (requests cfg).Reach (heeds OutsidePause) w)
    {t : Tid} (hl : w.2.last = .stop t) (a : Act) : ¬w.1.attempts a := by
  have hh : Requests.Halted w.1.toCore w.2 :=
    observed_invariant (P := Requests.Halted) (by intro t ht; cases ht)
      (fun hc hh ho hm ↦ hh.move hc ho hm) hw
  exact Sys.not_attempts (hh t hl).2 a

/-- A `Stop` that comes while `run` waits for the exit. -/
theorem outsidePause_of_watching {h : Requests} (hc : c.Inv) {t : Tid}
    (ht : (c.loops t).stage = .watching) : OutsidePause h c k := by
  cases k with
  | stop u =>
      intro v hv
      have htv := hc.turns.one t v (by rw [ht]; decide) (by rw [hv]; decide)
      rw [← htv, ht] at hv
      cases hv
  | _ => trivial

set_option maxRecDepth 4000 in
/-- Running, stopped, and nothing is spawned any more. -/
theorem stop_kept_running : ∃ w : Sys × Requests,
    (requests {}).Reach (heeds OutsidePause) w ∧ w.2.last = .stop 1 ∧
      ∀ a, ¬w.1.attempts a := by
  obtain ⟨w, hw, hl⟩ := Machine.exists_reach (m := requests {})
    (fun w a ↦ match w.1.label a with | .stop _ => (w.1.loops 0).stage = .watching | _ => true)
    (fun w ↦ w.2.last = .stop 1)
    (List.flatten [startAndRun, [.call 1 (.stop true), .caller 1 .ok]])
    (fun w a hw hp ↦ by
      show OutsidePause w.2 w.1.toCore (w.1.label a)
      cases hk : w.1.label a with
      | stop u =>
          rw [hk] at hp
          exact outsidePause_of_watching (observed_inv hw) (of_decide_eq_true hp)
      | _ => trivial)
    (by decide +kernel)
  have hl := of_decide_eq_true hl
  exact ⟨w, hw, hl, stop_kept hw hl⟩

set_option maxRecDepth 4000 in
/-- A `Stop` that comes in the restart pause and has returned does not keep `run` from storing
`Starting`. -/
theorem stop_lost : ¬∀ (cfg : Config) (w : Sys × Requests) (t : Tid),
    (requests cfg).Reachable w → w.2.last = .stop t → w.1.callers t = .done →
      ∀ a, ¬w.1.attempts a := by
  intro h
  obtain ⟨w, hw, hl⟩ := Machine.exists_reachable (m := requests { restartpause := 1 })
    (fun w ↦ w.2.last = .stop 1 ∧ w.1.callers 1 = .done ∧
      (w.1.loops 0).pc = .change .starting .store)
    (List.flatten [[.call 0 (.start false), .caller 0 .ok], .replicate 12 (.loop 0 .ok),
      [.exit 0 (some 1)], .replicate 4 (.waiter 0), .replicate 2 (.monitor 0),
      .replicate 10 (.loop 0 .ok), [.call 1 (.stop true), .caller 1 .ok, .caller 1 .ok],
      .replicate 3 (.loop 0 .ok)]) (by decide +kernel)
  obtain ⟨hl, hd, hpc⟩ := of_decide_eq_true hl
  exact h _ w 1 hw hl hd (.loop 0 .ok) (.inl hpc)

/-! ## Start -/

/-- A `Start` issued while the process was not running finds no flag of an earlier `Stop` where
it is refused, and a start loop finds the process not running. -/
def Honoured (h : Requests) (c : Core) : Label → Prop
  | .start t false => h.idle t = true → c.stopByUser = false
  | .check t => h.launched = some t → c.state.isRunning = false
  | _ => True

instance (h : Requests) (c : Core) (k : Label) : Decidable (Honoured h c k) := by
  unfold Honoured
  split <;> infer_instance

/-- The number of steps a start loop has taken, as long as it has not stored `Starting`. -/
def LoopPc.early : LoopPc → Option Nat
  | .enter => some 0
  | .check => some 1
  | .test => some 2
  | .change .starting .load => some 3
  | .change .starting (.emit _) => some 4
  | .change .starting .store => some 5
  | _ => none

theorem LoopPc.early_cases {pc : LoopPc} {n : Nat} (h : pc.early = some n) :
    n = 0 ∧ pc = .enter ∨ n = 1 ∧ pc = .check ∨ n = 2 ∧ pc = .test ∨
      n = 3 ∧ pc = .change .starting .load ∨ n = 4 ∧ (∃ st, pc = .change .starting (.emit st)) ∨
      n = 5 ∧ pc = .change .starting .store := by
  unfold early at h
  split at h <;> cases h <;> simp

/-- The start loop of a `Start` is on its way to its first attempt. -/
structure Early (c : Core) (t : Tid) (n : Nat) : Prop where
  steps : (c.loops t).pc.early = some n
  first : (c.loops t).pc = .test → c.retryTimes = 0

theorem Early.lt {t : Tid} {n : Nat} (he : Early c t n) : n < 6 := by
  have hs := LoopPc.early_cases he.steps
  omega

/-- A start loop on its way only waits for the lock, and only before its first step. -/
theorem Early.enabled {s : Sys} {t : Tid} {n : Nat} (he : Early s.toCore t n)
    (hk : n ≠ 0 ∨ s.lock = .free) : (s.step cfg (.loop t .ok)).isSome := by
  simp only [Sys.step, Sys.loopStep]
  rcases LoopPc.early_cases he.steps with
    ⟨rfl, hp⟩ | ⟨rfl, hp⟩ | ⟨rfl, hp⟩ | ⟨rfl, hp⟩ | ⟨rfl, st, hp⟩ | ⟨rfl, hp⟩ <;> simp only [hp]
  · rw [hk.resolve_left fun h ↦ h rfl]
    rfl
  · split <;> rfl
  · split
    · rfl
    · split <;> rfl
  · rfl
  · split <;> rfl
  · rfl

/-- What a step does to a start loop on its way, unless it makes the attempt. -/
theorem Early.step {s s' : Sys} {t : Tid} {ch : Choice} {n : Nat} (he : Early s.toCore t n)
    (hu : s.stopByUser = false) (hr : (s.loops t).pc = .check → s.state.isRunning = false)
    (hst : s.loopStep cfg t ch = some s') :
    s.label (.loop t ch) = .stored t .starting ∨ Early s'.toCore t (n + 1) := by
  unfold Sys.loopStep at hst
  rcases LoopPc.early_cases he.steps with
    ⟨rfl, hp⟩ | ⟨rfl, hp⟩ | ⟨rfl, hp⟩ | ⟨rfl, hp⟩ | ⟨rfl, st, hp⟩ | ⟨rfl, hp⟩ <;>
    simp only [hp] at hst
  · obtain ⟨k, -, rfl⟩ := Option.map_eq_some_iff.mp hst
    exact .inr ⟨by simp [LoopPc.early], by simp⟩
  · rw [hr hp] at hst
    cases hst
    exact .inr ⟨by simp [Sys.goLoop, LoopPc.early], by simp [Sys.goLoop]⟩
  · rw [hu, if_neg Bool.false_ne_true, if_neg fun h ↦ h.2 (he.first hp)] at hst
    cases hst
    exact .inr ⟨by simp [Sys.goLoop, LoopPc.early], by simp [Sys.goLoop]⟩
  · cases hst
    exact .inr ⟨by simp [Sys.goLoop, LoopPc.early], by simp [Sys.goLoop]⟩
  · split at hst
    · cases hst
      exact .inr ⟨by simp [Sys.goLoop, LoopPc.early], by simp [Sys.goLoop]⟩
    · rename_i hn
      exact absurd rfl (Sys.emit_eq_none hn).2.1
  · left
    simp only [Sys.label, hp]

/-- The last `Start`, if it was issued while the process was not running, has left the flag not
set; the start loop launched since the last `Stop` has made an attempt or is on its way. -/
structure Requests.Kept (c : Core) (h : Requests) : Prop where
  flag : h.last = .start true → c.stopByUser = false
  loop : h.launched ≠ none → c.stopByUser = false
  launched : c.stopByUser = false → h.stopped = true → h.launched ≠ none
  early : ∀ t, h.launched = some t → h.attempted = true ∨ Early c t h.steps

theorem Requests.Kept.flag_move (hh : Kept c h) (ho : Honoured h c k) (hm : Move cfg c k c') :
    ((h.next c k).last = .start true → c'.stopByUser = false) ∧
      ((h.next c k).launched ≠ none → c'.stopByUser = false) ∧
      (c'.stopByUser = false → (h.next c k).stopped = true → (h.next c k).launched ≠ none) := by
  obtain ⟨hf, hl, hs, -⟩ := hh
  have hframe := next_frame (h := h) (c := c) (k := k)
  cases hm with
  | accept => exact ⟨fun _ ↦ rfl, fun _ ↦ rfl, fun _ _ ↦ Option.some_ne_none _⟩
  | refuse => exact ⟨fun hlast ↦ ho (Request.start.inj hlast), hl, hs⟩
  | stop => exact ⟨nofun, fun hn ↦ absurd rfl hn, nofun⟩
  | _ =>
      obtain ⟨hlast, hlaunched, hstopped⟩ := hframe (fun _ _ ↦ nofun) fun _ ↦ nofun
      rw [hlast, hlaunched, hstopped]
      exact ⟨hf, hl, hs⟩

/-- A step that is not one of the start loop launched last leaves its record alone. -/
theorem Requests.next_of_loop_ne {t : Tid} (ht : (h.next c k).launched = some t)
    (hk : k.loop ≠ some t) : h.launched = some t ∧ (h.next c k).attempted = h.attempted ∧
      (h.next c k).steps = h.steps := by
  have hframe := next_frame (h := h) (c := c) (k := k)
  have helse := next_else (h := h) (c := c) (k := k)
  cases k with
  | issue => exact ⟨ht, rfl, rfl⟩
  | start u accepted =>
      cases accepted with
      | false => exact ⟨ht, rfl, rfl⟩
      | true => exact absurd ht hk
  | stop => cases ht
  | _ =>
      rw [(hframe (fun _ _ ↦ nofun) fun _ ↦ nofun).2.1] at ht
      rw [helse (fun _ ↦ nofun) (fun _ _ ↦ nofun) fun _ ↦ nofun, if_neg fun hn ↦ hk (hn.2.trans ht)]
      exact ⟨ht, rfl, rfl⟩

/-- A step of the start loop launched last is counted. -/
theorem Requests.next_of_loop {t : Tid} (ht : (h.next c k).launched = some t)
    (hk : k.loop = some t) (ha : k ≠ .start t true) : h.launched = some t ∧
      (h.next c k).attempted = (h.attempted || k.isStarting) ∧
      (h.next c k).steps = h.steps + 1 := by
  have hi (u) : k ≠ .issue u := by
    rintro rfl
    cases hk
  have hp (u) : k ≠ .stop u := by
    rintro rfl
    cases hk
  have hs (u b) : k ≠ .start u b := by
    rintro rfl
    cases b with
    | false => cases hk
    | true =>
        cases hk
        exact ha rfl
  rw [(next_frame hs hp).2.1] at ht
  rw [next_else hi hs hp, if_pos ⟨by rw [ht]; exact Option.some_ne_none t, hk.trans ht.symm⟩]
  exact ⟨ht, rfl, rfl⟩

theorem Move.early_accept {t : Tid} (hm : Move cfg c (.start t true) c') : Early c' t 0 := by
  cases hm with
  | accept hk hi hl =>
      have he : ∀ {pc : LoopPc}, pc.stage = .entering → pc = .enter := by
        intro pc h
        cases pc with
        | change k ph => cases k <;> cases h
        | _ => first | rfl | cases h
      have hp := he hl
      constructor <;> simp [hp, LoopPc.early]

/-- The steps of others keep a start loop on its way. -/
theorem Early.move {t : Tid} {n : Nat} (he : Early c t n) (hc : c.Inv) (hk : k.loop ≠ some t)
    (hm : Move cfg c k c') : Early c' t n := by
  have hl := hm.loops_eq hk
  have ht : (c.loops t).stage ≠ .idle := by
    rcases LoopPc.early_cases he.steps with
      ⟨-, hp⟩ | ⟨-, hp⟩ | ⟨-, hp⟩ | ⟨-, hp⟩ | ⟨-, st, hp⟩ | ⟨-, hp⟩ <;>
      rw [Loop.stage, hp] <;> rintro ⟨⟩
  have hr : c'.retryTimes = c.retryTimes := by
    have ho := fun u hu ↦ hc.turns.one t u ht hu
    cases hm <;> first | rfl | grind -linarith [Label.loop]
  exact ⟨by rw [hl]; exact he.steps, by rw [hl, hr]; exact he.first⟩

theorem Requests.Kept.early_step {s s' : Sys} {a : Act} (hc : s.toCore.Inv)
    (hh : Kept s.toCore h) (ho : Honoured h s.toCore (s.label a))
    (hst : s.step cfg a = some s') (t : Tid)
    (ht : (h.next s.toCore (s.label a)).launched = some t) :
    (h.next s.toCore (s.label a)).attempted = true ∨
      Early s'.toCore t (h.next s.toCore (s.label a)).steps := by
  have hm := hc.step_move hst
  by_cases hk : (s.label a).loop = some t
  · by_cases ha : s.label a = .start t true
    · rw [ha] at hm ⊢
      exact .inr hm.early_accept
    · obtain ⟨ch, rfl⟩ := (Sys.label_loop hk).resolve_right ha
      obtain ⟨hl, hat, hn⟩ := next_of_loop ht hk ha
      rw [hat, hn]
      rcases hh.early t hl with hat | he
      · exact .inl (by rw [hat]; rfl)
      · have hu := hh.loop (by rw [hl]; exact Option.some_ne_none t)
        have hr : (s.loops t).pc = .check → s.state.isRunning = false := by
          intro hp
          have hlb : s.label (.loop t ch) = .check t := by simp only [Sys.label, hp]
          rw [hlb] at ho
          exact ho hl
        rcases he.step hu hr hst with hlb | he
        · left
          rw [hlb]
          exact Bool.or_true _
        · exact .inr he
  · obtain ⟨hl, hat, hn⟩ := next_of_loop_ne ht hk
    rw [hat, hn]
    exact (hh.early t hl).imp_right fun he ↦ he.move hc hk hm

theorem requests_kept {w : Sys × Requests} (hw : (requests cfg).Reach (heeds Honoured) w) :
    Requests.Kept w.1.toCore w.2 := by
  refine observed_step_invariant (P := fun s h ↦ Requests.Kept s.toCore h) ?_ ?_ hw
  · exact ⟨nofun, fun h ↦ absurd rfl h, nofun, nofun⟩
  · intro s h a s' hc hp ho hst
    obtain ⟨hf, hl, hs⟩ := hp.flag_move ho (hc.step_move hst)
    exact ⟨hf, hl, hs, hp.early_step hc ho hst⟩

/-- A step that ends a start loop, or leaves the retry loop of `run`, because `stopByUser` is
set. -/
def Sys.obeysStop (s : Sys) : Act → Prop
  | .loop t _ => s.stopByUser = true ∧ ((s.loops t).pc = .test ∨ (s.loops t).pc = .rested)
  | _ => False

/-- **No start request is lost** that does not come while an old start loop is about to obey a
`Stop`.  If the last request is a `Start` issued while the process was not running, no start
loop ends as stopped by the user; and if there was a `Stop` before, then a `Start` since has
launched a start loop, which stores `Starting` within its first six steps and has to wait for
nothing but the lock, before the first of them. -/
theorem start_kept {w : Sys × Requests} (hw : (requests cfg).Reach (heeds Honoured) w)
    (hl : w.2.last = .start true) :
    (∀ a, ¬w.1.obeysStop a) ∧ (w.2.stopped = true → ∃ t, w.2.launched = some t ∧
      (w.2.attempted = true ∨ w.2.steps < 6 ∧
        (w.2.steps ≠ 0 ∨ w.1.lock = .free → (w.1.step cfg (.loop t .ok)).isSome))) := by
  have hh := requests_kept hw
  have hu := hh.flag hl
  constructor
  · intro a ha
    cases a with
    | loop t ch =>
        have hut := ha.1
        rw [hu] at hut
        cases hut
    | _ => exact ha
  · intro hs
    obtain ⟨t, ht⟩ := Option.ne_none_iff_exists'.mp (hh.launched hu hs)
    exact ⟨t, ht, (hh.early t ht).imp_right fun he ↦ ⟨he.lt, he.enabled⟩⟩

set_option maxRecDepth 4000 in
/-- Started, run, stopped, reaped, and started again. -/
theorem start_kept_again : ∃ w : Sys × Requests, (requests {}).Reach (heeds Honoured) w ∧
    w.2.last = .start true ∧ w.2.stopped = true ∧ (∀ a, ¬w.1.obeysStop a) ∧
      ∃ t, w.2.launched = some t := by
  obtain ⟨w, hw, hp⟩ := Machine.exists_reach (m := requests {})
    (fun w a ↦ Honoured w.2 w.1.toCore (w.1.label a))
    (fun w ↦ w.2.last = .start true ∧ w.2.stopped = true)
    (List.flatten [startAndRun, [.call 1 (.stop true), .caller 1 .ok, .exit 0 (some 0)],
      .replicate 4 (.waiter 0), .replicate 12 (.loop 0 .ok),
      [.call 2 (.start true), .caller 2 .ok]])
    (fun w a _ hp ↦ of_decide_eq_true hp) (by decide +kernel)
  obtain ⟨hl, hs⟩ := of_decide_eq_true hp
  obtain ⟨hk, hn⟩ := start_kept hw hl
  obtain ⟨t, ht, -⟩ := hn hs
  exact ⟨w, hw, hl, hs, hk, t, ht⟩

set_option maxRecDepth 4000 in
/-- A restart, that is a `Stop` that waits and a `Start`: the child is gone, but the start loop
is not, so the `Start` is refused and the loop obeys the `Stop`. -/
theorem start_lost : ¬∀ (cfg : Config) (w : Sys × Requests),
    (requests cfg).Reachable w → w.2.last = .start true → ∀ a, ¬w.1.obeysStop a := by
  intro h
  obtain ⟨w, hw, hp⟩ := Machine.exists_reachable (m := requests {})
    (fun w ↦ w.2.last = .start true ∧ w.1.stopByUser = true ∧ (w.1.loops 0).pc = .test)
    (List.flatten [startAndRun, [.call 1 .restart], .replicate 6 (.caller 1 .ok),
      [.exit 0 (some 0)], .replicate 4 (.waiter 0), .replicate 2 (.caller 1 .ok),
      .replicate 8 (.loop 0 .ok)]) (by decide +kernel)
  obtain ⟨hl, hu, hpc⟩ := of_decide_eq_true hp
  exact h {} w hw hl (.loop 0 .ok) ⟨hu, .inl hpc⟩

end Supervisord.Process
