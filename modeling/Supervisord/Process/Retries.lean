import Supervisord.Process.Callback
import Supervisord.Process.Idle

/-!
# How often `run` tries

`run` counts its attempts in `retryTimes`, at the head of its retry loop, and looks at the count in
two places: where `cmd.Start` has failed and where a child has exited too early.  `run_retries` says
that whatever happens it makes at most `max 1 startretries` attempts and comes to an end, and that
it makes all of them, and gives up, if no `Stop` and no success keeps it from it; but the setting
is made an `int32`, so that this holds only of one that fits (`run_retries_wraps`).
-/

namespace Supervisord.Process

/-- The number of attempts `run` makes at most. -/
def Config.maxAttempts (cfg : Config) : Nat := (max 1 cfg.getStartRetries).toNat

/-- The `startretries` setting asks for as many attempts as what `getStartRetries` makes of it. -/
def Config.RetriesFit (cfg : Config) : Prop :=
  cfg.startretries < 2 ^ 31 ∧ (cfg.startretries < -2 ^ 31 → cfg.getStartRetries ≤ 1)

instance (cfg : Config) : Decidable cfg.RetriesFit := inferInstanceAs (Decidable (_ ∧ _))

theorem Config.retriesFit_iff (cfg : Config) :
    cfg.RetriesFit ↔ cfg.maxAttempts = (max 1 cfg.startretries).toNat := by
  unfold RetriesFit maxAttempts
  have hlt : cfg.getStartRetries < 2 ^ 31 := Int.bmod_lt (Nat.two_pow_pos 32)
  by_cases hl : -2 ^ 31 ≤ cfg.startretries
  · by_cases hu : cfg.startretries < 2 ^ 31
    · have heq : cfg.getStartRetries = cfg.startretries := Int.bmod_eq_of_le hl hu
      exact iff_of_true ⟨hu, fun h ↦ absurd hl (Int.not_le.mpr h)⟩ (by rw [heq])
    · -- an `int32` is too small
      exact iff_of_false (fun h ↦ hu h.1) (by omega)
  · constructor
    · rintro ⟨-, h⟩
      have hle := h (Int.not_le.mp hl)
      omega
    · intro h
      exact ⟨by omega, fun _ ↦ by omega⟩

theorem Config.maxAttempts_pos (cfg : Config) : 1 ≤ cfg.maxAttempts := by
  unfold maxAttempts
  omega

theorem Config.lt_maxAttempts {cfg : Config} {n : Nat} (h : ¬cfg.getStartRetries ≤ n) :
    n < cfg.maxAttempts := by
  unfold maxAttempts
  omega

theorem Config.maxAttempts_le {cfg : Config} {n : Nat} (h : cfg.getStartRetries ≤ n) (hn : 1 ≤ n) :
    cfg.maxAttempts ≤ n := by
  unfold maxAttempts
  omega

/-! ## The trace of an invocation -/

/-- What `run` does: it executes `cmd.Start`, or it stores a state. -/
inductive Mark where
  | attempt
  | stored (st : State)
deriving DecidableEq

/-- The latest invocation of `run`. -/
structure Tries where
  /-- A `Stop` has been requested, in this invocation or before. -/
  stopped : Bool := false
  /-- Nothing has kept it from trying again: it was not entered with the process running or
  `stopByUser` set by an earlier `Stop`, and in it no `Stop` was requested, each command could be
  created, and no attempt reached `Running`, which was not stored before the exit was judged. -/
  quiet : Bool := false
  /-- The steps it has taken. -/
  steps : Nat := 0
  /-- What it has done, oldest first. -/
  trace : List Mark := []

/-- The spawn attempts made. -/
def Tries.attempts (h : Tries) : Nat := h.trace.count .attempt

/-- The step is an execution of `cmd.Start`. -/
def Label.attempts (c : Core) : Label → Bool
  | .spawned _ => true
  | .run t => (c.loops t).pc = .spawn
  | _ => false

def Label.marks (c : Core) : Label → List Mark
  | .stored _ k => [.stored k.target]
  | k => if k.attempts c then [.attempt] else []

/-- The step keeps `run` from trying again. -/
def Label.disturbs : Label → Bool
  | .stop _ | .stopping _ | .running _ | .stored _ .running | .stored _ .createFatal => true
  | _ => false

def Tries.next (h : Tries) (c : Core) (k : Label) : Tries :=
  match k with
  | .enter _ => { h with
      quiet := !h.stopped || !c.stopByUser && !c.state.isRunning
      steps := 0
      trace := [] }
  | k => {
      stopped := h.stopped || match k with | .stop _ | .stopping _ => true | _ => false
      quiet := h.quiet && !k.disturbs
      steps := if k.loop.isSome then h.steps + 1 else h.steps
      trace := h.trace ++ k.marks c }

/-- A process whose latest invocation of `run` is recorded. -/
def tries (cfg : Config) : Machine (Sys × Tries) Act := observed cfg {} Tries.next

/-! ## The attempts -/

/-- What an execution of `cmd.Start` makes of the start loop, and that nothing else ends the stage
but a command that cannot be created. -/
structure Attempt (cfg : Config) (c c' : Core) (k : Label) : Prop where
  made : ∀ t, k = .run t → (c.loops t).pc = .spawn → (c.loops t).stage = .made ∧
    (c'.loops t).stage =
      .failed (if cfg.getStartRetries ≤ c.retryTimes then .spawnFatal else .spawnBackoff)
  other : ∀ t, k = .run t → (c.loops t).stage = .made → (c.loops t).pc ≠ .spawn →
    (c'.loops t).stage = .made ∨ (c'.loops t).stage = .failed .createFatal

theorem Sys.step_attempt {cfg : Config} {s s' : Sys} {a : Act} (hst : s.step cfg a = some s') :
    Attempt cfg s.toCore s'.toCore (s.label a) := by
  have hloop {t : Tid} (hk : s.label a = .run t) : ∃ ch, a = .loop t ch :=
    (Sys.label_loop (s := s) (a := a) (t := t) (by rw [hk]; rfl)).resolve_right
      (by rw [hk]; exact nofun)
  constructor
  · intro t hk hp
    obtain ⟨ch, rfl⟩ := hloop hk
    refine ⟨by rw [Loop.stage, hp]; rfl, ?_⟩
    simp only [label, hp] at hk
    simp only [step, loopStep, hp] at hst
    cases ch with
    | ok => simp at hk
    | fail =>
        cases hst
        simp only [goLoop, Function.update_self, Loop.stage]
        split <;> rfl
    | timeout => cases hst
  · intro t hk hs hne
    obtain ⟨ch, rfl⟩ := hloop hk
    simp only [step, loopStep] at hst
    cases hp : (s.loops t).pc with
    | spawn => exact absurd hp hne
    | setUser =>
        simp only [hp] at hst
        cases ch <;> cases hst
        · exact .inl (by simp [goLoop, Loop.stage, LoopPc.stage])
        · exact .inr (by simp [goLoop, Loop.stage, LoopPc.stage])
    | setStdoutLog | setStderrLog =>
        simp only [hp] at hst
        cases hst
        exact .inl (by simp [goLoop, Loop.stage, LoopPc.stage])
    | change k ph => rw [Loop.stage, hp] at hs; cases k <;> cases hs
    | _ => rw [Loop.stage, hp] at hs; cases hs

/-- What `retryTimes`, which is `r`, and the number `n` of the attempts made in the invocation are
at a stage: an attempt that is about to be made is counted in `retryTimes` already. -/
def Stage.Counts (cfg : Config) (r n : Nat) : Stage → Prop
  | .checking => n = 0
  | .head | .pausing | .paused | .trying | .failed .spawnBackoff => r = n ∧ n < cfg.maxAttempts
  | .making | .made => r = n + 1 ∧ n < cfg.maxAttempts
  | .failed .spawnFatal | .exhausted => n = cfg.maxAttempts
  | .launching | .born | .watching | .seen | .settling | .judging | .excused | .judged _ =>
    r = n ∧ 1 ≤ n ∧ n ≤ cfg.maxAttempts
  | .refusing | .failed _ | .failing | .over => n ≤ cfg.maxAttempts
  | .idle | .entering | .rested | .deciding | .ending => True

theorem Stage.Counts.le {cfg : Config} {r n : Nat} {s : Stage} (hn : s.Counts cfg r n)
    (hs : s.inRun) : n ≤ cfg.maxAttempts := by
  cases s with
  | checking => exact hn ▸ Nat.zero_le _
  | failed k => cases k <;> simp only [Counts] at hn <;> omega
  | idle | entering | rested | deciding | ending => cases hs
  | _ =>
      simp only [Counts] at hn
      omega

/-- The number of attempts after a step. -/
def Label.tally (c : Core) (n : Nat) (k : Label) : Nat := if k.attempts c then n + 1 else n

/-- `cmd.Start` is executed where the command has been made. -/
theorem Attempt.attempts_eq_false {cfg : Config} {c c' : Core} {t : Tid}
    (ha : Attempt cfg c c' (.run t)) (hs : (c.loops t).stage ≠ .made) :
    (Label.run t).attempts c = false :=
  decide_eq_false fun hp ↦ hs (ha.made t rfl hp).1

/-- A step that leaves the stage as it is does not execute `cmd.Start`. -/
theorem Attempt.attempts_of_eq {cfg : Config} {c c' : Core} {t : Tid}
    (ha : Attempt cfg c c' (.run t)) (hs : (c'.loops t).stage = (c.loops t).stage) :
    (Label.run t).attempts c = false := by
  refine decide_eq_false fun hp ↦ ?_
  obtain ⟨hmade, hfailed⟩ := ha.made t rfl hp
  rw [hs, hmade] at hfailed
  cases hfailed

/-- What fails before `cmd.Start` is the creation of the command. -/
theorem Attempt.eq_createFatal {cfg : Config} {c : Core} {t : Tid} {l : Loop} {j : Change}
    (ha : Attempt cfg c (c.setLoop t l) (.run t))
    (hs : (c.loops t).stage = .made ∨ (c.loops t).stage = .making ∧ j = .createFatal)
    (hl : l.stage = .failed j) (hp : (c.loops t).pc ≠ .spawn) : j = .createFatal := by
  rcases hs with hs | ⟨-, hj⟩
  · rcases ha.other t rfl hs hp with h | h
    · simp only [Function.update_self, hl, reduceCtorEq] at h
    · simpa only [Function.update_self, hl, Stage.failed.injEq] using h
  · exact hj

/-- A step of the start loop itself. -/
theorem Stage.Counts.own {cfg : Config} {c c' : Core} {k : Label} {n : Nat} {t : Tid}
    (hn : (c.loops t).stage.Counts cfg c.retryTimes n) (ha : Attempt cfg c c' k)
    (hm : Move cfg c k c') (hk : k.loop = some t) (hne : ∀ u, k ≠ .enter u) :
    (c'.loops t).stage.Counts cfg c'.retryTimes (k.tally c n) := by
  have hpos := cfg.maxAttempts_pos
  cases hm with
  | enter => exact absurd rfl (hne _)
  | accept hfree hi hl =>
      cases hk
      simp only [Function.update_self, hl, Counts]
  | loop hs =>
      cases hk
      have hno := ha.attempts_of_eq (by simp only [Function.update_self, hs])
      simp only [Function.update_self, hs, Label.tally, hno]
      exact hn
  | pass hs hu hl =>
      cases hk
      rw [hs] at hn
      simp only [Function.update_self, hl]
      split <;> exact hn
  | pause hs hl | resume hfree hs hl | release hs hl | see hs hg hl | tell hs hl
  | relock hfree hs hl | verdict hs hl =>
      cases hk
      have hno := ha.attempts_eq_false (by rw [hs]; exact nofun)
      rw [hs] at hn
      simp only [Function.update_self, hl, Label.tally, hno]
      exact hn
  | leave hs hl | finish hfree hs hl =>
      cases hk
      simp only [Function.update_self, hl, Counts]
  | rest hs hl | decide hs hl =>
      cases hk
      simp only [Function.update_self, hl]
      split <;> trivial
  | create hs hl | retry hs hl | up hs hl | excuse hs hr hl | blame hs hr hl =>
      cases hk
      rw [hs] at hn
      simp only [Function.update_self, hl]
      exact hn
  | @fail t l j hs hl =>
      cases hk
      by_cases hp : (c.loops t).pc = .spawn
      · -- `cmd.Start` has failed
        obtain ⟨hmade, hfailed⟩ := ha.made t rfl hp
        rw [hmade] at hn
        obtain ⟨htimes, hlt⟩ := hn
        rw [hfailed, Label.tally, Label.attempts, if_pos (decide_eq_true hp)]
        by_cases hr : cfg.getStartRetries ≤ c.retryTimes
        · rw [if_pos hr]
          have hmax := Config.maxAttempts_le hr (htimes ▸ Nat.le_add_left 1 n)
          exact Nat.le_antisymm hlt (htimes ▸ hmax)
        · rw [if_neg hr]
          exact ⟨htimes, htimes ▸ Config.lt_maxAttempts hr⟩
      · obtain rfl := ha.eq_createFatal hs hl hp
        have hle : n ≤ cfg.maxAttempts := by
          rcases hs with hs | ⟨hs, -⟩ <;> rw [hs] at hn <;> exact Nat.le_of_lt hn.2
        simp only [Function.update_self, hl]
        rwa [Label.tally, Label.attempts, if_neg (by simpa using hp)]
  | spawn hs hl =>
      cases hk
      rw [hs] at hn
      obtain ⟨hr, hlt⟩ := hn
      rcases hl with ⟨hl, -⟩ | ⟨hl, -⟩
      · simp only [Function.update_self, hl]
        exact ⟨hr, Nat.le_add_left 1 n, hlt⟩
      · simp only [Function.update_self, hl]
        exact ⟨hr, Nat.le_add_left 1 n, hlt⟩
  | refused hs hr hl | busy hs hl | clear hs hr hl | quit hs hu hl | starting hs hl
  | createFatal hs hl | spawnFatal hs hl | closeExited hs hl | closeStopped hs hl
  | retryFatal hs hl | gaveUp hs hl =>
      cases hk
      rw [hs] at hn
      simp only [Function.update_self, hl, Counts, Label.tally, Label.attempts,
        Bool.false_eq_true, if_false] at hn ⊢
      omega
  | backoff hs hr hl =>
      cases hk
      rw [hs] at hn
      simp only [Function.update_self, hl]
      exact ⟨hn.1, hn.1 ▸ Config.lt_maxAttempts hr⟩
  | exhaust hs hr hl =>
      cases hk
      rw [hs] at hn
      obtain ⟨rfl, hpos, hle⟩ := hn
      simp only [Function.update_self, hl]
      exact Nat.le_antisymm hle (Config.maxAttempts_le hr hpos)
  | _ => cases hk

/-! ## The steps -/

/-- How many steps `changeStateTo` has left behind this one. -/
def Phase.rank : Phase → Nat
  | .load => 2
  | .emit _ => 1
  | .store => 0

/-- How many steps of its own `run` can take before the next attempt, or to its end. -/
def LoopPc.rank : LoopPc → Nat
  | .change .running ph => 26 + ph.rank
  | .release => 25
  | .poll => 24
  | .seen => 23
  | .settle => 22
  | .relock => 21
  | .classify => 20
  | .verdict => 19
  | .change .exited ph | .change .stopped ph | .change .exitBackoff ph
  | .change .spawnBackoff ph => 16 + ph.rank
  | .check => 16
  | .test => 15
  | .pause => 14
  | .paused => 13
  | .change .starting ph => 10 + ph.rank
  | .create => 9
  | .setUser => 8
  | .setStdoutLog => 7
  | .setStderrLog => 6
  | .spawn => 5
  | .change .createFatal ph | .change .spawnFatal ph | .change .retryFatal ph => 2 + ph.rank
  | .fatalCb | .runningCb => 1
  | .off | .enter | .leave | .rested | .auto | .finish | .done | .crashed => 0

theorem LoopPc.eq_check {pc : LoopPc} (h : pc.stage = .checking) : pc = .check := by
  cases pc with
  | change k ph => cases k <;> cases h
  | check => rfl
  | _ => cases h

theorem LoopPc.rank_le (pc : LoopPc) : pc.rank ≤ 28 := by
  cases pc with
  | change k ph => cases k <;> cases ph <;> simp [rank, Phase.rank]
  | _ => simp [rank]

namespace Sys

variable {cfg : Config} {s s' : Sys} {t : Tid} {ch : Choice}

/-- A step of `run` lowers its rank, leaves `run`, or is an attempt. -/
theorem loopStep_rank (h : s.loopStep cfg t ch = some s') (hr : (s.loops t).stage.inRun) :
    (s'.loops t).stage.inRun = false ∨ (s.loops t).pc = .spawn ∨
      (s'.loops t).pc.rank < (s.loops t).pc.rank := by
  have hgo (s₁ : Sys) (p pc : LoopPc) (hlt : pc.rank < p.rank) :
      ((s₁.goLoop t pc).loops t).stage.inRun = false ∨ p = .spawn ∨
        ((s₁.goLoop t pc).loops t).pc.rank < p.rank := by
    simp only [goLoop, Function.update_self]
    exact .inr (.inr hlt)
  rw [Loop.stage] at hr
  unfold loopStep at h
  cases hp : (s.loops t).pc with
  | spawn => exact .inr (.inl rfl)
  | leave =>
      simp only [hp] at h
      cases h
      exact .inl (by simp [goLoop, Loop.stage, LoopPc.stage, Stage.inRun])
  | off | done | crashed => simp [hp] at h
  | enter | rested | auto | finish =>
      rw [hp] at hr
      cases hr
  | change k ph =>
      cases ph with
      | load =>
          simp only [hp] at h
          cases h
          refine hgo _ _ _ ?_
          cases k <;> simp [LoopPc.rank, Phase.rank]
      | emit old =>
          simp only [hp] at h
          split at h <;> cases h <;> refine hgo _ _ _ ?_ <;>
            cases k <;> simp [LoopPc.rank, Phase.rank]
      | store =>
          simp only [hp] at h
          cases h
          cases k with
          | exitBackoff =>
              refine hgo _ _ _ ?_
              split <;> simp [LoopPc.rank, Phase.rank]
          | _ => exact hgo _ _ _ (by simp [LoopPc.rank, Phase.rank])
  | create =>
      cases ch <;> simp only [hp] at h <;> cases h
      · exact .inr (.inr (by simp [LoopPc.rank]))
      · exact hgo _ _ _ (by simp [LoopPc.rank, Phase.rank])
  | setUser =>
      cases ch <;> simp only [hp] at h <;> cases h <;>
        exact hgo _ _ _ (by simp [LoopPc.rank, Phase.rank])
  | paused | relock =>
      simp only [hp, Option.map_eq_some_iff] at h
      obtain ⟨_, _, rfl⟩ := h
      exact hgo _ _ _ (by simp [LoopPc.rank, Phase.rank])
  | verdict =>
      simp only [hp] at h
      cases h
      refine hgo _ _ _ ?_
      split <;> simp [LoopPc.rank, Phase.rank]
  | _ =>
      simp only [hp] at h
      repeat' split at h
      all_goals cases h
      all_goals exact hgo _ _ _ (by simp [LoopPc.rank, Phase.rank])

end Sys

/-! ## No step is refused -/

/-- `run` waits for the lock, for the exit of the child, or for its monitor. -/
def Sys.Waits (s : Sys) (t : Tid) : Prop :=
  ((s.loops t).pc = .paused ∨ (s.loops t).pc = .relock) ∧ s.lock ≠ .free ∨
    (s.loops t).pc = .poll ∧ s.waiters (s.loops t).att ≠ .done ∧ s.state.isRunning = true ∨
    (s.loops t).pc = .settle ∧ (s.monitors (s.loops t).att).monitorExited = false

theorem Sys.loopStep_isSome {cfg : Config} {s : Sys} {t : Tid} (hr : (s.loops t).stage.inRun)
    (hn : (s.loops t).pc ≠ .crashed) :
    (∃ s', s.step cfg (.loop t .ok) = some s') ∨ s.Waits t := by
  rw [Loop.stage] at hr
  unfold Waits
  simp only [step, loopStep]
  cases hp : (s.loops t).pc with
  | crashed => exact absurd hp hn
  | off | enter | rested | auto | finish | done => rw [hp] at hr; cases hr
  | paused | relock =>
      by_cases hk : s.lock = .free
      · exact .inl (by simp [hk, RWLock.lock])
      · exact .inr (.inl ⟨by simp, hk⟩)
  | poll =>
      by_cases hg : s.waiters (s.loops t).att = .done ∨ s.state.isRunning = false
      · exact .inl ⟨_, if_pos hg⟩
      · exact .inr (.inr (.inl ⟨rfl, fun h ↦ hg (.inl h), by simpa using fun h ↦ hg (.inr h)⟩))
  | settle =>
      by_cases hg : (s.monitors (s.loops t).att).monitorExited = true
      · exact .inl ⟨_, if_pos hg⟩
      · exact .inr (.inr (.inr ⟨rfl, by simpa using hg⟩))
  | change k ph =>
      cases ph with
      | emit old =>
          left
          dsimp only
          split <;> exact ⟨_, rfl⟩
      | load | store => exact .inl ⟨_, rfl⟩
  | _ =>
      left
      dsimp only
      first
        | exact ⟨_, rfl⟩
        | (repeat' split) <;> exact ⟨_, rfl⟩

theorem Sys.loopStep_crashed {cfg : Config} {s s' : Sys} {t : Tid} {ch : Choice}
    (h : s.loopStep cfg t ch = some s') (hc : (s'.loops t).pc = .crashed) :
    s.pid = none ∧ (s.loops t).stage.hasChild := by
  have hgo (s₁ : Sys) (pc : LoopPc) (hpc : pc ≠ .crashed) : ((s₁.goLoop t pc).loops t).pc ≠
      .crashed := by
    simp only [goLoop, Function.update_self]
    exact hpc
  unfold loopStep at h
  cases hp : (s.loops t).pc with
  | change k ph =>
      cases ph with
      | emit old =>
          simp only [hp] at h
          split at h <;> cases h
          · exact absurd hc (hgo _ _ (by simp))
          · rename_i he
            rw [Loop.stage, hp]
            exact emit_crash he _
      | load =>
          simp only [hp] at h
          cases h
          exact absurd hc (hgo _ _ (by simp))
      | store =>
          simp only [hp] at h
          cases h
          refine absurd hc ?_
          cases k with
          | exitBackoff =>
              refine hgo _ _ ?_
              split <;> simp
          | _ => exact hgo _ _ (by simp)
  | off | done | crashed => simp [hp] at h
  | create | setUser | spawn =>
      cases ch <;> simp only [hp] at h <;> cases h <;> refine absurd hc ?_
      all_goals
        simp only [spawned, goLoop, Function.update_self]
        intro hpc
        try split at hpc
        all_goals cases hpc
  | enter | paused | relock =>
      simp only [hp, Option.map_eq_some_iff] at h
      obtain ⟨_, _, rfl⟩ := h
      simp [goLoop] at hc
  | rested | auto | verdict =>
      simp only [hp] at h
      repeat' split at h
      all_goals cases h
      all_goals exact absurd hc (hgo _ _ (by simp))
  | _ =>
      simp only [hp] at h
      repeat' split at h
      all_goals cases h
      all_goals exact absurd hc (hgo _ _ (by simp))

/-- `run` never dereferences nil. -/
theorem reachable_not_crashed {cfg : Config} {s : Sys} (hs : (machine cfg).Reachable s) (t : Tid) :
    (s.loops t).pc ≠ .crashed := by
  refine hs.invariant (P := fun s ↦ (s.loops t).pc ≠ .crashed) LoopPc.noConfusion ?_
  intro s a s' hs hp _ hst hcrash
  have hc := reachable_inv hs
  have hm := hc.step_move hst
  by_cases hk : (s.label a).loop = some t
  · rcases Sys.label_loop hk with ⟨ch, rfl⟩ | hstart
    · obtain ⟨hpid, hchild⟩ := Sys.loopStep_crashed hst hcrash
      rw [hc.child.pid hchild] at hpid
      cases hpid
    · rw [hstart] at hm
      have hsteps := (Move.early_accept hm).steps
      rw [hcrash] at hsteps
      cases hsteps
  · rw [hm.loops_eq hk] at hcrash
    exact hp hcrash

/-! ## What an undisturbed invocation does -/

/-- What `run` does in `n` attempts each of which is followed by another. -/
def rounds : Nat → List Mark
  | 0 => []
  | n + 1 => rounds n ++ [.stored .starting] ++ [.attempt] ++ [.stored .backoff]

attribute [grind =] rounds

/-- `run` has given up after `n` attempts that have all failed. -/
def Fails (n : Nat) (tr : List Mark) : Prop :=
  ∃ tr₀, tr = tr₀ ++ [.stored .fatal] ∧ (tr₀ = rounds n ∨ tr₀ ++ [.stored .backoff] = rounds n)

/-- What `run` has done at a stage, and what the state and `stopByUser` are, if nothing has kept
it from trying again. -/
def Stage.Quiet (cfg : Config) (st : State) (u : Bool) (n : Nat) (tr : List Mark) : Stage → Prop
  | .checking => u = false ∧ st.isRunning = false ∧ tr = []
  | .head | .pausing | .paused | .trying => u = false ∧ tr = rounds n
  | .making | .made => u = false ∧ (st = .starting ∨ st = .stopped) ∧
      tr = rounds n ++ [.stored .starting]
  | .launching | .born | .watching | .seen | .settling | .judging => u = false ∧
      (st = .starting ∨ st = .stopped) ∧ tr ++ [.stored .backoff] = rounds n
  | .failed .spawnFatal | .failed .spawnBackoff | .judged .exitBackoff =>
      u = false ∧ tr ++ [.stored .backoff] = rounds n
  | .exhausted => tr = rounds n
  | .failing | .over => st = .fatal ∧ n = cfg.maxAttempts ∧ Fails n tr
  | .refusing | .excused | .judged _ => False
  | .failed _ | .idle | .entering | .rested | .deciding | .ending => True

/-- The steps of an invocation that nothing disturbs. -/
structure Label.Calm (k : Label) : Prop where
  ne_enter : ∀ t, k ≠ .enter t
  disturbs : k.disturbs = false

/-- A step of the start loop itself. -/
theorem Stage.Quiet.own {cfg : Config} {c c' : Core} {k : Label} {n : Nat} {tr : List Mark}
    {t : Tid} (hq : (c.loops t).stage.Quiet cfg c.state c.stopByUser n tr)
    (hn : (c.loops t).stage.Counts cfg c.retryTimes n) (ha : Attempt cfg c c' k)
    (hm : Move cfg c k c') (hk : k.loop = some t) (hcalm : k.Calm) :
    (c'.loops t).stage.Quiet cfg c'.state c'.stopByUser (k.tally c n) (tr ++ k.marks c) := by
  obtain ⟨hne, hd⟩ := hcalm
  cases hm with
  | enter => exact absurd rfl (hne _)
  | accept hfree hi hl =>
      cases hk
      simp only [Function.update_self, hl, Quiet]
  | loop hs =>
      cases hk
      have hno := ha.attempts_of_eq (by simp only [Function.update_self, hs])
      simp only [Function.update_self, hs, Label.tally, Label.marks, hno, Bool.false_eq_true,
        if_false, List.append_nil]
      exact hq
  | pass hs hu hl =>
      cases hk
      rw [hs] at hq
      obtain ⟨hu, rfl⟩ := hq
      simp only [Function.update_self, hl]
      split <;> exact ⟨hu, List.append_nil _⟩
  | pause hs hl | resume hfree hs hl | release hs hl | see hs hg hl | tell hs hl
  | relock hfree hs hl =>
      cases hk
      have hno := ha.attempts_eq_false (by rw [hs]; exact nofun)
      rw [hs] at hq
      simp only [Function.update_self, hl, Label.tally, Label.marks, hno, Bool.false_eq_true,
        if_false, List.append_nil]
      exact hq
  | leave hs hl | finish hfree hs hl =>
      cases hk
      simp only [Function.update_self, hl, Quiet]
  | rest hs hl | decide hs hl =>
      cases hk
      simp only [Function.update_self, hl]
      split <;> trivial
  | create hs hl | gaveUp hs hl =>
      cases hk
      rw [hs] at hq
      simp only [Function.update_self, hl, Label.marks, Label.attempts, Bool.false_eq_true,
        if_false, List.append_nil]
      exact hq
  | clear hs hr hl =>
      cases hk
      rw [hs] at hq hn
      obtain ⟨hu, -, rfl⟩ := hq
      obtain rfl : n = 0 := hn
      simp only [Function.update_self, hl]
      exact ⟨hu, rfl⟩
  | starting hs hl =>
      cases hk
      rw [hs] at hq
      obtain ⟨hu, rfl⟩ := hq
      simp only [Function.update_self, hl]
      exact ⟨hu, .inl rfl, rfl⟩
  | spawn hs hl =>
      cases hk
      rw [hs] at hq
      obtain ⟨hu, hst, rfl⟩ := hq
      rcases hl with ⟨hl, -⟩ | ⟨hl, -⟩
      · simp only [Function.update_self, hl]
        exact ⟨hu, hst, rfl⟩
      · simp only [Function.update_self, hl]
        exact ⟨hu, hst, rfl⟩
  | @fail t l j hs hl =>
      cases hk
      by_cases hp : (c.loops t).pc = .spawn
      · -- `cmd.Start` has failed
        obtain ⟨hmade, hfailed⟩ := ha.made t rfl hp
        rw [hmade] at hq
        obtain ⟨hu, -, rfl⟩ := hq
        rw [hfailed]
        simp only [Label.tally, Label.marks, Label.attempts, hp, decide_true, if_true]
        by_cases hr : cfg.getStartRetries ≤ c.retryTimes
        · rw [if_pos hr]
          exact ⟨hu, rfl⟩
        · rw [if_neg hr]
          exact ⟨hu, rfl⟩
      · obtain rfl := ha.eq_createFatal hs hl hp
        simp only [Function.update_self, hl, Quiet]
  | spawnFatal hs hl =>
      cases hk
      rw [hs] at hq hn
      simp only [Function.update_self, hl]
      exact ⟨rfl, hn, tr, rfl, .inr hq.2⟩
  | retryFatal hs hl =>
      cases hk
      rw [hs] at hq hn
      simp only [Function.update_self, hl]
      exact ⟨rfl, hn, tr, rfl, .inl hq⟩
  | blame hs hr hl =>
      cases hk
      rw [hs] at hq
      simp only [Function.update_self, hl, Label.marks, Label.attempts, Bool.false_eq_true,
        if_false, List.append_nil]
      exact ⟨hq.1, hq.2.2⟩
  | retry hs hl | backoff hs hr hl =>
      cases hk
      rw [hs] at hq
      simp only [Function.update_self, hl]
      exact hq
  | exhaust hs hr hl =>
      cases hk
      rw [hs] at hq
      simp only [Function.update_self, hl]
      exact hq.2
  -- what has been disturbed
  | refused hs hr hl =>
      cases hk
      rw [hs] at hq
      exact absurd hr (Bool.eq_false_iff.mp hq.2.1)
  | quit hs hu hl =>
      cases hk
      rw [hs] at hq
      exact absurd hu (Bool.eq_false_iff.mp hq.1)
  | excuse hs hr hl =>
      cases hk
      rw [hs] at hq
      rcases hr with hr | hr <;> rw [hr] at hq <;> rcases hq.2.1 with h | h <;> cases h
  | createFatal | up => cases hd
  | busy hs | verdict hs | closeExited hs | closeStopped hs =>
      cases hk
      rw [hs] at hq
      exact hq.elim
  | _ => cases hk

/-! ## The record -/

section

variable {cfg : Config} {c c' : Core} {k : Label} {t u : Tid}

theorem Label.attempts_of_loop (hk : k.loop = none) : k.attempts c = false := by
  cases k with
  | run t | spawned t => cases hk
  | _ => rfl

theorem Label.marks_of_loop (hk : k.loop = none) : k.marks c = [] := by
  cases k with
  | run t | spawned t | stored t k => cases hk
  | _ => rfl

theorem Label.attempts_of_spawn {s : Sys} {ch : Choice} (hp : (s.loops t).pc = .spawn) :
    (s.label (.loop t ch)).attempts s.toCore = true := by
  simp only [Sys.label, hp]
  split
  · rfl
  · exact decide_eq_true hp

theorem Core.Inv.ne_start (hc : c.Inv) (hm : Move cfg c k c') (ht : (c.loops t).stage.inRun) :
    k ≠ .start u true := by
  rintro rfl
  have hin := hc.turns.inStart t (Stage.ne_idle_of_inRun ht)
  cases hm with
  | accept hk hi => rw [hi] at hin; cases hin

theorem Core.Inv.ne_enter (hc : c.Inv) (hm : Move cfg c k c') (ht : (c.loops t).stage.inRun) :
    k ≠ .enter u := by
  rintro rfl
  obtain rfl := hc.turns.loop_eq hm (Stage.ne_idle_of_inRun ht) rfl
  cases hm with
  | enter hk hs => rw [hs] at ht; cases ht

/-- What the others may do to the state while `run` is not disturbed. -/
theorem Move.state_of_calm (hm : Move cfg c k c') (hk : k.loop = none) (hcalm : k.Calm) :
    c'.stopByUser = c.stopByUser ∧
      (c'.state = c.state ∨ c'.state = .stopped ∧ ∃ i, (c.waiters i).pre = true) := by
  obtain ⟨-, hd⟩ := hcalm
  cases hm with
  | stop | stopping | monRunning => cases hd
  | accept => cases hk
  | stopped hs => exact ⟨rfl, .inr ⟨rfl, _, by rw [hs]; rfl⟩⟩
  | _ => first | exact ⟨rfl, .inl rfl⟩ | cases hk

end

namespace Tries

variable {cfg : Config} {c c' : Core} {k : Label} {h : Tries} {t : Tid}

theorem next_attempts (hk : ∀ t, k ≠ .enter t) :
    (h.next c k).attempts = k.tally c h.attempts := by
  have hcount (l : List Mark) : (h.trace ++ l).count .attempt = h.attempts + l.count .attempt :=
    List.count_append
  unfold attempts at hcount ⊢
  cases k with
  | enter t => exact absurd rfl (hk t)
  | run t =>
      simp only [next, Label.tally, hcount, Label.marks]
      split <;> rfl
  | spawned t => exact hcount _
  | stored t k => exact hcount _
  | _ => exact hcount []

theorem next_steps (hk : ∀ t, k ≠ .enter t) :
    (h.next c k).steps = if k.loop.isSome then h.steps + 1 else h.steps := by
  cases k with
  | enter t => exact absurd rfl (hk t)
  | _ => rfl

theorem next_trace (hk : ∀ t, k ≠ .enter t) : (h.next c k).trace = h.trace ++ k.marks c := by
  cases k with
  | enter t => exact absurd rfl (hk t)
  | _ => rfl

theorem next_stopped (hs : (h.next c k).stopped = false) :
    h.stopped = false ∧ (∀ t, k ≠ .stop t) ∧ ∀ t, k ≠ .stopping t := by
  cases k with
  | enter => exact ⟨hs, nofun, nofun⟩
  | stop | stopping => simp [next] at hs
  | _ => exact ⟨by simpa [next] using hs, nofun, nofun⟩

theorem next_quiet (hq : (h.next c k).quiet = true) : (h.quiet = true ∧ k.Calm) ∨
    ∃ t, k = .enter t ∧ (h.stopped = false ∨ c.stopByUser = false ∧ c.state.isRunning = false) := by
  cases k with
  | enter t => exact .inr ⟨t, rfl, by simpa [next] using hq⟩
  | _ =>
      obtain ⟨hq, hd⟩ := Bool.and_eq_true_iff.mp hq
      exact .inl ⟨hq, nofun, by simpa using hd⟩

/-- As long as nobody requests a `Stop`, `run` is entered with the process not running and
`stopByUser` not set. -/
def Untouched (c : Core) (h : Tries) : Prop :=
  h.stopped = false → c.stopByUser = false ∧ (c.state.isRunning → c.Underway)

theorem Untouched.move (hc : c.Inv) (hu : Untouched c h) (hm : Move cfg c k c') :
    Untouched c' (h.next c k) := by
  intro hs
  obtain ⟨hs, hstop, hstopping⟩ := next_stopped hs
  obtain ⟨hu, hr⟩ := hu hs
  constructor
  · cases hm with
    | stop => exact absurd rfl (hstop _)
    | accept => rfl
    | _ => exact hu
  · exact Core.Underway.move hc hr (fun t ht ↦ absurd ht (hstopping t)) hm

theorem Untouched.entering (hc : c.Inv) (hu : Untouched c h) (hm : Move cfg c (.enter t) c')
    (hs : h.stopped = false) : c.stopByUser = false ∧ c.state.isRunning = false := by
  obtain ⟨hu, hr⟩ := hu hs
  refine ⟨hu, ?_⟩
  by_contra hrun
  obtain ⟨u, hun⟩ := hr (by simpa using hrun)
  have hne : (c.loops u).stage ≠ .idle := by
    intro hi
    rw [hi] at hun
    rcases hun with hun | ⟨hun, -⟩ <;> cases hun
  cases hm with
  | enter hk hst =>
      -- the start loop that is to go on would be this one
      obtain rfl := hc.turns.one t u (by rw [hst]; nofun) hne
      rw [hst] at hun
      rcases hun with hun | ⟨hun, -⟩ <;> cases hun

/-- What is known of the latest invocation of `run` while its start loop is in it. -/
structure At (cfg : Config) (c : Core) (t : Tid) (h : Tries) : Prop where
  counts : (c.loops t).stage.Counts cfg c.retryTimes h.attempts
  /-- The steps it has taken and the steps it can still take. -/
  bounded : h.steps + 29 * (cfg.maxAttempts - h.attempts) + (c.loops t).pc.rank ≤
    29 * cfg.maxAttempts + 16
  quiet : h.quiet = true →
    (c.loops t).stage.Quiet cfg c.state c.stopByUser h.attempts h.trace

/-- A step of another goroutine. -/
theorem At.aside (hc : c.Inv) (ht : (c.loops t).stage.inRun) (hh : At cfg c t h)
    (hm : Move cfg c k c') (hk : k.loop ≠ some t) : At cfg c' t (h.next c k) := by
  have hne (u : Tid) : k ≠ .enter u := hc.ne_enter hm ht
  have hnone : k.loop = none := by
    cases hl : k.loop with
    | none => rfl
    | some u =>
        obtain rfl := hc.turns.loop_eq hm (Stage.ne_idle_of_inRun ht) hl
        exact absurd hl hk
  have hn : (h.next c k).attempts = h.attempts := by
    rw [next_attempts hne, Label.tally, Label.attempts_of_loop hnone]
    rfl
  constructor
  · rw [hm.loops_eq hk, (Core.same_of_none hm hnone).retryTimes, hn]
    exact hh.counts
  · rw [hm.loops_eq hk, hn, next_steps hne, hnone]
    exact hh.bounded
  · intro hq
    obtain ⟨hq, hcalm⟩ := (next_quiet hq).resolve_right fun he ↦ he.elim fun u hu ↦ hne u hu.1
    obtain ⟨hu, hst⟩ := hm.state_of_calm hnone hcalm
    rw [hm.loops_eq hk, hn, next_trace hne, Label.marks_of_loop hnone, List.append_nil, hu]
    have hquiet := hh.quiet hq
    rcases hst with hst | ⟨hst, i, hi⟩ <;> rw [hst]
    · exact hquiet
    · -- `waitForExit` stores `Stopped` while `run` watches the child
      obtain ⟨u, hw, -⟩ := hc.child.waiter i hi
      obtain rfl := hc.turns.one u t (by rw [hw]; nofun) (Stage.ne_idle_of_inRun ht)
      rw [hw] at hquiet ⊢
      exact ⟨hquiet.1, .inr rfl, hquiet.2.2⟩

/-- A step of the start loop itself. -/
theorem At.own {s s' : Sys} {ch : Choice} (hc : s.toCore.Inv) (ht : (s.loops t).stage.inRun)
    (hh : At cfg s.toCore t h) (hst : s.step cfg (.loop t ch) = some s')
    (ht' : (s'.loops t).stage.inRun) (hk : (s.label (.loop t ch)).loop = some t) :
    At cfg s'.toCore t (h.next s.toCore (s.label (.loop t ch))) := by
  have hm := hc.step_move hst
  have ha := Sys.step_attempt hst
  have hne (u : Tid) : s.label (.loop t ch) ≠ .enter u := hc.ne_enter hm ht
  have hcounts := hh.counts.own ha hm hk hne
  constructor
  · rw [next_attempts hne]
    exact hcounts
  · have hb := hh.bounded
    rw [next_steps hne, next_attempts hne, hk, Option.isSome_some, if_pos rfl, Label.tally]
    rcases Sys.loopStep_rank hst ht with hout | hp | hlt
    · rw [ht'] at hout
      cases hout
    · have hlt : h.attempts < cfg.maxAttempts := by
        have hn := hh.counts
        rw [Loop.stage, hp] at hn
        exact hn.2
      have hle := (s'.loops t).pc.rank_le
      rw [Label.attempts_of_spawn hp, if_pos rfl]
      omega
    · split <;> omega
  · intro hq
    obtain ⟨hq, hcalm⟩ := (next_quiet hq).resolve_right fun he ↦ he.elim fun u hu ↦ hne u hu.1
    rw [next_attempts hne, next_trace hne]
    exact (hh.quiet hq).own hh.counts ha hm hk hcalm

/-- `run` is entered. -/
theorem At.enter (hc : c.Inv) (hu : Untouched c h) (hm : Move cfg c (.enter t) c') :
    At cfg c' t (h.next c (.enter t)) := by
  have hpc : (c'.loops t).pc = .check := by
    cases hm with
    | enter hk hs hl =>
        simp only [Function.update_self]
        exact LoopPc.eq_check hl
  have hsame : c'.stopByUser = c.stopByUser ∧ c'.state = c.state := by
    cases hm with
    | enter => exact ⟨rfl, rfl⟩
  constructor
  · rw [Loop.stage, hpc]
    rfl
  · rw [hpc]
    show 0 + 29 * (cfg.maxAttempts - 0) + 16 ≤ _
    omega
  · intro hq
    rw [Loop.stage, hpc, hsame.1, hsame.2]
    obtain ⟨u, hk, hentry⟩ := (next_quiet hq).resolve_left fun h ↦ h.2.ne_enter t rfl
    obtain ⟨hu, hr⟩ := hentry.elim (hu.entering hc hm) id
    exact ⟨hu, hr, rfl⟩

/-- What is known of the latest invocation of `run`. -/
structure Inv (cfg : Config) (c : Core) (h : Tries) : Prop where
  run : ∀ t, (c.loops t).stage.inRun → At cfg c t h
  untouched : Untouched c h

theorem Inv.step {s s' : Sys} {a : Act} (hc : s.toCore.Inv) (hh : h.Inv cfg s.toCore)
    (hst : s.step cfg a = some s') : (h.next s.toCore (s.label a)).Inv cfg s'.toCore := by
  have hm := hc.step_move hst
  refine ⟨fun t ht ↦ ?_, hh.untouched.move hc hm⟩
  rcases hm.inRun ht with hr | hk
  · by_cases hk : (s.label a).loop = some t
    · obtain ⟨ch, rfl⟩ := (Sys.label_loop hk).resolve_right (hc.ne_start hm hr)
      exact (hh.run t hr).own hc hr hst ht hk
    · exact (hh.run t hr).aside hc hr hm hk
  · rw [hk] at hm ⊢
    exact .enter hc hh.untouched hm

theorem reachable_inv {w : Sys × Tries} (hw : (tries cfg).Reachable w) :
    w.2.Inv cfg w.1.toCore := by
  refine observed_step_invariant (P := fun s h ↦ h.Inv cfg s.toCore) ?_
    (fun hc hh _ hst ↦ hh.step hc hst) hw
  exact ⟨fun _ h ↦ (nomatch h), fun _ ↦ ⟨rfl, nofun⟩⟩

end Tries

end Supervisord.Process
