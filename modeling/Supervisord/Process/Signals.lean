import Supervisord.Process.Frame

/-!
# Whom a stopping goroutine signals

The goroutine a `Stop` leaves behind reads `p.cmd` each time it sends signals, and it asks for the
KILL as soon as the process is seen running, whichever child it is that runs.  `signals_own_child`
says that all its signals go to the command that was current when the `Stop` held the lock, as long
as `run` does not create another command before the goroutine has ended.
-/

namespace Supervisord.Process

/-- A `Stop` has set `stopByUser` and its goroutine is not launched yet. -/
def CallerPc.stops : CallerPc → Bool
  | .stopCheck _ _ | .stopChange _ _ _ | .stopLaunch _ _ => true
  | _ => false

/-- The stopping goroutine is not through. -/
def StopperPc.active : StopperPc → Bool
  | .send _ | .killing _ _ | .check => true
  | .off | .done | .crashed => false

attribute [grind] CallerPc.stops StopperPc.active

/-- The `Stop` called by `t` is still to signal. -/
def Sys.Stops (s : Sys) (t : Tid) : Prop := (s.callers t).stops ∨ (s.stoppers t).active

/-- `run` creates no command while a `Stop` is still to signal. -/
def Unsucceeded (s : Sys) (a : Act) : Prop := ∀ t u, s.label a = .created t → ¬s.Stops u

/-- The commands the `Stop`s have found when they held the lock. -/
structure Targets where
  target : Tid → Option CmdId := fun _ ↦ none

def Targets.next (h : Targets) (c : Core) : Label → Targets
  | .stop t => { h with target := Function.update h.target t c.cmd }
  | _ => h

/-- A process whose targets of `Stop` are recorded. -/
def targets (cfg : Config) : Machine (Sys × Targets) Act := observed cfg {} Targets.next

/-- What a step of `signals.Kill` can come to. -/
inductive KillJob.To (job : KillJob) (ch : Choice) : KillResult → Prop
  | exited (hw : job.waiting = true) (hch : ch = .ok) : To job ch .done
  | elapsed (hw : job.waiting = true) : To job ch (.more { job with waiting := false } none)
  | finished (hw : job.waiting = false) : To job ch .done
  | sent (sig : String) (rest : List String) (c : CmdId) (hw : job.waiting = false)
      (hp : job.process = some c) :
      To job ch (.more { job with sigs := rest, waiting := true } (some (c, sig, true)))
  | failed (sig : String) (rest : List String) (c : CmdId) (hw : job.waiting = false)
      (hp : job.process = some c) :
      To job ch (.more { job with sigs := rest } (some (c, sig, false)))
  | crash : To job ch .crash

theorem KillJob.step_to {job : KillJob} {ch : Choice} {res : KillResult}
    (h : job.step ch = some res) : job.To ch res := by
  unfold step at h
  split at h
  · rename_i hw
    split at h
    · split at h <;> cases h
      exact .exited hw rfl
    · cases h
      exact .elapsed hw
    · cases h
  · rename_i hw
    have hw := Bool.eq_false_iff.mpr hw
    split at h
    · cases h
      exact .finished hw
    · split at h
      · cases h
        exact .crash
      · cases h
        exact .sent _ _ _ hw ‹_›
      · cases h
        exact .failed _ _ _ hw ‹_›
      · cases h

/-- A running `signals.Kill` signals the process it was given. -/
theorem KillJob.step_more {job job' : KillJob} {ch : Choice}
    {sent : Option (CmdId × String × Bool)} (h : job.step ch = some (.more job' sent)) :
    job'.process = job.process ∧
      ∀ i sig ok, sent = some (i, sig, ok) → job.process = some i := by
  cases step_to h with
  | elapsed => exact ⟨rfl, nofun⟩
  | sent _ _ c _ hp | failed _ _ c _ hp =>
      refine ⟨rfl, ?_⟩
      rintro i sig ok ⟨⟩
      exact hp

namespace Sys

variable {cfg : Config} {s s' : Sys} {a : Act} {t u : Tid} {ch : Choice} {c : CmdId}

/-! ## The steps of the stopping goroutines -/

/-- What a step of a call can do to the signalling. -/
inductive CallerSignals (s s' : Sys) (t : Tid) : Prop
  | same (h : SameSignals s s')
  | launch (wait restart : Bool) (hp : s.callers t = .stopLaunch wait restart)
      (hk : s'.kills = s.kills) (hs : s'.stoppers = Function.update s.stoppers t (.send false))
  | kill (k : KillCall) (hb : k.byStopper = false) (hk : s'.kills = s.kills ++ [k])
      (hs : s'.stoppers = s.stoppers)

theorem callerStep_signals (h : s.callerStep cfg t ch = some s') : CallerSignals s s' t := by
  unfold callerStep at h
  cases hp : s.callers t with
  | stopLaunch wait restart =>
      simp only [hp] at h
      cases h
      exact .launch wait restart hp rfl rfl
  | stopChange wait restart ph =>
      cases ph with
      | emit old =>
          simp only [hp] at h
          split at h
          · cases h
            have he := (emit_same ‹_›).1
            exact .same ⟨he.1, he.2⟩
          · cases h
            exact .same ⟨rfl, rfl⟩
      | load | store =>
          simp only [hp] at h
          cases h
          exact .same ⟨rfl, rfl⟩
  | checking =>
      cases ch <;> simp only [hp] at h <;> cases h <;> exact .same ⟨rfl, rfl⟩
  | signalEnter checked sigs =>
      simp only [hp, Option.map_eq_some_iff] at h
      obtain ⟨k, _, rfl⟩ := h
      split
      · exact .same ⟨rfl, rfl⟩
      · split <;> exact .same ⟨rfl, rfl⟩
  | signalling job =>
      simp only [hp, Option.map_eq_some_iff] at h
      obtain ⟨res, _, rfl⟩ := h
      cases res with
      | more job' sent =>
          cases sent with
          | none => exact .same ⟨rfl, rfl⟩
          | some sent => exact .kill _ rfl rfl rfl
      | done | crash => exact .same ⟨rfl, rfl⟩
  | _ =>
      simp only [hp] at h
      repeat' split at h
      all_goals cases h
      all_goals exact .same ⟨rfl, rfl⟩

/-- What a stopping goroutine does in a step of its own. -/
inductive StopperTo (s s' : Sys) (t : Tid) : Prop
  | read (kill : Bool) (job : KillJob) (hp : s.stoppers t = .send kill)
      (hk : s'.kills = s.kills) (hj : job.process = s.pid)
      (hs : s'.stoppers = Function.update s.stoppers t (.killing kill job))
  | wait (kill : Bool) (job job' : KillJob) (hp : s.stoppers t = .killing kill job)
      (hk : s'.kills = s.kills) (hj : job'.process = job.process)
      (hs : s'.stoppers = Function.update s.stoppers t (.killing kill job'))
  | send (kill : Bool) (job job' : KillJob) (k : KillCall) (hp : s.stoppers t = .killing kill job)
      (hk : s'.kills = s.kills ++ [k]) (hc : k.caller = t) (hj : job'.process = job.process)
      (ht : job.process = some k.target)
      (hs : s'.stoppers = Function.update s.stoppers t (.killing kill job'))
  | go (pc : StopperPc) (hp : (s.stoppers t).active) (hk : s'.kills = s.kills)
      (hpc : ∀ kill job, pc ≠ .killing kill job)
      (hs : s'.stoppers = Function.update s.stoppers t pc)

theorem stopperStep_to (h : s.stopperStep cfg t ch = some s') : StopperTo s s' t := by
  unfold stopperStep at h
  cases hp : s.stoppers t with
  | off | done | crashed => simp [hp] at h
  | check =>
      simp only [hp] at h
      cases h
      refine .go _ (by rw [hp]; rfl) rfl (fun kill job ↦ ?_) rfl
      split <;> exact nofun
  | send kill =>
      simp only [hp, Option.map_eq_some_iff] at h
      obtain ⟨k, _, rfl⟩ := h
      split
      · exact .go .crashed (by rw [hp]; rfl) rfl nofun rfl
      · exact .read kill _ hp rfl rfl rfl
  | killing kill job =>
      simp only [hp, Option.map_eq_some_iff] at h
      obtain ⟨res, hj, rfl⟩ := h
      cases res with
      | more job' sent =>
          obtain ⟨hpr, hst⟩ := KillJob.step_more hj
          cases sent with
          | none => exact .wait kill job job' hp rfl hpr rfl
          | some sent =>
              obtain ⟨i, sig, ok⟩ := sent
              exact .send kill job job' _ hp rfl rfl hpr (hst i sig ok rfl) rfl
      | done =>
          refine .go _ (by rw [hp]; rfl) rfl (fun kill job ↦ ?_) rfl
          split <;> exact nofun
      | crash => exact .go .crashed (by rw [hp]; rfl) rfl nofun rfl

theorem goCaller_callers (pc : CallerPc) : (s.goCaller t pc).callers t = pc :=
  Function.update_self _ _ _

/-- Who is about to signal was so before, or has just taken the lock for its `Stop`. -/
theorem callerStep_stops (h : s.callerStep cfg t ch = some s') (ht : (s'.callers t).stops) :
    (s.callers t).stops ∨ s.label (.caller t ch) = .stop t := by
  unfold callerStep at h
  cases hp : s.callers t with
  | stopCheck | stopChange | stopLaunch => exact .inl rfl
  | stopEnter => exact .inr (by simp only [label, hp])
  | checking =>
      cases ch <;> simp only [hp] at h <;> cases h <;> rw [goCaller_callers] at ht <;>
        (repeat' split at ht) <;> cases ht
  | signalEnter checked sigs =>
      simp only [hp, Option.map_eq_some_iff] at h
      obtain ⟨k, _, rfl⟩ := h
      repeat' split at ht
      all_goals rw [goCaller_callers] at ht
      all_goals cases ht
  | signalling job =>
      simp only [hp, Option.map_eq_some_iff] at h
      obtain ⟨res, _, rfl⟩ := h
      cases res <;> dsimp only at ht <;> rw [goCaller_callers] at ht <;> cases ht
  | _ =>
      simp only [hp] at h
      repeat' split at h
      all_goals cases h
      all_goals rw [goCaller_callers] at ht
      all_goals first
        | cases ht
        | (unfold CallerPc.stopReturn at ht; split at ht <;> cases ht)

/-- What a step of something else does to the goroutine the `Stop` called by `t` leaves behind. -/
inductive StopperAside (s s' : Sys) (a : Act) (t : Tid) : Prop
  | same (hs : s'.stoppers t = s.stoppers t)
  | raise (hs : s'.stoppers t = (s.stoppers t).raise)
  | launch (ch : Choice) (wait restart : Bool) (ha : a = .caller t ch)
      (hp : s.callers t = .stopLaunch wait restart) (hs : s'.stoppers t = .send false)

theorem step_stopper_aside (h : s.step cfg a = some s') (ha : ∀ ch, a ≠ .stopper t ch) :
    StopperAside s s' a t := by
  have hsame (hs : SameSignals s s') : StopperAside s s' a t := .same (by rw [hs.stoppers])
  cases a with
  | call u op =>
      simp only [step] at h
      split at h <;> cases h
      exact .same rfl
  | caller u ch =>
      cases callerStep_signals h with
      | same hs => exact .same (by rw [hs.stoppers])
      | kill k _ _ hs => exact .same (by rw [hs])
      | launch wait restart hp _ hs =>
          by_cases htu : t = u
          · subst htu
            exact .launch ch wait restart rfl hp (by rw [hs]; exact Function.update_self _ _ _)
          · exact .same (by rw [hs]; exact Function.update_of_ne htu _ _)
  | stopper u ch =>
      have htu : t ≠ u := fun htu ↦ ha ch (by rw [htu])
      have hs : ∃ pc, s'.stoppers = Function.update s.stoppers u pc := by
        cases stopperStep_to h with
        | read | wait | send | go => exact ⟨_, ‹_›⟩
      obtain ⟨pc, hs⟩ := hs
      exact .same (by rw [hs]; exact Function.update_of_ne htu _ _)
  | loop u ch => exact hsame (loopStep_aside h).toSameSignals
  | monitor c => exact hsame (monitorStep_aside h).toSameSignals
  | waiter c => exact hsame (waiterStep_aside h).toSameSignals
  | closer c => exact hsame (closerStep_aside h).toSameSignals
  | exit c status =>
      simp only [step, exitStep] at h
      split at h <;> cases h
      exact .raise rfl
  | sigchld =>
      cases h
      exact .raise rfl

/-- What a step does to the goroutine the `Stop` called by `t` leaves behind. -/
inductive StopperStep (s s' : Sys) (a : Act) (t : Tid) : Prop
  | same (hs : s'.stoppers t = s.stoppers t)
  | raise (hs : s'.stoppers t = (s.stoppers t).raise)
  | launch (ch : Choice) (ha : a = .caller t ch) (hp : (s.callers t).stops)
      (hs : s'.stoppers t = .send false)
  | read (kill : Bool) (job : KillJob) (hp : s.stoppers t = .send kill)
      (hj : job.process = s.pid) (hs : s'.stoppers t = .killing kill job)
  | wait (kill : Bool) (job job' : KillJob) (hp : s.stoppers t = .killing kill job)
      (hj : job'.process = job.process) (hs : s'.stoppers t = .killing kill job')
  | go (hp : (s.stoppers t).active) (hs : ∀ kill job, s'.stoppers t ≠ .killing kill job)

theorem step_stopper (h : s.step cfg a = some s') (t : Tid) : StopperStep s s' a t := by
  by_cases ha : ∃ ch, a = .stopper t ch
  · obtain ⟨ch, rfl⟩ := ha
    cases stopperStep_to h with
    | read kill job hp _ hj hs =>
        exact .read kill job hp hj (by rw [hs]; exact Function.update_self _ _ _)
    | wait kill job job' hp _ hj hs | send kill job job' _ hp _ _ hj _ hs =>
        exact .wait kill job job' hp hj (by rw [hs]; exact Function.update_self _ _ _)
    | go pc hp _ hpc hs =>
        refine .go hp fun kill job ↦ ?_
        rw [hs, Function.update_self]
        exact hpc kill job
  · cases step_stopper_aside h (fun ch hch ↦ ha ⟨ch, hch⟩) with
    | same hs => exact .same hs
    | raise hs => exact .raise hs
    | launch ch _ _ hch hp hs => exact .launch ch hch (by rw [hp]; rfl) hs

/-- A signal sent on behalf of a `Stop` is one of its goroutine. -/
theorem step_kill (h : s.step cfg a = some s') {k : KillCall} (hk : s'.kills = s.kills ++ [k])
    (hb : k.byStopper = true) :
    ∃ kill job, s.stoppers k.caller = .killing kill job ∧ job.process = some k.target := by
  have hno (hs : s'.kills = s.kills) : False := by
    rw [hs] at hk
    simpa using congrArg List.length hk
  cases a with
  | call u op =>
      simp only [step] at h
      split at h <;> cases h
      exact (hno rfl).elim
  | caller u ch =>
      cases callerStep_signals h with
      | same hs => exact (hno hs.kills).elim
      | launch _ _ _ hs => exact (hno hs).elim
      | kill k' hb' hk' =>
          rw [hk', List.append_cancel_left_eq, List.cons.injEq] at hk
          rw [← hk.1, hb'] at hb
          cases hb
  | stopper u ch =>
      cases stopperStep_to h with
      | read _ _ _ hs | wait _ _ _ _ hs | go _ _ hs => exact (hno hs).elim
      | send kill job job' k' hp hk' hc _ ht =>
          rw [hk', List.append_cancel_left_eq, List.cons.injEq] at hk
          obtain rfl := hk.1
          exact ⟨kill, job, by rw [hc]; exact hp, ht⟩
  | loop u ch => exact (hno (loopStep_aside h).kills).elim
  | monitor c => exact (hno (monitorStep_aside h).kills).elim
  | waiter c => exact (hno (waiterStep_aside h).kills).elim
  | closer c => exact (hno (closerStep_aside h).kills).elim
  | exit c status =>
      simp only [step, exitStep] at h
      split at h <;> cases h
      exact (hno rfl).elim
  | sigchld =>
      cases h
      exact (hno rfl).elim

/-- A `Stop` comes to signal by taking the lock. -/
theorem step_stops (h : s.step cfg a = some s') (ht : s'.Stops t) :
    s.Stops t ∨ s.label a = .stop t := by
  rcases ht with ht | ht
  · rcases step_callers h t with ⟨op, -, -, hop⟩ | ⟨ch, rfl⟩ | ha
    · rw [hop] at ht
      cases op <;> cases ht
    · exact (callerStep_stops h ht).imp .inl id
    · left
      left
      generalize s.callers t = pc at ha
      generalize s'.callers t = pc' at ha ht
      cases ha with
      | refl => exact ht
      | wake | raise => cases ht
  · left
    cases step_stopper h t with
    | same hs => exact .inr (hs ▸ ht)
    | raise hs =>
        right
        rw [hs] at ht
        generalize s.stoppers t = pc at ht
        cases pc <;> exact ht
    | launch _ _ hp => exact .inl hp
    | read _ _ hp | wait _ _ _ hp => exact .inr (by rw [hp]; rfl)
    | go hp => exact .inr hp

end Sys

/-! ## The targets -/

variable {cfg : Config} {w : Sys × Targets}

theorem Move.cmd_eq {c c' : Core} {k : Label} (hm : Move cfg c k c') (hk : ∀ t, k ≠ .created t) :
    c'.cmd = c.cmd := by
  cases hm <;> first | rfl | exact absurd rfl (hk _)

/-- Where a `Stop` is still to signal, `p.cmd` is what it has found. -/
structure Targets.Kept (s : Sys) (h : Targets) : Prop where
  cmd : ∀ t, s.Stops t → s.cmd = h.target t
  job : ∀ t kill job, s.stoppers t = .killing kill job →
    ∀ i, job.process = some i → h.target t = some i

theorem Targets.next_target {h : Targets} {c : Core} {k : Label} {t : Tid} :
    (h.next c k).target t = if k = .stop t then c.cmd else h.target t := by
  cases k with
  | stop u =>
      simp only [next, Function.update_apply, Label.stop.injEq]
      by_cases htu : t = u
      · rw [if_pos htu, if_pos htu.symm]
      · rw [if_neg htu, if_neg (Ne.symm htu)]
  | _ => rfl

theorem Targets.Kept.step {s s' : Sys} {h : Targets} {a : Act} (hh : Kept s h)
    (hc : s.toCore.Inv) (ha : Unsucceeded s a) (hst : s.step cfg a = some s') :
    Kept s' (h.next s.toCore (s.label a)) := by
  have hcmd (t : Tid) (ht : s.Stops t ∨ s.label a = .stop t) : s'.cmd = s.cmd := by
    refine Move.cmd_eq (hc.step_move hst) fun u hu ↦ ?_
    rcases ht with ht | ht
    · exact ha u t hu ht
    · rw [ht] at hu
      cases hu
  constructor
  · intro t ht
    have ht := Sys.step_stops hst ht
    rw [hcmd t ht, next_target]
    split
    · rfl
    · exact hh.cmd t (ht.resolve_right ‹_›)
  · -- a job was made from `p.cmd`, or it is an old one
    intro t kill job hs i hi
    have hjob : (∃ job', s.stoppers t = .killing kill job' ∧ job.process = job'.process) ∨
        s.stoppers t = .send kill ∧ job.process = s.pid := by
      cases Sys.step_stopper hst t with
      | same he => exact .inl ⟨job, he ▸ hs, rfl⟩
      | raise he =>
          rw [he] at hs
          generalize s.stoppers t = pc at hs
          cases pc <;> cases hs
          exact .inl ⟨_, rfl, rfl⟩
      | launch _ _ _ he | go _ he => simp_all
      | read kill' job' hp hj he =>
          rw [he] at hs
          cases hs
          exact .inr ⟨hp, hj⟩
      | wait kill' job' job'' hp hj he =>
          rw [he] at hs
          cases hs
          exact .inl ⟨job', hp, hj⟩
    have hact : s.Stops t := .inr (by rcases hjob with ⟨_, hp, _⟩ | ⟨hp, _⟩ <;> rw [hp] <;> rfl)
    have hold : h.target t = some i := by
      rcases hjob with ⟨job', hp, hj⟩ | ⟨-, hj⟩
      · exact hh.job t kill job' hp i (hj ▸ hi)
      · rw [← hh.cmd t hact]
        rw [hj, Core.pid] at hi
        exact (Option.filter_eq_some_iff.mp hi).1
    rw [next_target]
    split
    · rw [hh.cmd t hact]
      exact hold
    · exact hold

theorem Targets.Kept.init : Kept {} {} where
  cmd _ h := by rcases h with h | h <;> cases h
  job _ _ _ h := nomatch h

/-- **A `Stop` signals the command that was current when it held the lock**, and no other, if
`run` creates no command between this moment and the end of the stopping goroutine. -/
theorem signals_own_child (hw : (targets cfg).Reach (fun w ↦ Unsucceeded w.1) w) {a : Act}
    {s' : Sys} (hst : w.1.step cfg a = some s') {k : KillCall} (hk : s'.kills = w.1.kills ++ [k])
    (hb : k.byStopper = true) : w.2.target k.caller = some k.target := by
  have hkept : w.2.Kept w.1 := observed_step_invariant (P := fun s h ↦ Targets.Kept s h) .init
    (fun hc hh ha hst ↦ hh.step hc ha hst) hw
  obtain ⟨kill, job, hs, hj⟩ := Sys.step_kill hst hk hb
  exact hkept.job _ kill job hs _ hj

/-- Who has not called leaves no goroutine behind. -/
theorem not_stops {ok : Sys → Act → Prop} {n : Nat} {s : Sys} (hs : (machine cfg).Reach ok s)
    (hn : ∀ s a, ok s a → CallsBelow n a) {t : Tid} (ht : n ≤ t) : ¬s.Stops t := by
  have hoff : s.stoppers t = .off := by
    refine hs.invariant (P := fun s ↦ s.stoppers t = .off) rfl ?_
    intro s a s' hr hp _ hst
    cases Sys.step_stopper hst t with
    | same he => exact he.trans hp
    | raise he => rw [he, hp]; rfl
    | launch _ _ hc => rw [callers_idle hr hn ht] at hc; cases hc
    | read _ _ hr | wait _ _ _ hr => rw [hp] at hr; cases hr
    | go hr => rw [hp] at hr; cases hr
  rintro (hc | hc)
  · rw [callers_idle hs hn ht] at hc
    cases hc
  · rw [hoff] at hc
    cases hc

/-- Nobody has come to stop the process yet. -/
def calm (s : Sys) : Bool :=
  s.callers 0 = .done && s.callers 1 = .idle && s.stoppers 0 = .off && s.stoppers 1 = .off

set_option maxRecDepth 4000 in
/-- The program is stopped, and its child is sent the stop signal. -/
theorem signals_own_child_term : ∃ (w : Sys × Targets) (s' : Sys) (k : KillCall),
    (targets {}).Reach (fun w ↦ Unsucceeded w.1) w ∧
      w.1.step {} (.stopper 1 .ok) = some s' ∧ s'.kills = w.1.kills ++ [k] ∧
      k.sig = "TERM" ∧ w.2.target k.caller = some k.target := by
  let k : KillCall :=
    { caller := 1, byStopper := true, target := 0, sig := "TERM", group := false, ok := true }
  obtain ⟨w, hw, hp⟩ : ∃ w, (targets {}).Reach
      (fun w a ↦ Unsucceeded w.1 a ∧ CallsBelow 2 a) w ∧ _ := Machine.exists_reach
    (fun w a ↦ CallsBelow 2 a && match w.1.label a with
      | .created _ => calm w.1
      | _ => true)
    (fun w ↦ w.1.kills = [] ∧ (w.1.step {} (.stopper 1 .ok)).map Sys.kills = some [k])
    (List.flatten [startAndRun, [.call 1 (.stop false)], .replicate 6 (.caller 1 .ok),
      [.stopper 1 .ok]])
    (fun w a hr hp ↦ by
      obtain ⟨hb, hc⟩ := Bool.and_eq_true_iff.mp hp
      refine ⟨fun t u hl ↦ ?_, hb⟩
      rw [hl] at hc
      simp only [calm, Bool.and_eq_true, decide_eq_true_eq] at hc
      obtain ⟨⟨⟨h₀, h₁⟩, h₂⟩, h₃⟩ := hc
      match u with
      | 0 => rintro (h | h); rw [h₀] at h; cases h; rw [h₂] at h; cases h
      | 1 => rintro (h | h); rw [h₁] at h; cases h; rw [h₃] at h; cases h
      | u + 2 =>
          have hr : (machine {}).Reach (fun _ a ↦ CallsBelow 2 a) w.1 :=
            Machine.Reach.fst_of (fun _ _ h ↦ h.2) (show (observed {} {} Targets.next).Reach
              (fun w a ↦ Unsucceeded w.1 a ∧ CallsBelow 2 a) w from hr)
          exact not_stops hr (fun _ _ h ↦ h) (Nat.le_add_left 2 u))
    (by decide +kernel)
  obtain ⟨hk, hst⟩ := of_decide_eq_true hp
  obtain ⟨s', hst, hks⟩ := Option.map_eq_some_iff.mp hst
  have hw := hw.mono fun _ _ h ↦ h.1
  have hks : s'.kills = w.1.kills ++ [k] := by rw [hks, hk]; rfl
  exact ⟨w, s', k, hw, hst, hks, rfl, signals_own_child hw hst hks rfl⟩

set_option maxRecDepth 8000 in
/-- The child is stopped, and a `Start` spawns the next one before the stopping goroutine tests
`IsRunning`: the KILL goes to the new child. -/
theorem signals_younger_child : ¬∀ (cfg : Config) (w : Sys × Targets) (a : Act) (s' : Sys)
    (k : KillCall), (targets cfg).Reachable w → w.1.step cfg a = some s' →
      s'.kills = w.1.kills ++ [k] → k.byStopper = true →
        w.2.target k.caller = some k.target := by
  intro h
  let k : KillCall :=
    { caller := 1, byStopper := true, target := 1, sig := "KILL", group := false, ok := true }
  obtain ⟨w, hw, hp⟩ := Machine.exists_reachable (m := targets {})
    (fun w ↦ w.2.target 1 = some 0 ∧
      (w.1.step {} (.stopper 1 .ok)).map Sys.kills = some (w.1.kills ++ [k]))
    (List.flatten [startAndRun, [.call 1 (.stop false)], .replicate 6 (.caller 1 .ok),
      .replicate 2 (.stopper 1 .ok), [.exit 0 (some 0), .stopper 1 .ok], .replicate 6 (.waiter 0),
      .replicate 12 (.loop 0 .ok), [.call 2 (.start false), .caller 2 .ok],
      .replicate 12 (.loop 2 .ok), .replicate 2 (.stopper 1 .ok)]) (by decide +kernel)
  obtain ⟨ht, hst⟩ := of_decide_eq_true hp
  obtain ⟨s', hst, hks⟩ := Option.map_eq_some_iff.mp hst
  have hx := h {} w _ s' k hw hst hks rfl
  rw [show k.caller = 1 from rfl, ht] at hx
  cases hx

end Supervisord.Process
