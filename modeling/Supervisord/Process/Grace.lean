import Supervisord.Machine.Family
import Supervisord.Process.Closing
import Supervisord.Process.Signals

/-!
# The grace period of a stop

`Stop` sends the stop signals one after the other and waits `stopwaitsecs` behind each, before it
resorts to KILL.  `signals.Kill` waits for a SIGCHLD and takes it for the exit of the process it
has signalled.  But SIGCHLD is raised by every child of the supervisor and delivered to every
`Kill` that is under way, so that the processes are not independent of each other here:
`processes` is the family of all of them, in which an exit is heard everywhere.

What `Kill` returns is not looked at either.  `Stop` tests `IsRunning` behind it, which is true
until `waitForExit` has stored `Stopped`.

`graced` says that nothing else cuts a grace period short: where the SIGCHLD that ends a wait is
that of the child signalled, and `IsRunning` is no longer true for a child that was gone when the
last wait was over, a KILL comes only after all waits have gone their full time.
-/

universe u

namespace Supervisord.Process

/-- A stop signal that was sent. -/
structure Sent where
  /-- The process whose pid was passed. -/
  target : CmdId
  /-- `stopwaitsecs` have elapsed. -/
  elapsed : Bool := false
  /-- The process was alive when the wait behind the signal was over. -/
  alive : Bool := true
deriving DecidableEq

/-- The process was still alive when `stopwaitsecs` had elapsed. -/
def Sent.Graced (x : Sent) : Prop := x.elapsed = true ∧ x.alive = true

/-- A KILL that `Stop` resorts to. -/
structure Forced where
  caller : Tid
  target : CmdId
  /-- The stop signals sent before, latest first. -/
  sent : List Sent
deriving DecidableEq

/-- What the `Stop`s of a process have sent so far. -/
structure Graces where
  /-- The stop signals each call has sent, latest first. -/
  sent : Tid → List Sent := fun _ ↦ []
  forced : List Forced := []

/-- The wait behind the last stop signal is over. -/
def Sys.over (s : Sys) (elapsed : Bool) (l : List Sent) : List Sent :=
  l.modifyHead fun x ↦ { x with elapsed, alive := !(s.cmds x.target).exited }

/-- The stop signals sent, after a step of the `signals.Kill` that sends them. -/
def Sys.sent (s : Sys) (job : KillJob) (l : List Sent) : KillResult → List Sent
  | .more _ (some (target, _, ok)) => if ok then { target } :: l else l
  | .more _ none => s.over true l
  | .done => if job.waiting then s.over false l else l
  | .crash => l

def Graces.next (h : Graces) (s : Sys) (a : Act) : Graces :=
  match a with
  | .caller t _ => match s.callers t with
    | .stopLaunch _ _ => { h with sent := Function.update h.sent t [] }
    | _ => h
  | .stopper t ch => match s.stoppers t with
    | .killing false job => { h with
        sent := Function.update h.sent t ((job.step ch).elim (h.sent t) (s.sent job (h.sent t))) }
    | .killing true job => match job.step ch with
      | some (.more _ (some (target, _, _))) =>
        { h with forced := { caller := t, target, sent := h.sent t } :: h.forced }
      | _ => h
    | _ => h
  | _ => h

/-- A process whose stop signals are recorded. -/
def graces (cfg : Config) : Machine (Sys × Graces) Act := 
  (machine cfg).observe {} fun h s a _ ↦ h.next s a

/-- The exit of a child raises SIGCHLD in all processes. -/
def Act.loud : Act → Bool
  | .exit _ _ | .sigchld => true
  | .call _ _ | .caller _ _ | .loop _ _ | .stopper _ _ | .monitor _ | .waiter _ | .closer _ =>
    false

/-- The processes of the supervisor. -/
def processes {ι : Type u} [DecidableEq ι] (cfg : ι → Config) :
    Machine (ι → Sys × Graces) (ι × Act) :=
  .family (fun i ↦ graces (cfg i)) Act.loud .sigchld

/-- A goroutine of a `Stop` takes a SIGCHLD behind a stop signal for the exit of the child
signalled only if that child has exited, and it does not find `IsRunning` true for a child that
had exited when the last wait was over. -/
def Discerning (w : Sys × Graces) : Act → Prop
  | .stopper t ch => match w.1.stoppers t with
    | .killing false job => job.waiting = true → ch = .ok →
        ∀ c, job.process = some c → (w.1.cmds c).exited = true
    | .check => w.1.state.isRunning = true → ∀ x ∈ (w.2.sent t).head?, x.alive = true
    | _ => True
  | _ => True

/-! ## Waits -/

/-- The waits that are over while `signals.Kill` goes on. -/
structure Ended (s : Sys) (l : List Sent) : Prop where
  elapsed : ∀ x ∈ l, x.elapsed = true
  dead : ∀ x ∈ l, x.alive = false → (s.cmds x.target).exited = true
  /-- Who was alive then was so before. -/
  order : l.Pairwise fun x y ↦ x.alive = true → y.alive = true

/-- What the stop signals of a `Stop` have come to, where its goroutine stands. -/
def Grants (s : Sys) (l : List Sent) : StopperPc → Prop
  | .send false => l = []
  | .killing false job =>
    (∀ c, job.process = some c → (s.cmds c).started = true) ∧
      (∀ x ∈ l, job.process = some x.target) ∧ Ended s (if job.waiting then l.tail else l)
  | .check =>
    (∀ x ∈ l.tail, x.elapsed = true) ∧ (∀ x ∈ l.head?, x.alive = true → x.elapsed = true) ∧
      l.Pairwise fun x y ↦ x.alive = true → y.alive = true
  | .send true | .killing true _ => ∀ x ∈ l, x.Graced
  | .off | .done | .crashed => True

variable {cfg : Config} {s s' : Sys} {h : Graces} {a : Act} {t : Tid} {l : List Sent}
  {pc : StopperPc} {job : KillJob} {ch : Choice}

theorem Ended.nil : Ended s [] := ⟨nofun, nofun, .nil⟩

theorem Grants.mono (hc : ∀ c, (s.cmds c).started = true → (s'.cmds c).started = true ∧
      ((s.cmds c).exited = true → (s'.cmds c).exited = true)) (hg : Grants s l pc) :
    Grants s' l pc := by
  cases pc with
  | killing forced job =>
      cases forced with
      | false =>
          obtain ⟨hst, ht, he⟩ := hg
          refine ⟨fun c hj ↦ (hc c (hst c hj)).1, ht, he.elapsed, fun x hx hd ↦ ?_, he.order⟩
          have hmem : x ∈ l := by
            split at hx
            · exact List.mem_of_mem_tail hx
            · exact hx
          exact (hc _ (hst _ (ht x hmem))).2 (he.dead x hx hd)
      | true => exact hg
  | send forced => cases forced <;> exact hg
  | check | off | done | crashed => exact hg

theorem Grants.raise (hg : Grants s l pc) : Grants s l pc.raise := by
  cases pc with
  | killing forced job => cases forced <;> exact hg
  | _ => exact hg

/-- A `Stop` that has not sent anything. -/
theorem Grants.nil (hg : Grants s l pc) : Grants s [] pc := by
  cases pc with
  | send forced => cases forced <;> first | rfl | exact nofun
  | killing forced job =>
      cases forced with
      | false =>
          refine ⟨hg.1, nofun, ?_⟩
          rw [List.tail_nil, ite_self]
          exact .nil
      | true => exact nofun
  | check => exact ⟨nofun, nofun, .nil⟩
  | off | done | crashed => trivial

/-- A child that is alive was so at the end of all waits. -/
theorem Ended.alive (he : Ended s l) {c : CmdId} (ht : ∀ x ∈ l, x.target = c)
    (hc : (s.cmds c).exited = false) : ∀ x ∈ l, x.alive = true := by
  intro x hx
  by_contra hd
  have hdead := he.dead x hx (Bool.eq_false_iff.mpr hd)
  rw [ht x hx, hc] at hdead
  cases hdead

/-- A goroutine that finds the process running has waited its full time. -/
theorem Grants.of_check (hg : Grants s l .check) (hl : ∀ x ∈ l.head?, x.alive = true) :
    ∀ x ∈ l, x.Graced := by
  obtain ⟨htail, hhead, horder⟩ := hg
  cases l with
  | nil => exact nofun
  | cons x l =>
      have hx := hl x rfl
      rintro y (_ | ⟨_, hy⟩)
      · exact ⟨hhead x rfl hx, hx⟩
      · exact ⟨htail y hy, List.rel_of_pairwise_cons horder hy hx⟩

/-! ## Steps -/

/-- A call changes the record only where it launches the stopping goroutine. -/
theorem Graces.next_caller (u : Tid) :
    (h.next s (.caller u ch)).sent t = h.sent t ∨ (h.next s (.caller u ch)).sent t = [] := by
  simp only [next]
  split
  · by_cases htu : t = u
    · right
      rw [htu]
      exact Function.update_self _ _ _
    · left
      exact Function.update_of_ne htu _ _
  · exact .inl rfl

theorem Graces.next_launch {wait restart : Bool} (hp : s.callers t = .stopLaunch wait restart) :
    (h.next s (.caller t ch)).sent t = [] := by
  simp only [next, hp]
  exact Function.update_self _ _ _

theorem Graces.next_stopper_of_ne {u : Tid} (htu : t ≠ u) :
    (h.next s (.stopper u ch)).sent t = h.sent t := by
  simp only [next]
  split
  · exact Function.update_of_ne htu _ _
  · split <;> rfl
  · rfl

theorem Graces.next_stopper_of_eq (hp : s.stoppers t = .killing false job) {res : KillResult}
    (hj : job.step ch = some res) :
    (h.next s (.stopper t ch)).sent t = s.sent job (h.sent t) res := by
  simp only [next, hp, hj]
  exact Function.update_self _ _ _

theorem Graces.next_stopper (hp : ∀ job, s.stoppers t ≠ .killing false job) :
    (h.next s (.stopper t ch)).sent t = h.sent t := by
  simp only [next]
  split
  · exact absurd ‹_› (hp _)
  · split <;> rfl
  · rfl

/-! ### The stopping goroutine -/

/-- The wait behind the last signal ends. -/
theorem Ended.over {elapsed : Bool} {p : Option CmdId} (he : Ended s l.tail)
    (ht : ∀ x ∈ l, p = some x.target)
    (hx : elapsed = true ∨ ∀ c, p = some c → (s.cmds c).exited = true) :
    Grants s (s.over elapsed l) .check ∧ (elapsed = true → Ended s (s.over elapsed l)) := by
  cases l with
  | nil => exact ⟨⟨nofun, nofun, .nil⟩, fun _ ↦ .nil⟩
  | cons x l =>
      rw [List.tail_cons] at he
      have hp := ht x List.mem_cons_self
      have hbefore (hal : (!(s.cmds x.target).exited) = true) : ∀ y ∈ l, y.alive = true := by
        refine he.alive (fun y hy ↦ ?_) ((Bool.not_eq_true' _).mp hal)
        have hy := ht y (List.mem_cons_of_mem _ hy)
        rw [hp] at hy
        exact (Option.some.inj hy).symm
      have horder : (s.over elapsed (x :: l)).Pairwise fun x y ↦ x.alive = true → y.alive = true :=
        .cons (fun y hy hal ↦ hbefore hal y hy) he.order
      refine ⟨⟨he.elapsed, ?_, horder⟩, fun hel ↦ ⟨?_, ?_, horder⟩⟩
      · rintro y ⟨⟩ hal
        refine hx.resolve_right fun hgone ↦ ?_
        have hdead := (Bool.not_eq_true' _).mp hal
        rw [hgone _ hp] at hdead
        cases hdead
      · rintro y (_ | ⟨_, hy⟩)
        · exact hel
        · exact he.elapsed y hy
      · rintro y (_ | ⟨_, hy⟩) hd
        · exact (Bool.not_eq_false' _).mp hd
        · exact he.dead y hy hd

/-- Where the stopping goroutine is behind a step of `signals.Kill`. -/
def KillResult.stopper (kill : Bool) : KillResult → StopperPc
  | .more job _ => .killing kill job
  | .done => if kill then .done else .check
  | .crash => .crashed

theorem goStopper_stoppers (pc : StopperPc) : (s.goStopper t pc).stoppers t = pc :=
  Function.update_self _ _ _

theorem stopperStep_killing {kill : Bool} (hp : s.stoppers t = .killing kill job)
    (hst : s.stopperStep cfg t ch = some s') :
    ∃ res, job.step ch = some res ∧ s'.stoppers t = res.stopper kill := by
  simp only [Sys.stopperStep, hp, Option.map_eq_some_iff] at hst
  obtain ⟨res, hj, rfl⟩ := hst
  refine ⟨res, hj, ?_⟩
  cases res <;> exact goStopper_stoppers _

/-- A step of the `signals.Kill` that sends the stop signals. -/
theorem Grants.sent {res : KillResult} (hg : Grants s l (.killing false job)) (hj : job.To ch res)
    (hok : job.waiting = true → ch = .ok →
      ∀ c, job.process = some c → (s.cmds c).exited = true) :
    Grants s (s.sent job l res) (res.stopper false) := by
  obtain ⟨hst, ht, he⟩ := hg
  cases hj with
  | exited hw hch =>
      rw [if_pos hw] at he
      simp only [Sys.sent, hw, if_true]
      exact (he.over ht (.inr (hok hw hch))).1
  | elapsed hw =>
      rw [if_pos hw] at he
      refine ⟨hst, ?_, (he.over ht (.inl rfl)).2 rfl⟩
      cases l with
      | nil => exact nofun
      | cons x l =>
          rintro y (_ | ⟨_, hy⟩)
          · exact ht x List.mem_cons_self
          · exact ht y (List.mem_cons_of_mem _ hy)
  | finished hw =>
      rw [hw] at he
      simp only [Sys.sent, hw]
      refine ⟨fun x hx ↦ he.elapsed x (List.mem_of_mem_tail hx), fun x hx _ ↦ ?_, he.order⟩
      exact he.elapsed x (List.mem_of_mem_head? hx)
  | sent sig rest c hw hp =>
      rw [hw] at he
      refine ⟨hst, ?_, he⟩
      rintro y (_ | ⟨_, hy⟩)
      · exact hp
      · exact ht y hy
  | failed sig rest c hw hp => exact ⟨hst, ht, he⟩
  | crash => trivial

/-- A step of the stopping goroutine. -/
theorem Grants.stopper (hg : Grants s (h.sent t) (s.stoppers t))
    (hok : Discerning (s, h) (.stopper t ch)) (hst : s.stopperStep cfg t ch = some s') :
    Grants s ((h.next s (.stopper t ch)).sent t) (s'.stoppers t) := by
  cases hp : s.stoppers t with
  | off | done | crashed => simp [Sys.stopperStep, hp] at hst
  | send kill =>
      rw [Graces.next_stopper (by rw [hp]; exact nofun)]
      simp only [Sys.stopperStep, hp, Option.map_eq_some_iff] at hst
      obtain ⟨k, -, rfl⟩ := hst
      rw [hp] at hg
      split
      · rw [goStopper_stoppers]
        trivial
      · rw [goStopper_stoppers]
        cases kill with
        | false =>
            rw [show h.sent t = [] from hg]
            refine ⟨fun c hc ↦ (Option.filter_eq_some_iff.mp hc).2, nofun, .nil⟩
        | true => exact hg
  | check =>
      rw [Graces.next_stopper (by rw [hp]; exact nofun)]
      simp only [Sys.stopperStep, hp, Option.some.injEq] at hst
      subst hst
      rw [goStopper_stoppers]
      rw [hp] at hg
      simp only [Discerning, hp] at hok
      split
      · exact hg.of_check (hok ‹_›)
      · trivial
  | killing kill job =>
      obtain ⟨res, hj, hs'⟩ := stopperStep_killing hp hst
      rw [hs']
      rw [hp] at hg
      cases kill with
      | false =>
          rw [Graces.next_stopper_of_eq hp hj]
          simp only [Discerning, hp] at hok
          exact hg.sent (KillJob.step_to hj) hok
      | true =>
          rw [Graces.next_stopper (by rw [hp]; exact nofun)]
          cases res with
          | more => exact hg
          | done | crash => trivial

/-- A step of a process. -/
theorem Graces.grants_step (hc : s.toCore.Inv) (hg : ∀ t, Grants s (h.sent t) (s.stoppers t))
    (hok : Discerning (s, h) a) (hst : s.step cfg a = some s') (t : Tid) :
    Grants s' ((h.next s a).sent t) (s'.stoppers t) := by
  refine .mono (fun c ↦ hc.started_step hst) ?_
  by_cases ha : ∃ ch, a = .stopper t ch
  · obtain ⟨ch, rfl⟩ := ha
    exact (hg t).stopper hok hst
  · have hsent : (h.next s a).sent t = h.sent t ∨ (h.next s a).sent t = [] := by
      cases a with
      | caller u ch => exact next_caller u
      | stopper u ch => exact .inl (next_stopper_of_ne fun htu ↦ ha ⟨ch, by rw [htu]⟩)
      | _ => exact .inl rfl
    cases Sys.step_stopper_aside hst (fun ch hch ↦ ha ⟨ch, hch⟩) with
    | same he =>
        rw [he]
        rcases hsent with hsent | hsent
        · exact hsent ▸ hg t
        · exact hsent ▸ (hg t).nil
    | raise he =>
        rw [he]
        rcases hsent with hsent | hsent
        · exact hsent ▸ (hg t).raise
        · exact hsent ▸ (hg t).raise.nil
    | launch ch wait restart hch hp he =>
        subst hch
        rw [he, next_launch hp]
        exact rfl

/-! ## Every run -/

/-- What a step adds to the forced kills. -/
theorem Graces.next_forced {k : Forced} (hk : k ∈ (h.next s a).forced) :
    k ∈ h.forced ∨ ∃ job, s.stoppers k.caller = .killing true job ∧ k.sent = h.sent k.caller := by
  cases a with
  | stopper t ch =>
      simp only [next] at hk
      split at hk
      · exact .inl hk
      · rename_i job hp
        split at hk
        · rcases List.mem_cons.mp hk with rfl | hk
          · exact .inr ⟨job, hp, rfl⟩
          · exact .inl hk
        · exact .inl hk
      · exact .inl hk
  | caller t ch =>
      simp only [next] at hk
      split at hk <;> exact .inl hk
  | _ => exact .inl hk

/-- The record of a process stands for the waits its goroutines have gone through. -/
structure Graces.Kept (s : Sys) (h : Graces) : Prop where
  grants : ∀ t, Grants s (h.sent t) (s.stoppers t)
  forced : ∀ k ∈ h.forced, ∀ x ∈ k.sent, x.Graced

theorem graces_kept {w : Sys × Graces} (hw : (graces cfg).Reach Discerning w) : w.2.Kept w.1 := by
  refine hw.invariant (P := fun w ↦ w.2.Kept w.1) ⟨fun _ ↦ trivial, nofun⟩ ?_
  intro v a v' hv hk hok hst
  obtain ⟨s', hs', rfl⟩ := Machine.observe_step_eq_some.mp hst
  refine ⟨Graces.grants_step (reachable_inv hv.fst) hk.grants hok hs', fun k hmem ↦ ?_⟩
  rcases Graces.next_forced hmem with hmem | ⟨job, hp, hsent⟩
  · exact hk.forced k hmem
  · have hg := hk.grants k.caller
    rw [hp] at hg
    exact hsent ▸ hg

/-- **Grace.**  However the processes of the supervisor, their exits and the timers interleave: as
long as no goroutine of a `Stop` takes the exit of another child for that of its own, or finds a
process running whose child was gone before its waiting was over, `Stop` resorts to KILL only where
the process was alive when `stopwaitsecs` had elapsed behind each stop signal it was sent. -/
theorem graced {ι : Type u} [DecidableEq ι] {cfg : ι → Config} {w : ι → Sys × Graces}
    (hw : (processes cfg).Reach (fun w x ↦ Discerning (w x.1) x.2) w) (i : ι) :
    ∀ k ∈ (w i).2.forced, ∀ x ∈ k.sent, x.Graced := by
  have hfamily : (Machine.family (fun i ↦ graces (cfg i)) Act.loud .sigchld).Reach
      (fun w x ↦ Discerning (w x.1) x.2) w := hw
  have hi : (graces (cfg i)).Reach Discerning (w i) :=
    hfamily.component (fun _ _ _ hok ↦ hok) (fun _ _ ↦ trivial) i
  exact (graces_kept hi).forced

/-- The process `true` is sent TERM. -/
def stopped : List (Bool × Act) :=
  List.flatten [startAndRun, [.call 1 (.stop false)], .replicate 6 (.caller 1 .ok),
    .replicate 2 (.stopper 1 .ok)] |>.map (true, ·)

/-- Steps that are easily seen to be `Discerning`. -/
def clear (w : Bool → Sys × Graces) (x : Bool × Act) : Bool :=
  match x.2 with
  | .stopper t ch => match (w x.1).1.stoppers t with
    | .killing false job => !job.waiting || ch != .ok
    | .check => ((w x.1).2.sent t).head?.all Sent.alive
    | _ => true
  | _ => true

theorem discerning_of_clear {w : Bool → Sys × Graces} {x : Bool × Act} (hx : clear w x = true) :
    Discerning (w x.1) x.2 := by
  obtain ⟨i, a⟩ := x
  cases a with
  | stopper t ch =>
      simp only [clear, Discerning] at hx ⊢
      split
      · rename_i hj
        intro hwait hch
        simp [hj, hwait, hch] at hx
      · rename_i hj
        intro _ y hy
        rw [hj] at hx
        simpa [Option.mem_def.mp hy] using hx
      · trivial
  | _ => trivial

set_option maxRecDepth 8000 in
/-- The child of `true` outlives its grace period. -/
theorem graced_late : ∃ w : Bool → Sys × Graces, (processes fun _ : Bool ↦ {}).Reach
    (fun w x ↦ Discerning (w x.1) x.2) w ∧ (w true).2.forced ≠ [] ∧
      ∀ k ∈ (w true).2.forced, ∀ x ∈ k.sent, x.Graced := by
  obtain ⟨w, hw, hp⟩ := Machine.exists_reach (m := processes fun _ : Bool ↦ {})
    clear (fun w ↦ (w true).2.forced ≠ [])
    (List.flatten [startAndRun.map (false, ·), stopped, [(true, .stopper 1 .timeout)],
      .replicate 4 (true, .stopper 1 .ok)])
    (fun w x _ hx ↦ discerning_of_clear hx) (by decide +kernel)
  exact ⟨w, hw, of_decide_eq_true hp, graced hw true⟩

set_option maxRecDepth 8000 in
/-- The child of `false` exits, and `true` is killed before its grace period is over. -/
theorem graced_early : ¬∀ (cfg : Bool → Config) (w : Bool → Sys × Graces) (i : Bool),
    (processes cfg).Reachable w → ∀ k ∈ (w i).2.forced, ∀ x ∈ k.sent, x.Graced := by
  intro h
  obtain ⟨w, hw, hp⟩ := Machine.exists_reachable (m := processes fun _ : Bool ↦ {})
    (fun w ↦ (w true).2.forced = [⟨1, 0, [⟨0, false, true⟩]⟩])
    (List.flatten [startAndRun.map (false, ·), stopped, [(false, .exit 0 (some 0))],
      .replicate 4 (true, .stopper 1 .ok)]) (by decide +kernel)
  have hx := h _ w true hw ⟨1, 0, [⟨0, false, true⟩]⟩ (by rw [of_decide_eq_true hp]; exact .head _)
    _ (.head _)
  cases hx.1

end Supervisord.Process
