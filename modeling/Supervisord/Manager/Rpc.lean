import Supervisord.Manager.Stopped
import Supervisord.Protocol.Gather

/-!
# Starting and stopping many processes

`StartAllProcesses`, `StartProcessGroup`, `StopAllProcesses` and `StopProcessGroup` launch a
goroutine for each process of the table, `forOneProcess`, which calls `Start` or `Stop` and then
sends the process on a channel without a buffer; the handler receives as many processes as there
are.  The `StopAllProcesses` of the manager, which `Shutdown` calls, does the same with a
`sync.WaitGroup`.

`gathers` says what a handler has collected at any time, in any interleaving with the processes and
with other requests, and that it does not hang.
-/

universe u v

namespace Supervisord.Manager

open Process

/-- What a handler does to the processes: the method it calls, and for which of them. -/
structure Handler (ι : Type u) where
  op : Op
  selected : ι → Bool

namespace Handler

variable {ι : Type u} {γ : Type v} [DecidableEq γ]

def startAllProcesses (wait : Bool) : Handler ι := ⟨.start wait, fun _ ↦ true⟩

def startProcessGroup (getGroup : ι → γ) (name : γ) (wait : Bool) : Handler ι :=
  ⟨.start wait, fun proc ↦ getGroup proc = name⟩

def stopProcessGroup (getGroup : ι → γ) (name : γ) (wait : Bool) : Handler ι :=
  ⟨.stop wait, fun proc ↦ getGroup proc = name⟩

def stopAllProcesses (wait : Bool) : Handler ι := ⟨.stop wait, fun _ ↦ true⟩

variable [DecidableEq ι]

/-- `forOneProcess`: the call and what it is to have returned. -/
def forOneProcess (cfg : ι → Process.Config) (h : Handler ι) :
    Gather.Errand ι (ι → Sys) Tid where
  wanted := h.selected
  call proc t procs := (table cfg).step procs (proc, .call t h.op)
  returned proc t procs := (procs proc).callers t = .done

/-- A handler that has found these processes in the table.  It is `eager` if it counts in a
`WaitGroup`, which a goroutine may do before the others are launched. -/
def asyncForEachProcess (cfg : ι → Process.Config) (h : Handler ι) (eager : Bool) (procs : List ι) :
    Machine (Gather ι (ι → Sys) Tid) (Gather.Act ι (ι × Process.Act) Tid) :=
  Gather.machine (table cfg) (h.forOneProcess cfg) eager procs

/-- The processes of the reply. -/
def reply (h : Handler ι) (s : Gather ι (ι → Sys) Tid) : List ι := s.taken.filter h.selected

/-- The handler has received as many processes as it has launched goroutines for. -/
def Returned (procs : List ι) (s : Gather ι (ι → Sys) Tid) : Prop :=
  s.taken.length = procs.length

end Handler

/-! ## A call that has returned -/

theorem done_step {cfg : Process.Config} {s s' : Sys} {a : Process.Act} {t : Tid}
    (h : s.step cfg a = some s') (hd : s.callers t = .done) : s'.callers t = .done := by
  rcases Sys.step_callers h t with ⟨op, -, hi, -⟩ | ⟨ch, rfl⟩ | ha
  · rw [hd] at hi
    cases hi
  · simp [Sys.step, Sys.callerStep, hd] at h
  · rw [hd] at ha
    generalize s'.callers t = pc at ha
    cases ha
    rfl

variable {ι : Type u} [DecidableEq ι] {cfg : ι → Process.Config} {h : Handler ι} {eager : Bool}
  {procs : List ι} {s : Gather ι (ι → Sys) Tid}

theorem table_done {w w' : ι → Sys} {x : ι × Process.Act} (hst : (table cfg).step w x = some w')
    {i : ι} {t : Tid} (hd : (w i).callers t = .done) : (w' i).callers t = .done := by
  obtain ⟨j, a⟩ := x
  by_cases hij : i = j
  · subst hij
    obtain ⟨s, hs, rfl⟩ := Machine.family_step_eq_some.mp hst
    rw [Function.update_self]
    exact done_step hs hd
  · cases Machine.component_of_ne hst hij with
    | same he => rw [he, hd]
    | heard hs => exact @done_step (cfg i) _ _ .sigchld t hs hd

theorem stable_forOneProcess : (h.forOneProcess cfg).Stable (table cfg) := by
  intro i t w w' hw hr
  have hd : (w i).callers t = .done := of_decide_eq_true hr
  refine decide_eq_true ?_
  rcases hw with ⟨x, hx⟩ | ⟨j, u, hx⟩
  · exact table_done hx hd
  · exact table_done hx hd

/-! ## A call can be made -/

/-- Only finitely many calls have been made. -/
theorem exists_idle {cfg : Process.Config} {s : Sys} (hs : (machine cfg).Reachable s) :
    ∃ n, ∀ t, n ≤ t → s.callers t = .idle := by
  induction hs with
  | init => exact ⟨0, fun _ _ ↦ rfl⟩
  | @step s a s' _ _ hst ih =>
      obtain ⟨n, hn⟩ := ih
      have hlater {t : Tid} (ht : n ≤ t) (ha : ∀ op, a ≠ .call t op) : s'.callers t = .idle := by
        have hi := hn t ht
        rcases Sys.step_callers hst t with ⟨op, rfl, -⟩ | ⟨ch, rfl⟩ | hc
        · exact absurd rfl (ha op)
        · simp [machine, Sys.step, Sys.callerStep, hi] at hst
        · rw [hi] at hc
          generalize s'.callers t = pc at hc
          cases hc
          rfl
      cases a with
      | call u op =>
          refine ⟨max n (u + 1), fun t ht ↦ hlater (Nat.le_trans (Nat.le_max_left _ _) ht) ?_⟩
          rintro op' ⟨⟩
          exact Nat.not_succ_le_self _ (Nat.le_trans (Nat.le_max_right _ _) ht)
      | _ => exact ⟨n, fun t ht ↦ hlater ht fun _ ↦ by simp⟩

theorem exists_call {w : ι → Sys} (hw : (table cfg).Reachable w) (proc : ι) (op : Op) :
    ∃ t, (table cfg).step w (proc, .call t op) ≠ none := by
  let ok : ι → Sys → Process.Act → Prop := fun _ _ _ ↦ True
  have hr : (machine (cfg proc)).Reach (ok proc) (w proc) :=
    hw.component (fun _ _ _ _ ↦ trivial) (fun _ _ ↦ trivial) proc
  obtain ⟨n, hn⟩ := exists_idle hr
  have hi := hn n (Nat.le_refl n)
  exact ⟨n, by simp [table, Machine.family, machine, Sys.step, hi]⟩

/-- Beside a handler the processes go on as ever. -/
theorem world_reachable (hs : (h.asyncForEachProcess cfg eager procs).Reachable s) :
    (table cfg).Reachable s.world :=
  Gather.world_reachable (fun proc t _ _ hw ↦ ⟨(proc, .call t h.op), hw⟩) hs

theorem call_enabled (hs : (h.asyncForEachProcess cfg eager procs).Reachable s) {proc : ι}
    (hw : s.workers proc = .ready) (hsel : h.selected proc = true) :
    ∃ t, (h.asyncForEachProcess cfg eager procs).step s (.call proc t) ≠ none := by
  obtain ⟨t, ht⟩ := exists_call (world_reachable hs) proc h.op
  refine ⟨t, ?_⟩
  simpa [Handler.asyncForEachProcess, Gather.machine, Gather.step, hw, Handler.forOneProcess, hsel]
    using ht

end Supervisord.Manager
