import Supervisord.Process.Grace
import Supervisord.Process.Retired

/-!
# All processes are stopped

`IsAllProcessesStopped` loads the states of the processes one after the other, while the processes
go on.  It does not look at their start loops: `stopped_noChild` says what has to hold of a process
that is found not to be running, for no child to come when the call has returned `true`.
-/

universe u

namespace Supervisord.Manager

open Process

/-- The processes of a table, in any interleaving.  An exit raises SIGCHLD in all of them. -/
def table {ι : Type u} [DecidableEq ι] (cfg : ι → Process.Config) :
    Machine (ι → Sys) (ι × Process.Act) :=
  .family (fun i ↦ machine (cfg i)) Act.loud .sigchld

/-- The processes beside a goroutine that calls `IsAllProcessesStopped`. -/
structure Scan (ι : Type u) where
  procs : ι → Sys
  /-- What `getAllProcess` has returned. -/
  all : List ι := []
  /-- The processes the call has found not to be running. -/
  seen : List ι := []
  /-- The processes whose states are still to be loaded, while a call is under way. -/
  todo : Option (List ι) := none
  /-- What the call returns, in the moment it does. -/
  result : Option Bool := none

namespace Scan

variable {ι : Type u}

inductive Act (ι : Type u) where
  | proc (i : ι) (a : Process.Act)
  /-- `IsAllProcessesStopped` is called. -/
  | call (all : List ι)
  /-- The call loads a state, or it returns. -/
  | next

variable [DecidableEq ι] (cfg : ι → Process.Config) (s : Scan ι)

def step : Act ι → Option (Scan ι)
  | .proc i a => ((table cfg).step s.procs (i, a)).map fun procs ↦ { s with procs, result := none }
  | .call all => match s.todo with
    | none => some { s with all, seen := [], todo := some all, result := none }
    | some _ => none
  | .next => match s.todo with
    | none => none
    | some [] => some { s with seen := [], todo := none, result := some true }
    | some (i :: todo) =>
      if (s.procs i).state.isRunning then
        some { s with seen := [], todo := none, result := some false }
      else some { s with seen := s.seen ++ [i], todo := some todo, result := none }

end Scan

/-- Processes and calls of `IsAllProcessesStopped`, one after the other under `pm.lock`. -/
def isAllProcessesStopped {ι : Type u} [DecidableEq ι] (cfg : ι → Process.Config) :
    Machine (Scan ι) (Scan.Act ι) where
  init := { procs := (table cfg).init }
  step s a := s.step cfg a

namespace Scan

variable {ι : Type u} [DecidableEq ι] {cfg : ι → Process.Config} {s s' : Scan ι} {i : ι}

/-- A call that returns `true` does so when no child comes but with another `Start`. -/
def Stopped (cfg : ι → Process.Config) (s : Scan ι) : Prop :=
  s.result = some true → ∀ i ∈ s.all, (s.procs i).NoChild (cfg i)

/-- A process that is found not to be running has no attempt, no retry and no restart ahead, and no
`Start` is accepted by it before the call returns. -/
def Settled (cfg : ι → Process.Config) (s : Scan ι) : Act ι → Prop
  | .proc i a => i ∈ s.seen → ((s.procs i).label a).accepts = false
  | .call _ => True
  | .next => ∀ todo ∈ s.todo, ∀ i ∈ todo.head?, (s.procs i).state.isRunning = false →
      (s.procs i).toCore.Retired (cfg i)

structure Inv (cfg : ι → Process.Config) (s : Scan ι) : Prop where
  procs : (table cfg).Reachable s.procs
  seen : ∀ i ∈ s.seen, (s.procs i).toCore.Retired (cfg i)
  all : ∀ todo ∈ s.todo, s.all = s.seen ++ todo
  result : s.result = some true → ∀ i ∈ s.all, (s.procs i).toCore.Retired (cfg i)

theorem Inv.reachable (h : Inv cfg s) (i : ι) : (machine (cfg i)).Reachable (s.procs i) := by
  let ok : ι → Sys → Process.Act → Prop := fun _ _ _ ↦ True
  have hi : (machine (cfg i)).Reach (ok i) (s.procs i) :=
    h.procs.component (fun _ _ _ _ ↦ trivial) (fun _ _ ↦ trivial) i
  exact hi

/-- A step of the processes. -/
theorem Inv.proc (h : Inv cfg s) {j : ι} {a : Process.Act} {procs : ι → Sys}
    (hst : (table cfg).step s.procs (j, a) = some procs)
    (ha : i = j → ((s.procs j).label a).accepts = false)
    (hi : (s.procs i).toCore.Retired (cfg i)) : (procs i).toCore.Retired (cfg i) := by
  have hc := reachable_inv (h.reachable i)
  by_cases hij : i = j
  · subst hij
    obtain ⟨t, ht, rfl⟩ := Machine.family_step_eq_some.mp hst
    rw [Function.update_self]
    exact hi.move hc (hc.step_move ht) (ha rfl)
  · cases Machine.component_of_ne hst hij with
    | same he =>
        rw [he]
        exact hi
    | heard ht => exact hi.move hc (hc.step_move (a := .sigchld) ht) rfl

theorem Inv.step {a : Act ι} (h : Inv cfg s) (ha : s.Settled cfg a)
    (hst : s.step cfg a = some s') : Inv cfg s' := by
  cases a with
  | proc i a =>
      obtain ⟨procs, hprocs, rfl⟩ := Option.map_eq_some_iff.mp hst
      refine ⟨.step h.procs trivial hprocs, fun j hj ↦ ?_, h.all, nofun⟩
      exact h.proc hprocs (fun he ↦ ha (he ▸ hj)) (h.seen j hj)
  | call all =>
      rw [Scan.step] at hst
      cases htodo : s.todo with
      | some todo =>
          rw [htodo] at hst
          cases hst
      | none =>
          rw [htodo] at hst
          cases hst
          refine ⟨h.procs, nofun, ?_, nofun⟩
          rintro _ ⟨⟩
          rfl
  | next =>
      rw [Scan.step] at hst
      cases htodo : s.todo with
      | none =>
          rw [htodo] at hst
          cases hst
      | some todo =>
          cases todo with
          | nil =>
              rw [htodo] at hst
              cases hst
              refine ⟨h.procs, nofun, nofun, fun _ i hi ↦ h.seen i ?_⟩
              have hall := h.all [] htodo
              rw [List.append_nil] at hall
              exact hall ▸ hi
          | cons i todo =>
              rw [htodo] at hst
              by_cases hr : (s.procs i).state.isRunning = true
              · dsimp only at hst
                rw [if_pos hr] at hst
                cases hst
                exact ⟨h.procs, nofun, nofun, nofun⟩
              · dsimp only at hst
                rw [if_neg hr] at hst
                cases hst
                refine ⟨h.procs, fun j hj ↦ ?_, ?_, nofun⟩
                · rcases List.mem_append.mp hj with hj | hj
                  · exact h.seen j hj
                  · obtain rfl := List.mem_singleton.mp hj
                    exact ha _ htodo j rfl (Bool.not_eq_true _ ▸ hr)
                · rintro _ ⟨⟩
                  rw [List.append_assoc]
                  exact h.all _ htodo

theorem Inv.init : Inv cfg (isAllProcessesStopped cfg).init := ⟨.init, nofun, nofun, nofun⟩

end Scan

/-- **All stopped.**  In a run in which a process that is found not to be running has no attempt, no
retry and no restart ahead, no child comes without another `Start` when `IsAllProcessesStopped` has
returned `true`. -/
theorem stopped_noChild {ι : Type u} [DecidableEq ι] {cfg : ι → Process.Config} {s : Scan ι}
    (hs : (isAllProcessesStopped cfg).Reach (Scan.Settled cfg) s) : s.Stopped cfg := by
  have hinv : Scan.Inv cfg s :=
    hs.invariant .init fun _ _ _ _ h ha hst ↦ h.step ha hst
  exact fun hr i hi ↦ (hinv.result hr i hi).noChild (hinv.reachable i)

/-- A program is started, comes up, and is stopped. -/
def startAndStop : List Process.Act :=
  List.flatten [startAndRun, [.call 1 (.stop false)], .replicate 6 (.caller 1 .ok),
    .replicate 2 (.stopper 1 .ok), [.exit 0 (some 0), .stopper 1 .ok], .replicate 6 (.waiter 0),
    [.stopper 1 .ok], .replicate 12 (.loop 0 .ok)]

set_option maxRecDepth 4000 in
/-- Two programs have run and have been stopped. -/
theorem stopped_noChild_ended : ∃ s : Scan Bool, s.result = some true ∧ s.all = [false, true] ∧
    (∀ i, ((s.procs i).cmds 0).started = true) ∧ s.Stopped fun _ ↦ {} := by
  obtain ⟨s, hs, hp⟩ : ∃ s, (isAllProcessesStopped fun _ : Bool ↦ {}).Reach
      (Scan.Settled fun _ ↦ {}) s ∧ _ := Machine.exists_reach
    (fun s a ↦ match a with
      | .proc _ _ => s.seen = []
      | .call _ => true
      | .next => s.todo.all fun todo ↦ todo.head?.all fun i ↦ !(s.procs i).inStart)
    (fun s ↦ s.result = some true ∧ s.all = [false, true] ∧
      ((s.procs false).cmds 0).started = true ∧ ((s.procs true).cmds 0).started = true)
    (startAndStop.map (.proc false) ++ startAndStop.map (.proc true) ++
      [.call [false, true], .next, .next, .next])
    (fun s a hs hp ↦ by
      have hinv : Scan.Inv (fun _ ↦ {}) s := hs.invariant .init fun _ _ _ _ h ha hst ↦ h.step ha hst
      cases a with
      | proc i a =>
          intro hi
          rw [of_decide_eq_true hp] at hi
          cases hi
      | call all => trivial
      | next =>
          -- the start loop of a process that is looked at has ended
          intro todo htodo i hi _
          refine (reachable_inv (hinv.reachable i)).retired ?_
          have hall := (Option.all_eq_true _ _).mp hp todo htodo
          simpa using (Option.all_eq_true _ _).mp hall i hi)
    (by decide +kernel)
  obtain ⟨hr, hall, hf, ht⟩ := of_decide_eq_true hp
  exact ⟨s, hr, hall, Bool.forall_bool.mpr ⟨hf, ht⟩, stopped_noChild hs⟩

/-- A program that could not be spawned is in `Backoff` when the call returns, and then its next
attempt succeeds. -/
theorem stopped_backoff : ¬∀ (cfg : Unit → Process.Config) (s : Scan Unit),
    (isAllProcessesStopped cfg).Reachable s → s.Stopped cfg := by
  intro h
  obtain ⟨s, hs, hp⟩ := Machine.exists_reachable (m := isAllProcessesStopped fun _ : Unit ↦ {})
    (fun s ↦ s.result = some true ∧ s.all = [()] ∧ ((s.procs ()).cmds 1).started = false ∧
      ((machine {}).execWhile (fun s a ↦ !(s.label a).accepts) (s.procs ())
        (.replicate 9 (.loop 0 .ok))).any fun s' ↦ (s'.cmds 1).started)
    (List.flatten [List.map (.proc ()) (List.flatten [[.call 0 (.start false), .caller 0 .ok],
      .replicate 10 (.loop 0 .ok), [.loop 0 .fail], .replicate 3 (.loop 0 .ok)]),
      [.call [()], .next, .next]]) (by decide +kernel)
  obtain ⟨hr, hall, hno, hany⟩ := of_decide_eq_true hp
  obtain ⟨s', hexec, hstarted⟩ := (Option.any_eq_true _ _).mp hany
  have heq := h _ s hs hr () (hall ▸ List.mem_singleton_self ()) _ s' hexec 1
  rw [hno, hstarted] at heq
  cases heq

end Supervisord.Manager
