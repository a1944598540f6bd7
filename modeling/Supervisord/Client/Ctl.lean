import Supervisord.Go.Strings
import Supervisord.Manager.Rpc
import Supervisord.Protocol.Plan

/-!
# Restarting through the client

`ctl restart` asks the supervisor to stop the processes, name by name, and then to start them.
`StopProcess` and `StartProcess` call the method for each of the processes that are found for the
name, one after the other, and look at all of them then; `StopAllProcesses` and `StartAllProcesses`
do not look.  The client exits where a request fails.

`restartProcesses_order` is about every interleaving of this with the processes and with other
requests.  How a request and its answer are sent is left out.
-/

universe u

namespace Supervisord.CtlCommand

open Go Process Manager
open Plan (Job Done Splits calls calls_append)

inductive Verb
  | start
  | stop
deriving DecidableEq

/-- What is called, with `Wait: true`. -/
def Verb.op : Verb → Op
  | .start => .start true
  | .stop => .stop true

/-- What a request fails at. -/
inductive Check (ι : Type u)
  /-- There is no process of the name. -/
  | found
  /-- The process runs, or does not. -/
  | changed (verb : Verb) (proc : ι)
deriving DecidableEq

variable {ι : Type u}

/-- `StartProcess` and `StopProcess`, for the processes that `FindMatch` has returned. -/
def changeProcess (verb : Verb) (procs : List ι) : List (Job (Verb × ι) (Check ι)) :=
  if procs.length ≤ 0 then [.test .found]
  else (procs.map fun proc ↦ .batch [(verb, proc)]) ++
    procs.map fun proc ↦ .test (.changed verb proc)

/-- `StartAllProcesses` and `StopAllProcesses`, for the processes of the table. -/
def changeAllProcesses (verb : Verb) (procs : List ι) : List (Job (Verb × ι) (Check ι)) :=
  [.batch (procs.map fun proc ↦ (verb, proc))]

variable (find : Verb → Str → List ι)

/-- `_startStopProcesses`, where `find` is for the processes that a request finds for a name, which
are all that there are for `all`. -/
def startStopProcesses (verb : Verb) (processes : List Str) : List (Job (Verb × ι) (Check ι)) :=
  processes.flatMap fun pname ↦
    if pname = str "all" then changeAllProcesses verb (find verb pname)
    else changeProcess verb (find verb pname)

def restartProcesses (processes : List Str) : List (Job (Verb × ι) (Check ι)) :=
  startStopProcesses find .stop processes ++ startStopProcesses find .start processes

variable [DecidableEq ι] (cfg : ι → Process.Config)

def errand : Plan.Errand (Verb × ι) (ι → Sys) Tid (Check ι) where
  call k t procs := (table cfg).step procs (k.2, .call t k.1.op)
  returned k t procs := (procs k.2).callers t = .done
  holds
    | .found, _ => false
    | .changed .start proc, procs => (procs proc).state.isRunning
    | .changed .stop proc, procs => !(procs proc).state.isRunning

/-- A restart beside the processes and other requests. -/
def restart (processes : List Str) :
    Machine (Plan (Verb × ι) (ι → Sys) Tid (Check ι))
      (Plan.Act (Verb × ι) (ι × Process.Act) Tid) :=
  Plan.machine (table cfg) (errand cfg) (restartProcesses find processes)

variable {find cfg} {verb : Verb} {procs : List ι} {processes : List Str} {proc : ι} {t : Tid}
  {k : Verb × ι} {s : Plan (Verb × ι) (ι → Sys) Tid (Check ι)}

/-! ## The calls of a request -/

omit [DecidableEq ι] in
theorem calls_changeProcess :
    calls (changeProcess verb procs) = procs.map fun proc ↦ (verb, proc) := by
  unfold changeProcess
  split
  · rename_i h
    rw [List.length_eq_zero_iff.mp (Nat.le_zero.mp h)]
    rfl
  · have hbatch : calls (procs.map fun proc ↦ (.batch [(verb, proc)] : Job (Verb × ι) (Check ι))) =
        procs.map fun proc ↦ (verb, proc) := by
      rw [calls, List.flatMap_map]
      exact List.map_eq_flatMap.symm
    have htest : calls (procs.map fun proc ↦
        (.test (.changed verb proc) : Job (Verb × ι) (Check ι))) = [] := by
      rw [calls, List.flatMap_map]
      exact List.flatMap_eq_nil_iff.mpr fun _ _ ↦ rfl
    rw [calls_append, hbatch, htest, List.append_nil]

omit [DecidableEq ι] in
theorem calls_changeAllProcesses :
    calls (changeAllProcesses verb procs) = procs.map fun proc ↦ (verb, proc) := by
  simp [calls, changeAllProcesses]

omit [DecidableEq ι] in
/-- Each process that is found for one of the names is called. -/
theorem mem_calls_startStopProcesses : k ∈ calls (startStopProcesses find verb processes) ↔
    k.1 = verb ∧ ∃ pname ∈ processes, k.2 ∈ find verb pname := by
  induction processes with
  | nil => simp [startStopProcesses, calls]
  | cons pname processes ih =>
      have hcons : startStopProcesses find verb (pname :: processes) =
          (if pname = str "all" then changeAllProcesses verb (find verb pname)
            else changeProcess verb (find verb pname)) ++
          startStopProcesses find verb processes := List.flatMap_cons
      have hcalls : calls (if pname = str "all" then changeAllProcesses verb (find verb pname)
          else changeProcess verb (find verb pname)) =
            (find verb pname).map fun proc ↦ (verb, proc) := by
        split
        · exact calls_changeAllProcesses
        · exact calls_changeProcess
      rw [hcons, calls_append, List.mem_append, hcalls, ih]
      obtain ⟨v, proc⟩ := k
      simp only [List.mem_map, Prod.mk.injEq, List.mem_cons, exists_eq_or_imp]
      constructor
      · rintro (⟨p, hp, rfl, rfl⟩ | ⟨rfl, h⟩)
        · exact ⟨rfl, .inl hp⟩
        · exact ⟨rfl, .inr h⟩
      · rintro ⟨rfl, h | h⟩
        · exact .inl ⟨proc, h, rfl, rfl⟩
        · exact .inr ⟨rfl, h⟩

/-! ## Beside the processes -/

theorem stable_errand : (errand cfg).Stable (table cfg) := by
  intro k t w w' hw hr
  have hd : (w k.2).callers t = .done := of_decide_eq_true hr
  refine decide_eq_true ?_
  rcases hw with ⟨x, hx⟩ | ⟨k', u, hx⟩
  · exact table_done hx hd
  · exact table_done hx hd

theorem call_enabled (hs : (restart find cfg processes).Reachable s) (hk : k ∈ s.waiting) :
    ∃ t, (restart find cfg processes).step s (.call k t) ≠ none := by
  have hr : (table cfg).Reachable s.world :=
    Plan.world_reachable (fun k t _ _ hw ↦ ⟨(k.2, .call t k.1.op), hw⟩) hs
  obtain ⟨t, ht⟩ := exists_call hr k.2 k.1.op
  refine ⟨t, ?_⟩
  simpa [restart, Plan.machine, Plan.step, hk, errand] using ht

end Supervisord.CtlCommand
