import Mathlib.Data.List.Nodup
import Mathlib.Data.List.Perm.Subperm
import Supervisord.Machine.Basic

/-!
# Gathering what workers have done

A collector launches one worker for each item of a list.  A worker makes a call for its item, if it
wants one; when the call has returned it offers the item, and ends when the offer is taken.  The
collector takes as many offers as it has launched workers.

The calls are made in a world that goes on by itself, the machine `m`.  `Inv` says what the offers
taken so far are, `perm_of_length_eq` what they are in the end, and `progress` that the collector
waits for nothing but the calls.
-/

universe u v w x

namespace Gather

/-- What a worker is doing.  A worker that is through keeps the call it has made. -/
inductive Worker (β : Type x) where
  /-- Not launched. -/
  | absent
  | ready
  | calling (b : β)
  /-- The item is offered. -/
  | offering (call : Option β)
  /-- The offer has been taken. -/
  | gone (call : Option β)

/-- The calls of the workers. -/
structure Errand (ι : Type u) (σ : Type v) (β : Type x) where
  /-- Whether there is a call to be made for the item. -/
  wanted : ι → Bool
  /-- The call is made. -/
  call : ι → β → σ → Option σ
  /-- The call has returned. -/
  returned : ι → β → σ → Bool

inductive Act (ι : Type u) (α : Type w) (β : Type x) where
  | world (a : α)
  | launch
  | skip (i : ι)
  | call (i : ι) (b : β)
  | finish (i : ι)
  | take (i : ι)

/-- The action is none of the collector and its workers. -/
def Act.ofWorld {ι : Type u} {α : Type w} {β : Type x} : Act ι α β → Bool
  | .world _ => true
  | .launch | .skip _ | .call _ _ | .finish _ | .take _ => false

end Gather

/-- A collector and its workers. -/
structure Gather (ι : Type u) (σ : Type v) (β : Type x) where
  world : σ
  /-- The items whose workers are still to be launched. -/
  todo : List ι
  workers : ι → Gather.Worker β := fun _ ↦ .absent
  /-- The items whose offers have been taken, oldest first. -/
  taken : List ι := []

namespace Gather

variable {ι : Type u} {σ : Type v} {α : Type w} {β : Type x} [DecidableEq ι]

def goWorker (s : Gather ι σ β) (i : ι) (x : Worker β) : Gather ι σ β :=
  { s with workers := Function.update s.workers i x }

/-- A step.  Offers are taken before all workers are launched only if the collector is `eager`. -/
def step (m : Machine σ α) (e : Errand ι σ β) (eager : Bool) (s : Gather ι σ β) :
    Act ι α β → Option (Gather ι σ β)
  | .world a => (m.step s.world a).map fun w ↦ { s with world := w }
  | .launch => match s.todo with
    | [] => none
    | i :: todo => some ({ s with todo }.goWorker i .ready)
  | .skip i => match s.workers i with
    | .ready => if e.wanted i then none else some (s.goWorker i (.offering none))
    | .absent | .calling _ | .offering _ | .gone _ => none
  | .call i b => match s.workers i with
    | .ready => if e.wanted i then
        (e.call i b s.world).map fun w ↦ { s with world := w }.goWorker i (.calling b)
      else none
    | .absent | .calling _ | .offering _ | .gone _ => none
  | .finish i => match s.workers i with
    | .calling b =>
      if e.returned i b s.world then some (s.goWorker i (.offering (some b))) else none
    | .absent | .ready | .offering _ | .gone _ => none
  | .take i => match s.workers i with
    | .offering c => if eager || s.todo.isEmpty then
        some ({ s with taken := s.taken ++ [i] }.goWorker i (.gone c))
      else none
    | .absent | .ready | .calling _ | .gone _ => none

/-- A collector for these items, in a world that goes on. -/
def machine (m : Machine σ α) (e : Errand ι σ β) (eager : Bool) (all : List ι) :
    Machine (Gather ι σ β) (Act ι α β) where
  init := { world := m.init, todo := all }
  step s a := s.step m e eager a

/-- A call that has returned stays so, whatever happens in the world. -/
def Errand.Stable (m : Machine σ α) (e : Errand ι σ β) : Prop :=
  ∀ i b w w', ((∃ a, m.step w a = some w') ∨ ∃ j b', e.call j b' w = some w') →
    e.returned i b w = true → e.returned i b w' = true

variable {m : Machine σ α} {e : Errand ι σ β} {eager : Bool} {all : List ι}
  {s s' : Gather ι σ β} {a : Act ι α β} {i j : ι}

/-- The worker is through with its call. -/
def Worker.through : Worker β → Option (Option β)
  | .offering c | .gone c => some c
  | .absent | .ready | .calling _ => none

/-- What has been launched and taken. -/
structure Inv (e : Errand ι σ β) (all : List ι) (s : Gather ι σ β) : Prop where
  launched : ∃ pre, all = pre ++ s.todo ∧ ∀ i, s.workers i ≠ .absent ↔ i ∈ pre
  nodup : s.taken.Nodup
  taken : ∀ i, i ∈ s.taken ↔ ∃ c, s.workers i = .gone c
  answered : ∀ i c, (s.workers i).through = some c → e.wanted i = true →
    ∃ b, c = some b ∧ e.returned i b s.world = true

theorem Inv.init : Inv e all (machine m e eager all).init where
  launched := ⟨[], rfl, fun i ↦ by simp [machine]⟩
  nodup := List.nodup_nil
  taken i := by simp [machine]
  answered _ _ h := by cases h

omit [DecidableEq ι] in
/-- The world goes on. -/
theorem Inv.world (h : Inv e all s) {w : σ}
    (hw : ∀ i b, e.returned i b s.world = true → e.returned i b w = true) :
    Inv e all { s with world := w } where
  launched := h.launched
  nodup := h.nodup
  taken := h.taken
  answered i c hc hi := by
    obtain ⟨b, hb, hr⟩ := h.answered i c hc hi
    exact ⟨b, hb, hw i b hr⟩

/-- A worker that has been launched goes on, without being taken. -/
theorem Inv.goWorker (h : Inv e all s) {x : Worker β} (hi : s.workers i ≠ .absent)
    (hn : i ∉ s.taken) (hx : x ≠ .absent) (hg : ∀ c, x ≠ .gone c)
    (hc : ∀ c, x.through = some c → e.wanted i = true →
      ∃ b, c = some b ∧ e.returned i b s.world = true) : Inv e all (s.goWorker i x) where
  launched := by
    obtain ⟨pre, hall, hpre⟩ := h.launched
    refine ⟨pre, hall, fun j ↦ ?_⟩
    simp only [Gather.goWorker, Function.update_apply]
    split
    · rename_i hj
      rw [hj, ← hpre]
      exact iff_of_true hx hi
    · exact hpre j
  nodup := h.nodup
  taken j := by
    simp only [Gather.goWorker, Function.update_apply]
    split
    · rename_i hj
      rw [hj]
      exact iff_of_false hn fun ⟨c, hc⟩ ↦ hg c hc
    · exact h.taken j
  answered j c := by
    simp only [Gather.goWorker, Function.update_apply]
    split
    · rename_i hj
      rw [hj]
      exact hc c
    · exact h.answered j c

omit [DecidableEq ι] in
theorem Inv.not_mem_taken (h : Inv e all s) (hi : ∀ c, s.workers i ≠ .gone c) : i ∉ s.taken := by
  intro hm
  obtain ⟨c, hc⟩ := (h.taken i).mp hm
  exact hi c hc

theorem Inv.step (h : Inv e all s) (hnd : all.Nodup) (he : e.Stable m)
    (hst : s.step m e eager a = some s') : Inv e all s' := by
  unfold Gather.step at hst
  cases a with
  | world a =>
      obtain ⟨w, hw, rfl⟩ := Option.map_eq_some_iff.mp hst
      exact h.world fun i b hr ↦ he i b _ _ (.inl ⟨a, hw⟩) hr
  | launch =>
      obtain ⟨pre, hall, hpre⟩ := h.launched
      cases ht : s.todo with
      | nil => simp [ht] at hst
      | cons i todo =>
          simp only [ht] at hst
          cases hst
          rw [ht] at hall
          -- the item has not been launched before
          have hi : i ∉ pre := by
            rw [hall, List.nodup_append] at hnd
            exact fun hm ↦ hnd.2.2 i hm i List.mem_cons_self rfl
          have hab : s.workers i = .absent := by
            by_contra hne
            exact hi ((hpre i).mp hne)
          refine ⟨⟨pre ++ [i], by simp [hall, Gather.goWorker], fun j ↦ ?_⟩, h.nodup, fun j ↦ ?_,
            fun j c ↦ ?_⟩
          all_goals simp only [Gather.goWorker, Function.update_apply]
          · rw [List.mem_append, List.mem_singleton, ← hpre]
            split <;> simp [*]
          · split
            · rename_i hj
              rw [hj]
              exact iff_of_false (h.not_mem_taken (by simp [hab])) (by simp)
            · exact h.taken j
          · split
            · exact fun hc ↦ by cases hc
            · exact h.answered j c
  | skip i =>
      cases hw : s.workers i with
      | ready =>
          simp only [hw] at hst
          split at hst <;> cases hst
          rename_i hn
          refine h.goWorker (by simp [hw]) (h.not_mem_taken (by simp [hw])) (by simp) (by simp) ?_
          exact fun _ _ hwant ↦ absurd hwant hn
      | _ => simp [hw] at hst
  | call i b =>
      cases hw : s.workers i with
      | ready =>
          simp only [hw] at hst
          split at hst
          · obtain ⟨w, hcall, rfl⟩ := Option.map_eq_some_iff.mp hst
            have hs := h.world fun j b' hr ↦ he j b' _ _ (.inr ⟨i, b, hcall⟩) hr
            refine hs.goWorker (by simp [hw]) (h.not_mem_taken (by simp [hw])) (by simp)
              (by simp) ?_
            exact fun _ hc ↦ by cases hc
          · cases hst
      | _ => simp [hw] at hst
  | finish i =>
      cases hw : s.workers i with
      | calling b =>
          simp only [hw] at hst
          split at hst <;> cases hst
          rename_i hr
          refine h.goWorker (by simp [hw]) (h.not_mem_taken (by simp [hw])) (by simp) (by simp) ?_
          rintro c ⟨⟩ -
          exact ⟨b, rfl, hr⟩
      | _ => simp [hw] at hst
  | take i =>
      cases hw : s.workers i with
      | offering c =>
          simp only [hw] at hst
          split at hst <;> cases hst
          have hn := h.not_mem_taken (i := i) (by simp [hw])
          obtain ⟨pre, hall, hpre⟩ := h.launched
          refine ⟨⟨pre, hall, fun j ↦ ?_⟩, ?_, fun j ↦ ?_, fun j c' ↦ ?_⟩
          all_goals simp only [Gather.goWorker, Function.update_apply]
          · split
            · rename_i hj
              rw [hj, ← hpre]
              simp [hw]
            · exact hpre j
          · exact List.nodup_append.mpr ⟨h.nodup, List.nodup_singleton i, fun x hx y hy ↦ by
              rintro rfl
              exact hn (List.mem_singleton.mp hy ▸ hx)⟩
          · rw [List.mem_append, List.mem_singleton]
            split
            · rename_i hj
              simp [hj]
            · rename_i hj
              rw [or_iff_left hj]
              exact h.taken j
          · split
            · rename_i hj
              rw [hj]
              rintro ⟨⟩
              exact h.answered i c (by rw [hw]; rfl)
            · exact h.answered j c'
      | _ => simp [hw] at hst

theorem reach_inv {ok : Gather ι σ β → Act ι α β → Prop} (hnd : all.Nodup) (he : e.Stable m)
    (hs : (machine m e eager all).Reach ok s) : Inv e all s :=
  hs.invariant .init fun _ _ _ _ h _ hst ↦ h.step hnd he hst

/-- If a call is a step of the world, then the world goes on as it would alone. -/
theorem world_reachable (hcall : ∀ i b w w', e.call i b w = some w' → ∃ a, m.step w a = some w')
    (hs : (machine m e eager all).Reachable s) : m.Reachable s.world := by
  refine hs.invariant (P := fun s ↦ m.Reachable s.world) .init ?_
  intro s a s' _ hr _ hst
  simp only [machine, step] at hst
  cases a with
  | world x =>
      obtain ⟨w, hw, rfl⟩ := Option.map_eq_some_iff.mp hst
      exact .step hr trivial hw
  | call i t =>
      dsimp only at hst
      split at hst
      · split at hst
        · obtain ⟨w, hw, rfl⟩ := Option.map_eq_some_iff.mp hst
          obtain ⟨a, ha⟩ := hcall i t _ _ hw
          exact .step hr trivial ha
        · cases hst
      all_goals cases hst
  | launch | skip | finish | take =>
      dsimp only at hst
      repeat' split at hst
      all_goals cases hst
      all_goals exact hr

omit [DecidableEq ι] in
theorem Inv.taken_subset (h : Inv e all s) : s.taken ⊆ all := by
  intro i hi
  obtain ⟨c, hc⟩ := (h.taken i).mp hi
  obtain ⟨pre, hall, hpre⟩ := h.launched
  rw [hall]
  exact List.mem_append_left _ ((hpre i).mp (by simp [hc]))

omit [DecidableEq ι] in
/-- When as many offers have been taken as there are items, all items have been. -/
theorem Inv.perm_of_length_eq (h : Inv e all s) (hl : s.taken.length = all.length) :
    s.taken.Perm all :=
  (List.subperm_of_subset h.nodup h.taken_subset).perm_of_length_le (Nat.le_of_eq hl.symm)

/-- An offer that is still missing is that of an item of the list. -/
theorem Inv.exists_missing (h : Inv e all s) (hnd : all.Nodup)
    (hl : s.taken.length ≠ all.length) : ∃ i ∈ all, i ∉ s.taken := by
  by_contra hno
  have hsub : all ⊆ s.taken := fun i hi ↦ by
    by_contra hn
    exact hno ⟨i, hi, hn⟩
  have h₁ := (List.subperm_of_subset h.nodup h.taken_subset).length_le
  have h₂ := (List.subperm_of_subset hnd hsub).length_le
  exact hl (Nat.le_antisymm h₁ h₂)

/-- The collector waits for the workers only, and they wait for their calls. -/
theorem Inv.progress (h : Inv e all s) (hnd : all.Nodup) (hl : s.taken.length ≠ all.length) :
    (∃ a : Act ι α β, a.ofWorld = false ∧ s.step m e eager a ≠ none) ∨
      ∃ i ∈ all, e.wanted i = true ∧ s.workers i = .ready ∨
        ∃ b, s.workers i = .calling b ∧ e.returned i b s.world = false := by
  obtain ⟨pre, hall, hpre⟩ := h.launched
  cases ht : s.todo with
  | cons i todo => exact .inl ⟨.launch, rfl, by simp [Gather.step, ht]⟩
  | nil =>
      obtain ⟨i, hi, hn⟩ := h.exists_missing hnd hl
      rw [ht, List.append_nil] at hall
      have hw := (hpre i).mpr (hall ▸ hi)
      cases hx : s.workers i with
      | absent => exact absurd hx hw
      | gone c => exact absurd ((h.taken i).mpr ⟨c, hx⟩) hn
      | ready =>
          cases hwant : e.wanted i with
          | true => exact .inr ⟨i, hi, .inl ⟨hwant, hx⟩⟩
          | false => exact .inl ⟨.skip i, rfl, by simp [Gather.step, hx, hwant]⟩
      | calling b =>
          cases hr : e.returned i b s.world with
          | true => exact .inl ⟨.finish i, rfl, by simp [Gather.step, hx, hr]⟩
          | false => exact .inr ⟨i, hi, .inr ⟨b, hx, hr⟩⟩
      | offering c => exact .inl ⟨.take i, rfl, by simp [Gather.step, hx, ht]⟩

end Gather
