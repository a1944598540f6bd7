import Mathlib.Data.List.Perm.Basic
import Supervisord.Machine.Basic

/-!
# Carrying out a plan

A plan is a list of jobs.  The calls of a batch are made side by side, a test is a look at the
world.  No job is begun before the calls of all jobs in front of it have returned; the plan is given
up at the first test that does not hold.

The calls are made in a world that goes on by itself, the machine `m`.  `Done` says what has been
logged when a part of the plan has been carried out, and `Inv.before` that a call is not made until
what stands before it has been.
-/

universe u v w x y

namespace Plan

inductive Job (κ : Type u) (τ : Type y) where
  | batch (calls : List κ)
  | test (t : τ)

/-- The calls and the tests. -/
structure Errand (κ : Type u) (σ : Type v) (β : Type x) (τ : Type y) where
  /-- The call is made. -/
  call : κ → β → σ → Option σ
  /-- The call has returned. -/
  returned : κ → β → σ → Bool
  holds : τ → σ → Bool

inductive Event (κ : Type u) (β : Type x) (τ : Type y) where
  | returned (call : κ × β)
  | passed (t : τ)
deriving DecidableEq

inductive Act (κ : Type u) (α : Type w) (β : Type x) where
  | world (a : α)
  /-- The next job is begun. -/
  | next
  | call (k : κ) (b : β)
  | finish (k : κ) (b : β)

/-- The action is one of the plan. -/
def Act.ofPlan {κ : Type u} {α : Type w} {β : Type x} : Act κ α β → Bool
  | .world _ => false
  | .next | .call _ _ | .finish _ _ => true

end Plan

structure Plan (κ : Type u) (σ : Type v) (β : Type x) (τ : Type y) where
  world : σ
  /-- The jobs that have not been begun. -/
  todo : List (Plan.Job κ τ)
  /-- The calls of the batch that are still to be made. -/
  waiting : List κ := []
  calling : List (κ × β) := []
  /-- The calls that have returned and the tests that have been passed, oldest first. -/
  log : List (Plan.Event κ β τ) := []
  /-- The plan has been given up. -/
  failed : Bool := false

namespace Plan

variable {κ : Type u} {σ : Type v} {α : Type w} {β : Type x} {τ : Type y}

/-- All calls that have been made have returned. -/
def idle (s : Plan κ σ β τ) : Bool := s.waiting.isEmpty && s.calling.isEmpty

/-- The last job has been done. -/
def ended (s : Plan κ σ β τ) : Bool := s.idle && s.todo.isEmpty

def begin (e : Errand κ σ β τ) (s : Plan κ σ β τ) : Option (Plan κ σ β τ) :=
  match s.todo with
  | [] => none
  | .batch calls :: todo => some { s with todo, waiting := calls }
  | .test t :: todo =>
    if e.holds t s.world then some { s with todo, log := s.log ++ [.passed t] }
    else some { s with failed := true }

section Step

variable [DecidableEq κ] [DecidableEq β]

def step (m : Machine σ α) (e : Errand κ σ β τ) (s : Plan κ σ β τ) :
    Act κ α β → Option (Plan κ σ β τ)
  | .world a => (m.step s.world a).map fun w ↦ { s with world := w }
  | .next => if s.failed then none else if s.idle then s.begin e else none
  | .call k b => if k ∈ s.waiting then (e.call k b s.world).map fun w ↦
      { s with world := w, waiting := s.waiting.erase k, calling := (k, b) :: s.calling }
    else none
  | .finish k b => if (k, b) ∈ s.calling ∧ e.returned k b s.world = true then
      some { s with calling := s.calling.erase (k, b), log := s.log ++ [.returned (k, b)] }
    else none

/-- A plan that is carried out in a world that goes on. -/
def machine (m : Machine σ α) (e : Errand κ σ β τ) (all : List (Job κ τ)) :
    Machine (Plan κ σ β τ) (Act κ α β) where
  init := { world := m.init, todo := all }
  step s a := s.step m e a

/-- A call that has returned stays so, whatever happens in the world. -/
def Errand.Stable (m : Machine σ α) (e : Errand κ σ β τ) : Prop :=
  ∀ k b w w', ((∃ a, m.step w a = some w') ∨ ∃ k' b', e.call k' b' w = some w') →
    e.returned k b w = true → e.returned k b w' = true

end Step

/-! ## What has been done -/

/-- The calls of these jobs. -/
def calls (jobs : List (Job κ τ)) : List κ := jobs.flatMap fun
  | .batch ks => ks
  | .test _ => []

variable {m : Machine σ α} {e : Errand κ σ β τ} {as bs jobs all : List (Job κ τ)}
  {log : List (Event κ β τ)} {ks rest rest' : List κ} {s s' : Plan κ σ β τ} {a : Act κ α β}
  {k : κ} {b : β}

theorem calls_append : calls (as ++ bs) = calls as ++ calls bs := List.flatMap_append

/-- These jobs have been begun in their order, and this is the log.  The calls `rest` of the last
one have not returned. -/
inductive Done : List (Job κ τ) → List (Event κ β τ) → List κ → Prop
  | nil : Done [] [] []
  | batch {jobs : List (Job κ τ)} {log : List (Event κ β τ)} {ks rest : List κ}
      (made : List (κ × β)) (h : Done jobs log []) (hp : (made.map (·.1) ++ rest).Perm ks) :
      Done (jobs ++ [.batch ks]) (log ++ made.map .returned) rest
  | test {jobs : List (Job κ τ)} {log : List (Event κ β τ)} (t : τ) (h : Done jobs log []) :
      Done (jobs ++ [.test t]) (log ++ [.passed t]) []

namespace Done

theorem perm (h : Done jobs log rest) (hp : rest.Perm rest') : Done jobs log rest' := by
  cases h with
  | nil =>
      obtain rfl := hp.nil_eq
      exact .nil
  | batch made h hks => exact .batch made h ((hp.symm.append_left _).trans hks)
  | test t h =>
      obtain rfl := hp.nil_eq
      exact .test t h

/-- One of the calls returns. -/
theorem finish (h : Done jobs log rest) (hp : rest.Perm (k :: rest')) :
    Done jobs (log ++ [.returned (k, b)]) rest' := by
  cases h with
  | nil => cases hp.nil_eq
  | test t h => cases hp.nil_eq
  | @batch jobs log ks _ made h hks =>
      have hlog : log ++ made.map .returned ++ [.returned (k, b)] =
          log ++ (made ++ [(k, b)]).map .returned := by
        rw [List.map_append, List.append_assoc]
        rfl
      rw [hlog]
      refine .batch (made ++ [(k, b)]) h ?_
      rw [List.map_append, List.append_assoc]
      exact (hp.symm.append_left _).trans hks

/-- Nothing is called but what is in the plan. -/
theorem subset (h : Done jobs log rest) :
    (∀ call : κ × β, .returned call ∈ log → call.1 ∈ calls jobs) ∧ rest ⊆ calls jobs := by
  induction h with
  | nil => exact ⟨fun _ h ↦ absurd h List.not_mem_nil, List.Subset.refl _⟩
  | @batch jobs log ks rest made _ hp ih =>
      have hks {x : κ} (hx : x ∈ made.map (·.1) ++ rest) :
          x ∈ calls (jobs ++ [.batch ks]) := by
        rw [calls_append]
        exact List.mem_append_right _ (by simpa [calls] using hp.mem_iff.mp hx)
      refine ⟨fun call hc ↦ ?_, fun x hx ↦ hks (List.mem_append_right _ hx)⟩
      rcases List.mem_append.mp hc with hc | hc
      · rw [calls_append]
        exact List.mem_append_left _ (ih.1 call hc)
      · obtain ⟨call', hc', he⟩ := List.mem_map.mp hc
        cases he
        exact hks (List.mem_append_left _ (List.mem_map_of_mem hc'))
  | @test jobs log t _ ih =>
      refine ⟨fun call hc ↦ ?_, List.nil_subset _⟩
      rcases List.mem_append.mp hc with hc | hc
      · rw [calls_append]
        exact List.mem_append_left _ (ih.1 call hc)
      · cases List.mem_singleton.mp hc

end Done

/-- The log begins with that of the first jobs, which have been done, and then nothing is called but
what is in the others. -/
def Splits (as bs : List (Job κ τ)) (log : List (Event κ β τ)) : Prop :=
  ∃ l₁ l₂, log = l₁ ++ l₂ ∧ Done as l₁ [] ∧
    ∀ call : κ × β, .returned call ∈ l₂ → call.1 ∈ calls bs

theorem Splits.concat {j : Job κ τ} {l : List (Event κ β τ)} (h : Done jobs log [])
    (hjobs : jobs ++ [j] = as ++ bs) (hbs : bs ≠ [])
    (ih : ∀ {bs}, jobs = as ++ bs → bs ≠ [] → Splits as bs log)
    (hl : ∀ call : κ × β, .returned call ∈ l → call.1 ∈ calls [j]) : Splits as bs (log ++ l) := by
  obtain ⟨bs, j', rfl⟩ := (List.eq_nil_or_concat bs).resolve_left hbs
  rw [List.concat_eq_append, ← List.append_assoc] at hjobs
  obtain ⟨rfl, hj⟩ := List.append_inj' hjobs rfl
  obtain rfl := List.singleton_inj.mp hj
  rw [List.concat_eq_append]
  by_cases hnil : bs = []
  · subst hnil
    exact ⟨log, l, rfl, List.append_nil as ▸ h, hl⟩
  · obtain ⟨l₁, l₂, rfl, has, hl₂⟩ := ih rfl hnil
    refine ⟨l₁, l₂ ++ l, List.append_assoc _ _ _, has, fun call hc ↦ ?_⟩
    rw [calls_append]
    rcases List.mem_append.mp hc with hc | hc
    · exact List.mem_append_left _ (hl₂ call hc)
    · exact List.mem_append_right _ (hl call hc)

theorem Done.splits (h : Done jobs log rest) (hjobs : jobs = as ++ bs) (hbs : bs ≠ []) :
    Splits as bs log := by
  induction h generalizing bs with
  | nil => exact absurd (List.append_eq_nil_iff.mp hjobs.symm).2 hbs
  | batch made h hp ih =>
      refine .concat h hjobs hbs ih fun call hc ↦ ?_
      obtain ⟨call', hc', he⟩ := List.mem_map.mp hc
      cases he
      simpa [calls] using hp.mem_iff.mp (List.mem_append_left _ (List.mem_map_of_mem hc'))
  | test t h ih =>
      refine .concat h hjobs hbs ih fun call hc ↦ ?_
      cases List.mem_singleton.mp hc

/-! ## The invariant -/

structure Inv (e : Errand κ σ β τ) (all : List (Job κ τ)) (s : Plan κ σ β τ) : Prop where
  done : ∃ pre, all = pre ++ s.todo ∧ Done pre s.log (s.calling.map (·.1) ++ s.waiting)
  returned : ∀ call : κ × β, .returned call ∈ s.log → e.returned call.1 call.2 s.world = true
  failed : s.failed = true → s.idle = true ∧ ∃ t todo, s.todo = .test t :: todo

theorem eq_nil_of_idle (h : s.idle = true) : s.waiting = [] ∧ s.calling = [] := by
  obtain ⟨hw, hc⟩ := (Bool.and_eq_true _ _).mp h
  exact ⟨List.isEmpty_iff.mp hw, List.isEmpty_iff.mp hc⟩

theorem Inv.world (h : Inv e all s) {w : σ}
    (hw : ∀ k b, e.returned k b s.world = true → e.returned k b w = true) :
    Inv e all { s with world := w } :=
  ⟨h.done, fun call hc ↦ hw _ _ (h.returned call hc), h.failed⟩

theorem Inv.begin (h : Inv e all s) (hi : s.idle = true) (hf : s.failed = false)
    (hst : s.begin e = some s') : Inv e all s' := by
  obtain ⟨pre, hall, hdone⟩ := h.done
  obtain ⟨hwaiting, hcalling⟩ := eq_nil_of_idle hi
  rw [hwaiting, hcalling] at hdone
  unfold Plan.begin at hst
  cases ht : s.todo with
  | nil => simp [ht] at hst
  | cons j todo =>
      rw [ht] at hall
      cases j with
      | batch calls =>
          simp only [ht] at hst
          obtain rfl := Option.some.inj hst
          refine ⟨⟨pre ++ [.batch calls], by simp [hall], ?_⟩, h.returned, fun hf' ↦ ?_⟩
          · have hbatch : Done (pre ++ [.batch calls]) (s.log ++ [].map .returned) calls :=
              .batch [] hdone (.refl calls)
            simpa [hcalling] using hbatch
          · rw [hf] at hf'
            cases hf'
      | test t =>
          simp only [ht] at hst
          split at hst <;> obtain rfl := Option.some.inj hst
          · refine ⟨⟨pre ++ [.test t], by simp [hall], ?_⟩, fun call hc ↦ ?_, fun hf' ↦ ?_⟩
            · simpa [hcalling, hwaiting] using Done.test t hdone
            · rcases List.mem_append.mp hc with hc | hc
              · exact h.returned call hc
              · cases List.mem_singleton.mp hc
            · rw [hf] at hf'
              cases hf'
          · refine ⟨⟨pre, hall, ?_⟩, h.returned, fun _ ↦ ⟨hi, t, todo, rfl⟩⟩
            simpa [hcalling, hwaiting] using hdone

section Step

variable [DecidableEq κ] [DecidableEq β]

theorem Inv.step (h : Inv e all s) (he : e.Stable m) (hst : s.step m e a = some s') :
    Inv e all s' := by
  unfold Plan.step at hst
  cases a with
  | world a =>
      obtain ⟨w, hw, rfl⟩ := Option.map_eq_some_iff.mp hst
      exact h.world fun k b ↦ he k b _ _ (.inl ⟨a, hw⟩)
  | next =>
      dsimp only at hst
      split at hst
      · cases hst
      · split at hst
        · exact h.begin ‹_› (Bool.not_eq_true _ ▸ ‹_›) hst
        · cases hst
  | call k b =>
      dsimp only at hst
      split at hst
      · rename_i hk
        obtain ⟨w, hw, rfl⟩ := Option.map_eq_some_iff.mp hst
        obtain ⟨⟨pre, hall, hdone⟩, hret, hf⟩ :=
          h.world fun k' b' ↦ he k' b' _ _ (.inr ⟨k, b, hw⟩)
        refine ⟨⟨pre, hall, hdone.perm ?_⟩, hret, fun hf' ↦ ?_⟩
        · exact ((List.perm_cons_erase hk).append_left _).trans List.perm_middle
        · have := (eq_nil_of_idle (hf hf').1).1
          rw [show s.waiting = [] from this] at hk
          cases hk
      · cases hst
  | finish k b =>
      dsimp only at hst
      split at hst
      · rename_i hk
        obtain rfl := Option.some.inj hst
        obtain ⟨pre, hall, hdone⟩ := h.done
        refine ⟨⟨pre, hall, hdone.finish ?_⟩, fun call hc ↦ ?_, fun hf' ↦ ?_⟩
        · exact ((List.perm_cons_erase hk.1).map _).append_right _
        · rcases List.mem_append.mp hc with hc | hc
          · exact h.returned call hc
          · cases List.mem_singleton.mp hc
            exact hk.2
        · have := (eq_nil_of_idle (h.failed hf').1).2
          rw [this] at hk
          cases hk.1
      · cases hst

theorem Inv.of_reachable (he : e.Stable m) (hs : (machine m e all).Reachable s) : Inv e all s := by
  refine hs.invariant ⟨⟨[], rfl, .nil⟩, fun call hc ↦ ?_, fun hf ↦ ?_⟩
    fun _ _ _ _ h _ hst ↦ h.step he hst
  · cases hc
  · cases hf

/-- If a call is a step of the world, then the world goes on as it would alone. -/
theorem world_reachable (hcall : ∀ k b w w', e.call k b w = some w' → ∃ a, m.step w a = some w')
    (hs : (machine m e all).Reachable s) : m.Reachable s.world := by
  refine hs.invariant (P := fun s ↦ m.Reachable s.world) .init ?_
  intro s a s' _ hr _ hst
  simp only [machine, step] at hst
  cases a with
  | world x =>
      obtain ⟨w, hw, rfl⟩ := Option.map_eq_some_iff.mp hst
      exact .step hr trivial hw
  | call k b =>
      dsimp only at hst
      split at hst
      · obtain ⟨w, hw, rfl⟩ := Option.map_eq_some_iff.mp hst
        obtain ⟨a, ha⟩ := hcall k b _ _ hw
        exact .step hr trivial ha
      · cases hst
  | next | finish =>
      simp only [Plan.begin] at hst
      repeat' split at hst
      all_goals cases hst
      all_goals exact hr

/-- The plan waits for the calls only. -/
theorem progress (he : s.ended = false) (hf : s.failed = false) :
    (∃ a : Act κ α β, a.ofPlan = true ∧ s.step m e a ≠ none) ∨ (∃ k, k ∈ s.waiting) ∨
      ∃ call ∈ s.calling, e.returned call.1 call.2 s.world = false := by
  cases hw : s.waiting with
  | cons k waiting => exact .inr (.inl ⟨k, List.mem_cons_self⟩)
  | nil =>
      cases hc : s.calling with
      | cons call calling =>
          have hmem : call ∈ s.calling := hc ▸ List.mem_cons_self
          cases hr : e.returned call.1 call.2 s.world with
          | false => exact .inr (.inr ⟨call, List.mem_cons_self, hr⟩)
          | true =>
              refine .inl ⟨.finish call.1 call.2, rfl, ?_⟩
              rw [Plan.step, if_pos ⟨hmem, hr⟩]
              exact Option.some_ne_none _
      | nil =>
          have hi : s.idle = true := by rw [idle, hw, hc]; rfl
          refine .inl ⟨.next, rfl, ?_⟩
          rw [Plan.step, hf, hi]
          simp only [Bool.false_eq_true, if_false, if_true, Plan.begin]
          cases ht : s.todo with
          | nil => simp [ended, hi, ht] at he
          | cons j todo =>
              cases j with
              | batch calls => exact Option.some_ne_none _
              | test t =>
                  dsimp only
                  split <;> exact Option.some_ne_none _

end Step

/-! ## What follows -/

/-- The call has been made. -/
def Made (s : Plan κ σ β τ) (k : κ) : Prop :=
  ∃ b, .returned (k, b) ∈ s.log ∨ (k, b) ∈ s.calling

/-- A call is not made before the jobs have been done that stand in front of it. -/
theorem Inv.before (h : Inv e (as ++ bs) s) (hk : s.Made k) (hn : k ∉ calls as) :
    Splits as bs s.log := by
  obtain ⟨pre, hall, hdone⟩ := h.done
  have hpre : k ∈ calls pre := by
    obtain ⟨b, hb | hb⟩ := hk
    · exact hdone.subset.1 (k, b) hb
    · exact hdone.subset.2 (List.mem_append_left _ (List.mem_map_of_mem (f := (·.1)) hb))
  rcases List.append_eq_append_iff.mp hall with ⟨bs', rfl, hbs⟩ | ⟨as', rfl, -⟩
  · have hne : bs' ≠ [] := by
      rintro rfl
      rw [List.append_nil] at hpre
      exact hn hpre
    obtain ⟨l₁, l₂, hl, has, hl₂⟩ := hdone.splits rfl hne
    refine ⟨l₁, l₂, hl, has, fun call hc ↦ ?_⟩
    rw [hbs, calls_append]
    exact List.mem_append_left _ (hl₂ call hc)
  · rw [calls_append] at hn
    exact absurd (List.mem_append_left _ hpre) hn

theorem Inv.done_of_ended (h : Inv e all s) (he : s.ended = true) : Done all s.log [] := by
  obtain ⟨hi, ht⟩ := (Bool.and_eq_true _ _).mp he
  obtain ⟨hwaiting, hcalling⟩ := eq_nil_of_idle hi
  obtain ⟨pre, hall, hdone⟩ := h.done
  rw [List.isEmpty_iff.mp ht, List.append_nil] at hall
  rw [hwaiting, hcalling] at hdone
  exact hall ▸ hdone

theorem Inv.done_of_failed (h : Inv e all s) (hf : s.failed = true) :
    ∃ pre t post, all = pre ++ .test t :: post ∧ Done pre s.log [] := by
  obtain ⟨hi, t, todo, ht⟩ := h.failed hf
  obtain ⟨hwaiting, hcalling⟩ := eq_nil_of_idle hi
  obtain ⟨pre, hall, hdone⟩ := h.done
  rw [hwaiting, hcalling] at hdone
  exact ⟨pre, t, todo, ht ▸ hall, hdone⟩

end Plan
