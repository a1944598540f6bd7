import Supervisord.Machine.Recursion

/-!
# Relayed requests

A party that a request reaches answers it, or relays it to another party, waits for the answer and
hands back what it has made of it.  Nobody counts how often a request has been relayed, so that it
need not be answered at all.

`returns_ask` says who answers a request and what comes back, and `exists_returns_ask` when an
answer comes back.
-/

universe u v

open Fuel

/-- What a party does with a request. -/
inductive Relay (ι : Type u) (ρ : Type v)
  | answer (r : ρ)
  | pass (next : ι)

namespace Relay

variable {ι : Type u} {ρ : Type v} (hop : ι → Relay ι ρ) (back : ρ → ρ)

/-- What comes back from a party, if no more than so many take part. -/
def ask : Nat → ι → Option ρ
  | 0, _ => none
  | n + 1, i => match hop i with
    | .answer r => some r
    | .pass j => (ask n j).map back

/-- The one party relays to the other. -/
def Passes (i j : ι) : Prop := hop i = .pass j

/-- From the one party to the other, over so many hops. -/
inductive Route (R : ι → ι → Prop) : Nat → ι → ι → Prop
  | here (i : ι) : Route R 0 i i
  | pass {n : Nat} {i j k : ι} (hi : R i j) (hr : Route R n j k) : Route R (n + 1) i k

variable {hop back} {R : ι → ι → Prop} {i j k : ι} {n m : Nat} {r a : ρ}

/-- There is one route to its end. -/
theorem Route.unique (hR : ∀ i j k, R i j → R i k → j = k) (h : Route R n i j)
    (hj : ∀ k, ¬R j k) {m : Nat} {j' : ι} (h' : Route R m i j') (hj' : ∀ k, ¬R j' k) :
    n = m ∧ j = j' := by
  induction h generalizing m with
  | here i =>
      cases h' with
      | here => exact ⟨rfl, rfl⟩
      | pass hi => exact absurd hi (hj _)
  | pass hi _ ih =>
      cases h' with
      | here => exact absurd hi (hj' _)
      | pass hi' hr' =>
          obtain rfl := hR _ _ _ hi hi'
          obtain ⟨rfl, rfl⟩ := ih hj hr'
          exact ⟨rfl, rfl⟩

theorem Route.reflTransGen (h : Route R n i j) : Relation.ReflTransGen R i j := by
  induction h with
  | here i => exact .refl
  | pass hi _ ih => exact .head hi ih

theorem exists_route (h : Relation.ReflTransGen R i j) : ∃ n, Route R n i j := by
  induction h using Relation.ReflTransGen.head_induction_on with
  | refl => exact ⟨0, .here j⟩
  | head hi _ ih =>
      obtain ⟨n, hn⟩ := ih
      exact ⟨n + 1, .pass hi hn⟩

theorem passes_unique (i j k : ι) (hj : Passes hop i j) (hk : Passes hop i k) : j = k :=
  Relay.pass.inj (hj.symm.trans hk)

theorem not_passes_of_answer (h : hop j = .answer a) (k : ι) : ¬Passes hop j k :=
  fun hk ↦ by cases h.symm.trans hk

theorem ask_eq_some : ask hop back m i = some r ↔ ∃ n < m, ∃ j a,
    Route (Passes hop) n i j ∧ hop j = .answer a ∧ r = back^[n] a := by
  induction m generalizing i r with
  | zero =>
      constructor
      · intro h
        cases h
      · rintro ⟨n, hn, -⟩
        exact absurd hn (Nat.not_lt_zero n)
  | succ m ih =>
      rw [ask]
      cases hi : hop i with
      | answer b =>
          constructor
          · intro h
            obtain rfl := Option.some.inj h
            exact ⟨0, m.succ_pos, i, b, .here i, hi, rfl⟩
          · rintro ⟨n, -, j, a, hr, hj, rfl⟩
            obtain ⟨rfl, rfl⟩ := hr.unique passes_unique (not_passes_of_answer hj) (.here i)
              (not_passes_of_answer hi)
            rw [hi] at hj
            exact congrArg some (Relay.answer.inj hj)
      | pass j =>
          constructor
          · intro h
            obtain ⟨b, hb, rfl⟩ := Option.map_eq_some_iff.mp h
            obtain ⟨n, hn, k, a, hr, hk, rfl⟩ := ih.mp hb
            exact ⟨n + 1, Nat.succ_lt_succ hn, k, a, .pass hi hr, hk,
              (Function.iterate_succ_apply' back n a).symm⟩
          · rintro ⟨n, hn, k, a, hr, hk, rfl⟩
            cases hr with
            | here => cases hk.symm.trans hi
            | @pass n _ _ _ hi' hr =>
                obtain rfl := Relay.pass.inj (hi.symm.trans hi')
                refine Option.map_eq_some_iff.mpr ⟨back^[n] a, ?_, ?_⟩
                · exact ih.mpr ⟨n, Nat.lt_of_succ_lt_succ hn, k, a, hr, hk, rfl⟩
                · exact (Function.iterate_succ_apply' back n a).symm

/-- **Who answers.**  What comes back is the answer of the party at the end of the route, once
handed back by each of the others. -/
theorem returns_ask : Returns (ask hop back · i) r ↔ ∃ n j a,
    Route (Passes hop) n i j ∧ hop j = .answer a ∧ r = back^[n] a := by
  constructor
  · rintro ⟨m, hm⟩
    obtain ⟨n, -, h⟩ := ask_eq_some.mp (hm m (Nat.le_refl m))
    exact ⟨n, h⟩
  · rintro ⟨n, h⟩
    exact ⟨n + 1, fun m hm ↦ ask_eq_some.mpr ⟨n, hm, h⟩⟩

/-- Whom a party calls. -/
def calls (hop : ι → Relay ι ρ) (i : ι) : List ι :=
  match hop i with
  | .answer _ => []
  | .pass j => [j]

theorem mem_calls : j ∈ calls hop i ↔ Passes hop i j := by
  rw [calls, Passes]
  cases hop i <;> simp [eq_comm]

theorem recursion_ask : Recursion (ask hop back) (calls hop) := by
  refine ⟨fun i ↦ rfl, fun {n m i} h ↦ ?_, fun n i ↦ ?_⟩
  · simp only [mem_calls, Passes] at h
    rw [ask, ask]
    cases hi : hop i with
    | answer a => rfl
    | pass j => exact congrArg (Option.map back) (h j hi)
  · simp only [mem_calls, Passes]
    rw [ask]
    cases hop i <;> simp

theorem returns_of_ask (h : ask hop back m i = some r) : Returns (ask hop back · i) r :=
  recursion_ask.returns h

/-- An answer comes back unless the request is relayed for ever. -/
theorem exists_returns_ask :
    (∃ r, Returns (ask hop back · i) r) ↔ Acc (fun j i ↦ Passes hop i j) i := by
  rw [recursion_ask.exists_returns_iff]
  simp only [mem_calls]

end Relay
