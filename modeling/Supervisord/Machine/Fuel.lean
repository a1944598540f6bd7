import Mathlib.Data.Option.Basic

/-!
# Functions with fuel

A loop that need not come to an end is a function of the number of rounds it may go through, which
returns nothing when they are not enough.  `Returns f r` says that `f` returns `r` once there are
rounds enough.  What is put together from functions that return returns.
-/

universe u v

namespace Fuel

variable {α β : Type u} {ι : Type v} {f g : Nat → Option α} {r : α} {r' : β}

/-- With rounds enough, the function returns `r`. -/
def Returns (f : Nat → Option α) (r : α) : Prop := ∃ n, ∀ m ≥ n, f m = some r

theorem Returns.of_mono {n : Nat} (hmono : ∀ m ≥ n, f n = some r → f m = some r)
    (h : f n = some r) : Returns f r :=
  ⟨n, fun m hm ↦ hmono m hm h⟩

theorem Returns.unique {r₁ r₂ : α} (h₁ : Returns f r₁) (h₂ : Returns f r₂) : r₁ = r₂ := by
  obtain ⟨n, hn⟩ := h₁
  obtain ⟨m, hm⟩ := h₂
  exact Option.some.inj ((hn _ (Nat.le_max_left n m)).symm.trans (hm _ (Nat.le_max_right n m)))

theorem Returns.pure (r : α) : Returns (fun _ ↦ some r) r := ⟨0, fun _ _ ↦ rfl⟩

/-- What is done with the result of a function that returns. -/
theorem Returns.bind {g : α → Nat → Option β} (hf : Returns f r) (hg : ∃ r', Returns (g r) r') :
    ∃ r', Returns (fun n ↦ (f n).bind fun a ↦ g a n) r' := by
  obtain ⟨n, hn⟩ := hf
  obtain ⟨r', m, hm⟩ := hg
  refine ⟨r', max n m, fun k hk ↦ ?_⟩
  show (f k).bind (fun a ↦ g a k) = some r'
  rw [hn k (Nat.le_trans (Nat.le_max_left n m) hk), Option.bind_some,
    hm k (Nat.le_trans (Nat.le_max_right n m) hk)]

/-- Two functions one after the other, where rounds enough for a result are enough for it later. -/
theorem returns_bind_iff {g : α → Nat → Option β} (hf : ∀ n a, f n = some a → Returns f a) :
    Returns (fun n ↦ (f n).bind fun a ↦ g a n) r' ↔ ∃ a, Returns f a ∧ Returns (g a) r' := by
  constructor
  · rintro ⟨n, hn⟩
    obtain ⟨a, ha, -⟩ := Option.bind_eq_some_iff.mp (hn n (Nat.le_refl n))
    refine ⟨a, hf n a ha, n, fun m hm ↦ ?_⟩
    obtain ⟨b, hb, hg⟩ := Option.bind_eq_some_iff.mp (hn m hm)
    rwa [(hf n a ha).unique (hf m b hb)]
  · rintro ⟨a, ⟨n, hn⟩, m, hm⟩
    refine ⟨max n m, fun k hk ↦ Option.bind_eq_some_iff.mpr ⟨a, hn k ?_, hm k ?_⟩⟩
    · exact Nat.le_trans (Nat.le_max_left n m) hk
    · exact Nat.le_trans (Nat.le_max_right n m) hk

theorem returns_map_iff {g : α → β} (hf : ∀ n a, f n = some a → Returns f a) :
    Returns (fun n ↦ (f n).map g) r' ↔ ∃ a, Returns f a ∧ r' = g a := by
  constructor
  · rintro ⟨n, hn⟩
    obtain ⟨a, ha, rfl⟩ := Option.map_eq_some_iff.mp (hn n (Nat.le_refl n))
    exact ⟨a, hf n a ha, rfl⟩
  · rintro ⟨a, ⟨n, hn⟩, rfl⟩
    exact ⟨n, fun m hm ↦ Option.map_eq_some_iff.mpr ⟨a, hn m hm, rfl⟩⟩

theorem Returns.map (g : α → β) (hf : Returns f r) : ∃ r', Returns (fun n ↦ (f n).map g) r' := by
  obtain ⟨n, hn⟩ := hf
  refine ⟨g r, n, fun m hm ↦ ?_⟩
  show (f m).map g = some (g r)
  rw [hn m hm, Option.map_some]

/-- A loop over a list returns if its rounds do. -/
theorem exists_returns_foldlM {f : Nat → α → ι → Option α} {l : List ι}
    (h : ∀ i ∈ l, ∀ a, ∃ a', Returns (fun n ↦ f n a i) a') (a : α) :
    ∃ a', Returns (fun n ↦ l.foldlM (f n) a) a' := by
  induction l generalizing a with
  | nil => exact ⟨a, .pure a⟩
  | cons i l ih =>
      obtain ⟨hi, hl⟩ := List.forall_mem_cons.mp h
      obtain ⟨a', ha'⟩ := hi a
      exact ha'.bind (ih hl a')

/-- A loop over a list returns the same with more rounds if its rounds do. -/
theorem foldlM_mono {f g : α → ι → Option α} (h : ∀ a i a', f a i = some a' → g a i = some a')
    {l : List ι} {a a' : α} (hf : l.foldlM f a = some a') : l.foldlM g a = some a' := by
  induction l generalizing a with
  | nil => exact hf
  | cons i l ih =>
      rw [List.foldlM_cons] at hf ⊢
      obtain ⟨b, hb, hf⟩ := Option.bind_eq_some_iff.mp hf
      exact Option.bind_eq_some_iff.mpr ⟨b, h a i b hb, ih hf⟩

end Fuel
