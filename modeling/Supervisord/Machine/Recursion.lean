import Mathlib.Data.List.Forall2
import Mathlib.Order.OrderIsoNat
import Supervisord.Machine.Fuel

/-!
# Recursion with fuel

A function with fuel that calls itself, for each argument with finitely many others.  It returns
exactly if the calls do not go on for ever, and what it returns with some fuel it returns with more.
-/

universe u v

namespace Fuel

/-! ## Loops -/

section Loops

variable {α : Type u} {β : Type v} {f g : α → Option β} {l : List α} {bs : List β}

theorem mapM_eq_some : l.mapM f = some bs ↔ List.Forall₂ (fun a b ↦ f a = some b) l bs := by
  induction l generalizing bs with
  | nil => simp [eq_comm]
  | cons a l ih =>
      rw [List.mapM_cons, List.forall₂_cons_left_iff]
      constructor
      · intro h
        obtain ⟨b, hb, h⟩ := Option.bind_eq_some_iff.mp h
        obtain ⟨bs', hbs, h⟩ := Option.bind_eq_some_iff.mp h
        exact ⟨b, bs', hb, ih.mp hbs, (Option.some.inj h).symm⟩
      · rintro ⟨b, bs', hb, hbs, rfl⟩
        exact Option.bind_eq_some_iff.mpr ⟨b, hb, Option.bind_eq_some_iff.mpr
          ⟨bs', ih.mpr hbs, rfl⟩⟩

theorem exists_of_mem_mapM (h : l.mapM f = some bs) {b : β} (hb : b ∈ bs) :
    ∃ a ∈ l, f a = some b := by
  rw [mapM_eq_some] at h
  induction h with
  | nil => cases hb
  | cons ha _ ih =>
      rcases List.mem_cons.mp hb with rfl | hb
      · exact ⟨_, List.mem_cons_self, ha⟩
      · obtain ⟨a, hmem, ha⟩ := ih hb
        exact ⟨a, List.mem_cons_of_mem _ hmem, ha⟩

theorem exists_mem_of_mapM (h : l.mapM f = some bs) {a : α} (ha : a ∈ l) :
    ∃ b ∈ bs, f a = some b := by
  rw [mapM_eq_some] at h
  induction h with
  | nil => cases ha
  | cons hb _ ih =>
      rcases List.mem_cons.mp ha with rfl | ha
      · exact ⟨_, List.mem_cons_self, hb⟩
      · obtain ⟨b, hmem, hb⟩ := ih ha
        exact ⟨b, List.mem_cons_of_mem _ hmem, hb⟩

/-- What the results have from what they are made of. -/
theorem map_eq_of_mapM {γ : Type u} {p : α → γ} {q : β → γ} (h : l.mapM f = some bs)
    (hpq : ∀ a ∈ l, ∀ b, f a = some b → q b = p a) : bs.map q = l.map p := by
  rw [mapM_eq_some] at h
  induction h with
  | nil => rfl
  | cons ha _ ih =>
      obtain ⟨hhead, htail⟩ := List.forall_mem_cons.mp hpq
      rw [List.map_cons, List.map_cons, hhead _ ha, ih htail]

theorem isSome_mapM : (l.mapM f).isSome ↔ ∀ a ∈ l, (f a).isSome := by
  induction l with
  | nil => simp
  | cons a l ih =>
      rw [List.forall_mem_cons, ← ih, List.mapM_cons]
      cases f a <;> cases l.mapM f <;> simp

theorem mapM_congr (h : ∀ a ∈ l, f a = g a) : l.mapM f = l.mapM g := by
  induction l with
  | nil => rfl
  | cons a l ih =>
      obtain ⟨ha, hl⟩ := List.forall_mem_cons.mp h
      rw [List.mapM_cons, List.mapM_cons, ha, ih hl]

end Loops

/-! ## Calls -/

variable {κ : Type u} {ρ : Type v}

/-- `f` is defined by recursion: with an argument it calls itself with those that `calls` has, each
time with less fuel, and it returns if these calls do. -/
structure Recursion (f : Nat → κ → Option ρ) (calls : κ → List κ) : Prop where
  zero (k : κ) : f 0 k = none
  congr {n m : Nat} {k : κ} (h : ∀ j ∈ calls k, f n j = f m j) : f (n + 1) k = f (m + 1) k
  isSome_iff (n : Nat) (k : κ) : (f (n + 1) k).isSome ↔ ∀ j ∈ calls k, (f n j).isSome

namespace Recursion

variable {f : Nat → κ → Option ρ} {calls : κ → List κ} {k : κ} {r : ρ} {n m : Nat}

theorem succ (h : Recursion f calls) (hf : f n k = some r) : f (n + 1) k = some r := by
  induction n generalizing k r with
  | zero =>
      rw [h.zero] at hf
      cases hf
  | succ n ih =>
      have hcalls := (h.isSome_iff n k).mp (Option.isSome_of_eq_some hf)
      rw [← hf]
      refine (h.congr fun j hj ↦ ?_).symm
      obtain ⟨r', hr'⟩ := Option.isSome_iff_exists.mp (hcalls j hj)
      rw [hr', ih hr']

theorem mono (h : Recursion f calls) (hf : f n k = some r) (hm : n ≤ m) : f m k = some r := by
  induction hm with
  | refl => exact hf
  | step _ ih => exact h.succ ih

theorem returns (h : Recursion f calls) (hf : f n k = some r) : Returns (f · k) r :=
  ⟨n, fun _ hm ↦ h.mono hf hm⟩

/-- It returns exactly if the calls come to an end. -/
theorem exists_returns_iff (h : Recursion f calls) :
    (∃ r, Returns (f · k) r) ↔ Acc (fun j k ↦ j ∈ calls k) k := by
  constructor
  · rintro ⟨r, n, hn⟩
    have hf := hn n (Nat.le_refl n)
    clear hn
    induction n generalizing k r with
    | zero => cases (h.zero k).symm.trans hf
    | succ n ih =>
        refine ⟨k, fun j hj ↦ ?_⟩
        obtain ⟨r', hr'⟩ := Option.isSome_iff_exists.mp
          ((h.isSome_iff n k).mp (Option.isSome_of_eq_some hf) j hj)
        exact ih r' hr'
  · intro hk
    induction hk with
    | intro k _ ih =>
        -- fuel enough for all of the calls
        have hall : ∀ l : List κ, (∀ j ∈ l, j ∈ calls k) →
            ∃ n, ∀ j ∈ l, (f n j).isSome := by
          intro l
          induction l with
          | nil => exact fun _ ↦ ⟨0, by simp⟩
          | cons j l ihl =>
              intro hl
              obtain ⟨hj, hl⟩ := List.forall_mem_cons.mp hl
              obtain ⟨n, hn⟩ := ihl hl
              obtain ⟨r, m, hm⟩ := ih j hj
              refine ⟨max n m, List.forall_mem_cons.mpr ⟨?_, fun j' hj' ↦ ?_⟩⟩
              · exact Option.isSome_of_eq_some (hm _ (Nat.le_max_right n m))
              · obtain ⟨r', hr'⟩ := Option.isSome_iff_exists.mp (hn j' hj')
                exact Option.isSome_of_eq_some (h.mono hr' (Nat.le_max_left n m))
        obtain ⟨n, hn⟩ := hall (calls k) fun _ hj ↦ hj
        obtain ⟨r, hr⟩ := Option.isSome_iff_exists.mp ((h.isSome_iff n k).mpr hn)
        exact ⟨r, h.returns hr⟩

end Recursion

/-- Calls that come to an end do not come back. -/
theorem not_transGen_of_acc {R : κ → κ → Prop} (h : Acc (fun j k ↦ R k j) k) :
    ¬Relation.TransGen R k k := by
  induction h with
  | intro k _ ih =>
      intro hk
      obtain ⟨j, hj, hjk⟩ := Relation.TransGen.head'_iff.mp hk
      exact ih j hj (.tail' hjk hj)

/-- Calls that come to an end, where an argument is more than what decides on the calls. -/
theorem acc_iff {ι : Type v} {R : ι → ι → Prop} {S : κ → κ → Prop} {p : κ → ι}
    (hsub : ∀ j k, S j k → R (p j) (p k)) (hlift : ∀ i k, R i (p k) → ∃ j, S j k ∧ p j = i) :
    Acc S k ↔ Acc R (p k) := by
  constructor
  · intro h
    induction h with
    | intro k _ ih =>
        refine ⟨p k, fun i hi ↦ ?_⟩
        obtain ⟨j, hj, rfl⟩ := hlift i k hi
        exact ih j hj
  · generalize hi : p k = i
    intro h
    induction h generalizing k with
    | intro i _ ih =>
        subst hi
        exact ⟨k, fun j hj ↦ ih (p j) (hsub j k hj) rfl⟩

end Fuel
