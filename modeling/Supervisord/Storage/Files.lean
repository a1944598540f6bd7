import Mathlib.Logic.Function.Basic

/-!
# Files

A directory as a partial function from names to contents, and the chain of renamings that makes
room for a new file at the head of a numbered family of files.
-/

universe u v

/-- The contents of the files that exist. -/
abbrev Files (P : Type u) (D : Type v) := P → Option D

namespace Files

variable {P : Type u} {D : Type v} [DecidableEq P] {fs : Files P D} {p q src dest : P}

/-- The file is there and has these contents. -/
def write (fs : Files P D) (p : P) (d : D) : Files P D := Function.update fs p (some d)

/-- A file that is not there is not renamed; one that is replaces what is at the new name. -/
def rename (fs : Files P D) (src dest : P) : Files P D :=
  match fs src with
  | none => fs
  | some d => fun p ↦ if p = dest then some d else if p = src then none else fs p

def remove (fs : Files P D) (p : P) : Files P D := Function.update fs p none

/-- The files `f n`, ..., `f 1` are renamed to `f (n + 1)`, ..., `f 2`, in this order. -/
def shift (f : Nat → P) : Nat → Files P D → Files P D
  | 0, fs => fs
  | n + 1, fs => shift f n (fs.rename (f (n + 1)) (f (n + 2)))

/-- The family holds the first `n` of these contents. -/
def Holds (f : Nat → P) (n : Nat) (l : List D) (fs : Files P D) : Prop :=
  ∀ i, fs (f (i + 1)) = (l.take n)[i]?

@[simp] theorem write_self {d : D} : fs.write p d p = some d := Function.update_self _ _ _

theorem write_of_ne {d : D} (h : q ≠ p) : fs.write p d q = fs q := Function.update_of_ne h _ _

@[simp] theorem remove_self : fs.remove p p = none := Function.update_self _ _ _

theorem remove_of_ne (h : q ≠ p) : fs.remove p q = fs q := Function.update_of_ne h _ _

theorem remove_of_none (h : fs p = none) : fs.remove p = fs :=
  Function.update_eq_self_iff.mpr h.symm

theorem rename_of_none (h : fs src = none) : fs.rename src dest = fs := by
  rw [rename, h]

theorem rename_of_some {d : D} (h : fs src = some d) : fs.rename src dest p =
    if p = dest then some d else if p = src then none else fs p := by
  rw [rename, h]

theorem rename_dest (h : fs src = none → fs dest = none) : fs.rename src dest dest = fs src := by
  cases hs : fs src with
  | none => rw [rename_of_none hs, h hs]
  | some d => rw [rename_of_some hs, if_pos rfl]

theorem rename_src (h : src ≠ dest) : fs.rename src dest src = none := by
  cases hs : fs src with
  | none => rw [rename_of_none hs, hs]
  | some d => rw [rename_of_some hs, if_neg h, if_pos rfl]

theorem rename_of_ne (hs : p ≠ src) (hd : p ≠ dest) : fs.rename src dest p = fs p := by
  cases h : fs src with
  | none => rw [rename_of_none h]
  | some d => rw [rename_of_some h, if_neg hd, if_neg hs]

variable {f : Nat → P} {n : Nat}

theorem shift_of_ne (h : ∀ i ≤ n, p ≠ f (i + 1)) : shift f n fs p = fs p := by
  induction n generalizing fs with
  | zero => rfl
  | succ n ih =>
      rw [shift, ih fun i hi ↦ h i (Nat.le_succ_of_le hi),
        rename_of_ne (h n (Nat.le_succ n)) (h (n + 1) (Nat.le_refl _))]

/-- Each file moves one place up, where none is missing before one that is there. -/
theorem shift_up (hf : Function.Injective f)
    (h : ∀ i < n, fs (f (i + 1)) = none → fs (f (i + 2)) = none) {i : Nat} (hi : i < n) :
    shift f n fs (f (i + 2)) = fs (f (i + 1)) := by
  have hne {i j : Nat} (hij : i ≠ j) : f i ≠ f j := fun he ↦ hij (hf he)
  induction n generalizing fs with
  | zero => exact absurd hi (Nat.not_lt_zero i)
  | succ n ih =>
      rw [shift]
      rcases Nat.lt_succ_iff_lt_or_eq.mp hi with hi | rfl
      · rw [ih ?_ hi, rename_of_ne (hne (by omega)) (hne (by omega))]
        intro j hj hn
        rw [rename_of_ne (hne (by omega)) (hne (by omega))] at hn
        by_cases hjn : j + 1 = n
        · subst hjn
          exact rename_src (hne (by omega))
        · rw [rename_of_ne (hne (by omega)) (hne (by omega))]
          exact h j (by omega) hn
      · rw [shift_of_ne fun j hj ↦ hne (by omega), rename_dest (h i (Nat.lt_succ_self i))]

/-- **A new head.**  The family is shifted and the file `p` becomes its first one; with `n + 1`
places, the last file is lost when all of them are taken. -/
theorem Holds.push (hf : Function.Injective f) {l : List D} {d : D} (h : Holds f (n + 1) l fs)
    (hp : ∀ i, p ≠ f (i + 1)) (hd : fs p = some d) :
    Holds f (n + 1) (d :: l) ((shift f n fs).rename p (f 1)) := by
  have hshift : shift f n fs p = some d := by
    rw [shift_of_ne fun i _ ↦ hp i, hd]
  intro i
  rw [rename_of_some hshift]
  cases i with
  | zero => exact if_pos rfl
  | succ i =>
      rw [if_neg fun he ↦ Nat.succ_ne_zero i (Nat.succ.inj (hf he)), if_neg (hp (i + 1)).symm]
      rw [List.take_succ_cons, List.getElem?_cons_succ]
      by_cases hi : i < n
      · rw [shift_up hf ?_ hi, h, List.getElem?_take_of_lt hi,
          List.getElem?_take_of_lt (Nat.lt_succ_of_lt hi)]
        intro j hj hn
        rw [h, List.getElem?_take_of_lt (Nat.lt_succ_of_lt hj)] at hn
        rw [h, List.getElem?_eq_none_iff, List.length_take]
        have := List.getElem?_eq_none_iff.mp hn
        omega
      · have hnone : fs (f (i + 2)) = none := by
          rw [h, List.getElem?_eq_none_iff, List.length_take]
          omega
        rw [shift_of_ne fun j hj he ↦ ?_, hnone]
        · exact (List.getElem?_eq_none_iff.mpr (by rw [List.length_take]; omega)).symm
        · have := hf he
          omega

end Files
