import Mathlib.Algebra.Group.Int.Defs
import Mathlib.Algebra.Group.Nat.Defs
import Supervisord.Go.Spaces

/-!
# Numbers

Sums and differences of `int64`s as integers, where they do not wrap around and where they do, and
the integers that fit.  What `fmt` writes for a number is what `strconv` reads.
-/

/-! ## 64-bit integers -/

namespace Go

variable {a b : Int64} {i j : Int}

theorem toInt_add_of_lt (hl : -2 ^ 63 ≤ a.toInt + b.toInt) (hu : a.toInt + b.toInt < 2 ^ 63) :
    (a + b).toInt = a.toInt + b.toInt := by
  rw [Int64.toInt_add]
  exact Int.bmod_eq_of_le (by omega) (by omega)

theorem toInt_add_of_le (h : 2 ^ 63 ≤ a.toInt + b.toInt) :
    (a + b).toInt = a.toInt + b.toInt - 2 ^ 64 := by
  have ha := a.toInt_lt
  have hb := b.toInt_lt
  rw [Int64.toInt_add, ← Int.sub_bmod_right]
  exact Int.bmod_eq_of_le (by omega) (by omega)

theorem toInt_sub_of_le (hb : 0 ≤ b.toInt) (h : b.toInt ≤ a.toInt) :
    (a - b).toInt = a.toInt - b.toInt := by
  have ha := a.toInt_lt
  rw [Int64.toInt_sub]
  exact Int.bmod_eq_of_le (by omega) (by omega)

/-! ### Integers that fit -/

/-- An integer that does not wrap around. -/
def IsInt64 (i : Int) : Prop := -2 ^ 63 ≤ i ∧ i < 2 ^ 63

instance (i : Int) : Decidable (IsInt64 i) := inferInstanceAs (Decidable (_ ∧ _))

theorem isInt64_toInt (a : Int64) : IsInt64 a.toInt := ⟨a.le_toInt, a.toInt_lt⟩

theorem IsInt64.bmod_eq (h : IsInt64 i) : i.bmod (2 ^ 64) = i := Int.bmod_eq_of_le h.1 h.2

/-- What an integer wraps around to differs by a multiple of the number of `int64`s. -/
theorem IsInt64.bmod_eq_iff (h : IsInt64 j) : i.bmod (2 ^ 64) = j ↔ 2 ^ 64 ∣ j - i := by
  rw [Int.bmod_eq_iff (Nat.two_pow_pos 64)]
  exact ⟨fun hj ↦ hj.2.2, fun hj ↦ ⟨h.1, h.2, hj⟩⟩

end Go

/-! ## Decimals -/

namespace Go

theorem str_append (s t : String) : str (s ++ t) = str s ++ str t := by
  simp [str]

namespace Str

theorem itoa_of_lt {n : Nat} (h : n < 10) : itoa n = [UInt8.ofNat (48 + n)] := by
  revert n
  decide

theorem itoa_of_ge {n : Nat} (h : 10 ≤ n) : itoa n = itoa (n / 10) ++ itoa (n % 10) := by
  rw [itoa, itoa, itoa, ← str_append]
  exact congrArg str (Nat.repr_eq_repr_append_repr h)

/-- Induction along the decimal digits of a number. -/
theorem itoa_induction {P : Nat → Str → Prop}
    (hone : ∀ d < 10, P d [UInt8.ofNat (48 + d)])
    (hmore : ∀ n s, ∀ d < 10, P n s → P (10 * n + d) (s ++ [UInt8.ofNat (48 + d)])) (n : Nat) :
    P n (itoa n) := by
  induction n using Nat.strongRecOn with
  | ind n ih =>
      by_cases h : n < 10
      · rw [itoa_of_lt h]
        exact hone n h
      · have hd : n % 10 < 10 := Nat.mod_lt n (by decide)
        rw [itoa_of_ge (Nat.le_of_not_lt h), itoa_of_lt hd]
        have := hmore (n / 10) _ (n % 10) hd (ih (n / 10) (by omega))
        rwa [Nat.div_add_mod] at this

theorem isDigit_ofNat {d : Nat} (h : d < 10) : isDigit (UInt8.ofNat (48 + d)) = true := by
  revert d
  decide

theorem toNat_ofNat {d : Nat} (h : d < 10) : (UInt8.ofNat (48 + d)).toNat - 48 = d := by
  revert d
  decide

theorem isDigit_of_mem_itoa {n : Nat} : ∀ b ∈ itoa n, isDigit b = true := by
  refine itoa_induction (P := fun _ s ↦ ∀ b ∈ s, isDigit b = true) ?_ ?_ n
  · intro d hd b hb
    rw [List.mem_singleton.mp hb]
    exact isDigit_ofNat hd
  · intro n s d hd ih b hb
    rcases List.mem_append.mp hb with hb | hb
    · exact ih b hb
    · rw [List.mem_singleton.mp hb]
      exact isDigit_ofNat hd

theorem itoa_ne_nil {n : Nat} : itoa n ≠ [] := by
  refine itoa_induction (P := fun _ s ↦ s ≠ []) ?_ ?_ n
  · intro d _
    exact List.cons_ne_nil _ _
  · intro n s d _ _
    exact List.append_ne_nil_of_right_ne_nil _ (List.cons_ne_nil _ _)

/-- What is printed is read back. -/
theorem digits_itoa (n : Nat) : digits (itoa n) = some n := by
  have hval : (itoa n).foldl (fun n b ↦ 10 * n + (b.toNat - 48)) 0 = n := by
    refine itoa_induction (P := fun n s ↦ s.foldl (fun n b ↦ 10 * n + (b.toNat - 48)) 0 = n)
      ?_ ?_ n
    · intro d hd
      rw [List.foldl_cons, List.foldl_nil, toNat_ofNat hd, Nat.mul_zero, Nat.zero_add]
    · intro n s d hd ih
      rw [List.foldl_append, ih, List.foldl_cons, List.foldl_nil, toNat_ofNat hd]
  cases h : itoa n with
  | nil => exact absurd h itoa_ne_nil
  | cons b s =>
      have hall : (b :: s).all isDigit = true := List.all_eq_true.mpr (h ▸ isDigit_of_mem_itoa)
      rw [digits, if_pos hall, ← h, hval]
      exact List.cons_ne_nil _ _

theorem ne_nil_of_digits {s : Str} {n : Nat} (h : digits s = some n) : s ≠ [] := by
  rintro rfl
  cases h

theorem isDigit_of_digits {s : Str} {n : Nat} (h : digits s = some n) :
    ∀ b ∈ s, isDigit b = true := by
  cases s with
  | nil => cases h
  | cons c s =>
      rw [digits] at h
      · by_cases hall : (c :: s).all isDigit = true
        · exact List.all_eq_true.mp hall
        · rw [if_neg hall] at h
          cases h
      · exact List.cons_ne_nil c s

theorem itoa_injective : Function.Injective itoa := by
  intro m n h
  have := congrArg digits h
  rwa [digits_itoa, digits_itoa, Option.some_inj] at this

/-- Digits are no spaces. -/
theorem trimSpace_of_digits {s : Str} (hs : ∀ b ∈ s, isDigit b = true) : s.trimSpace = s := by
  have hspaces : ∀ w ∈ spaces, w ≠ [] ∧ w.head?.any isDigit = false := by decide
  have hinfix (w) (hw : w ∈ spaces) : ¬w <:+: s := by
    intro hp
    obtain ⟨b, w, rfl⟩ := List.exists_cons_of_ne_nil (hspaces w hw).1
    have hdigit : isDigit b = false := (hspaces _ hw).2
    rw [hs b (hp.subset List.mem_cons_self)] at hdigit
    cases hdigit
  have h := trimSpace_eq isSpaces_nil isSpaces_nil (fun w hw hp ↦ hinfix w hw hp.isInfix)
    fun w hw hp ↦ hinfix w hw hp.isInfix
  rwa [List.nil_append, List.append_nil] at h

/-! ## Numbers with a sign -/

/-- A number as it is written, with or without a sign. -/
inductive Decimal : Str → Int → Prop
  | unsigned {s n} : digits s = some n → Decimal s n
  | plus {s n} : digits s = some n → Decimal (43 :: s) n
  | minus {s n} : digits s = some n → Decimal (45 :: s) (-n)

/-- What is read are the numbers that fit. -/
theorem atoi_eq_some_iff {s : Str} {i : Int} : atoi s = some i ↔ Decimal s i ∧ IsInt64 i := by
  have hsign {b : UInt8} {s : Str} {n : Nat} (hb : isDigit b = false) :
      digits (b :: s) ≠ some n := by
    intro h
    have hdigit := isDigit_of_digits h b List.mem_cons_self
    rw [hb] at hdigit
    cases hdigit
  unfold atoi
  rw [Option.filter_eq_some_iff, decide_eq_true_iff]
  refine and_congr ⟨fun h ↦ ?_, fun h ↦ ?_⟩ Iff.rfl
  · split at h
    · obtain ⟨n, hn, rfl⟩ := Option.map_eq_some_iff.mp h
      exact .plus hn
    · obtain ⟨n, hn, rfl⟩ := Option.map_eq_some_iff.mp h
      exact .minus hn
    · obtain ⟨n, hn, rfl⟩ := Option.map_eq_some_iff.mp h
      exact .unsigned hn
  · cases h with
    | plus hn => exact Option.map_eq_some_iff.mpr ⟨_, hn, rfl⟩
    | minus hn => exact Option.map_eq_some_iff.mpr ⟨_, hn, rfl⟩
    | unsigned hn =>
        split
        · exact absurd hn (hsign (by decide))
        · exact absurd hn (hsign (by decide))
        · exact Option.map_eq_some_iff.mpr ⟨_, hn, rfl⟩

theorem atoi_itoa {n : Nat} (hn : n < 2 ^ 63) : atoi (itoa n) = some (n : Int) :=
  atoi_eq_some_iff.mpr ⟨.unsigned (digits_itoa n), by omega, by omega⟩

theorem lt_of_atoi {s : Str} {i : Int} (h : atoi s = some i) : i < 2 ^ 63 :=
  (atoi_eq_some_iff.mp h).2.2

/-- An integer is read from digits and a sign. -/
theorem isDigit_of_atoi {s : Str} {i : Int} (h : atoi s = some i) :
    ∀ b ∈ s, isDigit b = true ∨ b = 43 ∨ b = 45 := by
  intro b hb
  cases (atoi_eq_some_iff.mp h).1 with
  | unsigned hn => exact .inl (isDigit_of_digits hn b hb)
  | plus hn => exact (List.mem_cons.mp hb).symm.imp (isDigit_of_digits hn b) .inl
  | minus hn => exact (List.mem_cons.mp hb).symm.imp (isDigit_of_digits hn b) .inr

theorem Decimal.ne_nil {s : Str} {i : Int} (h : Decimal s i) : s ≠ [] := by
  cases h with
  | unsigned hn => exact ne_nil_of_digits hn
  | plus _ => exact List.cons_ne_nil _ _
  | minus _ => exact List.cons_ne_nil _ _

/-- A number ends with a digit. -/
theorem Decimal.isDigit_getLast {s : Str} {i : Int} (h : Decimal s i) {b : UInt8}
    (hb : s.getLast? = some b) : isDigit b = true := by
  cases h with
  | unsigned hn => exact isDigit_of_digits hn b (List.mem_of_getLast? hb)
  | plus hn =>
      rw [List.getLast?_cons_of_ne_nil (ne_nil_of_digits hn)] at hb
      exact isDigit_of_digits hn b (List.mem_of_getLast? hb)
  | minus hn =>
      rw [List.getLast?_cons_of_ne_nil (ne_nil_of_digits hn)] at hb
      exact isDigit_of_digits hn b (List.mem_of_getLast? hb)

end Str

end Go
