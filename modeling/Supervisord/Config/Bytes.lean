import Supervisord.Config.Values
import Supervisord.Go.Decimal

/-!
# Sizes

A size is a number of bytes, or of units that its suffix names.  `GetBytes` multiplies the number by
the unit without looking whether the product fits, so that a size that is too large is wrapped
around, where a number that is too large gives the default.
-/

namespace Supervisord

open Go

inductive SizeUnit
  | byte
  | kilobyte
  | megabyte
  | gigabyte
  deriving DecidableEq

namespace SizeUnit

def suffix : SizeUnit → Str
  | byte => []
  | kilobyte => str "KB"
  | megabyte => str "MB"
  | gigabyte => str "GB"

def factor : SizeUnit → Int
  | byte => 1
  | kilobyte => 1024
  | megabyte => 1024 * 1024
  | gigabyte => 1024 * 1024 * 1024

variable {u : SizeUnit}

theorem length_suffix (h : u ≠ .byte) : u.suffix.length = 2 := by
  cases u with
  | byte => exact absurd rfl h
  | _ => rfl

theorem getLast?_suffix (h : u ≠ .byte) : u.suffix.getLast? = some 66 := by
  cases u with
  | byte => exact absurd rfl h
  | _ => rfl

theorem suffix_injective : Function.Injective suffix := by
  intro u v h
  revert h
  cases u <;> cases v <;> decide

theorem factor_pos (u : SizeUnit) : 0 < u.factor := by
  cases u <;> decide

end SizeUnit

/-- A setting of a size: a number that fits, and a unit. -/
structure Size where
  number : Str
  value : Int64
  unit : SizeUnit
  decimal : Str.Decimal number value.toInt

namespace Size

variable (x : Size)

/-- What stands in the configuration. -/
def text : Str := x.number ++ x.unit.suffix

/-- How many bytes are meant. -/
def bytes : Int := x.value.toInt * x.unit.factor

/-- What is read is the number of bytes if it fits and the default otherwise.  It is no other
number, and so it is not negative if neither is. -/
structure Exact (defValue : Int64) (result : Int) : Prop where
  eq : result = if IsInt64 x.bytes then x.bytes else defValue.toInt
  not_wrapped : result = x.bytes ∨ result = defValue.toInt
  nonneg : 0 ≤ defValue.toInt → 0 ≤ x.value.toInt → 0 ≤ result

variable {x} {defValue : Int64} {result : Int}

theorem bytes_nonneg (h : 0 ≤ x.value.toInt) : 0 ≤ x.bytes :=
  Int.mul_nonneg h (Int.le_of_lt x.unit.factor_pos)

theorem exact_iff : x.Exact defValue result ↔
    result = if IsInt64 x.bytes then x.bytes else defValue.toInt := by
  refine ⟨Exact.eq, fun h ↦ ?_⟩
  have hcases : result = x.bytes ∨ result = defValue.toInt := by
    by_cases hx : IsInt64 x.bytes
    · exact .inl (h.trans (if_pos hx))
    · exact .inr (h.trans (if_neg hx))
  refine ⟨h, hcases, fun hd hv ↦ ?_⟩
  rcases hcases with hr | hr
  · exact hr ▸ bytes_nonneg hv
  · exact hr ▸ hd

theorem toInt_number (factor defValue : Int) :
    Entry.toInt x.number factor defValue = (x.value.toInt * factor).bmod (2 ^ 64) := by
  rw [Entry.toInt, Str.atoi_eq_some_iff.mpr ⟨x.decimal, isInt64_toInt x.value⟩]

/-- A number does not end like a unit. -/
theorem drop_number_ne {t : Str} (ht : t.getLast? = some 66) (n : Nat) : x.number.drop n ≠ t := by
  rintro rfl
  rw [List.getLast?_drop] at ht
  split at ht
  · cases ht
  · exact Bool.noConfusion (x.decimal.isDigit_getLast ht)

theorem text_of_byte (h : x.unit = .byte) : x.text = x.number := by
  rw [text, h]
  exact List.append_nil x.number

/-- Any other unit has two bytes. -/
theorem length_text (h : x.unit ≠ .byte) : x.text.length - 2 = x.number.length := by
  rw [text, List.length_append, SizeUnit.length_suffix h, Nat.add_sub_cancel]

/-- The last two bytes are those of the unit. -/
theorem ends_iff {u : SizeUnit} (hu : u ≠ .byte) :
    2 < x.text.length ∧ x.text.drop (x.text.length - 2) = u.suffix ↔ x.unit = u := by
  by_cases hb : x.unit = .byte
  · refine iff_of_false (fun h ↦ ?_) fun h ↦ hu (h.symm.trans hb)
    rw [text_of_byte hb] at h
    exact drop_number_ne (SizeUnit.getLast?_suffix hu) _ h.2
  · rw [length_text hb, text, List.drop_left, List.length_append, SizeUnit.length_suffix hb]
    have hpos := List.length_pos_of_ne_nil x.decimal.ne_nil
    rw [and_iff_right (by omega)]
    exact SizeUnit.suffix_injective.eq_iff

end Size

namespace Entry

variable {c : Entry} {key : Str} {x : Size}

/-- What is read is the number of bytes in 64 bits. -/
theorem getBytes_text (hk : c.keyValues key = some x.text) (defValue : Int) :
    c.getBytes key defValue = x.bytes.bmod (2 ^ 64) := by
  have hmb : 2 < x.text.length ∧ x.text.drop (x.text.length - 2) = str "MB" ↔
      x.unit = .megabyte := Size.ends_iff (u := .megabyte) (by decide)
  have hgb : 2 < x.text.length ∧ x.text.drop (x.text.length - 2) = str "GB" ↔
      x.unit = .gigabyte := Size.ends_iff (u := .gigabyte) (by decide)
  have hkb : 2 < x.text.length ∧ x.text.drop (x.text.length - 2) = str "KB" ↔
      x.unit = .kilobyte := Size.ends_iff (u := .kilobyte) (by decide)
  have htake (h : x.unit ≠ .byte) : x.text.take (x.text.length - 2) = x.number := by
    rw [Size.length_text h, Size.text, List.take_left]
  rw [getBytes, hk, Size.bytes]
  simp only [hmb, hgb, hkb]
  cases hu : x.unit with
  | byte =>
      rw [Size.text_of_byte hu]
      exact Size.toInt_number 1 defValue
  | kilobyte =>
      rw [htake (by rw [hu]; decide)]
      exact Size.toInt_number 1024 defValue
  | megabyte =>
      rw [htake (by rw [hu]; decide)]
      exact Size.toInt_number _ defValue
  | gigabyte =>
      rw [htake (by rw [hu]; decide)]
      exact Size.toInt_number _ defValue

/-- A size is read as it is meant if it fits, or if it happens to be wrapped around to the
default. -/
theorem exact_getBytes_iff (hk : c.keyValues key = some x.text) (defValue : Int64) :
    x.Exact defValue (c.getBytes key defValue.toInt) ↔
      IsInt64 x.bytes ∨ 2 ^ 64 ∣ defValue.toInt - x.bytes := by
  rw [Size.exact_iff, getBytes_text hk]
  by_cases hx : IsInt64 x.bytes
  · rw [if_pos hx]
    exact iff_of_true hx.bmod_eq (.inl hx)
  · rw [if_neg hx, (isInt64_toInt defValue).bmod_eq_iff]
    exact (or_iff_right hx).symm

/-- A section whose log file is limited to a size. -/
def limited (x : Size) : Entry where
  configDir := []
  keyValues key := if key = str "stdout_logfile_maxbytes" then some x.text else none

/-- `10MB`. -/
def tenMegabytes : Size where
  number := str "10"
  value := 10
  unit := .megabyte
  decimal := .unsigned (n := 10) (by decide)

/-- The statement for `10MB`, where the default is 50 megabytes. -/
theorem exact_getBytes_megabytes : tenMegabytes.Exact 52428800
    ((limited tenMegabytes).getBytes (str "stdout_logfile_maxbytes") (52428800 : Int64).toInt) :=
  (exact_getBytes_iff rfl 52428800).mpr (.inl (by decide))

/-- `8589934592GB`, a product that is too large by one byte. -/
def tooLarge : Size where
  number := str "8589934592"
  value := 8589934592
  unit := .gigabyte
  decimal := .unsigned (n := 8589934592) (by decide)

theorem getBytes_wrapped : ¬∀ (c : Entry) (key : Str) (x : Size) (defValue : Int64),
    c.keyValues key = some x.text → x.Exact defValue (c.getBytes key defValue.toInt) := by
  intro h
  let key := str "stdout_logfile_maxbytes"
  have hneg : (limited tooLarge).getBytes key (52428800 : Int64).toInt = -2 ^ 63 := by decide
  have hnonneg := (h (limited tooLarge) key tooLarge 52428800 rfl).nonneg (by decide) (by decide)
  rw [hneg] at hnonneg
  exact absurd hnonneg (by decide)

end Entry

end Supervisord
