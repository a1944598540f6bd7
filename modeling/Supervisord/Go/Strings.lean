import Mathlib.Algebra.Group.Int.Defs
import Mathlib.Algebra.Group.Nat.Defs
import Mathlib.Data.List.Basic
import Mathlib.Tactic.SplitIfs

/-!
# Strings of bytes

A Go string is a sequence of bytes, which need not be valid UTF-8.  This file has the functions
of the packages `strings` and `strconv` for them, each under its own name.
-/

namespace Go

/-- A string. -/
abbrev Str := List UInt8

/-- Strings are compared byte by byte. -/
instance : LawfulBEq Str := inferInstance

/-- A string literal. -/
def str (s : String) : Str := s.toUTF8.data.toList

namespace Str

/-- `strings.HasPrefix`. -/
def hasPrefix (s p : Str) : Bool := p.isPrefixOf s

/-- `strings.Index`: where the first occurrence of `sep` begins. -/
def index (s sep : Str) : Option Nat :=
  if sep.isPrefixOf s then some 0
  else match s with
    | [] => none
    | _ :: s => (index s sep).map (· + 1)

/-- `strings.Split` with a separator of one byte. -/
def split (s : Str) (sep : UInt8) : List Str := s.splitOn sep

/-- The encodings of the characters `unicode.IsSpace` knows. -/
def spaces : List Str :=
  [[0x09], [0x0a], [0x0b], [0x0c], [0x0d], [0x20], [0xc2, 0x85], [0xc2, 0xa0],
    [0xe1, 0x9a, 0x80], [0xe2, 0x80, 0x80], [0xe2, 0x80, 0x81], [0xe2, 0x80, 0x82],
    [0xe2, 0x80, 0x83], [0xe2, 0x80, 0x84], [0xe2, 0x80, 0x85], [0xe2, 0x80, 0x86],
    [0xe2, 0x80, 0x87], [0xe2, 0x80, 0x88], [0xe2, 0x80, 0x89], [0xe2, 0x80, 0x8a],
    [0xe2, 0x80, 0xa8], [0xe2, 0x80, 0xa9], [0xe2, 0x80, 0xaf], [0xe2, 0x81, 0x9f],
    [0xe3, 0x80, 0x80]]

/-- Drop words of `ws` from the front, as long as there is one. -/
def trimWords (ws : List Str) : Nat → Str → Str
  | 0, s => s
  | n + 1, s => match ws.find? fun w ↦ w.isPrefixOf s with
    | some w => trimWords ws n (s.drop w.length)
    | none => s

/-- `strings.TrimSpace`.  No encoding of a character begins inside of another one, so that the
two ends can be looked at byte by byte. -/
def trimSpace (s : Str) : Str :=
  let l := trimWords spaces s.length s
  (trimWords (spaces.map List.reverse) l.length l.reverse).reverse

def isDigit (b : UInt8) : Bool := 48 ≤ b && b ≤ 57

/-- The number a sequence of decimal digits stands for. -/
def digits : Str → Option Nat
  | [] => none
  | s => if s.all isDigit then some (s.foldl (fun n b ↦ 10 * n + (b.toNat - 48)) 0) else none

/-- `strconv.Atoi`, for 64-bit integers. -/
def atoi (s : Str) : Option Int :=
  let n : Option Int := match s with
    | 43 :: s => (digits s).map Int.ofNat
    | 45 :: s => (digits s).map fun n ↦ -Int.ofNat n
    | s => (digits s).map Int.ofNat
  n.filter fun n ↦ -2 ^ 63 ≤ n ∧ n < 2 ^ 63

/-- A number in decimal, as `fmt.Sprintf("%d", n)` writes it. -/
def itoa (n : Nat) : Str := str (toString n)

/-- The same for a number with a sign. -/
def formatInt : Int → Str
  | .ofNat n => itoa n
  | .negSucc n => 45 :: itoa (n + 1)

/-- What stands before the first space, and the rest. -/
def cutSpace : Str → Str × Str
  | [] => ([], [])
  | b :: s =>
    if spaces.any fun w ↦ w.isPrefixOf (b :: s) then ([], b :: s)
    else (b :: (cutSpace s).1, (cutSpace s).2)

/-- The first `n` of the words between spaces. -/
def firstFields : Nat → Str → List Str
  | 0, _ => []
  | n + 1, s =>
    let s := trimWords spaces s.length s
    if s = [] then [] else (cutSpace s).1 :: firstFields n (cutSpace s).2

/-- `strings.Fields`. -/
def fields (s : Str) : List Str := firstFields s.length s

end Str

example : (str " a\u00a0,").trimSpace = str "a\u00a0," := by decide
example : (str "\t\u2003a b\u00a0").trimSpace = str "a b" := by decide
example : (str "-12").atoi = some (-12) := by decide
example : (str "RESULT\u3000 2\n").fields = [str "RESULT", str "2"] := by decide

end Go

/-! ## Text

The bytes of a text in UTF-8: those below 128 stand for themselves. -/

namespace Go

theorem str_eq_flatMap (s : String) : str s = s.toList.flatMap String.utf8EncodeChar := by
  have h : s.toUTF8 = s.toList.utf8Encode := String.utf8Encode_toList.symm
  rw [str, h, List.utf8Encode]
  simp

variable {c : Char} {b : UInt8}

theorem toNat_of_mem_utf8EncodeChar (h : b ∈ String.utf8EncodeChar c) (hb : b.toNat < 128) :
    c.toNat = b.toNat := by
  unfold String.utf8EncodeChar at h
  simp only [Char.toNat] at *
  split_ifs at h
  all_goals
    simp only [List.mem_cons, List.not_mem_nil, or_false] at h
  · subst h
    rw [UInt8.toNat_ofNat']
    omega
  all_goals
    -- the bytes of a longer encoding are not below 128
    rcases h with rfl | rfl | rfl | rfl
    all_goals
      rw [UInt8.toNat_ofNat'] at hb
      omega

theorem utf8EncodeChar_of_lt (h : c.toNat < 128) :
    String.utf8EncodeChar c = [UInt8.ofNat c.toNat] := by
  unfold String.utf8EncodeChar
  exact if_pos (Nat.le_of_lt_succ h)

/-- A byte below 128 is a character of the text. -/
theorem exists_of_mem_str {s : String} (h : b ∈ str s) (hb : b.toNat < 128) :
    ∃ c ∈ s.toList, c.toNat = b.toNat ∧ String.utf8EncodeChar c = [b] := by
  rw [str_eq_flatMap] at h
  obtain ⟨c, hc, hb'⟩ := List.mem_flatMap.mp h
  have he := toNat_of_mem_utf8EncodeChar hb' hb
  refine ⟨c, hc, he, ?_⟩
  rw [utf8EncodeChar_of_lt (he ▸ hb), he, UInt8.ofNat_toNat]

theorem str_ne_nil {s : String} (h : s ≠ "") : str s ≠ [] := by
  intro he
  rw [str_eq_flatMap, List.flatMap_eq_nil_iff] at he
  cases hs : s.toList with
  | nil => exact h (String.toList_eq_nil_iff.mp hs)
  | cons c l => exact String.utf8EncodeChar_ne_nil (he c (hs ▸ List.mem_cons_self))

end Go
