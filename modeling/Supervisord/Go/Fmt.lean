import Supervisord.Go.Decimal

/-!
# Formatted numbers

What `fmt.Sprintf` makes of an integer whose format asks for a width.
-/

namespace Go.Fmt

/-- `parsenum`, which gives up on a number that is already more than a million. -/
def parsenum (digits : Str) : Option Nat :=
  digits.foldlM (fun num b ↦ if 1000000 < num then none else some (10 * num + (b.toNat - 48))) 0

/-- `fmt.Sprintf("%" + digits + "d", i)`.  The first zeros are a flag: the number is padded with
zeros behind its sign.  Where the width is too long, the format ends without a verb. -/
def sprintfInt (digits : Str) (i : Int) : Str :=
  match parsenum digits with
  | none => str "%!(NOVERB)%!(EXTRA int=" ++ Str.formatInt i ++ str ")"
  | some width =>
    let fill := width - (Str.formatInt i).length
    if digits.head? = some 48 then
      match i with
      | .ofNat n => List.replicate fill 48 ++ Str.itoa n
      | .negSucc n => 45 :: (List.replicate fill 48 ++ Str.itoa (n + 1))
    else List.replicate fill 32 ++ Str.formatInt i

example : sprintfInt (str "03") 7 = str "007" := by decide
example : sprintfInt (str "4") (-7) = str "  -7" := by decide
example : sprintfInt [] (-7) = str "-7" := by decide

/-- Without a width nothing is padded. -/
theorem sprintfInt_nil (i : Int) : sprintfInt [] i = Str.formatInt i := by
  simp [sprintfInt, parsenum]

/-- What a number is written with, and what it is padded with. -/
def isNumeral (b : UInt8) : Bool := Str.isDigit b || b = 45 || b = 32

theorem isNumeral_itoa {n : Nat} : ∀ b ∈ Str.itoa n, isNumeral b = true := by
  intro b hb
  rw [isNumeral, Str.isDigit_of_mem_itoa b hb]
  rfl

theorem isNumeral_formatInt {i : Int} : ∀ b ∈ Str.formatInt i, isNumeral b = true := by
  cases i with
  | ofNat n => exact isNumeral_itoa
  | negSucc n => exact List.forall_mem_cons.mpr ⟨rfl, isNumeral_itoa⟩

theorem isNumeral_replicate {n : Nat} {c : UInt8} {s : Str} (hc : isNumeral c = true)
    (hs : ∀ b ∈ s, isNumeral b = true) : ∀ b ∈ List.replicate n c ++ s, isNumeral b = true := by
  intro b hb
  rcases List.mem_append.mp hb with hb | hb
  · rw [List.eq_of_mem_replicate hb]
    exact hc
  · exact hs b hb

/-- A number is written, or the format has no verb. -/
theorem sprintfInt_cases (digits : Str) (i : Int) :
    sprintfInt digits i = str "%!(NOVERB)%!(EXTRA int=" ++ Str.formatInt i ++ str ")" ∨
      ∀ b ∈ sprintfInt digits i, isNumeral b = true := by
  unfold sprintfInt
  cases parsenum digits with
  | none => exact .inl rfl
  | some width =>
      right
      dsimp only
      split
      · cases i with
        | ofNat n => exact isNumeral_replicate rfl isNumeral_itoa
        | negSucc n =>
            exact List.forall_mem_cons.mpr ⟨rfl, isNumeral_replicate rfl isNumeral_itoa⟩
      · exact isNumeral_replicate rfl isNumeral_formatInt

end Go.Fmt
