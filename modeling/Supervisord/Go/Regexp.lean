import Supervisord.Format.Wildcard

/-!
# Regular expressions

The package `regexp`, for expressions that are a sequence of characters and dots, which may be
repeated by stars.  Expressions and texts are given by their characters; a byte of a text that is
part of no character counts as U+FFFD.
-/

namespace Go.Regexp

/-- The operators that are not for sequences. -/
def operators : List Char := ['+', '?', '(', ')', '|', '[', '^', '$']

/-- `parseInt`: what stands behind a number without leading zeros. -/
def parseInt : List Char → Option (List Char)
  | [] => none
  | c :: t =>
    if c.isDigit ∧ ¬(c = '0' ∧ (t.head?.any Char.isDigit)) then some (t.dropWhile Char.isDigit)
    else none

def closes (t : List Char) : Bool := t.head? = some '}'

/-- `repeat`: what follows an opening brace makes it a repetition. -/
def isRepeat (t : List Char) : Bool := (parseInt t).any fun r ↦
  closes r || (r.head? = some ',' && (closes r.tail || (parseInt r.tail).any closes))

/-- `escape`: a character that stands for itself behind a backslash. -/
def isPunct (c : Char) : Bool := c.toNat < 128 && !c.isAlphanum

/-- What has been parsed, the last of it first, and the characters that follow.  An expression that
is an error, or that has other operators, is `none`. -/
def parse (stack : List (Wild Char)) : List Char → Option (List (Wild Char))
  | [] => some stack.reverse
  | '.' :: t => parse (.one (· ≠ '\n') :: stack) t
  | '*' :: t => match stack with
    | .one p :: stack => parse (.many p :: stack) t
    | _ => none
  | '\\' :: c :: t => if isPunct c then parse (.one (· = c) :: stack) t else none
  | c :: t =>
    if c ∈ operators ∨ c = '\\' ∨ c = '{' ∧ isRepeat t then none
    else parse (.one (· = c) :: stack) t

/-- `MatchString`, which looks for the expression anywhere in the text. -/
def matchString (pattern s : List Char) : Option Bool :=
  (parse [] pattern).map fun ws ↦ Wild.finds ws s

variable {stack : List (Wild Char)} {c : Char} {t : List Char}

theorem parseInt_none (h : t.head?.any Char.isDigit = false) : parseInt t = none := by
  cases t with
  | nil => rfl
  | cons c t => exact if_neg fun hc ↦ Bool.eq_false_iff.mp h hc.1

theorem parse_escape (h : isPunct c = true) :
    parse stack ('\\' :: c :: t) = parse (.one (· = c) :: stack) t := if_pos h

theorem parse_char (hd : c ≠ '.') (hs : c ≠ '*') (he : c ≠ '\\') (ho : c ∉ operators)
    (hr : ¬(c = '{' ∧ isRepeat t = true)) :
    parse stack (c :: t) = parse (.one (· = c) :: stack) t := by
  rw [parse, if_neg (not_or.mpr ⟨ho, not_or.mpr ⟨he, hr⟩⟩)]
  · exact hd
  · exact hs
  · exact fun _ _ h ↦ absurd h he

end Go.Regexp
