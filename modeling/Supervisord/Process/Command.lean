import Supervisord.Format.Escape
import Supervisord.Go.Slice
import Supervisord.Go.Strings

/-!
# Command lines

`parseCommand` cuts a command into arguments.  An index expression of the source stands under the
bound that its loop checks; a slice that is out of range is a panic, `none`.

The arguments of a command, whatever it looks like, are cut off without a panic, but for a quote
that begins an argument and has nothing behind it.
-/

namespace Supervisord.Process.Command

open Go

/-- `unicode.IsSpace` of the character whose number is the byte. -/
def isSpace (b : UInt8) : Bool := 9 ≤ b && b ≤ 13 || b = 32 || b = 0x85 || b = 0xa0

/-- The double and the single quote. -/
def isQuote (b : UInt8) : Bool := b = 34 || b = 39

def findChar (s : Str) (i : Nat) (ch : UInt8) : Option Nat :=
  if h : i < s.length then
    if s[i] = 92 then findChar s (i + 2) ch
    else if s[i] = ch then some i
    else findChar s (i + 1) ch
  else none
termination_by s.length - i

def skipSpace (s : Str) (i : Nat) : Option Nat :=
  if h : i < s.length then
    if isSpace s[i] then skipSpace s (i + 1) else some i
  else none
termination_by s.length - i

def appendArgument (arg : Str) (args : List Str) : Option (List Str) := do
  if isQuote (← arg[0]?) then return args ++ [← slice arg 1 (arg.length - 1)]
  else return args ++ [arg]

/-- The loop over `j`, which cuts off the argument that begins at `i`.  The result is the arguments
and where to go on. -/
def cutArgument (command : Str) (i j : Nat) (args : List Str) : Option (List Str × Nat) :=
  if h : j < command.length then
    if isSpace command[j] then do
      return (← appendArgument (← slice command i j) args, j + 1)
    else if command[j] = 92 then cutArgument command i (j + 2) args
    else if isQuote command[j] then
      match findChar command (j + 1) command[j] with
      | none => do
        return (← appendArgument (← slice command i command.length) args, command.length)
      | some k => do
        return (← appendArgument (← slice command i (k + 1 : Nat)) args, k + 1)
    else cutArgument command i (j + 1) args
  else do
    return (← appendArgument (← slice command i command.length) args, command.length)
termination_by command.length - j

/-! ## The loops end -/

variable {s command : Str} {i j k n : Nat} {ch : UInt8} {args args' : List Str}

theorem le_of_findChar (h : findChar s i ch = some k) : i ≤ k := by
  fun_induction findChar s i ch with
  | case1 i _ _ ih => exact Nat.le_of_add_right_le (ih h)
  | case2 => exact Nat.le_of_eq (Option.some.inj h)
  | case3 i _ _ _ ih => exact Nat.le_of_add_right_le (ih h)
  | case4 => cases h

theorem le_of_skipSpace (h : skipSpace s i = some j) : i ≤ j ∧ j < s.length := by
  fun_induction skipSpace s i with
  | case1 i _ _ ih => exact (ih h).imp_left Nat.le_of_add_right_le
  | case2 i hi _ =>
      cases h
      exact ⟨Nat.le_refl _, hi⟩
  | case3 => cases h

theorem next_eq {arg : Option Str} (h : (do
    return (← appendArgument (← arg) args, n) : Option (List Str × Nat)) = some (args', k)) :
    n = k := by
  obtain ⟨a, -, h⟩ := Option.bind_eq_some_iff.mp h
  obtain ⟨as, -, h⟩ := Option.bind_eq_some_iff.mp h
  cases h
  rfl

theorem lt_of_cutArgument (h : cutArgument command i j args = some (args', k))
    (hj : j < command.length) : j < k := by
  fun_induction cutArgument command i j args with
  | case1 j _ _ => exact Nat.lt_of_succ_le (Nat.le_of_eq (next_eq h))
  | case2 j _ _ _ ih =>
      by_cases hlt : j + 2 < command.length
      · exact Nat.lt_of_add_right_lt (ih h hlt)
      · rw [cutArgument, dif_neg hlt] at h
        exact next_eq h ▸ hj
  | case3 => exact next_eq h ▸ hj
  | case4 j _ _ _ _ m hm =>
      have := next_eq h
      have := le_of_findChar hm
      omega
  | case5 j _ _ _ _ ih =>
      by_cases hlt : j + 1 < command.length
      · exact Nat.lt_of_succ_lt (ih h hlt)
      · rw [cutArgument, dif_neg hlt] at h
        exact next_eq h ▸ hj
  | case6 => contradiction

/-- The loop over `i`. -/
def cutArguments (command : Str) (i : Nat) (args : List Str) : Option (List Str) :=
  if i < command.length then
    match hj : skipSpace command i with
    | none => some args
    | some j =>
      match hi : cutArgument command j j args with
      | none => none
      | some (args, i') =>
        have : i < i' := by
          obtain ⟨hij, hjl⟩ := le_of_skipSpace hj
          exact Nat.lt_of_le_of_lt hij (lt_of_cutArgument hi hjl)
        cutArguments command i' args
  else some args
termination_by command.length - i

def parseCommand (command : Str) : Option (Except Str (List Str)) := do
  let args ← cutArguments command 0 []
  if args.length ≤ 0 then return .error (str "no command from empty string")
  return .ok args

/-! ## Arguments -/

/-- No space and no quote stands in the text unescaped. -/
abbrev Plain : Str → Prop := Bare 92 fun b ↦ isSpace b || isQuote b

/-- The quote does not stand in the text unescaped. -/
abbrev Quoted (q : UInt8) : Str → Prop := Bare 92 (· = q)

/-- What can be cut off without looking at what follows: a plain text up to a space, or a text that
ends in a quotation. -/
inductive Piece : Str → Prop
  | word {p : Str} {b : UInt8} (hp : Plain p) (hb : isSpace b) : Piece (p ++ [b])
  | quotation {p body : Str} {q : UInt8} (hp : Plain p) (hq : isQuote q) (hbody : Quoted q body) :
      Piece (p ++ q :: (body ++ [q]))

/-- A text made of pieces: an argument begins behind it. -/
inductive Complete : Str → Prop
  | nil : Complete []
  | append {u t : Str} (hu : Piece u) (ht : Complete t) : Complete (u ++ t)

/-- The last byte is a quote that begins an argument. -/
def LoneQuote (s : Str) : Prop := ∃ t q, Complete t ∧ isQuote q ∧ s = t ++ [q]

/-- No piece can be cut off. -/
def Open (s : Str) : Prop := ∀ u r, Piece u → s ≠ u ++ r

theorem isQuote_ne {b : UInt8} (h : isQuote b) : b ≠ 92 ∧ ¬isSpace b := by
  rw [isQuote, Bool.or_eq_true, decide_eq_true_iff, decide_eq_true_iff] at h
  rcases h with rfl | rfl <;> decide

theorem isSpace_ne {b : UInt8} (h : isSpace b) : b ≠ 92 ∧ ¬isQuote b := by
  refine ⟨?_, fun hq ↦ (isQuote_ne hq).2 h⟩
  rintro rfl
  exact absurd h (by decide)

theorem halt_space {b : UInt8} {r : Str} (h : isSpace b) :
    Halt 92 (fun b ↦ isSpace b || isQuote b) (b :: r) :=
  .stop (isSpace_ne h).1 (by rw [h]; rfl)

theorem halt_quote {b : UInt8} {r : Str} (h : isQuote b) :
    Halt 92 (fun b ↦ isSpace b || isQuote b) (b :: r) :=
  .stop (isQuote_ne h).1 (by rw [h, Bool.or_true])

theorem halt_closing {q : UInt8} {r : Str} (h : isQuote q) : Halt 92 (· = q) (q :: r) :=
  .stop (isQuote_ne h).1 rfl

namespace Piece

theorem ne_nil {u : Str} (h : Piece u) : u ≠ [] := by
  cases h with
  | word => exact List.append_ne_nil_of_right_ne_nil _ (List.cons_ne_nil _ _)
  | quotation => exact List.append_ne_nil_of_right_ne_nil _ (List.cons_ne_nil _ _)

/-- **Unambiguity.** -/
theorem unique {u u' r r' : Str} (hu : Piece u) (hu' : Piece u') (h : u ++ r = u' ++ r') :
    u = u' ∧ r = r' := by
  cases hu with
  | word hp hb =>
      cases hu' with
      | word hp' hb' =>
          rw [List.append_assoc, List.append_assoc] at h
          obtain ⟨rfl, he⟩ := hp.unique hp' (halt_space hb) (halt_space hb') h
          cases he
          exact ⟨rfl, rfl⟩
      | quotation hp' hq' _ =>
          rw [List.append_assoc, List.append_assoc] at h
          obtain ⟨-, he⟩ := hp.unique hp' (halt_space hb) (halt_quote hq') h
          cases he
          exact absurd hb (isQuote_ne hq').2
  | quotation hp hq hbody =>
      cases hu' with
      | word hp' hb' =>
          rw [List.append_assoc, List.append_assoc] at h
          obtain ⟨-, he⟩ := hp.unique hp' (halt_quote hq) (halt_space hb') h
          cases he
          exact absurd hb' (isQuote_ne hq).2
      | quotation hp' hq' hbody' =>
          rw [List.append_assoc, List.append_assoc] at h
          obtain ⟨rfl, he⟩ := hp.unique hp' (halt_quote hq) (halt_quote hq') h
          obtain ⟨rfl, he'⟩ := List.cons.inj he
          rw [List.append_eq, List.append_eq, List.append_assoc, List.append_assoc] at he'
          obtain ⟨rfl, hr⟩ := hbody.unique hbody' (halt_closing hq) (halt_closing hq) he'
          cases hr
          exact ⟨rfl, rfl⟩

/-- A single quote is no piece. -/
theorem ne_quote {u r : Str} {q : UInt8} (hu : Piece u) (hq : isQuote q) : [q] ≠ u ++ r := by
  intro h
  cases hu with
  | @word p b _ hb =>
      rw [List.append_assoc] at h
      cases p with
      | nil =>
          cases h
          exact (isQuote_ne hq).2 hb
      | cons => simp at h
  | @quotation p => cases p <;> simp at h

end Piece

/-- Whether a quote is left over is decided behind the first piece. -/
theorem loneQuote_append {u r : Str} (hu : Piece u) : LoneQuote (u ++ r) ↔ LoneQuote r := by
  constructor
  · rintro ⟨t, q, ht, hq, he⟩
    cases ht with
    | nil => exact absurd he.symm (hu.ne_quote hq)
    | append hu' ht' =>
        rw [List.append_assoc] at he
        obtain ⟨-, rfl⟩ := hu.unique hu' he
        exact ⟨_, q, ht', hq, rfl⟩
  · rintro ⟨t, q, ht, hq, rfl⟩
    exact ⟨u ++ t, q, .append hu ht, hq, (List.append_assoc _ _ _).symm⟩

theorem loneQuote_spaces {sp r : Str} (h : ∀ b ∈ sp, isSpace b) :
    LoneQuote (sp ++ r) ↔ LoneQuote r := by
  induction sp with
  | nil => exact Iff.rfl
  | cons b sp ih =>
      have hb : Piece [b] := .word .nil (h b List.mem_cons_self)
      exact (loneQuote_append hb).trans (ih fun c hc ↦ h c (List.mem_cons_of_mem b hc))

theorem Open.loneQuote_iff {s : Str} (h : Open s) : LoneQuote s ↔ ∃ q, isQuote q ∧ s = [q] := by
  constructor
  · rintro ⟨t, q, ht, hq, rfl⟩
    cases ht with
    | nil => exact ⟨q, hq, rfl⟩
    | append hu _ => exact absurd (List.append_assoc _ _ _) (h _ _ hu)
  · rintro ⟨q, hq, rfl⟩
    exact ⟨[], q, .nil, hq, rfl⟩

/-! ## The cursors -/

theorem drop_eq_cons {b : UInt8} {r : Str} (h : s.drop i = b :: r) :
    ∃ hi : i < s.length, s[i] = b ∧ s.drop (i + 1) = r := by
  have hi : i < s.length := by
    have := congrArg List.length h
    rw [List.length_drop, List.length_cons] at this
    omega
  rw [List.drop_eq_getElem_cons hi] at h
  exact ⟨hi, List.cons.inj h⟩

theorem drop_append {p r : Str} (h : s.drop i = p ++ r) : s.drop (i + p.length) = r := by
  rw [← List.drop_drop, h, List.drop_left]

theorem findChar_bare {p r : Str} (hp : Quoted ch p) (h : s.drop i = p ++ r) :
    findChar s i ch = findChar s (i + p.length) ch := by
  induction hp generalizing i with
  | nil => rfl
  | @cons b p he hs _ ih =>
      obtain ⟨hi, rfl, hd⟩ := drop_eq_cons h
      rw [findChar, dif_pos hi, if_neg he, if_neg hs, ih hd, List.length_cons, Nat.add_right_comm,
        Nat.add_assoc]
  | @escaped b p _ ih =>
      obtain ⟨hi, he, hd⟩ := drop_eq_cons h
      obtain ⟨-, -, hd⟩ := drop_eq_cons hd
      have hlen : i + 1 + 1 + p.length = i + (p.length + 1 + 1) := by omega
      rw [findChar, dif_pos hi, if_pos he, ih hd, List.length_cons, List.length_cons, hlen]

theorem findChar_spec {t : Str} (h : s.drop i = t) (hch : isQuote ch) :
    (∃ body r, t = body ++ ch :: r ∧ Quoted ch body ∧
      findChar s i ch = some (i + body.length)) ∨
    findChar s i ch = none ∧ ∀ body r, Quoted ch body → t ≠ body ++ ch :: r := by
  obtain ⟨body, r, rfl, hbody, hr⟩ := Bare.exists_halt 92 (· = ch) t
  have hnone (hne : ∀ r', r ≠ ch :: r') (body' r' : Str) (hbody' : Quoted ch body') :
      body ++ r ≠ body' ++ ch :: r' :=
    fun he ↦ hne r' (hbody.unique hbody' hr (halt_closing hch) he).2
  rw [findChar_bare hbody h]
  have hd := drop_append h
  cases hr with
  | nil =>
      have hlen := List.drop_eq_nil_iff.mp hd
      rw [findChar, dif_neg (Nat.not_lt.mpr hlen)]
      exact .inr ⟨rfl, hnone fun _ h ↦ (nomatch h)⟩
  | esc =>
      obtain ⟨hi, he, hd⟩ := drop_eq_cons hd
      have hlen := List.drop_eq_nil_iff.mp hd
      rw [findChar, dif_pos hi, if_pos he, findChar, dif_neg (by omega)]
      refine .inr ⟨rfl, hnone fun r' h ↦ (isQuote_ne hch).1 (List.cons.inj h).1.symm⟩
  | @stop b r hb hs =>
      subst hs
      obtain ⟨hi, he, -⟩ := drop_eq_cons hd
      rw [findChar, dif_pos hi, if_neg (he ▸ hb), if_pos he]
      exact .inl ⟨body, r, rfl, hbody, rfl⟩

theorem skipSpace_spec (s : Str) (i : Nat) :
    (skipSpace s i = none ∧ ∀ b ∈ s.drop i, isSpace b) ∨
    ∃ sp b r, skipSpace s i = some (i + sp.length) ∧ s.drop i = sp ++ b :: r ∧
      (∀ b ∈ sp, isSpace b) ∧ ¬isSpace b := by
  fun_induction skipSpace s i with
  | case1 i hi hb ih =>
      rw [List.drop_eq_getElem_cons hi]
      rcases ih with ⟨hn, hall⟩ | ⟨sp, b, r, hj, hd, hall, hne⟩
      · exact .inl ⟨hn, List.forall_mem_cons.mpr ⟨hb, hall⟩⟩
      · refine .inr ⟨s[i] :: sp, b, r, ?_, ?_, List.forall_mem_cons.mpr ⟨hb, hall⟩, hne⟩
        · rw [hj, List.length_cons, Nat.add_assoc, Nat.add_comm 1]
        · rw [hd]
          rfl
  | case2 i hi hb =>
      exact .inr ⟨[], s[i], s.drop (i + 1), rfl, List.drop_eq_getElem_cons hi,
        fun _ h ↦ (nomatch h), hb⟩
  | case3 i hi =>
      rw [List.drop_eq_nil_of_le (Nat.not_lt.mp hi)]
      exact .inl ⟨rfl, fun _ h ↦ (nomatch h)⟩

/-- The quotes of an argument are taken off, which a single quote does not survive. -/
theorem appendArgument_eq_none_iff {b : UInt8} {arg : Str} :
    appendArgument (b :: arg) args = none ↔ isQuote b ∧ arg = [] := by
  by_cases hb : isQuote b
  · have hslice : slice (b :: arg) 1 ((b :: arg).length - 1) = none ↔ arg = [] := by
      rw [slice_eq_none_iff, ← List.length_eq_zero_iff, List.length_cons]
      omega
    have he : appendArgument (b :: arg) args =
        (slice (b :: arg) 1 ((b :: arg).length - 1)).map fun a ↦ args ++ [a] := by
      simp only [appendArgument, List.getElem?_cons_zero, Option.bind_eq_bind, Option.bind_some,
        if_pos hb, Option.map_eq_bind]
      rfl
    rw [he, Option.map_eq_none_iff, hslice, and_iff_right hb]
  · simp [appendArgument, hb]

theorem exists_appendArgument (args : List Str) {arg : Str} (hne : arg ≠ [])
    (hq : ∀ q, isQuote q → arg ≠ [q]) : ∃ args', appendArgument arg args = some args' := by
  refine Option.ne_none_iff_exists'.mp fun h ↦ ?_
  cases arg with
  | nil => exact hne rfl
  | cons b arg =>
      obtain ⟨hb, rfl⟩ := appendArgument_eq_none_iff.mp h
      exact hq b hb rfl

/-- What is cut off where the argument is at its end. -/
theorem cutArgument_space {b : UInt8} {r : Str} (h : command.drop j = b :: r) (hb : isSpace b) :
    cutArgument command i j args = do
      return (← appendArgument (← slice command i j) args, j + 1) := by
  obtain ⟨hi, rfl, -⟩ := drop_eq_cons h
  rw [cutArgument, dif_pos hi, if_pos hb]

theorem cutArgument_end (h : command.length ≤ j) :
    cutArgument command i j args = do
      return (← appendArgument (← slice command i command.length) args, command.length) := by
  rw [cutArgument, dif_neg (Nat.not_lt.mpr h)]

theorem cutArgument_quote {q : UInt8} {r : Str} (h : command.drop j = q :: r) (hq : isQuote q) :
    cutArgument command i j args =
      match findChar command (j + 1) q with
      | none => do
        return (← appendArgument (← slice command i command.length) args, command.length)
      | some k => do
        return (← appendArgument (← slice command i (k + 1 : Nat)) args, k + 1) := by
  obtain ⟨hi, rfl, -⟩ := drop_eq_cons h
  rw [cutArgument, dif_pos hi, if_neg (isQuote_ne hq).2, if_neg (isQuote_ne hq).1, if_pos hq]

theorem cutArgument_plain {p r : Str} (hp : Plain p) (h : command.drop j = p ++ r) :
    cutArgument command i j args = cutArgument command i (j + p.length) args := by
  induction hp generalizing j with
  | nil => rfl
  | @cons b p he hs _ ih =>
      obtain ⟨hi, rfl, hd⟩ := drop_eq_cons h
      rw [Bool.or_eq_true, not_or] at hs
      rw [cutArgument, dif_pos hi, if_neg hs.1, if_neg he, if_neg hs.2, ih hd, List.length_cons,
        Nat.add_right_comm, Nat.add_assoc]
  | @escaped b p _ ih =>
      obtain ⟨hi, he, hd⟩ := drop_eq_cons h
      obtain ⟨-, -, hd⟩ := drop_eq_cons hd
      have hs : ¬isSpace command[j] := by
        rw [he]
        decide
      have hlen : j + 1 + 1 + p.length = j + (p.length + 1 + 1) := by omega
      rw [cutArgument, dif_pos hi, if_neg hs, if_pos he, ih hd, List.length_cons, List.length_cons,
        hlen]

/-- The argument is cut out of the command. -/
theorem append_slice {a r : Str} {n : Nat} (h : command.drop i = a ++ r)
    (hi : i ≤ command.length) (hn : n = i + a.length) :
    (do return (← appendArgument (← slice command i n) args, k) : Option (List Str × Nat)) =
      (appendArgument a args).map (·, k) := by
  have hcut : slice command i n = some a := by
    subst hn
    have hlen : (command.take i).length = i := List.length_take_of_le hi
    refine slice_eq_some_iff.mpr ⟨command.take i, r, ?_, ?_, ?_⟩
    · rw [List.append_assoc, ← h, List.take_append_drop]
    · rw [hlen]
    · rw [hlen, Int.natCast_add]
  rw [hcut, Option.map_eq_bind]
  rfl

theorem open_of_halt {p r : Str} (hp : Plain p)
    (hr : Halt 92 (fun b ↦ isSpace b || isQuote b) r) (hs : r = [] ∨ r = [92]) :
    Open (p ++ r) := by
  have hstop (b : UInt8) (t : Str) (hb : b ≠ 92) : r ≠ b :: t := by
    rintro rfl
    rcases hs with hs | hs
    · cases hs
    · exact hb (List.cons.inj hs).1
  intro u r' hu he
  cases hu with
  | word hp' hb =>
      rw [List.append_assoc] at he
      exact hstop _ _ (isSpace_ne hb).1 (hp.unique hp' hr (halt_space hb) he).2
  | quotation hp' hq _ =>
      rw [List.append_assoc] at he
      exact hstop _ _ (isQuote_ne hq).1 (hp.unique hp' hr (halt_quote hq) he).2

theorem open_of_quote {p t : Str} {q : UInt8} (hp : Plain p) (hq : isQuote q)
    (ht : ∀ body r, Quoted q body → t ≠ body ++ q :: r) : Open (p ++ q :: t) := by
  intro u r hu he
  cases hu with
  | word hp' hb =>
      rw [List.append_assoc] at he
      have := (hp.unique hp' (halt_quote hq) (halt_space hb) he).2
      cases this
      exact (isQuote_ne hq).2 hb
  | @quotation p' body q' hp' hq' hbody =>
      rw [List.append_assoc] at he
      have := (hp.unique hp' (halt_quote hq) (halt_quote hq') he).2
      obtain ⟨rfl, ht'⟩ := List.cons.inj this
      refine ht body r hbody (ht'.trans ?_)
      rw [List.append_eq, List.append_assoc]
      rfl

/-- **One argument.**  Either a piece is cut off, or what is left is the argument. -/
theorem cutArgument_spec {b : UInt8} {s : Str} (h : command.drop i = b :: s) (hb : ¬isSpace b)
    (args : List Str) :
    (∃ u r args', Piece u ∧ b :: s = u ++ r ∧
      cutArgument command i i args = some (args', i + u.length)) ∨
    Open (b :: s) ∧
      cutArgument command i i args = (appendArgument (b :: s) args).map (·, command.length) := by
  obtain ⟨hi, -, -⟩ := drop_eq_cons h
  obtain ⟨p, r, he, hp, hr⟩ :=
    Bare.exists_halt 92 (fun b ↦ isSpace b || isQuote b) (b :: s)
  have hd := drop_append (h.trans he)
  have hlen : command.length = i + (b :: s).length := by
    rw [← h, List.length_drop]
    omega
  have hend : (do return (← appendArgument (← slice command i command.length) args,
      command.length) : Option (List Str × Nat)) =
        (appendArgument (b :: s) args).map (·, command.length) :=
    append_slice (r := []) (by rw [h, List.append_nil]) (Nat.le_of_lt hi) hlen
  rw [cutArgument_plain hp (h.trans he)]
  cases hr with
  | nil =>
      rw [cutArgument_end (List.drop_eq_nil_iff.mp hd)]
      exact .inr ⟨he ▸ open_of_halt hp .nil (.inl rfl), hend⟩
  | esc =>
      obtain ⟨hj, hesc, hd⟩ := drop_eq_cons hd
      have hs : ¬isSpace command[i + p.length] := by
        rw [hesc]
        decide
      have := List.drop_eq_nil_iff.mp hd
      rw [cutArgument, dif_pos hj, if_neg hs, if_pos hesc, cutArgument_end (by omega)]
      exact .inr ⟨he ▸ open_of_halt hp .esc (.inr rfl), hend⟩
  | @stop c r hc hs =>
      rw [Bool.or_eq_true] at hs
      rcases hs with hs | hs
      · -- a word, which does not begin with a quote
        have hp0 : p ≠ [] := by
          rintro rfl
          cases he
          exact hb hs
        have hpq (q : UInt8) (hq : isQuote q) : p ≠ [q] := by
          rintro rfl
          cases (hp.unique .nil (halt_space hs) (halt_quote (r := c :: r) hq) rfl).1
        obtain ⟨args', ha⟩ := exists_appendArgument args hp0 hpq
        rw [cutArgument_space hd hs, append_slice (h.trans he) (Nat.le_of_lt hi) rfl, ha]
        refine .inl ⟨p ++ [c], r, args', .word hp hs, ?_, ?_⟩
        · rw [he, List.append_assoc]
          rfl
        · rw [List.length_append]
          rfl
      · obtain ⟨hj, -, hd'⟩ := drop_eq_cons hd
        rw [cutArgument_quote hd hs]
        rcases findChar_spec hd' hs with ⟨body, r', rfl, hbody, hk⟩ | ⟨hk, hopen⟩
        · -- a quotation
          have hbs : b :: s = (p ++ c :: (body ++ [c])) ++ r' := by
            rw [he, List.append_assoc, List.cons_append, List.append_assoc]
            rfl
          have hne : p ++ c :: (body ++ [c]) ≠ [] := (Piece.quotation hp hs hbody).ne_nil
          have hq (q : UInt8) (_ : isQuote q) : p ++ c :: (body ++ [c]) ≠ [q] := by
            intro heq
            have := congrArg List.length heq
            simp only [List.length_append, List.length_cons, List.length_nil] at this
            omega
          have hn : i + p.length + 1 + body.length + 1 =
              i + (p ++ c :: (body ++ [c])).length := by
            simp only [List.length_append, List.length_cons, List.length_nil]
            omega
          obtain ⟨args', ha⟩ := exists_appendArgument args hne hq
          rw [hk]
          refine .inl ⟨_, r', args', .quotation hp hs hbody, hbs, ?_⟩
          show (do return (← appendArgument (← slice command i _) args, _) :
            Option (List Str × Nat)) = _
          rw [append_slice (h.trans hbs) (Nat.le_of_lt hi) hn, ha, hn]
          rfl
        · rw [hk]
          exact .inr ⟨he ▸ open_of_quote hp hs hopen, hend⟩

theorem cutArguments_none (h : skipSpace command i = none) :
    cutArguments command i args = some args := by
  rw [cutArguments]
  split
  · split
    · rfl
    · rename_i hj
      rw [h] at hj
      cases hj
  · rfl

theorem cutArguments_some (h : skipSpace command i = some j) :
    cutArguments command i args =
      (cutArgument command j j args).bind fun x ↦ cutArguments command x.2 x.1 := by
  obtain ⟨hij, hj⟩ := le_of_skipSpace h
  rw [cutArguments, if_pos (Nat.lt_of_le_of_lt hij hj)]
  split
  · rename_i hn
    rw [h] at hn
    cases hn
  · rename_i j' hj'
    obtain rfl := Option.some.inj (h.symm.trans hj')
    split
    · rename_i hn
      rw [hn]
      rfl
    · rename_i hs
      exact (congrArg (fun o ↦ o.bind fun x ↦ cutArguments command x.2 x.1) hs).symm

theorem cutArguments_length (args : List Str) :
    cutArguments command command.length args = some args := by
  rw [cutArguments, if_neg (Nat.lt_irrefl _)]

theorem not_loneQuote_nil : ¬LoneQuote [] := by
  rintro ⟨t, q, -, -, he⟩
  exact List.append_ne_nil_of_right_ne_nil t (List.cons_ne_nil q []) he.symm

/-- **Panics.**  There is no panic but at a lone quote. -/
theorem cutArguments_eq_none_iff (args : List Str) :
    cutArguments command i args = none ↔ LoneQuote (command.drop i) := by
  induction hn : command.length - i using Nat.strongRecOn generalizing i args with
  | ind n ih =>
      rcases skipSpace_spec command i with ⟨hj, hall⟩ | ⟨sp, b, r, hj, hd, hall, hb⟩
      · have hq := loneQuote_spaces (r := []) hall
        rw [List.append_nil] at hq
        rw [cutArguments_none hj, hq]
        exact iff_of_false (Option.some_ne_none _) not_loneQuote_nil
      · have hd' := drop_append hd
        rw [cutArguments_some hj, hd, loneQuote_spaces hall]
        rcases cutArgument_spec hd' hb args with ⟨u, r', args', hu, he, hcut⟩ | ⟨hopen, hcut⟩
        · obtain ⟨hlt, -, -⟩ := drop_eq_cons hd'
          have hpos : 0 < u.length := List.length_pos_iff.mpr hu.ne_nil
          rw [hcut, he, loneQuote_append hu, ← drop_append (hd'.trans he)]
          exact ih _ (by omega) args' rfl
        · rw [hcut, hopen.loneQuote_iff, Option.bind_eq_none_iff]
          constructor
          · intro h
            cases ha : appendArgument (b :: r) args with
            | none =>
                obtain ⟨hq, rfl⟩ := appendArgument_eq_none_iff.mp ha
                exact ⟨b, hq, rfl⟩
            | some as =>
                have := h (as, command.length) (by rw [ha]; rfl)
                rw [cutArguments_length] at this
                cases this
          · rintro ⟨q, hq, he⟩ x hx
            rw [appendArgument_eq_none_iff.mpr ⟨(List.cons.inj he).1 ▸ hq, (List.cons.inj he).2⟩]
              at hx
            cases hx

/-- **Malformed commands.**  A command yields an error or a list of arguments that is not empty,
unless its last byte is a quote that begins an argument. -/
theorem parseCommand_returns_iff :
    (∃ r, parseCommand command = some r ∧ ∀ args, r = .ok args → args ≠ []) ↔
      ¬LoneQuote command := by
  have hnone : cutArguments command 0 [] = none ↔ LoneQuote command := cutArguments_eq_none_iff []
  rw [← hnone]
  unfold parseCommand
  cases cutArguments command 0 [] with
  | none => simp
  | some args => cases args <;> simp

theorem parseCommand_quote : parseCommand (str "\"") = none := by
  have hq : LoneQuote (str "\"") := ⟨[], 34, .nil, rfl, rfl⟩
  have hnone : cutArguments (str "\"") 0 [] = none := (cutArguments_eq_none_iff []).mpr hq
  rw [parseCommand, hnone]
  rfl

end Supervisord.Process.Command
