import Supervisord.Config.Evaluation
import Supervisord.Go.Fmt

/-!
# Templates

Strings for `Eval` as they are meant: texts, strings and integers in a row.  With values that hold
no percent sign each round replaces the first reference that is left, and what is in front of it is
never looked at again.
-/

namespace Supervisord.StringExpression

open Go

/-- A text that is not part of a reference, whatever follows it. -/
def Inert (s : Str) : Prop := NoReference s ∧ s.getLast? ≠ some 37

section Inert

variable {s t : Str}

theorem inert_nil : Inert [] := ⟨noReference_of_notMem List.not_mem_nil, by decide⟩

theorem inert_of_notMem (h : 37 ∉ s) : Inert s :=
  ⟨noReference_of_notMem h, fun he ↦ h (List.mem_of_getLast? he)⟩

theorem Inert.noReference_append (hs : Inert s) (ht : NoReference t) : NoReference (s ++ t) := by
  obtain ⟨hs, hlast⟩ := hs
  rw [noReference_iff] at hs ht ⊢
  rintro ⟨a, b, he⟩
  rw [List.append_assoc] at he
  rcases List.append_eq_append_iff.mp he with ⟨c, rfl, hc⟩ | ⟨c, -, rfl⟩
  · rcases c with _ | ⟨x, _ | ⟨y, c⟩⟩
    · exact ht ⟨[], b, hc⟩
    · have hc : (37 :: 40 :: b : Str) = x :: t := hc
      cases hc
      exact hlast List.getLast?_concat
    · have hc : (37 :: 40 :: b : Str) = x :: y :: (c ++ t) := hc
      cases hc
      exact hs ⟨a, c, List.append_assoc _ _ _⟩
  · exact ht ⟨c, b, List.append_assoc _ _ _⟩

theorem Inert.append (hs : Inert s) (ht : Inert t) : Inert (s ++ t) := by
  refine ⟨hs.noReference_append ht.1, ?_⟩
  cases t with
  | nil => rw [List.append_nil]; exact hs.2
  | cons b t => rw [List.getLast?_append_of_ne_nil s (List.cons_ne_nil b t)]; exact ht.2

section Behind

variable {host : Host} {se : Env}

/-- What stands behind such a text is evaluated by itself. -/
theorem Inert.replace_append (hs : Inert s) (t : Str) :
    replace host se (s ++ t) = (replace host se t).map (Option.map (s ++ ·)) := by
  rcases reading_cases t with ht | ht | ⟨r, rfl⟩
  · rw [replace_eq_ok_none.mpr (hs.noReference_append ht), replace_eq_ok_none.mpr ht]
    rfl
  · rw [replace_broken ht, replace_broken]
    · rfl
    · obtain ⟨before, rest, hb, rfl, hrest⟩ := ht
      exact ⟨s ++ before, rest, hs.noReference_append hb, (List.append_assoc _ _ _).symm, hrest⟩
  · let r' : Reference :=
      { r with before := s ++ r.before, before_free := hs.noReference_append r.before_free }
    have htext : s ++ r.text = r'.text := (List.append_assoc _ _ _).symm
    have hvalue : r'.value host se = r.value host se := rfl
    rw [htext, replace_text, replace_text, hvalue]
    cases r.value host se with
    | error e => rfl
    | ok v => exact congrArg (fun t ↦ Except.ok (some t)) (List.append_assoc _ _ _)

theorem Inert.eval_append (hs : Inert s) (n : Nat) (t : Str) :
    eval host se n (s ++ t) = (eval host se n t).map fun r ↦ r.map (s ++ ·) := by
  induction n generalizing t with
  | zero => rfl
  | succ n ih =>
      rw [eval, eval, hs.replace_append]
      cases replace host se t with
      | error e => rfl
      | ok t' =>
          cases t' with
          | none => rfl
          | some t' => exact ih t'

end Behind

theorem inert_sprintfInt (digits : Str) (i : Int) : Inert (Fmt.sprintfInt digits i) := by
  have hnum {s : Str} (h : ∀ b ∈ s, Fmt.isNumeral b = true) : Inert s :=
    inert_of_notMem fun hm ↦ absurd (h 37 hm) (by decide)
  rcases Fmt.sprintfInt_cases digits i with h | h
  · rw [h]
    refine .append (.append ⟨?_, by decide⟩ (hnum Fmt.isNumeral_formatInt)) ?_
    · show Str.index _ _ = none
      decide
    · exact inert_of_notMem (by decide)
  · exact hnum h

end Inert

/-- A piece of a template. -/
inductive Piece where
  | literal (text : Str)
  | string (name : Str)
  | integer (name digits : Str)

namespace Piece

/-- How the piece is written. -/
def text : Piece → Str
  | literal text => text
  | string name => str "%(" ++ (name ++ str ")s")
  | integer name digits => str "%(" ++ (name ++ str ")" ++ (digits ++ str "d"))

def WellFormed : Piece → Prop
  | literal text => 37 ∉ text
  | string name => 41 ∉ name
  | integer name digits => 41 ∉ name ∧ ∀ b ∈ digits, Str.isDigit b = true

/-- What the piece stands for. -/
def value (se : Env) : Piece → Str
  | literal text => text
  | string name => (se name).getD []
  | integer name digits => Fmt.sprintfInt digits (((se name).bind Str.atoi).getD 0)

/-- The variable is not defined, or it is not an integer where it has to be one. -/
def Fails (se : Env) : Piece → Prop
  | literal _ => False
  | string name => se name = none
  | integer name _ => se name = none ∨ ∃ v, se name = some v ∧ v.atoi = none

/-- A string the piece stands for holds no percent sign. -/
def Plain (se : Env) : Piece → Prop
  | string name => ∀ v, se name = some v → 37 ∉ v
  | _ => True

/-- The variable the piece refers to. -/
def varName : Piece → Option Str
  | literal _ => none
  | string name => some name
  | integer name _ => some name

variable {host : Host} {se se' : Env} {p after : Str} {x : Piece}

theorem plain_of_forall (hse : ∀ name v, se name = some v → 37 ∉ v) : x.Plain se := by
  cases x with
  | literal text => trivial
  | string name => exact hse name
  | integer name digits => trivial

/-- Only the variable of the piece matters. -/
theorem value_congr (h : ∀ name, x.varName = some name → se name = se' name) :
    x.value se = x.value se' := by
  cases x with
  | literal text => rfl
  | string name => rw [value, value, h name rfl]
  | integer name digits => rw [value, value, h name rfl]

/-- A reference to a variable is replaced by its value, or it fails. -/
structure Replaced (host : Host) (se : Env) (x : Piece) (r : Reference) : Prop where
  segment : r.segment = x.text
  value : ¬x.Fails se → r.value host se = .ok (x.value se) ∧ Inert (x.value se)
  error : x.Fails se → ∃ e, r.value host se = .error e

/-- **One piece.**  It is a text, or a reference can be made of it. -/
theorem read (hfmt : ∀ digits i, (∀ b ∈ digits, Str.isDigit b = true) →
      host.sprintf (37 :: digits ++ [100]) i = Fmt.sprintfInt digits i)
    (hse : x.Plain se) (hx : x.WellFormed) (hp : Inert p) (after : Str) :
    (¬x.Fails se ∧ x.value se = x.text ∧ Inert x.text) ∨
    ∃ r : Reference, r.before = p ∧ r.after = after ∧ Replaced host se x r := by
  cases x with
  | literal text => exact .inl ⟨id, rfl, inert_of_notMem hx⟩
  | string name =>
      right
      refine ⟨⟨p, name, [], 115, after, hp.1, List.forall_ne_iff_notMem.mpr hx,
        fun b hb ↦ absurd hb List.not_mem_nil, by decide⟩, rfl, rfl, rfl, ?_, ?_⟩
      · intro hd
        obtain ⟨v, hv⟩ := Option.ne_none_iff_exists'.mp hd
        rw [Reference.value_string hv rfl, Piece.value, hv]
        exact ⟨rfl, inert_of_notMem (hse v hv)⟩
      · intro hd
        exact ⟨_, Reference.value_notFound hd⟩
  | integer name digits =>
      right
      refine ⟨⟨p, name, digits, 100, after, hp.1, List.forall_ne_iff_notMem.mpr hx.1,
        fun b hb ↦ ?_, by decide⟩, rfl, rfl, ?_, ?_, ?_⟩
      · apply not_isLetter_of_isFormat
        rw [isFormat, hx.2 b hb, Bool.or_true]
        rfl
      · simp only [Reference.segment, opening_eq, text, List.append_assoc]
        rfl
      · intro hd
        obtain ⟨v, hv⟩ := Option.ne_none_iff_exists'.mp fun hn ↦ hd (.inl hn)
        obtain ⟨i, hi⟩ := Option.ne_none_iff_exists'.mp fun hn ↦ hd (.inr ⟨v, hv, hn⟩)
        rw [Reference.value_integer hv rfl hi, Piece.value, hv, Option.bind_some, hi]
        exact ⟨congrArg Except.ok (hfmt digits i hx.2), inert_sprintfInt digits i⟩
      · rintro (hd | ⟨v, hv, hi⟩)
        · exact ⟨_, Reference.value_notFound hd⟩
        · exact ⟨_, Reference.value_notInteger hv rfl hi⟩

end Piece

variable {host : Host} {se : Env}

/-- What stands in front has been evaluated. -/
theorem eval_behind (hfmt : ∀ digits i, (∀ b ∈ digits, Str.isDigit b = true) →
      host.sprintf (37 :: digits ++ [100]) i = Fmt.sprintfInt digits i)
    {t : List Piece} (hse : ∀ x ∈ t, x.Plain se) (ht : ∀ x ∈ t, x.WellFormed) {p : Str}
    (hp : Inert p) :
    ∃ n r, eval host se n (p ++ t.flatMap Piece.text) = some r ∧
      ((∃ e, r = .error e) ↔ ∃ x ∈ t, x.Fails se) ∧
      ∀ out, r = .ok out → out = p ++ t.flatMap (Piece.value se) := by
  induction t generalizing p with
  | nil =>
      refine ⟨1, .ok p, ?_, by simp, ?_⟩
      · rw [List.flatMap_nil, List.append_nil, eval, replace_eq_ok_none.mpr hp.1]
      · rintro out h
        cases h
        exact (List.append_nil p).symm
  | cons x t ih =>
      have ht' := List.forall_mem_cons.mp ht
      have hse' := List.forall_mem_cons.mp hse
      rw [List.flatMap_cons, List.flatMap_cons]
      simp only [List.exists_mem_cons_iff]
      rcases Piece.read hfmt hse'.1 ht'.1 hp (t.flatMap Piece.text) with
        ⟨hok, hv, hin⟩ | ⟨r, rfl, hafter, hr⟩
      · obtain ⟨n, o, he, herr, hout⟩ := ih hse'.2 ht'.2 (hp.append hin)
        rw [List.append_assoc] at he
        refine ⟨n, o, he, herr.trans (or_iff_right hok).symm, fun out h ↦ ?_⟩
        rw [hout out h, hv, List.append_assoc]
      · have htext : r.before ++ (x.text ++ t.flatMap Piece.text) = r.text := by
          rw [Reference.text, hr.segment, hafter]
        rw [htext]
        by_cases hf : x.Fails se
        · obtain ⟨e, he⟩ := hr.error hf
          refine ⟨1, .error e, ?_, iff_of_true ⟨e, rfl⟩ (.inl hf), fun out h ↦ by cases h⟩
          rw [eval, replace_text, he]
          rfl
        · obtain ⟨hv, hin⟩ := hr.value hf
          obtain ⟨n, o, he, herr, hout⟩ := ih hse'.2 ht'.2 (hp.append hin)
          refine ⟨n + 1, o, ?_, herr.trans (or_iff_right hf).symm, fun out h ↦ ?_⟩
          · rw [eval, replace_text, hv, ← he, List.append_assoc, hafter]
            rfl
          · rw [hout out h, List.append_assoc]

/-- **Templates.**  `Eval` of a template returns, in order, its texts, the values of the strings and
the integers as `fmt` writes them; and it returns an error exactly when a variable is not defined
or not an integer where it has to be one. -/
theorem eval_template (hfmt : ∀ digits i, (∀ b ∈ digits, Str.isDigit b = true) →
      host.sprintf (37 :: digits ++ [100]) i = Fmt.sprintfInt digits i)
    (hse : ∀ name v, se name = some v → 37 ∉ v) (t : List Piece)
    (ht : ∀ x ∈ t, x.WellFormed) :
    ∃ n r, eval host se n (t.flatMap Piece.text) = some r ∧
      ((∃ e, r = .error e) ↔ ∃ x ∈ t, x.Fails se) ∧
      ∀ out, r = .ok out → out = t.flatMap (Piece.value se) :=
  eval_behind hfmt (fun _ _ ↦ Piece.plain_of_forall hse) ht inert_nil

/-- A machine whose formats are formats of integers. -/
def decimalHost : Host where
  sprintf format i := Fmt.sprintfInt (format.drop 1).dropLast i

/-- The name of a log file. -/
theorem eval_template_log :
    let se := add (add (fun _ ↦ none) (str "program_name") (str "web")) (str "process_num")
      (str "3")
    let t : List Piece := [.literal (str "/log/"), .string (str "program_name"),
      .integer (str "process_num") (str "02"), .literal (str ".log")]
    t.flatMap Piece.text = str "/log/%(program_name)s%(process_num)02d.log" ∧
      t.flatMap (Piece.value se) = str "/log/web03.log" ∧
      ∃ n r, eval decimalHost se n (t.flatMap Piece.text) = some r ∧
        ((∃ e, r = .error e) ↔ ∃ x ∈ t, x.Fails se) ∧
        ∀ out, r = .ok out → out = t.flatMap (Piece.value se) := by
  intro se t
  refine ⟨by decide, by decide, eval_template ?_ ?_ t ?_⟩
  · intro digits i _
    exact congrArg (Fmt.sprintfInt · i) (List.dropLast_concat)
  · intro name v hv
    have hse : v = str "3" ∨ v = str "web" := by
      simp only [se, add, Function.update_apply] at hv
      split_ifs at hv with h₁ h₂
      · exact .inl (Option.some.inj hv).symm
      · exact .inr (Option.some.inj hv).symm
    rcases hse with rfl | rfl <;> decide
  · intro x hx
    simp only [t, List.mem_cons, List.not_mem_nil, or_false] at hx
    have hdigits : ∀ b ∈ str "02", Str.isDigit b = true := List.all_eq_true.mp (by decide)
    rcases hx with rfl | rfl | rfl | rfl <;> simp only [Piece.WellFormed]
    · decide
    · decide
    · exact ⟨by decide, hdigits⟩
    · decide

end Supervisord.StringExpression
