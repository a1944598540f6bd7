import Supervisord.Config.StringExpression
import Supervisord.Format.Marker
import Supervisord.Go.Index

/-!
# References

How a round of `Eval` reads its string: as a reference between what stands before it and what
stands after it.  The name goes up to the first `)`, and the type is the first letter behind it,
whatever stands in between.
-/

namespace Supervisord.StringExpression

open Go

/-- What a reference begins with. -/
def opening : Marker UInt8 := ⟨37, [40], by decide⟩

theorem opening_eq : opening.symbols = str "%(" := by decide

theorem noReference_iff {s : Str} : NoReference s ↔ opening.Free s := by
  rw [NoReference, ← opening_eq, Str.index_eq_none_iff]

/-- A string with its first reference. -/
structure Reference where
  before : Str
  varName : Str
  flags : Str
  typ : UInt8
  after : Str
  before_free : NoReference before
  varName_closed : ∀ b ∈ varName, decide (b ≠ 41) = true
  flags_letterless : ∀ b ∈ flags, (!isLetter b) = true
  typ_letter : (!isLetter typ) = false

namespace Reference

variable {r r' : Reference} {s w : Str}

/-- The reference, which is replaced as a whole. -/
def segment (r : Reference) : Str :=
  opening.symbols ++ (r.varName ++ 41 :: (r.flags ++ [r.typ]))

/-- The string. -/
def text (r : Reference) : Str := r.before ++ (r.segment ++ r.after)

/-- The string up to the end of the reference. -/
def front (r : Reference) : Str := r.before ++ r.segment

/-- More text after it. -/
def extend (r : Reference) (w : Str) : Reference := { r with after := r.after ++ w }

/-- What the reference is replaced by. -/
def value (host : Host) (se : Env) (r : Reference) : Except Error Str :=
  match se r.varName with
  | none => .error (.notFound r.varName)
  | some varValue =>
    if r.typ = 100 then match varValue.atoi with
      | none => .error (.notInteger varValue)
      | some i => .ok (host.sprintf (37 :: r.flags ++ [100]) i)
    else if r.typ = 115 then .ok varValue
    else .error (.notImplemented r.typ)

theorem text_eq (r : Reference) : r.text =
    r.before ++ (opening.symbols ++ (r.varName ++ 41 :: (r.flags ++ r.typ :: r.after))) := by
  simp only [text, segment, List.append_assoc, List.cons_append, List.nil_append]

theorem text_extend : (r.extend w).text = r.text ++ w := by
  simp only [text, extend, segment, List.append_assoc]

/-- **Unambiguity.**  A string is read in one way only. -/
theorem text_injective (h : r.text = r'.text) : r = r' := by
  obtain ⟨before, varName, flags, typ, after, hb, hv, hf, ht⟩ := r
  obtain ⟨before', varName', flags', typ', after', hb', hv', hf', ht'⟩ := r'
  rw [text_eq, text_eq] at h
  dsimp only at h
  obtain ⟨rfl, hrest⟩ := Marker.unique (noReference_iff.mp hb) (noReference_iff.mp hb') h
  obtain ⟨rfl, -, hrest⟩ := List.stop_unique hv hv' (by decide) (by decide) hrest
  obtain ⟨rfl, rfl, rfl⟩ := List.stop_unique hf hf' ht ht' hrest
  rfl

theorem front_append (r : Reference) (w : Str) : r.front ++ w = { r with after := w }.text :=
  List.append_assoc _ _ _

theorem front_append_after (r : Reference) : r.front ++ r.after = r.text := r.front_append r.after

section Value

variable {host : Host} {se : Env} {varValue : Str} {i : Int}

theorem value_notFound (h : se r.varName = none) :
    r.value host se = .error (.notFound r.varName) := by
  rw [value, h]

theorem value_string (h : se r.varName = some varValue) (ht : r.typ = 115) :
    r.value host se = .ok varValue := by
  rw [value, h, ht]
  rfl

theorem value_integer (h : se r.varName = some varValue) (ht : r.typ = 100)
    (hi : varValue.atoi = some i) :
    r.value host se = .ok (host.sprintf (37 :: r.flags ++ [100]) i) := by
  rw [value, h]
  dsimp only
  rw [if_pos ht, hi]

theorem value_notInteger (h : se r.varName = some varValue) (ht : r.typ = 100)
    (hi : varValue.atoi = none) : r.value host se = .error (.notInteger varValue) := by
  rw [value, h]
  dsimp only
  rw [if_pos ht, hi]

end Value

theorem typ_of_value {host : Host} {se : Env} {v : Str} (h : r.value host se = .ok v) :
    r.typ = 115 ∨ r.typ = 100 := by
  unfold value at h
  cases hse : se r.varName with
  | none =>
      rw [hse] at h
      cases h
  | some varValue =>
      rw [hse] at h
      dsimp only at h
      split_ifs at h with hd hs
      · exact .inr hd
      · exact .inl hs

theorem segment_append (r : Reference) (w : Str) :
    r.segment ++ w = opening.symbols ++ (r.varName ++ 41 :: (r.flags ++ r.typ :: w)) := by
  simp only [segment, List.append_assoc, List.cons_append, List.nil_append]

theorem segment_injective (h : r.segment = r'.segment) :
    r.varName = r'.varName ∧ r.flags = r'.flags ∧ r.typ = r'.typ := by
  obtain ⟨hname, -, h⟩ := List.stop_unique r.varName_closed r'.varName_closed (by decide)
    (by decide) (List.append_cancel_left h)
  obtain ⟨hflags, htyp, -⟩ :=
    List.stop_unique r.flags_letterless r'.flags_letterless r.typ_letter r'.typ_letter h
  exact ⟨hname, hflags, htyp⟩

theorem value_congr {host : Host} {se : Env} (h : r.segment = r'.segment) :
    r.value host se = r'.value host se := by
  obtain ⟨hname, hflags, htyp⟩ := segment_injective h
  rw [value, value, hname, hflags, htyp]

/-- The string up to the end of the reference determines what is put in its place. -/
theorem of_front_eq (h : r.front = r'.front) : r.before = r'.before ∧ r.segment = r'.segment := by
  have htext : { r with after := [] }.text = { r' with after := [] }.text := by
    rw [← r.front_append, ← r'.front_append, h]
  have hr := text_injective htext
  have hbefore := congrArg before hr
  have hsegment := congrArg segment hr
  exact ⟨hbefore, hsegment⟩

theorem segment_ne_nil (r : Reference) : r.segment ≠ [] := List.cons_ne_nil _ _

end Reference

/-- A reference that does not come to its end. -/
def Broken (s : Str) : Prop := ∃ before rest, NoReference before ∧
  s = before ++ (opening.symbols ++ rest) ∧ ((∀ b ∈ rest, decide (b ≠ 41) = true) ∨
    ∃ varName flags, (∀ b ∈ varName, decide (b ≠ 41) = true) ∧ rest = varName ++ 41 :: flags ∧
      ∀ b ∈ flags, (!isLetter b) = true)

/-- A string has no reference, or the first one has no end, or it has. -/
theorem reading_cases (s : Str) : NoReference s ∨ Broken s ∨ ∃ r : Reference, s = r.text := by
  by_cases hs : opening.Free s
  · exact .inl (noReference_iff.mpr hs)
  obtain ⟨before, rest, rfl, hb⟩ := Marker.exists_first hs
  have hb := noReference_iff.mpr hb
  rcases List.exists_stop (fun b ↦ decide (b ≠ 41)) rest with hv | ⟨varName, c, rest, rfl, hv, hc⟩
  · exact .inr (.inl ⟨before, rest, hb, rfl, .inl hv⟩)
  obtain rfl : c = 41 := by simpa using hc
  rcases List.exists_stop (fun b ↦ !isLetter b) rest with hf | ⟨flags, typ, after, rfl, hf, ht⟩
  · exact .inr (.inl ⟨before, _, hb, rfl, .inr ⟨varName, rest, hv, rfl, hf⟩⟩)
  · refine .inr (.inr ⟨⟨before, varName, flags, typ, after, hb, hv, hf, ht⟩, ?_⟩)
    rw [Reference.text_eq]

variable {host : Host} {se : Env} {s t u w : Str} {r : Reference}

theorem replace_broken (h : Broken s) : replace host se s = .error .invalidFormat := by
  obtain ⟨before, rest, hb, rfl, hrest⟩ := h
  have hidx := Str.index_append (t := rest) (noReference_iff.mp hb)
  have hdrop : (before ++ (opening.symbols ++ rest)).drop (before.length + 2) = rest := by
    rw [← List.drop_drop, List.drop_left]
    rfl
  unfold replace
  rw [← opening_eq, hidx]
  dsimp only
  rw [hdrop]
  rcases hrest with hv | ⟨varName, flags, hv, rfl, hf⟩
  · rw [List.takeWhile_eq_self_iff.mpr hv, List.drop_length]
  · rw [List.takeWhile_stop hv rfl, List.drop_left]
    dsimp only
    rw [List.takeWhile_eq_self_iff.mpr hf, List.drop_length]

/-- **A round.** -/
theorem replace_text (r : Reference) : replace host se r.text =
    (r.value host se).map fun v ↦ some (r.before ++ (v ++ r.after)) := by
  have hidx := Str.index_append (t := r.varName ++ 41 :: (r.flags ++ r.typ :: r.after))
    (noReference_iff.mp r.before_free)
  have hdrop : r.text.drop (r.before.length + 2) =
      r.varName ++ 41 :: (r.flags ++ r.typ :: r.after) := by
    rw [r.text_eq, ← List.drop_drop, List.drop_left]
    rfl
  have htake : r.text.take r.before.length = r.before := by
    rw [r.text_eq, List.take_left]
  unfold replace
  rw [← opening_eq, show r.text.index opening.symbols = some r.before.length from
    r.text_eq ▸ hidx]
  dsimp only
  rw [hdrop, List.takeWhile_stop r.varName_closed rfl, List.drop_left]
  dsimp only
  rw [List.takeWhile_stop r.flags_letterless r.typ_letter, List.drop_left, htake]
  dsimp only
  unfold Reference.value
  cases se r.varName with
  | none => rfl
  | some varValue =>
      dsimp only
      by_cases hd : r.typ = 100
      · rw [if_pos hd, if_pos hd]
        cases varValue.atoi with
        | none => rfl
        | some i => exact congrArg (fun s ↦ Except.ok (some s)) (List.append_assoc _ _ _)
      · rw [if_neg hd, if_neg hd]
        by_cases hs : r.typ = 115
        · rw [if_pos hs, if_pos hs]
          exact congrArg (fun s ↦ Except.ok (some s)) (List.append_assoc _ _ _)
        · rw [if_neg hs, if_neg hs]
          rfl

theorem replace_eq_ok_some : replace host se s = .ok (some t) ↔ ∃ (r : Reference) (v : Str),
    s = r.text ∧ r.value host se = .ok v ∧ t = r.before ++ (v ++ r.after) := by
  constructor
  · intro h
    rcases reading_cases s with hs | hs | ⟨r, rfl⟩
    · rw [replace_eq_ok_none.mpr hs] at h
      cases h
    · rw [replace_broken hs] at h
      cases h
    · rw [replace_text] at h
      cases hv : r.value host se with
      | error e =>
          rw [hv] at h
          cases h
      | ok v =>
          rw [hv] at h
          cases h
          exact ⟨r, v, rfl, hv, rfl⟩
  · rintro ⟨r, v, rfl, hv, rfl⟩
    rw [replace_text, hv]
    rfl

end Supervisord.StringExpression
