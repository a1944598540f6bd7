import Supervisord.Config.Reference

/-!
# Texts of an evaluation

The input of `Eval` and the values that are put in for its references.  A reference ends in one of
these texts, and mostly it begins there, too.  What stands before a text may however be the
beginning of a reference: the end of another text, or a `%` that stands before a reference.
-/

namespace Supervisord.StringExpression

open Go

/-! ## References of texts -/

/-- The string is put together of ends of texts and of `%`s that stand before references. -/
inductive Hanging (T : Str → Prop) : Str → Prop
  | nil : Hanging T []
  | tail {h t p : Str} (hh : Hanging T h) (ht : T t) (hp : p <:+ t) : Hanging T (h ++ p)
  | percent {h t : Str} (hh : Hanging T h) (ht : T t) (hp : str "%%(" <:+: t) :
      Hanging T (h ++ str "%")

/-- The text has the reference in it, or the end of it and the beginning may stand before it. -/
def Spells (T : Str → Prop) (v : Str) (r : Reference) : Prop := ∃ front back : Str,
  Hanging T front ∧ back <:+: v ∧ back ≠ [] ∧ r.segment = front ++ back

/-- The texts of the evaluation of `s`: the string itself, and the values of references that end in
a text. -/
inductive Text (host : Host) (se : Env) (s : Str) : Str → Prop
  | input : Text host se s s
  | value {v v' front back : Str} {r : Reference} (hv : Text host se s v)
      (hfront : Hanging (Text host se s) front) (hback : back <:+: v) (hne : back ≠ [])
      (hr : r.segment = front ++ back) (hv' : r.value host se = .ok v') : Text host se s v'

/-- In the evaluation of `s`, a reference that ends in the first text has the second as its
value. -/
def Refers (host : Host) (se : Env) (s v v' : Str) : Prop :=
  ∃ r : Reference, Spells (Text host se s) v r ∧ r.value host se = .ok v'

variable {T : Str → Prop} {host : Host} {se : Env} {s t u v v' d h q z : Str} {r : Reference}

theorem Text.refers (hv : Text host se s v) (h : Refers host se s v v') : Text host se s v' := by
  obtain ⟨r, ⟨front, back, hfront, hback, hne, hr⟩, hv'⟩ := h
  exact .value hv hfront hback hne hr hv'

/-- The type of a reference is in the text that it ends in. -/
theorem Spells.typ_mem {T : Str → Prop} {v : Str} (h : Spells T v r) : r.typ ∈ v := by
  obtain ⟨front, back, -, hback, hne, hr⟩ := h
  obtain ⟨back, b, rfl⟩ := (List.eq_nil_or_concat' back).resolve_left hne
  have hlast : r.segment = (opening.symbols ++ (r.varName ++ 41 :: r.flags)) ++ [r.typ] := by
    simp only [Reference.segment, List.append_assoc, List.cons_append]
  rw [hlast, ← List.append_assoc front] at hr
  obtain ⟨-, hb⟩ := List.append_inj' hr rfl
  rw [(List.cons.inj hb).1]
  exact hback.subset (List.mem_append_right back List.mem_cons_self)

/-- The induction on the texts. -/
@[elab_as_elim]
theorem Text.induction {P : (v : Str) → Text host se s v → Prop} (input : P s .input)
    (value : ∀ {v v' r} (hv : Text host se s v) (hr : Spells (Text host se s) v r)
      (hv' : r.value host se = .ok v'), P v hv → P v' (hv.refers ⟨r, hr, hv'⟩))
    (h : Text host se s v) : P v h :=
  @Text.rec host se s P (fun _ _ ↦ True) input
    (fun hv hfront hback hne hr hv' ih _ ↦ value hv ⟨_, _, hfront, hback, hne, hr⟩ hv' ih)
    trivial (fun _ _ _ _ _ ↦ trivial) (fun _ _ _ _ _ ↦ trivial) v h

namespace Hanging

theorem of_suffix (hh : Hanging T h) (hq : q <:+ h) : Hanging T q := by
  induction hh generalizing q with
  | nil =>
      rw [List.suffix_nil.mp hq]
      exact .nil
  | @tail h t p hh ht hp ih =>
      obtain ⟨w, hw⟩ := hq
      rcases List.append_eq_append_iff.mp hw with ⟨x, rfl, rfl⟩ | ⟨x, rfl, rfl⟩
      · exact (ih (List.suffix_append w x)).tail ht hp
      · rw [← List.nil_append q]
        exact .tail .nil ht ((List.suffix_append x q).trans hp)
  | @percent h t hh ht hp ih =>
      rcases List.suffix_concat_iff.mp hq with rfl | ⟨q, rfl, hq'⟩
      · exact .nil
      · exact (ih hq').percent ht hp

/-- What hangs over begins with one of the pieces. -/
theorem exists_piece (hh : Hanging T h) (hne : h ≠ []) : ∃ p x, p ≠ [] ∧ h = p ++ x ∧
    ((∃ t, T t ∧ p <:+ t) ∨ p = str "%" ∧ ∃ t, T t ∧ str "%%(" <:+: t) := by
  induction hh with
  | nil => exact absurd rfl hne
  | @tail h t p hh ht hp ih =>
      by_cases hh : h = []
      · subst hh
        exact ⟨p, [], hne, (List.append_nil p).symm, .inl ⟨t, ht, hp⟩⟩
      · obtain ⟨p', x, hp', rfl, hpiece⟩ := ih hh
        exact ⟨p', x ++ p, hp', List.append_assoc p' x p, hpiece⟩
  | @percent h t hh ht hp ih =>
      by_cases hh : h = []
      · subst hh
        exact ⟨str "%", [], hne, rfl, .inr ⟨rfl, t, ht, hp⟩⟩
      · obtain ⟨p', x, hp', rfl, hpiece⟩ := ih hh
        exact ⟨p', x ++ str "%", hp', List.append_assoc p' x _, hpiece⟩

theorem of_suffix_text (ht : T t) (hp : q <:+ t) : Hanging T q := by
  rw [← List.nil_append q]
  exact .tail .nil ht hp

theorem of_infix_text (ht : T t) (hp : str "%%(" <:+: t) : Hanging T (str "%") := by
  rw [← List.nil_append (str "%")]
  exact .percent .nil ht hp

theorem append (hh : Hanging T h) (hq : Hanging T q) : Hanging T (h ++ q) := by
  induction hq with
  | nil => rwa [List.append_nil]
  | @tail q t p _ ht hp ih =>
      rw [← List.append_assoc]
      exact ih.tail ht hp
  | @percent q t _ ht hp ih =>
      rw [← List.append_assoc]
      exact ih.percent ht hp

/-- A `%` before a reference hangs over alone, too. -/
theorem percent_of_infix (hh : Hanging T h) (hp : str "%%(" <:+: h) : Hanging T (str "%") := by
  obtain ⟨a, b, rfl⟩ := hp
  rw [List.append_assoc] at hh
  obtain ⟨p, x, hne, he, ⟨t, ht, hpt⟩ | ⟨rfl, t, ht, hpt⟩⟩ :=
    (hh.of_suffix (List.suffix_append a _)).exists_piece (List.cons_ne_nil _ _)
  · rcases List.append_eq_append_iff.mp he with ⟨y, rfl, -⟩ | ⟨y, hy, -⟩
    · exact of_infix_text ht ((List.infix_append [] (str "%%(") y).trans hpt.isInfix)
    · -- a part of the marker ends in a `%`, or it is the whole of it
      have hends : str "%" <:+ p ∨ p = str "%%(" := by
        rcases p with _ | ⟨c, _ | ⟨c', _ | ⟨c'', p⟩⟩⟩
        · exact absurd rfl hne
        · cases hy
          exact .inl List.suffix_rfl
        · cases hy
          exact .inl ⟨[37], rfl⟩
        · obtain ⟨rfl, -⟩ := List.append_eq_nil_iff.mp (List.cons.inj (List.cons.inj
            (List.cons.inj hy).2).2).2.symm
          cases hy
          exact .inr rfl
      rcases hends with hends | rfl
      · exact of_suffix_text ht (hends.trans hpt)
      · exact of_infix_text ht hpt.isInfix
  · exact of_infix_text ht hpt

end Hanging

/-! ## Reading -/

theorem percent_suffix_concat {c : UInt8} : str "%" <:+ z ++ [c] ↔ 37 = c :=
  List.singleton_suffix_append_singleton_iff

theorem suffix_percent : z <:+ str "%" ↔ z = str "%" ∨ z = [] :=
  List.suffix_cons_iff.trans (or_congr_right List.suffix_nil)

/-- No reference begins in the string, whatever follows. -/
def Sealed (d : Str) : Prop := ∀ y, opening.Skips d y

theorem sealed_nil : Sealed [] := Marker.skips_nil

theorem Sealed.not_suffix (hd : Sealed d) : ¬str "%" <:+ d := by
  rintro ⟨j, rfl⟩
  have hle := hd (str "(") j [] (by rw [List.append_nil, List.append_assoc]; rfl)
  rw [List.length_append] at hle
  exact absurd hle (Nat.not_le.mpr (Nat.lt_succ_self j.length))

theorem sealed_of_noReference (hd : NoReference d) (hend : ¬str "%" <:+ d) : Sealed d := by
  intro y j t he
  by_contra hlt
  rcases List.append_eq_append_iff.mp he with ⟨x, rfl, -⟩ | ⟨x, rfl, hx⟩
  · rw [List.length_append] at hlt
    exact hlt (Nat.le_add_right _ _)
  -- the marker begins in `x`, the end of `d`
  rcases x with _ | ⟨c, _ | ⟨c', x⟩⟩
  · rw [List.append_nil] at hlt
    exact hlt le_rfl
  · cases hx
    exact hend (List.suffix_append j _)
  · cases hx
    exact noReference_iff.mp hd ⟨j, x, List.append_assoc j _ x⟩

theorem Sealed.noReference (hd : Sealed d) : NoReference d := by
  rw [noReference_iff]
  rintro ⟨j, t, he⟩
  have hle := hd [] j t (by rw [List.append_nil, ← he, List.append_assoc])
  rw [← he, List.length_append, List.length_append] at hle
  exact absurd hle (by rw [Marker.symbols, List.length_cons]; omega)

/-- The first reference begins behind what is sealed. -/
theorem Sealed.exists_before (hd : Sealed d) (h : d ++ u = r.text) :
    ∃ b, r.before = d ++ b ∧ u = b ++ (r.segment ++ r.after) := by
  have hle : d.length ≤ r.before.length := hd u r.before _ (h.trans r.text_eq)
  obtain ⟨b, hb⟩ : d <+: r.before :=
    List.prefix_of_prefix_length_le ⟨u, h⟩ (List.prefix_append _ _) hle
  rw [Reference.text, ← hb, List.append_assoc, List.append_cancel_left_eq] at h
  exact ⟨b, hb.symm, h⟩

/-- A string without a complete reference, of which the end may be the beginning of one. -/
structure Hangs (T : Str → Prop) (z : Str) : Prop where
  incomplete : ∀ r : Reference, z ≠ r.text
  split : ∃ d h, z = d ++ h ∧ Sealed d ∧ Hanging T h

theorem incomplete_of_noReference (hz : NoReference z) (r : Reference) : z ≠ r.text := by
  rintro rfl
  rw [r.text_eq, noReference_iff] at hz
  exact hz ⟨r.before, _, List.append_assoc _ _ _⟩

theorem hangs_of_noReference (hz : NoReference z) (hend : str "%" <:+ z → Hanging T (str "%")) :
    Hangs T z := by
  refine ⟨incomplete_of_noReference hz, ?_⟩
  induction z using List.reverseRecOn with
  | nil => exact ⟨[], [], rfl, sealed_nil, .nil⟩
  | append_singleton z c ih =>
      have hfree := noReference_iff.mp hz
      have hz' : NoReference z :=
        noReference_iff.mpr (hfree.of_infix (List.prefix_append z _).isInfix)
      by_cases hc : c = 37
      · subst hc
        have hpercent : Hanging T (str "%") := hend (List.suffix_append z _)
        obtain ⟨d, h, rfl, hd, hh⟩ := ih hz' fun _ ↦ hpercent
        exact ⟨d, h ++ str "%", List.append_assoc d h _, hd, hh.append hpercent⟩
      · refine ⟨z ++ [c], [], (List.append_nil _).symm, sealed_of_noReference hz ?_, .nil⟩
        intro hs
        exact hc (percent_suffix_concat.mp hs).symm

namespace Hangs

/-- A text that completes no reference hangs over in turn. -/
theorem append (hz : Hangs T z) (hv : T v) (hu : u <:+ v) (h : ∀ r : Reference, z ++ u ≠ r.text) :
    Hangs T (z ++ u) := by
  obtain ⟨d, w, rfl, hd, hw⟩ := hz.split
  exact ⟨h, d, w ++ u, List.append_assoc d w u, hd, hw.tail hv hu⟩

/-- The reference ends in the text. -/
theorem exists_back (hz : Hangs T z) (h : z ++ u = r.text) :
    ∃ back, back ≠ [] ∧ u = back ++ r.after ∧ z ++ back = r.front := by
  rw [← r.front_append_after] at h
  rcases List.append_eq_append_iff.mp h with ⟨back, hback, rfl⟩ | ⟨q, rfl, hq⟩
  · refine ⟨back, ?_, rfl, hback.symm⟩
    rintro rfl
    refine hz.incomplete { r with after := [] } ?_
    rw [← r.front_append, List.append_nil, hback, List.append_nil]
  · exact absurd (r.front_append q) (hz.incomplete _)

/-- A text that completes a reference spells it. -/
theorem spells (hz : Hangs T z) (hu : u <:+ v) (h : z ++ u = r.text) : Spells T v r := by
  obtain ⟨back, hne, rfl, hback⟩ := hz.exists_back h
  obtain ⟨d, w, rfl, hd, hw⟩ := hz.split
  rw [List.append_assoc] at h hback
  obtain ⟨b, hb, -⟩ := hd.exists_before h
  rw [Reference.front, hb, List.append_assoc, List.append_cancel_left_eq] at hback
  have hin : back <:+: v := (List.prefix_append back r.after).isInfix.trans hu.isInfix
  rcases List.append_eq_append_iff.mp hback with ⟨q, -, rfl⟩ | ⟨front, rfl, hr⟩
  · refine ⟨[], r.segment, .nil, ?_, r.segment_ne_nil, rfl⟩
    exact (List.suffix_append q _).isInfix.trans hin
  · exact ⟨front, back, hw.of_suffix (List.suffix_append b front), hin, hne, hr⟩

/-- What stands before the reference hangs over the value. -/
theorem before (hz : Hangs T z) (hv : T v) (hu : u <:+ v) (h : z ++ u = r.text) :
    Hangs T r.before := by
  refine hangs_of_noReference r.before_free fun hend ↦ ?_
  obtain ⟨d, w, rfl, hd, hw⟩ := hz.split
  rw [List.append_assoc] at h
  obtain ⟨b, hb, he⟩ := hd.exists_before h
  -- the `%` is in `b`, since the string ahead of it is sealed
  obtain ⟨b, rfl⟩ : str "%" <:+ b := by
    rw [hb] at hend
    rcases List.suffix_or_suffix_of_suffix hend (List.suffix_append d b) with hb | hb
    · exact hb
    · rcases suffix_percent.mp hb with rfl | rfl
      · exact List.suffix_rfl
      · rw [List.append_nil] at hend
        exact absurd hend hd.not_suffix
  rw [List.append_assoc] at he
  rcases List.append_eq_append_iff.mp he with ⟨q, rfl, hq⟩ | ⟨q, rfl, hq⟩
  · refine .of_infix_text hv (List.IsInfix.trans ?_ hu.isInfix)
    exact ⟨q, _, by rw [hq, List.append_assoc]; rfl⟩
  · rcases q with _ | ⟨c, _ | ⟨c', _ | ⟨c'', q⟩⟩⟩
    · refine .of_infix_text hv (List.IsInfix.trans ?_ hu.isInfix)
      exact ⟨[], _, hq⟩
    · cases hq
      exact hw.of_suffix (List.suffix_append b _)
    · cases hq
      exact hw.of_suffix ((List.suffix_append [37] _).trans (List.suffix_append b _))
    · have hc : [c, c', c''] = str "%%(" := by
        obtain ⟨hc, hq⟩ := List.cons.inj hq
        obtain ⟨hc', hq⟩ := List.cons.inj hq
        rw [← hc, ← hc', ← (List.cons.inj hq).1]
        rfl
      refine hw.percent_of_infix ⟨b, q, ?_⟩
      rw [← hc, List.append_assoc]
      rfl

end Hangs

/-! ## Whole texts -/

/-- The references of the text are complete, do not overlap and have no `%` ahead of them, and there
is none at the end. -/
inductive Whole : Str → Prop
  | plain {s : Str} (hs : NoReference s) (hend : ¬str "%" <:+ s) : Whole s
  | reference {r : Reference} (hbefore : ¬str "%" <:+ r.before) (hname : 37 ∉ r.varName)
      (hflags : 37 ∉ r.flags) (hafter : Whole r.after) : Whole r.text

/-- The reference, but for its first character. -/
def Reference.tail (r : Reference) : Str := 40 :: (r.varName ++ 41 :: (r.flags ++ [r.typ]))

theorem Reference.segment_eq (r : Reference) : r.segment = 37 :: r.tail := rfl

theorem Reference.typ_ne_percent (r : Reference) : r.typ ≠ 37 := by
  intro h
  have hletter := r.typ_letter
  rw [h] at hletter
  exact absurd hletter (by decide)

theorem Reference.not_suffix_text (r : Reference) (h : r.after = []) : ¬str "%" <:+ r.text := by
  intro hs
  have he : r.text =
      (r.before ++ (opening.symbols ++ (r.varName ++ 41 :: r.flags))) ++ [r.typ] := by
    simp only [r.text_eq, h, List.append_assoc, List.cons_append]
  rw [he] at hs
  exact r.typ_ne_percent (percent_suffix_concat.mp hs).symm

theorem Reference.percent_notMem_tail (hname : 37 ∉ r.varName) (hflags : 37 ∉ r.flags) :
    37 ∉ r.tail := by
  simp only [tail, List.mem_cons, List.mem_append, List.not_mem_nil, or_false, not_or]
  exact ⟨by decide, hname, by decide, hflags, r.typ_ne_percent.symm⟩

/-- Where the name and the flags have no `%`, references begin at the reference and after it. -/
theorem Reference.occurrence {x y : Str} (hbefore : ¬str "%" <:+ r.before)
    (hname : 37 ∉ r.varName) (hflags : 37 ∉ r.flags) (h : r.text = x ++ (opening.symbols ++ y)) :
    x = r.before ∨ ∃ x', x = r.front ++ x' ∧ r.after = x' ++ (opening.symbols ++ y) := by
  have htail := r.percent_notMem_tail hname hflags
  rcases List.append_eq_append_iff.mp h with ⟨a, rfl, ha⟩ | ⟨c, hc, hy⟩
  · rcases List.append_eq_append_iff.mp ha with ⟨x', rfl, hx'⟩ | ⟨c, hc, hy⟩
    · exact .inr ⟨x', (List.append_assoc _ _ _).symm, hx'⟩
    · rcases c with _ | ⟨b, c⟩
      · refine .inr ⟨[], ?_, hy.symm⟩
        rw [List.append_nil] at hc ⊢
        rw [← hc, front]
      obtain rfl : 37 = b := (List.cons.inj hy).1
      cases a with
      | nil => exact .inl (List.append_nil _)
      | cons b' a =>
          rw [segment_eq] at hc
          rw [(List.cons.inj hc).2] at htail
          exact absurd (List.mem_append_right a List.mem_cons_self) htail
  · rcases c with _ | ⟨b, _ | ⟨b', c⟩⟩
    · exact .inl (hc.trans (List.append_nil x)).symm
    · obtain rfl : 37 = b := (List.cons.inj hy).1
      exact absurd ⟨x, hc.symm⟩ hbefore
    · obtain rfl : 37 = b := (List.cons.inj hy).1
      obtain rfl : 40 = b' := (List.cons.inj (List.cons.inj hy).2).1
      refine absurd ⟨x, c, ?_⟩ (noReference_iff.mp r.before_free)
      rw [hc, List.append_assoc]
      rfl

namespace Whole

theorem of_text (h : Whole r.text) :
    ¬str "%" <:+ r.before ∧ 37 ∉ r.varName ∧ 37 ∉ r.flags ∧ Whole r.after := by
  generalize ht : r.text = t at h
  cases h with
  | plain hs _ => exact absurd ht.symm (incomplete_of_noReference hs r)
  | reference hbefore hname hflags hafter =>
      obtain rfl := Reference.text_injective ht
      exact ⟨hbefore, hname, hflags, hafter⟩

theorem not_suffix (h : Whole t) : ¬str "%" <:+ t := by
  induction h with
  | plain _ hend => exact hend
  | @reference r _ _ _ _ ih =>
      intro hs
      rcases List.suffix_or_suffix_of_suffix hs ⟨r.front, r.front_append_after⟩ with ha | ha
      · exact ih ha
      · rcases suffix_percent.mp ha with ha | ha
        · exact ih (ha ▸ List.suffix_rfl)
        · exact r.not_suffix_text ha hs

/-- A reference has no `%` ahead of it. -/
theorem noEscape (h : Whole t) : ¬str "%%(" <:+: t := by
  induction h with
  | plain hs _ =>
      rintro ⟨x, y, rfl⟩
      refine noReference_iff.mp hs ⟨x ++ str "%", y, ?_⟩
      simp only [List.append_assoc]
      rfl
  | @reference r hbefore hname hflags _ ih =>
      rintro ⟨x, y, he⟩
      have he : r.text = (x ++ str "%") ++ (opening.symbols ++ y) := by
        rw [← he, List.append_assoc, List.append_assoc]
        rfl
      rcases r.occurrence hbefore hname hflags he with hx | ⟨x', hx, ha⟩
      · exact hbefore ⟨x, hx⟩
      · rcases List.eq_nil_or_concat' x' with rfl | ⟨x', b, rfl⟩
        · refine Reference.not_suffix_text { r with after := [] } rfl ⟨x, ?_⟩
          rw [hx, r.front_append]
        · rw [← List.append_assoc] at hx
          obtain ⟨-, hb⟩ := List.append_inj' hx rfl
          obtain rfl := (List.cons.inj hb).1
          refine ih ⟨x', y, ?_⟩
          rw [ha, List.append_assoc, List.append_assoc]
          rfl

/-- A reference does not begin at the end. -/
theorem not_suffix_of_segment {p : Str} (h : Whole t) (hp : p <:+ t) (hne : p ≠ [])
    (hr : r.segment = p ++ q) : q = [] := by
  rcases p with _ | ⟨b, _ | ⟨b', p⟩⟩
  · exact absurd rfl hne
  · obtain rfl := (List.cons.inj hr).1
    exact absurd hp h.not_suffix
  obtain rfl := (List.cons.inj hr).1
  obtain rfl := (List.cons.inj (List.cons.inj hr).2).1
  have hrest : r.varName ++ 41 :: (r.flags ++ [r.typ]) = p ++ q :=
    (List.cons.inj (List.cons.inj hr).2).2
  obtain ⟨x, hx⟩ := hp
  induction h generalizing x with
  | plain hs _ => exact absurd ⟨x, p, by rw [← hx, List.append_assoc]; rfl⟩ (noReference_iff.mp hs)
  | @reference r' hbefore hname hflags _ ih =>
      rcases r'.occurrence hbefore hname hflags hx.symm with rfl | ⟨x', rfl, ha⟩
      · rw [r'.text_eq, List.append_cancel_left_eq] at hx
        have hp : p = r'.varName ++ 41 :: (r'.flags ++ r'.typ :: r'.after) :=
          (List.append_right_inj opening.symbols).mp hx
        rw [hp, List.append_assoc, List.cons_append, List.append_assoc, List.cons_append] at hrest
        obtain ⟨-, -, hrest⟩ :=
          List.stop_unique r.varName_closed r'.varName_closed (by decide) (by decide) hrest
        obtain ⟨-, -, hrest⟩ :=
          List.stop_unique r.flags_letterless r'.flags_letterless r.typ_letter r'.typ_letter hrest
        exact (List.append_eq_nil_iff.mp hrest.symm).2
      · exact ih x' ha.symm

end Whole

/-- Nothing hangs over whole texts. -/
theorem Hanging.eq_nil {front back : Str} (hT : ∀ t, T t → Whole t) (hh : Hanging T front)
    (hr : r.segment = front ++ back) (hne : back ≠ []) : front = [] := by
  by_contra hfront
  obtain ⟨p, x, hp, rfl, ⟨t, ht, hpt⟩ | ⟨-, t, ht, hpt⟩⟩ := hh.exists_piece hfront
  · rw [List.append_assoc] at hr
    exact hne (List.append_eq_nil_iff.mp ((hT t ht).not_suffix_of_segment hpt hp hr)).2
  · exact (hT t ht).noEscape hpt

theorem Spells.isInfix (hT : ∀ t, T t → Whole t) (h : Spells T v r) : r.segment <:+: v := by
  obtain ⟨front, back, hfront, hback, hne, hr⟩ := h
  rw [hr, hfront.eq_nil hT hr hne]
  exact hback

theorem Sealed.append (hd : Sealed d) (hu : NoReference u) (hend : ¬str "%" <:+ u) :
    Sealed (d ++ u) := by
  refine sealed_of_noReference ?_ fun hs ↦ ?_
  · rw [noReference_iff] at hu ⊢
    exact Marker.Skips.free_append (t := []) (hd _) hu
  · rcases List.suffix_or_suffix_of_suffix hs (List.suffix_append d u) with hs' | hs'
    · exact hend hs'
    · rcases suffix_percent.mp hs' with rfl | rfl
      · exact hend List.suffix_rfl
      · rw [List.append_nil] at hs
        exact hd.not_suffix hs

theorem Sealed.whole_append (hd : Sealed d) (hu : Whole u) : Whole (d ++ u) := by
  cases hu with
  | plain hu hend =>
      have hdu := hd.append hu hend
      exact .plain hdu.noReference hdu.not_suffix
  | @reference r hbefore hname hflags hafter =>
      have hdr := hd.append r.before_free hbefore
      have htext : d ++ r.text =
          { r with before := d ++ r.before, before_free := hdr.noReference }.text :=
        (List.append_assoc _ _ _).symm
      rw [htext]
      exact .reference (r := { r with before := d ++ r.before, before_free := hdr.noReference })
        hdr.not_suffix hname hflags hafter

theorem Whole.append (hu : Whole u) (hv : Whole v) : Whole (u ++ v) := by
  induction hu with
  | plain hs hend => exact (sealed_of_noReference hs hend).whole_append hv
  | @reference r hbefore hname hflags _ ih =>
      rw [← r.text_extend]
      exact .reference (r := r.extend v) hbefore hname hflags ih

end Supervisord.StringExpression
