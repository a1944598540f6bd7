import Supervisord.Config.Texts
import Supervisord.Format.Unfolding

/-!
# Evaluation

What `Eval` does over all its rounds.  The rounds come to an end unless values bring in values for
ever, and a reference without a type takes the text behind it with it, up to the first letter.
-/

namespace Supervisord.StringExpression

open Go

variable {host : Host} {se : Env} {s t u : Str} {n : Nat} {r : Reference}

/-! ## Rounds -/

/-- The strings of the rounds of `Eval`. -/
abbrev Rounds (host : Host) (se : Env) : Str → Str → Prop :=
  Relation.ReflTransGen fun s t ↦ replace host se s = .ok (some t)

/-- What is returned in the end is what each of the strings evaluates to. -/
theorem eval_of_rounds {x : Except Error Str} (h : Rounds host se s t)
    (hx : eval host se n s = some x) : ∃ m, eval host se m t = some x := by
  induction h with
  | refl => exact ⟨n, hx⟩
  | tail _ hr ih =>
      obtain ⟨m, hm⟩ := ih
      cases m with
      | zero => cases hm
      | succ m =>
          rw [eval, hr] at hm
          exact ⟨m, hm⟩

/-- Where `Eval` succeeds, each of the strings has no reference or one that is replaced. -/
theorem reading_of_eval {out : Str} (h : eval host se n s = some (.ok out)) :
    NoReference s ∨ ∃ (r : Reference) (v : Str), s = r.text ∧ r.value host se = .ok v := by
  cases n with
  | zero => cases h
  | succ n =>
      rw [eval] at h
      rcases reading_cases s with hs | hs | ⟨r, rfl⟩
      · exact .inl hs
      · rw [replace_broken hs] at h
        cases h
      · rw [replace_text] at h
        cases hv : r.value host se with
        | error e =>
            rw [hv] at h
            cases h
        | ok v => exact .inr ⟨r, v, rfl, hv⟩

/-! ## The end -/

/-- The text up to the end of the first reference is replaced by what stands before the reference
and its value. -/
def unfolding (host : Host) (se : Env) : Unfolding UInt8 where
  Front p := ∃ r : Reference, p = r.front
  Puts p x := ∃ (r : Reference) (v : Str), p = r.front ∧ r.value host se = .ok v ∧
    x = r.before ++ v
  ne_nil := by
    rintro _ ⟨r, rfl⟩
    exact List.append_ne_nil_of_right_ne_nil _ r.segment_ne_nil
  eq_of_prefix := by
    rintro _ _ ⟨r, rfl⟩ ⟨r', rfl⟩ ⟨q, hq⟩
    rw [← List.append_nil r'.front, r.front_append, r'.front_append] at hq
    have hafter : q = [] := congrArg Reference.after (Reference.text_injective hq)
    rw [← List.append_nil r.front, ← List.append_nil r'.front, r.front_append, r'.front_append,
      ← hq, hafter]
  unique := by
    rintro _ _ _ ⟨r, v, rfl, hv, rfl⟩ ⟨r', v', h, hv', rfl⟩
    obtain ⟨hbefore, hsegment⟩ := Reference.of_front_eq h
    rw [Reference.value_congr hsegment, hv'] at hv
    cases hv
    rw [hbefore]

theorem cuts_iff {x w : Str} : (unfolding host se).Cuts s x w ↔ ∃ (r : Reference) (v : Str),
    s = r.text ∧ r.value host se = .ok v ∧ x = r.before ++ v ∧ w = r.after := by
  constructor
  · rintro ⟨_, -, ⟨r, v, rfl, hv, rfl⟩, rfl⟩
    exact ⟨{ r with after := w }, v, r.front_append w, hv, rfl, rfl⟩
  · rintro ⟨r, v, rfl, hv, rfl, rfl⟩
    exact ⟨r.front, ⟨r, rfl⟩, ⟨r, v, rfl, hv, rfl⟩, r.front_append_after.symm⟩

theorem next_eq : (unfolding host se).Next = fun s t ↦ replace host se s = .ok (some t) := by
  funext s t
  apply propext
  rw [replace_eq_ok_some]
  constructor
  · rintro ⟨_, _, hc, rfl⟩
    obtain ⟨r, v, rfl, hv, rfl, rfl⟩ := cuts_iff.mp hc
    exact ⟨r, v, rfl, hv, List.append_assoc _ _ _⟩
  · rintro ⟨r, v, rfl, hv, rfl⟩
    exact ⟨_, _, cuts_iff.mpr ⟨r, v, rfl, hv, rfl, rfl⟩, (List.append_assoc _ _ _).symm⟩

theorem halted_iff : (unfolding host se).Halted s ↔ ∀ t, replace host se s ≠ .ok (some t) := by
  constructor
  · intro h t ht
    rw [← funext_iff.mp (funext_iff.mp next_eq s) t] at ht
    obtain ⟨x, rest, hc, -⟩ := ht
    exact h x rest hc
  · intro h x rest hc
    have hn : (unfolding host se).Next s (x ++ rest) := ⟨x, rest, hc, rfl⟩
    rw [next_eq] at hn
    exact h _ hn

/-- `Eval` returns when there are no more rounds. -/
theorem returns_iff_ends :
    (∃ n x, eval host se n s = some x) ↔ (unfolding host se).Ends s := by
  rw [Unfolding.Ends, Unfolding.Reaches, next_eq]
  constructor
  · rintro ⟨n, x, h⟩
    induction n generalizing s with
    | zero => cases h
    | succ n ih =>
        by_cases hs : (unfolding host se).Halted s
        · exact ⟨s, .refl, hs⟩
        rw [halted_iff] at hs
        push Not at hs
        obtain ⟨t, ht⟩ := hs
        rw [eval, ht] at h
        obtain ⟨z, hz, hh⟩ := ih h
        exact ⟨z, .head ht hz, hh⟩
  · rintro ⟨z, hz, hh⟩
    induction hz using Relation.ReflTransGen.head_induction_on with
    | refl =>
        refine ⟨1, ?_⟩
        rw [eval]
        cases hr : replace host se z with
        | error e => exact ⟨_, rfl⟩
        | ok t =>
            cases t with
            | none => exact ⟨_, rfl⟩
            | some t => exact absurd hr (halted_iff.mp hh t)
    | head hr _ ih =>
        obtain ⟨n, x, h⟩ := ih
        refine ⟨n + 1, x, ?_⟩
        rw [eval, hr]
        exact h

/-- `Eval` reads the texts of the evaluation of `s`. -/
def reader (host : Host) (se : Env) (s : Str) : (unfolding host se).Reader where
  IsText := Text host se s
  Hangs := Hangs (Text host se s)
  Spells v p := ∃ r : Reference, p = r.front ∧ Spells (Text host se s) v r
  Refers := Refers host se s
  hangs_nil := hangs_of_noReference (noReference_of_notMem List.not_mem_nil) fun h ↦ by
    cases List.suffix_nil.mp h
  not_front := by
    rintro _ w hz ⟨r, rfl⟩
    exact hz.incomplete _ (r.front_append w)
  read := by
    intro z u v hz hv hu
    by_cases h : ∃ r : Reference, z ++ u = r.text
    · obtain ⟨r, h⟩ := h
      have hspells : Spells (Text host se s) v r := hz.spells hu h
      refine .inr ⟨r.front, r.after, ⟨r, rfl⟩, h.trans r.front_append_after.symm,
        ⟨r, rfl, hspells⟩, ?_⟩
      rintro _ ⟨r', v', hr, hv', rfl⟩
      obtain ⟨hbefore, hsegment⟩ := Reference.of_front_eq hr
      have hrefers : Refers host se s v v' :=
        ⟨r, hspells, (Reference.value_congr hsegment).trans hv'⟩
      exact ⟨r'.before, v', rfl, hbefore ▸ hz.before hv hu h, hv.refers hrefers, hrefers⟩
    · exact .inl (hz.append hv hu (not_exists.mp h))

/-- There is an endless chain of texts, the first of them the string, in which each is the value of
a reference of the one before. -/
def Endless (host : Host) (se : Env) (s : Str) : Prop :=
  ∃ t : Nat → Str, t 0 = s ∧ ∀ i, Refers host se s (t i) (t (i + 1))

theorem not_endless_iff :
    ¬Endless host se s ↔ Acc (fun v' v ↦ Refers host se s v v') s :=
  not_iff_comm.mp not_acc_iff_exists_descending_chain

/-! ## Whole texts -/

/-- A reference that is reached ends in a text. -/
theorem exists_text (h : (unfolding host se).Reaches s (r.text ++ w)) : ∃ (v : Str)
    (r' : Reference), Text host se s v ∧ Spells (Text host se s) v r' ∧ r'.segment = r.segment := by
  have hcomposed := ((reader host se s).composed_of_isText .input).reaches h
  rw [← r.front_append_after, List.append_assoc] at hcomposed
  obtain ⟨⟨v, hv, r', hr, hspells⟩, -⟩ := hcomposed.front ⟨r, rfl⟩
  exact ⟨v, r', hv, hspells, (Reference.of_front_eq hr).2.symm⟩

/-- The texts are whole, and every reference that is reached can be replaced. -/
structure Smooth (host : Host) (se : Env) (s : Str) : Prop where
  whole : ∀ v, Text host se s v → Whole v
  replaced : ∀ r : Reference, (unfolding host se).Reaches s r.text → ∃ v, r.value host se = .ok v

namespace Smooth

variable {d v x y : Str}

theorem whole_value (h : Smooth host se s) (hs : (unfolding host se).Reaches s (r.text ++ w))
    (hv : r.value host se = .ok v) : Whole v := by
  obtain ⟨v₀, r', hv₀, hspells, hsegment⟩ := exists_text hs
  exact h.whole v (hv₀.refers ⟨r', hspells, (Reference.value_congr hsegment).trans hv⟩)

theorem whole_next (h : Smooth host se s) (hs : (unfolding host se).Reaches s (t ++ w))
    (ht : Whole t) (hn : (unfolding host se).Next t u) : Whole u := by
  obtain ⟨_, _, hc, rfl⟩ := hn
  obtain ⟨r, v, rfl, hv, rfl, rfl⟩ := cuts_iff.mp hc
  obtain ⟨hbefore, -, -, hafter⟩ := ht.of_text
  exact ((Whole.plain r.before_free hbefore).append (h.whole_value hs hv)).append hafter

theorem whole_reaches (h : Smooth host se s) (hs : (unfolding host se).Reaches s (t ++ w))
    (ht : Whole t) (htu : (unfolding host se).Reaches t u) : Whole u := by
  induction htu with
  | refl => exact ht
  | tail htu hn ih => exact h.whole_next (hs.trans (Unfolding.reaches_append htu w)) ih hn

theorem sealed_of_halted (h : Smooth host se s) (hs : (unfolding host se).Reaches s (t ++ w))
    (ht : Whole t) (hh : (unfolding host se).Halted t) : Sealed t := by
  cases ht with
  | plain ht hend => exact sealed_of_noReference ht hend
  | @reference r =>
      rw [← r.text_extend] at hs
      obtain ⟨v, hv⟩ := h.replaced _ hs
      exact absurd (cuts_iff.mpr ⟨r, v, rfl, hv, rfl, rfl⟩) (hh _ _)

/-- The references of a text are reached.  The induction is on the text: the value of the first
reference comes to its end, and what has become of it is sealed. -/
theorem reaches_reference (h : Smooth host se s) (hv : Whole v)
    (hx : v = x ++ (r.segment ++ y)) (hd : Sealed d)
    (hs : (unfolding host se).Reaches s ((d ++ v) ++ w))
    (hends : (unfolding host se).Ends (d ++ v)) :
    ∃ d', Sealed d' ∧ (unfolding host se).Reaches (d ++ v) (d' ++ (r.segment ++ y)) := by
  have hopening := r.segment_append y
  induction hv generalizing x d with
  | plain hv _ =>
      rw [hx, hopening] at hv
      exact absurd ⟨x, _, List.append_assoc _ _ _⟩ (noReference_iff.mp hv)
  | @reference r' hbefore hname hflags hafter ih =>
      have hd' : Sealed (d ++ r'.before) := hd.append r'.before_free hbefore
      rcases r'.occurrence hbefore hname hflags (hopening ▸ hx) with rfl | ⟨x', -, ha⟩
      · refine ⟨d ++ r'.before, hd', ?_⟩
        rw [hx, List.append_assoc]
      rw [← hopening] at ha
      let r₀ : Reference := { r' with before := d ++ r'.before, before_free := hd'.noReference }
      have htext : d ++ r'.text = r₀.text := (List.append_assoc d r'.before _).symm
      rw [htext] at hs hends ⊢
      obtain ⟨v₁, hv₁⟩ := h.replaced (r₀.extend w) (r₀.text_extend ▸ hs)
      have hnext : (unfolding host se).Next r₀.text ((r₀.before ++ v₁) ++ r'.after) :=
        ⟨_, _, cuts_iff.mpr ⟨r₀, v₁, rfl, hv₁, rfl, rfl⟩, rfl⟩
      have hs₁ := hs.trans (Unfolding.reaches_append (.single hnext) w)
      have hends₁ := hends.of_reaches (.single hnext)
      have hwhole : Whole (r₀.before ++ v₁) :=
        hd'.whole_append (h.whole_value hs hv₁)
      obtain ⟨z, hz, hh⟩ := Unfolding.ends_of_append hends₁
      have hz' := Unfolding.reaches_append hz r'.after
      have hsealed : Sealed z := by
        rw [List.append_assoc] at hs₁
        exact h.sealed_of_halted (hs₁.trans (Unfolding.reaches_append hz _))
          (h.whole_reaches hs₁ hwhole hz) hh
      obtain ⟨d', hsealed', hd'⟩ := ih ha hsealed
        (hs₁.trans (Unfolding.reaches_append hz' w)) (hends₁.of_reaches hz')
      exact ⟨d', hsealed', .head hnext (hz'.trans hd')⟩

/-- The value of a reference of a text is put in behind a sealed string. -/
theorem brings_value (h : Smooth host se s) (hv : Text host se s v) (hd : Sealed d)
    (hs : (unfolding host se).Reaches s ((d ++ v) ++ w)) (hends : (unfolding host se).Ends (d ++ v))
    (hr : Spells (Text host se s) v r) (hu : r.value host se = .ok u) : ∃ d' y, Sealed d' ∧
      (unfolding host se).Reaches (d ++ v) ((d' ++ u) ++ y) ∧
      (unfolding host se).Brings (d' ++ u) (d ++ v) := by
  obtain ⟨x, y, hx⟩ := hr.isInfix h.whole
  obtain ⟨d', hd', hreach⟩ := h.reaches_reference (h.whole v hv)
    (hx.symm.trans (List.append_assoc x _ y)) hd hs hends
  let r₀ : Reference := { r with before := d', before_free := hd'.noReference, after := y }
  have hcuts : (unfolding host se).Cuts r₀.text (d' ++ u) y :=
    cuts_iff.mpr ⟨r₀, u, rfl, hu, rfl, rfl⟩
  exact ⟨d', y, hd', hreach.tail ⟨_, _, hcuts, rfl⟩, r₀.text, y, hreach, hcuts⟩

/-- Each text is reached, behind a sealed string. -/
theorem reaches_text (h : Smooth host se s) (hends : (unfolding host se).Ends s)
    (hv : Text host se s v) : ∃ d w, Sealed d ∧ (unfolding host se).Reaches s ((d ++ v) ++ w) ∧
      (unfolding host se).Ends (d ++ v) := by
  induction hv using Text.induction with
  | input =>
      refine ⟨[], [], sealed_nil, ?_, hends⟩
      rw [List.append_nil, List.nil_append]
  | value hv hr hu ih =>
      obtain ⟨d, w, hd, hs, hends⟩ := ih
      obtain ⟨d', y, hd', hreach, -⟩ := h.brings_value hv hd hs hends hr hu
      refine ⟨d', y ++ w, hd', ?_, Unfolding.ends_of_append (hends.of_reaches hreach)⟩
      rw [← List.append_assoc]
      exact hs.trans (Unfolding.reaches_append hreach w)

theorem acc (h : Smooth host se s) {z : Str} (hz : Acc (unfolding host se).Brings z)
    (he : z = d ++ v) (hv : Text host se s v) (hd : Sealed d)
    (hs : (unfolding host se).Reaches s (z ++ w)) (hends : (unfolding host se).Ends z) :
    Acc (fun v' v ↦ Refers host se s v v') v := by
  induction hz generalizing d v w with
  | intro z _ ih =>
      subst he
      refine Acc.intro v fun u href ↦ ?_
      obtain ⟨r, hr, hu⟩ := href
      obtain ⟨d', y, hd', hreach, hbrings⟩ := h.brings_value hv hd hs hends hr hu
      refine ih _ hbrings rfl (hv.refers ⟨r, hr, hu⟩) hd' (w := y ++ w) ?_
        (Unfolding.ends_of_append (hends.of_reaches hreach))
      rw [← List.append_assoc]
      exact hs.trans (Unfolding.reaches_append hreach w)

end Smooth

/-- The texts are whole, and their references can be replaced. -/
structure Ordinary (host : Host) (se : Env) (s : Str) : Prop where
  whole : ∀ v, Text host se s v → Whole v
  replaced : ∀ v r, Text host se s v → Spells (Text host se s) v r → ∃ v', r.value host se = .ok v'

theorem Ordinary.smooth (h : Ordinary host se s) : Smooth host se s where
  whole := h.whole
  replaced r hr := by
    rw [← List.append_nil r.text] at hr
    obtain ⟨v, r', hv, hspells, hsegment⟩ := exists_text hr
    rw [← Reference.value_congr hsegment]
    exact h.replaced v r' hv hspells

/-- A flag, or a character of a width or a precision. -/
def isFormat (b : UInt8) : Bool :=
  b = 35 || Str.isDigit b || b = 45 || b = 43 || b = 32 || b = 46

/-- The reference is `%(name)`, format characters, and one of the types. -/
def Reference.WellFormed (r : Reference) : Prop :=
  (∀ b ∈ r.flags, isFormat b = true) ∧ (r.typ = 115 ∨ r.typ = 100)

theorem not_isLetter_of_isFormat {b : UInt8} (h : isFormat b = true) : (!isLetter b) = true := by
  simp only [isFormat, Str.isDigit, Bool.or_eq_true, Bool.and_eq_true, decide_eq_true_iff,
    UInt8.le_iff_toNat_le, ← UInt8.toNat_inj] at h
  simp only [isLetter, Bool.not_eq_true', Bool.or_eq_false_iff, Bool.and_eq_false_iff,
    decide_eq_false_iff_not, UInt8.le_iff_toNat_le]
  have hnum : (35 : UInt8).toNat = 35 ∧ (48 : UInt8).toNat = 48 ∧ (57 : UInt8).toNat = 57 ∧
      (45 : UInt8).toNat = 45 ∧ (43 : UInt8).toNat = 43 ∧ (32 : UInt8).toNat = 32 ∧
      (46 : UInt8).toNat = 46 ∧ (97 : UInt8).toNat = 97 ∧ (122 : UInt8).toNat = 122 ∧
      (65 : UInt8).toNat = 65 ∧ (90 : UInt8).toNat = 90 := by
    decide
  omega

theorem Reference.wellFormed_congr {r' : Reference} (h : r.segment = r'.segment) :
    r.WellFormed ↔ r'.WellFormed := by
  obtain ⟨-, hflags, htyp⟩ := Reference.segment_injective h
  rw [WellFormed, WellFormed, hflags, htyp]

/-- Each round replaces a well-formed reference by its value and leaves the rest of the string as it
is. -/
def Consumes (host : Host) (se : Env) (s : Str) : Prop :=
  ∀ t t', Rounds host se s t → replace host se t = .ok (some t') →
    ∃ (r : Reference) (v : Str), r.WellFormed ∧ r.value host se = .ok v ∧
      t = r.before ++ (r.segment ++ r.after) ∧ t' = r.before ++ (v ++ r.after)

theorem reaches_iff_rounds : (unfolding host se).Reaches s t ↔ Rounds host se s t := by
  rw [Unfolding.Reaches, next_eq]

/-- Where `Eval` succeeds, every reference that is reached can be replaced. -/
theorem smooth_of_eval {out : Str} (h : eval host se n s = some (.ok out))
    (hwhole : ∀ v, Text host se s v → Whole v) : Smooth host se s where
  whole := hwhole
  replaced r hr := by
    obtain ⟨m, hm⟩ := eval_of_rounds (reaches_iff_rounds.mp hr) h
    rcases reading_of_eval hm with hno | ⟨r', v, he, hv⟩
    · exact absurd rfl (incomplete_of_noReference hno r)
    · obtain rfl := Reference.text_injective he
      exact ⟨v, hv⟩

/-- The environment of a configuration file in `/etc`. -/
def etcEnv : Env := add (fun _ ↦ none) (str "here") (str "/etc")

theorem replace_etc : replace Host.bare etcEnv (str "%(here)/supervisord.log") =
    .ok (some (str "/etcupervisord.log")) := by
  decide

theorem eval_etc : eval Host.bare etcEnv 2 (str "%(here)/supervisord.log") =
    some (.ok (str "/etcupervisord.log")) := by
  decide

theorem value_etc {v : Str} (h : r.value Host.bare etcEnv = .ok v) :
    r.varName = str "here" ∧ r.typ = 115 ∧ v = str "/etc" := by
  by_cases hname : r.varName = str "here"
  · have hse : etcEnv r.varName = some (str "/etc") := by
      rw [hname]
      rfl
    rcases r.typ_of_value h with hs | hd
    · rw [r.value_string hse hs] at h
      cases h
      exact ⟨hname, hs, rfl⟩
    · rw [r.value_notInteger hse hd (by decide)] at h
      cases h
  · have hse : etcEnv r.varName = none := by
      rw [etcEnv, add, Function.update_of_ne hname]
    rw [r.value_notFound hse] at h
    cases h

theorem text_etc {v : Str} (h : Text Host.bare etcEnv s v) : v = s ∨ v = str "/etc" := by
  cases h with
  | input => exact .inl rfl
  | value _ _ _ _ _ hv' => exact .inr (value_etc hv').2.2

theorem not_endless_etc : ¬Endless Host.bare etcEnv s := by
  rintro ⟨t, -, ht⟩
  obtain ⟨r, -, hv⟩ := ht 0
  obtain ⟨r', hr', hv'⟩ := ht 1
  have htyp := hr'.typ_mem
  rw [(value_etc hv).2.2, (value_etc hv').2.1] at htyp
  exact absurd htyp (by decide)

/-- The reference of the path. -/
def here : Reference := ⟨[], str "here", [], 115, str "/log",
  noReference_of_notMem List.not_mem_nil, List.all_eq_true.mp (by decide),
  fun _ h ↦ absurd h List.not_mem_nil, by decide⟩

theorem whole_etc {v : Str} (h : Text Host.bare etcEnv here.text v) : Whole v := by
  rcases text_etc h with rfl | rfl
  · refine .reference ?_ (by decide) List.not_mem_nil (.plain ?_ ?_)
    · exact fun h ↦ by cases List.suffix_nil.mp h
    · exact noReference_of_notMem (by decide)
    · decide
  · exact .plain (noReference_of_notMem (by decide)) (by decide)

theorem spells_etc {v : Str} (h : Text Host.bare etcEnv here.text v)
    (hr : Spells (Text Host.bare etcEnv here.text) v r) : r.segment = here.segment := by
  obtain ⟨x, y, hx⟩ := hr.isInfix fun _ ↦ whole_etc
  rw [List.append_assoc] at hx
  rcases text_etc h with rfl | rfl
  · rcases here.occurrence (by decide) (by decide) (by decide)
      (r.segment_append y ▸ hx.symm) with rfl | ⟨x', -, ha⟩
    · have htext : here.text =
          { r with before := [], after := y, before_free := here.before_free }.text := hx.symm
      have hr := Reference.text_injective htext
      have hsegment := congrArg Reference.segment hr
      exact hsegment.symm
    · have hmem : 37 ∈ str "/log" := by
        rw [show str "/log" = here.after from rfl, ha]
        exact List.mem_append_right x' List.mem_cons_self
      exact absurd hmem (by decide)
  · have hmem : 37 ∈ str "/etc" := by
      rw [← hx]
      exact List.mem_append_right x List.mem_cons_self
    exact absurd hmem (by decide)

theorem ordinary_etc : Ordinary Host.bare etcEnv here.text where
  whole _ := whole_etc
  replaced v r hv hr := by
    rw [Reference.value_congr (spells_etc hv hr)]
    exact ⟨str "/etc", here.value_string rfl rfl⟩

end Supervisord.StringExpression
