import Mathlib.Data.List.Infix
import Mathlib.Logic.Relation
import Mathlib.Order.WellFounded

/-!
# Unfolding

Texts whose front is replaced, round after round.  What is put in the place of a front is read
before the rest is, and may be the beginning of a front that ends in the rest.  So a text brings in
others, which bring in others in turn, and the rounds come to an end unless this goes on for ever.
-/

universe u

/-- A rule by which the front of a text is replaced. -/
structure Unfolding (α : Type u) where
  Front : List α → Prop
  /-- The second text is put in the place of the front. -/
  Puts : List α → List α → Prop
  ne_nil {p : List α} : Front p → p ≠ []
  /-- A front does not go on. -/
  eq_of_prefix {p p' : List α} : Front p → Front p' → p <+: p' → p = p'
  unique {p x x' : List α} : Puts p x → Puts p x' → x = x'

namespace Unfolding

variable {α : Type u} {U : Unfolding α} {p p' r r' s t u v w x z : List α}

/-- The front is followed by `r`, and `x` is put in its place. -/
def Cuts (U : Unfolding α) (s x r : List α) : Prop := ∃ p, U.Front p ∧ U.Puts p x ∧ s = p ++ r

/-- A round. -/
def Next (U : Unfolding α) (s t : List α) : Prop := ∃ x r, U.Cuts s x r ∧ t = x ++ r

/-- Some rounds. -/
abbrev Reaches (U : Unfolding α) : List α → List α → Prop := Relation.ReflTransGen U.Next

/-- There are no more rounds. -/
def Halted (U : Unfolding α) (s : List α) : Prop := ∀ x r, ¬U.Cuts s x r

/-- The rounds come to an end. -/
def Ends (U : Unfolding α) (s : List α) : Prop := ∃ z, U.Reaches s z ∧ U.Halted z

theorem front_unique (h : U.Front p) (h' : U.Front p') (he : p ++ r = p' ++ r') :
    p = p' ∧ r = r' := by
  obtain rfl : p = p' := by
    rcases List.prefix_or_prefix_of_prefix (List.prefix_append p r) ⟨r', he.symm⟩ with hp | hp
    · exact U.eq_of_prefix h h' hp
    · exact (U.eq_of_prefix h' h hp).symm
  exact ⟨rfl, List.append_cancel_left he⟩

theorem Cuts.unique {x' : List α} (h : U.Cuts s x r) (h' : U.Cuts s x' r') : x = x' ∧ r = r' := by
  obtain ⟨p, hp, hx, rfl⟩ := h
  obtain ⟨p', hp', hx', he⟩ := h'
  obtain ⟨rfl, rfl⟩ := front_unique hp hp' he
  exact ⟨U.unique hx hx', rfl⟩

theorem Cuts.append (h : U.Cuts s x r) (w : List α) : U.Cuts (s ++ w) x (r ++ w) := by
  obtain ⟨p, hp, hx, rfl⟩ := h
  exact ⟨p, hp, hx, List.append_assoc p r w⟩

theorem Next.unique {t' : List α} (h : U.Next s t) (h' : U.Next s t') : t = t' := by
  obtain ⟨x, r, hc, rfl⟩ := h
  obtain ⟨x', r', hc', rfl⟩ := h'
  obtain ⟨rfl, rfl⟩ := hc.unique hc'
  rfl

theorem Next.append (h : U.Next s t) (w : List α) : U.Next (s ++ w) (t ++ w) := by
  obtain ⟨x, r, hc, rfl⟩ := h
  exact ⟨x, r ++ w, hc.append w, List.append_assoc x r w⟩

theorem reaches_append (h : U.Reaches s t) (w : List α) : U.Reaches (s ++ w) (t ++ w) := by
  induction h with
  | refl => exact .refl
  | tail _ hn ih => exact ih.tail (hn.append w)

/-- Nothing is replaced where nothing is put in the place of the front. -/
theorem halted_of_front (hp : U.Front p) (hx : ∀ x, ¬U.Puts p x) (r : List α) :
    U.Halted (p ++ r) := by
  rintro x r' ⟨p', hp', hx', he⟩
  obtain ⟨rfl, -⟩ := front_unique hp hp' he
  exact hx x hx'

theorem Ends.of_reaches (h : U.Ends s) (hst : U.Reaches s t) : U.Ends t := by
  obtain ⟨z, hz, hh⟩ := h
  induction hz using Relation.ReflTransGen.head_induction_on with
  | refl =>
      rcases hst.cases_head with rfl | ⟨_, ⟨x, r, hc, -⟩, -⟩
      · exact ⟨_, .refl, hh⟩
      · exact absurd hc (hh x r)
  | head hn hz ih =>
      rcases hst.cases_head with rfl | ⟨t', hn', hst⟩
      · exact ⟨z, .head hn hz, hh⟩
      · rw [hn'.unique hn] at hst
        exact ih hst

/-- What comes to an end in front of something does so in front of nothing, too. -/
theorem ends_of_append (h : U.Ends (s ++ w)) : U.Ends s := by
  obtain ⟨z, hz, hh⟩ := h
  generalize he : s ++ w = y at hz
  induction hz using Relation.ReflTransGen.head_induction_on generalizing s with
  | refl =>
      subst he
      exact ⟨s, .refl, fun x r hc ↦ hh x _ (hc.append w)⟩
  | head hn _ ih =>
      subst he
      by_cases hs : U.Halted s
      · exact ⟨s, .refl, hs⟩
      · unfold Halted at hs
        push Not at hs
        obtain ⟨x, r, hc⟩ := hs
        have hnext : U.Next s (x ++ r) := ⟨x, r, hc, rfl⟩
        obtain ⟨y, hy, hhalted⟩ := ih ((hnext.append w).unique hn)
        exact ⟨y, .head hnext hy, hhalted⟩

/-- In one of the rounds that `s` goes through, `u` is put in. -/
def Brings (U : Unfolding α) (u s : List α) : Prop := ∃ t r, U.Reaches s t ∧ U.Cuts t u r

theorem Brings.append (h : U.Brings u s) (w : List α) : U.Brings u (s ++ w) := by
  obtain ⟨t, r, ht, hc⟩ := h
  exact ⟨t ++ w, r ++ w, reaches_append ht w, hc.append w⟩

/-- What brings in nothing for ever does so in front of nothing, too. -/
theorem acc_of_append (h : Acc U.Brings (s ++ w)) : Acc U.Brings s :=
  Acc.intro s fun _ hu ↦ h.inv (hu.append w)

theorem Halted.eq_of_reaches (hs : U.Halted s) (h : U.Reaches s t) : t = s := by
  rcases h.cases_head with rfl | ⟨_, ⟨x, r, hc, -⟩, -⟩
  · rfl
  · exact absurd hc (hs x r)

/-- A text of which the rounds come to an end does not bring in others for ever. -/
theorem acc_of_ends (h : U.Ends s) : Acc U.Brings s := by
  obtain ⟨z, hz, hh⟩ := h
  induction hz using Relation.ReflTransGen.head_induction_on with
  | refl =>
      apply Acc.intro
      rintro u ⟨t, r, ht, hc⟩
      rw [hh.eq_of_reaches ht] at hc
      exact absurd hc (hh u r)
  | @head s t hn _ ih =>
      apply Acc.intro
      rintro u ⟨t', r, ht, hc⟩
      rcases ht.cases_head with rfl | ⟨t'', hn', ht⟩
      · -- `u` is put in right away
        rw [hn.unique ⟨u, r, hc, rfl⟩] at ih
        exact acc_of_append ih
      · rw [hn'.unique hn] at ht
        exact ih.inv ⟨t', r, ht, hc⟩

/-! ## Reading -/

/-- How the texts that are put in are read.  What has been read hangs over the next piece of a text,
in which a front comes to its end. -/
structure Reader (U : Unfolding α) where
  IsText : List α → Prop
  Hangs : List α → Prop
  /-- The front ends in the text. -/
  Spells : List α → List α → Prop
  /-- The second text is put in the place of a front that ends in the first one. -/
  Refers : List α → List α → Prop
  hangs_nil : Hangs []
  not_front {p r : List α} : Hangs (p ++ r) → ¬U.Front p
  read {z u v : List α} : Hangs z → IsText v → u <:+ v → Hangs (z ++ u) ∨
    ∃ p r, U.Front p ∧ z ++ u = p ++ r ∧ Spells v p ∧
      ∀ x, U.Puts p x → ∃ z' v', x = z' ++ v' ∧ Hangs z' ∧ IsText v' ∧ Refers v v'

namespace Reader

variable {R : U.Reader}

theorem halted (hz : R.Hangs z) : U.Halted z := by
  rintro x r ⟨p, hp, -, rfl⟩
  exact R.not_front hz hp

/-- A front ends behind what hangs over. -/
theorem suffix_of_front (hz : R.Hangs z) (hp : U.Front p) (h : z ++ u = p ++ r) :
    r <:+ u ∧ r.length < u.length := by
  rcases List.append_eq_append_iff.mp h with ⟨q, rfl, rfl⟩ | ⟨q, rfl, rfl⟩
  · refine ⟨List.suffix_append q r, ?_⟩
    rw [List.length_append, Nat.lt_add_left_iff_pos, List.length_pos_iff]
    rintro rfl
    rw [List.append_nil] at hp
    exact R.not_front ((List.append_nil z).symm ▸ hz) hp
  · exact absurd hp (R.not_front hz)

/-- Whatever is read before it, the text comes to an end. -/
def Good (R : U.Reader) (w : List α) : Prop := ∀ z, R.Hangs z → U.Ends (z ++ w)

theorem good_nil : R.Good [] := by
  intro z hz
  rw [List.append_nil]
  exact ⟨z, .refl, halted hz⟩

/-- The induction is on the texts that are brought in, and on what is left of each of them. -/
theorem good_append (h : Acc (fun v' v ↦ R.Refers v v') v) (hv : R.IsText v) (hu : u <:+ v)
    (hw : R.Good w) : R.Good (u ++ w) := by
  induction h generalizing u w with
  | intro v _ ih =>
      induction hn : u.length using Nat.strongRecOn generalizing u with
      | ind n ih' =>
          subst hn
          intro z hz
          rcases R.read hz hv hu with hz' | ⟨p, r, hp, he, -, hput⟩
          · rw [← List.append_assoc]
            exact hw _ hz'
          rw [← List.append_assoc, he, List.append_assoc]
          by_cases hx : ∃ x, U.Puts p x
          · obtain ⟨x, hx⟩ := hx
            obtain ⟨z', v', rfl, hz', hv', href⟩ := hput x hx
            obtain ⟨hr, hlt⟩ := suffix_of_front hz hp he
            have hrest : R.Good (r ++ w) := ih' r.length hlt (hr.trans hu) rfl
            obtain ⟨y, hy, hhalted⟩ := ih v' href hv' List.suffix_rfl hrest z' hz'
            refine ⟨y, .head ⟨z' ++ v', r ++ w, ⟨p, hp, hx, rfl⟩, ?_⟩ hy, hhalted⟩
            exact (List.append_assoc z' v' (r ++ w)).symm
          · exact ⟨_, .refl, halted_of_front hp (not_exists.mp hx) (r ++ w)⟩

/-- **The end.**  The rounds of a text come to an end if it does not bring in others for ever. -/
theorem ends (hv : R.IsText v) (h : Acc (fun v' v ↦ R.Refers v v') v) : U.Ends v := by
  have hgood := good_append h hv List.suffix_rfl good_nil [] R.hangs_nil
  rwa [List.nil_append, List.append_nil] at hgood

/-! ## What is read -/

/-- The text is what has been read and the rests of texts. -/
def Composed (R : U.Reader) (t : List α) : Prop :=
  ∃ (z : List α) (us : List (List α)), R.Hangs z ∧ (∀ u ∈ us, ∃ v, R.IsText v ∧ u <:+ v) ∧
    t = z ++ us.flatten

theorem composed_of_isText (hv : R.IsText v) : R.Composed v := by
  refine ⟨[], [v], R.hangs_nil, fun u hu ↦ ⟨v, hv, ?_⟩, ?_⟩
  · rw [List.mem_singleton.mp hu]
  · rw [List.flatten_singleton, List.nil_append]

/-- The front of such a text ends in one of the texts, and what is put in its place is one. -/
theorem Composed.front (h : R.Composed (p ++ r)) (hp : U.Front p) :
    (∃ v, R.IsText v ∧ R.Spells v p) ∧ ∀ x, U.Puts p x → R.Composed (x ++ r) := by
  obtain ⟨z, us, hz, hus, he⟩ := h
  induction us generalizing z with
  | nil =>
      rw [List.flatten_nil, List.append_nil] at he
      exact absurd hp (R.not_front (he ▸ hz))
  | cons u us ih =>
      obtain ⟨⟨v, hv, hu⟩, hus⟩ := List.forall_mem_cons.mp hus
      rw [List.flatten_cons, ← List.append_assoc] at he
      rcases R.read hz hv hu with hz' | ⟨p', r', hp', he', hspells, hput⟩
      · exact ih (z ++ u) hz' hus he
      rw [he', List.append_assoc] at he
      obtain ⟨rfl, rfl⟩ := front_unique hp hp' he
      refine ⟨⟨v, hv, hspells⟩, fun x hx ↦ ?_⟩
      obtain ⟨z', v', rfl, hz'', hv', -⟩ := hput x hx
      refine ⟨z', v' :: r' :: us, hz'', ?_, ?_⟩
      · refine List.forall_mem_cons.mpr ⟨⟨v', hv', List.suffix_rfl⟩, ?_⟩
        refine List.forall_mem_cons.mpr ⟨?_, hus⟩
        exact ⟨v, hv, (suffix_of_front hz hp he').1.trans hu⟩
      · rw [List.flatten_cons, List.flatten_cons, List.append_assoc]

theorem Composed.reaches (h : R.Composed s) (hst : U.Reaches s t) : R.Composed t := by
  induction hst with
  | refl => exact h
  | tail _ hn ih =>
      obtain ⟨x, r, ⟨p, hp, hx, rfl⟩, rfl⟩ := hn
      exact (ih.front hp).2 x hx

end Reader

end Unfolding
