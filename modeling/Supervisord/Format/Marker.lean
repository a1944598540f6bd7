import Mathlib.Data.List.Infix
import Mathlib.Data.List.TakeWhile

/-!
# Markers

Words whose first symbol occurs in them only once.  Where a marker is written, it begins exactly
there: no part of it belongs to another occurrence.  So a text is cut at the first occurrence of
a marker in one way only, and so it is at the first symbol that ends a scan.
-/

universe u

/-- A word that begins with a symbol that it does not contain again. -/
structure Marker (α : Type u) where
  first : α
  rest : List α
  first_notMem : first ∉ rest

namespace Marker

variable {α : Type u} {m m' : Marker α} {a b r s t : List α} {c : α}

/-- The word. -/
def symbols (m : Marker α) : List α := m.first :: m.rest

/-- The marker does not occur in the text. -/
def Free (m : Marker α) (s : List α) : Prop := ¬m.symbols <:+: s

theorem Free.of_infix (h : m.Free s) (hr : r <:+: s) : m.Free r := fun hm ↦ h (hm.trans hr)

theorem free_nil : m.Free [] := fun h ↦ nomatch List.eq_nil_of_infix_nil h

/-- A word that does not contain `c` ends before the next `c`. -/
theorem prefix_of_prefix_append_cons (hc : c ∉ r) (h : r <+: a ++ c :: b) : r <+: a := by
  induction a generalizing r with
  | nil =>
      cases r with
      | nil => exact List.nil_prefix
      | cons x r =>
          obtain ⟨rfl, -⟩ := List.cons_prefix_cons.mp h
          exact absurd List.mem_cons_self hc
  | cons y a ih =>
      cases r with
      | nil => exact List.nil_prefix
      | cons x r =>
          obtain ⟨rfl, hr⟩ := List.cons_prefix_cons.mp h
          exact List.cons_prefix_cons.mpr ⟨rfl, ih (fun hm ↦ hc (List.mem_cons_of_mem _ hm)) hr⟩

/-- It stands on one side of it. -/
theorem infix_or_of_notMem (hc : c ∉ r) (h : r <:+: a ++ c :: b) : r <:+: a ∨ r <:+: b := by
  induction a with
  | nil =>
      rcases List.infix_cons_iff.mp h with h | h
      · have hr : r <+: [] := prefix_of_prefix_append_cons hc h
        exact .inl hr.isInfix
      · exact .inr h
  | cons x a ih =>
      rcases List.infix_cons_iff.mp h with h | h
      · exact .inl (prefix_of_prefix_append_cons hc h).isInfix
      · exact (ih h).imp_left fun h ↦ List.infix_cons h

/-- An occurrence does not reach over the first symbol of another one. -/
theorem infix_append_cons (h : m.symbols <:+: a ++ m.first :: b) :
    m.symbols <:+: a ∨ m.symbols <:+: m.first :: b := by
  induction a with
  | nil => exact .inr h
  | cons x a ih =>
      rcases List.infix_cons_iff.mp h with h | h
      · obtain ⟨hx, h⟩ := List.cons_prefix_cons.mp h
        have := prefix_of_prefix_append_cons m.first_notMem h
        exact .inl (List.cons_prefix_cons.mpr ⟨hx, this⟩).isInfix
      · exact (ih h).imp_left fun h ↦ List.infix_cons h

/-- No occurrence begins in a word that does not contain the first symbol. -/
theorem infix_of_infix_append (hr : m.first ∉ r) (h : m.symbols <:+: r ++ s) :
    m.symbols <:+: s := by
  induction r with
  | nil => exact h
  | cons x r ih =>
      rcases List.infix_cons_iff.mp h with h | h
      · obtain ⟨rfl, -⟩ := List.cons_prefix_cons.mp h
        exact absurd List.mem_cons_self hr
      · exact ih (fun hm ↦ hr (List.mem_cons_of_mem _ hm)) h

/-- **The first occurrence.** -/
theorem exists_first [DecidableEq α] (h : ¬m.Free s) :
    ∃ a t, s = a ++ (m.symbols ++ t) ∧ m.Free a := by
  induction s with
  | nil => exact absurd free_nil h
  | cons x s ih =>
      by_cases hp : m.symbols <+: x :: s
      · obtain ⟨t, ht⟩ := hp
        exact ⟨[], t, ht.symm, free_nil⟩
      · have hs : ¬m.Free s := by
          intro hf
          refine h fun hm ↦ ?_
          exact (List.infix_cons_iff.mp hm).elim hp hf
        obtain ⟨a, t, rfl, ha⟩ := ih hs
        refine ⟨x :: a, t, rfl, fun hm ↦ ?_⟩
        rcases List.infix_cons_iff.mp hm with hm | hm
        · exact hp (hm.trans (List.prefix_append _ _))
        · exact ha hm

/-- **Unique cuts.** -/
theorem unique {a' t' : List α} (ha : m.Free a) (ha' : m.Free a')
    (h : a ++ (m.symbols ++ t) = a' ++ (m.symbols ++ t')) : a = a' ∧ t = t' := by
  -- whoever is longer contains the marker
  have key {a a' t t' : List α} (ha' : m.Free a')
      (h : a ++ (m.symbols ++ t) = a' ++ (m.symbols ++ t')) (hle : a <+: a') : a = a' := by
    obtain ⟨d, rfl⟩ := hle
    rw [List.append_assoc, List.append_cancel_left_eq] at h
    cases d with
    | nil => rw [List.append_nil]
    | cons x d =>
        obtain ⟨rfl, hd⟩ := List.cons.inj h
        have hpre : m.rest <+: d ++ m.first :: (m.rest ++ t') := ⟨t, hd⟩
        have := prefix_of_prefix_append_cons m.first_notMem hpre
        exact absurd (List.IsInfix.trans
          (List.cons_prefix_cons.mpr ⟨rfl, this⟩).isInfix (List.suffix_append _ _).isInfix) ha'
  have hpre : a <+: a' ++ (m.symbols ++ t') := ⟨_, h⟩
  obtain rfl : a = a' := by
    rcases List.prefix_or_prefix_of_prefix hpre (List.prefix_append _ _) with hle | hle
    · exact key ha' h hle
    · exact (key ha h.symm hle).symm
  exact ⟨rfl, List.append_cancel_left (List.append_cancel_left h)⟩

/-! ## Dropping a beginning -/

/-- The marker does not begin in `d`, if `y` follows. -/
def Skips (m : Marker α) (d y : List α) : Prop :=
  ∀ j t, d ++ y = j ++ (m.symbols ++ t) → d.length ≤ j.length

variable {d j y : List α}

theorem skips_nil (y : List α) : m.Skips [] y := fun _ _ _ ↦ Nat.zero_le _

theorem Free.skips (h : m.Free (d ++ y)) : m.Skips d y :=
  fun j t he ↦ absurd ⟨j, t, by rw [he, List.append_assoc]⟩ h

/-- It does not begin there if more follows, either. -/
theorem Skips.append (h : m.Skips d y) (hy : m.symbols.length ≤ y.length + 1) (r : List α) :
    m.Skips d (y ++ r) := by
  intro j t he
  by_contra hlt
  have hpre : j ++ m.symbols <+: d ++ y := by
    have hsymbols : j ++ m.symbols <+: d ++ (y ++ r) := ⟨t, by rw [he, List.append_assoc]⟩
    refine List.prefix_of_prefix_length_le hsymbols ⟨r, List.append_assoc _ _ _⟩ ?_
    rw [List.length_append, List.length_append]
    omega
  obtain ⟨t', ht'⟩ := hpre
  rw [List.append_assoc] at ht'
  exact hlt (h j t' ht'.symm)

theorem Skips.free_append [DecidableEq α] (h : m.Skips d (a ++ t)) (ha : m.Free a) :
    m.Free (d ++ a) := by
  by_contra hd
  obtain ⟨j, s, he, -⟩ := exists_first hd
  have hle := h j (s ++ t) (by rw [← List.append_assoc, he]; simp only [List.append_assoc])
  obtain ⟨j', rfl⟩ : d <+: j :=
    List.prefix_of_prefix_length_le (List.prefix_append d a) ⟨_, he.symm⟩ hle
  rw [List.append_assoc, List.append_cancel_left_eq] at he
  exact ha ⟨j', s, by rw [he, List.append_assoc]⟩

end Marker

/-! ## Scanning -/

namespace List

variable {α : Type u} {p : α → Bool} {a a' s t t' : List α} {b b' : α}

theorem takeWhile_stop (ha : ∀ x ∈ a, p x = true) (hb : p b = false) :
    (a ++ b :: t).takeWhile p = a := by
  rw [takeWhile_append_of_pos ha, takeWhile_cons_of_neg (Bool.eq_false_iff.mp hb), append_nil]

/-- A scan for a symbol. -/
theorem forall_ne_iff_notMem [DecidableEq α] {c : α} :
    (∀ x ∈ s, decide (x ≠ c) = true) ↔ c ∉ s := by
  constructor
  · exact fun h hc ↦ of_decide_eq_true (h c hc) rfl
  · rintro h x hx
    rw [decide_eq_true_iff]
    rintro rfl
    exact h hx

theorem takeWhile_ne_stop [DecidableEq α] {c : α} (h : c ∉ a) :
    (a ++ c :: t).takeWhile (· ≠ c) = a :=
  takeWhile_stop (forall_ne_iff_notMem.mpr h) (decide_eq_false (not_not_intro rfl))

theorem dropWhile_ne_stop [DecidableEq α] {c : α} (h : c ∉ a) :
    (a ++ c :: t).dropWhile (· ≠ c) = c :: t := by
  rw [dropWhile_append_of_pos (forall_ne_iff_notMem.mpr h)]
  exact dropWhile_cons_of_neg fun hc ↦ of_decide_eq_true hc rfl

/-- A scan goes through the text or stops in it. -/
theorem exists_stop (p : α → Bool) (s : List α) : (∀ x ∈ s, p x = true) ∨
    ∃ a b t, s = a ++ b :: t ∧ (∀ x ∈ a, p x = true) ∧ p b = false := by
  induction s with
  | nil => exact .inl fun x hx ↦ absurd hx not_mem_nil
  | cons x s ih =>
      cases hx : p x with
      | false => exact .inr ⟨[], x, s, rfl, fun y hy ↦ absurd hy not_mem_nil, hx⟩
      | true =>
          rcases ih with ih | ⟨a, b, t, rfl, ha, hb⟩
          · exact .inl (forall_mem_cons.mpr ⟨hx, ih⟩)
          · exact .inr ⟨x :: a, b, t, rfl, forall_mem_cons.mpr ⟨hx, ha⟩, hb⟩

/-- A scan stops at one place. -/
theorem stop_unique (ha : ∀ x ∈ a, p x = true) (ha' : ∀ x ∈ a', p x = true) (hb : p b = false)
    (hb' : p b' = false) (h : a ++ b :: t = a' ++ b' :: t') : a = a' ∧ b = b' ∧ t = t' := by
  obtain rfl : a = a' := by
    rw [← takeWhile_stop (t := t) ha hb, h, takeWhile_stop ha' hb']
  exact ⟨rfl, cons.inj (append_cancel_left h)⟩

end List
