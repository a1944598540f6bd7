import Mathlib.Data.List.Infix

/-!
# Wildcards

Patterns that are a sequence of wildcards: each is for one symbol, or for any number of symbols, of
a kind.  `Matches` says which words a pattern is for, and `finds` looks for such a word inside of a
text.
-/

universe u

/-- For one symbol, or for any number of them. -/
inductive Wild (α : Type u) where
  | one (p : α → Bool)
  | many (p : α → Bool)

namespace Wild

variable {α : Type u} {p : α → Bool} {ws vs : List (Wild α)} {s x y : List α} {a : α}

/-- The words that a pattern is for. -/
inductive Matches : List (Wild α) → List α → Prop
  | nil : Matches [] []
  | one {p : α → Bool} {ws : List (Wild α)} {a : α} {s : List α} (ha : p a = true)
      (h : Matches ws s) : Matches (.one p :: ws) (a :: s)
  | many {p : α → Bool} {ws : List (Wild α)} {x s : List α} (hx : ∀ a ∈ x, p a = true)
      (h : Matches ws s) : Matches (.many p :: ws) (x ++ s)

theorem matches_nil : Matches [] s ↔ s = [] := by
  constructor
  · rintro ⟨⟩
    rfl
  · rintro rfl
    exact .nil

theorem matches_one : Matches (.one p :: ws) s ↔ ∃ a t, s = a :: t ∧ p a = true ∧ Matches ws t := by
  constructor
  · intro h
    cases h with
    | one ha h => exact ⟨_, _, rfl, ha, h⟩
  · rintro ⟨a, t, rfl, ha, h⟩
    exact .one ha h

theorem matches_many :
    Matches (.many p :: ws) s ↔ ∃ x t, s = x ++ t ∧ (∀ a ∈ x, p a = true) ∧ Matches ws t := by
  constructor
  · intro h
    cases h with
    | many hx h => exact ⟨_, _, rfl, hx, h⟩
  · rintro ⟨x, t, rfl, hx, h⟩
    exact .many hx h

/-- One pattern after the other. -/
theorem matches_append :
    Matches (ws ++ vs) s ↔ ∃ x y, s = x ++ y ∧ Matches ws x ∧ Matches vs y := by
  induction ws generalizing s with
  | nil =>
      constructor
      · exact fun h ↦ ⟨[], s, rfl, .nil, h⟩
      · rintro ⟨x, y, rfl, hx, hy⟩
        obtain rfl := matches_nil.mp hx
        exact hy
  | cons w ws ih =>
      cases w with
      | one p =>
          rw [List.cons_append, matches_one]
          constructor
          · rintro ⟨a, t, rfl, ha, ht⟩
            obtain ⟨x, y, rfl, hx, hy⟩ := ih.mp ht
            exact ⟨a :: x, y, rfl, .one ha hx, hy⟩
          · rintro ⟨x, y, rfl, hx, hy⟩
            obtain ⟨a, t, rfl, ha, ht⟩ := matches_one.mp hx
            exact ⟨a, t ++ y, rfl, ha, ih.mpr ⟨t, y, rfl, ht, hy⟩⟩
      | many p =>
          rw [List.cons_append, matches_many]
          constructor
          · rintro ⟨z, t, rfl, hz, ht⟩
            obtain ⟨x, y, rfl, hx, hy⟩ := ih.mp ht
            exact ⟨z ++ x, y, (List.append_assoc _ _ _).symm, .many hz hx, hy⟩
          · rintro ⟨x, y, rfl, hx, hy⟩
            obtain ⟨z, t, rfl, hz, ht⟩ := matches_many.mp hx
            exact ⟨z, t ++ y, List.append_assoc _ _ _, hz, ih.mpr ⟨t, y, rfl, ht, hy⟩⟩

/-! ## Searching -/

/-- Go on with `f` somewhere behind symbols of a kind. -/
def skips (p : α → Bool) (f : List α → Bool) : List α → Bool
  | [] => f []
  | a :: s => f (a :: s) || p a && skips p f s

/-- The text begins with a word that the pattern is for. -/
def begins : List (Wild α) → List α → Bool
  | [], _ => true
  | .one _ :: _, [] => false
  | .one p :: ws, a :: s => p a && begins ws s
  | .many p :: ws, s => skips p (begins ws) s

/-- The text contains such a word. -/
def finds (ws : List (Wild α)) (s : List α) : Bool := s.tails.any (begins ws)

theorem skips_iff {f : List α → Bool} :
    skips p f s = true ↔ ∃ x t, s = x ++ t ∧ (∀ a ∈ x, p a = true) ∧ f t = true := by
  induction s with
  | nil =>
      constructor
      · exact fun h ↦ ⟨[], [], rfl, fun _ ha ↦ absurd ha List.not_mem_nil, h⟩
      · rintro ⟨x, t, h, -, hf⟩
        obtain ⟨rfl, rfl⟩ := List.append_eq_nil_iff.mp h.symm
        exact hf
  | cons a s ih =>
      rw [skips, Bool.or_eq_true, Bool.and_eq_true, ih]
      constructor
      · rintro (hf | ⟨ha, x, t, rfl, hx, hf⟩)
        · exact ⟨[], a :: s, rfl, fun _ ha ↦ absurd ha List.not_mem_nil, hf⟩
        · exact ⟨a :: x, t, rfl, List.forall_mem_cons.mpr ⟨ha, hx⟩, hf⟩
      · rintro ⟨x, t, h, hx, hf⟩
        cases x with
        | nil => exact .inl (h ▸ hf)
        | cons b x =>
            obtain ⟨rfl, rfl⟩ := List.cons.inj h
            obtain ⟨ha, hx⟩ := List.forall_mem_cons.mp hx
            exact .inr ⟨ha, x, t, rfl, hx, hf⟩

theorem begins_iff : begins ws s = true ↔ ∃ x, x <+: s ∧ Matches ws x := by
  induction ws generalizing s with
  | nil => exact iff_of_true (by rw [begins]) ⟨[], List.nil_prefix, .nil⟩
  | cons w ws ih =>
      cases w with
      | one p =>
          cases s with
          | nil =>
              refine iff_of_false (by rw [begins]; exact Bool.false_ne_true) ?_
              rintro ⟨x, hx, h⟩
              obtain ⟨a, t, rfl, -, -⟩ := matches_one.mp h
              cases List.prefix_nil.mp hx
          | cons a s =>
              rw [begins, Bool.and_eq_true, ih]
              constructor
              · rintro ⟨ha, x, hx, h⟩
                exact ⟨a :: x, List.cons_prefix_cons.mpr ⟨rfl, hx⟩, .one ha h⟩
              · rintro ⟨x, hx, h⟩
                obtain ⟨b, t, rfl, hb, ht⟩ := matches_one.mp h
                obtain ⟨rfl, hts⟩ := List.cons_prefix_cons.mp hx
                exact ⟨hb, t, hts, ht⟩
      | many p =>
          rw [begins, skips_iff]
          constructor
          · rintro ⟨z, t, rfl, hz, ht⟩
            obtain ⟨x, hx, h⟩ := ih.mp ht
            exact ⟨z ++ x, (List.prefix_append_right_inj z).mpr hx, .many hz h⟩
          · rintro ⟨x, hx, h⟩
            obtain ⟨z, t, rfl, hz, ht⟩ := matches_many.mp h
            obtain ⟨r, rfl⟩ := hx
            exact ⟨z, t ++ r, List.append_assoc _ _ _, hz, ih.mpr ⟨t, List.prefix_append t r, ht⟩⟩

/-- **Searching.** -/
theorem finds_iff : finds ws s = true ↔ ∃ x, x <:+: s ∧ Matches ws x := by
  rw [finds, List.any_eq_true]
  constructor
  · rintro ⟨t, ht, hb⟩
    obtain ⟨x, hx, h⟩ := begins_iff.mp hb
    exact ⟨x, hx.isInfix.trans ((List.mem_tails t s).mp ht).isInfix, h⟩
  · rintro ⟨x, hx, h⟩
    obtain ⟨t, hxt, hts⟩ := List.infix_iff_prefix_suffix.mp hx
    exact ⟨t, (List.mem_tails t s).mpr hts, begins_iff.mpr ⟨x, hxt, h⟩⟩

end Wild
