import Mathlib.Data.List.Basic

/-!
# Escapes

Texts in which a symbol takes away the meaning of the symbol that follows it.  A text is bare when
none of some special symbols stands in it with its meaning.  What a text begins with up to the
first special symbol is unique.
-/

universe u

variable {α : Type u} {esc : α} {stop : α → Prop}

/-- No symbol of `stop` stands in the text unescaped, nor does an `esc` at its end. -/
inductive Bare (esc : α) (stop : α → Prop) : List α → Prop
  | nil : Bare esc stop []
  | cons {b : α} {s : List α} (he : b ≠ esc) (hs : ¬stop b) (h : Bare esc stop s) :
      Bare esc stop (b :: s)
  | escaped {b : α} {s : List α} (h : Bare esc stop s) : Bare esc stop (esc :: b :: s)

/-- How a scan for symbols of `stop` ends: with the text, with an `esc` that nothing follows, or at
such a symbol. -/
inductive Halt (esc : α) (stop : α → Prop) : List α → Prop
  | nil : Halt esc stop []
  | esc : Halt esc stop [esc]
  | stop {b : α} {s : List α} (he : b ≠ esc) (hs : stop b) : Halt esc stop (b :: s)

theorem Halt.cons_iff {b : α} {s : List α} :
    Halt esc stop (b :: s) ↔ b = esc ∧ s = [] ∨ b ≠ esc ∧ stop b := by
  constructor
  · rintro (_ | _ | ⟨he, hs⟩)
    · exact .inl ⟨rfl, rfl⟩
    · exact .inr ⟨he, hs⟩
  · rintro (⟨rfl, rfl⟩ | ⟨he, hs⟩)
    · exact .esc
    · exact .stop he hs

namespace Bare

theorem of_forall {s : List α} (h : ∀ b ∈ s, b ≠ esc ∧ ¬stop b) : Bare esc stop s := by
  induction s with
  | nil => exact .nil
  | cons b s ih =>
      have h := List.forall_mem_cons.mp h
      exact .cons h.1.1 h.1.2 (ih h.2)

theorem exists_halt [DecidableEq α] (esc : α) (stop : α → Prop) [DecidablePred stop]
    (s : List α) :
    ∃ p r, s = p ++ r ∧ Bare esc stop p ∧ Halt esc stop r := by
  induction h : s.length using Nat.strongRecOn generalizing s with
  | ind n ih =>
      subst h
      match s with
      | [] => exact ⟨[], [], rfl, .nil, .nil⟩
      | b :: s =>
          by_cases he : b = esc
          · subst he
            match s with
            | [] => exact ⟨[], [b], rfl, .nil, .esc⟩
            | c :: s =>
                obtain ⟨p, r, rfl, hp, hr⟩ := ih s.length (by simp only [List.length_cons]; omega)
                  s rfl
                exact ⟨b :: c :: p, r, rfl, .escaped hp, hr⟩
          · by_cases hs : stop b
            · exact ⟨[], b :: s, rfl, .nil, .stop he hs⟩
            · obtain ⟨p, r, rfl, hp, hr⟩ := ih s.length (by simp only [List.length_cons]; omega)
                s rfl
              exact ⟨b :: p, r, rfl, .cons he hs hp, hr⟩

/-- **Unique scans.**  A text is cut at its first special symbol in one way only. -/
theorem unique {p p' r r' : List α} (hp : Bare esc stop p) (hp' : Bare esc stop p')
    (hr : Halt esc stop r) (hr' : Halt esc stop r') (h : p ++ r = p' ++ r') :
    p = p' ∧ r = r' := by
  induction hp generalizing p' with
  | nil =>
      cases hp' with
      | nil => exact ⟨rfl, h⟩
      | cons he hs _ =>
          subst h
          rcases Halt.cons_iff.mp hr with ⟨hb, -⟩ | ⟨-, hb⟩
          · exact absurd hb he
          · exact absurd hb hs
      | escaped _ =>
          subst h
          rcases Halt.cons_iff.mp hr with ⟨-, hb⟩ | ⟨hb, -⟩
          · cases hb
          · exact absurd rfl hb
  | cons he hs _ ih =>
      cases hp' with
      | nil =>
          subst h
          rcases Halt.cons_iff.mp hr' with ⟨hb, -⟩ | ⟨-, hb⟩
          · exact absurd hb he
          · exact absurd hb hs
      | cons _ _ hp' =>
          obtain ⟨rfl, htl⟩ := List.cons.inj h
          obtain ⟨rfl, rfl⟩ := ih hp' htl
          exact ⟨rfl, rfl⟩
      | escaped _ => exact absurd (List.cons.inj h).1 he
  | escaped _ ih =>
      cases hp' with
      | nil =>
          subst h
          rcases Halt.cons_iff.mp hr' with ⟨-, hb⟩ | ⟨hb, -⟩
          · cases hb
          · exact absurd rfl hb
      | cons he _ _ => exact absurd (List.cons.inj h).1.symm he
      | escaped hp' =>
          obtain ⟨rfl, htl⟩ := List.cons.inj (List.cons.inj h).2
          obtain ⟨rfl, rfl⟩ := ih hp' htl
          exact ⟨rfl, rfl⟩

end Bare
