import Mathlib.Data.List.Basic
import Supervisord.Format.Marker

/-!
# Streams

Items that are written one after the other, and how they are found again.  Blocks are framed by
markers, among texts that do not matter.  Or a decoder takes one item off the front of its input and
tells what is left.  An encoding is self-delimiting for it when the items it has written can be
followed by anything.  Then what was written one item after the other is read back one item after
the other.
-/

universe u v w

/-! ## Framing -/

/-- Two markers that begin alike and are not parts of each other. -/
structure Framing (α : Type u) where
  opening : Marker α
  closing : Marker α
  first_eq : closing.first = opening.first
  not_prefix : ¬opening.symbols <+: closing.symbols
  not_prefix' : ¬closing.symbols <+: opening.symbols

namespace Framing

variable {α : Type u} {f : Framing α} {a d j p r s t x y rest : List α} {ps : List (List α)}

/-- Texts with some complete blocks, each between an opening and a closing marker, among texts
without markers; the last block may be incomplete. -/
inductive Framed (f : Framing α) : List α → List (List α) → Prop
  | junk {j : List α} (hb : f.opening.Free j) (he : f.closing.Free j) : Framed f j []
  | incomplete {j p : List α} (hb : f.opening.Free j) (he : f.closing.Free j)
      (hp : f.closing.Free p) : Framed f (j ++ (f.opening.symbols ++ p)) []
  | block {j p s : List α} {ps : List (List α)} (hb : f.opening.Free j) (he : f.closing.Free j)
      (hp : f.closing.Free p) (hs : Framed f s ps) :
      Framed f (j ++ (f.opening.symbols ++ (p ++ (f.closing.symbols ++ s)))) (p :: ps)

/-- A closing marker that does not stand before an opening one stands behind it. -/
theorem closing_free_append (hj : f.closing.Free j) (hp : f.closing.Free p) :
    f.closing.Free (j ++ (f.opening.symbols ++ p)) := by
  intro h
  have hfirst : f.opening.symbols ++ p = f.closing.first :: (f.opening.rest ++ p) := by
    rw [f.first_eq]
    rfl
  rw [hfirst] at h
  rcases Marker.infix_append_cons h with h | h
  · exact hj h
  · rcases List.infix_cons_iff.mp h with h | h
    · rw [← hfirst] at h
      rcases List.prefix_or_prefix_of_prefix h (List.prefix_append _ _) with h | h
      · exact f.not_prefix' h
      · exact f.not_prefix h
    · have hn : f.closing.first ∉ f.opening.rest := by
        rw [f.first_eq]
        exact f.opening.first_notMem
      exact hp (Marker.infix_of_infix_append hn h)

/-- What cannot be part of the first block may be dropped. -/
theorem Framed.drop (h : f.Framed (d ++ y ++ rest) ps) (hx : f.opening.Free (d ++ y))
    (hy : f.opening.symbols.length ≤ y.length + 1) : f.Framed (y ++ rest) ps := by
  rw [List.append_assoc] at h
  -- an opening marker does not begin in what is dropped
  have hdrop {j t : List α} (he : d ++ (y ++ rest) = j ++ (f.opening.symbols ++ t)) :
      ∃ j', j = d ++ j' ∧ y ++ rest = j' ++ (f.opening.symbols ++ t) := by
    have hle : d.length ≤ j.length := hx.skips.append hy rest j t he
    obtain ⟨j', rfl⟩ : d <+: j := List.prefix_of_prefix_length_le (List.prefix_append _ _)
      ⟨_, he.symm⟩ hle
    rw [List.append_assoc, List.append_cancel_left_eq] at he
    exact ⟨j', rfl, he⟩
  generalize hs : d ++ (y ++ rest) = s at h
  cases h with
  | junk hb he =>
      subst hs
      have hin := (List.suffix_append d (y ++ rest)).isInfix
      exact .junk (hb.of_infix hin) (he.of_infix hin)
  | incomplete hb he hp =>
      obtain ⟨j', rfl, he'⟩ := hdrop hs
      have hin := (List.suffix_append d j').isInfix
      rw [he']
      exact .incomplete (hb.of_infix hin) (he.of_infix hin) hp
  | block hb he hp h =>
      obtain ⟨j', rfl, he'⟩ := hdrop hs
      have hin := (List.suffix_append d j').isInfix
      rw [he']
      exact .block (hb.of_infix hin) (he.of_infix hin) hp h

/-- The first opening marker is where a block begins. -/
theorem Framed.opened (h : f.Framed (j ++ (f.opening.symbols ++ t)) ps) (hj : f.opening.Free j) :
    f.closing.Free j ∧ (f.closing.Free t ∧ ps = [] ∨ ∃ p s ps', ps = p :: ps' ∧ f.closing.Free p ∧
      t = p ++ (f.closing.symbols ++ s) ∧ f.Framed s ps') := by
  generalize hs : j ++ (f.opening.symbols ++ t) = s at h
  cases h with
  | junk hb he =>
      subst hs
      exact absurd ⟨j, t, List.append_assoc _ _ _⟩ hb
  | incomplete hb he hp =>
      obtain ⟨rfl, rfl⟩ := Marker.unique hj hb hs
      exact ⟨he, .inl ⟨hp, rfl⟩⟩
  | block hb he hp h =>
      obtain ⟨rfl, rfl⟩ := Marker.unique hj hb hs
      exact ⟨he, .inr ⟨_, _, _, rfl, hp, rfl, h⟩⟩

/-- **The first block.**  It ends at the first closing marker. -/
theorem Framed.closed (h : f.Framed (j ++ (f.opening.symbols ++ t)) ps) (hj : f.opening.Free j)
    (he : j ++ (f.opening.symbols ++ t) = a ++ (f.closing.symbols ++ s)) (ha : f.closing.Free a) :
    ∃ p ps', ps = p :: ps' ∧ a = j ++ (f.opening.symbols ++ p) ∧ f.Framed s ps' := by
  obtain ⟨hj', ⟨ht, -⟩ | ⟨p, s', ps', rfl, hp, rfl, hs⟩⟩ := h.opened hj
  · refine absurd ?_ (closing_free_append hj' ht)
    rw [he]
    exact ⟨a, s, List.append_assoc _ _ _⟩
  · have he' : (j ++ (f.opening.symbols ++ p)) ++ (f.closing.symbols ++ s') =
        a ++ (f.closing.symbols ++ s) := by
      rw [← he, List.append_assoc, List.append_assoc]
    obtain ⟨rfl, rfl⟩ := Marker.unique (closing_free_append hj' hp) ha he'
    exact ⟨p, ps', rfl, rfl, hs⟩

/-- A text that one of the markers does not occur in has no complete block. -/
theorem Framed.eq_nil (h : f.Framed s ps) (hs : f.opening.Free s ∨ f.closing.Free s) : ps = [] := by
  cases h with
  | junk => rfl
  | incomplete => rfl
  | @block j p s _ _ _ _ _ =>
      refine absurd hs (not_or_intro (not_not_intro ?_) (not_not_intro ?_))
      · exact ⟨j, p ++ (f.closing.symbols ++ s), List.append_assoc _ _ _⟩
      · refine ⟨j ++ (f.opening.symbols ++ p), s, ?_⟩
        simp only [List.append_assoc]

end Framing

/-! ## Decoding -/

/-- To read an item off the front of a list. -/
structure Decoder (α : Type u) (β : Type v) where
  /-- The first item and what follows it. -/
  next : List α → Option (β × List α)
  /-- An item takes some of the input. -/
  length_lt : ∀ {s b r}, next s = some (b, r) → r.length < s.length

namespace Decoder

variable {α : Type u} {β : Type v} {γ : Type w} (d : Decoder α β)

/-- Read items until nothing is left. -/
def all (s : List α) : Option (List β) :=
  if s = [] then some []
  else match h : d.next s with
    | none => none
    | some (b, r) =>
      have : r.length < s.length := d.length_lt h
      (all r).map (b :: ·)
termination_by s.length

variable {d}

theorem all_nil : d.all [] = some [] := by
  rw [all, if_pos rfl]

theorem all_of_next {s r : List α} {b : β} (h : d.next s = some (b, r)) :
    d.all s = (d.all r).map (b :: ·) := by
  have hs : s ≠ [] := by
    rintro rfl
    exact Nat.not_lt_zero _ (d.length_lt h)
  rw [all, if_neg hs]
  split
  · rename_i hn
    rw [h] at hn
    cases hn
  · rename_i hn
    rw [h] at hn
    cases hn
    rfl

/-- **Round trip.**  A stream of items that can each be followed by anything is read back. -/
theorem all_flatMap {enc : γ → List α} {f : γ → β} {xs : List γ}
    (h : ∀ x ∈ xs, ∀ r, d.next (enc x ++ r) = some (f x, r)) :
    d.all (xs.flatMap enc) = some (xs.map f) := by
  induction xs with
  | nil => exact all_nil
  | cons x xs ih =>
      rw [List.flatMap_cons, all_of_next (h x List.mem_cons_self _),
        ih fun y hy ↦ h y (List.mem_cons_of_mem x hy)]
      rfl

end Decoder
