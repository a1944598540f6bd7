import Mathlib.Data.List.Basic

/-!
# Announced writes

A variable whose writes are announced beforehand, each with the value it replaces.  While one write
at a time is under way, the announcements tell the history of the variable: they are linked, and
those that announce a change are the changes made, but for the one that is pending.

`Faithful.announce` and `Faithful.write` are the two steps of a write.
-/

universe u

namespace Journal

variable {σ : Type u} {a b now : σ} {p : σ × σ} {l log made : List (σ × σ)}

/-- The first pair starts at `a`, and each other one where the pair before it ends. -/
def Linked (a : σ) : List (σ × σ) → Prop
  | [] => True
  | p :: l => p.1 = a ∧ Linked p.2 l

/-- Where the pairs lead from `a`. -/
def last (a : σ) : List (σ × σ) → σ
  | [] => a
  | p :: l => last p.2 l

theorem linked_concat : Linked a (l ++ [p]) ↔ Linked a l ∧ p.1 = last a l := by
  induction l generalizing a with
  | nil => exact ⟨fun h ↦ ⟨trivial, h.1⟩, fun h ↦ ⟨h.2, trivial⟩⟩
  | cons q l ih => exact (and_congr_right fun _ ↦ ih).trans and_assoc.symm

@[simp] theorem last_concat : last a (l ++ [p]) = p.2 := by
  induction l generalizing a with
  | nil => rfl
  | cons q l ih => exact ih

/-- The pairs that are a change. -/
def changes [DecidableEq σ] (l : List (σ × σ)) : List (σ × σ) := l.filter fun p ↦ p.1 ≠ p.2

variable [DecidableEq σ]

theorem changes_concat : changes (l ++ [p]) = changes l ++ changes [p] := List.filter_append _ _

theorem changes_self : changes [(a, a)] = [] := by
  simp [changes]

/-- The announcements `log` for a variable that started as `a` and is `now` tell of exactly the
changes `made`, and of the write that is pending. -/
structure Faithful (a : σ) (log made : List (σ × σ)) (now : σ) (pending : Option σ) : Prop where
  linked : Linked a log
  exact : ∃ done, log = done ++ pending.toList.map (fun b ↦ (now, b)) ∧ made = changes done ∧
    last a done = now

theorem Faithful.init : Faithful a [] [] a none := ⟨trivial, [], rfl, rfl, rfl⟩

/-- A write is announced. -/
theorem Faithful.announce (h : Faithful a log made now none) (b : σ) :
    Faithful a (log ++ [(now, b)]) made now (some b) := by
  obtain ⟨hl, done, rfl, hm, hn⟩ := h
  refine ⟨linked_concat.mpr ⟨hl, ?_⟩, done, by simp, hm, hn⟩
  simpa using hn.symm

/-- The announced write is made. -/
theorem Faithful.write (h : Faithful a log made now (some b)) :
    Faithful a log (made ++ changes [(now, b)]) b none := by
  obtain ⟨hl, done, rfl, rfl, -⟩ := h
  exact ⟨hl, done ++ [(now, b)], by simp, changes_concat.symm, last_concat⟩

end Journal
