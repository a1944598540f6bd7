import Mathlib.Logic.Function.Basic

/-!
# Writes to a table

A table by value is a partial function.  A write changes the value under a key, or makes it from
a `new` one if there is none.  After a list of writes, what is stored under a key depends on what
was stored there and on the writes to this key alone (`writes_apply`), so that a property of the
values can be shown write by write (`writes_invariant`).
-/

universe u v w

namespace Write

variable {κ : Type u} {β : Type v} {ω : Type w} [DecidableEq κ] (act : ω → β → β) (new : β)

/-- Change the value under a key. -/
def write (t : κ → Option β) (w : κ × ω) : κ → Option β :=
  Function.update t w.1 (some (act w.2 ((t w.1).getD new)))

/-- Write one after the other. -/
def writes (t : κ → Option β) (ws : List (κ × ω)) : κ → Option β := ws.foldl (write act new) t

/-- The changes to the value under a key. -/
def changes (ws : List (κ × ω)) (k : κ) : List ω := (ws.filter (·.1 = k)).map (·.2)

variable {act new} {t : κ → Option β} {ws ws' : List (κ × ω)} {w : κ × ω} {k : κ} {b : β}

theorem writes_append : writes act new t (ws ++ ws') = writes act new (writes act new t ws) ws' :=
  List.foldl_append

theorem changes_cons : changes (w :: ws) k =
    if w.1 = k then w.2 :: changes ws k else changes ws k := by
  by_cases h : w.1 = k <;> simp [changes, h]

theorem changes_eq_nil : changes ws k = [] ↔ k ∉ ws.map (·.1) := by
  simp only [changes, List.map_eq_nil_iff, List.filter_eq_nil_iff, List.mem_map, not_exists,
    not_and, decide_eq_true_eq]

/-- What is stored under a key after a list of writes. -/
theorem writes_apply : writes act new t ws k =
    if changes ws k = [] then t k
    else some ((changes ws k).foldl (fun b w ↦ act w b) ((t k).getD new)) := by
  induction ws generalizing t with
  | nil => rfl
  | cons w ws ih =>
      rw [writes, List.foldl_cons, ← writes, ih, changes_cons]
      by_cases h : w.1 = k
      · subst h
        rw [if_pos rfl, if_neg (List.cons_ne_nil _ _), write, Function.update_self]
        split
        · rename_i hnil
          rw [hnil]
          rfl
        · rfl
      · rw [if_neg h, write, Function.update_of_ne (Ne.symm h)]

theorem writes_of_notMem (h : k ∉ ws.map (·.1)) : writes act new t ws k = t k := by
  rw [writes_apply, if_pos (changes_eq_nil.mpr h)]

/-- What is stored under another key does not matter. -/
theorem writes_congr {t' : κ → Option β} (h : t k = t' k) :
    writes act new t ws k = writes act new t' ws k := by
  rw [writes_apply, writes_apply, h]

/-- Where every key is written once, each of the writes is still there in the end. -/
theorem writes_of_nodup (hnodup : (ws.map (·.1)).Nodup) (hw : w ∈ ws) :
    writes act new t ws w.1 = some (act w.2 ((t w.1).getD new)) := by
  induction ws generalizing t with
  | nil => cases hw
  | cons v ws ih =>
      rw [List.map_cons, List.nodup_cons] at hnodup
      rw [writes, List.foldl_cons, ← writes]
      rcases List.mem_cons.mp hw with rfl | hw
      · rw [writes_of_notMem hnodup.1, write, Function.update_self]
      · have hne : w.1 ≠ v.1 := fun h ↦ hnodup.1 (h ▸ List.mem_map_of_mem hw)
        rw [ih hnodup.2 hw, write, Function.update_of_ne hne]

theorem isSome_writes :
    (writes act new t ws k).isSome ↔ (t k).isSome ∨ k ∈ ws.map (·.1) := by
  rw [writes_apply]
  split
  · rename_i h
    simp [changes_eq_nil.mp h]
  · rename_i h
    simp [not_not.mp (mt changes_eq_nil.mpr h)]

/-- Where all writes to a key make the same change, it is as if one of them did. -/
theorem writes_of_forall {v : ω} (hv : ∀ b, act v (act v b) = act v b) (hex : k ∈ ws.map (·.1))
    (hall : ∀ w ∈ ws, w.1 = k → w.2 = v) :
    writes act new t ws k = some (act v ((t k).getD new)) := by
  have fold : ∀ (us : List ω) (b : β), us ≠ [] → (∀ u ∈ us, u = v) →
      us.foldl (fun b u ↦ act u b) b = act v b := by
    intro us
    induction us with
    | nil => exact fun b h ↦ absurd rfl h
    | cons u us ih =>
        intro b _ hus
        obtain ⟨rfl, hus⟩ := List.forall_mem_cons.mp hus
        rw [List.foldl_cons]
        by_cases hnil : us = []
        · rw [hnil]
          rfl
        · rw [ih _ hnil hus, hv]
  have hne : changes ws k ≠ [] := mt changes_eq_nil.mp (not_not.mpr hex)
  rw [writes_apply, if_neg hne, fold _ _ hne]
  intro u hu
  obtain ⟨w, hw, rfl⟩ := List.mem_map.mp hu
  obtain ⟨hw, hk⟩ := List.mem_filter.mp hw
  exact hall w hw (of_decide_eq_true hk)

/-- **The rule for writes.**  What holds of the values of a table and is established by each of
the writes holds of the values afterwards. -/
theorem writes_invariant {P : κ → β → Prop} (ht : ∀ k b, t k = some b → P k b)
    (hw : ∀ w ∈ ws, ∀ b, b = new ∨ P w.1 b → P w.1 (act w.2 b))
    (h : writes act new t ws k = some b) : P k b := by
  induction ws generalizing t with
  | nil => exact ht k b h
  | cons w ws ih =>
      refine ih (fun k b hb ↦ ?_) (fun w' hw' ↦ hw w' (List.mem_cons_of_mem _ hw')) h
      by_cases hk : k = w.1
      · subst hk
        rw [write, Function.update_self, Option.some.injEq] at hb
        subst hb
        refine hw w List.mem_cons_self _ ?_
        cases hv : t w.1 with
        | none => exact .inl rfl
        | some v => exact .inr (ht _ _ hv)
      · rw [write, Function.update_of_ne hk] at hb
        exact ht k b hb

end Write
