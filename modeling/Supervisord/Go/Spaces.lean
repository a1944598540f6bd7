import Supervisord.Go.Strings

/-!
# Spaces

`strings.TrimSpace` takes spaces off both ends of a string, however many there are, and nothing
else (`exists_trimSpace`, `trimSpace_eq`).
-/

namespace Go.Str

variable {ws us : List Str} {a b s t w : Str} {c : UInt8} {n : Nat}

/-- `unicode.IsSpace` of a byte that is taken for a character. -/
def isSpace (b : UInt8) : Bool := b ∈ [0x09, 0x0a, 0x0b, 0x0c, 0x0d, 0x20, 0x85, 0xa0]

/-! ## Words at the front -/

/-- Words that can be told apart: none is empty, and none begins with another one. -/
structure Separable (ws : List Str) : Prop where
  ne_nil : ∀ w ∈ ws, w ≠ []
  eq_of_prefix : ∀ w ∈ ws, ∀ t ∈ ws, t <+: w → t = w

theorem Separable.eq (h : Separable ws) (hw : w ∈ ws) (ht : t ∈ ws) (hp : t <+: w ++ s) :
    t = w := by
  rcases List.prefix_or_prefix_of_prefix hp (List.prefix_append w s) with hp | hp
  · exact h.eq_of_prefix w hw t ht hp
  · exact (h.eq_of_prefix t ht w hw hp).symm

theorem find_prefix (h : (ws.find? fun w ↦ w.isPrefixOf s) = some w) : w ∈ ws ∧ w <+: s := by
  have hp := @List.find?_some _ (fun w : Str ↦ w.isPrefixOf s) _ _ h
  exact ⟨List.mem_of_find?_eq_some h, List.isPrefixOf_iff_prefix.mp hp⟩

theorem trimWords_append (h : Separable ws) (hw : w ∈ ws) (n : Nat) (s : Str) :
    trimWords ws (n + 1) (w ++ s) = trimWords ws n s := by
  have hfind : (ws.find? fun t ↦ t.isPrefixOf (w ++ s)) = some w := by
    cases hf : ws.find? fun t ↦ t.isPrefixOf (w ++ s) with
    | none =>
        have hp := List.isPrefixOf_iff_prefix.mpr (List.prefix_append w s)
        exact absurd hp (List.find?_eq_none.mp hf w hw)
    | some t =>
        obtain ⟨ht, hp⟩ := find_prefix hf
        rw [h.eq hw ht hp]
  rw [trimWords, hfind]
  exact congrArg (trimWords ws n) List.drop_left

/-- A string that begins with no word is left as it is. -/
theorem trimWords_self (hs : ∀ w ∈ ws, ¬w <+: s) (n : Nat) : trimWords ws n s = s := by
  cases n with
  | zero => rfl
  | succ n =>
      have hfind : (ws.find? fun w ↦ w.isPrefixOf s) = none :=
        List.find?_eq_none.mpr fun w hw hp ↦ hs w hw (List.isPrefixOf_iff_prefix.mp hp)
      rw [trimWords, hfind]

/-- As many rounds as there are bytes are enough. -/
theorem trimWords_flatten (h : Separable ws) (hus : ∀ u ∈ us, u ∈ ws)
    (hs : ∀ w ∈ ws, ¬w <+: s) (hn : us.flatten.length ≤ n) :
    trimWords ws n (us.flatten ++ s) = s := by
  induction us generalizing n with
  | nil => exact trimWords_self hs n
  | cons u us ih =>
      obtain ⟨hu, hus⟩ := List.forall_mem_cons.mp hus
      have hpos := List.length_pos_of_ne_nil (h.ne_nil u hu)
      rw [List.flatten_cons, List.length_append] at hn
      obtain ⟨m, rfl⟩ : ∃ m, n = m + 1 := Nat.exists_eq_succ_of_ne_zero (by omega)
      rw [List.flatten_cons, List.append_assoc, trimWords_append h hu, ih hus (by omega)]

/-- What is taken off are words, and then no word is in front. -/
theorem exists_trimWords (h : Separable ws) (hn : s.length ≤ n) :
    (∃ us : List Str, (∀ u ∈ us, u ∈ ws) ∧ s = us.flatten ++ trimWords ws n s) ∧
      ∀ w ∈ ws, ¬w <+: trimWords ws n s := by
  induction n generalizing s with
  | zero =>
      obtain rfl := List.eq_nil_of_length_eq_zero (Nat.le_zero.mp hn)
      exact ⟨⟨[], fun u hu ↦ absurd hu List.not_mem_nil, rfl⟩,
        fun w hw hp ↦ h.ne_nil w hw (List.prefix_nil.mp hp)⟩
  | succ n ih =>
      by_cases hs : ∀ w ∈ ws, ¬w <+: s
      · rw [trimWords_self hs]
        exact ⟨⟨[], fun u hu ↦ absurd hu List.not_mem_nil, rfl⟩, hs⟩
      · push Not at hs
        obtain ⟨w, hw, t, rfl⟩ := hs
        have hpos := List.length_pos_of_ne_nil (h.ne_nil w hw)
        rw [List.length_append] at hn
        obtain ⟨⟨us, hus, heq⟩, hstop⟩ := ih (s := t) (by omega)
        rw [trimWords_append h hw]
        refine ⟨⟨w :: us, List.forall_mem_cons.mpr ⟨hw, hus⟩, ?_⟩, hstop⟩
        rw [List.flatten_cons, List.append_assoc, ← heq]

/-! ## Spaces at both ends -/

/-- A sequence of spaces. -/
def IsSpaces (s : Str) : Prop := ∃ ws : List Str, (∀ w ∈ ws, w ∈ spaces) ∧ s = ws.flatten

theorem separable_spaces : Separable spaces := ⟨by decide, by decide⟩

theorem separable_reverse : Separable (spaces.map List.reverse) := ⟨by decide, by decide⟩

theorem isSpaces_nil : IsSpaces [] := ⟨[], fun _ hw ↦ absurd hw List.not_mem_nil, rfl⟩

theorem isSpaces_of_mem (h : w ∈ spaces) : IsSpaces w :=
  ⟨[w], fun _ hu ↦ List.mem_singleton.mp hu ▸ h, List.flatten_singleton.symm⟩

/-- Spaces begin with a space. -/
theorem IsSpaces.exists_prefix (h : IsSpaces s) (hs : s ≠ []) : ∃ w ∈ spaces, w <+: s := by
  obtain ⟨ws, hws, rfl⟩ := h
  cases ws with
  | nil => exact absurd List.flatten_nil hs
  | cons w ws => exact ⟨w, hws w List.mem_cons_self, List.prefix_append w ws.flatten⟩

theorem IsSpaces.append (hs : IsSpaces s) (ht : IsSpaces t) : IsSpaces (s ++ t) := by
  obtain ⟨us, hus, rfl⟩ := hs
  obtain ⟨vs, hvs, rfl⟩ := ht
  exact ⟨us ++ vs, fun w hw ↦ (List.mem_append.mp hw).elim (hus w) (hvs w),
    List.flatten_append.symm⟩

theorem isSpaces_replicate (n : Nat) : IsSpaces (List.replicate n 32) := by
  induction n with
  | zero => exact isSpaces_nil
  | succ n ih => exact (isSpaces_of_mem (w := [32]) (by decide)).append ih

theorem IsSpaces.notMem (h : IsSpaces s) (hc : ∀ w ∈ spaces, c ∉ w) : c ∉ s := by
  obtain ⟨ws, hws, rfl⟩ := h
  intro hm
  obtain ⟨w, hw, hm⟩ := List.mem_flatten.mp hm
  exact hc w (hws w hw) hm

/-- The words of a string read from its end. -/
theorem IsSpaces.reverse (h : IsSpaces s) :
    ∃ us : List Str, (∀ u ∈ us, u ∈ spaces.map List.reverse) ∧ s.reverse = us.flatten := by
  obtain ⟨ws, hws, rfl⟩ := h
  refine ⟨(ws.map List.reverse).reverse, fun u hu ↦ ?_, List.reverse_flatten⟩
  obtain ⟨w, hw, rfl⟩ := List.mem_map.mp (List.mem_reverse.mp hu)
  exact List.mem_map_of_mem (hws w hw)

theorem isSpaces_reverse (hus : ∀ u ∈ us, u ∈ spaces.map List.reverse) :
    IsSpaces us.flatten.reverse := by
  refine ⟨(us.map List.reverse).reverse, fun w hw ↦ ?_, List.reverse_flatten⟩
  obtain ⟨u, hu, rfl⟩ := List.mem_map.mp (List.mem_reverse.mp hw)
  obtain ⟨w, hw, rfl⟩ := List.mem_map.mp (hus u hu)
  rwa [List.reverse_reverse]

/-- No space begins in the middle of another one. -/
theorem not_prefix_append (hs : ∀ w ∈ spaces, ¬w <+: s) (hne : s ≠ []) (ht : IsSpaces t) :
    ∀ w ∈ spaces, ¬w <+: s ++ t := by
  have hinside : ∀ w ∈ spaces, ∀ u ∈ spaces, w.tail.all fun b ↦ u.head? ≠ some b := by decide
  intro w hw hp
  rcases List.prefix_or_prefix_of_prefix hp (List.prefix_append s t) with hp' | ⟨q, rfl⟩
  · exact hs w hw hp'
  · obtain ⟨us, hus, rfl⟩ := ht
    have hq := (List.prefix_append_right_inj s).mp hp
    obtain ⟨a, s, rfl⟩ := List.exists_cons_of_ne_nil hne
    cases us with
    | nil =>
        rw [List.flatten_nil, List.prefix_nil] at hq
        rw [hq, List.append_nil] at hw
        exact hs _ hw List.prefix_rfl
    | cons u us =>
        obtain ⟨hu, -⟩ := List.forall_mem_cons.mp hus
        obtain ⟨b, u, rfl⟩ := List.exists_cons_of_ne_nil (separable_spaces.ne_nil u hu)
        cases q with
        | nil =>
            rw [List.append_nil] at hw
            exact hs _ hw List.prefix_rfl
        | cons b' q =>
            obtain ⟨rfl, -⟩ := List.cons_prefix_cons.mp hq
            have hb := List.mem_append_right s (List.mem_cons_self (a := b') (l := q))
            exact of_decide_eq_true (List.all_eq_true.mp (hinside _ hw _ hu) b' hb) rfl

/-- What `TrimSpace` takes off are spaces. -/
theorem exists_trimSpace (s : Str) :
    (∃ a b : Str, IsSpaces a ∧ IsSpaces b ∧ s = a ++ (trimSpace s ++ b)) ∧
      (∀ w ∈ spaces, ¬w <+: trimSpace s) ∧ ∀ w ∈ spaces, ¬w <:+ trimSpace s := by
  obtain ⟨⟨us, hus, hleft⟩, hl⟩ := exists_trimWords separable_spaces (Nat.le_refl s.length)
  obtain ⟨⟨vs, hvs, hright⟩, hr⟩ := exists_trimWords separable_reverse
    (Nat.le_of_eq (@List.length_reverse _ (trimWords spaces s.length s)))
  have htrim : trimWords spaces s.length s = trimSpace s ++ vs.flatten.reverse := by
    rw [trimSpace, ← List.reverse_append, ← hright, List.reverse_reverse]
  refine ⟨⟨us.flatten, vs.flatten.reverse, ⟨us, hus, rfl⟩, isSpaces_reverse hvs, ?_⟩,
    fun w hw hp ↦ hl w hw ?_, fun w hw hp ↦ hr w.reverse (List.mem_map_of_mem hw) ?_⟩
  · rw [← htrim, ← hleft]
  · rw [htrim]
    exact hp.trans (List.prefix_append _ _)
  · rw [trimSpace] at hp
    exact List.reverse_suffix.mp (by rwa [List.reverse_reverse])

theorem trimSpace_of_front (hs : trimWords spaces s.length s = t ++ b) (hb : IsSpaces b)
    (hr : ∀ w ∈ spaces, ¬w <:+ t) : trimSpace s = t := by
  obtain ⟨us, hus, hrev⟩ := hb.reverse
  have hstop : ∀ w ∈ spaces.map List.reverse, ¬w <+: t.reverse := by
    intro w hw hp
    obtain ⟨u, hu, rfl⟩ := List.mem_map.mp hw
    exact hr u hu (List.reverse_prefix.mp hp)
  have hlen : us.flatten.length ≤ (t ++ b).length := by
    rw [← hrev, List.length_reverse, List.length_append]
    exact Nat.le_add_left _ _
  rw [trimSpace, hs, List.reverse_append, hrev,
    trimWords_flatten separable_reverse hus hstop hlen, List.reverse_reverse]

/-- There is only one string that is left. -/
theorem trimSpace_eq (ha : IsSpaces a) (hb : IsSpaces b) (hl : ∀ w ∈ spaces, ¬w <+: t)
    (hr : ∀ w ∈ spaces, ¬w <:+ t) : trimSpace (a ++ (t ++ b)) = t := by
  obtain ⟨us, hus, rfl⟩ := ha
  by_cases ht : t = []
  · subst ht
    obtain ⟨vs, hvs, rfl⟩ := hb
    have hall : ∀ u ∈ us ++ vs, u ∈ spaces :=
      fun u hu ↦ (List.mem_append.mp hu).elim (hus u) (hvs u)
    have hfront := trimWords_flatten separable_spaces hall hl (Nat.le_refl _)
    rw [List.append_nil, List.flatten_append] at hfront
    exact trimSpace_of_front hfront isSpaces_nil hr
  · refine trimSpace_of_front (trimWords_flatten separable_spaces hus
      (not_prefix_append hl ht hb) ?_) hb hr
    rw [List.length_append]
    exact Nat.le_add_right _ _

/-- Spaces at both ends do not matter. -/
theorem trimSpace_between (ha : IsSpaces a) (hb : IsSpaces b) (s : Str) :
    trimSpace (a ++ (s ++ b)) = trimSpace s := by
  obtain ⟨⟨a', b', ha', hb', hs⟩, hl, hr⟩ := exists_trimSpace s
  have h := trimSpace_eq (ha.append ha') (hb'.append hb) hl hr
  rwa [List.append_assoc, ← List.append_assoc (trimSpace s), ← List.append_assoc a', ← hs] at h

theorem trimSpace_append (ha : IsSpaces a) (s : Str) : trimSpace (a ++ s) = trimSpace s := by
  have h := trimSpace_between ha isSpaces_nil s
  rwa [List.append_nil] at h

theorem trimSpace_concat (ha : IsSpaces a) (s : Str) : trimSpace (s ++ a) = trimSpace s :=
  trimSpace_between isSpaces_nil ha s

theorem trimSpace_eq_nil_iff : trimSpace s = [] ↔ IsSpaces s := by
  constructor
  · intro h
    obtain ⟨⟨a, b, ha, hb, hs⟩, -⟩ := exists_trimSpace s
    rw [h, List.nil_append] at hs
    exact hs ▸ ha.append hb
  · intro h
    have hnil := trimSpace_append h []
    rwa [List.append_nil] at hnil

theorem trimSpace_sublist (s : Str) : (trimSpace s).Sublist s := by
  obtain ⟨⟨a, b, -, -, hs⟩, -⟩ := exists_trimSpace s
  have hsub := (List.sublist_append_left (trimSpace s) b).trans (List.sublist_append_right a _)
  rwa [← hs] at hsub

theorem exists_of_front (hc : c ∉ a) (h : s ++ c :: t = a ++ w) :
    ∃ s', s = a ++ s' ∧ w = s' ++ c :: t := by
  rcases List.append_eq_append_iff.mp h with ⟨u, rfl, hu⟩ | ⟨s', rfl, rfl⟩
  · rcases List.cons_eq_append_iff.mp hu with ⟨rfl, rfl⟩ | ⟨u, rfl, -⟩
    · exact ⟨[], by rw [List.append_nil, List.append_nil], rfl⟩
    · exact absurd (List.mem_append_right s List.mem_cons_self) hc
  · exact ⟨s', rfl, rfl⟩

theorem exists_of_back (hc : c ∉ b) (h : s ++ c :: t = w ++ b) :
    ∃ t', t = t' ++ b ∧ w = s ++ c :: t' := by
  rcases List.append_eq_append_iff.mp h with ⟨u, rfl, hu⟩ | ⟨u, -, rfl⟩
  · rcases List.cons_eq_append_iff.mp hu with ⟨-, rfl⟩ | ⟨t', rfl, rfl⟩
    · exact absurd List.mem_cons_self hc
    · exact ⟨t', rfl, rfl⟩
  · exact absurd (List.mem_append_right u List.mem_cons_self) hc

/-- A byte that is in no space is between what is taken off. -/
theorem exists_trimSpace_cons (hc : ∀ w ∈ spaces, c ∉ w) (s t : Str) :
    ∃ s' t', trimSpace (s ++ c :: t) = s' ++ c :: t' ∧ (∃ a, IsSpaces a ∧ s = a ++ s') ∧
      ∃ b, IsSpaces b ∧ t = t' ++ b := by
  obtain ⟨⟨a, b, ha, hb, heq⟩, -⟩ := exists_trimSpace (s ++ c :: t)
  obtain ⟨s', rfl, hs⟩ := exists_of_front (ha.notMem hc) heq
  obtain ⟨t', rfl, ht⟩ := exists_of_back (hb.notMem hc) hs.symm
  exact ⟨s', t', ht, ⟨a, ha, rfl⟩, b, hb, rfl⟩

/-- As often as a byte is in a string that is in no space, it is in what is left. -/
theorem count_trimSpace (hc : ∀ w ∈ spaces, c ∉ w) (s : Str) :
    (trimSpace s).count c = s.count c := by
  obtain ⟨⟨a, b, ha, hb, hs⟩, -⟩ := exists_trimSpace s
  have hcount := congrArg (List.count c) hs
  rw [List.count_append, List.count_append, List.count_eq_zero.mpr (ha.notMem hc),
    List.count_eq_zero.mpr (hb.notMem hc), Nat.zero_add, Nat.add_zero] at hcount
  exact hcount.symm

/-- A word that is trimmed already is what is left with spaces around it. -/
theorem trimSpace_replicate (h : trimSpace s = s) (m n : Nat) :
    trimSpace (List.replicate m 32 ++ (s ++ List.replicate n 32)) = s :=
  (trimSpace_between (isSpaces_replicate m) (isSpaces_replicate n) s).trans h

end Go.Str
