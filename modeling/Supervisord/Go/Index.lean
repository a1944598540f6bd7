import Supervisord.Format.Marker
import Supervisord.Go.Strings

/-!
# Searching

Where `strings.Index` finds a marker.
-/

namespace Go.Str

variable {m : Marker UInt8} {a s t : Str}

theorem index_append (ha : m.Free a) : index (a ++ (m.symbols ++ t)) m.symbols =
    some a.length := by
  induction a with
  | nil =>
      have hp : m.symbols.isPrefixOf (m.symbols ++ t) = true :=
        List.isPrefixOf_iff_prefix.mpr (List.prefix_append _ _)
      rw [List.nil_append, index.eq_def, if_pos hp]
      rfl
  | cons x a ih =>
      have hp : ¬m.symbols.isPrefixOf (x :: a ++ (m.symbols ++ t)) = true := by
        rw [List.isPrefixOf_iff_prefix]
        intro hp
        obtain ⟨hx, hr⟩ := List.cons_prefix_cons.mp hp
        have := Marker.prefix_of_prefix_append_cons m.first_notMem hr
        exact ha (List.cons_prefix_cons.mpr ⟨hx, this⟩).isInfix
      rw [index.eq_def, if_neg hp]
      show Option.map _ (index (a ++ (m.symbols ++ t)) m.symbols) = _
      rw [ih (ha.of_infix (List.suffix_cons x a).isInfix)]
      rfl

theorem index_of_free (hs : m.Free s) : s.index m.symbols = none := by
  have hp {s : Str} (hs : m.Free s) : ¬m.symbols.isPrefixOf s = true := by
    rw [List.isPrefixOf_iff_prefix]
    exact fun hp ↦ hs hp.isInfix
  induction s with
  | nil => rw [index.eq_def, if_neg (hp hs)]
  | cons x s ih =>
      rw [index.eq_def, if_neg (hp hs)]
      show Option.map _ (index s m.symbols) = _
      rw [ih (hs.of_infix (List.suffix_cons x s).isInfix)]
      rfl

theorem index_eq_none_iff : s.index m.symbols = none ↔ m.Free s := by
  refine ⟨fun h ↦ ?_, index_of_free⟩
  by_contra hs
  obtain ⟨a, t, rfl, ha⟩ := Marker.exists_first hs
  rw [index_append ha] at h
  cases h

theorem drop_cut (l : Str) (b : UInt8) (r : Str) : (l ++ b :: r).drop (l.length + 1) = r := by
  rw [← List.drop_drop, List.drop_left]
  rfl

/-- A string is cut at the first occurrence of a byte, or it has none. -/
theorem index_byte_cases (s : Str) (b : UInt8) : b ∉ s ∧ s.index [b] = none ∨
    ∃ l r : Str, s = l ++ b :: r ∧ b ∉ l ∧ s.index [b] = some l.length := by
  let m : Marker UInt8 := ⟨b, [], List.not_mem_nil⟩
  have hfree {s : Str} : m.Free s ↔ b ∉ s := not_congr (List.singleton_infix_iff b s)
  by_cases hs : b ∈ s
  · obtain ⟨l, r, rfl, hl⟩ := List.eq_append_cons_of_mem hs
    exact .inr ⟨l, r, rfl, hl, index_append (m := m) (t := r) (hfree.mpr hl)⟩
  · exact .inl ⟨hs, index_of_free (m := m) (hfree.mpr hs)⟩

/-! ## Two parts -/

/-- `strings.SplitN(s, ":", 2)`, if there are two parts. -/
def splitColon (s : Str) : Option (Str × Str) :=
  (s.index (str ":")).map fun pos ↦ (s.take pos, s.drop (pos + 1))

theorem splitColon_append {l : Str} (h : 58 ∉ l) (r : Str) :
    splitColon (l ++ 58 :: r) = some (l, r) := by
  let m : Marker UInt8 := ⟨58, [], List.not_mem_nil⟩
  have hidx : (l ++ 58 :: r).index (str ":") = some l.length :=
    index_append (m := m) (t := r) (mt (List.singleton_infix_iff 58 l).mp h)
  rw [splitColon, hidx, Option.map_some, List.take_left, drop_cut]

theorem splitColon_of_notMem (h : 58 ∉ s) : splitColon s = none := by
  rcases index_byte_cases s 58 with ⟨-, hidx⟩ | ⟨l, r, rfl, -⟩
  · rw [splitColon, show str ":" = [58] from rfl, hidx]
    rfl
  · exact absurd (List.mem_append_right l List.mem_cons_self) h

end Go.Str
