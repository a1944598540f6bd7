import Supervisord.Format.Marker
import Supervisord.Go.Strings

/-!
# Splitting

`strings.Split` at a byte gives the pieces between the bytes, and there is only one list of pieces
for a string.  A `bufio.Reader` reads the pieces one by one.
-/

namespace Go.Str

variable {s : Str} {c : UInt8} {fs : List Str}

theorem split_of_notMem (h : c ∉ s) : s.split c = [s] := List.splitOn_eq_singleton h

theorem split_append_cons {a : Str} (h : c ∉ a) (b : Str) :
    (a ++ c :: b).split c = a :: b.split c := List.splitOn_append_cons_self_of_not_mem h b

theorem split_ne_nil (s : Str) (c : UInt8) : s.split c ≠ [] := List.splitOn_ne_nil c s

theorem split_concat (s : Str) (c : UInt8) : Str.split (s ++ [c]) c = s.split c ++ [[]] :=
  List.splitOn_append_cons_self s []

theorem notMem_of_mem_split {f : Str} (h : f ∈ s.split c) : c ∉ f := by
  induction hn : s.length using Nat.strongRecOn generalizing s with
  | ind n ih =>
      by_cases hs : c ∈ s
      · obtain ⟨a, b, rfl, ha⟩ := List.eq_append_cons_of_mem hs
        rw [split_append_cons ha, List.mem_cons] at h
        rcases h with rfl | h
        · exact ha
        · rw [List.length_append, List.length_cons] at hn
          exact ih b.length (by omega) h rfl
      · rw [split_of_notMem hs, List.mem_singleton] at h
        exact h ▸ hs

theorem split_eq_iff :
    s.split c = fs ↔ fs ≠ [] ∧ (∀ f ∈ fs, c ∉ f) ∧ s = [c].intercalate fs := by
  constructor
  · rintro rfl
    exact ⟨split_ne_nil s c, fun f hf ↦ notMem_of_mem_split hf,
      (List.intercalate_splitOn c).symm⟩
  · rintro ⟨hne, hfree, rfl⟩
    exact List.splitOn_intercalate c hfree hne

/-! ## Reading up to a byte -/

/-- `ReadString` of a `bufio.Reader`: a piece with its delimiter and what is left to read, or all
that there is if it ends before. -/
def readString (s : Str) (delim : UInt8) : Str × Option Str :=
  match s.dropWhile (· ≠ delim) with
  | [] => (s, none)
  | _ :: rest => (s.takeWhile (· ≠ delim) ++ [delim], some rest)

theorem readString_of_notMem (h : c ∉ s) : readString s c = (s, none) := by
  rw [readString, List.dropWhile_eq_nil_iff.mpr (List.forall_ne_iff_notMem.mpr h)]

theorem readString_append_cons {a : Str} (h : c ∉ a) (b : Str) :
    readString (a ++ c :: b) c = (a ++ [c], some b) := by
  rw [readString, List.dropWhile_ne_stop h, List.takeWhile_ne_stop h]

end Go.Str
