import Mathlib.Data.List.Infix
import Mathlib.Data.List.MinMax
import Mathlib.Data.List.Nodup
import Supervisord.Go.Split

/-!
# Which handler gets a request

A `http.ServeMux` hands a request to the handler whose pattern fits the path best: the path itself
or else the longest directory it is in.  Patterns with methods, hosts or wildcards are left out.

A path is the list of its segments after the first slash, as they are after decoding.  The last
segment of a path that ends in a slash is empty.
-/

universe u

namespace Go

/-- A path, or a directory with all that is in it. -/
inductive Pattern
  | path (segments : List Str)
  | subtree (segments : List Str)
deriving DecidableEq

namespace Pattern

/-- The pattern that is written with slashes. -/
def parse (s : Str) : Pattern :=
  let segments := (s.split 47).tail
  if segments.getLast? = some [] then .subtree segments.dropLast else .path segments

def segments : Pattern → List Str
  | .path segs => segs
  | .subtree segs => segs

def Matches : Pattern → List Str → Prop
  | .path segs, p => p = segs
  | .subtree segs, p => segs <+: p ∧ segs.length < p.length

instance : (p : Pattern) → DecidablePred p.Matches
  | .path segs => fun p ↦ inferInstanceAs (Decidable (p = segs))
  | .subtree segs => fun p ↦ inferInstanceAs (Decidable (segs <+: p ∧ segs.length < p.length))

/-- A directory matches itself exactly, and not what is in it. -/
def exact : Pattern → List Str → Bool
  | .path _, _ => true
  | .subtree segs, p => p.getLast? = some [] && segs.length + 1 = p.length

variable {p q : Pattern} {s : List Str}

/-- Of the patterns of a path, no two are of one length. -/
theorem Matches.eq_of_length_eq (hp : p.Matches s) (hq : q.Matches s)
    (h : p.segments.length = q.segments.length) : p = q := by
  cases p with
  | path segs =>
      obtain rfl : s = segs := hp
      cases q with
      | path segs' => exact congrArg path hq
      | subtree segs' => exact absurd (h ▸ hq.2) (Nat.lt_irrefl _)
  | subtree segs =>
      cases q with
      | path segs' =>
          obtain rfl : s = segs' := hq
          exact absurd (h ▸ hp.2) (Nat.lt_irrefl _)
      | subtree segs' =>
          exact congrArg subtree ((List.prefix_of_prefix_length_le hp.1 hq.1
            (Nat.le_of_eq h)).eq_of_length h)

end Pattern

/-- The handlers by their patterns. -/
abbrev ServeMux (α : Type u) := List (Pattern × α)

namespace ServeMux

variable {α : Type u} (mux : ServeMux α)

/-- The pattern that fits best. -/
def find (path : List Str) : Option (Pattern × α) :=
  List.argmax (fun e ↦ e.1.segments.length) (mux.filter fun e ↦ e.1.Matches path)

def exactMatch (path : List Str) : Bool := (mux.find path).any fun e ↦ e.1.exact path

/-- What becomes of a request. -/
inductive Found (α : Type u)
  | redirect (path : List Str)
  | notFound
  | handler (a : α)

/-- `findHandler`, for the path after `cleanPath`, which may have left it as it was. -/
def findHandler (clean : Bool) (path : List Str) : Found α :=
  if !mux.exactMatch path && path.getLast? ≠ some [] && mux.exactMatch (path ++ [[]]) then
    .redirect (path ++ [[]])
  else if !clean then .redirect path
  else match mux.find path with
    | some e => .handler e.2
    | none => .notFound

variable {mux} {path : List Str} {e : Pattern × α}

/-- The pattern matches the path, and none that is longer does. -/
structure Fits (mux : ServeMux α) (path : List Str) (e : Pattern × α) : Prop where
  mem : e ∈ mux
  matches_path : e.1.Matches path
  longest : ∀ e' ∈ mux, e'.1.Matches path → e'.1.segments.length ≤ e.1.segments.length

theorem fits_of_find (h : mux.find path = some e) : mux.Fits path e := by
  have hmem := List.mem_filter.mp (List.argmax_mem h)
  refine ⟨hmem.1, of_decide_eq_true hmem.2, fun e' he' hm ↦ ?_⟩
  have he' : e' ∈ mux.filter fun e ↦ e.1.Matches path :=
    List.mem_filter.mpr ⟨he', decide_eq_true hm⟩
  exact List.le_of_mem_argmax (f := fun e ↦ e.1.segments.length) he' h

theorem exists_fits (h : ∃ e ∈ mux, e.1.Matches path) : ∃ e, mux.find path = some e := by
  obtain ⟨e, he, hm⟩ := h
  refine Option.ne_none_iff_exists'.mp fun hf ↦ ?_
  have he : e ∈ mux.filter fun e ↦ e.1.Matches path :=
    List.mem_filter.mpr ⟨he, decide_eq_true hm⟩
  rw [List.argmax_eq_none.mp hf] at he
  cases he

/-- Only one pattern fits. -/
theorem Fits.unique (hmux : (mux.map (·.1)).Nodup) {e' : Pattern × α} (h : mux.Fits path e)
    (h' : mux.Fits path e') : e = e' := by
  refine List.inj_on_of_nodup_map hmux h.mem h'.mem ?_
  exact h.matches_path.eq_of_length_eq h'.matches_path (Nat.le_antisymm
    (h'.longest e h.mem h.matches_path) (h.longest e' h'.mem h'.matches_path))

/-! ## Redirections -/

/-- What has a handler of its own. -/
theorem exactMatch_iff : mux.exactMatch path = true ↔ .path path ∈ mux.map (·.1) ∨
    ∃ segs, path = segs ++ [[]] ∧ .subtree segs ∈ mux.map (·.1) := by
  constructor
  · intro h
    obtain ⟨e, he, hx⟩ := (Option.any_eq_true _ _).mp h
    obtain ⟨hmem, hm, -⟩ := fits_of_find he
    have hmem := List.mem_map_of_mem (f := (·.1)) hmem
    generalize e.1 = p at hmem hm hx
    cases p with
    | path segs =>
        obtain rfl : path = segs := hm
        exact .inl hmem
    | subtree segs =>
        obtain ⟨hlast, hlen⟩ := (Bool.and_eq_true _ _).mp hx
        obtain ⟨⟨rest, rfl⟩, -⟩ := hm
        have hrest : rest.length = 1 := by
          have := of_decide_eq_true hlen
          rw [List.length_append] at this
          omega
        obtain ⟨seg, rfl⟩ := List.length_eq_one_iff.mp hrest
        have hseg := of_decide_eq_true hlast
        rw [List.getLast?_concat, Option.some.injEq] at hseg
        subst hseg
        exact .inr ⟨segs, rfl, hmem⟩
  · intro h
    obtain ⟨p, hp, hm, hlen⟩ : ∃ p ∈ mux.map (·.1), p.Matches path ∧
        (path.length ≤ p.segments.length ∨ path.length = p.segments.length + 1 ∧
          path.getLast? = some []) := by
      rcases h with h | ⟨segs, rfl, h⟩
      · exact ⟨_, h, rfl, .inl (Nat.le_refl _)⟩
      · refine ⟨_, h, ⟨List.prefix_append _ _, ?_⟩, .inr ⟨?_, List.getLast?_concat⟩⟩
        · simp
        · simp [Pattern.segments]
    obtain ⟨e, he, rfl⟩ := List.mem_map.mp hp
    obtain ⟨e', he'⟩ := exists_fits ⟨e, he, hm⟩
    refine (Option.any_eq_true _ _).mpr ⟨e', he', ?_⟩
    obtain ⟨-, hm', hlongest⟩ := fits_of_find he'
    have hle := hlongest e he hm
    generalize e'.1 = q at hm' hle
    cases q with
    | path segs => rfl
    | subtree segs =>
        have hlt : segs.length < path.length := hm'.2
        rw [Pattern.segments] at hle
        rcases hlen with hlen | ⟨hlen, hlast⟩
        · omega
        · simp only [Pattern.exact, hlast, decide_true, Bool.true_and, decide_eq_true_iff]
          omega

/-- The path is not clean, or is that of a directory but for the slash. -/
def Redirects (mux : ServeMux α) (clean : Bool) (path : List Str) : Prop :=
  clean = false ∨ mux.exactMatch path = false ∧ path.getLast? ≠ some [] ∧
    mux.exactMatch (path ++ [[]]) = true

theorem findHandler_of_redirects {clean : Bool} (h : mux.Redirects clean path) :
    ∃ path', mux.findHandler clean path = .redirect path' := by
  unfold findHandler
  split
  · exact ⟨_, rfl⟩
  · rename_i hbare
    rcases h with rfl | ⟨hx, hlast, hx'⟩
    · exact ⟨path, if_pos rfl⟩
    · exact absurd (by simp [hx, hlast, hx']) hbare

theorem findHandler_of_find {clean : Bool} (h : ¬mux.Redirects clean path)
    (hf : mux.find path = some e) : mux.findHandler clean path = .handler e.2 := by
  obtain ⟨hclean, hbare⟩ := not_or.mp h
  unfold findHandler
  rw [if_neg, if_neg, hf]
  · simpa using hclean
  · simpa [and_assoc] using hbare

end ServeMux

end Go
