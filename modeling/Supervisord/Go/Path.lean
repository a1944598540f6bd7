import Supervisord.Format.Marker
import Supervisord.Go.Split

/-!
# Paths

Functions of the package `path/filepath`, for systems on which a slash separates the components.
-/

namespace Go.Path

/-- `filepath.Split`: the path up to its last slash, and what is behind. -/
def split (path : Str) : Str × Str :=
  let file := (path.reverse.takeWhile (· ≠ 47)).reverse
  (path.take (path.length - file.length), file)

/-- What a component makes of those before it. -/
def cleanNext (rooted : Bool) (out : List Str) (c : Str) : List Str :=
  if c = [] ∨ c = str "." then out
  else if c = str ".." then
    if out ≠ [] ∧ out.getLast? ≠ some (str "..") then out.dropLast
    else if rooted then out
    else out ++ [c]
  else out ++ [c]

/-- `filepath.Clean`. -/
def clean (path : Str) : Str :=
  let rooted := path.head? = some 47
  let out := [47].intercalate ((path.split 47).foldl (cleanNext rooted) [])
  if rooted then 47 :: out else if out = [] then str "." else out

/-- `filepath.Dir`. -/
def dir (path : Str) : Str := clean (split path).1

/-- `filepath.Join`. -/
def join (elem : List Str) : Str :=
  match elem.dropWhile (· = []) with
  | [] => []
  | elem => clean ([47].intercalate elem)

/-- `filepath.Abs`, where `wd` is what `os.Getwd` returns. -/
def abs (wd : Option Str) (path : Str) : Option Str :=
  if path.head? = some 47 then some (clean path) else wd.map fun wd ↦ join [wd, path]

example : clean (str "/a//b/./../c/") = str "/a/c" := by decide
example : clean (str "../a/../../b") = str "../../b" := by decide
example : join [str "/home/u", str "log", str "x.log"] = str "/home/u/log/x.log" := by decide

variable {a f : Str}

theorem split_of_notMem (h : 47 ∉ f) : split f = ([], f) := by
  have hfile := List.takeWhile_eq_self_iff.mpr
    (List.forall_ne_iff_notMem.mpr (List.mem_reverse.not.mpr h))
  rw [split, hfile, List.reverse_reverse, Nat.sub_self, List.take_zero]

theorem split_append (h : 47 ∉ f) : split (a ++ 47 :: f) = (a ++ [47], f) := by
  have hrev : (a ++ 47 :: f).reverse = f.reverse ++ 47 :: a.reverse := by
    rw [List.reverse_append, List.reverse_cons, List.append_assoc, List.singleton_append]
  have hfile := List.takeWhile_ne_stop (t := a.reverse) (List.mem_reverse.not.mpr h)
  have hlen : (a ++ [47] ++ f).length - f.length = (a ++ [47]).length := by
    rw [List.length_append, Nat.add_sub_cancel]
  rw [split, hrev, hfile, List.reverse_reverse, List.append_cons, hlen, List.take_left]

/-- The components of a path, which are what is not empty between its slashes. -/
def components (path : Str) : List Str := (path.split 47).filter (· ≠ [])

theorem components_of_notMem (h : 47 ∉ f) : components f = if f = [] then [] else [f] := by
  rw [components, Str.split_of_notMem h]
  by_cases hf : f = []
  · subst hf
    rfl
  · rw [if_neg hf]
    exact List.filter_cons_of_pos (decide_eq_true hf)

theorem components_append (a : Str) (h : 47 ∉ f) :
    components (a ++ 47 :: f) = components a ++ if f = [] then [] else [f] := by
  have hsplit : Str.split (a ++ 47 :: f) 47 = Str.split a 47 ++ Str.split f 47 :=
    List.splitOn_append_cons_self a f
  rw [← components_of_notMem h, components, hsplit, List.filter_append]
  rfl

theorem components_cons_slash (path : Str) : components (47 :: path) = components path := by
  rw [components, show Str.split (47 :: path) 47 = [] :: Str.split path 47 from
    Str.split_append_cons List.not_mem_nil path]
  rfl

/-- Slashes in front are not seen any more. -/
theorem components_dropWhile (path : Str) :
    components (path.dropWhile (· = 47)) = components path := by
  induction path with
  | nil => rfl
  | cons b path ih =>
      by_cases hb : b = 47
      · subst hb
        rw [components_cons_slash, ← ih]
        rfl
      · rw [List.dropWhile_cons_of_neg (by simpa using hb)]

theorem exists_components_cons {b : UInt8} (hb : b ≠ 47) (path : Str) :
    ∃ name rest, components (b :: path) = (b :: name) :: rest := by
  by_cases hp : 47 ∈ path
  · obtain ⟨a, t, rfl, ha⟩ := List.eq_append_cons_of_mem hp
    have hab : 47 ∉ b :: a := List.not_mem_cons_of_ne_of_not_mem hb.symm ha
    refine ⟨a, components t, ?_⟩
    rw [← List.cons_append, components, Str.split_append_cons hab]
    exact List.filter_cons_of_pos (decide_eq_true (List.cons_ne_nil b a))
  · refine ⟨path, [], ?_⟩
    rw [components_of_notMem (List.not_mem_cons_of_ne_of_not_mem hb.symm hp),
      if_neg (List.cons_ne_nil b path)]

/-- A path has no slash, or it is looked at from its last one. -/
theorem last_slash_cases (path : Str) :
    47 ∉ path ∨ ∃ a f : Str, path = a ++ 47 :: f ∧ 47 ∉ f := by
  rcases List.exists_stop (fun b ↦ decide (b ≠ 47)) path.reverse with h | ⟨f, b, a, hrev, hf, hb⟩
  · refine .inl fun hm ↦ ?_
    exact of_decide_eq_true (h 47 (List.mem_reverse.mpr hm)) rfl
  · obtain rfl : b = 47 := by simpa using hb
    refine .inr ⟨a.reverse, f.reverse, ?_, fun hm ↦ ?_⟩
    · rw [← List.reverse_reverse path, hrev, List.reverse_append, List.reverse_cons,
        List.append_assoc, List.singleton_append]
    · exact of_decide_eq_true (hf 47 (List.mem_reverse.mp hm)) rfl

end Go.Path
