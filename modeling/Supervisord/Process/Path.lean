import Supervisord.Go.Path
import Supervisord.Machine.Fuel
import Supervisord.Process.Environment

/-!
# Paths with a home directory

`PathExpand` replaces a `~` or a `~user` that a path begins with by a home directory.  It looks at
the components of the path and not at the path itself, so that it also does so where slashes come
first: `expands_iff` states which paths are expanded as they should be.
-/

namespace Supervisord.Process

open Go Fuel

/-- The loop of `pathSplit`, for a number of rounds. -/
def pathSplitLoop : Nat → Str → List Str → Option (List Str)
  | 0, _, _ => none
  | n + 1, curPath, r =>
    let dir := (Path.split curPath).1
    let file := (Path.split curPath).2
    let r := if 0 < file.length then r ++ [file] else r
    if dir.length ≤ 0 then some r else pathSplitLoop n (dir.take (dir.length - 1)) r

def pathSplit (n : Nat) (path : Str) : Option (List Str) :=
  (pathSplitLoop n path []).map List.reverse

/-- What `PathExpand` makes of the components; nothing is returned where there is no such user. -/
def expandList (users : Users) (path : Str) : List Str → Option Str
  | (126 :: name) :: rest =>
    let usr := if name = [] then users.current else users.lookup name
    usr.map fun usr ↦ Path.join (usr.homeDir :: rest)
  | _ => some path

def pathExpand (users : Users) (n : Nat) (path : Str) : Option (Option Str) :=
  (pathSplit n path).map (expandList users path)

variable {users : Users} {n : Nat} {path a f name : Str} {r pieces : List Str}

/-! ## Components -/

/-- The loop takes the components from the end, one for each slash. -/
theorem pathSplitLoop_eq (hn : path.length < n) :
    pathSplitLoop n path r = some (r ++ (Path.components path).reverse) := by
  have hadd (r : List Str) (file : Str) : (if 0 < file.length then r ++ [file] else r) =
      r ++ (if file = [] then [] else [file]).reverse := by
    cases file with
    | nil => exact (List.append_nil r).symm
    | cons b file => rfl
  induction n generalizing path r with
  | zero => exact absurd hn (Nat.not_lt_zero _)
  | succ n ih =>
      rw [pathSplitLoop]
      rcases Path.last_slash_cases path with hp | ⟨a, f, rfl, hf⟩
      · rw [Path.split_of_notMem hp, Path.components_of_notMem hp]
        dsimp only
        rw [hadd]
        exact if_pos (Nat.le_refl 0)
      · rw [List.length_append, List.length_cons] at hn
        have hlen : (a ++ [47]).length = a.length + 1 := List.length_append
        have htake : (a ++ [47]).take (a.length + 1 - 1) = a := by
          rw [Nat.add_sub_cancel, List.take_left]
        rw [Path.split_append hf, Path.components_append a hf]
        dsimp only
        rw [hadd, hlen, if_neg (Nat.not_succ_le_zero _), htake, ih (by omega),
          List.reverse_append, List.append_assoc]

/-- **Termination.** -/
theorem returns_pathSplit (path : Str) :
    Returns (fun n ↦ pathSplit n path) (Path.components path) := by
  refine ⟨path.length + 1, fun m hm ↦ ?_⟩
  show (pathSplitLoop m path []).map List.reverse = _
  rw [pathSplitLoop_eq (Nat.lt_of_succ_le hm), Option.map_some, List.nil_append,
    List.reverse_reverse]

theorem returns_pathExpand (users : Users) (path : Str) :
    Returns (fun n ↦ pathExpand users n path) (expandList users path (Path.components path)) := by
  obtain ⟨n, hn⟩ := returns_pathSplit path
  refine ⟨n, fun m hm ↦ ?_⟩
  have hm : pathSplit m path = some (Path.components path) := hn m hm
  show (pathSplit m path).map _ = _
  rw [hm, Option.map_some]

theorem expandList_of_ne {b : UInt8} (hb : b ≠ 126) (rest : List Str) :
    expandList users path ((b :: name) :: rest) = some path := by
  unfold expandList
  split
  · rename_i h
    exact absurd (List.cons.inj (List.cons.inj h).1).1 hb
  · rfl

/-! ## Expansion -/

/-- The path begins with a home directory, and these pieces follow behind a slash each; a piece
between two slashes in a row is empty. -/
def Tilde (path name : Str) (pieces : List Str) : Prop :=
  path = [47].intercalate ((126 :: name) :: pieces) ∧ 47 ∉ name ∧ ∀ f ∈ pieces, 47 ∉ f

/-- The home directory that is meant. -/
def Users.home (users : Users) (name : Str) : Option User :=
  if name = [] then users.current else users.lookup name

/-- The path is expanded as it should be. -/
structure Expands (users : Users) (path : Str) : Prop where
  unchanged : path.head? ≠ some 126 → Returns (fun n ↦ pathExpand users n path) (some path)
  home : ∀ name pieces usr, Tilde path name pieces → users.home name = some usr →
    Returns (fun n ↦ pathExpand users n path)
      (some (Path.join (usr.homeDir :: pieces.filter (· ≠ []))))
  split : ∃ r, Returns (fun n ↦ pathSplit n path) r

theorem expands_of_head
    (h : path.head? = some 47 → (path.dropWhile (· = 47)).head? ≠ some 126) (users : Users) :
    Expands users path := by
  refine ⟨fun hhead ↦ ?_, fun name pieces usr ht husr ↦ ?_, _, returns_pathSplit path⟩
  · have hlist : expandList users path (Path.components path) = some path := by
      rw [← Path.components_dropWhile]
      rcases hd : path.dropWhile (· = 47) with _ | ⟨b, rest⟩
      · rw [hd]
        rfl
      · have hb : b ≠ 47 := by
          have := List.head?_dropWhile_not (fun b : UInt8 ↦ decide (b = 47)) path
          rw [hd] at this
          simpa using this
        have htilde : b ≠ 126 := by
          rintro rfl
          by_cases hslash : path.head? = some 47
          · exact h hslash (by rw [hd]; rfl)
          · have hself : path.dropWhile (· = 47) = path := by
              cases path with
              | nil => rfl
              | cons c path =>
                  refine List.dropWhile_cons_of_neg fun hc ↦ hslash ?_
                  rw [of_decide_eq_true hc]
                  rfl
            rw [← hself, hd] at hhead
            exact hhead rfl
        obtain ⟨name, comps, hcomps⟩ := Path.exists_components_cons hb rest
        rw [hd, hcomps, expandList_of_ne htilde]
    rw [← hlist]
    exact returns_pathExpand users path
  · obtain ⟨hpath, hname, hpieces⟩ := ht
    have hsplit : path.split 47 = (126 :: name) :: pieces := by
      refine Str.split_eq_iff.mpr ⟨List.cons_ne_nil _ _, ?_, hpath⟩
      exact List.forall_mem_cons.mpr
        ⟨List.not_mem_cons_of_ne_of_not_mem (by decide) hname, hpieces⟩
    have hlist : expandList users path (Path.components path) =
        some (Path.join (usr.homeDir :: pieces.filter (· ≠ []))) := by
      have hcomps : Path.components path = (126 :: name) :: pieces.filter (· ≠ []) := by
        rw [Path.components, hsplit]
        exact List.filter_cons_of_pos (decide_eq_true (List.cons_ne_nil _ _))
      show _ = (some usr).map fun usr ↦ Path.join (usr.homeDir :: pieces.filter (· ≠ []))
      rw [hcomps, expandList, ← husr]
      rfl
    rw [← hlist]
    exact returns_pathExpand users path

/-- **Home directories.**  With any users a path is expanded as it should be if and only if it does
not begin with slashes and a `~` behind them. -/
theorem expands_iff (path : Str) : (∀ users, Expands users path) ↔
    path.head? = some 47 → (path.dropWhile (· = 47)).head? ≠ some 126 := by
  refine ⟨fun h hslash htilde ↦ ?_, expands_of_head⟩
  let users : Users := { lookup := fun _ ↦ none }
  have hnone : expandList users path (Path.components path) = none := by
    obtain ⟨rest, hrest⟩ := List.head?_eq_some_iff.mp htilde
    obtain ⟨name, comps, hcomps⟩ := Path.exists_components_cons (b := 126) (by decide) rest
    rw [← Path.components_dropWhile, hrest, hcomps, expandList]
    by_cases hname : name = []
    · rw [if_pos hname]
      rfl
    · rw [if_neg hname]
      rfl
  have hsame := (h users).unchanged (by rw [hslash]; decide)
  have := (returns_pathExpand users path).unique hsame
  rw [hnone] at this
  cases this

/-- A path from the root directory is taken for one of a home directory. -/
theorem expands_root :
    Returns (fun n ↦ pathExpand oneUser n (str "/~u/y")) (some (str "/y")) ∧
      ¬∀ users path, Expands users path := by
  have hreturns := returns_pathExpand oneUser (str "/~u/y")
  have hlist : expandList oneUser (str "/~u/y") (Path.components (str "/~u/y")) =
      some (str "/y") := by decide
  rw [hlist] at hreturns
  refine ⟨hreturns, fun h ↦ ?_⟩
  have hsame := (h oneUser (str "/~u/y")).unchanged (by decide)
  exact absurd (hreturns.unique hsame) (by decide)

end Supervisord.Process
