import Mathlib.Logic.Function.Basic
import Supervisord.Go.Strings

/-!
# String expressions

`StringExpression` replaces references such as `%(name)s` by the values of an environment.  It
looks for the first reference, replaces it and starts over from the beginning, so that a value
may contain references itself; a value that leads back to itself is replaced for ever.  `eval`
therefore takes the number of rounds it may go through and returns nothing when they are used up.
-/

namespace Supervisord

open Go

/-- What the configuration takes from the machine it is loaded on. -/
structure Host where
  /-- `os.Environ()`, cut at the first `=` of each element. -/
  environ : List (Str × Str) := []
  /-- `os.Hostname()`, if it is known. -/
  hostname : Option Str := none
  /-- `fmt.Sprintf` of a format and an integer. -/
  sprintf : Str → Int → Str
  /-- The integer the ini library finds in a value, if there is one. -/
  parseInt : Str → Option Int := Str.atoi

/-- A machine without environment variables, whose formats print nothing. -/
def Host.bare : Host where
  sprintf _ _ := []

/-- The environment of a `StringExpression`. -/
abbrev Env := Str → Option Str

namespace StringExpression

/-- `Add`. -/
def add (se : Env) (key value : Str) : Env := Function.update se key (some value)

/-- `NewStringExpression`. -/
def new (host : Host) (envs : List (Str × Str)) : Env :=
  let se : Env := fun _ ↦ none
  let se := host.environ.foldl (fun se t ↦ add se (str "ENV_" ++ t.1) t.2) se
  let se := envs.foldl (fun se t ↦ add se t.1 t.2) se
  match host.hostname with
  | some hostname => add se (str "host_node_name") hostname
  | none => se

theorem foldl_add_of_notMem {envs : List (Str × Str)} {se : Env} {key : Str}
    (h : key ∉ envs.map (·.1)) : envs.foldl (fun se t ↦ add se t.1 t.2) se key = se key := by
  induction envs generalizing se with
  | nil => rfl
  | cons t envs ih =>
      rw [List.map_cons, List.mem_cons, not_or] at h
      rw [List.foldl_cons, ih h.2, add, Function.update_of_ne h.1]

/-- The value of a variable that `NewStringExpression` is given. -/
theorem new_of_mem {host : Host} {envs : List (Str × Str)} {key value : Str}
    (hnodup : (envs.map (·.1)).Nodup) (hmem : (key, value) ∈ envs)
    (hne : key ≠ str "host_node_name") : new host envs key = some value := by
  have hfold : ∀ (l : List (Str × Str)) (se : Env), (l.map (·.1)).Nodup → (key, value) ∈ l →
      l.foldl (fun se t ↦ add se t.1 t.2) se key = some value := by
    intro l
    induction l with
    | nil => exact fun _ _ h ↦ absurd h List.not_mem_nil
    | cons t l ih =>
        intro se hn hm
        rw [List.map_cons, List.nodup_cons] at hn
        rw [List.foldl_cons]
        rcases List.mem_cons.mp hm with rfl | hm
        · rw [foldl_add_of_notMem hn.1, add, Function.update_self]
        · exact ih _ hn.2 hm
  unfold new
  cases host.hostname with
  | none => exact hfold envs _ hnodup hmem
  | some hostname =>
      exact (Function.update_of_ne hne _ _).trans (hfold envs _ hnodup hmem)

/-- The errors of `Eval`. -/
inductive Error where
  /-- "fail to find the environment variable %s" -/
  | notFound (varName : Str)
  /-- "can't convert %s to integer" -/
  | notInteger (varValue : Str)
  /-- "not implement type:%v" -/
  | notImplemented (typ : UInt8)
  /-- "invalid string expression format" -/
  | invalidFormat
deriving DecidableEq

def isLetter (b : UInt8) : Bool := (97 ≤ b && b ≤ 122) || (65 ≤ b && b ≤ 90)

/-- One round of the loop of `Eval`: the string with its first reference replaced, or nothing
where there is none. -/
def replace (host : Host) (se : Env) (s : Str) : Except Error (Option Str) :=
  match s.index (str "%(") with
  | none => .ok none
  | some start =>
    -- the end of the name and, behind it, the type of the variable
    let rest := s.drop (start + 2)
    let varName := rest.takeWhile (· ≠ 41)
    match rest.drop varName.length with
    | [] => .error .invalidFormat
    | _ :: rest =>
      let flags := rest.takeWhile (!isLetter ·)
      match rest.drop flags.length with
      | [] => .error .invalidFormat
      | typ :: rest => match se varName with
        | none => .error (.notFound varName)
        | some varValue =>
          if typ = 100 then match varValue.atoi with
            | none => .error (.notInteger varValue)
            | some i => .ok (some (s.take start ++ host.sprintf (37 :: flags ++ [100]) i ++ rest))
          else if typ = 115 then .ok (some (s.take start ++ varValue ++ rest))
          else .error (.notImplemented typ)

/-- `Eval`, for at most the given number of rounds. -/
def eval (host : Host) (se : Env) : Nat → Str → Option (Except Error Str)
  | 0, _ => none
  | n + 1, s => match replace host se s with
    | .error e => some (.error e)
    | .ok none => some (.ok s)
    | .ok (some s') => eval host se n s'

/-- More rounds do not change what `Eval` returns. -/
theorem eval_mono {host : Host} {se : Env} {n m : Nat} {s : Str} {r : Except Error Str}
    (h : eval host se n s = some r) (hnm : n ≤ m) : eval host se m s = some r := by
  induction n generalizing m s with
  | zero => cases h
  | succ n ih =>
      obtain ⟨m, rfl⟩ := Nat.exists_eq_add_of_le' (Nat.lt_of_lt_of_le (Nat.succ_pos n) hnm)
      rw [eval] at h ⊢
      split at h
      · exact h
      · exact h
      · exact ih h (Nat.le_of_succ_le_succ hnm)

/-- What `Eval` returns is not a matter of the number of rounds. -/
theorem eval_unique {host : Host} {se : Env} {n m : Nat} {s : Str} {r r' : Except Error Str}
    (h : eval host se n s = some r) (h' : eval host se m s = some r') : r = r' :=
  Option.some.inj ((eval_mono h (Nat.le_max_left n m)).symm.trans
    (eval_mono h' (Nat.le_max_right n m)))

/-- There is no reference in a string. -/
def NoReference (s : Str) : Prop := s.index (str "%(") = none

theorem noReference_of_notMem {s : Str} (h : 37 ∉ s) : NoReference s := by
  rw [NoReference]
  induction s with
  | nil => rfl
  | cons b s ih =>
      rw [List.mem_cons, not_or] at h
      have hfirst : (str "%(").isPrefixOf (b :: s) = false := by
        have hb : (37 == b) = false := beq_eq_false_iff_ne.mpr h.1
        show (37 == b && _) = false
        rw [hb, Bool.false_and]
      rw [Str.index, if_neg (by rw [hfirst]; exact Bool.false_ne_true)]
      show Option.map (· + 1) (Str.index s (str "%(")) = none
      rw [ih h.2]
      rfl

/-- A round replaces nothing where there is no reference. -/
theorem replace_eq_ok_none {host : Host} {se : Env} {s : Str} :
    replace host se s = .ok none ↔ NoReference s := by
  unfold replace NoReference
  cases s.index (str "%(") with
  | none => simp
  | some start =>
      -- every branch replaces the reference or fails
      simp only [reduceCtorEq, iff_false]
      repeat' split
      all_goals exact fun h ↦ by cases h

theorem eval_of_noReference {host : Host} {se : Env} {n : Nat} {s : Str} {r : Except Error Str}
    (hs : NoReference s) (h : eval host se n s = some r) : r = .ok s := by
  cases n with
  | zero => cases h
  | succ n =>
      rw [eval, replace_eq_ok_none.mpr hs] at h
      exact (Option.some.inj h).symm

theorem replace_programName {host : Host} {se : Env} {x : Str}
    (h : se (str "program_name") = some x) :
    replace host se (str "%(program_name)s") = .ok (some x) := by
  have hidx : (str "%(program_name)s").index (str "%(") = some 0 := by decide
  have hname : ((str "%(program_name)s").drop 2).takeWhile (· ≠ 41) = str "program_name" := by
    decide
  have hrest : ((str "%(program_name)s").drop 2).drop (str "program_name").length = [41, 115] := by
    decide
  have hflags : ([115] : Str).takeWhile (fun b ↦ !isLetter b) = [] := by decide
  unfold replace
  simp only [hidx, Nat.zero_add, hname, hrest, hflags, h]
  simp

/-- The default of `process_name` is the name of the program. -/
theorem eval_programName {host : Host} {se : Env} {n : Nat} {x : Str} {r : Except Error Str}
    (hse : se (str "program_name") = some x) (hx : NoReference x)
    (h : eval host se n (str "%(program_name)s") = some r) : r = .ok x := by
  cases n with
  | zero => cases h
  | succ n =>
      rw [eval, replace_programName hse] at h
      exact eval_of_noReference hx h

/-- What has been evaluated holds no reference. -/
theorem noReference_of_eval {host : Host} {se : Env} {n : Nat} {s r : Str}
    (h : eval host se n s = some (.ok r)) : NoReference r := by
  induction n generalizing s with
  | zero => cases h
  | succ n ih =>
      rw [eval] at h
      split at h
      · cases h
      · rename_i hr
        cases h
        exact replace_eq_ok_none.mp hr
      · exact ih h

end StringExpression

end Supervisord
