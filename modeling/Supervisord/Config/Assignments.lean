import Supervisord.Config.Load
import Supervisord.Format.Marker
import Supervisord.Go.Spaces

/-!
# Assignments

`parseEnv` reads back a list of assignments, each with quotes around its value or without.  The
last one is lost when nothing stands behind its `=`.
-/

namespace Supervisord

open Go

/-! ## Names -/

theorem notMem_takeWhile (s : Str) (c : UInt8) : c ∉ s.takeWhile (· ≠ c) :=
  fun h ↦ absurd (List.mem_takeWhile_imp h) (by simp)

/-- The names of the variables are what stands before a `=`. -/
theorem notMem_of_mem_parseEnv {s k : Str} (hk : k ∈ parseEnv s) : 61 ∉ k := by
  have hset {m : Map Str Str} (hm : ∀ k ∈ m, 61 ∉ k) (s value : Str) :
      ∀ k ∈ m.insert (Str.trimSpace (s.takeWhile (· ≠ 61))) value, 61 ∉ k := by
    intro k hk
    rcases (AList.mem_insert m).mp hk with rfl | hk
    · exact fun h ↦ notMem_takeWhile s 61 ((Str.trimSpace_sublist _).subset h)
    · exact hm k hk
  have hfrom (n : Nat) (s : Str) (m : Map Str Str) (hm : ∀ k ∈ m, 61 ∉ k) :
      ∀ k ∈ parseEnvFrom n s m, 61 ∉ k := by
    fun_induction parseEnvFrom n s m with
    | case1 => exact hm
    | case2 => exact hm
    | case3 => exact hm
    | case4 => exact hm
    | case5 _ _ _ _ _ _ _ _ _ _ _ _ ih => exact ih (hset hm _ _)
    | case6 => exact hset hm _ _
    | case7 => exact hset hm _ _
    | case8 _ _ _ _ _ _ _ _ _ _ _ _ _ _ ih => exact ih (hset hm _ _)
  exact hfrom s.length s ∅ (fun k h ↦ absurd h (AList.notMem_empty k)) k hk

/-! ## Texts -/

/-- An assignment of an `environment`. -/
structure Assignment where
  key : Str
  value : Str
  quoted : Bool

namespace Assignment

/-- How the assignment is written. -/
def text (a : Assignment) : Str :=
  a.key ++ 61 :: if a.quoted then 34 :: (a.value ++ [34]) else a.value

/-- What the assignment adds to the map. -/
def entry (a : Assignment) : (_ : Str) × Str := ⟨a.key.trimSpace, a.value.trimSpace⟩

def WellFormed (a : Assignment) : Prop :=
  61 ∉ a.key ∧ 34 ∉ a.value ∧ (a.quoted = false → 44 ∉ a.value)

/-- There is nothing behind the `=`. -/
def Blank (a : Assignment) : Prop := a.quoted = false ∧ a.value = []

instance (a : Assignment) : Decidable a.Blank := inferInstanceAs (Decidable (_ ∧ _))

/-- The assignments in a row. -/
def join (l : List Assignment) : Str := [44].intercalate (l.map text)

/-- The assignments that are read. -/
def kept (l : List Assignment) : List Assignment :=
  if ∃ a ∈ l.getLast?, a.Blank then l.dropLast else l

/-! ## Rounds -/

variable {a : Assignment} {l l' : List Assignment} {n : Nat} {rest : Str} {m : Map Str Str}

section Round

variable {key value s : Str}

/-- A value that begins with a quote. -/
theorem parseEnvFrom_quote (hkey : 61 ∉ key) (hvalue : 34 ∉ value) :
    parseEnvFrom (n + 1) (key ++ 61 :: 34 :: (value ++ 34 :: s)) m =
      if s.head? = some 44 then
        parseEnvFrom n s.tail (m.insert key.trimSpace value.trimSpace)
      else m.insert key.trimSpace value.trimSpace := by
  rw [parseEnvFrom, List.takeWhile_ne_stop hkey, List.drop_left]
  split
  · rename_i he
    cases he
  · rename_i he
    cases he
  · rename_i he
    cases he
    dsimp only
    rw [List.takeWhile_ne_stop hvalue, List.drop_left]
    split
    · rename_i he
      cases he
    · rename_i he
      cases he
      rfl
    · rename_i hne he
      cases he
      rw [if_neg]
      intro hs
      obtain ⟨s, rfl⟩ := List.head?_eq_some_iff.mp hs
      exact hne s rfl
  · rename_i hne he
    cases he
    exact absurd rfl (hne _)

/-- A value that does not. -/
theorem parseEnvFrom_unquoted (hkey : 61 ∉ key) (hs : s ≠ []) (hq : s.head? ≠ some 34) :
    (44 ∉ s → parseEnvFrom (n + 1) (key ++ 61 :: s) m = m.insert key.trimSpace s.trimSpace) ∧
    ∀ value rest : Str, s = value ++ 44 :: rest → 44 ∉ value →
      parseEnvFrom (n + 1) (key ++ 61 :: s) m =
        parseEnvFrom n rest (m.insert key.trimSpace value.trimSpace) := by
  rw [parseEnvFrom, List.takeWhile_ne_stop hkey, List.drop_left]
  split
  · rename_i he
    cases he
  · rename_i he
    cases he
    exact absurd rfl hs
  · rename_i he
    cases he
    exact absurd rfl hq
  · rename_i he
    cases he
    dsimp only
    constructor
    · intro h
      rw [List.takeWhile_eq_self_iff.mpr (List.forall_ne_iff_notMem.mpr h), List.drop_length]
    · rintro value rest rfl hvalue
      rw [List.takeWhile_ne_stop hvalue, List.drop_left]

end Round

/-- An assignment that another one follows. -/
theorem parseEnvFrom_cons (ha : a.WellFormed) :
    parseEnvFrom (n + 1) (a.text ++ 44 :: rest) m =
      parseEnvFrom n rest (m.insert a.entry.1 a.entry.2) := by
  obtain ⟨key, value, quoted⟩ := a
  obtain ⟨hkey, hq, hc⟩ := ha
  rw [text, List.append_assoc, List.cons_append]
  cases quoted with
  | true =>
      rw [if_pos rfl, List.cons_append, List.append_assoc, List.cons_append, List.nil_append,
        parseEnvFrom_quote hkey hq]
      exact if_pos rfl
  | false =>
      rw [if_neg Bool.false_ne_true]
      have hne : value ++ 44 :: rest ≠ [] :=
        List.append_ne_nil_of_right_ne_nil _ (List.cons_ne_nil _ _)
      refine (parseEnvFrom_unquoted hkey hne ?_).2 value rest rfl (hc rfl)
      cases value with
      | nil => exact fun h ↦ absurd (Option.some.inj h) (by decide)
      | cons c v =>
          intro h
          cases h
          exact hq List.mem_cons_self

/-- The last assignment. -/
theorem parseEnvFrom_last (ha : a.WellFormed) :
    parseEnvFrom (n + 1) a.text m = if a.Blank then m else m.insert a.entry.1 a.entry.2 := by
  obtain ⟨key, value, quoted⟩ := a
  obtain ⟨hkey, hq, hc⟩ := ha
  rw [text]
  cases quoted with
  | true =>
      rw [if_pos rfl, if_neg fun h ↦ Bool.noConfusion h.1, parseEnvFrom_quote hkey hq]
      rfl
  | false =>
      rw [if_neg Bool.false_ne_true]
      cases value with
      | nil =>
          rw [if_pos ⟨rfl, rfl⟩, parseEnvFrom,
            List.takeWhile_ne_stop hkey, List.drop_left]
      | cons c v =>
          rw [if_neg fun h ↦ List.cons_ne_nil c v h.2]
          refine (parseEnvFrom_unquoted hkey (List.cons_ne_nil c v) ?_).1 (hc rfl)
          intro h
          cases h
          exact hq List.mem_cons_self

theorem join_cons {l : List Assignment} (hl : l ≠ []) : join (a :: l) = a.text ++ 44 :: join l := by
  obtain ⟨b, l, rfl⟩ := List.exists_cons_of_ne_nil hl
  rw [join, List.map_cons, List.map_cons, List.intercalate_cons_cons, List.append_assoc]
  rfl

theorem kept_cons {l : List Assignment} (hl : l ≠ []) : kept (a :: l) = a :: kept l := by
  obtain ⟨b, l, rfl⟩ := List.exists_cons_of_ne_nil hl
  rw [kept, kept, List.getLast?_cons_cons]
  split
  · rfl
  · rfl

theorem parseEnvFrom_join (hl : ∀ a ∈ l, a.WellFormed) (hn : l.length ≤ n) :
    parseEnvFrom n (join l) m =
      ((kept l).map entry).foldl (fun m e ↦ m.insert e.1 e.2) m := by
  induction l generalizing n m with
  | nil =>
      cases n with
      | zero => rfl
      | succ n => rfl
  | cons a l ih =>
      obtain ⟨n, rfl⟩ := Nat.exists_eq_succ_of_ne_zero (Nat.ne_zero_of_lt hn)
      have hl := List.forall_mem_cons.mp hl
      by_cases hne : l = []
      · subst hne
        rw [join, List.map_singleton, List.intercalate_singleton, parseEnvFrom_last hl.1]
        have hkept : kept [a] = if a.Blank then [] else [a] := by
          simp [kept]
        rw [hkept]
        split
        · rfl
        · rfl
      · rw [join_cons hne, kept_cons hne, parseEnvFrom_cons hl.1,
          ih hl.2 (Nat.le_of_succ_le_succ hn)]
        rfl

theorem length_le_join (l : List Assignment) : l.length ≤ (join l).length := by
  induction l with
  | nil => exact Nat.zero_le _
  | cons a l ih =>
      by_cases hne : l = []
      · subst hne
        rw [join, List.map_singleton, List.intercalate_singleton, text, List.length_append,
          List.length_cons]
        exact Nat.le_add_left_of_le (Nat.le_add_left _ _)
      · rw [join_cons hne, List.length_append, List.length_cons, List.length_cons]
        omega

/-- **All rounds.** -/
theorem parseEnv_join (hl : ∀ a ∈ l, a.WellFormed) :
    parseEnv (join l) = ((kept l).map entry).foldl (fun m e ↦ m.insert e.1 e.2) ∅ :=
  parseEnvFrom_join hl (length_le_join l)

/-! ## Maps -/

/-- The keys are not the same but for the spaces around them. -/
def Distinct (l : List Assignment) : Prop := (l.map fun a ↦ a.key.trimSpace).Nodup

theorem kept_sublist (l : List Assignment) : (kept l).Sublist l := by
  unfold kept
  split
  · exact List.dropLast_sublist l
  · exact .refl l

theorem Distinct.nodupKeys (hd : Distinct l) : ((kept l).map entry).NodupKeys := by
  rw [List.NodupKeys, List.keys, List.map_map]
  exact hd.sublist ((kept_sublist l).map _)

/-- What is read is in the map. -/
theorem lookup_parseEnv (hl : ∀ a ∈ l, a.WellFormed) (hd : Distinct l) (k v : Str) :
    (parseEnv (join l)).lookup k = some v ↔
      ∃ a ∈ kept l, a.key.trimSpace = k ∧ a.value.trimSpace = v := by
  rw [parseEnv_join hl, lookup_foldl_insert ∅ hd.nodupKeys, AList.lookup_empty, Option.or_none]
  have hmem := List.mem_dlookup_iff (a := k) (b := v) hd.nodupKeys
  rw [Option.mem_def] at hmem
  rw [hmem, List.mem_map]
  constructor
  · rintro ⟨a, ha, he⟩
    cases he
    exact ⟨a, ha, rfl, rfl⟩
  · rintro ⟨a, ha, rfl, rfl⟩
    exact ⟨a, ha, rfl⟩

theorem isSome_parseEnv (hl : ∀ a ∈ l, a.WellFormed) (hd : Distinct l) (k : Str) :
    ((parseEnv (join l)).lookup k).isSome ↔ ∃ a ∈ kept l, a.key.trimSpace = k := by
  rw [Option.isSome_iff_exists]
  constructor
  · rintro ⟨v, hv⟩
    obtain ⟨a, ha, hk, -⟩ := (lookup_parseEnv hl hd k v).mp hv
    exact ⟨a, ha, hk⟩
  · rintro ⟨a, ha, hk⟩
    exact ⟨_, (lookup_parseEnv hl hd k _).mpr ⟨a, ha, hk, rfl⟩⟩

/-- The last assignment is written bare, and its value is empty. -/
def EndsBlank (l : List Assignment) : Prop := ∃ a ∈ l.getLast?, a.Blank

theorem kept_of_not_endsBlank (h : ¬EndsBlank l) : kept l = l := if_neg h

/-- The key of a last assignment without a value is not found. -/
theorem EndsBlank.notMem (h : EndsBlank l) (hd : Distinct l) :
    ∃ a ∈ l, ∀ b ∈ kept l, b.key.trimSpace ≠ a.key.trimSpace := by
  have hkept : kept l = l.dropLast := if_pos h
  obtain ⟨a, ha, -⟩ := h
  obtain ⟨l, rfl⟩ := List.getLast?_eq_some_iff.mp ha
  refine ⟨a, List.mem_append_right l List.mem_cons_self, fun b hb he ↦ ?_⟩
  rw [hkept, List.dropLast_concat] at hb
  rw [Distinct, List.map_append, List.map_singleton] at hd
  exact List.disjoint_of_nodup_append hd (List.mem_map_of_mem hb) (List.mem_singleton.mpr he)

/-- **Order.**  Assignments in any two orders make the same map, which has all the keys, unless the
last one of one of them is written bare and has no value. -/
theorem parseEnv_perm_iff (hl : ∀ a ∈ l, a.WellFormed) (hd : Distinct l) (hp : l'.Perm l) :
    ((∀ k, (parseEnv (join l')).lookup k = (parseEnv (join l)).lookup k) ∧
      ∀ a ∈ l, ((parseEnv (join l)).lookup a.key.trimSpace).isSome) ↔
      ¬EndsBlank l ∧ ¬EndsBlank l' := by
  have hl' : ∀ a ∈ l', a.WellFormed := fun a ha ↦ hl a (hp.mem_iff.mp ha)
  have hd' : Distinct l' := (hp.map _).nodup_iff.mpr hd
  -- the key of a last assignment without a value would have to be found
  have hblank {l : List Assignment} (hl : ∀ a ∈ l, a.WellFormed) (hd : Distinct l)
      (hall : ∀ a ∈ l, ((parseEnv (join l)).lookup a.key.trimSpace).isSome) : ¬EndsBlank l := by
    intro hb
    obtain ⟨a, ha, hno⟩ := hb.notMem hd
    obtain ⟨b, hb, he⟩ := (isSome_parseEnv hl hd _).mp (hall a ha)
    exact hno b hb he
  constructor
  · rintro ⟨hsame, hall⟩
    refine ⟨hblank hl hd hall, hblank hl' hd' fun a ha ↦ ?_⟩
    rw [hsame]
    exact hall a (hp.mem_iff.mp ha)
  · rintro ⟨hb, hb'⟩
    constructor
    · intro k
      apply Option.ext
      intro v
      rw [lookup_parseEnv hl hd, lookup_parseEnv hl' hd', kept_of_not_endsBlank hb,
        kept_of_not_endsBlank hb']
      simp only [hp.mem_iff]
    · intro a ha
      rw [isSome_parseEnv hl hd, kept_of_not_endsBlank hb]
      exact ⟨a, ha, rfl⟩

/-- `A=1` and `B=`, which is lost when it is the last one. -/
theorem parseEnv_perm_blank : ¬∀ l l' : List Assignment, (∀ a ∈ l, a.WellFormed) → Distinct l →
    l'.Perm l → (∀ k, (parseEnv (join l')).lookup k = (parseEnv (join l)).lookup k) ∧
      ∀ a ∈ l, ((parseEnv (join l)).lookup a.key.trimSpace).isSome := by
  intro h
  have hwf : ∀ a ∈ [Assignment.mk (str "A") (str "1") false, ⟨str "B", [], false⟩],
      a.WellFormed := by
    intro a ha
    rcases List.mem_pair.mp ha with rfl | rfl
    · exact ⟨by decide, by decide, by decide⟩
    · exact ⟨by decide, by decide, by decide⟩
  have hall := (h _ _ hwf (by decide : (List.map _ _).Nodup) (.refl _)).2
    ⟨str "B", [], false⟩ (by simp)
  exact absurd hall (by decide)

/-- A value that is missing between two others. -/
theorem parseEnv_perm_two :
    let a : Assignment := ⟨str "A", [], false⟩
    let b : Assignment := ⟨str "B", str "x,y", true⟩
    let c : Assignment := ⟨str "C", str "1", false⟩
    let l := [a, b, c]
    let l' := [a, c, b]
    join l' = str "A=,C=1,B=\"x,y\"" ∧
      (((∀ k, (parseEnv (join l')).lookup k = (parseEnv (join l)).lookup k) ∧
        ∀ a ∈ l, ((parseEnv (join l)).lookup a.key.trimSpace).isSome) ↔
        ¬EndsBlank l ∧ ¬EndsBlank l') := by
  intro a b c l l'
  refine ⟨by decide, parseEnv_perm_iff ?_ (by decide : (List.map _ _).Nodup) ?_⟩
  · intro x hx
    simp only [l, List.mem_cons, List.not_mem_nil, or_false] at hx
    rcases hx with rfl | rfl | rfl
    · exact ⟨by decide, by decide, by decide⟩
    · exact ⟨by decide, by decide, by decide⟩
    · exact ⟨by decide, by decide, by decide⟩
  · exact .cons _ (.swap _ _ _)

end Assignment

/-! ## Quoted assignments -/

/-- An assignment with quotes around its value and spaces before its key. -/
structure SpacedAssignment where
  spaces : Str
  key : Str
  value : Str

namespace SpacedAssignment

def text (x : SpacedAssignment) : Str :=
  x.spaces ++ (x.key ++ 61 :: 34 :: (x.value ++ [34]))

/-- No spaces stand around the key and the value, and no separators in them. -/
structure WellFormed (x : SpacedAssignment) : Prop where
  spaces : x.spaces.IsSpaces
  key_trim : x.key.trimSpace = x.key
  key_notMem : 61 ∉ x.key
  value_trim : x.value.trimSpace = x.value
  value_notMem : 34 ∉ x.value

/-- The spaces are part of what stands before the `=`. -/
def assignment (x : SpacedAssignment) : Assignment := ⟨x.spaces ++ x.key, x.value, true⟩

end SpacedAssignment

/-- **Quoted assignments.**  What is read is exactly what has been written. -/
theorem parseEnv_quoted (l : List SpacedAssignment) (hl : ∀ x ∈ l, x.WellFormed)
    (hd : (l.map (·.key)).Nodup) (k v : Str) :
    (parseEnv ([44].intercalate (l.map (·.text)))).lookup k = some v ↔
      ∃ x ∈ l, x.key = k ∧ x.value = v := by
  have htrim (x) (hx : x ∈ l) : Str.trimSpace (x.spaces ++ x.key) = x.key := by
    rw [Str.trimSpace_append (hl x hx).spaces, (hl x hx).key_trim]
  have hjoin : [44].intercalate (l.map (·.text)) =
      Assignment.join (l.map (·.assignment)) := by
    rw [Assignment.join, List.map_map]
    congr 1
    apply List.map_congr_left
    intro x _
    exact (List.append_assoc _ _ _).symm
  have hwf : ∀ a ∈ l.map (·.assignment), a.WellFormed := by
    rintro a ha
    obtain ⟨x, hx, rfl⟩ := List.mem_map.mp ha
    refine ⟨fun hm ↦ ?_, (hl x hx).value_notMem, fun h ↦ Bool.noConfusion h⟩
    exact (List.mem_append.mp hm).elim ((hl x hx).spaces.notMem (by decide)) (hl x hx).key_notMem
  have hdist : Assignment.Distinct (l.map (·.assignment)) := by
    have hkeys : l.map ((fun a ↦ a.key.trimSpace) ∘ (·.assignment)) = l.map (·.key) :=
      List.map_congr_left htrim
    rw [Assignment.Distinct, List.map_map, hkeys]
    exact hd
  have hkept : Assignment.kept (l.map (·.assignment)) = l.map (·.assignment) := by
    apply Assignment.kept_of_not_endsBlank
    rintro ⟨a, ha, hq, -⟩
    obtain ⟨x, -, rfl⟩ := List.mem_map.mp (List.mem_of_getLast? ha)
    cases hq
  rw [hjoin, Assignment.lookup_parseEnv hwf hdist, hkept]
  constructor
  · rintro ⟨a, ha, hk, hv⟩
    obtain ⟨x, hx, rfl⟩ := List.mem_map.mp ha
    exact ⟨x, hx, (htrim x hx).symm.trans hk, (hl x hx).value_trim.symm.trans hv⟩
  · rintro ⟨x, hx, hk, hv⟩
    exact ⟨_, List.mem_map_of_mem hx, (htrim x hx).trans hk, (hl x hx).value_trim.trans hv⟩

/-- Separators in a value, and one that is empty. -/
theorem parseEnv_quoted_two :
    let l : List SpacedAssignment := [⟨[], str "A", str "x=1,y"⟩, ⟨str " ", str "B", []⟩]
    [44].intercalate (l.map (·.text)) = str "A=\"x=1,y\", B=\"\"" ∧
      ∀ k v, (parseEnv ([44].intercalate (l.map (·.text)))).lookup k = some v ↔
        ∃ x ∈ l, x.key = k ∧ x.value = v := by
  intro l
  refine ⟨by decide, parseEnv_quoted l ?_ (by decide)⟩
  intro x hx
  rcases List.mem_pair.mp hx with rfl | rfl
  · exact ⟨⟨[], by simp⟩, by decide, by decide, by decide, by decide⟩
  · exact ⟨⟨[str " "], by decide⟩, by decide, by decide, by decide, by decide⟩

end Supervisord
