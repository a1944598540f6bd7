import Supervisord.Go.Index
import Supervisord.Go.Spaces
import Supervisord.Go.Split

/-!
# The environment file

`loadEnvFile` sets the variables that the lines of a file assign.  It stops where `ReadString`
reports the end of the file, with what stands behind the last newline, and it looks for the space
behind `export` in one byte, which it takes for a character.  `exact_loadEnvFile_iff` states for
which files this does not matter.  The assignments are the calls of `os.Setenv`.
-/

namespace List

variable {α β : Type*} {f g : α → Option β} {l : List α}

theorem filterMap_cons_toList (f : α → Option β) (x : α) (l : List α) :
    (x :: l).filterMap f = (f x).toList ++ l.filterMap f := by
  cases h : f x with
  | none => rw [filterMap_cons_none h, Option.toList_none, nil_append]
  | some b => rw [filterMap_cons_some h, Option.toList_some, singleton_append]

/-- The same is selected only if the same becomes of each element, if one function selects wherever
the other one does. -/
theorem filterMap_eq_filterMap_iff (h : ∀ x ∈ l, (g x).isSome → (f x).isSome) :
    l.filterMap f = l.filterMap g ↔ ∀ x ∈ l, f x = g x := by
  refine ⟨fun heq ↦ ?_, fun hfg ↦ filterMap_congr hfg⟩
  induction l with
  | nil => exact fun x hx ↦ absurd hx not_mem_nil
  | cons x l ih =>
      obtain ⟨hx, hl⟩ := forall_mem_cons.mp h
      rw [forall_mem_cons]
      cases hf : f x with
      | none =>
          have hg : g x = none := by
            rw [← Option.not_isSome_iff_eq_none]
            intro hg
            rw [hf] at hx
            cases hx hg
          rw [filterMap_cons_none hf, filterMap_cons_none hg] at heq
          exact ⟨hg.symm, ih hl heq⟩
      | some b =>
          rw [filterMap_cons_some hf] at heq
          cases hg : g x with
          | none =>
              -- then `g` selects less than `f`
              rw [filterMap_cons_none hg] at heq
              have hle := countP_mono_left hl
              have hlen := congrArg length heq
              rw [length_cons, length_filterMap_eq_countP, length_filterMap_eq_countP] at hlen
              omega
          | some b' =>
              rw [filterMap_cons_some hg] at heq
              obtain ⟨hb, htail⟩ := cons.inj heq
              exact ⟨congrArg some hb, ih hl htail⟩

end List

namespace Supervisord.EnvFile

open Go

/-! ## The loader -/

/-- The keyword `export` is taken off, and the spaces around what follows. -/
def trimExport (line : Str) : Str :=
  if line.hasPrefix (str "export") ∧ (line.drop 6).head?.any Str.isSpace then
    Str.trimSpace (line.drop 6)
  else line

/-- Split the environment variable with "=". -/
def keyValue (line : Str) : Option (Str × Str) :=
  match line.index [61] with
  | none => none
  | some pos =>
    let k := Str.trimSpace (line.take pos)
    let v := Str.trimSpace (line.drop (pos + 1))
    if k ≠ [] ∧ v ≠ [] then some (k, v) else none

/-- The variable that a line sets. -/
def setenv (line : Str) : Option (Str × Str) :=
  if line.trimSpace.head? = some 35 then none else keyValue (trimExport line.trimSpace)

/-- The rounds of the loop.  Each one reads a byte at least. -/
def loadLines : Nat → Str → List (Str × Str)
  | 0, _ => []
  | n + 1, reader =>
    match reader.readString 10 with
    | (_, none) => []
    | (line, some rest) => (setenv line).toList ++ loadLines n rest

/-- `loadEnvFile`, where `file` is what the file contains if it can be opened. -/
def loadEnvFile (envFile : Str) (file : Option Str) : List (Str × Str) :=
  if envFile = [] then []
  else match file with
    | none => []
    | some c => loadLines c.length c

/-! ## The assignments of a file -/

/-- What follows the keyword `export` and a space, without the spaces around it. -/
def withoutExport (line : Str) : Str :=
  if line.hasPrefix (str "export") ∧ ∃ w ∈ Str.spaces, w <+: line.drop 6 then
    Str.trimSpace (line.drop 6)
  else line

/-- The words around the first `=`, if there are any. -/
def around (line : Str) : Option (Str × Str) :=
  let k := Str.trimSpace (line.takeWhile (· ≠ 61))
  let v := Str.trimSpace ((line.dropWhile (· ≠ 61)).drop 1)
  if k ≠ [] ∧ v ≠ [] then some (k, v) else none

/-- What a line assigns if it is no comment. -/
def assignment (line : Str) : Option (Str × Str) :=
  if line.trimSpace.head? = some 35 then none else around (withoutExport line.trimSpace)

/-- A newline at the end does not matter, and what is assigned is what the lines assign. -/
structure Exact (envFile c : Str) : Prop where
  newline : loadEnvFile envFile (some (c ++ [10])) = loadEnvFile envFile (some c)
  assignments : loadEnvFile envFile (some c) = (c.split 10).filterMap assignment

/-- What stands behind the last newline. -/
def unterminated (c : Str) : Str := (c.split 10).getLastD []

/-- A space of more than one byte. -/
def Wide (s : Str) : Prop := ∃ w ∈ Str.spaces, 1 < w.length ∧ w <+: s

/-- A byte that is no character, where one with its number is a space. -/
def Stray (s : Str) : Prop := s.head? = some 0x85 ∨ s.head? = some 0xa0

/-- There is something behind the first `=`. -/
def HasValue (s : Str) : Prop := ∃ k v : Str, s = k ++ 61 :: v ∧ 61 ∉ k ∧ ¬v.IsSpaces

/-- A line with a value that begins with `export` and, right behind it, a wide space or a stray
byte. -/
def Misread (line : Str) : Prop := ∃ rest, line.trimSpace = str "export" ++ rest ∧
  (Wide rest ∨ Stray rest) ∧ HasValue rest

example : assignment (str "export\u3000A=b") = some (str "A", str "b") := by decide
example : setenv (str "export\u3000A=b\n") = some (str "export\u3000A", str "b") := by decide

/-! ## Keys and values -/

variable {c envFile k line rest s v : Str}

theorem keyValue_of_notMem (h : 61 ∉ s) : keyValue s = none := by
  rcases Str.index_byte_cases s 61 with ⟨-, hi⟩ | ⟨l, r, rfl, -, -⟩
  · rw [keyValue, hi]
  · exact absurd (List.mem_append_right l List.mem_cons_self) h

theorem keyValue_append_cons (hk : 61 ∉ k) : keyValue (k ++ 61 :: v) =
    if k.trimSpace ≠ [] ∧ v.trimSpace ≠ [] then some (k.trimSpace, v.trimSpace) else none := by
  have hi : Str.index (k ++ 61 :: v) [61] = some k.length := by
    rcases Str.index_byte_cases (k ++ 61 :: v) 61 with ⟨h, -⟩ | ⟨l, r, hl, hfree, hi⟩
    · exact absurd (List.mem_append_right k List.mem_cons_self) h
    · have hlk : l = k := by
        rw [← List.takeWhile_ne_stop (t := r) hfree, ← hl, List.takeWhile_ne_stop hk]
      rw [hi, hlk]
  rw [keyValue, hi]
  simp only [List.take_left, Str.drop_cut]

theorem keyValue_eq_around (s : Str) : keyValue s = around s := by
  by_cases h : 61 ∈ s
  · obtain ⟨k, v, rfl, hk⟩ := List.eq_append_cons_of_mem h
    rw [keyValue_append_cons hk, around, List.takeWhile_ne_stop hk, List.dropWhile_ne_stop hk]
    rfl
  · rw [keyValue_of_notMem h, around,
      List.dropWhile_eq_nil_iff.mpr (List.forall_ne_iff_notMem.mpr h)]
    exact (if_neg fun hv ↦ hv.2 rfl).symm

/-- Spaces around a line do not matter. -/
theorem keyValue_trimSpace (s : Str) : keyValue s.trimSpace = keyValue s := by
  by_cases hs : 61 ∈ s
  · obtain ⟨k, v, rfl, hk⟩ := List.eq_append_cons_of_mem hs
    obtain ⟨k', v', ht, ⟨a, ha, rfl⟩, b, hb, rfl⟩ :=
      Str.exists_trimSpace_cons (c := 61) (by decide) k v
    rw [ht, keyValue_append_cons hk, keyValue_append_cons fun h ↦ hk (List.mem_append_right a h),
      Str.trimSpace_append ha, Str.trimSpace_concat hb]
  · rw [keyValue_of_notMem hs,
      keyValue_of_notMem fun h ↦ hs ((Str.trimSpace_sublist s).subset h)]

theorem hasValue_of_isSome (h : (keyValue s).isSome) : HasValue s := by
  by_cases hs : 61 ∈ s
  · obtain ⟨k, v, rfl, hk⟩ := List.eq_append_cons_of_mem hs
    rw [keyValue_append_cons hk] at h
    refine ⟨k, v, rfl, hk, fun hv ↦ ?_⟩
    rw [if_neg fun hkv ↦ hkv.2 (Str.trimSpace_eq_nil_iff.mpr hv)] at h
    cases h
  · rw [keyValue_of_notMem hs] at h
    cases h

theorem keyValue_eq_some (hk : 61 ∉ k) (hne : ¬k.IsSpaces) (hv : ¬v.IsSpaces) :
    keyValue (k ++ 61 :: v) = some (k.trimSpace, v.trimSpace) := by
  rw [keyValue_append_cons hk]
  exact if_pos ⟨mt Str.trimSpace_eq_nil_iff.mp hne, mt Str.trimSpace_eq_nil_iff.mp hv⟩

/-- The letter `x` is in no space. -/
theorem keyValue_export (hk : 61 ∉ k) (hv : ¬v.IsSpaces) :
    keyValue (str "export" ++ (k ++ 61 :: v)) =
      some (Str.trimSpace (str "export" ++ k), v.trimSpace) := by
  have hmem : 120 ∈ str "export" ++ k := List.mem_append_left k (by decide)
  have hkey : 61 ∉ str "export" ++ k := fun h ↦ (List.mem_append.mp h).elim (by decide) hk
  rw [← List.append_assoc]
  exact keyValue_eq_some hkey (fun h ↦ h.notMem (by decide) hmem) hv

theorem hasValue_of_export (h : HasValue (str "export" ++ rest)) : HasValue rest := by
  obtain ⟨k, v, heq, hk, hv⟩ := h
  obtain ⟨k, rfl, rfl⟩ := Str.exists_of_front (by decide) heq.symm
  exact ⟨k, v, rfl, fun h ↦ hk (List.mem_append_right _ h), hv⟩

theorem isSome_keyValue_export (h : HasValue rest) : (keyValue (str "export" ++ rest)).isSome := by
  obtain ⟨k, v, rfl, hk, hv⟩ := h
  rw [keyValue_export hk hv]
  rfl

/-- With the keyword and without it there is not the same assignment. -/
theorem keyValue_export_ne (h : HasValue rest) :
    keyValue (str "export" ++ rest) ≠ keyValue rest := by
  obtain ⟨k, v, rfl, hk, hv⟩ := h
  rw [keyValue_export hk hv, keyValue_append_cons hk]
  intro h
  obtain ⟨-, heq⟩ := Option.ite_none_right_eq_some.mp h.symm
  have hcount := congrArg (List.count 120) (Prod.mk.inj (Option.some.inj heq)).1
  have hone : (str "export").count 120 = 1 := by decide
  rw [Str.count_trimSpace (by decide), Str.count_trimSpace (by decide), List.count_append,
    hone] at hcount
  omega

theorem keyValue_export_eq_iff :
    keyValue (str "export" ++ rest) = keyValue rest ↔ ¬HasValue rest := by
  refine ⟨fun h hv ↦ keyValue_export_ne hv h, fun hv ↦ ?_⟩
  have hrest : ¬(keyValue rest).isSome := mt hasValue_of_isSome hv
  have hexport : ¬(keyValue (str "export" ++ rest)).isSome :=
    fun h ↦ hv (hasValue_of_export (hasValue_of_isSome h))
  rw [Option.not_isSome_iff_eq_none] at hrest hexport
  rw [hrest, hexport]

/-! ## The keyword -/

theorem head?_of_begins {w : Str} (hw : w ≠ []) (h : w <+: s) : s.head? = w.head? := by
  obtain ⟨t, rfl⟩ := h
  exact List.head?_append_of_ne_nil w hw

theorem Stray.not_prefix (h : Stray s) : ¬∃ w ∈ Str.spaces, w <+: s := by
  have hstray : ∀ w ∈ Str.spaces, w.head? ≠ some 0x85 ∧ w.head? ≠ some 0xa0 := by decide
  rintro ⟨w, hw, hp⟩
  have hhead := head?_of_begins (Str.separable_spaces.ne_nil w hw) hp
  rw [Stray, hhead] at h
  exact h.elim (hstray w hw).1 (hstray w hw).2

theorem Stray.isSpace (h : Stray s) : s.head?.any Str.isSpace = true := by
  rcases h with h | h
  · rw [h]
    rfl
  · rw [h]
    rfl

/-- The stray byte is in the key. -/
theorem Stray.isSome_keyValue (h : Stray s) (hv : HasValue s) : (keyValue s).isSome := by
  obtain ⟨k, v, rfl, hk, hv⟩ := hv
  have hne : k ≠ [] := by
    rintro rfl
    rcases h with h | h
    · cases h
    · cases h
  have hspaces : ¬k.IsSpaces := by
    intro hs
    obtain ⟨w, hw, hp⟩ := hs.exists_prefix hne
    exact h.not_prefix ⟨w, hw, hp.trans (List.prefix_append k _)⟩
  rw [keyValue_eq_some hk hspaces hv]
  rfl

theorem Wide.not_isSpace (h : Wide s) : ¬s.head?.any Str.isSpace = true := by
  have hwide : ∀ w ∈ Str.spaces, 1 < w.length → ¬w.head?.any Str.isSpace = true := by decide
  obtain ⟨w, hw, hlen, hp⟩ := h
  rw [head?_of_begins (Str.separable_spaces.ne_nil w hw) hp]
  exact hwide w hw hlen

theorem Wide.exists_prefix (h : Wide s) : ∃ w ∈ Str.spaces, w <+: s := by
  obtain ⟨w, hw, -, hp⟩ := h
  exact ⟨w, hw, hp⟩

/-- Other spaces are bytes. -/
theorem isSpace_iff (hw : ¬Wide s) (hs : ¬Stray s) :
    s.head?.any Str.isSpace = true ↔ ∃ w ∈ Str.spaces, w <+: s := by
  constructor
  · have hspace : [0x09, 0x0a, 0x0b, 0x0c, 0x0d, 0x20, 0x85, 0xa0].all fun b ↦
        [b] ∈ Str.spaces ∨ b = 0x85 ∨ b = 0xa0 := by decide
    intro h
    cases s with
    | nil => cases h
    | cons b s =>
        rcases of_decide_eq_true (List.all_eq_true.mp hspace b (of_decide_eq_true h)) with hb | hb
        · exact ⟨[b], hb, s, rfl⟩
        · exact absurd (hb.imp (congrArg some) (congrArg some)) hs
  · have hbyte : ∀ w ∈ Str.spaces, ¬1 < w.length → w.head?.any Str.isSpace = true := by decide
    rintro ⟨w, hm, hp⟩
    rw [head?_of_begins (Str.separable_spaces.ne_nil w hm) hp]
    exact hbyte w hm fun hlen ↦ hw ⟨w, hm, hlen, hp⟩

theorem hasPrefix_export (rest : Str) :
    Str.hasPrefix (str "export" ++ rest) (str "export") = true ∧
      (str "export" ++ rest).drop 6 = rest :=
  ⟨List.isPrefixOf_iff_prefix.mpr (List.prefix_append _ _), List.drop_left' rfl⟩

theorem keyValue_trimExport (rest : Str) : keyValue (trimExport (str "export" ++ rest)) =
    keyValue (if rest.head?.any Str.isSpace then rest else str "export" ++ rest) := by
  obtain ⟨hp, hdrop⟩ := hasPrefix_export rest
  rw [trimExport, hp, hdrop]
  by_cases h : rest.head?.any Str.isSpace = true
  · rw [if_pos ⟨rfl, h⟩, if_pos h, keyValue_trimSpace]
  · rw [if_neg fun hh ↦ h hh.2, if_neg h]

theorem keyValue_withoutExport (rest : Str) : keyValue (withoutExport (str "export" ++ rest)) =
    keyValue (if ∃ w ∈ Str.spaces, w <+: rest then rest else str "export" ++ rest) := by
  obtain ⟨hp, hdrop⟩ := hasPrefix_export rest
  rw [withoutExport, hp, hdrop]
  by_cases h : ∃ w ∈ Str.spaces, w <+: rest
  · rw [if_pos ⟨rfl, h⟩, if_pos h, keyValue_trimSpace]
  · rw [if_neg fun hh ↦ h hh.2, if_neg h]

/-- Without the keyword a line is left as it is. -/
theorem trimExport_eq_withoutExport (h : ¬str "export" <+: s) :
    trimExport s = withoutExport s := by
  have hp : ¬Str.hasPrefix s (str "export") = true := mt List.isPrefixOf_iff_prefix.mp h
  rw [trimExport, withoutExport, if_neg fun hh ↦ hp hh.1, if_neg fun hh ↦ hp hh.1]

/-! ## Lines -/

/-- A line is read as it is meant, or it has the keyword and only one of the two takes it off. -/
theorem setenv_cases (line : Str) :
    setenv (line ++ [10]) = assignment line ∧ ¬Misread line ∨
      ∃ rest, line.trimSpace = str "export" ++ rest ∧
        (Wide rest ∧ setenv (line ++ [10]) = keyValue (str "export" ++ rest) ∧
            assignment line = keyValue rest ∨
          Stray rest ∧ setenv (line ++ [10]) = keyValue rest ∧
            assignment line = keyValue (str "export" ++ rest)) := by
  have hnewline : [10] ∈ Str.spaces := by decide
  rw [setenv, assignment, Str.trimSpace_concat (Str.isSpaces_of_mem hnewline), ← keyValue_eq_around]
  by_cases hp : str "export" <+: line.trimSpace
  · obtain ⟨rest, ht⟩ := hp
    have hcomment : ¬(str "export" ++ rest).head? = some 35 := by
      rw [List.head?_append_of_ne_nil _ (by decide)]
      decide
    rw [← ht, if_neg hcomment, if_neg hcomment, keyValue_trimExport, keyValue_withoutExport]
    by_cases hw : Wide rest
    · rw [if_neg hw.not_isSpace, if_pos hw.exists_prefix]
      exact .inr ⟨rest, rfl, .inl ⟨hw, rfl, rfl⟩⟩
    · by_cases hs : Stray rest
      · rw [if_pos hs.isSpace, if_neg hs.not_prefix]
        exact .inr ⟨rest, rfl, .inr ⟨hs, rfl, rfl⟩⟩
      · refine .inl ⟨congrArg keyValue (if_congr (isSpace_iff hw hs) rfl rfl), ?_⟩
        rintro ⟨rest', ht', hstray, -⟩
        obtain rfl := List.append_cancel_left (ht.trans ht')
        exact hstray.elim hw hs
  · rw [trimExport_eq_withoutExport hp]
    refine .inl ⟨rfl, ?_⟩
    rintro ⟨rest, ht, -⟩
    exact hp ⟨rest, ht.symm⟩

theorem setenv_eq_iff : setenv (line ++ [10]) = assignment line ↔ ¬Misread line := by
  rcases setenv_cases line with ⟨h, hm⟩ | ⟨rest, ht, h⟩
  · exact iff_of_true h hm
  · have hread : Misread line ↔ HasValue rest := by
      constructor
      · rintro ⟨rest', ht', -, hv⟩
        exact List.append_cancel_left (ht'.symm.trans ht) ▸ hv
      · intro hv
        exact ⟨rest, ht, h.imp And.left And.left, hv⟩
    rw [hread]
    rcases h with ⟨-, hset, hassign⟩ | ⟨-, hset, hassign⟩
    · rw [hset, hassign]
      exact keyValue_export_eq_iff
    · rw [hset, hassign, eq_comm]
      exact keyValue_export_eq_iff

/-- A line is not misread if it is in ASCII. -/
theorem not_misread (h : ∀ b ∈ line, b < 128) : ¬Misread line := by
  have hwide : ∀ w ∈ Str.spaces, 1 < w.length → w.head?.any (· < 128) = false := by decide
  rintro ⟨rest, ht, hstray, -⟩
  have hrest (b) (hb : b ∈ rest) : b < 128 := by
    refine h b ((Str.trimSpace_sublist line).subset ?_)
    rw [ht]
    exact List.mem_append_right _ hb
  rcases hstray with ⟨w, hw, hlen, hp⟩ | hb | hb
  · obtain ⟨b, w, rfl⟩ := List.exists_cons_of_ne_nil (Str.separable_spaces.ne_nil w hw)
    exact of_decide_eq_false (hwide _ hw hlen) (hrest b (hp.subset List.mem_cons_self))
  · exact absurd (hrest _ (List.mem_of_head? hb)) (by decide)
  · exact absurd (hrest _ (List.mem_of_head? hb)) (by decide)

/-- No line is missed. -/
theorem isSome_setenv (h : (assignment line).isSome) : (setenv (line ++ [10])).isSome := by
  rcases setenv_cases line with ⟨heq, -⟩ | ⟨rest, -, ⟨-, hset, hassign⟩ | ⟨hs, hset, hassign⟩⟩
  · rwa [heq]
  · rw [hassign] at h
    rw [hset]
    exact isSome_keyValue_export (hasValue_of_isSome h)
  · rw [hassign] at h
    rw [hset]
    exact hs.isSome_keyValue (hasValue_of_export (hasValue_of_isSome h))

/-! ## Files -/

/-- The loop reads the lines that end with a newline. -/
theorem loadLines_eq {n : Nat} (h : s.length ≤ n) : loadLines n s =
    (s.split 10).dropLast.filterMap fun line ↦ setenv (line ++ [10]) := by
  induction n generalizing s with
  | zero =>
      obtain rfl := List.eq_nil_of_length_eq_zero (Nat.le_zero.mp h)
      rfl
  | succ n ih =>
      by_cases hs : 10 ∈ s
      · obtain ⟨a, b, rfl, ha⟩ := List.eq_append_cons_of_mem hs
        rw [List.length_append, List.length_cons] at h
        rw [loadLines, Str.readString_append_cons ha, Str.split_append_cons ha,
          List.dropLast_cons_of_ne_nil (Str.split_ne_nil b 10)]
        show (setenv (a ++ [10])).toList ++ loadLines n b = _
        rw [ih (by omega), List.filterMap_cons_toList]
      · rw [loadLines, Str.readString_of_notMem hs, Str.split_of_notMem hs]
        rfl

theorem loadEnvFile_eq (he : envFile ≠ []) (c : Str) : loadEnvFile envFile (some c) =
    (c.split 10).dropLast.filterMap fun line ↦ setenv (line ++ [10]) := by
  rw [loadEnvFile, if_neg he]
  exact loadLines_eq (Nat.le_refl _)

/-- With another newline the last line is read as well. -/
theorem loadEnvFile_concat (he : envFile ≠ []) (c : Str) :
    loadEnvFile envFile (some (c ++ [10])) =
      (c.split 10).filterMap fun line ↦ setenv (line ++ [10]) := by
  rw [loadEnvFile_eq he, Str.split_concat, List.dropLast_concat]

theorem split_eq (c : Str) : c.split 10 = (c.split 10).dropLast ++ [unterminated c] := by
  have hne := Str.split_ne_nil c 10
  rw [unterminated, List.getLastD_eq_getLast?, List.getLast?_eq_some_getLast hne, Option.getD_some,
    List.dropLast_concat_getLast]

/-- A file is loaded as it is meant if nothing is assigned behind its last newline and no line is
misread. -/
theorem exact_loadEnvFile_iff (he : envFile ≠ []) : Exact envFile c ↔
    assignment (unterminated c) = none ∧ ∀ line ∈ c.split 10, ¬Misread line := by
  let set (line : Str) := setenv (line ++ [10])
  have hlast : (c.split 10).filterMap set =
      (c.split 10).dropLast.filterMap set ++ (set (unterminated c)).toList := by
    conv_lhs => rw [split_eq c]
    rw [List.filterMap_append, List.filterMap_cons_toList, List.filterMap_nil, List.append_nil]
  have hmem : unterminated c ∈ c.split 10 := by
    rw [split_eq c]
    exact List.mem_append_right _ List.mem_cons_self
  have hread : (c.split 10).filterMap set = (c.split 10).filterMap assignment ↔
      ∀ line ∈ c.split 10, ¬Misread line := by
    rw [List.filterMap_eq_filterMap_iff fun line _ ↦ isSome_setenv]
    exact forall₂_congr fun line _ ↦ setenv_eq_iff
  constructor
  · rintro ⟨hnewline, hassign⟩
    rw [loadEnvFile_concat he, loadEnvFile_eq he] at hnewline
    have hnone : set (unterminated c) = none := by
      have hnil := List.append_right_eq_self.mp (hlast.symm.trans hnewline)
      exact Option.toList_eq_nil_iff.mp hnil
    have hlines := hread.mp (hnewline.trans ((loadEnvFile_eq he c).symm.trans hassign))
    exact ⟨(setenv_eq_iff.mpr (hlines _ hmem)).symm.trans hnone, hlines⟩
  · rintro ⟨hnone, hlines⟩
    have hset : set (unterminated c) = none := (setenv_eq_iff.mpr (hlines _ hmem)).trans hnone
    rw [hset, Option.toList_none, List.append_nil] at hlast
    refine ⟨?_, ?_⟩
    · rw [loadEnvFile_concat he, loadEnvFile_eq he]
      exact hlast
    · rw [loadEnvFile_eq he]
      exact hlast.symm.trans (hread.mpr hlines)

/-- The statement for a file with blanks around a `=`, a comment and an empty value. -/
theorem exact_loadEnvFile_comment : Exact (str "env") (str "export A = b c\n# C=d\nC=") := by
  have hascii : ∀ line ∈ (str "export A = b c\n# C=d\nC=").split 10, line.all (· < 128) := by
    decide
  refine (exact_loadEnvFile_iff (by decide)).mpr ⟨by decide, fun line hl ↦ ?_⟩
  exact not_misread fun b hb ↦ of_decide_eq_true (List.all_eq_true.mp (hascii line hl) b hb)

/-- The only line is lost. -/
theorem loadEnvFile_unterminated : ¬∀ envFile c : Str, envFile ≠ [] → Exact envFile c := by
  intro h
  have hnewline := (h (str "env") (str "A=b") (by decide)).newline
  exact absurd hnewline (by decide)

end Supervisord.EnvFile
