import Supervisord.Format.Marker
import Supervisord.Go.Regexp

/-!
# Include patterns

The files to include are given by patterns with the wildcards `*` and `?`, and `toRegexp` makes a
regular expression of a pattern.  Patterns and names are given by their characters.
-/

namespace Supervisord

open Go

/-- `strings.Replace` of all occurrences of a character. -/
def replaceAll (s : List Char) (old : Char) (new : List Char) : List Char :=
  s.flatMap fun c ↦ if c = old then new else [c]

/-- Convert a pattern to a regular expression. -/
def toRegexp (pattern : List Char) : List Char :=
  ['\\', '.'].intercalate ((pattern.splitOn '.').map fun t ↦
    replaceAll (replaceAll t '*' ['.', '*']) '?' ['.'])

/-- The names that a pattern is for: `*` is for any characters of a kind, `?` for one, and every
other character for itself. -/
inductive Glob (any : Char → Bool) : List Char → List Char → Prop
  | nil : Glob any [] []
  | star {p x s : List Char} (hx : ∀ c ∈ x, any c = true) (h : Glob any p s) :
      Glob any ('*' :: p) (x ++ s)
  | one {p s : List Char} {c : Char} (hc : any c = true) (h : Glob any p s) :
      Glob any ('?' :: p) (c :: s)
  | char {p s : List Char} {c : Char} (hs : c ≠ '*') (hq : c ≠ '?') (h : Glob any p s) :
      Glob any (c :: p) (c :: s)

namespace Glob

variable {p q s t u : List Char} {c d : Char} {any : Char → Bool}

/-! ## Wildcards -/

/-- What a character of a pattern is for. -/
def wild (any : Char → Bool) (c : Char) : Wild Char :=
  if c = '*' then .many any else if c = '?' then .one any else .one (· = c)

theorem wild_char (hs : c ≠ '*') (hq : c ≠ '?') : wild any c = .one (· = c) := by
  rw [wild, if_neg hs, if_neg hq]

theorem iff_matches : Glob any p s ↔ Wild.Matches (p.map (wild any)) s := by
  constructor
  · intro h
    induction h with
    | nil => exact .nil
    | star hx h ih => exact .many hx ih
    | one hc h ih => exact .one hc ih
    | char hs hq h ih =>
        rw [List.map_cons, wild_char hs hq]
        exact .one (decide_eq_true rfl) ih
  · intro h
    induction p generalizing s with
    | nil =>
        obtain rfl := Wild.matches_nil.mp h
        exact .nil
    | cons c p ih =>
        by_cases hs : c = '*'
        · subst hs
          obtain ⟨x, t, rfl, hx, ht⟩ := Wild.matches_many.mp h
          exact .star hx (ih ht)
        by_cases hq : c = '?'
        · subst hq
          obtain ⟨a, t, rfl, ha, ht⟩ := Wild.matches_one.mp h
          exact .one ha (ih ht)
        rw [List.map_cons, wild_char hs hq] at h
        obtain ⟨a, t, rfl, ha, ht⟩ := Wild.matches_one.mp h
        obtain rfl := of_decide_eq_true ha
        exact .char hs hq (ih ht)

/-- One pattern after the other. -/
theorem append_iff : Glob any (p ++ q) s ↔
    ∃ x y, s = x ++ y ∧ Glob any p x ∧ Glob any q y := by
  simp only [iff_matches, List.map_append]
  exact Wild.matches_append

/-! ## The regular expression -/

/-- What `toRegexp` makes of a character. -/
def convert (c : Char) : List Char :=
  if c = '.' then ['\\', '.'] else if c = '*' then ['.', '*'] else if c = '?' then ['.'] else [c]

theorem replaceAll_replaceAll (hc : c ≠ '.') : replaceAll (replaceAll (c :: t) '*' ['.', '*']) '?'
    ['.'] = convert c ++ replaceAll (replaceAll t '*' ['.', '*']) '?' ['.'] := by
  rw [convert, if_neg hc]
  by_cases hs : c = '*'
  · subst hs
    rfl
  · simp only [replaceAll, List.flatMap_cons, if_neg hs, List.flatMap_append, List.flatMap_nil,
      List.append_nil]

theorem toRegexp_eq (p : List Char) : toRegexp p = p.flatMap convert := by
  induction p with
  | nil => rfl
  | cons c p ih =>
      rw [List.flatMap_cons, ← ih, toRegexp, toRegexp, List.splitOn_cons_eq_if_modifyHead]
      obtain ⟨t, ts, hsplit⟩ := List.exists_cons_of_ne_nil (List.splitOn_ne_nil '.' p)
      rw [hsplit]
      by_cases hc : c = '.'
      · subst hc
        rw [if_pos (beq_self_eq_true _), List.map_cons,
          List.intercalate_cons_of_ne_nil (by simp)]
        rfl
      · rw [if_neg (by simpa using hc), List.modifyHead_cons, List.map_cons, List.map_cons,
          replaceAll_replaceAll hc]
        cases ts with
        | nil => rw [List.map_nil, List.intercalate_singleton, List.intercalate_singleton]
        | cons t' ts =>
            rw [List.map_cons, List.intercalate_cons_cons, List.intercalate_cons_cons]
            simp only [List.append_assoc]

/-- No character of a pattern but its wildcards and dots is an operator of regular expressions. -/
def Plain (p : List Char) : Prop := ∀ c t, c :: t <:+ p →
  (c ∈ Regexp.operators → c = '?') ∧ c ≠ '\\' ∧ ¬(c = '{' ∧ Regexp.isRepeat t = true)

theorem Plain.of_cons (h : Plain (c :: p)) : Plain p :=
  fun d t hd ↦ h d t (hd.trans (List.suffix_cons c p))

/-- Characters that stay as they are. -/
theorem convert_eq (hd : c ≠ '.') (hs : c ≠ '*') (hq : c ≠ '?') : convert c = [c] := by
  rw [convert, if_neg hd, if_neg hs, if_neg hq]

theorem head?_convert (hd : d ≠ '.' ∧ d ≠ '*' ∧ d ≠ '?' ∧ d ≠ '\\') :
    (p.flatMap convert).head? = some d ↔ p.head? = some d := by
  obtain ⟨hdot, hs, hq, he⟩ := hd
  cases p with
  | nil => exact Iff.rfl
  | cons c p =>
      rw [List.flatMap_cons, List.head?_cons, Option.some_inj]
      by_cases hc : c = '.' ∨ c = '*' ∨ c = '?'
      · rcases hc with rfl | rfl | rfl
        · exact iff_of_false (fun h ↦ he (Option.some.inj h).symm) hdot.symm
        · exact iff_of_false (fun h ↦ hdot (Option.some.inj h).symm) hs.symm
        · exact iff_of_false (fun h ↦ hdot (Option.some.inj h).symm) hq.symm
      · simp only [not_or] at hc
        rw [convert_eq hc.1 hc.2.1 hc.2.2]
        exact Option.some_inj

theorem isDigit_ne (h : c.isDigit = true) : c ≠ '.' ∧ c ≠ '*' ∧ c ≠ '?' ∧ c ≠ '\\' := by
  refine ⟨?_, ?_, ?_, ?_⟩
  all_goals
    rintro rfl
    cases h

theorem convert_digit (h : c.isDigit = true) : convert c = [c] :=
  convert_eq (isDigit_ne h).1 (isDigit_ne h).2.1 (isDigit_ne h).2.2.1

theorem any_isDigit_convert :
    (p.flatMap convert).head?.any Char.isDigit = p.head?.any Char.isDigit := by
  rw [Bool.eq_iff_iff, Option.any_eq_true, Option.any_eq_true]
  exact exists_congr fun d ↦ and_congr_left fun h ↦ head?_convert (isDigit_ne h)

theorem dropWhile_convert :
    (p.flatMap convert).dropWhile Char.isDigit = (p.dropWhile Char.isDigit).flatMap convert := by
  have hstop {l : List Char} (h : l.head?.any Char.isDigit = false) :
      l.dropWhile Char.isDigit = l := by
    cases l with
    | nil => rfl
    | cons c l => exact List.dropWhile_cons_of_neg (Bool.eq_false_iff.mp h)
  induction p with
  | nil => rfl
  | cons c p ih =>
      by_cases hc : c.isDigit = true
      · rw [List.flatMap_cons, convert_digit hc, List.singleton_append,
          List.dropWhile_cons_of_pos hc, List.dropWhile_cons_of_pos hc, ih]
      · have hhead : (c :: p).head?.any Char.isDigit = false := Bool.eq_false_iff.mpr hc
        rw [hstop hhead, hstop (any_isDigit_convert.trans hhead)]

/-- Converting keeps numbers, and so it keeps repetitions. -/
theorem parseInt_convert :
    Regexp.parseInt (p.flatMap convert) = (Regexp.parseInt p).map (·.flatMap convert) := by
  cases p with
  | nil => rfl
  | cons c p =>
      by_cases hc : c.isDigit = true
      · rw [List.flatMap_cons, convert_digit hc, List.singleton_append, Regexp.parseInt,
          Regexp.parseInt, any_isDigit_convert, dropWhile_convert,
          apply_ite (Option.map fun l : List Char ↦ l.flatMap convert)]
        rfl
      · have hhead : (c :: p).head?.any Char.isDigit = false := Bool.eq_false_iff.mpr hc
        rw [Regexp.parseInt_none hhead, Regexp.parseInt_none (any_isDigit_convert.trans hhead)]
        rfl

theorem closes_convert : Regexp.closes (p.flatMap convert) = Regexp.closes p :=
  decide_eq_decide.mpr (head?_convert (by decide))

theorem isRepeat_convert : Regexp.isRepeat (p.flatMap convert) = Regexp.isRepeat p := by
  have hcomma (r : List Char) : (r.flatMap convert).head? = some ',' ↔ r.head? = some ',' :=
    head?_convert (by decide)
  rw [Regexp.isRepeat, Regexp.isRepeat, parseInt_convert, Option.any_map]
  refine congrArg (Regexp.parseInt p).any (funext fun r ↦ ?_)
  show (Regexp.closes _ || _) = _
  rw [closes_convert, decide_eq_decide.mpr (hcomma r)]
  cases r with
  | nil => rfl
  | cons c r =>
      by_cases hc : c = ','
      · subst hc
        have htail : ((',' :: r).flatMap convert).tail = r.flatMap convert := rfl
        rw [htail, closes_convert, parseInt_convert, Option.any_map]
        simp only [closes_convert]
        rfl
      · rw [decide_eq_false (by simpa using hc), Bool.false_and, Bool.false_and]

/-- **The regular expression.** -/
theorem parse_convert (hp : Plain p) (stack : List (Wild Char)) :
    Regexp.parse stack (p.flatMap convert) =
      some (stack.reverse ++ p.map (wild (· ≠ '\n'))) := by
  induction p generalizing stack with
  | nil =>
      rw [List.map_nil, List.append_nil]
      rfl
  | cons c p ih =>
      rw [List.flatMap_cons, List.map_cons, List.append_cons, ← List.reverse_cons]
      by_cases hd : c = '.'
      · subst hd
        exact (Regexp.parse_escape rfl).trans (ih hp.of_cons _)
      by_cases hs : c = '*'
      · subst hs
        exact ih hp.of_cons _
      by_cases hq : c = '?'
      · subst hq
        exact ih hp.of_cons _
      obtain ⟨ho, he, hr⟩ := hp c p List.suffix_rfl
      rw [convert_eq hd hs hq, List.singleton_append, wild_char hs hq, Regexp.parse_char hd hs he
        (fun h ↦ hq (ho h)) (by rwa [isRepeat_convert])]
      exact ih hp.of_cons _

/-- What is matched is a part of the name in which the wildcards are for no newline. -/
theorem matchString_iff (hp : Plain p) : Regexp.matchString (toRegexp p) s = some true ↔
    ∃ x, x <:+: s ∧ Glob (· ≠ '\n') p x := by
  rw [Regexp.matchString, toRegexp_eq, parse_convert hp, Option.map_some, Option.some_inj,
    List.reverse_nil, List.nil_append]
  simp only [iff_matches]
  exact Wild.finds_iff

/-! ## The shortest names -/

/-- The shortest name for a pattern, with `d` for the wildcards `?`. -/
def fill (d : Char) (p : List Char) : List Char :=
  p.flatMap fun c ↦ if c = '*' then [] else if c = '?' then [d] else [c]

theorem fill_char (hs : c ≠ '*') (hq : c ≠ '?') : fill d (c :: p) = c :: fill d p := by
  rw [fill, List.flatMap_cons, if_neg hs, if_neg hq]
  rfl

theorem fill_append : fill d (p ++ q) = fill d p ++ fill d q := List.flatMap_append

theorem fill_eq_nil : fill d p = [] ↔ ∀ c ∈ p, c = '*' := by
  rw [fill, List.flatMap_eq_nil_iff]
  refine forall₂_congr fun c _ ↦ ?_
  by_cases hs : c = '*'
  · rw [if_pos hs]
    exact iff_of_true rfl hs
  · rw [if_neg hs]
    refine iff_of_false ?_ hs
    by_cases hq : c = '?'
    · rw [if_pos hq]
      exact List.cons_ne_nil _ _
    · rw [if_neg hq]
      exact List.cons_ne_nil _ _

theorem of_fill (h : '?' ∈ p → any d = true) : Glob any p (fill d p) := by
  induction p with
  | nil => exact .nil
  | cons c p ih =>
      have ih := ih fun hp ↦ h (List.mem_cons_of_mem c hp)
      by_cases hs : c = '*'
      · subst hs
        exact .star (fun _ ha ↦ absurd ha List.not_mem_nil) ih
      by_cases hq : c = '?'
      · subst hq
        exact .one (h List.mem_cons_self) ih
      rw [fill_char hs hq]
      exact .char hs hq ih

theorem length_fill_le (h : Glob any p s) : (fill d p).length ≤ s.length := by
  induction h with
  | nil => exact Nat.zero_le _
  | star hx h ih =>
      rw [List.length_append]
      exact Nat.le_add_left_of_le ih
  | one hc h ih => exact Nat.succ_le_succ ih
  | char hs hq h ih =>
      rw [fill_char hs hq]
      exact Nat.succ_le_succ ih

/-- In the shortest name, nothing but the filler is for the wildcards. -/
theorem any_of_fill (h : Glob any p (fill d p)) (hp : '?' ∈ p) : any d = true := by
  generalize hs : fill d p = s at h
  induction h with
  | nil => exact absurd hp List.not_mem_nil
  | @star p x s hx h ih =>
      have hs' : fill d p = x ++ s := hs
      have hle := h.length_fill_le (d := d)
      rw [hs', List.length_append] at hle
      obtain rfl : x = [] := List.eq_nil_of_length_eq_zero (by omega)
      exact ih ((List.mem_cons.mp hp).resolve_left (by decide)) hs'
  | one hc h ih =>
      obtain ⟨rfl, -⟩ := List.cons.inj hs
      exact hc
  | char hs' hq h ih =>
      rw [fill_char hs' hq] at hs
      exact ih ((List.mem_cons.mp hp).resolve_left hq.symm) (List.cons.inj hs).2

theorem notMem_newline (h : Glob (· ≠ '\n') p s) (hp : '\n' ∉ p) : '\n' ∉ s := by
  induction h with
  | nil => exact List.not_mem_nil
  | star hx h ih =>
      rw [List.mem_append, not_or]
      exact ⟨fun hn ↦ of_decide_eq_true (hx _ hn) rfl, ih fun hn ↦ hp (List.mem_cons_of_mem _ hn)⟩
  | one hc h ih =>
      rw [List.mem_cons, not_or]
      exact ⟨fun hn ↦ of_decide_eq_true hc hn.symm, ih fun hn ↦ hp (List.mem_cons_of_mem _ hn)⟩
  | char hs hq h ih =>
      rw [List.mem_cons, not_or] at hp ⊢
      exact ⟨hp.1, ih hp.2⟩

/-! ## Exact patterns -/

/-- A pattern whose regular expression is for the same names. -/
def Exact (p : List Char) : Prop := ∀ name,
  Regexp.matchString (toRegexp p) name = some true ↔ Glob (fun _ ↦ true) p name

/-- Stars, then a text without wildcards, and then stars. -/
def Surrounded (p : List Char) : Prop := ∃ i u j,
  p = List.replicate i '*' ++ (u ++ List.replicate j '*') ∧ (∀ c ∈ u, c ≠ '*' ∧ c ≠ '?') ∧
    0 < i ∧ (u = [] ∨ 0 < j)

theorem text_iff (hu : ∀ c ∈ u, c ≠ '*' ∧ c ≠ '?') : Glob any u s ↔ s = u := by
  induction u generalizing s with
  | nil =>
      constructor
      · rintro ⟨⟩
        rfl
      · rintro rfl
        exact .nil
  | cons c u ih =>
      obtain ⟨⟨hs, hq⟩, hu⟩ := List.forall_mem_cons.mp hu
      constructor
      · intro h
        cases h with
        | star => exact absurd rfl hs
        | one => exact absurd rfl hq
        | char _ _ h => rw [(ih hu).mp h]
      · rintro rfl
        exact .char hs hq ((ih hu).mpr rfl)

theorem replicate_nil (i : Nat) : Glob any (List.replicate i '*') [] := by
  induction i with
  | zero => exact .nil
  | succ i ih => exact .star (x := []) (fun _ ha ↦ absurd ha List.not_mem_nil) ih

theorem replicate_all {i : Nat} (hi : 0 < i) (s : List Char) :
    Glob (fun _ ↦ true) (List.replicate i '*') s := by
  obtain ⟨i, rfl⟩ := Nat.exists_eq_succ_of_ne_zero (Nat.ne_of_gt hi)
  rw [← List.append_nil s]
  exact .star (fun _ _ ↦ rfl) (replicate_nil i)

/-- Such a pattern is for the names that contain the text. -/
theorem Surrounded.exact (h : Surrounded p) (hp : Plain p) : Exact p := by
  obtain ⟨i, u, j, rfl, hu, hi, hj⟩ := h
  intro name
  rw [matchString_iff hp]
  have hfound {any : Char → Bool} {s : List Char}
      (h : Glob any (List.replicate i '*' ++ (u ++ List.replicate j '*')) s) : u <:+: s := by
    obtain ⟨x, t, rfl, -, ht⟩ := append_iff.mp h
    obtain ⟨y, z, rfl, hy, -⟩ := append_iff.mp ht
    obtain rfl := (text_iff hu).mp hy
    exact ⟨x, z, List.append_assoc _ _ _⟩
  constructor
  · rintro ⟨x, hx, h⟩
    obtain ⟨a, b, rfl⟩ := (hfound h).trans hx
    rw [List.append_assoc]
    rcases hj with rfl | hj
    · refine append_iff.mpr ⟨_, [], (List.append_nil _).symm, replicate_all hi _, replicate_nil j⟩
    · exact append_iff.mpr ⟨a, _, rfl, replicate_all hi a,
        append_iff.mpr ⟨u, b, rfl, (text_iff hu).mpr rfl, replicate_all hj b⟩⟩
  · intro h
    refine ⟨u, hfound h, append_iff.mpr ⟨[], u, rfl, replicate_nil i, ?_⟩⟩
    exact append_iff.mpr ⟨u, [], (List.append_nil u).symm, (text_iff hu).mpr rfl, replicate_nil j⟩

/-- With a wildcard for one character, there is a name in which it is for a newline. -/
theorem Exact.notMem_any (h : Exact p) (hp : Plain p) : '?' ∉ p := by
  intro hq
  have hall : Glob (fun _ ↦ true) p (fill '\n' p) := of_fill fun _ ↦ rfl
  obtain ⟨x, hx, hg⟩ := (matchString_iff hp).mp ((h _).mpr hall)
  obtain rfl : x = fill '\n' p := hx.eq_of_length_le hg.length_fill_le
  exact absurd (any_of_fill hg hq) (by decide)

/-- What contains the shortest name is matched. -/
theorem Exact.of_infix (h : Exact p) (hp : Plain p) (hs : fill 'a' p <:+: s) :
    Glob (fun _ ↦ true) p s := by
  refine (h s).mp ((matchString_iff hp).mpr ⟨_, hs, of_fill fun hq ↦ ?_⟩)
  exact absurd hq (h.notMem_any hp)

/-- Without a star at the beginning, the shortest name behind another character is matched. -/
theorem Exact.star_first (h : Exact p) (hp : Plain p) : ∃ q, p = '*' :: q := by
  have hall (c : Char) : Glob (fun _ ↦ true) p (c :: fill 'a' p) :=
    h.of_infix hp (List.suffix_cons _ _).isInfix
  cases p with
  | nil => cases hall 'a'
  | cons d p =>
      by_contra hne
      have hs : d ≠ '*' := by
        rintro rfl
        exact hne ⟨p, rfl⟩
      have hq : d ≠ '?' := fun hd ↦ h.notMem_any hp (hd ▸ List.mem_cons_self)
      have hd (c : Char) : d = c := by
        have h' : Glob (fun _ ↦ true) ([d] ++ p) (c :: fill 'a' (d :: p)) := hall c
        obtain ⟨x, y, he, hx, -⟩ := append_iff.mp h'
        obtain rfl : x = [d] := (text_iff (by simp [hs, hq])).mp hx
        exact (List.cons.inj he).1.symm
      exact absurd ((hd 'a').symm.trans (hd 'b')) (by decide)

theorem Exact.star_last (h : Exact p) (hp : Plain p) : ∃ q, p = q ++ ['*'] := by
  have hall (c : Char) : Glob (fun _ ↦ true) p (fill 'a' p ++ [c]) :=
    h.of_infix hp (List.prefix_append _ _).isInfix
  rcases List.eq_nil_or_concat' p with rfl | ⟨q, d, rfl⟩
  · cases hall 'a'
  · by_contra hne
    have hs : d ≠ '*' := by
      rintro rfl
      exact hne ⟨q, rfl⟩
    have hq : d ≠ '?' := fun hd ↦ h.notMem_any hp (by simp [hd])
    have hd (c : Char) : d = c := by
      obtain ⟨x, y, he, -, hy⟩ := append_iff.mp (hall c)
      obtain rfl : y = [d] := (text_iff (by simp [hs, hq])).mp hy
      exact (List.cons.inj (List.append_inj' he rfl).2).1.symm
    exact absurd ((hd 'a').symm.trans (hd 'b')) (by decide)

/-- Between two texts a star would have to be for a newline. -/
theorem Exact.star_between (h : Exact p) (hp : Plain p) (hn : '\n' ∉ p)
    (he : p = q ++ '*' :: t) : fill 'a' q = [] ∨ fill 'a' t = [] := by
  have hq : '?' ∉ p := h.notMem_any hp
  have hall : Glob (fun _ ↦ true) p (fill 'a' q ++ '\n' :: fill 'a' t) := by
    rw [he]
    refine append_iff.mpr ⟨_, _, rfl, of_fill fun _ ↦ rfl, ?_⟩
    exact .star (x := ['\n']) (fun _ _ ↦ rfl) (of_fill fun _ ↦ rfl)
  obtain ⟨x, hx, hg⟩ := (matchString_iff hp).mp ((h _).mpr hall)
  have hle := hg.length_fill_le (d := 'a')
  have hlen : (fill 'a' p).length = (fill 'a' q).length + (fill 'a' t).length := by
    rw [he, fill_append, List.length_append]
    rfl
  rw [← List.length_eq_zero_iff, ← List.length_eq_zero_iff]
  rcases Marker.infix_or_of_notMem (hg.notMem_newline hn) hx with hx | hx
  · have := hx.length_le
    omega
  · have := hx.length_le
    omega

/-- Every pattern is stars, a text, and something that begins with a star. -/
theorem exists_parts (p : List Char) : ∃ i u t, p = List.replicate i '*' ++ (u ++ t) ∧
    (∀ c ∈ u, c ≠ '*') ∧ (u = [] → t = []) ∧ (t = [] ∨ ∃ q, t = '*' :: q) := by
  induction p with
  | nil => exact ⟨0, [], [], rfl, fun _ hc ↦ absurd hc List.not_mem_nil, fun _ ↦ rfl, .inl rfl⟩
  | cons c p ih =>
      obtain ⟨i, u, t, rfl, hu, hut, ht⟩ := ih
      by_cases hc : c = '*'
      · subst hc
        exact ⟨i + 1, u, t, rfl, hu, hut, ht⟩
      cases i with
      | zero =>
          refine ⟨0, c :: u, t, rfl, List.forall_mem_cons.mpr ⟨hc, hu⟩, ?_, ht⟩
          exact fun h ↦ absurd h (List.cons_ne_nil _ _)
      | succ i =>
          refine ⟨0, [c], List.replicate (i + 1) '*' ++ (u ++ t), rfl, ?_, ?_, .inr ⟨_, rfl⟩⟩
          · exact List.forall_mem_singleton.mpr hc
          · exact fun h ↦ absurd h (List.cons_ne_nil _ _)

theorem Exact.surrounded (h : Exact p) (hp : Plain p) (hn : '\n' ∉ p) : Surrounded p := by
  obtain ⟨i, u, t, he, hu, hut, ht⟩ := exists_parts p
  have hu' : ∀ c ∈ u, c ≠ '*' ∧ c ≠ '?' := by
    refine fun c hc ↦ ⟨hu c hc, ?_⟩
    rintro rfl
    exact h.notMem_any hp (by simp [he, hc])
  have hi : 0 < i := by
    obtain ⟨q, hq⟩ := h.star_first hp
    rcases Nat.eq_zero_or_pos i with rfl | hi
    · cases u with
      | nil =>
          rw [he, hut rfl] at hq
          cases hq
      | cons c u =>
          have hc : c = '*' := (List.cons.inj (he.symm.trans hq)).1
          exact absurd hc (hu c List.mem_cons_self)
    · exact hi
  rcases ht with rfl | ⟨q, rfl⟩
  · refine ⟨i, u, 0, he, hu', hi, .inl ?_⟩
    -- the last character would be no star
    obtain ⟨q, hq⟩ := h.star_last hp
    rcases List.eq_nil_or_concat' u with hu0 | ⟨v, c, rfl⟩
    · exact hu0
    · rw [he, List.append_nil, ← List.append_assoc] at hq
      have hc : c = '*' := (List.cons.inj (List.append_inj' hq rfl).2).1
      exact absurd hc (hu c (List.mem_append_right _ List.mem_cons_self))
  · have hne : u ≠ [] := fun hu0 ↦ List.cons_ne_nil _ _ (hut hu0)
    rw [← List.append_assoc] at he
    have hq : ∀ c ∈ q, c = '*' := by
      rw [← fill_eq_nil (d := 'a')]
      refine (h.star_between hp hn he).resolve_left fun hnil ↦ ?_
      obtain ⟨c, hc⟩ := List.exists_mem_of_ne_nil u hne
      exact hu c hc (fill_eq_nil.mp hnil c (List.mem_append_right _ hc))
    refine ⟨i, u, q.length + 1, ?_, hu', hi, .inr (Nat.succ_pos _)⟩
    rw [he, List.append_assoc, List.replicate_succ, ← List.eq_replicate_of_mem hq]

theorem plain_of_forall (h : ∀ c ∈ p, (c ∈ Regexp.operators → c = '?') ∧ c ≠ '\\' ∧ c ≠ '{') :
    Plain p := by
  intro c t ht
  obtain ⟨ho, he, hb⟩ := h c (ht.subset List.mem_cons_self)
  exact ⟨ho, he, fun hr ↦ hb hr.1⟩

end Glob

/-- **Include patterns.**  For a pattern that has no operators of regular expressions, `toRegexp`
makes an expression for the same names if the pattern is a text between stars; and without a
newline in it, only if it is that. -/
theorem toRegexp_exact_iff {p : List Char} (hp : Glob.Plain p) :
    (Glob.Surrounded p → Glob.Exact p) ∧ ('\n' ∉ p → Glob.Exact p → Glob.Surrounded p) :=
  ⟨fun h ↦ h.exact hp, fun hn h ↦ h.surrounded hp hn⟩

/-- The pattern `*a.b*` is exact, and `a.b` is not. -/
theorem toRegexp_exact_ab : Glob.Exact ['*', 'a', '.', 'b', '*'] ∧ ¬Glob.Exact ['a', '.', 'b'] := by
  have hne : ¬Glob.Surrounded ['a', '.', 'b'] := by
    rintro ⟨i, u, j, he, -, hi, -⟩
    obtain ⟨i, rfl⟩ := Nat.exists_eq_succ_of_ne_zero (Nat.ne_of_gt hi)
    exact absurd (List.cons.inj he).1 (by decide)
  constructor
  · refine (toRegexp_exact_iff (Glob.plain_of_forall (by simp [Regexp.operators]))).1 ?_
    exact ⟨1, ['a', '.', 'b'], 1, rfl, by simp, by decide, .inr (by decide)⟩
  · refine fun h ↦ hne ?_
    exact (toRegexp_exact_iff (Glob.plain_of_forall (by simp [Regexp.operators]))).2 (by decide) h

/-- The pattern `*.conf` includes the file `a.conf.bak`. -/
theorem toRegexp_conf_bak : ¬∀ p, Glob.Exact p := by
  intro h
  have hmatch : Regexp.matchString (toRegexp ['*', '.', 'c', 'o', 'n', 'f'])
      ['a', '.', 'c', 'o', 'n', 'f', '.', 'b', 'a', 'k'] = some true := by
    decide
  have hglob := (h _ _).mp hmatch
  rw [← List.singleton_append, Glob.append_iff] at hglob
  obtain ⟨x, y, he, -, hy⟩ := hglob
  obtain rfl := (Glob.text_iff (by simp)).mp hy
  have hsuffix : ['.', 'c', 'o', 'n', 'f'] <:+ ['a', '.', 'c', 'o', 'n', 'f', '.', 'b', 'a', 'k'] :=
    ⟨x, he.symm⟩
  exact absurd hsuffix (by decide)

end Supervisord
