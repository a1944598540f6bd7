import Mathlib.Data.Bool.AllAny
import Mathlib.Tactic.IntervalCases
import Supervisord.Format.Marker
import Supervisord.Go.Strings
import Supervisord.Process.Command

/-!
# Arguments

Which commands `parseCommand` cuts into given arguments: quoted ones, whatever stands between the
quotes, and bare ones, as long as no byte of a character is taken for a space.
-/

namespace Supervisord.Process.Command

open Go

variable {command sp w arg r : Str} {args : List Str} {b q : UInt8} {i : Nat}

/-! ## One argument -/

theorem skipSpace_eq (h : command.drop i = sp ++ b :: r) (hsp : ∀ b ∈ sp, isSpace b = true)
    (hb : isSpace b = false) : skipSpace command i = some (i + sp.length) := by
  rcases skipSpace_spec command i with ⟨-, hall⟩ | ⟨sp', b', r', hj, hd, hall, hb'⟩
  · have := hall b (h ▸ List.mem_append_right sp List.mem_cons_self)
    rw [hb] at this
    cases this
  · rw [h] at hd
    obtain ⟨rfl, -, -⟩ := List.stop_unique hsp hall hb (Bool.eq_false_iff.mpr hb') hd
    exact hj

theorem skipSpace_none (h : ∀ b ∈ command.drop i, isSpace b = true) :
    skipSpace command i = none := by
  rcases skipSpace_spec command i with ⟨hj, -⟩ | ⟨sp', b', r', -, hd, -, hb'⟩
  · exact hj
  · exact absurd (h b' (hd ▸ List.mem_append_right sp' List.mem_cons_self)) hb'

theorem cutArguments_nil (h : command.drop i = []) : cutArguments command i args = some args := by
  apply cutArguments_none
  apply skipSpace_none
  rw [h]
  exact fun b hb ↦ absurd hb List.not_mem_nil

theorem findChar_closing (hq : isQuote q = true) (harg : Quoted q arg)
    (h : command.drop i = arg ++ q :: r) : findChar command i q = some (i + arg.length) := by
  rcases findChar_spec h hq with ⟨body, r', he, hbody, hk⟩ | ⟨-, hno⟩
  · obtain ⟨rfl, -⟩ := harg.unique hbody (halt_closing hq) (halt_closing hq) he
    exact hk
  · exact absurd rfl (hno arg r harg)

/-! ## Quoted arguments -/

/-- An argument between quotes. -/
def quoted (q : UInt8) (arg : Str) : Str := q :: (arg ++ [q])

theorem appendArgument_quoted (hq : isQuote q = true) (arg : Str) (args : List Str) :
    appendArgument (quoted q arg) args = some (args ++ [arg]) := by
  have hcut : slice (quoted q arg) 1 ((quoted q arg).length - 1) = some arg := by
    refine slice_eq_some_iff.mpr ⟨[q], [q], rfl, rfl, ?_⟩
    simp only [quoted, List.length_cons, List.length_append, List.length_nil]
    omega
  simp only [appendArgument, quoted, List.getElem?_cons_zero, Option.bind_eq_bind,
    Option.bind_some, hq, if_true]
  rw [show slice (q :: (arg ++ [q])) 1 ((q :: (arg ++ [q])).length - 1) = some arg from hcut]
  rfl

theorem cutArguments_quoted (hq : isQuote q = true) (harg : Quoted q arg)
    (hsp : ∀ b ∈ sp, isSpace b = true) (h : command.drop i = sp ++ (quoted q arg ++ r)) :
    cutArguments command i args =
      cutArguments command (i + (sp ++ quoted q arg).length) (args ++ [arg]) := by
  have hj : skipSpace command i = some (i + sp.length) :=
    skipSpace_eq h hsp (Bool.eq_false_iff.mpr (isQuote_ne hq).2)
  have hd := drop_append h
  obtain ⟨hi, -, hd'⟩ := drop_eq_cons (r := arg ++ [q] ++ r) hd
  rw [List.append_assoc] at hd'
  have hn : i + sp.length + 1 + arg.length + 1 = i + (sp ++ quoted q arg).length := by
    simp only [quoted, List.length_append, List.length_cons, List.length_nil]
    omega
  have hcut : cutArgument command (i + sp.length) (i + sp.length) args =
      some (args ++ [arg], i + (sp ++ quoted q arg).length) := by
    rw [cutArgument_quote (r := arg ++ [q] ++ r) hd hq, findChar_closing hq harg hd']
    show (do return (← appendArgument (← slice command _ _) args, _) :
      Option (List Str × Nat)) = _
    rw [append_slice hd (Nat.le_of_lt hi) ?_, appendArgument_quoted hq, hn]
    · rfl
    · simp only [quoted, List.length_append, List.length_cons, List.length_nil]
      omega
  rw [cutArguments_some hj, hcut, Option.bind_some]

/-- Arguments between quotes, with spaces before each of them. -/
theorem cutArguments_all_quoted (hq : isQuote q = true) (l : List (Str × Str))
    (hl : ∀ x ∈ l, (∀ b ∈ x.1, isSpace b = true) ∧ Quoted q x.2)
    (h : command.drop i = l.flatMap fun x ↦ x.1 ++ quoted q x.2) :
    cutArguments command i args = some (args ++ l.map (·.2)) := by
  induction l generalizing i args with
  | nil => rw [cutArguments_nil h, List.map_nil, List.append_nil]
  | cons x l ih =>
      have hl := List.forall_mem_cons.mp hl
      rw [List.flatMap_cons, List.append_assoc] at h
      have hd : command.drop (i + (x.1 ++ quoted q x.2).length) =
          l.flatMap fun x ↦ x.1 ++ quoted q x.2 := by
        apply drop_append
        rw [h, List.append_assoc]
      rw [cutArguments_quoted hq hl.1.2 hl.1.1 h, ih hl.2 hd, List.append_assoc]
      rfl

theorem parseCommand_of_cutArguments (h : cutArguments command 0 [] = some args)
    (hne : args ≠ []) : parseCommand command = some (.ok args) := by
  have hlen : ¬args.length ≤ 0 := fun hle ↦ hne (List.eq_nil_of_length_eq_zero (by omega))
  simp [parseCommand, h, hne]

/-- **Quoted arguments.**  Between quotes of one kind stands anything but this kind of quote and
the backslash, and between the arguments stand spaces. -/
theorem parseCommand_quoted (hq : isQuote q = true) (arg : Str) (args : List (Str × Str))
    (harg : q ∉ arg ∧ 92 ∉ arg)
    (hargs : ∀ x ∈ args, (x.1 ≠ [] ∧ ∀ b ∈ x.1, b = 32) ∧ q ∉ x.2 ∧ 92 ∉ x.2) :
    parseCommand (quoted q arg ++ args.flatMap fun x ↦ x.1 ++ quoted q x.2) =
      some (.ok (arg :: args.map (·.2))) := by
  have hfree {arg : Str} (h : q ∉ arg ∧ 92 ∉ arg) : Quoted q arg :=
    .of_forall fun b hb ↦ ⟨fun he ↦ h.2 (he ▸ hb), fun he ↦ h.1 (he ▸ hb)⟩
  apply parseCommand_of_cutArguments
  · refine cutArguments_all_quoted hq (([], arg) :: args) ?_ rfl
    have hfirst : ∀ b ∈ ([] : Str), isSpace b = true := fun b hb ↦ absurd hb List.not_mem_nil
    refine List.forall_mem_cons.mpr ⟨⟨hfirst, hfree harg⟩, fun x hx ↦ ⟨?_, ?_⟩⟩
    · intro b hb
      rw [(hargs x hx).1.2 b hb]
      rfl
    · exact hfree (hargs x hx).2
  · exact List.cons_ne_nil _ _

/-- An empty argument, and one with the other quote in it. -/
theorem parseCommand_quoted_two :
    parseCommand (str "\"\"  \"it's\"") = some (.ok [[], str "it's"]) := by
  have hspaces : ∀ b ∈ str "  ", b = 32 := List.all_iff_forall_prop.mp (by decide)
  exact parseCommand_quoted (q := 34) (by decide) [] [(str "  ", str "it's")] (by decide)
    (List.forall_mem_singleton.mpr ⟨⟨by decide, hspaces⟩, by decide⟩)

/-! ## Bare arguments -/

/-- An argument that needs no quotes. -/
def Word (w : Str) : Prop :=
  w ≠ [] ∧ ∀ b ∈ w, b ≠ 92 ∧ isQuote b = false ∧ isSpace b = false

theorem Word.plain (hw : Word w) : Plain w := by
  refine .of_forall fun b hb ↦ ?_
  obtain ⟨he, hq, hs⟩ := hw.2 b hb
  rw [hq, hs]
  exact ⟨he, Bool.false_ne_true⟩

theorem Word.appendArgument (hw : Word w) (args : List Str) :
    appendArgument w args = some (args ++ [w]) := by
  obtain ⟨hne, hw⟩ := hw
  obtain ⟨b, w, rfl⟩ := List.exists_cons_of_ne_nil hne
  obtain ⟨-, hq, -⟩ := hw b List.mem_cons_self
  simp [Command.appendArgument, hq]

/-- An argument goes up to the next space. -/
theorem Word.cutArguments (hw : Word w) (args : List Str) (hsp : ∀ b ∈ sp, isSpace b = true)
    (h : command.drop i = sp ++ (w ++ r)) :
    (r = [] → cutArguments command i args = some (args ++ [w])) ∧
    ∀ b r', r = b :: r' → isSpace b = true → cutArguments command i args =
      cutArguments command (i + (sp ++ (w ++ [b])).length) (args ++ [w]) := by
  have hd := drop_append h
  obtain ⟨c, w', rfl⟩ := List.exists_cons_of_ne_nil hw.1
  have hj : skipSpace command i = some (i + sp.length) :=
    skipSpace_eq h hsp (hw.2 c List.mem_cons_self).2.2
  obtain ⟨hi, -, -⟩ := drop_eq_cons hd
  have hcut {n k : Nat} (hn : n = i + sp.length + (c :: w').length) :
      (do return (← Command.appendArgument (← slice command (i + sp.length : Nat) n) args, k) :
        Option (List Str × Nat)) = some (args ++ [c :: w'], k) := by
    rw [append_slice hd (Nat.le_of_lt hi) hn, hw.appendArgument]
    rfl
  have hd' := drop_append hd
  rw [cutArguments_some hj, cutArgument_plain hw.plain hd]
  constructor
  · rintro rfl
    have hle := List.drop_eq_nil_iff.mp hd'
    have hlen := congrArg List.length hd
    rw [List.length_drop, List.append_nil] at hlen
    rw [cutArgument_end hle, hcut (by omega), Option.bind_some, cutArguments_length]
  · rintro b r' rfl hb
    rw [cutArgument_space hd' hb, hcut rfl, Option.bind_some]
    simp only [List.length_append, List.length_cons, List.length_nil, Nat.add_assoc]

theorem cutArguments_words (l : List Str) (hl : ∀ w ∈ l, Word w) (hne : l ≠ [])
    (h : command.drop i = [32].intercalate l) :
    cutArguments command i args = some (args ++ l) := by
  induction l generalizing i args with
  | nil => exact absurd rfl hne
  | cons w l ih =>
      have hl := List.forall_mem_cons.mp hl
      have hsp : ∀ b ∈ ([] : Str), isSpace b = true := fun b hb ↦ absurd hb List.not_mem_nil
      cases l with
      | nil =>
          rw [List.intercalate_singleton] at h
          exact (hl.1.cutArguments args hsp (h.trans (List.append_nil w).symm)).1 rfl
      | cons w' l =>
          rw [List.intercalate_cons_cons] at h
          have hd : command.drop i = w ++ 32 :: [32].intercalate (w' :: l) := by
            rw [h, List.append_assoc]
            rfl
          have hd' : command.drop (i + (w ++ [32]).length) = [32].intercalate (w' :: l) := by
            apply drop_append
            rw [hd, List.append_assoc]
            rfl
          have hw := (hl.1.cutArguments args hsp hd).2 _ _ rfl rfl
          rw [List.nil_append] at hw
          rw [hw, ih hl.2 (List.cons_ne_nil _ _) hd', List.append_assoc]
          rfl

/-- Without quotes and backslashes, no argument has a space in it. -/
theorem cutArguments_spaceless (hc : ∀ b ∈ command, b ≠ 92 ∧ isQuote b = false)
    (args : List Str) :
    ∃ l, cutArguments command i args = some (args ++ l) ∧ ∀ w ∈ l, Word w := by
  induction hn : command.length - i using Nat.strongRecOn generalizing i args with
  | ind n ih =>
      subst hn
      rcases List.exists_stop isSpace (command.drop i) with hall | ⟨sp, b, t, hd, hsp, hb⟩
      · refine ⟨[], ?_, fun w hw ↦ absurd hw List.not_mem_nil⟩
        rw [cutArguments_none (skipSpace_none hall), List.append_nil]
      have hword {w r : Str} (hne : w ≠ []) (hw : ∀ b ∈ w, (!isSpace b) = true)
          (he : command.drop i = sp ++ (w ++ r)) : Word w := by
        refine ⟨hne, fun b hb ↦ ?_⟩
        have hmem : b ∈ command := List.mem_of_mem_drop (he ▸
          List.mem_append_right sp (List.mem_append_left r hb))
        obtain ⟨hesc, hq⟩ := hc b hmem
        exact ⟨hesc, hq, by simpa using hw b hb⟩
      rcases List.exists_stop (fun b ↦ !isSpace b) (b :: t) with hall | ⟨w, c, r, he, hw, hc'⟩
      · have he := hd.trans (congrArg (sp ++ ·) (List.append_nil (b :: t)).symm)
        have hw := hword (List.cons_ne_nil b t) hall he
        exact ⟨[b :: t], (hw.cutArguments args hsp he).1 rfl, List.forall_mem_singleton.mpr hw⟩
      · have hne : w ≠ [] := by
          rintro rfl
          cases he
          rw [hb] at hc'
          cases hc'
        rw [he] at hd
        have hw := hword hne hw hd
        have hcut := (hw.cutArguments args hsp hd).2 c r rfl (by simpa using hc')
        have hlt : i < command.length := by
          by_contra hge
          rw [List.drop_eq_nil_of_le (Nat.not_lt.mp hge)] at hd
          simp at hd
        have hpos : 0 < w.length := List.length_pos_iff.mpr hne
        have hlen : command.length - (i + (sp ++ (w ++ [c])).length) < command.length - i := by
          rw [List.length_append, List.length_append]
          omega
        obtain ⟨l, hl, hall⟩ := ih _ hlen (args ++ [w]) rfl
        refine ⟨w :: l, ?_, List.forall_mem_cons.mpr ⟨hw, hall⟩⟩
        rw [hcut, hl, List.append_assoc]
        rfl

theorem mem_intercalate {ws : List Str} (h : b ∈ [32].intercalate ws) :
    b = 32 ∨ ∃ w ∈ ws, b ∈ w := by
  induction ws with
  | nil => cases h
  | cons w ws ih =>
      cases ws with
      | nil =>
          rw [List.intercalate_singleton] at h
          exact .inr ⟨w, List.mem_cons_self, h⟩
      | cons w' ws =>
          rw [List.intercalate_cons_cons, List.append_assoc, List.mem_append, List.mem_append,
            List.mem_singleton] at h
          rcases h with h | h | h
          · exact .inr ⟨w, List.mem_cons_self, h⟩
          · exact .inl h
          · rcases ih h with h | ⟨v, hv, h⟩
            · exact .inl h
            · exact .inr ⟨v, List.mem_cons_of_mem w hv, h⟩

/-- A text without spaces, quotes and backslashes. -/
def BareText (t : String) : Prop := t ≠ "" ∧ ∀ c ∈ t.toList,
  String.utf8EncodeChar c ∉ Str.spaces ∧ c.toNat ≠ 34 ∧ c.toNat ≠ 39 ∧ c.toNat ≠ 92

theorem isSpace_cases (h : isSpace b = true) :
    [b] ∈ Str.spaces ∨ b = 0x85 ∨ b = 0xa0 := by
  simp only [isSpace, Bool.or_eq_true, Bool.and_eq_true, decide_eq_true_iff,
    UInt8.le_iff_toNat_le] at h
  rcases h with ((⟨hlo, hhi⟩ | rfl) | rfl) | rfl
  · left
    have hlo : 9 ≤ b.toNat := hlo
    have hhi : b.toNat ≤ 13 := hhi
    rw [← UInt8.ofNat_toNat (x := b)]
    generalize b.toNat = n at hlo hhi
    interval_cases n
    all_goals decide
  · exact .inl (by decide)
  · exact .inr (.inl rfl)
  · exact .inr (.inr rfl)

theorem BareText.byte {t : String} (ht : BareText t) (hb : b ∈ str t) :
    (b ≠ 92 ∧ isQuote b = false) ∧ (isSpace b = true → b = 0x85 ∨ b = 0xa0) := by
  have hchar (hlt : b.toNat < 128) :
      [b] ∉ Str.spaces ∧ b.toNat ≠ 34 ∧ b.toNat ≠ 39 ∧ b.toNat ≠ 92 := by
    obtain ⟨c, hc, he, henc⟩ := exists_of_mem_str hb hlt
    rw [← henc, ← he]
    exact ht.2 c hc
  have hne {n : UInt8} (hn : n.toNat < 128) (h : b.toNat < 128 → b.toNat ≠ n.toNat) : b ≠ n := by
    rintro rfl
    exact h hn rfl
  refine ⟨⟨hne (by decide) fun h ↦ (hchar h).2.2.2, ?_⟩, fun hsp ↦ ?_⟩
  · simp only [isQuote, Bool.or_eq_false_iff, decide_eq_false_iff_not]
    exact ⟨hne (by decide) fun h ↦ (hchar h).2.1, hne (by decide) fun h ↦ (hchar h).2.2.1⟩
  · rcases isSpace_cases hsp with h | h
    · refine absurd h (hchar ?_).1
      have : ∀ w ∈ Str.spaces, ∀ b, w = [b] → b.toNat < 128 := by
        simp [Str.spaces]
      exact this [b] h b rfl
    · exact h

/-- **Bare arguments.**  Texts without spaces, quotes and backslashes, with a space between each
two of them, are cut apart again if and only if none of their bytes is one of the two that
`unicode.IsSpace` takes for a space. -/
theorem parseCommand_bare_iff (args : List String) (hne : args ≠ [])
    (hargs : ∀ t ∈ args, BareText t) :
    parseCommand ([32].intercalate (args.map str)) = some (.ok (args.map str)) ↔
      ∀ t ∈ args, 0x85 ∉ str t ∧ 0xa0 ∉ str t := by
  have hne' : args.map str ≠ [] := fun h ↦ hne (List.map_eq_nil_iff.mp h)
  constructor
  · intro h
    have hc : ∀ b ∈ [32].intercalate (args.map str), b ≠ 92 ∧ isQuote b = false := by
      intro b hb
      rcases mem_intercalate hb with rfl | ⟨w, hw, hb⟩
      · decide
      · obtain ⟨t, ht, rfl⟩ := List.mem_map.mp hw
        exact ((hargs t ht).byte hb).1
    obtain ⟨l, hl, hword⟩ := cutArguments_spaceless (i := 0) hc []
    obtain rfl : l = args.map str := by
      unfold parseCommand at h
      rw [hl] at h
      cases l with
      | nil => cases h
      | cons w l => exact Except.ok.inj (Option.some.inj h)
    intro t ht
    have hw := hword (str t) (List.mem_map_of_mem ht)
    constructor
    all_goals
      intro hm
      exact absurd (hw.2 _ hm).2.2 (by decide)
  · intro h
    apply parseCommand_of_cutArguments
    · refine cutArguments_words (args.map str) ?_ hne' rfl
      intro w hw
      obtain ⟨t, ht, rfl⟩ := List.mem_map.mp hw
      refine ⟨str_ne_nil (hargs t ht).1, fun b hb ↦ ?_⟩
      obtain ⟨⟨hesc, hq⟩, hsp⟩ := (hargs t ht).byte hb
      refine ⟨hesc, hq, Bool.eq_false_iff.mpr fun hs ↦ ?_⟩
      rcases hsp hs with rfl | rfl
      · exact (h t ht).1 hb
      · exact (h t ht).2 hb
    · exact hne'

/-- The second byte of a letter is taken for a space. -/
theorem parseCommand_letter_split : ¬∀ args : List String, args ≠ [] →
    (∀ t ∈ args, BareText t) →
      parseCommand ([32].intercalate (args.map str)) = some (.ok (args.map str)) := by
  intro h
  have hbare : ∀ t ∈ ["à"], BareText t := by
    intro t ht
    rw [List.mem_singleton.mp ht]
    exact ⟨by decide, List.all_iff_forall_prop.mp (by decide)⟩
  have hcut : cutArguments (str "à") 0 [] = some [[0xc3]] := by
    have hd : (str "à").drop 0 = [] ++ ([0xc3] ++ [0xa0]) := by decide
    have hw : Word [0xc3] := ⟨List.cons_ne_nil _ _, List.forall_mem_singleton.mpr (by decide)⟩
    rw [(hw.cutArguments _ (List.forall_mem_nil _) hd).2 0xa0 [] rfl (by decide)]
    exact cutArguments_nil (by decide)
  have hparse := parseCommand_of_cutArguments hcut (List.cons_ne_nil _ _)
  have hall := h ["à"] (List.cons_ne_nil _ _) hbare
  rw [show [32].intercalate (["à"].map str) = str "à" by decide, hparse] at hall
  exact absurd hall (by decide)

/-- A command with a letter none of whose bytes is taken for a space. -/
theorem parseCommand_bare_two :
    parseCommand ([32].intercalate (["/bin/echo", "é"].map str)) =
        some (.ok (["/bin/echo", "é"].map str)) ↔
      ∀ t ∈ ["/bin/echo", "é"], 0x85 ∉ str t ∧ 0xa0 ∉ str t := by
  refine parseCommand_bare_iff _ (List.cons_ne_nil _ _) fun t ht ↦ ?_
  rcases List.mem_pair.mp ht with rfl | rfl
  · exact ⟨by decide, List.all_iff_forall_prop.mp (by decide)⟩
  · exact ⟨by decide, List.all_iff_forall_prop.mp (by decide)⟩

end Supervisord.Process.Command
