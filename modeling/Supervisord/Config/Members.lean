import Supervisord.Config.Group
import Supervisord.Config.Table

/-!
# The members of the groups

The keys of the mapping `Load` leaves behind are the programs that the groups list and the names of
sections, whatever the processes are called (`groupOf_load`).
-/

namespace Supervisord

open Go

namespace ProcessGroup

variable {pg : ProcessGroup} {procName defGroup x : Str}

theorem groupOf_getGroup : (pg.getGroup procName defGroup).2.groupOf x =
    (pg.groupOf x).or (if x = procName then some defGroup else none) := by
  rw [getGroup]
  split
  · rename_i group hg
    by_cases hx : x = procName
    · subst hx
      rw [groupOf, hg]
      rfl
    · rw [if_neg hx, Option.or_none]
  · rename_i hg
    by_cases hx : x = procName
    · subst hx
      rw [if_pos rfl, groupOf, groupOf, hg, add, AList.lookup_insert]
      rfl
    · rw [if_neg hx, Option.or_none, groupOf, groupOf, add, AList.lookup_insert_ne hx]

theorem groupOf_remove : (pg.remove procName).groupOf x =
    if x = procName then none else pg.groupOf x := by
  by_cases hx : x = procName
  · subst hx
    rw [if_pos rfl, groupOf, remove, AList.lookup_erase]
  · rw [if_neg hx, groupOf, groupOf, remove, AList.lookup_erase_ne hx]

end ProcessGroup

namespace Config

/-- The program of a section, where `parseProgram` asks for its group. -/
def askedGroup (host : Host) (sec : Section) : Option Str :=
  (isProgramOrEventListener sec).bind fun kind ↦
    if 0 < numProcs host sec then some (sec.name.drop kind.length) else none

/-- The group `x` is mapped to, where the document has been read: the one that lists it, or its own
if it is the name of a section. -/
def keyGroup (host : Host) (c : Config) (file : Option Ini) (x : Str) : Option Str :=
  ((c.grouped file).programGroup.groupOf x).or
    (if x ∈ (setProgramDefaultParams (.loadFile file)).filterMap (askedGroup host) then some x
    else none)

variable {host : Host} {n : Nat} {c c' : Config} {x : Str} {l : List Str} {sec : Section}
  {file : Option Ini}

/-- The mapping is the one before, but that the programs in `l` have a group. -/
def Asks (c : Config) (l : List Str) (c' : Config) : Prop :=
  ∀ x, c'.programGroup.groupOf x =
    (c.programGroup.groupOf x).or (if x ∈ l then some x else none)

theorem Asks.refl (c : Config) : Asks c [] c := fun x ↦ by
  rw [if_neg List.not_mem_nil, Option.or_none]

theorem Asks.trans {l' : List Str} {c'' : Config} (h : Asks c l c') (h' : Asks c' l' c'') :
    Asks c (l ++ l') c'' := by
  intro x
  rw [h' x, h x, Option.or_assoc]
  by_cases hl : x ∈ l
  · rw [if_pos hl, if_pos (List.mem_append_left l' hl)]
    rfl
  · rw [if_neg hl, Option.none_or]
    by_cases hl' : x ∈ l'
    · rw [if_pos hl', if_pos (List.mem_append_right l hl')]
    · rw [if_neg hl', if_neg fun h ↦ (List.mem_append.mp h).elim hl hl']

theorem Asks.congr {l' : List Str} (h : Asks c l c') (hl : ∀ x, x ∈ l ↔ x ∈ l') :
    Asks c l' c' := by
  intro x
  rw [h x, if_congr (hl x) rfl rfl]

/-- A loop asks for the groups its rounds ask for. -/
theorem asks_foldlM {σ ι : Type} {f : σ → ι → Option σ} {C : σ → Config} {g : ι → List Str}
    (h : ∀ s i s', f s i = some s' → Asks (C s) (g i) (C s')) {is : List ι} {s s' : σ}
    (hs : is.foldlM f s = some s') : Asks (C s) (is.flatMap g) (C s') := by
  induction is generalizing s with
  | nil =>
      cases hs
      exact .refl _
  | cons i is ih =>
      obtain ⟨t, ht, hs⟩ := Option.bind_eq_some_iff.mp hs
      rw [List.flatMap_cons]
      exact (h s i t ht).trans (ih hs)

theorem asks_getGroup {programName : Str}
    (h : c'.programGroup = (c.programGroup.getGroup programName programName).2) :
    Asks c [programName] c' := by
  intro x
  rw [h, ProcessGroup.groupOf_getGroup]
  by_cases hx : x = programName
  · rw [if_pos hx, if_pos (List.mem_singleton.mpr hx), hx]
  · rw [if_neg hx, if_neg (mt List.mem_singleton.mp hx)]

theorem asks_parseProcess {kind programName originalProcName originalCmd : Str} {s s' : Parsing}
    {i : Nat}
    (h : parseProcess host n kind programName originalProcName originalCmd s i = some s') :
    Asks s.config [programName] s'.config := by
  obtain ⟨r, -, h⟩ := Option.bind_eq_some_iff.mp h
  cases r with
  | error e =>
      cases h
      exact asks_getGroup rfl
  | ok cmd =>
      obtain ⟨r, -, h⟩ := Option.bind_eq_some_iff.mp h
      cases r with
      | error e =>
          cases h
          exact asks_getGroup rfl
      | ok procName =>
          cases h
          -- the group is asked for once more with the entry
          have hfirst : Asks s.config [programName] { s.config with
              programGroup := (s.config.programGroup.getGroup programName programName).2 } :=
            asks_getGroup rfl
          refine (hfirst.trans (asks_getGroup rfl)).congr fun x ↦ ?_
          rw [List.mem_append, or_self]

theorem asks_parseProgramSection {s s' : Config × List Str}
    (h : parseProgramSection host n s sec = some s') :
    Asks s.1 (askedGroup host sec).toList s'.1 := by
  unfold parseProgramSection at h
  rw [askedGroup]
  cases hkind : isProgramOrEventListener sec with
  | none =>
      rw [hkind] at h
      cases h
      exact .refl _
  | some kind =>
      rw [hkind] at h
      obtain ⟨t, ht, rfl⟩ := Option.map_eq_some_iff.mp h
      refine (asks_foldlM (C := Parsing.config) (fun _ _ _ ↦ asks_parseProcess) ht).congr
        fun x ↦ ?_
      rw [List.mem_flatMap, Option.bind_some, Option.mem_toList]
      by_cases hN : 0 < numProcs host sec
      · rw [if_pos hN, Option.some_inj]
        constructor
        · rintro ⟨i, -, hx⟩
          exact (List.mem_singleton.mp hx).symm
        · rintro rfl
          exact ⟨1, List.mem_range'_1.mpr ⟨Nat.le_refl 1, by omega⟩, List.mem_cons_self⟩
      · rw [if_neg hN, Nat.eq_zero_of_not_pos hN]
        refine iff_of_false ?_ (Option.some_ne_none x).symm
        rintro ⟨i, hi, -⟩
        cases hi

theorem programGroup_foldl_parseOtherSection (c : Config) (ini : Ini) :
    (ini.foldl parseOtherSection c).programGroup = c.programGroup := by
  induction ini generalizing c with
  | nil => rfl
  | cons sec ini ih =>
      rw [List.foldl_cons, ih, parseOtherSection]
      split
      · rfl
      · rfl

/-- After `Load`, the keys are mapped to their groups. -/
theorem groupOf_load {r : Except Str (List Str)} (h : c.load host n file = some (c', r)) :
    c'.programGroup.groupOf x = c.keyGroup host file x := by
  obtain ⟨⟨c₁, loaded⟩, hparse, heq⟩ := Option.map_eq_some_iff.mp h
  obtain ⟨⟨c₂, loaded₂⟩, hprogram, heq₂⟩ := Option.map_eq_some_iff.mp hparse
  cases heq
  cases heq₂
  unfold parseProgram at hprogram
  have hasks := asks_foldlM (f := parseProgramSection host n) (C := Prod.fst)
    (fun _ _ _ ↦ asks_parseProgramSection) hprogram x
  rw [← List.filterMap_eq_flatMap_toList] at hasks
  rw [programGroup_foldl_parseOtherSection]
  exact hasks

end Config

end Supervisord
