import Supervisord.Config.Sort
import Supervisord.Config.Template
import Supervisord.Go.Spaces
import Supervisord.Go.Split
import Supervisord.Process.Streams

/-!
# Lists

Settings that list something separate the items by commas.  All readers but that of the exit codes
trim what they find between two commas: `readAlike_iff` states when spaces around the commas do not
matter.
-/

namespace Supervisord

open Go

namespace Entry

variable (e : Entry) (host : Host) (n : Nat)

/-- `getExitCodes`, of the process with this entry. -/
def getExitCodes : Option (List Int) :=
  (e.getString host n (str "exitcodes") (str "0,2")).map fun v ↦ (v.split 44).filterMap Str.atoi

/-- The events `setLog` registers a listener for. -/
def getEvents : Option (List Str) :=
  (e.getString host n (str "events") []).map fun v ↦ (v.split 44).map .trimSpace

end Entry

namespace Process

/-! ## Items and spaces -/

/-- The numbers of spaces before and after a comma. -/
structure Gap where
  before : Nat
  after : Nat

def space (n : Nat) : Str := List.replicate n 32

/-- A list of items as it is written. -/
def spaced : Str → List (Gap × Str) → Str
  | item, [] => item
  | item, (gap, next) :: rest =>
    item ++ (space gap.before ++ 44 :: (space gap.after ++ spaced next rest))

def items (item : Str) (rest : List (Gap × Str)) : List Str := item :: rest.map Prod.snd

/-- What is between the commas, with `n` spaces before it. -/
def pieces : Nat → Str → List (Gap × Str) → List Str
  | n, item, [] => [space n ++ item]
  | n, item, (gap, next) :: rest =>
    (space n ++ (item ++ space gap.before)) :: pieces gap.after next rest

/-- Each of the readers finds just the items.  For `depends_on` an item that is empty stands for no
program. -/
structure ReadAlike (item : Str) (rest : List (Gap × Str)) : Prop where
  programs : ∀ e : Entry, e.isGroup → e.keyValues (str "programs") = some (spaced item rest) →
    e.getPrograms = items item rest
  dependsOn : ∀ (α : Type) (entry : α → Entry) (p : ProcessSorter α) (config : α) (host : Host)
      (n : Nat), (entry config).isProgram → (entry config).hasParameter (str "depends_on") →
    (entry config).getString host n (str "depends_on") [] = some (spaced item rest) →
    p.initDepend host n entry config =
      some (p.setDependsOn (entry config).getProgramName ((items item rest).filter (· ≠ [])))
  logFiles : splitLogFile (spaced item rest) = items item rest
  events : ∀ (e : Entry) (host : Host) (n : Nat),
    e.getString host n (str "events") [] = some (spaced item rest) →
    e.getEvents host n = some (items item rest)
  exitCodes : ∀ codes, (items item rest).map Str.atoi = codes.map some →
    ∀ (e : Entry) (host : Host) (n : Nat),
      e.getString host n (str "exitcodes") (str "0,2") = some (spaced item rest) →
      e.getExitCodes host n = some codes

variable {item : Str} {rest : List (Gap × Str)} {n : Nat}

theorem notMem_space {b : UInt8} (h : b ≠ 32) (n : Nat) : b ∉ space n :=
  fun hm ↦ h (List.eq_of_mem_replicate hm)

theorem split_spaced (hfree : ∀ i ∈ items item rest, 44 ∉ i) (n : Nat) :
    (space n ++ spaced item rest).split 44 = pieces n item rest := by
  have hspace (n : Nat) : 44 ∉ space n := notMem_space (by decide) n
  induction rest generalizing item n with
  | nil =>
      refine Str.split_of_notMem ?_
      rw [List.mem_append, not_or]
      exact ⟨hspace n, hfree item List.mem_cons_self⟩
  | cons p rest ih =>
      obtain ⟨gap, next⟩ := p
      obtain ⟨hitem, hrest⟩ := List.forall_mem_cons.mp hfree
      have hpiece : 44 ∉ space n ++ (item ++ space gap.before) := by
        rw [List.mem_append, List.mem_append, not_or, not_or]
        exact ⟨hspace n, hitem, hspace gap.before⟩
      have htext : space n ++ spaced item ((gap, next) :: rest) =
          space n ++ (item ++ space gap.before) ++ 44 :: (space gap.after ++ spaced next rest) := by
        rw [spaced, List.append_assoc, List.append_assoc]
      rw [htext, Str.split_append_cons hpiece, ih hrest, pieces]

theorem split_spaced_zero (hfree : ∀ i ∈ items item rest, 44 ∉ i) :
    (spaced item rest).split 44 = pieces 0 item rest :=
  split_spaced hfree 0

theorem map_pieces (htrim : ∀ i ∈ items item rest, i.trimSpace = i) (n : Nat) :
    (pieces n item rest).map .trimSpace = items item rest := by
  induction rest generalizing item n with
  | nil =>
      have := Str.trimSpace_replicate (htrim item List.mem_cons_self) n 0
      rw [List.replicate_zero, List.append_nil] at this
      exact congrArg (List.cons · []) this
  | cons p rest ih =>
      obtain ⟨gap, next⟩ := p
      obtain ⟨hitem, hrest⟩ := List.forall_mem_cons.mp htrim
      exact congrArg₂ List.cons (Str.trimSpace_replicate hitem n gap.before) (ih hrest gap.after)

/-- The readers that trim find the items. -/
theorem map_split_spaced (hfree : ∀ i ∈ items item rest, 44 ∉ i)
    (htrim : ∀ i ∈ items item rest, i.trimSpace = i) :
    ((spaced item rest).split 44).map .trimSpace = items item rest := by
  rw [split_spaced_zero hfree, map_pieces htrim]

/-- No integer is read where a space is. -/
theorem space_of_atoi {s t : Str} (h : (Str.atoi (s ++ (space n ++ t))).isSome) : n = 0 := by
  obtain ⟨i, hi⟩ := Option.isSome_iff_exists.mp h
  rcases n with _ | n
  · rfl
  · have hmem : 32 ∈ s ++ (space (n + 1) ++ t) :=
      List.mem_append_right s (List.mem_append_left t List.mem_cons_self)
    rcases Str.isDigit_of_atoi hi 32 hmem with h | h | h
    all_goals exact absurd h (by decide)

theorem gap_of_atoi (h : ∀ s ∈ pieces n item rest, (Str.atoi s).isSome) :
    n = 0 ∧ ∀ p ∈ rest, p.1 = ⟨0, 0⟩ := by
  induction rest generalizing item n with
  | nil => exact ⟨space_of_atoi (s := []) (h _ List.mem_cons_self), List.forall_mem_nil _⟩
  | cons p rest ih =>
      obtain ⟨⟨before, after⟩, next⟩ := p
      obtain ⟨hpiece, hrest⟩ := List.forall_mem_cons.mp h
      obtain ⟨hafter, hgaps⟩ := ih hrest
      have hbefore : before = 0 := by
        refine space_of_atoi (s := space n ++ item) (t := []) ?_
        rwa [List.append_nil, List.append_assoc]
      refine ⟨space_of_atoi (s := []) hpiece, List.forall_mem_cons.mpr ⟨?_, hgaps⟩⟩
      rw [hbefore, show after = 0 from hafter]

/-- Without spaces around the commas the items are what is between them. -/
theorem pieces_of_gap (h : ∀ p ∈ rest, p.1 = ⟨0, 0⟩) : pieces 0 item rest = items item rest := by
  induction rest generalizing item with
  | nil => rfl
  | cons p rest ih =>
      obtain ⟨gap, next⟩ := p
      obtain ⟨hgap, hrest⟩ := List.forall_mem_cons.mp h
      obtain rfl : gap = ⟨0, 0⟩ := hgap
      exact congrArg₂ List.cons (List.append_nil item) (ih hrest)

theorem notMem_spaced {b : UInt8} (hspace : b ≠ 32) (hcomma : b ≠ 44)
    (h : ∀ i ∈ items item rest, b ∉ i) : b ∉ spaced item rest := by
  induction rest generalizing item with
  | nil => exact h item List.mem_cons_self
  | cons p rest ih =>
      obtain ⟨gap, next⟩ := p
      obtain ⟨hitem, hrest⟩ := List.forall_mem_cons.mp h
      rw [spaced, List.mem_append, List.mem_append, List.mem_cons, List.mem_append]
      rintro (hm | hm | hm | hm | hm)
      · exact hitem hm
      · exact notMem_space hspace _ hm
      · exact hcomma hm
      · exact notMem_space hspace _ hm
      · exact ih hrest hm

/-- An entry that holds one text. -/
def single (key text : Str) : Entry where
  configDir := []
  keyValues k := if k = key then some text else none

theorem getString_single {key text : Str} (h : 37 ∉ text) (defValue : Str) :
    (single key text).getString Host.bare 1 key defValue = some text := by
  have hkey : (single key text).keyValues key = some text := if_pos rfl
  rw [Entry.getString, hkey]
  dsimp only
  rw [StringExpression.eval, StringExpression.replace_eq_ok_none.mpr
    (StringExpression.noReference_of_notMem h)]
  rfl

/-- A list of integers with a space in it is read as another one. -/
theorem gap_of_readAlike (hfree : ∀ i ∈ items item rest, 44 ∉ i)
    (htrim : ∀ i ∈ items item rest, i.trimSpace = i) (h : ReadAlike item rest)
    (hint : ∀ i ∈ items item rest, (Str.atoi i).isSome) : ∀ p ∈ rest, p.1 = ⟨0, 0⟩ := by
  have hcodes : (items item rest).map Str.atoi =
      ((items item rest).filterMap Str.atoi).map some := by
    rw [List.map_filterMap_some_eq_filter_map_isSome,
      List.filter_eq_self.mpr (List.forall_mem_map.mpr hint)]
  have hpercent : 37 ∉ spaced item rest := by
    refine notMem_spaced (by decide) (by decide) fun i hi hm ↦ ?_
    obtain ⟨code, hcode⟩ := Option.isSome_iff_exists.mp (hint i hi)
    rcases Str.isDigit_of_atoi hcode 37 hm with h | h | h
    all_goals exact absurd h (by decide)
  have hget : (single (str "exitcodes") (spaced item rest)).getString Host.bare 1
      (str "exitcodes") (str "0,2") = some (spaced item rest) :=
    getString_single hpercent _
  have hread := h.exitCodes _ hcodes _ _ _ hget
  rw [Entry.getExitCodes, hget, Option.map_some, split_spaced_zero hfree, Option.some_inj] at hread
  -- as many codes as items are read, so that none of the pieces is left out
  have hlength : (pieces 0 item rest).length = (items item rest).length := by
    have := congrArg List.length (map_split_spaced hfree htrim)
    rwa [split_spaced_zero hfree, List.length_map] at this
  have hall : ∀ s ∈ pieces 0 item rest, (Str.atoi s).isSome := by
    rw [← List.filterMap_length_eq_length, hread, hlength]
    exact List.filterMap_length_eq_length.mpr hint
  exact (gap_of_atoi hall).2

/-- **Lists.**  The items of a list are what its reader finds, whatever spaces are around the
commas, if and only if there is none in a list of integers. -/
theorem readAlike_iff (hfree : ∀ i ∈ items item rest, 44 ∉ i)
    (htrim : ∀ i ∈ items item rest, i.trimSpace = i) :
    ReadAlike item rest ↔
      ((∀ i ∈ items item rest, (Str.atoi i).isSome) → ∀ p ∈ rest, p.1 = ⟨0, 0⟩) := by
  have hitems := map_split_spaced hfree htrim
  refine ⟨gap_of_readAlike hfree htrim, fun hgap ↦ ⟨?_, ?_, hitems, ?_, ?_⟩⟩
  · intro e hgroup hkey
    rw [Entry.getPrograms, if_pos hgroup, Entry.getStringArray, hkey]
    exact hitems
  · intro α entry p config host n hprogram hparameter hget
    rw [ProcessSorter.initDepend, if_pos (by rw [hprogram, hparameter]; rfl), hget,
      ← hitems]
    rfl
  · intro e host n hget
    rw [Entry.getEvents, hget, Option.map_some, hitems]
  · intro codes hcodes e host n hget
    have hint : ∀ i ∈ items item rest, (Str.atoi i).isSome := by
      intro i hi
      have hm := List.mem_map_of_mem (f := Str.atoi) hi
      rw [hcodes] at hm
      obtain ⟨code, -, hcode⟩ := List.mem_map.mp hm
      rw [← hcode]
      rfl
    have hread : (items item rest).filterMap Str.atoi = codes := by
      have := congrArg (List.filterMap id) hcodes
      rwa [List.filterMap_map, List.filterMap_map, Function.id_comp, Function.id_comp,
        List.filterMap_some] at this
    rw [Entry.getExitCodes, hget, Option.map_some, split_spaced_zero hfree,
      pieces_of_gap (hgap hint), hread]

/-- The statement for `B, C`, which are no exit codes. -/
theorem readAlike_programs : ReadAlike (str "B") [(⟨0, 1⟩, str "C")] := by
  refine (readAlike_iff (by decide) (by decide)).mpr fun h ↦ ?_
  exact absurd (h (str "B") List.mem_cons_self) (by decide)

/-- Of the exit codes in `0, 2` the second one is not read. -/
theorem readAlike_exitCodes : spaced (str "0") [(⟨0, 1⟩, str "2")] = str "0, 2" ∧
    (single (str "exitcodes") (str "0, 2")).getExitCodes Host.bare 1 = some [0] ∧
    ¬ReadAlike (str "0") [(⟨0, 1⟩, str "2")] := by
  have hcodes : (single (str "exitcodes") (str "0, 2")).getExitCodes Host.bare 1 = some [0] := rfl
  refine ⟨rfl, hcodes, fun h ↦ ?_⟩
  have hread := h.exitCodes [0, 2] (by decide) (single (str "exitcodes") (str "0, 2")) Host.bare 1
    rfl
  rw [hcodes] at hread
  exact absurd hread (by decide)

end Process

end Supervisord
