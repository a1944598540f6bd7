import Supervisord.Logger.Memory
import Supervisord.Logger.Bounds
import Supervisord.Machine.Exact

/-!
# Following a memory logger

A client calls `ReadTailLog` of a memory logger again and again, each time with the offset that it
has got from the call before.  The offset counts the entries that are in the ring, and once the ring
is full that number does not change any more, so that entries are missed.
-/

namespace Supervisord.Logger

open Go

namespace MemoryLogger

variable {ml : MemoryLogger} {offset length : Int64}

theorem toInt_entries (ml : MemoryLogger) :
    (Int64.ofNat (ml.logs.filterMap id).length).toInt = (ml.logs.filterMap id).length :=
  Int64.toInt_ofNat_of_lt (Nat.lt_of_le_of_lt (length_le_joinLogs ml.logs) ml.length_lt)

/-- There is no entry at the offset. -/
theorem readTailLog_behind (h : (ml.logs.filterMap id).length ≤ offset.toInt) :
    (ml.readTailLog offset length).result = some ⟨[], offset, true, none⟩ := by
  rw [readTailLog]
  dsimp only
  rw [if_pos (by rwa [Int64.le_iff_toInt_le, toInt_entries])]

/-- The entries from the offset on are asked for. -/
theorem readTailLog_rest (ho : 0 ≤ offset.toInt)
    (hlt : offset.toInt < (ml.logs.filterMap id).length)
    (hl : (ml.logs.filterMap id).length ≤ offset.toInt + length.toInt)
    (hw : offset.toInt + length.toInt < 2 ^ 63) :
    (ml.readTailLog offset length).result =
      some ⟨((ml.logs.filterMap id).drop offset.toInt.toNat).flatten,
        .ofNat (ml.logs.filterMap id).length, true, none⟩ := by
  have hlen := toInt_entries ml
  have hend : (cutEnd (.ofNat (ml.logs.filterMap id).length) offset length) =
      .ofNat (ml.logs.filterMap id).length := by
    have hsum : (offset + length).toInt = offset.toInt + length.toInt :=
      toInt_add_of_lt (by omega) hw
    rw [cutEnd]
    split_ifs with h
    · rfl
    · rw [Int64.lt_iff_toInt_lt] at h
      rw [← Int64.toInt_inj]
      omega
  rw [readTailLog]
  dsimp only
  rw [if_neg (by rw [Int64.le_iff_toInt_le, hlen]; exact Int.not_le.mpr hlt)]
  show (slice (ml.logs.filterMap id) offset.toInt (cutEnd _ offset length).toInt).map
    (fun data ↦ (⟨data.flatten, cutEnd _ offset length, decide (cutEnd _ offset length = _),
      none⟩ : Tail)) = _
  rw [hend, hlen, ← Int.toNat_of_nonneg ho, slice_to_end (by omega), Option.map_some,
    decide_eq_true rfl, Int.toNat_natCast]

/-- The end of what is asked for is beyond the 64-bit integers. -/
theorem readTailLog_wraps (hlt : offset.toInt < (ml.logs.filterMap id).length)
    (hw : 2 ^ 63 ≤ offset.toInt + length.toInt) : (ml.readTailLog offset length).result = none := by
  have hspec := @cutEnd_spec offset length _ _ (toInt_entries ml) hlt
  rw [readTailLog]
  dsimp only
  rw [if_neg (by rw [Int64.le_iff_toInt_le, toInt_entries]; exact Int.not_le.mpr hlt),
    Option.map_eq_none_iff, slice_eq_none_iff]
  show _ ∨ (cutEnd _ offset length).toInt < _ ∨ _ < (cutEnd _ offset length).toInt
  omega

end MemoryLogger

/-! ## Calls and writes -/

/-- A memory logger and a client that follows it. -/
structure Listening where
  ml : MemoryLogger
  /-- The offset of the next call, and the results of all calls so far. -/
  offset : Int64 := 0
  received : Str := []
  /-- All entries, and how many of them there were at the last call. -/
  written : List Str := []
  called : Nat := 0
  /-- A call has been a panic. -/
  panicked : Bool := false

namespace Listening

inductive Act where
  | write (p : Str)
  | tail (length : Int64)

/-- A call asks for `n` entries at least, and fewer than `n` have been written since the last
one. -/
def step (n : Int) (s : Listening) : Act → Option Listening
  | .write p =>
    if s.panicked then none
    else (s.ml.write p).map fun w ↦ { s with ml := w.2, written := s.written ++ [p] }
  | .tail length =>
    if s.panicked = false ∧ n ≤ length.toInt ∧ s.written.length < s.called + n then
      match (s.ml.readTailLog s.offset length).result with
      | none => some { s with panicked := true }
      | some t => some
          { s with
            offset := t.offset
            received := s.received ++ t.data
            called := s.written.length }
    else none

/-- The results are the entries that had been written at the last call. -/
def Complete (s : Listening) : Prop :=
  s.panicked = false ∧ s.received = (s.written.take s.called).flatten

/-- The entries that a call misses: the first of those that have been written since the last
call, as many as the ring has lost since it has been full, at the last call or later. -/
def missed (n : Int) (s : Listening) : List Str :=
  (s.written.take (s.written.length - n.toNat + min s.called n.toNat)).drop s.called

/-- The call misses only entries without a text; and where it finds any, their end is a 64-bit
integer. -/
def Lossless (n : Int) (s : Listening) : Act → Prop
  | .write _ => True
  | .tail length => (∀ p ∈ s.missed n, p = []) ∧
      (s.called < min s.written.length n.toNat → s.called + length.toInt < 2 ^ 63)

end Listening

/-- A client begins to follow a new memory logger. -/
def listening (n : Int) : Machine Listening Listening.Act where
  init := { ml := newMemoryLogger n }
  step := Listening.step n

/-! ## What the client has got -/

/-- The ring holds the newest entries, and the offset is the number of those that have been there
at the last call. -/
structure Listens (n : Int) (s : Listening) : Prop where
  logs : s.ml.logs = RingBuffer.holding n.toNat s.written
  called : s.called ≤ s.written.length
  offset : s.offset.toInt = min s.called n.toNat

namespace Listens

variable {n : Int} {s s' : Listening} {a : Listening.Act} {length : Int64}

theorem entries (h : Listens n s) :
    s.ml.logs.filterMap id = s.written.drop (s.written.length - n.toNat) := by
  rw [h.logs, RingBuffer.filterMap_holding]
  rfl

/-- **A call.**  It is a panic, or gives the entries that have not been missed. -/
theorem tail (h : Listens n s) (hn : 1 ≤ n) (hl : n ≤ length.toInt) :
    (s.called < min s.written.length n.toNat ∧ 2 ^ 63 ≤ s.called + length.toInt ∧
      (s.ml.readTailLog s.offset length).result = none) ∨
    (s.called < min s.written.length n.toNat → s.called + length.toInt < 2 ^ 63) ∧
      ∃ offset : Int64, offset.toInt = min s.written.length n.toNat ∧
        (s.ml.readTailLog s.offset length).result = some
          ⟨(s.written.drop (s.written.length - n.toNat + min s.called n.toNat)).flatten,
            offset, true, none⟩ := by
  have hoff := h.offset
  have hcalled := h.called
  have hlen : (s.ml.logs.filterMap id).length = min s.written.length n.toNat := by
    rw [h.entries, List.length_drop]
    omega
  rcases Nat.lt_or_ge s.called (min s.written.length n.toNat) with hlt | hge
  · rcases Int.lt_or_le (s.called + length.toInt) (2 ^ 63) with hw | hw
    · refine .inr ⟨fun _ ↦ hw, .ofNat (s.ml.logs.filterMap id).length, ?_, ?_⟩
      · rw [MemoryLogger.toInt_entries, hlen]
      · rw [MemoryLogger.readTailLog_rest (by omega) (by omega) (by omega) (by omega), hoff,
          Int.toNat_natCast, ← List.drop_drop, ← h.entries]
    · exact .inl ⟨hlt, hw, MemoryLogger.readTailLog_wraps (by omega) (by omega)⟩
  · refine .inr ⟨fun hlt ↦ absurd hlt (Nat.not_lt.mpr hge), s.offset, by omega, ?_⟩
    rw [MemoryLogger.readTailLog_behind (by omega), List.drop_eq_nil_of_le (by omega)]
    rfl

theorem of_write (h : Listens n s) (hn : 1 ≤ n) {p : Str} {w : Written × MemoryLogger}
    (hw : s.ml.write p = some w) :
    Listens n { s with ml := w.2, written := s.written ++ [p] } where
  logs := by
    have hpos : 0 < n.toNat := Int.pos_iff_toNat_pos.mp hn
    rw [(MemoryLogger.write_logs hw).2, h.logs]
    exact RingBuffer.put_holding hpos s.written p
  called := by
    show s.called ≤ (s.written ++ [p]).length
    rw [List.length_append]
    exact Nat.le_add_right_of_le h.called
  offset := h.offset

/-- **One step.** -/
theorem step (h : Listens n s) (hn : 1 ≤ n) (hst : s.step n a = some s') : Listens n s' := by
  cases a with
  | write p =>
      rw [Listening.step] at hst
      by_cases hp : s.panicked = true
      · rw [if_pos hp] at hst
        cases hst
      · rw [if_neg hp] at hst
        obtain ⟨w, hw, rfl⟩ := Option.map_eq_some_iff.mp hst
        exact h.of_write hn hw
  | tail length =>
      rw [Listening.step] at hst
      by_cases hcall : s.panicked = false ∧ n ≤ length.toInt ∧ s.written.length < s.called + n
      · rw [if_pos hcall] at hst
        rcases h.tail hn hcall.2.1 with ⟨-, -, ht⟩ | ⟨-, offset, hoff, ht⟩
        · rw [ht] at hst
          cases hst
          exact ⟨h.logs, h.called, h.offset⟩
        · rw [ht] at hst
          cases hst
          exact ⟨h.logs, Nat.le_refl _, hoff⟩
      · rw [if_neg hcall] at hst
        cases hst

/-- **Runs.** -/
theorem of_reachable (hn : 1 ≤ n) (h : (listening n).Reachable s) : Listens n s := by
  refine h.invariant ?_ fun _ _ _ _ hs _ hst ↦ hs.step hn hst
  exact ⟨RingBuffer.holding_nil.symm, Nat.le_refl 0, (Nat.zero_min _).symm ▸ rfl⟩

/-- What is missing is what has been missed. -/
theorem missing_iff (h : Listens n s) :
    (s.written.take s.called).flatten ++
        (s.written.drop (s.written.length - n.toNat + min s.called n.toNat)).flatten =
      s.written.flatten ↔ ∀ p ∈ s.missed n, p = [] := by
  have hle := h.called
  have hrest : s.written.drop s.called = s.missed n ++
      s.written.drop (s.written.length - n.toNat + min s.called n.toNat) := by
    rw [Listening.missed, ← List.drop_append_of_le_length (by rw [List.length_take]; omega),
      List.take_append_drop]
  have hall : s.written.flatten = (s.written.take s.called).flatten ++ ((s.missed n).flatten ++
      (s.written.drop (s.written.length - n.toNat + min s.called n.toNat)).flatten) := by
    rw [← List.flatten_append, ← hrest, ← List.flatten_append, List.take_append_drop]
  rw [hall, List.append_right_inj, List.self_eq_append_left, List.flatten_eq_nil_iff]

/-- **Exactly.**  A call keeps the results complete if and only if it misses nothing. -/
theorem complete_iff (h : Listens n s) (hn : 1 ≤ n) (hc : s.Complete)
    (hst : s.step n a = some s') : s'.Complete ↔ s.Lossless n a := by
  obtain ⟨hp, hrec⟩ := hc
  cases a with
  | write p =>
      rw [Listening.step, hp, if_neg Bool.false_ne_true] at hst
      obtain ⟨w, hw, rfl⟩ := Option.map_eq_some_iff.mp hst
      refine iff_of_true ⟨rfl, ?_⟩ trivial
      show s.received = ((s.written ++ [p]).take s.called).flatten
      rw [List.take_append_of_le_length h.called, hrec]
  | tail length =>
      rw [Listening.step] at hst
      by_cases hcall : s.panicked = false ∧ n ≤ length.toInt ∧ s.written.length < s.called + n
      · rw [if_pos hcall] at hst
        rcases h.tail hn hcall.2.1 with ⟨hlt, hw, ht⟩ | ⟨hw, offset, -, ht⟩
        · rw [ht] at hst
          cases hst
          refine iff_of_false (fun hc ↦ Bool.noConfusion hc.1) fun hok ↦ ?_
          exact Int.not_lt.mpr hw (hok.2 hlt)
        · rw [ht] at hst
          cases hst
          rw [Listening.Lossless, and_iff_left hw, ← h.missing_iff, ← hrec]
          refine (and_iff_right hp).trans ?_
          show _ = (s.written.take s.written.length).flatten ↔ _
          rw [List.take_length]
      · rw [if_neg hcall] at hst
        cases hst

end Listens

/-- **Every entry once.**  Along a run, the results are all that had been written at the last call
if and only if no call misses an entry that has a text, and none that finds an entry asks for an end
that is not a 64-bit integer. -/
theorem complete_along_iff {n : Int} (hn : 1 ≤ n) {as : List Listening.Act} {s : Listening}
    (h : (listening n).exec (listening n).init as = some s) :
    (listening n).Along Listening.Complete as ↔ (listening n).Meets (Listening.Lossless n) as := by
  refine Machine.along_iff_meets ⟨rfl, rfl⟩ (fun s a s' hs hc hst ↦ ?_) h
  exact (Listens.of_reachable hn hs).complete_iff hn hc hst

/-- Two cells, two entries, and a call after each of them. -/
theorem complete_along_two :
    let as : List Listening.Act := [.write (str "a"), .tail 2, .write (str "b"), .tail 3]
    ∃ s, (listening 2).exec (listening 2).init as = some s ∧ s.received = str "ab" ∧
      ((listening 2).Along Listening.Complete as ↔
        (listening 2).Meets (Listening.Lossless 2) as) := by
  intro as
  obtain ⟨s, hs, hrec⟩ : ∃ s, (listening 2).exec (listening 2).init as = some s ∧
      s.received = str "ab" := ⟨_, rfl, by decide⟩
  exact ⟨s, hs, hrec, complete_along_iff (by decide) hs⟩

/-- With two cells, the third entry is missed, and all that are written after it. -/
theorem complete_third_missed : ¬∀ n : Int, 1 ≤ n → ∀ s, (listening n).Reachable s →
    s.Complete := by
  intro h
  obtain ⟨s, hs, hp⟩ := Machine.exists_reachable (m := listening 2)
    (fun s ↦ s.received ≠ (s.written.take s.called).flatten)
    [.write (str "a"), .tail 2, .write (str "b"), .tail 2, .write (str "c"), .tail 2] (by decide)
  exact of_decide_eq_true hp (h 2 (by decide) s hs).2

end Supervisord.Logger
