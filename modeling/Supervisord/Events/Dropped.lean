import Supervisord.Events.Blocks
import Supervisord.Machine.Exact

/-!
# What is discarded

`findEndStr` discards the buffer when it is longer than `captureMaxBytes`.  What stands in it before
the begin token counts too, and so a block may be discarded before there is that much of it.
-/

namespace Supervisord.Events

open Go

namespace ProcCommEventCapture

variable {pec : ProcCommEventCapture} {j t : Str}

/-- In a call of `captureEvent`, `findEndStr` discards the buffer. -/
def discards (pec : ProcCommEventCapture) : Bool := pec.findBeginStr.any fun pec ↦
  decide (pec.eventBeginPos ≠ -1 ∧ pec.findEndStr.2.eventBeginPos = -1)

theorem eventBeginPos_of_free (hc : pec.Consistent) (hb : tokens.opening.Free pec.eventBuffer)
    {pec' : ProcCommEventCapture} (h : pec.findBeginStr = some pec') : pec'.eventBeginPos = -1 := by
  have hpos : indexInt pec.eventBuffer procCommonBeginStr = -1 := by
    rw [← opening_eq, indexInt_of_free hb]
  have hbegin : pec.eventBeginPos = -1 := by
    by_contra hne
    exact hne ((hc hne).trans hpos)
  rw [findBeginStr, if_pos hbegin, hpos] at h
  dsimp only at h
  by_cases hlen : (-1 : Int) = -1 ∧ procCommonBeginStr.length < pec.eventBuffer.length
  · rw [if_pos hlen] at h
    obtain ⟨y, -, h⟩ := Option.bind_eq_some_iff.mp h
    cases h
    rfl
  · rw [if_neg hlen] at h
    cases h
    rfl

theorem discards_of_free (hc : pec.Consistent) (hb : tokens.opening.Free pec.eventBuffer) :
    pec.discards = false := by
  rw [discards, Option.any_eq_false]
  exact fun pec' h ↦ decide_eq_false fun hne ↦ hne.1 (eventBeginPos_of_free hc hb h)

theorem discards_of_opened (hc : pec.Consistent)
    (hb : pec.eventBuffer = j ++ (tokens.opening.symbols ++ t)) (hj : tokens.opening.Free j) :
    pec.discards = true ↔
      tokens.closing.Free pec.eventBuffer ∧ pec.captureMaxBytes < pec.eventBuffer.length := by
  have hne (l : Str) : ¬(l.length : Int) = -1 := by omega
  rw [discards, findBeginStr_of_eq hc hb hj, Option.any_some, decide_eq_true_iff]
  rw [and_iff_right (hne j), findEndStr, if_neg (hne j)]
  dsimp only
  by_cases he : tokens.closing.Free pec.eventBuffer
  · rw [← closing_eq, indexInt_of_free he, and_iff_right he]
    by_cases hlt : pec.captureMaxBytes < pec.eventBuffer.length
    · rw [if_pos ⟨rfl, hlt⟩]
      exact iff_of_true rfl hlt
    · rw [if_neg fun h ↦ hlt h.2]
      exact iff_of_false (hne j) hlt
  · obtain ⟨a, s, hbuf, ha⟩ := Marker.exists_first he
    have hend : indexInt pec.eventBuffer procCommonEndStr = a.length := by
      rw [hbuf, ← closing_eq, indexInt_append ha]
    rw [hend, if_neg fun h ↦ hne a h.1]
    exact iff_of_false (hne j) fun h ↦ he h.1

end ProcCommEventCapture

/-! ## The loops of `startCapture` -/

/-- A capture, between two calls. -/
structure CaptureLoop where
  pec : ProcCommEventCapture
  /-- All that has been read, and how much of it was behind when the last event was taken or the
  buffer was discarded. -/
  received : Str := []
  passed : Nat := 0
  /-- In the inner loop. -/
  inner : Bool := false

namespace CaptureLoop

inductive Act where
  | read (chunk : Str)
  | captureEvent
  | setPid (pid : Int)

/-- The state after a call of `captureEvent`. -/
def called (s : CaptureLoop) (r : Option ProcCommEvent × ProcCommEventCapture) : CaptureLoop :=
  { s with
    pec := r.2
    passed :=
      if r.1.isSome then s.received.length - r.2.eventBuffer.length
      else if s.pec.discards then s.received.length
      else s.passed
    inner := r.1.isSome }

def step (s : CaptureLoop) : Act → Option CaptureLoop
  | .read chunk =>
    if s.inner = false ∧ chunk.length ≤ 10240 then
      some { s with pec := s.pec.append chunk, received := s.received ++ chunk, inner := true }
    else none
  | .captureEvent =>
    if s.inner then s.pec.captureEvent.map s.called else none
  | .setPid pid => some { s with pec := s.pec.setPid pid }

/-- How many bytes have been received since the begin token, without the first `c` bytes of the
token itself. -/
def since (c : Nat) (s : CaptureLoop) : Option Nat :=
  (Str.index (s.received.drop s.passed) procCommonBeginStr).map fun p ↦
    (s.received.drop s.passed).length - (p + c)

/-- How many bytes that are when the buffer is discarded. -/
def dropped (c : Nat) (s : CaptureLoop) : Act → List (Option Nat)
  | .captureEvent => if s.inner && s.pec.discards then [s.since c] else []
  | _ => []

/-- A call finds more than `n` bytes in the buffer, and no end token, only if there are more than
`n` of them since the begin token. -/
def Roomy (n : Int) (c : Nat) (s : CaptureLoop) : Act → Prop
  | .captureEvent => ∀ j t, s.pec.eventBuffer = j ++ (tokens.opening.symbols ++ t) →
      tokens.opening.Free j → tokens.closing.Free s.pec.eventBuffer →
      n < s.pec.eventBuffer.length → n < ((tokens.opening.symbols ++ t).length - c : Nat)
  | _ => True

/-! ## The buffer and the output -/

/-- The buffer is the end of what has come since the last event or discard, and no begin token
starts before it. -/
structure Holds (n : Int) (s : CaptureLoop) (d : Str) : Prop where
  consistent : s.pec.Consistent
  limit : s.pec.captureMaxBytes = n
  passed : s.passed ≤ s.received.length
  buffer : s.received.drop s.passed = d ++ s.pec.eventBuffer
  skips : tokens.opening.Skips d s.pec.eventBuffer
  kept : d = [] ∨ tokens.opening.symbols.length ≤ s.pec.eventBuffer.length + 1

variable {n : Int} {c : Nat} {s s' : CaptureLoop} {a : Act} {d j t : Str}

theorem Holds.received (h : Holds n s d) :
    s.received = s.received.take s.passed ++ (d ++ s.pec.eventBuffer) := by
  rw [← h.buffer, List.take_append_drop]

theorem Holds.free (h : Holds n s d) (hj : tokens.opening.Free j)
    (hb : s.pec.eventBuffer = j ++ t) : tokens.opening.Free (d ++ j) := by
  have := h.skips
  rw [hb] at this
  exact this.free_append hj

/-- The begin token in the buffer is the first one. -/
theorem Holds.since (h : Holds n s d) (hj : tokens.opening.Free j)
    (hb : s.pec.eventBuffer = j ++ (tokens.opening.symbols ++ t)) :
    s.since c = some ((tokens.opening.symbols ++ t).length - c) := by
  have hlive : s.received.drop s.passed = (d ++ j) ++ (tokens.opening.symbols ++ t) := by
    rw [h.buffer, hb, List.append_assoc]
  rw [CaptureLoop.since, hlive, ← opening_eq, Str.index_append (h.free hj hb), Option.map_some,
    List.length_append, Nat.add_sub_add_left]

theorem Holds.read (h : Holds n s d) (chunk : Str) :
    Holds n { s with
      pec := s.pec.append chunk, received := s.received ++ chunk, inner := true } d where
  consistent := h.consistent.append chunk
  limit := h.limit
  passed := by
    rw [List.length_append]
    exact Nat.le_add_right_of_le h.passed
  buffer := by
    show (s.received ++ chunk).drop s.passed = d ++ (s.pec.eventBuffer ++ chunk)
    rw [List.drop_append_of_le_length h.passed, h.buffer, List.append_assoc]
  skips := by
    rcases h.kept with rfl | hk
    · exact Marker.skips_nil _
    · exact h.skips.append hk chunk
  kept := by
    refine h.kept.imp_right fun hk ↦ ?_
    show _ ≤ (s.pec.eventBuffer ++ chunk).length + 1
    rw [List.length_append]
    omega

theorem called_of_wait (hd : s.pec.discards = false) (pec : ProcCommEventCapture) :
    s.called (none, pec) = { s with pec := pec, inner := false } := by
  rw [called, hd]
  rfl

theorem called_of_discard (hd : s.pec.discards = true) (pec : ProcCommEventCapture) :
    s.called (none, pec) = { s with pec := pec, passed := s.received.length, inner := false } := by
  rw [called, hd]
  rfl

/-- The buffer is cut. -/
theorem Holds.cut (h : Holds n s d) (hb : tokens.opening.Free s.pec.eventBuffer) {e y : Str}
    (hbuf : s.pec.eventBuffer = e ++ y) (hy : e = [] ∨ procCommonBeginStr.length ≤ y.length) :
    Holds n { s with
      pec := { s.pec with eventBuffer := y, eventBeginPos := -1 }, inner := false } (d ++ e) where
  consistent hne := absurd rfl hne
  limit := h.limit
  passed := h.passed
  buffer := by
    show s.received.drop s.passed = d ++ e ++ y
    rw [h.buffer, hbuf, List.append_assoc]
  skips := by
    have hfree := h.free hb (List.append_nil _).symm
    rw [hbuf, ← List.append_assoc] at hfree
    exact hfree.skips
  kept := by
    rcases hy with rfl | hy
    · have hk := h.kept
      rw [hbuf] at hk
      rw [List.append_nil]
      exact hk
    · rw [← opening_eq] at hy
      exact .inr (Nat.le_succ_of_le hy)

/-- The buffer is discarded. -/
theorem Holds.discard (h : Holds n s d) :
    Holds n { s with
      pec := { s.pec with eventBeginPos := -1, eventBuffer := [] }
      passed := s.received.length, inner := false } [] where
  consistent hne := absurd rfl hne
  limit := h.limit
  passed := Nat.le_refl _
  buffer := List.drop_length
  skips := Marker.skips_nil _
  kept := .inl rfl

/-- An event is taken. -/
theorem Holds.take (h : Holds n s d) {e r : Str} (hbuf : s.pec.eventBuffer = e ++ r) :
    Holds n { s with
      pec := { s.pec with eventBuffer := r, eventBeginPos := -1 }
      passed := s.received.length - r.length, inner := true } [] where
  consistent hne := absurd rfl hne
  limit := h.limit
  passed := Nat.sub_le _ _
  buffer := by
    show s.received.drop (s.received.length - r.length) = r
    rw [h.received, hbuf, ← List.append_assoc, ← List.append_assoc, List.length_append,
      Nat.add_sub_cancel_right, List.drop_left]
  skips := Marker.skips_nil _
  kept := .inl rfl

/-- A call of `captureEvent`. -/
theorem Holds.captureEvent (h : Holds n s d) (hst : s.step .captureEvent = some s') :
    ∃ d', Holds n s' d' := by
  rw [step] at hst
  by_cases hin : s.inner = true
  · rw [if_pos hin] at hst
    by_cases hb : tokens.opening.Free s.pec.eventBuffer
    · obtain ⟨e, y, hbuf, hy, hcap⟩ := ProcCommEventCapture.captureEvent_of_free h.consistent hb
      rw [hcap, Option.map_some,
        called_of_wait (ProcCommEventCapture.discards_of_free h.consistent hb)] at hst
      cases hst
      exact ⟨_, h.cut hb hbuf hy⟩
    obtain ⟨j, t, hbuf, hj⟩ := Marker.exists_first hb
    have hd := ProcCommEventCapture.discards_of_opened h.consistent hbuf hj
    by_cases he : tokens.closing.Free s.pec.eventBuffer
    · rw [ProcCommEventCapture.captureEvent_of_opened h.consistent hbuf hj he,
        Option.map_some] at hst
      rw [and_iff_right he] at hd
      by_cases hlt : s.pec.captureMaxBytes < s.pec.eventBuffer.length
      · rw [if_pos hlt, called_of_discard (hd.mpr hlt)] at hst
        cases hst
        exact ⟨_, h.discard⟩
      · rw [if_neg hlt, called_of_wait (Bool.eq_false_iff.mpr (mt hd.mp hlt))] at hst
        cases hst
        refine ⟨d, fun _ ↦ ?_, h.limit, h.passed, h.buffer, h.skips, h.kept⟩
        show (j.length : Int) = indexInt s.pec.eventBuffer procCommonBeginStr
        rw [hbuf, ← opening_eq, indexInt_append hj]
    · obtain ⟨e, r, hbuf', ha⟩ := Marker.exists_first he
      rw [ProcCommEventCapture.captureEvent_of_closed h.consistent hbuf hj hbuf' ha,
        Option.map_map] at hst
      obtain ⟨data, -, rfl⟩ := Option.map_eq_some_iff.mp hst
      exact ⟨_, h.take (e := e ++ tokens.closing.symbols) (by rw [hbuf', List.append_assoc])⟩
  · rw [if_neg hin] at hst
    cases hst

/-- **One step.** -/
theorem Holds.step (h : Holds n s d) (hst : s.step a = some s') : ∃ d', Holds n s' d' := by
  cases a with
  | read chunk =>
      rw [CaptureLoop.step] at hst
      by_cases hr : s.inner = false ∧ chunk.length ≤ 10240
      · rw [if_pos hr] at hst
        cases hst
        exact ⟨d, h.read chunk⟩
      · rw [if_neg hr] at hst
        cases hst
  | captureEvent => exact h.captureEvent hst
  | setPid pid =>
      cases hst
      exact ⟨d, h.consistent, h.limit, h.passed, h.buffer, h.skips, h.kept⟩

/-- **Exactly.** -/
theorem Holds.dropped_iff (h : Holds n s d) (hst : s.step a = some s') :
    (∀ k ∈ s.dropped c a, ∃ m : Nat, k = some m ∧ n < m) ↔ s.Roomy n c a := by
  cases a with
  | read chunk => exact iff_of_true (fun k hk ↦ absurd hk List.not_mem_nil) trivial
  | setPid pid => exact iff_of_true (fun k hk ↦ absurd hk List.not_mem_nil) trivial
  | captureEvent =>
      have hin : s.inner = true := by
        by_contra hin
        rw [CaptureLoop.step, if_neg hin] at hst
        cases hst
      rw [dropped, hin, Bool.true_and]
      by_cases hb : tokens.opening.Free s.pec.eventBuffer
      · rw [ProcCommEventCapture.discards_of_free h.consistent hb]
        refine iff_of_true (fun k hk ↦ absurd hk List.not_mem_nil) fun j t hbuf ↦ ?_
        exact absurd ⟨j, t, by rw [hbuf, List.append_assoc]⟩ hb
      obtain ⟨j, t, hbuf, hj⟩ := Marker.exists_first hb
      have hd := ProcCommEventCapture.discards_of_opened h.consistent hbuf hj
      rw [h.limit] at hd
      by_cases hdis : s.pec.discards = true
      · obtain ⟨he, hlt⟩ := hd.mp hdis
        rw [if_pos hdis, h.since hj hbuf, List.forall_mem_singleton]
        constructor
        · rintro ⟨m, hm, hlt'⟩ j' t' hbuf' hj' - -
          obtain ⟨rfl, rfl⟩ := Marker.unique hj hj' (hbuf.symm.trans hbuf')
          cases hm
          exact hlt'
        · exact fun hr ↦ ⟨_, rfl, hr j t hbuf hj he hlt⟩
      · rw [if_neg hdis]
        refine iff_of_true (fun k hk ↦ absurd hk List.not_mem_nil) fun j' t' hbuf' hj' he hlt ↦ ?_
        exact absurd (hd.mpr ⟨he, hlt⟩) hdis

end CaptureLoop

/-! ## Every run -/

/-- The capture that `NewProcCommEventCapture` starts, and how many bytes had been received since
the begin token whenever the buffer was discarded. -/
abbrev captureLoop (captureMaxBytes : Int) (stdType procName groupName : Str) (c : Nat) :
    Machine (CaptureLoop × List (Option Nat)) CaptureLoop.Act :=
  Machine.traced
    { init := { pec := newProcCommEventCapture captureMaxBytes stdType procName groupName }
      step := CaptureLoop.step } (CaptureLoop.dropped c)

/-- Whenever the buffer was discarded, more than `n` bytes had been received since a begin token. -/
def Oversized (n : Int) (w : CaptureLoop × List (Option Nat)) : Prop :=
  ∀ k ∈ w.2, ∃ m : Nat, k = some m ∧ n < m

variable {captureMaxBytes : Int} {stdType procName groupName : Str} {c : Nat}

theorem exists_holds {w : CaptureLoop × List (Option Nat)}
    (hw : (captureLoop captureMaxBytes stdType procName groupName c).Reachable w) :
    ∃ d, w.1.Holds captureMaxBytes d := by
  refine hw.fst.invariant (P := fun s ↦ ∃ d, s.Holds captureMaxBytes d) ?_ ?_
  · refine ⟨[], fun hne ↦ absurd rfl hne, rfl, Nat.le_refl 0, rfl, ?_, .inl rfl⟩
    exact Marker.skips_nil _
  · rintro s a s' - ⟨d, h⟩ - hst
    exact h.step hst

/-- **Only oversized captures.**  Along a run, the buffer is discarded only when more than
`captureMaxBytes` bytes have been received since the begin token, the first `c` bytes of the token
itself not counted, if and only if no call finds more than `captureMaxBytes` bytes in the buffer
while there are not that many since the token. -/
theorem oversized_along_iff {as : List CaptureLoop.Act} {w : CaptureLoop × List (Option Nat)}
    (h : (captureLoop captureMaxBytes stdType procName groupName c).exec
      (captureLoop captureMaxBytes stdType procName groupName c).init as = some w) :
    (captureLoop captureMaxBytes stdType procName groupName c).Along
        (Oversized captureMaxBytes) as ↔
      (captureLoop captureMaxBytes stdType procName groupName c).Meets
        (fun w ↦ w.1.Roomy captureMaxBytes c) as := by
  refine Machine.along_iff_meets (fun k hk ↦ absurd hk List.not_mem_nil) ?_ h
  intro w a w' hw hP hst
  obtain ⟨d, hd⟩ := exists_holds hw
  obtain ⟨s', hs', rfl⟩ := Machine.traced_step_eq_some.mp hst
  rw [Oversized, List.forall_mem_append]
  exact (and_iff_right hP).trans (hd.dropped_iff hs')

/-- A token, and then more than may follow it: with or without the token, that is too much. -/
theorem oversized_along_long :
    let as : List CaptureLoop.Act := [.read procCommonBeginStr, .captureEvent,
      .read (str "thirty-one bytes after the token"), .captureEvent]
    ∃ w, (captureLoop 30 (str "PROCESS_COMMUNICATION_STDOUT") (str "p") (str "g") 24).exec
        (captureLoop 30 (str "PROCESS_COMMUNICATION_STDOUT") (str "p") (str "g") 24).init as =
          some w ∧ w.2 = [some 32] ∧
      ((captureLoop 30 (str "PROCESS_COMMUNICATION_STDOUT") (str "p") (str "g") 24).Along
        (Oversized 30) as ↔
        (captureLoop 30 (str "PROCESS_COMMUNICATION_STDOUT") (str "p") (str "g") 24).Meets
          (fun w ↦ w.1.Roomy 30 24) as) := by
  intro as
  obtain ⟨w, hw, hk⟩ : ∃ w, (captureLoop 30 (str "PROCESS_COMMUNICATION_STDOUT") (str "p")
      (str "g") 24).exec (captureLoop 30 (str "PROCESS_COMMUNICATION_STDOUT") (str "p")
        (str "g") 24).init as = some w ∧ w.2 = [some 32] := ⟨_, rfl, by decide⟩
  exact ⟨w, hw, hk, oversized_along_iff hw⟩

/-- Twelve bytes of other output, and then the token: the twenty-four bytes of it are discarded. -/
theorem oversized_fails : ¬∀ (n : Int) (stdType procName groupName : Str),
    ∀ w, (captureLoop n stdType procName groupName 0).Reachable w → Oversized n w := by
  intro h
  obtain ⟨w, hw, hk⟩ := Machine.exists_reachable
    (m := captureLoop 30 (str "PROCESS_COMMUNICATION_STDOUT") (str "p") (str "g") 0)
    (fun w ↦ w.2 = [some 24])
    [.read (str "hello world " ++ procCommonBeginStr), .captureEvent] (by decide)
  obtain ⟨m, hm, hlt⟩ := h 30 _ _ _ w hw (some 24) (by
    rw [of_decide_eq_true hk]
    exact List.mem_cons_self)
  cases hm
  exact absurd hlt (by decide)

end Supervisord.Events
