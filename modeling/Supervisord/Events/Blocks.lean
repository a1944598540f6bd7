import Supervisord.Events.Capture
import Supervisord.Format.Stream
import Supervisord.Go.Index

/-!
# What is captured

The events are the blocks of what a program prints, however that is cut into reads: what is left of
the buffer, followed by what has not been read, always has the same blocks still to come.  A buffer
in which an end token stands before the first begin token makes the capture panic.
-/

namespace Supervisord.Events

open Go

/-! ## Tokens -/

/-- The tokens: both begin with the byte `<`, which they do not contain again. -/
def tokens : Framing UInt8 where
  opening := ⟨60, str "!--XSUPERVISOR:BEGIN-->", by decide⟩
  closing := ⟨60, str "!--XSUPERVISOR:END-->", by decide⟩
  first_eq := rfl
  not_prefix := by decide
  not_prefix' := by decide

theorem opening_eq : tokens.opening.symbols = procCommonBeginStr := by decide

theorem closing_eq : tokens.closing.symbols = procCommonEndStr := by decide

section Index

variable {m : Marker UInt8} {a s t : Str}

theorem indexInt_append (ha : m.Free a) :
    indexInt (a ++ (m.symbols ++ t)) m.symbols = a.length := by
  rw [indexInt, Str.index_append ha]
  rfl

theorem indexInt_of_free (hs : m.Free s) : indexInt s m.symbols = -1 := by
  rw [indexInt, Str.index_of_free hs]
  rfl

end Index

namespace ProcCommEventCapture

/-- A begin position that has been remembered is that of the first token. -/
def Consistent (pec : ProcCommEventCapture) : Prop :=
  pec.eventBeginPos ≠ -1 → pec.eventBeginPos = indexInt pec.eventBuffer procCommonBeginStr

variable {pec : ProcCommEventCapture} {a j s t : Str}

/-- No token has been found: the buffer is cut. -/
theorem captureEvent_of_free (hc : pec.Consistent) (hb : tokens.opening.Free pec.eventBuffer) :
    ∃ d y, pec.eventBuffer = d ++ y ∧ (d = [] ∨ procCommonBeginStr.length ≤ y.length) ∧
      pec.captureEvent = some (none, { pec with eventBuffer := y, eventBeginPos := -1 }) := by
  have hpos : indexInt pec.eventBuffer procCommonBeginStr = -1 := by
    rw [← opening_eq, indexInt_of_free hb]
  have hbegin : pec.eventBeginPos = -1 := by
    by_contra hne
    exact hne ((hc hne).trans hpos)
  have htake (y : Str) : takeEvent { pec with eventBuffer := y, eventBeginPos := -1 } =
      some (none, { pec with eventBuffer := y, eventBeginPos := -1 }) := rfl
  unfold captureEvent findBeginStr
  rw [if_pos hbegin, hpos]
  dsimp only
  split
  · rename_i h
    obtain ⟨-, hlen⟩ := h
    have hcut : slice pec.eventBuffer (pec.eventBuffer.length - procCommonBeginStr.length)
        pec.eventBuffer.length =
          some (pec.eventBuffer.drop (pec.eventBuffer.length - procCommonBeginStr.length)) := by
      rw [← Int.natCast_sub (Nat.le_of_lt hlen)]
      exact slice_to_end (Nat.sub_le _ _)
    refine ⟨pec.eventBuffer.take (pec.eventBuffer.length - procCommonBeginStr.length),
      pec.eventBuffer.drop (pec.eventBuffer.length - procCommonBeginStr.length),
      (List.take_append_drop _ _).symm, .inr ?_, ?_⟩
    · rw [List.length_drop]
      omega
    · rw [hcut]
      exact htake _
  · exact ⟨[], pec.eventBuffer, rfl, .inl rfl, htake _⟩

theorem findBeginStr_of_eq (hc : pec.Consistent)
    (hb : pec.eventBuffer = j ++ (tokens.opening.symbols ++ t)) (hj : tokens.opening.Free j) :
    pec.findBeginStr = some { pec with eventBeginPos := j.length } := by
  have hpos : indexInt pec.eventBuffer procCommonBeginStr = j.length := by
    rw [hb, ← opening_eq, indexInt_append hj]
  have hne : (j.length : Int) ≠ -1 := by omega
  unfold findBeginStr
  rw [hpos]
  split
  · rw [if_neg fun h ↦ hne h.1]
    rfl
  · rename_i h
    rw [← hpos, ← hc h]
    rfl

/-- The end has not been found: everything is kept, unless it is too much. -/
theorem captureEvent_of_opened (hc : pec.Consistent)
    (hb : pec.eventBuffer = j ++ (tokens.opening.symbols ++ t)) (hj : tokens.opening.Free j)
    (he : tokens.closing.Free pec.eventBuffer) :
    pec.captureEvent = some (none, if pec.captureMaxBytes < pec.eventBuffer.length then
      { pec with eventBeginPos := -1, eventBuffer := [] }
      else { pec with eventBeginPos := j.length }) := by
  have hend : indexInt pec.eventBuffer procCommonEndStr = -1 := by
    rw [← closing_eq, indexInt_of_free he]
  have hne : ¬(j.length : Int) = -1 := by omega
  rw [captureEvent, findBeginStr_of_eq hc hb hj, Option.bind_some, takeEvent, findEndStr,
    if_neg hne]
  dsimp only
  rw [hend]
  split
  · rename_i h
    rw [if_pos h.2]
    rfl
  · rename_i h
    rw [if_neg fun hlt ↦ h ⟨rfl, hlt⟩]
    rfl

/-- A block has been found. -/
theorem captureEvent_of_closed (hc : pec.Consistent)
    (hb : pec.eventBuffer = j ++ (tokens.opening.symbols ++ t)) (hj : tokens.opening.Free j)
    (he : pec.eventBuffer = a ++ (tokens.closing.symbols ++ s)) (ha : tokens.closing.Free a) :
    pec.captureEvent = (slice pec.eventBuffer (j.length + procCommonBeginStr.length) a.length).map
      fun data ↦ (some ⟨pec.stdType, pec.procName, pec.groupName, pec.pid, data⟩,
        { pec with eventBuffer := s, eventBeginPos := -1 }) := by
  have hend : indexInt pec.eventBuffer procCommonEndStr = a.length := by
    rw [he, ← closing_eq, indexInt_append ha]
  have hne (l : Str) : ¬(l.length : Int) = -1 := by omega
  have hrest : slice pec.eventBuffer (a.length + procCommonEndStr.length)
      pec.eventBuffer.length = some s := by
    refine slice_eq_some_iff.mpr ⟨a ++ procCommonEndStr, [], ?_, ?_, ?_⟩
    · rw [he, closing_eq, List.append_nil, List.append_assoc]
    · rw [List.length_append, Int.natCast_add]
    · rw [he, closing_eq, ← List.append_assoc, List.length_append, Int.natCast_add]
  have hfind : findEndStr { pec with eventBeginPos := j.length } =
      ((a.length : Int), { pec with eventBeginPos := (j.length : Int) }) := by
    rw [findEndStr, if_neg (hne j)]
    dsimp only
    rw [hend, if_neg fun h ↦ hne a h.1]
  rw [captureEvent, findBeginStr_of_eq hc hb hj, Option.bind_some, takeEvent, hfind]
  dsimp only
  rw [if_neg (hne a), hrest]
  cases slice pec.eventBuffer (j.length + procCommonBeginStr.length) a.length <;> rfl

/-! ## Chunks -/

/-- The event for a payload. -/
def event (pec : ProcCommEventCapture) (data : Str) : ProcCommEvent :=
  ⟨pec.stdType, pec.procName, pec.groupName, pec.pid, data⟩

/-- The blocks that are still to come, when `rest` has not been read. -/
structure Awaits (pec : ProcCommEventCapture) (rest : Str) (ps : List Str) : Prop where
  consistent : pec.Consistent
  framed : tokens.Framed (pec.eventBuffer ++ rest) ps
  fits : (pec.eventBuffer ++ rest).length ≤ pec.captureMaxBytes

variable {rest : Str} {ps : List Str}

/-- **One call.**  Either there is no complete block in the buffer, or the first block is taken. -/
theorem Awaits.captureEvent (h : pec.Awaits rest ps) :
    (∃ b pos, pec.captureEvent = some (none, { pec with eventBuffer := b, eventBeginPos := pos }) ∧
      Awaits { pec with eventBuffer := b, eventBeginPos := pos } rest ps ∧
      (tokens.opening.Free b ∨ tokens.closing.Free b)) ∨
    ∃ data ps' b pos, ps = data :: ps' ∧ pec.captureEvent =
        some (some (pec.event data), { pec with eventBuffer := b, eventBeginPos := pos }) ∧
      Awaits { pec with eventBuffer := b, eventBeginPos := pos } rest ps' := by
  obtain ⟨hc, hf, hfits⟩ := h
  have hlen := hfits
  rw [List.length_append] at hlen
  by_cases hb : tokens.opening.Free pec.eventBuffer
  · -- still looking for a begin token
    obtain ⟨d, y, hbuf, hdrop, hcap⟩ := captureEvent_of_free hc hb
    refine .inl ⟨y, -1, hcap, ⟨fun hne ↦ absurd rfl hne, ?_, ?_⟩, .inl ?_⟩
    · rcases hdrop with rfl | hy
      · rwa [hbuf] at hf
      · rw [hbuf] at hf hb
        refine hf.drop hb ?_
        rw [opening_eq]
        omega
    · rw [hbuf, List.length_append] at hlen
      show ((y ++ rest).length : Int) ≤ pec.captureMaxBytes
      rw [List.length_append]
      omega
    · rw [hbuf] at hb
      exact hb.of_infix (List.suffix_append d y).isInfix
  obtain ⟨j, t, hbuf, hj⟩ := Marker.exists_first hb
  by_cases he : tokens.closing.Free pec.eventBuffer
  · -- looking for the end token
    have hcap := captureEvent_of_opened hc hbuf hj he
    rw [if_neg (by omega)] at hcap
    refine .inl ⟨_, _, hcap, ⟨fun _ ↦ ?_, hf, hfits⟩, .inr he⟩
    show (j.length : Int) = indexInt pec.eventBuffer procCommonBeginStr
    rw [hbuf, ← opening_eq, indexInt_append hj]
  · obtain ⟨a, s, hbuf', ha⟩ := Marker.exists_first he
    have hwhole : pec.eventBuffer ++ rest = j ++ (tokens.opening.symbols ++ (t ++ rest)) := by
      rw [hbuf, List.append_assoc, List.append_assoc]
    have hwhole' : pec.eventBuffer ++ rest = a ++ (tokens.closing.symbols ++ (s ++ rest)) := by
      rw [hbuf', List.append_assoc, List.append_assoc]
    rw [hwhole] at hf
    obtain ⟨p, ps', rfl, rfl, hs⟩ := hf.closed hj (hwhole.symm.trans hwhole') ha
    have hdata : slice pec.eventBuffer (j.length + procCommonBeginStr.length)
        (j ++ (tokens.opening.symbols ++ p)).length = some p := by
      refine slice_eq_some_iff.mpr ⟨j ++ tokens.opening.symbols, tokens.closing.symbols ++ s, ?_,
        ?_, ?_⟩
      · rw [hbuf']
        simp only [List.append_assoc]
      · rw [opening_eq, List.length_append, Int.natCast_add]
      · rw [← List.append_assoc, List.length_append, Int.natCast_add]
    have hcap := captureEvent_of_closed hc hbuf hj hbuf' ha
    rw [hdata] at hcap
    refine .inr ⟨p, ps', s, -1, rfl, hcap, fun hne ↦ absurd rfl hne, hs, ?_⟩
    have hle : s.length ≤ pec.eventBuffer.length := by
      rw [hbuf', ← List.append_assoc, List.length_append]
      exact Nat.le_add_left _ _
    show ((s ++ rest).length : Int) ≤ pec.captureMaxBytes
    rw [List.length_append]
    omega

/-- **One read.**  All complete blocks of the buffer are taken. -/
theorem Awaits.drain (h : pec.Awaits rest ps) :
    ∃ ps₁ ps₂ b pos, ps = ps₁ ++ ps₂ ∧ pec.drain =
        some (ps₁.map pec.event, { pec with eventBuffer := b, eventBeginPos := pos }) ∧
      Awaits { pec with eventBuffer := b, eventBeginPos := pos } rest ps₂ ∧
      (tokens.opening.Free b ∨ tokens.closing.Free b) := by
  induction hn : pec.eventBuffer.length using Nat.strongRecOn generalizing pec ps with
  | ind n ih =>
      rcases h.captureEvent with ⟨b, pos, hcap, hb, hidle⟩ | ⟨data, ps', b, pos, rfl, hcap, hb⟩
      · exact ⟨[], ps, b, pos, rfl, drain_of_wait _ hcap, hb, hidle⟩
      · have hlt := length_captureEvent _ hcap
        rw [hn] at hlt
        obtain ⟨ps₁, ps₂, b', pos', rfl, hdrain, hb', hidle⟩ := ih _ hlt hb rfl
        refine ⟨data :: ps₁, ps₂, b', pos', rfl, ?_, hb', hidle⟩
        rw [drain_of_event _ hcap, hdrain]
        rfl

theorem Consistent.append (hc : pec.Consistent) (chunk : Str) : (pec.append chunk).Consistent := by
  intro hne
  have hpos := hc hne
  have hb : ¬tokens.opening.Free pec.eventBuffer := by
    intro hb
    rw [← opening_eq, indexInt_of_free hb] at hpos
    exact hne hpos
  obtain ⟨j, t, hbuf, hj⟩ := Marker.exists_first hb
  rw [hbuf, ← opening_eq, indexInt_append hj] at hpos
  show pec.eventBeginPos = indexInt (pec.eventBuffer ++ chunk) procCommonBeginStr
  rw [hpos, hbuf, List.append_assoc, List.append_assoc, ← opening_eq, indexInt_append hj]

theorem Awaits.append {chunk : Str} (h : pec.Awaits (chunk ++ rest) ps) :
    (pec.append chunk).Awaits rest ps := by
  obtain ⟨hc, hf, hfits⟩ := h
  rw [← List.append_assoc] at hf hfits
  exact ⟨hc.append chunk, hf, hfits⟩

theorem startCapture_cons (chunk : Str) (chunks : List Str) :
    pec.startCapture (chunk :: chunks) = (pec.append chunk).drain.bind fun r ↦
      (r.2.startCapture chunks).map fun r' ↦ (r.1 ++ r'.1, r'.2) := by
  rw [ProcCommEventCapture.startCapture]
  refine congrArg _ (funext fun r ↦ ?_)
  obtain ⟨events, pec'⟩ := r
  show (pec'.startCapture chunks).bind _ = _
  cases pec'.startCapture chunks <;> rfl

/-- **A run.** -/
theorem Awaits.startCapture {chunks : List Str} (h : pec.Awaits chunks.flatten ps)
    (hidle : tokens.opening.Free pec.eventBuffer ∨ tokens.closing.Free pec.eventBuffer) :
    ∃ pec', pec.startCapture chunks = some (ps.map pec.event, pec') := by
  induction chunks generalizing pec ps with
  | nil =>
      have hf := h.framed
      rw [List.flatten_nil, List.append_nil] at hf
      rw [hf.eq_nil hidle]
      exact ⟨pec, rfl⟩
  | cons chunk chunks ih =>
      rw [List.flatten_cons] at h
      obtain ⟨ps₁, ps₂, b, pos, rfl, hdrain, hb, hidle⟩ := h.append.drain
      obtain ⟨pec', hrun⟩ := ih hb hidle
      refine ⟨pec', ?_⟩
      rw [startCapture_cons, hdrain, Option.bind_some, hrun, List.map_append]
      rfl

end ProcCommEventCapture

/-- **Chunks.**  However the output of a process is cut into reads: when it is some complete blocks
among texts without tokens, and is not longer than the buffer may be, the events are the payloads of
the complete blocks, in order. -/
theorem startCapture_blocks {captureMaxBytes : Int} {stream : Str} {payloads : List Str}
    (h : tokens.Framed stream payloads) (hlen : stream.length ≤ captureMaxBytes)
    {chunks : List Str} (hchunks : chunks.flatten = stream) (stdType procName groupName : Str)
    (pid : Int) :
    ∃ pec, ((newProcCommEventCapture captureMaxBytes stdType procName groupName).setPid
      pid).startCapture chunks =
        some (payloads.map fun data ↦ ⟨stdType, procName, groupName, pid, data⟩, pec) := by
  subst hchunks
  refine ProcCommEventCapture.Awaits.startCapture ⟨fun hne ↦ absurd rfl hne, h, hlen⟩ (.inl ?_)
  exact Marker.free_nil

/-- Two blocks, one of them empty, the beginning of a third, and tokens that are cut in two. -/
theorem startCapture_blocks_two :
    ∃ pec, ((newProcCommEventCapture 200 (str "PROCESS_COMMUNICATION_STDOUT") (str "p")
      (str "g")).setPid 7).startCapture
        [str "x<!--XSUPERVISOR:BEG", str "IN-->one<!--XSUPERVISOR:END-->y<!--XSUPERVISOR:BEGIN-->",
          str "<!--XSUPERVISOR:END", str "--><!--XSUPERVISOR:BEGIN-->two"] =
      some ([⟨str "PROCESS_COMMUNICATION_STDOUT", str "p", str "g", 7, str "one"⟩,
        ⟨str "PROCESS_COMMUNICATION_STDOUT", str "p", str "g", 7, []⟩], pec) := by
  have hfree (m : Marker UInt8) (s : Str) (h : ¬m.symbols <:+: s) : m.Free s := h
  have h : tokens.Framed (str "x" ++ (tokens.opening.symbols ++ (str "one" ++
      (tokens.closing.symbols ++ (str "y" ++ (tokens.opening.symbols ++ ([] ++
        (tokens.closing.symbols ++ ([] ++ (tokens.opening.symbols ++ str "two"))))))))))
      [str "one", []] := by
    refine .block (hfree _ _ (by decide)) (hfree _ _ (by decide)) (hfree _ _ (by decide)) ?_
    refine .block (hfree _ _ (by decide)) (hfree _ _ (by decide)) (hfree _ _ (by decide)) ?_
    exact .incomplete (hfree _ _ (by decide)) (hfree _ _ (by decide)) (hfree _ _ (by decide))
  exact startCapture_blocks h (by decide +kernel) (by decide +kernel) _ _ _ 7

/-! ## Panics -/

/-- An end token stands before the first begin token. -/
def EndFirst (s : Str) : Prop :=
  ∃ j t, s = j ++ (tokens.opening.symbols ++ t) ∧ tokens.opening.Free j ∧ ¬tokens.closing.Free j

namespace ProcCommEventCapture

variable {pec : ProcCommEventCapture}

/-- A begin position that has been remembered stays the first one. -/
theorem Consistent.captureEvent {event : Option ProcCommEvent} {pec' : ProcCommEventCapture}
    (hc : pec.Consistent) (h : pec.captureEvent = some (event, pec')) : pec'.Consistent := by
  by_cases hb : tokens.opening.Free pec.eventBuffer
  · obtain ⟨d, y, -, -, hcap⟩ := captureEvent_of_free hc hb
    rw [hcap] at h
    cases h
    exact fun hne ↦ absurd rfl hne
  obtain ⟨j, t, hbuf, hj⟩ := Marker.exists_first hb
  by_cases he : tokens.closing.Free pec.eventBuffer
  · rw [captureEvent_of_opened hc hbuf hj he] at h
    cases h
    split
    · exact fun hne ↦ absurd rfl hne
    · intro _
      show (j.length : Int) = indexInt pec.eventBuffer procCommonBeginStr
      rw [hbuf, ← opening_eq, indexInt_append hj]
  · obtain ⟨a, s, hbuf', ha⟩ := Marker.exists_first he
    rw [captureEvent_of_closed hc hbuf hj hbuf' ha] at h
    obtain ⟨data, -, h⟩ := Option.map_eq_some_iff.mp h
    cases h
    exact fun hne ↦ absurd rfl hne

/-- **One call.**  The slices are in range unless the first end token stands before the first begin
token. -/
theorem captureEvent_eq_none_iff (hc : pec.Consistent) :
    pec.captureEvent = none ↔ EndFirst pec.eventBuffer := by
  by_cases hb : tokens.opening.Free pec.eventBuffer
  · obtain ⟨d, y, -, -, hcap⟩ := captureEvent_of_free hc hb
    rw [hcap]
    refine iff_of_false (Option.some_ne_none _) ?_
    rintro ⟨j, t, hbuf, -, -⟩
    exact hb ⟨j, t, by rw [hbuf, List.append_assoc]⟩
  obtain ⟨j, t, hbuf, hj⟩ := Marker.exists_first hb
  have hiff : EndFirst pec.eventBuffer ↔ ¬tokens.closing.Free j := by
    constructor
    · rintro ⟨j', t', hbuf', hj', he⟩
      obtain ⟨rfl, -⟩ := Marker.unique hj hj' (hbuf.symm.trans hbuf')
      exact he
    · exact fun he ↦ ⟨j, t, hbuf, hj, he⟩
  rw [hiff]
  by_cases he : tokens.closing.Free pec.eventBuffer
  · rw [captureEvent_of_opened hc hbuf hj he]
    refine iff_of_false (Option.some_ne_none _) (not_not_intro (he.of_infix ?_))
    rw [hbuf]
    exact (List.prefix_append _ _).isInfix
  · obtain ⟨a, s, hbuf', ha⟩ := Marker.exists_first he
    have hlen : procCommonBeginStr.length = 24 := by decide
    have hle : a.length ≤ pec.eventBuffer.length := by
      rw [hbuf', List.length_append]
      exact Nat.le_add_right _ _
    rw [captureEvent_of_closed hc hbuf hj hbuf' ha, Option.map_eq_none_iff, slice_eq_none_iff]
    constructor
    · intro hlt hej
      have het : ¬tokens.closing.Free t := by
        intro het
        exact he (hbuf ▸ Framing.closing_free_append hej het)
      obtain ⟨p, s', rfl, hp⟩ := Marker.exists_first het
      have hcut : (j ++ (tokens.opening.symbols ++ p)) ++ (tokens.closing.symbols ++ s') =
          a ++ (tokens.closing.symbols ++ s) := by
        rw [← hbuf', hbuf]
        simp only [List.append_assoc]
      obtain ⟨rfl, -⟩ := Marker.unique (Framing.closing_free_append hej hp) ha hcut
      rw [List.length_append, List.length_append, opening_eq] at hlt hle
      omega
    · intro hej
      obtain ⟨a', c, rfl, ha'⟩ := Marker.exists_first hej
      have hcut : a' ++ (tokens.closing.symbols ++ (c ++ (tokens.opening.symbols ++ t))) =
          a ++ (tokens.closing.symbols ++ s) := by
        rw [← hbuf', hbuf]
        simp only [List.append_assoc]
      obtain ⟨rfl, -⟩ := Marker.unique ha' ha hcut
      rw [List.length_append]
      omega

/-- The states in which the inner loop calls `captureEvent`. -/
def drainCalls (pec : ProcCommEventCapture) : List ProcCommEventCapture :=
  match h : pec.captureEvent with
  | some (some _, pec') =>
    have : pec'.eventBuffer.length < pec.eventBuffer.length := length_captureEvent _ h
    pec :: drainCalls pec'
  | _ => [pec]
termination_by pec.eventBuffer.length

/-- The states in which `captureEvent` is called. -/
def calls (pec : ProcCommEventCapture) : List Str → List ProcCommEventCapture
  | [] => []
  | chunk :: chunks => (pec.append chunk).drainCalls ++ match (pec.append chunk).drain with
    | some (_, pec) => calls pec chunks
    | none => []

theorem drainCalls_of_event {event : ProcCommEvent} {pec' : ProcCommEventCapture}
    (h : pec.captureEvent = some (some event, pec')) :
    pec.drainCalls = pec :: pec'.drainCalls := by
  rw [drainCalls]
  split
  · rename_i hn
    rw [h] at hn
    cases hn
    rfl
  · rename_i hn
    exact absurd h (hn event pec')

theorem drainCalls_of_ne (h : ∀ event pec', pec.captureEvent ≠ some (some event, pec')) :
    pec.drainCalls = [pec] := by
  rw [drainCalls]
  split
  · rename_i hn
    exact absurd hn (h _ _)
  · rfl

/-- **One read.** -/
theorem drain_spec (hc : pec.Consistent) :
    (pec.drain = none ↔ ∃ pec' ∈ pec.drainCalls, EndFirst pec'.eventBuffer) ∧
      ∀ events pec', pec.drain = some (events, pec') → pec'.Consistent := by
  induction hn : pec.eventBuffer.length using Nat.strongRecOn generalizing pec with
  | ind n ih =>
      have hnone := captureEvent_eq_none_iff hc
      cases hcap : pec.captureEvent with
      | none =>
          rw [drain_of_none _ hcap, drainCalls_of_ne (by rw [hcap]; exact fun _ _ h ↦ nomatch h)]
          refine ⟨iff_of_true rfl ⟨pec, List.mem_cons_self, hnone.mp hcap⟩, ?_⟩
          exact fun _ _ h ↦ nomatch h
      | some r =>
          obtain ⟨event, pec'⟩ := r
          have hin : ¬EndFirst pec.eventBuffer := by
            rw [← hnone, hcap]
            exact Option.some_ne_none _
          have hc' := hc.captureEvent hcap
          cases event with
          | none =>
              rw [drain_of_wait _ hcap,
                drainCalls_of_ne (by rw [hcap]; exact fun _ _ h ↦ nomatch h)]
              constructor
              · refine iff_of_false (Option.some_ne_none _) ?_
                rintro ⟨pec', hmem, he⟩
                rw [List.mem_singleton.mp hmem] at he
                exact hin he
              · rintro events pec'' h
                cases h
                exact hc'
          | some event =>
              have hlt := length_captureEvent _ hcap
              rw [hn] at hlt
              obtain ⟨hiff, hcons⟩ := ih _ hlt hc' rfl
              rw [drain_of_event _ hcap, drainCalls_of_event hcap, Option.map_eq_none_iff, hiff]
              constructor
              · rw [List.exists_mem_cons_iff, or_iff_right hin]
              · intro events pec'' h
                obtain ⟨⟨events', _⟩, hd, he⟩ := Option.map_eq_some_iff.mp h
                cases he
                exact hcons events' _ hd

/-- **A run.** -/
theorem Consistent.startCapture_iff (hc : pec.Consistent) {chunks : List Str} :
    (∃ r, pec.startCapture chunks = some r) ↔
      ∀ pec' ∈ pec.calls chunks, ¬EndFirst pec'.eventBuffer := by
  induction chunks generalizing pec with
  | nil => exact iff_of_true ⟨_, rfl⟩ fun _ h ↦ absurd h List.not_mem_nil
  | cons chunk chunks ih =>
      obtain ⟨hiff, hcons⟩ := drain_spec (hc.append chunk)
      rw [startCapture_cons, calls]
      cases hd : (pec.append chunk).drain with
      | none =>
          obtain ⟨pec', hmem, he⟩ := hiff.mp hd
          refine iff_of_false ?_ fun h ↦ h pec' (List.mem_append_left _ hmem) he
          rintro ⟨r, ⟨⟩⟩
      | some r =>
          obtain ⟨events, pec'⟩ := r
          have hin : ∀ p ∈ (pec.append chunk).drainCalls, ¬EndFirst p.eventBuffer := by
            intro p hp he
            have := hiff.mpr ⟨p, hp, he⟩
            rw [hd] at this
            cases this
          rw [Option.bind_some, ← Option.isSome_iff_exists, Option.isSome_map,
            Option.isSome_iff_exists, ih (hcons events pec' hd)]
          simp only [List.mem_append]
          constructor
          · rintro h p (hp | hp)
            · exact hin p hp
            · exact h p hp
          · exact fun h p hp ↦ h p (.inr hp)

end ProcCommEventCapture

/-- **In range.**  The capture of a process panics exactly when it is called with a buffer in which
the first end token stands before the first begin token. -/
theorem startCapture_in_range_iff (captureMaxBytes : Int) (stdType procName groupName : Str)
    (pid : Int) (chunks : List Str) :
    let pec := (newProcCommEventCapture captureMaxBytes stdType procName groupName).setPid pid
    (∃ r, pec.startCapture chunks = some r) ↔
      ∀ pec' ∈ pec.calls chunks, ¬EndFirst pec'.eventBuffer :=
  ProcCommEventCapture.Consistent.startCapture_iff fun hne ↦ absurd rfl hne

/-- An end token outside of any block, and then a begin token. -/
theorem startCapture_out_of_range :
    (newProcCommEventCapture 10240 (str "PROCESS_COMMUNICATION_STDOUT") (str "p")
      (str "g")).startCapture [str "<!--XSUPERVISOR:END--><!--XSUPERVISOR:BEGIN-->"] = none := by
  have hcap : ((newProcCommEventCapture 10240 (str "PROCESS_COMMUNICATION_STDOUT") (str "p")
      (str "g")).append (str "<!--XSUPERVISOR:END--><!--XSUPERVISOR:BEGIN-->")).captureEvent =
        none := by decide +kernel
  rw [ProcCommEventCapture.startCapture, ProcCommEventCapture.drain_of_none _ hcap]
  rfl

end Supervisord.Events
