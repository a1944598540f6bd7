import Supervisord.Events.Event
import Supervisord.Format.Stream

/-!
# What a listener program reads

A listener program reads the header up to the newline, takes the number behind the last colon, and
then reads that many bytes.  The bodies come out as they went in, whatever they look like.
-/

namespace Supervisord.Events

open Go

/-! ## The reader -/

/-- What stands before the first newline, and what follows it. -/
def readLine : Str → Option (Str × Str)
  | [] => none
  | b :: s => if b = 10 then some ([], s) else (readLine s).map fun (l, r) ↦ (b :: l, r)

/-- What stands behind the last colon. -/
def afterColon (line : Str) : Str := (line.reverse.takeWhile (· ≠ 58)).reverse

/-- The body of the first event. -/
def readEvent (s : Str) : Option (Str × Str) := do
  let (header, s) ← readLine s
  let n ← (afterColon header).digits
  if n ≤ s.length then some (s.take n, s.drop n) else none

theorem readLine_length_lt {s l r : Str} (h : readLine s = some (l, r)) :
    r.length < s.length := by
  induction s generalizing l r with
  | nil => cases h
  | cons b s ih =>
      rw [readLine] at h
      split at h
      · cases h
        exact Nat.lt_succ_self _
      · obtain ⟨⟨l', r'⟩, hs, he⟩ := Option.map_eq_some_iff.mp h
        cases he
        exact Nat.lt_succ_of_lt (ih hs)

theorem readLine_append {l r : Str} (h : 10 ∉ l) : readLine (l ++ 10 :: r) = some (l, r) := by
  induction l with
  | nil => rfl
  | cons b l ih =>
      have hb : b ≠ 10 := fun hb ↦ h (hb ▸ List.mem_cons_self)
      rw [List.cons_append, readLine, if_neg hb, ih fun hl ↦ h (List.mem_cons_of_mem b hl)]
      rfl

theorem afterColon_append {l ds : Str} (h : 58 ∉ ds) : afterColon (l ++ 58 :: ds) = ds := by
  have hds : ∀ b ∈ ds.reverse, decide (b ≠ 58) = true := by
    intro b hb
    exact decide_eq_true fun he ↦ h (he ▸ List.mem_reverse.mp hb)
  rw [afterColon, List.reverse_append, List.reverse_cons, List.append_assoc,
    List.takeWhile_append_of_pos hds, List.singleton_append, List.takeWhile_cons_of_neg (by decide),
    List.append_nil, List.reverse_reverse]

/-- The reader of a listener program. -/
def eventReader : Decoder UInt8 Str where
  next := readEvent
  length_lt := by
    intro s b r h
    simp only [readEvent, Option.bind_eq_bind, Option.bind_eq_some_iff] at h
    obtain ⟨⟨header, s'⟩, hs, n, -, h⟩ := h
    split at h
    · cases h
      have := readLine_length_lt hs
      simp only [List.length_drop]
      omega
    · cases h

/-! ## The round trip -/

variable {el : EventListener}

theorem Encoded.fields_eq (el : EventListener) (x : Encoded) : ∃ l, x.fields el = l ++ [58] :=
  ⟨_, (List.append_assoc _ (str " len") [58]).symm⟩

theorem notMem_itoa {n : Nat} {b : UInt8} (hb : Str.isDigit b = false) : b ∉ Str.itoa n := by
  intro h
  rw [Str.isDigit_of_mem_itoa b h] at hb
  cases hb

theorem Encoded.newline_notMem_fields {x : Encoded} (hs : 10 ∉ el.server) (hp : 10 ∉ el.pool)
    (ht : 10 ∉ x.event.getType) : 10 ∉ x.fields el := by
  have hn (n : Nat) : 10 ∉ Str.itoa n := notMem_itoa (by decide)
  simp only [Encoded.fields, eventSysVersion, List.mem_append, hs, hp, ht, hn, or_false]
  decide

theorem readEvent_bytes {x : Encoded} (hs : 10 ∉ el.server) (hp : 10 ∉ el.pool)
    (ht : 10 ∉ x.event.getType) (r : Str) :
    readEvent (x.bytes el ++ r) = some (x.event.getBody, r) := by
  have hline : 10 ∉ x.fields el ++ Str.itoa x.event.getBody.length := by
    rw [List.mem_append, not_or]
    exact ⟨x.newline_notMem_fields hs hp ht, notMem_itoa (by decide)⟩
  have hcolon : afterColon (x.fields el ++ Str.itoa x.event.getBody.length) =
      Str.itoa x.event.getBody.length := by
    obtain ⟨l, hl⟩ := x.fields_eq el
    rw [hl, List.append_assoc, List.singleton_append]
    exact afterColon_append (notMem_itoa (by decide))
  have hbytes : x.bytes el ++ r =
      (x.fields el ++ Str.itoa x.event.getBody.length) ++ 10 :: (x.event.getBody ++ r) := by
    rw [Encoded.bytes, List.append_assoc, List.append_assoc]
    rfl
  rw [hbytes, readEvent, readLine_append hline]
  simp [hcolon, Str.digits_itoa]

/-- **Framing.**  A listener program that reads lines and counts bytes gets the bodies of the
events back, whatever bytes are in them and whatever serials the pool has drawn. -/
theorem read_encodeEvent {xs : List (EventPoolSerial × Event)} (hs : 10 ∉ el.server)
    (hp : 10 ∉ el.pool) (ht : ∀ x ∈ xs, 10 ∉ x.2.getType) :
    eventReader.all (xs.flatMap fun x ↦ (el.encodeEvent x.1 x.2).1.bytes el) =
      some (xs.map (·.2.getBody)) :=
  Decoder.all_flatMap fun x hx r ↦
    readEvent_bytes (x := (el.encodeEvent x.1 x.2).1) hs hp (ht x hx) r

/-- A body that looks like a header, and an empty one. -/
theorem read_encodeEvent_header :
    eventReader.all ([(∅, newRemoteCommunicationEvent 1 (str "t") (str "ver:3.0 len:7\n")),
        (∅, createSupervisorStateChangeRunning 2)].flatMap fun x ↦
      ((⟨str "pool:mail", str "super:visor", 10⟩ : EventListener).encodeEvent x.1 x.2).1.bytes
        ⟨str "pool:mail", str "super:visor", 10⟩) = some [str "type:t\nver:3.0 len:7\n", []] :=
  read_encodeEvent (by decide) (by decide) (by decide)

end Supervisord.Events
