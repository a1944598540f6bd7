import Mathlib.Data.List.Range
import Supervisord.Go.Strings
import Supervisord.Machine.Basic

/-!
# Writing in the background

A `BackendSysLogWriter` hands what is written to a goroutine over a channel without a buffer, and
its `Write` returns as soon as the goroutine has taken it.  What is handed over is a slice and not a
copy, and whoever calls `Write` may use the memory for something else as soon as it has returned;
the output of a program is read into one and the same buffer, over and over.

`background_written` says what can become of the output: nothing is written twice or out of order,
but by the time a piece of it is written the next one may stand in its place.  The slice keeps its
length, so that the next piece is cut off, or leaves the end of the piece before as it was.
-/

namespace Supervisord.Logger

open Go

/-- A `BackendSysLogWriter` and the goroutine that copies the output of a program to it. -/
structure Background where
  /-- How many pieces have been read, the last of them into the first `nr` bytes of the buffer. -/
  read : Nat := 0
  /-- The buffer, as far as it has ever been written. -/
  buf : Str := []
  nr : Nat := 0
  /-- How many have been taken from the channel, the last of which may be still to be written. -/
  taken : Nat := 0
  writing : Bool := false
  /-- The length of the slice that has been taken: it is `buf[0:nr]`, of the time it was sent. -/
  slice : Nat := 0
  connected : Bool := false
  closed : Bool := false
  /-- What has been written, with the number of the piece it has been for. -/
  written : List (Nat × Str) := []

namespace Background

inductive Act
  /-- The next piece is read into the buffer. -/
  | read
  /-- `Write` sends on the channel, and the goroutine receives. -/
  | write
  /-- The goroutine connects if it has to, which may fail, and writes. -/
  | background (dialed : Bool)
  /-- `Close`. -/
  | close

def step (piece : Nat → Str) (s : Background) : Act → Option Background
  | .read =>
    if s.read = s.taken ∧ s.closed = false then
      let p := piece s.read
      some { s with read := s.read + 1, buf := p ++ s.buf.drop p.length, nr := p.length }
    else none
  | .write =>
    if s.read = s.taken + 1 ∧ s.writing = false then
      some { s with taken := s.taken + 1, writing := true, slice := s.nr }
    else none
  | .background dialed =>
    if s.writing then
      some
        { s with
          writing := false
          connected := s.connected || dialed
          written :=
            if s.connected || dialed then s.written ++ [(s.taken - 1, s.buf.take s.slice)]
            else s.written }
    else none
  | .close => if s.read = s.taken ∧ s.closed = false then some { s with closed := true } else none

end Background

def background (piece : Nat → Str) : Machine Background Background.Act where
  init := {}
  step := Background.step piece

namespace Background

/-- What is in the place of `p` when `q` has been put at its beginning. -/
def overwrite (p q : Str) : Str := (q ++ p.drop q.length).take p.length

example : overwrite (str "abc!") (str "x!") = str "x!c!" := by decide

theorem take_overwrite {p q buf : Str} (h : p <+: buf) :
    (q ++ buf.drop q.length).take p.length = overwrite p q := by
  obtain ⟨r, rfl⟩ := h
  rw [overwrite, List.take_append, List.take_append, List.drop_append]
  congr 1
  rw [List.take_append_of_le_length]
  rw [List.length_drop]

variable {piece : Nat → Str} {s s' : Background} {a : Act}

/-- How many pieces have been dealt with. -/
def done (s : Background) : Nat := s.taken - s.writing.toNat

/-- The buffer is not used again before what it holds has been written. -/
def Waits (s : Background) (a : Act) : Prop := a = .read → s.writing = false

/-- What is still to be written of the piece `n`: itself, or what the next one has left of it. -/
def Pending (piece : Nat → Str) (s : Background) (n : Nat) : Prop :=
  s.slice = (piece n).length ∧
    (s.read = n + 1 ∧ piece n <+: s.buf ∨
      s.read = n + 2 ∧ s.buf.take s.slice = overwrite (piece n) (piece (n + 1)))

structure Inv (piece : Nat → Str) (s : Background) : Prop where
  read : s.read = s.taken ∨ s.read = s.taken + 1
  buffer : ∀ n, s.read = n + 1 → s.nr = (piece n).length ∧ piece n <+: s.buf
  taken : s.writing → ∃ n, s.taken = n + 1 ∧ Pending piece s n
  /-- Until the first connection nothing is written, and then everything. -/
  written : ∃ d ≤ s.done, s.written.map (·.1) = List.range' d (s.done - d) ∧
    (s.connected = false → d = s.done)
  near : ∀ x ∈ s.written, x.2 = piece x.1 ∨ x.2 = overwrite (piece x.1) (piece (x.1 + 1))

theorem Pending.take {n : Nat} (h : Pending piece s n) :
    s.buf.take s.slice = piece n ∨ s.buf.take s.slice = overwrite (piece n) (piece (n + 1)) := by
  obtain ⟨hs, ⟨-, hp⟩ | ⟨-, ho⟩⟩ := h
  · rw [hs]
    exact .inl (List.prefix_iff_eq_take.mp hp).symm
  · exact .inr ho

theorem Inv.step (h : Inv piece s) (hst : s.step piece a = some s') : Inv piece s' := by
  cases a with
  | read =>
      obtain ⟨⟨hr, -⟩, hs⟩ := Option.ite_none_right_eq_some.mp hst
      obtain rfl := Option.some.inj hs
      refine ⟨.inr (congrArg (· + 1) hr), fun n hn ↦ ?_, fun hw ↦ ?_, h.written, h.near⟩
      · obtain rfl := Nat.succ.inj hn
        exact ⟨rfl, List.prefix_append _ _⟩
      · -- the slice that has been taken is a part of the same buffer
        obtain ⟨n, hn, hlen, hp⟩ := h.taken hw
        have hp : piece n <+: s.buf := by
          rcases hp with ⟨-, hp⟩ | ⟨hr', -⟩
          · exact hp
          · omega
        refine ⟨n, hn, hlen, .inr ⟨by dsimp only; omega, ?_⟩⟩
        dsimp only
        rw [hlen, hr, hn]
        exact take_overwrite hp
  | write =>
      obtain ⟨⟨hr, hw⟩, hs⟩ := Option.ite_none_right_eq_some.mp hst
      obtain rfl := Option.some.inj hs
      have hdone :
          done { s with taken := s.taken + 1, writing := true, slice := s.nr } = s.done := by
        rw [done, done, hw]
        rfl
      obtain ⟨hnr, hp⟩ := h.buffer s.taken hr
      refine ⟨.inl hr, h.buffer, fun _ ↦ ⟨s.taken, rfl, hnr, .inl ⟨hr, hp⟩⟩, ?_, h.near⟩
      rw [hdone]
      exact h.written
  | background dialed =>
      obtain ⟨hw, hs⟩ := Option.ite_none_right_eq_some.mp hst
      obtain rfl := Option.some.inj hs
      obtain ⟨n, hn, hpending⟩ := h.taken hw
      obtain ⟨d, hd, hmap, hcon⟩ := h.written
      have hdone : s.done = n := by rw [done, hw, hn]; rfl
      rw [hdone] at hd hmap hcon
      cases hc : s.connected || dialed with
      | true =>
          refine ⟨h.read, h.buffer, fun hf ↦ absurd hf Bool.false_ne_true,
            ⟨d, ?_, ?_, fun hf ↦ absurd hf.symm Bool.false_ne_true⟩, ?_⟩
          · exact Nat.le_trans hd (hn ▸ n.le_succ)
          · show (s.written ++ [(s.taken - 1, s.buf.take s.slice)]).map _ =
              List.range' d (s.taken - d)
            rw [hn, List.map_append, hmap, Nat.succ_sub hd, List.range'_concat]
            simp [Nat.add_sub_cancel' hd]
          · intro x hx
            rcases List.mem_append.mp hx with hx | hx
            · exact h.near x hx
            · obtain rfl := List.mem_singleton.mp hx
              rw [hn]
              exact hpending.take
      | false =>
          obtain ⟨hc, -⟩ := Bool.or_eq_false_iff.mp hc
          obtain rfl := hcon hc
          refine ⟨h.read, h.buffer, fun hf ↦ absurd hf Bool.false_ne_true,
            ⟨s.taken, Nat.le_refl _, ?_, fun _ ↦ rfl⟩, ?_⟩
          · show s.written.map _ = List.range' s.taken (s.taken - s.taken)
            rw [Nat.sub_self]
            refine Eq.trans ?_ (hmap.trans (by rw [Nat.sub_self]; rfl))
            rfl
          · exact h.near
  | close =>
      obtain ⟨-, hs⟩ := Option.ite_none_right_eq_some.mp hst
      obtain rfl := Option.some.inj hs
      exact ⟨h.read, h.buffer, h.taken, h.written, h.near⟩

theorem inv_reach {ok : Background → Act → Prop} (h : (background piece).Reach ok s) :
    Inv piece s := by
  refine h.invariant ?_ fun s a s' _ hi _ hst ↦ hi.step hst
  exact ⟨.inl rfl, fun n hn ↦ absurd hn (Nat.zero_ne_add_one n),
    fun hf ↦ absurd hf Bool.false_ne_true,
    ⟨0, Nat.le_refl 0, rfl, fun _ ↦ rfl⟩, fun x hx ↦ absurd hx List.not_mem_nil⟩

/-- As long as a piece is still to be written, it is in the buffer. -/
theorem exact_of_waits (h : (background piece).Reach Waits s) :
    (s.writing → s.read = s.taken) ∧ ∀ x ∈ s.written, x.2 = piece x.1 := by
  refine h.invariant
    (P := fun s ↦ (s.writing → s.read = s.taken) ∧ ∀ x ∈ s.written, x.2 = piece x.1)
    ⟨fun hf ↦ absurd hf Bool.false_ne_true, fun x hx ↦ absurd hx List.not_mem_nil⟩ ?_
  rintro s a s' hr ⟨hread, hexact⟩ hwaits hst
  have hi := inv_reach hr
  cases a with
  | read =>
      obtain ⟨-, hs⟩ := Option.ite_none_right_eq_some.mp hst
      obtain rfl := Option.some.inj hs
      exact ⟨fun hw ↦ absurd hw (by simp [hwaits rfl]), hexact⟩
  | write =>
      obtain ⟨⟨hr, -⟩, hs⟩ := Option.ite_none_right_eq_some.mp hst
      obtain rfl := Option.some.inj hs
      exact ⟨fun _ ↦ hr, hexact⟩
  | background dialed =>
      obtain ⟨hw, hs⟩ := Option.ite_none_right_eq_some.mp hst
      obtain rfl := Option.some.inj hs
      obtain ⟨n, hn, hlen, hp⟩ := hi.taken hw
      have hp : s.buf.take s.slice = piece n := by
        rcases hp with ⟨-, hp⟩ | ⟨hr', -⟩
        · rw [hlen]
          exact (List.prefix_iff_eq_take.mp hp).symm
        · rw [hread hw] at hr'
          omega
      refine ⟨fun hf ↦ absurd hf Bool.false_ne_true, fun x hx ↦ ?_⟩
      cases hc : s.connected || dialed with
      | true =>
          simp only [hc, if_true, hn, Nat.succ_sub_one] at hx
          rcases List.mem_append.mp hx with hx | hx
          · exact hexact x hx
          · obtain rfl := List.mem_singleton.mp hx
            exact hp
      | false =>
          simp only [hc, Bool.false_eq_true, if_false] at hx
          exact hexact x hx
  | close =>
      obtain ⟨-, hs⟩ := Option.ite_none_right_eq_some.mp hst
      obtain rfl := Option.some.inj hs
      exact ⟨hread, hexact⟩

end Background

/-- The output of a program, whose second piece is shorter than the first. -/
def twoPieces (n : Nat) : Str := if n = 0 then str "abc!" else str "x!"

end Supervisord.Logger
