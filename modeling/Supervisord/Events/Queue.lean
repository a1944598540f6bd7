import Supervisord.Events.Delivery
import Supervisord.Machine.Exact

/-!
# How long the queue gets

`HandleEvent` queues an event while there are no more than `bufferSize` of them, and so there may be
one more than that when it discards the next.
-/

namespace Supervisord.Events

namespace Sys

variable (el : EventListener) (s : Sys)

/-- How many events are queued when a step discards one. -/
def discards : Act → List Nat
  | .handle t => match s.handlers t with
    | .lock _ => if s.room el then [] else [s.events.length]
    | _ => []
  | _ => []

/-- The step is that of `HandleEvent` which queues or discards its event. -/
def Queues (a : Act) : Prop := ∃ t x, a = .handle t ∧ s.handlers t = .lock x

variable {el s} {s' : Sys} {a : Act} {r : Answer} {t : Tid} {x : Encoded}

/-! ## One step -/

theorem Turn.events {l : List (Outbox.Label Encoded)} (h : s.Turn l s') :
    s'.events = s.events ∨ s'.events = s.events.tail := by
  cases h with
  | removed hp => exact .inr rfl
  | within hp hf => exact .inl rfl
  | ready hp => exact .inl rfl
  | peek hp hq => exact .inl rfl
  | written hp => exact .inl rfl
  | failed hp => exact .inl rfl
  | result hp hq hf => exact .inl rfl
  | unreadable hp => exact .inl rfl
  | quit hq hf => exact .inl rfl

theorem discards_lock (h : s.handlers t = .lock x) :
    s.discards el (.handle t) = if s.room el then [] else [s.events.length] := by
  rw [discards, h]

theorem discards_of_not_queues (h : ¬s.Queues a) : s.discards el a = [] := by
  cases a with
  | handle t =>
      rw [discards]
      cases hp : s.handlers t with
      | idle => rfl
      | encodeEvent event => rfl
      | lock x => exact absurd ⟨t, x, rfl, hp⟩ h
  | call t event => rfl
  | deliver r => rfl
  | stop => rfl
  | draw pool => rfl

/-- The event is queued if there is room for it. -/
theorem step_lock (h : s.handlers t = .lock x) (hst : s.step el (.handle t) = some s') :
    s'.events = if s.room el then s.events ++ [x] else s.events := by
  rw [step, handleStep, h] at hst
  dsimp only at hst
  by_cases hroom : s.room el = true
  · rw [if_pos hroom] at hst ⊢
    cases hst
    rfl
  · rw [if_neg hroom] at hst ⊢
    cases hst
    rfl

/-- The other steps queue nothing. -/
theorem step_of_not_queues (h : ¬s.Queues a) (hst : s.step el a = some s') :
    s'.events = s.events ∨ s'.events = s.events.tail := by
  cases a with
  | handle t =>
      rw [step, handleStep] at hst
      cases hp : s.handlers t with
      | idle =>
          rw [hp] at hst
          cases hst
      | encodeEvent event =>
          rw [hp] at hst
          cases hst
          exact .inl rfl
      | lock x => exact absurd ⟨t, x, rfl, hp⟩ h
  | call t event =>
      rw [step] at hst
      by_cases hidle : s.handlers t = .idle
      · rw [if_pos hidle] at hst
        cases hst
        exact .inl rfl
      · rw [if_neg hidle] at hst
        cases hst
  | deliver r => exact (turn_of_deliverStep hst).events
  | stop =>
      cases hst
      exact .inl rfl
  | draw pool =>
      cases hst
      exact .inl rfl

theorem length_of_not_queues (h : ¬s.Queues a) (hst : s.step el a = some s') :
    s'.events.length ≤ s.events.length := by
  rcases step_of_not_queues h hst with he | he
  · rw [he]
  · rw [he, List.length_tail]
    exact Nat.sub_le _ _

end Sys

/-! ## Every run -/

/-- A listener, and how many events were queued whenever one was discarded. -/
abbrev queue (el : EventListener) (eps : EventPoolSerial) : Machine (Sys × List Nat) Act :=
  (machine el eps).traced (Sys.discards el)

/-- No more than `n` events are queued, and there were `n` of them when one was discarded. -/
structure Bounded (n : Int) (w : Sys × List Nat) : Prop where
  length : w.1.events.length ≤ n
  discards : ∀ k ∈ w.2, (k : Int) = n

variable {el : EventListener} {eps : EventPoolSerial} {w w' : Sys × List Nat} {a : Act} {n : Int}

/-- A step that queues or discards an event. -/
theorem Bounded.lock_iff (h : Bounded n w) (hq : w.1.Queues a)
    (hst : (queue el eps).step w a = some w') :
    Bounded n w' ↔ if (w.1.events.length : Int) ≤ el.bufferSize then (w.1.events.length : Int) < n
      else (w.1.events.length : Int) = n := by
  obtain ⟨t, x, rfl, hlock⟩ := hq
  obtain ⟨s', hs', rfl⟩ := Machine.traced_step_eq_some.mp hst
  have hev := Sys.step_lock hlock hs'
  rw [Sys.discards_lock hlock]
  by_cases hroom : (w.1.events.length : Int) ≤ el.bufferSize
  · have hr : w.1.room el = true := decide_eq_true hroom
    rw [hr, if_pos rfl] at hev
    rw [if_pos hroom, hr, if_pos rfl, List.append_nil]
    have hlen : (s'.events.length : Int) = w.1.events.length + 1 := by
      rw [hev, List.length_append]
      rfl
    constructor
    · intro h'
      have := h'.length
      dsimp only at this
      omega
    · intro hlt
      exact ⟨by dsimp only; omega, h.discards⟩
  · have hr : w.1.room el = false := decide_eq_false hroom
    rw [hr, if_neg Bool.false_ne_true] at hev
    rw [if_neg hroom, hr, if_neg Bool.false_ne_true]
    constructor
    · intro h'
      exact h'.discards _ (List.mem_append_right _ List.mem_cons_self)
    · intro heq
      refine ⟨by rw [hev]; exact h.length, fun k hk ↦ ?_⟩
      rcases List.mem_append.mp hk with hk | hk
      · exact h.discards k hk
      · rw [List.mem_singleton.mp hk]
        exact heq

/-- The other steps. -/
theorem Bounded.of_not_queues (h : Bounded n w) (hq : ¬w.1.Queues a)
    (hst : (queue el eps).step w a = some w') : Bounded n w' := by
  obtain ⟨s', hs', rfl⟩ := Machine.traced_step_eq_some.mp hst
  rw [Sys.discards_of_not_queues hq, List.append_nil]
  have hle := Sys.length_of_not_queues hq hs'
  have := h.length
  exact ⟨by dsimp only; omega, h.discards⟩

/-- **One more than `bufferSize`.**  In every run there are at most `bufferSize + 1` events in the
queue, and as many as that when one is discarded. -/
theorem bounded_succ (hb : 0 ≤ el.bufferSize) (hw : (queue el eps).Reachable w) :
    Bounded (el.bufferSize + 1) w := by
  refine hw.invariant ⟨?_, fun k hk ↦ absurd hk List.not_mem_nil⟩ fun w a w' _ h _ hst ↦ ?_
  · exact Int.le_trans hb (Int.le_add_one (Int.le_refl _))
  · by_cases hq : w.1.Queues a
    · have := h.length
      refine (h.lock_iff hq hst).mpr ?_
      by_cases hroom : (w.1.events.length : Int) ≤ el.bufferSize
      · rw [if_pos hroom]
        omega
      · rw [if_neg hroom]
        omega
    · exact h.of_not_queues hq hst

/-- No call of `HandleEvent` finds exactly `bufferSize` events in the queue. -/
def NotFull (el : EventListener) (w : Sys × List Nat) (a : Act) : Prop :=
  w.1.Queues a → (w.1.events.length : Int) ≠ el.bufferSize

/-- **The bound.**  Along a run there are never more than `bufferSize` events in the queue, and as
many as that when one is discarded, if and only if no call of `HandleEvent` finds that many when it
is about to queue its event. -/
theorem bounded_along_iff (hb : 0 ≤ el.bufferSize) {as : List Act}
    (h : (queue el eps).exec (queue el eps).init as = some w) :
    (queue el eps).Along (Bounded el.bufferSize) as ↔ (queue el eps).Meets (NotFull el) as := by
  refine Machine.along_iff_meets ⟨hb, fun k hk ↦ absurd hk List.not_mem_nil⟩ ?_ h
  intro w a w' _ hw hst
  by_cases hq : w.1.Queues a
  · have hle := hw.length
    rw [hw.lock_iff hq hst, if_pos hle, NotFull]
    exact ⟨fun hlt _ ↦ Int.ne_of_lt hlt, fun hne ↦ Int.lt_iff_le_and_ne.mpr ⟨hle, hne hq⟩⟩
  · exact iff_of_true (hw.of_not_queues hq hst) fun hq' ↦ absurd hq' hq

/-- With a buffer for two events, one of them. -/
theorem bounded_along_one :
    let el : EventListener := ⟨Go.str "mail", Go.str "supervisor", 2⟩
    let as : List Act := [.call 0 (createSupervisorStateChangeRunning 1), .handle 0, .handle 0]
    ∃ w, (queue el ∅).exec (queue el ∅).init as = some w ∧ w.1.events.length = 1 ∧
      ((queue el ∅).Along (Bounded el.bufferSize) as ↔ (queue el ∅).Meets (NotFull el) as) := by
  intro el as
  obtain ⟨w, hw, hlen⟩ : ∃ w, (queue el ∅).exec (queue el ∅).init as = some w ∧
      w.1.events.length = 1 := ⟨_, rfl, rfl⟩
  exact ⟨w, hw, hlen, bounded_along_iff (by decide) hw⟩

/-- Without a buffer, there is one event in the queue. -/
theorem bounded_exceeded : ¬∀ (el : EventListener) (eps : EventPoolSerial), 0 ≤ el.bufferSize →
    ∀ w, (queue el eps).Reachable w → Bounded el.bufferSize w := by
  intro h
  obtain ⟨w, hw, hlen⟩ := Machine.exists_reachable
    (m := queue ⟨Go.str "mail", Go.str "supervisor", 0⟩ ∅) (fun w ↦ w.1.events.length = 1)
    [.call 0 (createSupervisorStateChangeRunning 1), .handle 0, .handle 0] rfl
  have hle := (h _ _ (by decide) w hw).length
  rw [of_decide_eq_true hlen] at hle
  exact absurd hle (by decide)

end Supervisord.Events
