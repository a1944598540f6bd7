import Supervisord.Events.Delivery

/-!
# The serials of a pool in the queue

A goroutine in `HandleEvent` draws the serial of its event before it takes the lock of the queue, so
that another one can overtake it in between.  As long as none is overtaken, and the counter of the
pool has not wrapped around, the serials increase along the queue.
-/

namespace Supervisord.Events

open Go
open Outbox (Label)

/-- Order by serial. -/
def Encoded.Before (x y : Encoded) : Prop := x.poolserial < y.poolserial

instance (x y : Encoded) : Decidable (x.Before y) :=
  inferInstanceAs (Decidable (x.poolserial < y.poolserial))

/-- The serial the pool draws next. -/
def EventPoolSerial.next (eps : EventPoolSerial) (pool : Str) : UInt64 := (eps.nextSerial pool).1

theorem EventPoolSerial.next_nextSerial (eps : EventPoolSerial) (pool : Str) :
    EventPoolSerial.next (eps.nextSerial pool).2 pool = eps.next pool + 1 := by
  simp [next, nextSerial]

theorem EventPoolSerial.next_nextSerial_of_ne {eps : EventPoolSerial} {pool pool' : Str}
    (h : pool' ≠ pool) :
    EventPoolSerial.next (eps.nextSerial pool').2 pool = eps.next pool := by
  simp [next, nextSerial, AList.lookup_insert_ne h.symm]

theorem lt_succ_or_wrap (n : UInt64) : n + 1 = 0 ∨ n < n + 1 := by
  rw [UInt64.lt_iff_toNat_lt, ← UInt64.toNat_inj, UInt64.toNat_add]
  have := n.toNat_lt
  simp only [UInt64.reduceToNat]
  omega

/-- The counter has passed a serial, or has wrapped around. -/
def Passed (n m : UInt64) : Prop := n = 0 ∨ m < n

theorem Passed.succ {n m : UInt64} (h : Passed n m) (hn : n ≠ 0) : Passed (n + 1) m :=
  (lt_succ_or_wrap n).imp_right fun hs ↦ UInt64.lt_trans (h.resolve_left hn) hs

/-! ## Overtaking -/

/-- The counter has not wrapped around when a serial of the pool is drawn, and the event that is
queued has the first serial of those drawn and not queued yet. -/
structure InTurn (el : EventListener) (w : Sys × List (Label Encoded)) (a : Act) : Prop where
  draw : ∀ t event, a = .handle t → w.1.handlers t = .encodeEvent event →
    w.1.eventPoolSerial.next el.pool ≠ 0
  other : a = .draw el.pool → w.1.eventPoolSerial.next el.pool ≠ 0
  lock : ∀ t u x y, a = .handle t → w.1.handlers t = .lock x → w.1.handlers u = .lock y →
    ¬y.Before x

/-- The serials of the events accepted and of those not queued yet. -/
structure Serials (el : EventListener) (s : Sys) (h : List (Label Encoded)) : Prop where
  accepted : (Outbox.accepted h).Pairwise Encoded.Before
  pending : ∀ t x, s.handlers t = .lock x → ∀ y ∈ Outbox.accepted h, y.Before x
  distinct : ∀ t u x y, s.handlers t = .lock x → s.handlers u = .lock y →
    x.poolserial = y.poolserial → t = u
  passedAccepted : ∀ x ∈ Outbox.accepted h,
    Passed (s.eventPoolSerial.next el.pool) x.poolserial
  passedPending : ∀ t x, s.handlers t = .lock x →
    Passed (s.eventPoolSerial.next el.pool) x.poolserial

variable {el : EventListener} {eps : EventPoolSerial} {s s' : Sys} {h : List (Label Encoded)}
  {a : Act}

/-- What matters of the state is the counter, the goroutines in `HandleEvent` and what was
accepted. -/
theorem Serials.congr {l : List (Label Encoded)} (hs : Serials el s h)
    (hl : l.filterMap Label.accepted? = []) (hh : ∀ t x, s'.handlers t = .lock x →
      s.handlers t = .lock x)
    (hn : ∀ m, Passed (s.eventPoolSerial.next el.pool) m →
      Passed (s'.eventPoolSerial.next el.pool) m) : Serials el s' (h ++ l) := by
  have hacc : Outbox.accepted (h ++ l) = Outbox.accepted h := by
    rw [Outbox.accepted, List.filterMap_append, hl, List.append_nil]
    rfl
  constructor
  · rw [hacc]
    exact hs.accepted
  · rw [hacc]
    exact fun t x ht ↦ hs.pending t x (hh t x ht)
  · exact fun t u x y ht hu ↦ hs.distinct t u x y (hh t x ht) (hh u y hu)
  · rw [hacc]
    exact fun x hx ↦ hn _ (hs.passedAccepted x hx)
  · exact fun t x ht ↦ hn _ (hs.passedPending t x (hh t x ht))

/-- A goroutine draws a serial. -/
theorem Serials.encode {t : Tid} {event : Event} (hs : Serials el s h)
    (hn : s.eventPoolSerial.next el.pool ≠ 0) :
    Serials el ({ s with eventPoolSerial := (s.eventPoolSerial.nextSerial el.pool).2 }.goHandler t
      (.lock ⟨event, s.eventPoolSerial.next el.pool⟩)) h := by
  -- the new serial is above all the others
  have hacc : ∀ x ∈ Outbox.accepted h, x.poolserial < s.eventPoolSerial.next el.pool :=
    fun x hx ↦ (hs.passedAccepted x hx).resolve_left hn
  have hpend : ∀ u x, s.handlers u = .lock x → x.poolserial < s.eventPoolSerial.next el.pool :=
    fun u x hu ↦ (hs.passedPending u x hu).resolve_left hn
  have hnext := EventPoolSerial.next_nextSerial s.eventPoolSerial el.pool
  constructor
  · exact hs.accepted
  · intro u x hu y hy
    by_cases htu : u = t
    · subst htu
      simp only [Sys.goHandler, Function.update_self, HandlePc.lock.injEq] at hu
      exact hu ▸ hacc y hy
    · simp only [Sys.goHandler, Function.update_of_ne htu] at hu
      exact hs.pending u x hu y hy
  · intro u v x y hu hv hxy
    simp only [Sys.goHandler, Function.update_apply] at hu hv
    split at hu <;> split at hv
    · simp_all
    · cases hu
      exact absurd hxy.symm (UInt64.ne_of_lt (hpend v y hv))
    · cases hv
      exact absurd hxy (UInt64.ne_of_lt (hpend u x hu))
    · exact hs.distinct u v x y hu hv hxy
  · intro x hx
    change Passed (EventPoolSerial.next (s.eventPoolSerial.nextSerial el.pool).2 el.pool) _
    rw [hnext]
    exact (hs.passedAccepted x hx).succ hn
  · intro u x hu
    change Passed (EventPoolSerial.next (s.eventPoolSerial.nextSerial el.pool).2 el.pool) _
    rw [hnext]
    simp only [Sys.goHandler, Function.update_apply] at hu
    split at hu
    · cases hu
      exact lt_succ_or_wrap _
    · exact (hs.passedPending u x hu).succ hn

/-- A goroutine queues its event. -/
theorem Serials.push {t : Tid} {x : Encoded} (hs : Serials el s h) (ht : s.handlers t = .lock x)
    (hk : ∀ u y, s.handlers u = .lock y → ¬y.Before x) :
    Serials el ({ s with events := s.events ++ [x] }.goHandler t .idle) (h ++ [.accepted x]) := by
  have hold : ∀ u y, Function.update s.handlers t .idle u = .lock y →
      u ≠ t ∧ s.handlers u = .lock y := by
    intro u y hu
    by_cases htu : u = t
    · rw [htu, Function.update_self] at hu
      cases hu
    · rw [Function.update_of_ne htu] at hu
      exact ⟨htu, hu⟩
  constructor
  · rw [Outbox.accepted_concat]
    refine List.pairwise_append.mpr ⟨hs.accepted, List.pairwise_singleton _ _, ?_⟩
    intro y hy z hz
    cases List.mem_singleton.mp hz
    exact hs.pending t x ht y hy
  · intro u y hu z hz
    obtain ⟨htu, hu⟩ := hold u y hu
    rw [Outbox.accepted_concat] at hz
    rcases List.mem_append.mp hz with hz | hz
    · exact hs.pending u y hu z hz
    · cases List.mem_singleton.mp hz
      -- a later one that waits has a greater serial
      refine UInt64.lt_of_le_of_ne (UInt64.not_lt.mp (hk u y hu)) fun he ↦ ?_
      exact htu (hs.distinct u t y x hu ht he.symm)
  · intro u v y z hu hv
    exact hs.distinct u v y z (hold u y hu).2 (hold v z hv).2
  · intro y hy
    rw [Outbox.accepted_concat] at hy
    rcases List.mem_append.mp hy with hy | hy
    · exact hs.passedAccepted y hy
    · cases List.mem_singleton.mp hy
      exact hs.passedPending t x ht
  · intro u y hu
    exact hs.passedPending u y (hold u y hu).2

theorem accepted_seenDeliver (s : Sys) (r : Answer) :
    (s.seenDeliver r).filterMap Label.accepted? = [] := by
  unfold Sys.seenDeliver
  split
  case h_1 | h_3 | h_6 => split <;> rfl
  case h_11 => cases s.events <;> rfl
  all_goals rfl

theorem Serials.step (hs : Serials el s h) (hk : InTurn el (s, h) a)
    (hst : s.step el a = some s') : Serials el s' (h ++ s.seen el a) := by
  cases a with
  | call t event =>
      simp only [Sys.step] at hst
      split at hst <;> cases hst
      refine hs.congr rfl (fun u x hu ↦ ?_) fun _ hm ↦ hm
      simp only [Sys.goHandler, Function.update_apply] at hu
      split at hu
      · cases hu
      · exact hu
  | handle t =>
      simp only [Sys.step, Sys.handleStep] at hst
      simp only [Sys.seen]
      cases hp : s.handlers t with
      | idle => simp [hp] at hst
      | encodeEvent event =>
          simp only [hp] at hst
          cases hst
          rw [List.append_nil]
          exact hs.encode (hk.draw t event rfl hp)
      | lock x =>
          simp only [hp] at hst ⊢
          split at hst <;> cases hst
          · rw [if_pos ‹_›]
            exact hs.push hp fun u y hu ↦ hk.lock t u x y rfl hp hu
          · rw [if_neg ‹_›]
            refine hs.congr rfl (fun u y hu ↦ ?_) fun _ hm ↦ hm
            simp only [Sys.goHandler, Function.update_apply] at hu
            split at hu
            · cases hu
            · exact hu
  | deliver r =>
      obtain ⟨hh, hn⟩ := (Sys.turn_of_deliverStep hst).frame
      exact hs.congr (accepted_seenDeliver s r) (fun _ _ hu ↦ hh ▸ hu) fun _ hm ↦ hn ▸ hm
  | stop =>
      cases hst
      exact hs.congr rfl (fun _ _ hu ↦ hu) fun _ hm ↦ hm
  | draw pool =>
      cases hst
      refine hs.congr rfl (fun _ _ hu ↦ hu) fun m hm ↦ ?_
      change Passed (EventPoolSerial.next (s.eventPoolSerial.nextSerial pool).2 el.pool) m
      by_cases hpool : pool = el.pool
      · subst hpool
        rw [EventPoolSerial.next_nextSerial]
        exact hm.succ (hk.other rfl)
      · rw [EventPoolSerial.next_nextSerial_of_ne hpool]
        exact hm

theorem serials {w : Sys × List (Label Encoded)} (hw : (listener el eps).Reach (InTurn el) w) :
    Serials el w.1 w.2 := by
  refine hw.traced_invariant (P := Serials el) ?_ fun _ hs hk hst ↦ hs.step hk hst
  exact ⟨.nil, by nofun, by nofun, by nofun, by nofun⟩

/-! ## Every run -/

/-- A goroutine that is alone in `HandleEvent` is in turn. -/
theorem InTurn.of_alone {w : Sys × List (Label Encoded)} {t : Tid}
    (hi : ∀ u, u ≠ t → w.1.handlers u = .idle) (hn : w.1.eventPoolSerial.next el.pool ≠ 0 ∨
      ∃ x, w.1.handlers t = .lock x) : InTurn el w (.handle t) where
  draw := by
    rintro u event ⟨⟩ hu
    refine hn.resolve_right ?_
    rintro ⟨x, hx⟩
    rw [hu] at hx
    cases hx
  other := by rintro ⟨⟩
  lock := by
    rintro u v x y ⟨⟩ hu hv
    by_cases htv : v = t
    · rw [htv, hu] at hv
      cases hv
      exact UInt64.lt_irrefl _
    · rw [hi v htv] at hv
      cases hv

/-- A call of `HandleEvent` during which no other goroutine takes a step. -/
theorem exists_reach_handle {w : Sys × List (Label Encoded)} (event : Event)
    (hw : (listener el eps).Reach (InTurn el) w) (hi : ∀ t, w.1.handlers t = .idle)
    (hn : w.1.eventPoolSerial.next el.pool ≠ 0) (hr : w.1.room el = true) :
    ∃ w', (listener el eps).Reach (InTurn el) w' ∧ (∀ t, w'.1.handlers t = .idle) ∧
      w'.1.eventPoolSerial.next el.pool = w.1.eventPoolSerial.next el.pool + 1 ∧
      w'.1.events = w.1.events ++ [⟨event, w.1.eventPoolSerial.next el.pool⟩] := by
  obtain ⟨s, h⟩ := w
  have hstep {s : Sys} {h : List (Label Encoded)} {a : Act} {r : Sys}
      (hw : (listener el eps).Reach (InTurn el) (s, h)) (hk : InTurn el (s, h) a)
      (hst : s.step el a = some r) :
      (listener el eps).Reach (InTurn el) (r, h ++ s.seen el a) :=
    .step hw hk (Machine.traced_step_eq_some.mpr ⟨r, hst, rfl⟩)
  have hcall := hstep (a := .call 0 event) (r := s.goHandler 0 (.encodeEvent event)) hw
    ⟨by rintro t event ⟨⟩, by rintro ⟨⟩, by rintro t u x y ⟨⟩⟩ (if_pos (hi 0))
  have hidle (pc : HandlePc) (u : Tid) (hu : u ≠ 0) :
      Function.update s.handlers 0 pc u = .idle := by
    rw [Function.update_of_ne hu]
    exact hi u
  let x : Encoded := ⟨event, s.eventPoolSerial.next el.pool⟩
  let drawn : Sys := { s with eventPoolSerial := (s.eventPoolSerial.nextSerial el.pool).2 }
  have hdraw := hstep hcall (.of_alone (t := 0) (hidle _) (.inl hn))
    (r := drawn.goHandler 0 (.lock x))
    (by simp [Sys.step, Sys.handleStep, Sys.goHandler, EventListener.encodeEvent,
      EventPoolSerial.next, drawn, x])
  have hlock : (drawn.goHandler 0 (.lock x)).handlers 0 = .lock x := by
    simp [Sys.goHandler]
  have hroom : (drawn.goHandler 0 (.lock x)).room el = true := hr
  have hpush := hstep hdraw (.of_alone (t := 0) (hidle _) (.inr ⟨x, hlock⟩))
    (r := { drawn with events := s.events ++ [x] }.goHandler 0 .idle) (by
      simp only [Sys.step, Sys.handleStep, hlock]
      rw [if_pos hroom]
      simp [Sys.goHandler, drawn])
  refine ⟨_, hpush, fun t ↦ ?_, EventPoolSerial.next_nextSerial _ _, rfl⟩
  by_cases ht : t = 0
  · simp [Sys.goHandler, ht]
  · exact hidle _ t ht

/-- **Serials.**  As long as no goroutine in `HandleEvent` overtakes another one and the counter
does not wrap around, the serials increase along the queue and in the order of acceptance, and
events are sent in the order of their serials. -/
theorem serials_increase {w : Sys × List (Label Encoded)}
    (hw : (listener el eps).Reach (InTurn el) w) :
    w.1.events.Pairwise Encoded.Before ∧ (Outbox.accepted w.2).Pairwise Encoded.Before ∧
      (Outbox.sent w.2).Pairwise fun x y ↦ x = y ∨ x.Before y := by
  have hacc := (serials hw).accepted
  have hq := hacc
  rw [Outbox.accepted_eq (exec_listener hw)] at hq
  exact ⟨(List.pairwise_append.mp hq).2.1, hacc, Outbox.pairwise_sent (exec_listener hw) hacc⟩

/-- Two events that are handled one after the other. -/
theorem serials_increase_two : ∃ w, (listener ⟨str "mail", str "supervisor", 10⟩ ∅).Reach
    (InTurn ⟨str "mail", str "supervisor", 10⟩) w ∧ w.1.events.length = 2 ∧
      w.1.events.Pairwise Encoded.Before := by
  obtain ⟨w, hw, hi, hn, hq⟩ := exists_reach_handle (createSupervisorStateChangeRunning 1)
    (Machine.Reach.init (m := listener ⟨str "mail", str "supervisor", 10⟩ ∅)) (fun _ ↦ rfl)
    (by decide) rfl
  obtain ⟨w', hw', -, -, hq'⟩ := exists_reach_handle (createSupervisorStateChangeStopping 2) hw hi
    (by rw [hn]; decide) (by rw [Sys.room, hq]; rfl)
  exact ⟨w', hw', by rw [hq', hq]; rfl, (serials_increase hw').1⟩

/-- A goroutine is overtaken between drawing the serial and queueing the event. -/
theorem serials_overtaken : ∃ w, (listener ⟨str "mail", str "supervisor", 10⟩ ∅).Reachable w ∧
    ¬w.1.events.Pairwise Encoded.Before := by
  obtain ⟨w, hw, hp⟩ := Machine.exists_reachable
    (m := listener ⟨str "mail", str "supervisor", 10⟩ ∅)
    (fun w ↦ ¬w.1.events.Pairwise Encoded.Before)
    [.call 0 (createSupervisorStateChangeRunning 1),
      .call 1 (createSupervisorStateChangeStopping 2), .handle 0, .handle 1, .handle 1, .handle 0]
    (by decide +kernel)
  exact ⟨w, hw, of_decide_eq_true hp⟩

end Supervisord.Events
