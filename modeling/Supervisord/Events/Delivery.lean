import Supervisord.Events.Listener
import Supervisord.Protocol.Outbox

/-!
# What the delivery loop guarantees

The delivery loop is an `Outbox` of encoded events: `step_outbox` shows it of every step, and what
holds of every run of an outbox then holds of every run of a listener.
-/

namespace Supervisord.Events

open Go
open Outbox (Label Verdict Phase)

/-! ## The labels -/

def verdict (result : Str) : Verdict :=
  if result = str "OK" then .ok else if result = str "FAIL" then .fail else .unknown

/-- Where the exchange stands. -/
def Pc.phase : Pc → Phase Encoded
  | .waitForReady _ => .unready
  | .getFirstEvent | .write _ => .ready
  | .readResult b _ | .makeBytes b _ | .readBytes b _ _ | .judge b _ => .sent b
  | .removeFirstEvent b => .acknowledged b
  | .done | .crashed => .over

/-- The event the delivery loop has in its hands. -/
def Pc.inFlight : Pc → Option Encoded
  | .write b | .readResult b _ | .makeBytes b _ | .readBytes b _ _ | .judge b _
  | .removeFirstEvent b => some b
  | .waitForReady _ | .getFirstEvent | .done | .crashed => none

namespace Sys

variable (el : EventListener) (s : Sys)

/-- What a step of the delivery loop shows. -/
def seenDeliver (r : Answer) : List (Label Encoded) :=
  match s.deliver, r with
  | .waitForReady line, .byte b => if b = 10 ∧ line ++ [b] = readyLine then [.ready] else []
  | .waitForReady _, .err => [.quit]
  | .getFirstEvent, .ok => if s.stopped then [.quit] else []
  | .write b, .ok => [.written b]
  | .write b, .err => [.failed b]
  | .readResult _ line, .byte c =>
    if c = 10 ∧ resultLength (line ++ [c]) = none then [.unreadable] else []
  | .readResult _ _, .err => [.unreadable]
  | .makeBytes _ _, .err => [.quit]
  | .readBytes _ _ _, .err => [.unreadable]
  | .judge _ result, .ok => [.result (verdict result)]
  | .removeFirstEvent _, .ok => s.events.head?.toList.map .removed
  | _, _ => []

/-- What a step shows. -/
def seen : Act → List (Label Encoded)
  | .handle t => match s.handlers t with
    | .lock b => if s.room el then [.accepted b] else []
    | _ => []
  | .deliver r => s.seenDeliver r
  | _ => []

/-- The outbox a listener stands for. -/
def outbox : Outbox Encoded := ⟨s.events, s.deliver.phase⟩

/-- The event in flight is the first of the queue. -/
def Peeked : Prop := ∀ b, s.deliver.inFlight = some b → s.events.head? = some b

variable {el s} {s' : Sys} {a : Act} {r : Answer}

/-! ## One step -/

/-- What a step of the delivery loop can do. -/
inductive Turn (s : Sys) : List (Label Encoded) → Sys → Prop
  | within {pc : Pc} (hp : pc.phase = s.deliver.phase) (hf : pc.inFlight = s.deliver.inFlight) :
      Turn s [] (s.goDeliver pc)
  | ready (hp : s.deliver.phase = .unready) : Turn s [.ready] (s.goDeliver .getFirstEvent)
  | peek {b : Encoded} (hp : s.deliver = .getFirstEvent) (hq : s.events.head? = some b) :
      Turn s [] (s.goDeliver (.write b))
  | written {b : Encoded} (hp : s.deliver = .write b) :
      Turn s [.written b] (s.goDeliver (.readResult b []))
  | failed {b : Encoded} (hp : s.deliver = .write b) :
      Turn s [.failed b] (s.goDeliver (.waitForReady []))
  | result {b : Encoded} {v : Verdict} {pc : Pc} (hp : s.deliver.phase = .sent b)
      (hq : pc.phase = v.next b) (hf : pc.inFlight = none ∨ s.deliver.inFlight = pc.inFlight) :
      Turn s [.result v] (s.goDeliver pc)
  | unreadable {b : Encoded} (hp : s.deliver.phase = .sent b) :
      Turn s [.unreadable] (s.goDeliver (.waitForReady []))
  | removed {b : Encoded} (hp : s.deliver = .removeFirstEvent b) :
      Turn s (s.events.head?.toList.map .removed)
        ({ s with events := s.events.tail }.goDeliver (.waitForReady []))
  | quit {pc : Pc} (hq : pc.phase = .over) (hf : pc.inFlight = none) :
      Turn s [.quit] (s.goDeliver pc)

/-- A step within a phase that leaves the event in flight as it is. -/
theorem Turn.of_pc {p pc : Pc} (hp : s.deliver = p) (hq : pc.phase = p.phase)
    (hf : pc.inFlight = p.inFlight) : s.Turn [] (s.goDeliver pc) :=
  .within (by rw [hp, hq]) (by rw [hp, hf])

theorem turn_of_deliverStep (h : s.deliverStep r = some s') : s.Turn (s.seenDeliver r) s' := by
  unfold deliverStep at h
  unfold seenDeliver
  have hph (pc : Pc) (hp : s.deliver = pc) : s.deliver.phase = pc.phase := by rw [hp]
  cases hp : s.deliver with
  | waitForReady line =>
      cases r <;> simp only [hp] at h ⊢
      case byte b =>
        by_cases hb : b = 10
        · rw [if_pos hb] at h
          split at h <;> cases h
          · rw [if_pos ⟨hb, ‹_›⟩]
            exact .ready (hph _ hp)
          · rename_i hl
            rw [if_neg fun h ↦ hl h.2]
            exact .of_pc hp rfl rfl
        · rw [if_neg hb] at h
          cases h
          rw [if_neg fun h ↦ hb h.1]
          exact .of_pc hp rfl rfl
      case ok => cases h
      case err =>
        cases h
        exact .quit rfl rfl
  | getFirstEvent =>
      cases r <;> simp only [hp] at h ⊢
      case byte | err => cases h
      case ok =>
        split at h
        · rename_i hs
          cases h
          rw [if_pos hs]
          exact .quit rfl rfl
        · rename_i hs
          rw [if_neg hs]
          split at h <;> cases h
          rename_i hq
          exact .peek hp (by rw [hq]; rfl)
  | write b =>
      cases r <;> simp only [hp] at h ⊢ <;> cases h
      · exact .written hp
      · exact .failed hp
  | readResult b line =>
      cases r <;> simp only [hp] at h ⊢
      case byte c =>
        by_cases hc : c = 10
        · rw [if_pos hc] at h
          cases hn : resultLength (line ++ [c]) with
          | some n =>
              rw [hn] at h
              cases h
              rw [if_neg fun h ↦ Option.some_ne_none n h.2]
              exact .of_pc hp rfl rfl
          | none =>
              rw [hn] at h
              cases h
              rw [if_pos ⟨hc, rfl⟩]
              exact .unreadable (hph _ hp)
        · rw [if_neg hc] at h
          cases h
          rw [if_neg fun h ↦ hc h.1]
          exact .of_pc hp rfl rfl
      case ok => cases h
      case err =>
        cases h
        exact .unreadable (hph _ hp)
  | makeBytes b n =>
      cases r <;> simp only [hp] at h ⊢ <;> cases h
      · split <;> exact .of_pc hp rfl rfl
      · exact .quit rfl rfl
  | readBytes b n got =>
      cases r <;> simp only [hp] at h ⊢ <;> cases h
      · split <;> exact .of_pc hp rfl rfl
      · exact .unreadable (hph _ hp)
  | judge b result =>
      cases r <;> simp only [hp] at h ⊢
      case byte | err => cases h
      case ok =>
        unfold verdict
        split at h
        · rename_i hr
          cases h
          rw [if_pos hr]
          exact .result (hph _ hp) rfl (.inr (by rw [hp]; rfl))
        · rename_i hr
          rw [if_neg hr]
          split at h <;> cases h
          · rw [if_pos ‹_›]
            exact .result (hph _ hp) rfl (.inl rfl)
          · rw [if_neg ‹_›]
            exact .result (hph _ hp) rfl (.inl rfl)
  | removeFirstEvent b =>
      cases r <;> simp only [hp] at h ⊢ <;> cases h
      exact .removed hp
  | done | crashed => simp [hp] at h

theorem Peeked.turn {l : List (Label Encoded)} (hs : s.Peeked) (h : s.Turn l s') :
    s'.Peeked := by
  intro b hb
  cases h with
  | within hp hf =>
      rw [goDeliver, hf] at hb
      exact hs b hb
  | peek hp hq =>
      cases hb
      exact hq
  | written hp =>
      cases hb
      exact hs _ (by rw [hp]; rfl)
  | result hp hq hf =>
      rcases hf with hf | hf
      · rw [goDeliver, hf] at hb
        cases hb
      · rw [goDeliver, ← hf] at hb
        exact hs b hb
  | quit hq hf =>
      rw [goDeliver, hf] at hb
      cases hb
  | ready | failed | unreadable | removed => cases hb

/-- The delivery loop leaves the goroutines in `HandleEvent` alone. -/
theorem Turn.frame {l : List (Label Encoded)} (h : s.Turn l s') :
    s'.handlers = s.handlers ∧ s'.eventPoolSerial = s.eventPoolSerial := by
  cases h <;> exact ⟨rfl, rfl⟩

/-- A step of the delivery loop is one of the outbox. -/
theorem Turn.exec {l : List (Label Encoded)} (hs : s.Peeked) (h : s.Turn l s') :
    (Outbox.machine Encoded).exec s.outbox l = some s'.outbox := by
  cases h with
  | within hp hf => exact congrArg some (by rw [outbox, outbox, goDeliver, hp])
  | ready hp => exact (Outbox.Takes.ready hp).exec
  | peek hp hq => exact congrArg some (by rw [outbox, outbox, goDeliver, hp]; rfl)
  | written hp =>
      exact (Outbox.Takes.written (o := s.outbox) (by rw [outbox, hp]; rfl)
        (hs _ (by rw [hp]; rfl))).exec
  | failed hp =>
      exact (Outbox.Takes.failed (o := s.outbox) (by rw [outbox, hp]; rfl)
        (hs _ (by rw [hp]; rfl))).exec
  | @result b v pc hp hq hf =>
      have := (Outbox.Takes.result (o := s.outbox) hp v).exec
      rwa [← hq] at this
  | unreadable hp => exact (Outbox.Takes.unreadable (o := s.outbox) hp).exec
  | removed hp =>
      obtain ⟨q, hq⟩ := List.head?_eq_some_iff.mp (hs _ (by rw [hp]; rfl))
      rw [hq]
      exact (Outbox.Takes.removed (o := s.outbox) (by rw [outbox, hp]; rfl) hq).exec
  | quit hq hf =>
      have := (Outbox.Takes.quit s.outbox).exec
      rwa [← hq] at this

theorem Peeked.step (hs : s.Peeked) (h : s.step el a = some s') : s'.Peeked := by
  cases a with
  | deliver r => exact hs.turn (turn_of_deliverStep h)
  | handle t =>
      simp only [Sys.step, handleStep] at h
      split at h
      · cases h
      · cases h
        exact hs
      · split at h <;> cases h
        · intro b hb
          obtain ⟨q, hq⟩ := List.head?_eq_some_iff.mp (hs b hb)
          simp [goHandler, hq]
        · exact hs
  | call t event =>
      simp only [Sys.step] at h
      split at h <;> cases h
      exact hs
  | stop | draw => cases h; exact hs

/-- **Every step of a listener is one of its outbox.** -/
theorem step_outbox (hs : s.Peeked) (h : s.step el a = some s') :
    (Outbox.machine Encoded).exec s.outbox (s.seen el a) = some s'.outbox := by
  cases a with
  | deliver r => exact (turn_of_deliverStep h).exec hs
  | handle t =>
      simp only [Sys.step, handleStep] at h
      simp only [seen]
      cases hp : s.handlers t with
      | idle => simp [hp] at h
      | encodeEvent event =>
          simp only [hp] at h
          cases h
          rfl
      | lock b =>
          simp only [hp] at h ⊢
          split at h <;> cases h
          · rw [if_pos ‹_›]
            exact (Outbox.Takes.accepted s.outbox b).exec
          · rw [if_neg ‹_›]
            rfl
  | call t event =>
      simp only [Sys.step] at h
      split at h <;> cases h
      rfl
  | stop | draw => cases h; rfl

end Sys

/-! ## Every run -/

variable {el : EventListener} {eps : EventPoolSerial} {w : Sys × List (Label Encoded)}
  {ok : Sys × List (Label Encoded) → Act → Prop}

/-- A listener and what its runs show. -/
abbrev listener (el : EventListener) (eps : EventPoolSerial) :
    Machine (Sys × List (Label Encoded)) Act :=
  (machine el eps).traced (Sys.seen el)

theorem peeked (hw : (listener el eps).Reach ok w) : w.1.Peeked :=
  hw.traced_invariant (P := fun s _ ↦ s.Peeked) (fun _ h ↦ (nomatch h))
    fun _ hs _ hst ↦ hs.step hst

/-- What a listener shows is a run of its outbox. -/
theorem exec_listener (hw : (listener el eps).Reach ok w) :
    (Outbox.machine Encoded).exec (Outbox.machine Encoded).init w.2 = some w.1.outbox :=
  hw.exec_trace (f := Sys.outbox) rfl fun hr _ hst ↦ Sys.step_outbox (peeked hr) hst

/-- The listener program writes a string. -/
def writes (s : Str) : List Act := s.map fun b ↦ .deliver (.byte b)

/-- An event is accepted and sent to a listener program that answers with a result. -/
def deliver (e : Event) (result : String) : List Act :=
  List.flatten [[.call 0 e, .handle 0, .handle 0], writes readyLine,
    [.deliver .ok, .deliver .ok], writes (str "RESULT "), writes (Str.itoa result.length),
    writes (str "\n"), [.deliver .ok], writes (str result), [.deliver .ok, .deliver .ok]]

/-- **Delivery.**  However the goroutines are interleaved and whatever the listener program writes,
the events that have left the queue and those that are in it are the accepted ones, in the order in
which they were accepted, and an event leaves the queue only when it has just been written in full
and answered with `OK`. -/
theorem delivered_in_order (hw : (listener el eps).Reachable w) :
    Outbox.accepted w.2 = Outbox.removed w.2 ++ w.1.events ∧
      ∀ pre x post, Outbox.exchange w.2 = pre ++ .removed x :: post →
        [.written x, .result .ok] <:+ pre :=
  ⟨Outbox.accepted_eq (exec_listener hw),
    fun _ _ _ hx ↦ Outbox.acknowledged_of_removed (exec_listener hw) hx⟩

/-- An event that is answered with `OK` is delivered. -/
theorem delivered_in_order_ok : ∃ w, (listener ⟨str "mail", str "supervisor", 10⟩ ∅).Reachable w ∧
    Outbox.removed w.2 = [⟨createSupervisorStateChangeRunning 1, 1⟩] ∧
    Outbox.accepted w.2 = Outbox.removed w.2 ++ w.1.events := by
  obtain ⟨w, hw, hp⟩ := Machine.exists_reachable
    (m := listener ⟨str "mail", str "supervisor", 10⟩ ∅)
    (fun w ↦ Outbox.removed w.2 = [⟨createSupervisorStateChangeRunning 1, 1⟩])
    (deliver (createSupervisorStateChangeRunning 1) "OK") (by decide +kernel)
  exact ⟨w, hw, of_decide_eq_true hp, (delivered_in_order hw).1⟩

/-! ## Announcements -/

/-- The listener program answers with `OK` or with `FAIL`. -/
def Known (w : Sys × List (Label Encoded)) (a : Act) : Prop :=
  ∀ b result, w.1.deliver = .judge b result → a = .deliver .ok →
    result = str "OK" ∨ result = str "FAIL"

theorem verdict_ne_unknown {result : Str} (h : result = str "OK" ∨ result = str "FAIL") :
    verdict result ≠ .unknown := by
  unfold verdict
  split
  · nofun
  · rw [if_pos (h.resolve_left ‹_›)]
    nofun

theorem mem_seen_result {s : Sys} {a : Act} {v : Verdict} (h : .result v ∈ s.seen el a) :
    ∃ b result, s.deliver = .judge b result ∧ a = .deliver .ok ∧ v = verdict result := by
  cases a with
  | deliver r =>
      simp only [Sys.seen, Sys.seenDeliver] at h
      split at h
      case h_10 b result hp =>
        cases List.mem_singleton.mp h
        exact ⟨b, result, hp, rfl, rfl⟩
      all_goals first | (split at h <;> simp at h) | simp at h
  | handle t =>
      simp only [Sys.seen] at h
      split at h
      · split at h <;> simp at h
      · cases h
  | call | stop | draw => cases h

theorem unknown_notMem (hw : (listener el eps).Reach Known w) : .result .unknown ∉ w.2 := by
  refine hw.traced_invariant (P := fun _ h ↦ .result .unknown ∉ h) (by nofun) ?_
  intro s h a s' _ hh hk _ hm
  rcases List.mem_append.mp hm with hm | hm
  · exact hh hm
  · obtain ⟨b, result, hp, ha, hv⟩ := mem_seen_result hm
    exact verdict_ne_unknown (hk b result hp ha) hv.symm

/-- **Announcements.**  A listener program that answers with `OK` or with `FAIL` is sent no event
before it has announced, since the last one, that it is ready. -/
theorem ready_before_write (hw : (listener el eps).Reach Known w) : Outbox.Polite w.2 :=
  Outbox.polite (exec_listener hw) (unknown_notMem hw)

/-- `Known` can be met. -/
def knows (w : Sys × List (Label Encoded)) (_ : Act) : Bool := match w.1.deliver with
  | .judge _ result => result = str "OK" ∨ result = str "FAIL"
  | _ => true

theorem known_of_knows {w : Sys × List (Label Encoded)} {a : Act} (h : knows w a) :
    Known w a := by
  intro b result hp _
  simpa [knows, hp] using h

/-- After `FAIL` the event is sent again once the program has announced itself again. -/
theorem ready_before_write_again : ∃ w,
    (listener ⟨str "mail", str "supervisor", 10⟩ ∅).Reach Known w ∧
      w.2.countP Label.isWrite = 2 ∧ Outbox.Polite w.2 := by
  obtain ⟨w, hw, hp⟩ := Machine.exists_reach
    (m := listener ⟨str "mail", str "supervisor", 10⟩ ∅) knows
    (fun w ↦ w.2.countP Label.isWrite = 2)
    ((deliver (createSupervisorStateChangeRunning 1) "FAIL").dropLast ++ writes readyLine ++
      [.deliver .ok, .deliver .ok]) (fun _ _ _ h ↦ known_of_knows h) (by decide +kernel)
  exact ⟨w, hw, of_decide_eq_true hp, ready_before_write hw⟩

/-- A listener program that answers with anything else is sent the event again at once. -/
theorem written_unannounced : ∃ w,
    (listener ⟨str "mail", str "supervisor", 10⟩ ∅).Reachable w ∧ ¬Outbox.Polite w.2 := by
  obtain ⟨w, hw, hp⟩ := Machine.exists_reachable
    (m := listener ⟨str "mail", str "supervisor", 10⟩ ∅)
    (fun w ↦ w.2 = [.accepted ⟨createSupervisorStateChangeRunning 1, 1⟩, .ready,
      .written ⟨createSupervisorStateChangeRunning 1, 1⟩, .result .unknown] ++
      [.written ⟨createSupervisorStateChangeRunning 1, 1⟩])
    (deliver (createSupervisorStateChangeRunning 1) "MAYBE" ++ [.deliver .ok])
    (by decide +kernel)
  refine ⟨w, hw, fun h ↦ ?_⟩
  obtain ⟨a, b, hab, hb⟩ := h _ _ [] (of_decide_eq_true hp) rfl
  -- the only announcement is the one before the first writing
  obtain rfl : b = [.written ⟨createSupervisorStateChangeRunning 1, 1⟩, .result .unknown] := by
    rcases a with _ | ⟨_, _ | ⟨_, _ | ⟨_, _ | ⟨_, a⟩⟩⟩⟩ <;> simp_all
  cases hb _ List.mem_cons_self

end Supervisord.Events
