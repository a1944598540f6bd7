import Mathlib.Data.List.Chain
import Supervisord.Events.Event
import Supervisord.Machine.Watch

/-!
# Ticks

`startTickTimer` looks at the clock every second and emits an event of a type for each five seconds,
each minute and each hour that begins.  `startTickTimer_ticks` says which events that are, whatever
the clock shows and in whichever order the types are visited.
-/

namespace Supervisord.Events

open Go Watch

/-- The types of the ticks, each with its period in seconds. -/
def tickConfigs : Map Str Int where
  entries := [⟨str "TICK_5", 5⟩, ⟨str "TICK_60", 60⟩, ⟨str "TICK_3600", 3600⟩]
  nodupKeys := show List.Nodup [str "TICK_5", str "TICK_60", str "TICK_3600"] by decide

/-- The number of the period in which a time is. -/
def timeSlice (period now : Int) : Int := now.tdiv period

/-- What the goroutine of the timer knows, and the events it has emitted. -/
structure TickTimer where
  lastTickSlice : Map Str Int := ∅
  emitted : List Event := []

namespace TickTimer

variable (draw : Nat → UInt64)

/-- A round of the inner loop.  `draw` has the serials that `nextEventSerial` draws for the timer,
which is not the only one to draw. -/
def round (now : Int) (s : TickTimer) (cfg : (_ : Str) × Int) : TickTimer :=
  let timeSlice := timeSlice cfg.2 now
  match s.lastTickSlice.lookup cfg.1 with
  | none => { s with lastTickSlice := s.lastTickSlice.insert cfg.1 timeSlice }
  | some lastTimeSlice =>
    if lastTimeSlice = timeSlice then s
    else
      { lastTickSlice := s.lastTickSlice.insert cfg.1 timeSlice
        emitted := s.emitted ++ [newTickEvent (draw s.emitted.length) cfg.1 now] }

/-- A round of the outer loop. -/
def tick (s : TickTimer) (c : Runtime × Int) : TickTimer :=
  (c.1.range tickConfigs.entries).foldl (round draw c.2) s

end TickTimer

/-- The loops of `startTickTimer`, for what the clock shows at each look. -/
def startTickTimer (draw : Nat → UInt64) (clock : List (Runtime × Int)) : TickTimer :=
  clock.foldl (TickTimer.tick draw) {}

/-! ## The events of one type -/

/-- The body of a tick. -/
def whenBody (now : Int) : Str := str "when:" ++ Str.formatInt now

namespace TickTimer

variable {draw : Nat → UInt64} {now : Int} {s : TickTimer} {tickType : Str} {period v : Int}
  {cfg : (_ : Str) × Int} {l : List ((_ : Str) × Int)}

/-- The bodies of the events of a type. -/
def bodies (s : TickTimer) (tickType : Str) : List Str :=
  (s.emitted.filter (·.getType = tickType)).map (·.getBody)

/-- All that there is of a type. -/
def seen (s : TickTimer) (tickType : Str) : Option Int × List Str :=
  (s.lastTickSlice.lookup tickType, s.bodies tickType)

/-- A look at the clock, for one type. -/
def look (period now : Int) : Option Int × List Str → Option Int × List Str
  | (none, bodies) => (some (timeSlice period now), bodies)
  | (some v, bodies) =>
    (some (timeSlice period now), bodies ++ (changes (timeSlice period) v [now]).map whenBody)

theorem seen_round_of_ne (h : cfg.1 ≠ tickType) :
    (s.round draw now cfg).seen tickType = s.seen tickType := by
  unfold round
  dsimp only
  split
  · exact congrArg (·, _) (AList.lookup_insert_ne h.symm)
  · split
    · rfl
    · refine Prod.ext (AList.lookup_insert_ne h.symm) ?_
      simp [seen, bodies, newTickEvent, h]

theorem seen_round :
    (s.round draw now ⟨tickType, period⟩).seen tickType = look period now (s.seen tickType) := by
  unfold round seen
  dsimp only
  cases h : s.lastTickSlice.lookup tickType with
  | none => exact congrArg (·, _) (AList.lookup_insert _)
  | some v =>
      dsimp only [look]
      by_cases hv : v = timeSlice period now
      · rw [if_pos hv, changes_cons_of_eq hv, ← hv, h]
        exact congrArg (_, ·) (List.append_nil _).symm
      · rw [if_neg hv, changes_cons_of_ne hv]
        refine Prod.ext (AList.lookup_insert _) ?_
        simp [bodies, newTickEvent, changes, whenBody]

/-- Rounds for other types. -/
theorem seen_foldl_of_notMem (h : tickType ∉ l.keys) :
    (l.foldl (round draw now) s).seen tickType = s.seen tickType := by
  induction l generalizing s with
  | nil => rfl
  | cons cfg l ih =>
      rw [List.keys_cons, List.mem_cons, not_or] at h
      rw [List.foldl_cons, ih h.2, seen_round_of_ne (Ne.symm h.1)]

/-- Whatever the order, a look is one at each type. -/
theorem seen_tick (draw : Nat → UInt64) (s : TickTimer)
    (h : tickConfigs.lookup tickType = some period) (c : Runtime × Int) :
    (s.tick draw c).seen tickType = look period c.2 (s.seen tickType) := by
  have hperm := c.1.range_perm tickConfigs.entries
  obtain ⟨l, l', hl⟩ := List.append_of_mem (hperm.mem_iff.mpr (AList.mem_lookup_iff.mp h))
  have hnodup : (l ++ ⟨tickType, period⟩ :: l').NodupKeys :=
    hl ▸ (List.perm_nodupKeys hperm).mpr tickConfigs.nodupKeys
  obtain ⟨hnot, -⟩ := List.nodupKeys_cons.mp (List.nodupKeys_middle.mp hnodup)
  rw [List.keys_append, List.mem_append, not_or] at hnot
  rw [tick, hl, List.foldl_append, List.foldl_cons, seen_foldl_of_notMem hnot.2, seen_round,
    seen_foldl_of_notMem hnot.1]

theorem seen_foldl_tick (h : tickConfigs.lookup tickType = some period)
    {clock : List (Runtime × Int)} (hs : s.lastTickSlice.lookup tickType = some v) :
    (clock.foldl (tick draw) s).bodies tickType = s.bodies tickType ++
      (changes (timeSlice period) v (clock.map (·.2))).map whenBody := by
  induction clock generalizing s v with
  | nil => exact (List.append_nil _).symm
  | cons c clock ih =>
      have hseen := seen_tick draw s h c
      rw [seen, seen, hs, look] at hseen
      obtain ⟨hslice, hbodies⟩ := Prod.mk.inj hseen
      rw [List.foldl_cons, ih hslice, hbodies, List.append_assoc, ← List.map_append]
      congr 2
      by_cases hv : v = timeSlice period c.2
      · rw [List.map_cons, changes_cons_of_eq hv, changes_cons_of_eq hv, hv]
        rfl
      · rw [List.map_cons, changes_cons_of_ne hv, changes_cons_of_ne hv]
        rfl

end TickTimer

/-! ## All events -/

namespace TickTimer

variable {draw : Nat → UInt64} {now : Int} {s : TickTimer} {cfg : (_ : Str) × Int}
  {l : List ((_ : Str) × Int)}

/-- The events have the serials drawn for them, and are ticks. -/
def Wf (draw : Nat → UInt64) (s : TickTimer) : Prop :=
  s.emitted.map (·.getSerial) = (List.range s.emitted.length).map draw ∧
    ∀ e ∈ s.emitted, e.getType ∈ tickConfigs

theorem Wf.round (h : s.Wf draw) (hcfg : cfg.1 ∈ tickConfigs) :
    (s.round draw now cfg).Wf draw := by
  unfold TickTimer.round
  dsimp only
  split
  · exact h
  · split
    · exact h
    · refine ⟨?_, fun e he ↦ ?_⟩
      · rw [List.map_append, h.1, List.length_append, List.length_singleton, List.range_succ,
          List.map_append]
        rfl
      · rcases List.mem_append.mp he with he | he
        · exact h.2 e he
        · obtain rfl := List.mem_singleton.mp he
          exact hcfg

theorem Wf.foldl_round (hl : ∀ cfg ∈ l, cfg.1 ∈ tickConfigs) (h : s.Wf draw) :
    (l.foldl (TickTimer.round draw now) s).Wf draw := by
  induction l generalizing s with
  | nil => exact h
  | cons cfg l ih =>
      obtain ⟨hcfg, hl⟩ := List.forall_mem_cons.mp hl
      exact ih hl (h.round hcfg)

theorem Wf.foldl_tick {clock : List (Runtime × Int)} (h : s.Wf draw) :
    (clock.foldl (tick draw) s).Wf draw := by
  induction clock generalizing s with
  | nil => exact h
  | cons c clock ih =>
      exact ih (h.foldl_round fun cfg hcfg ↦
        AList.mem_keys.mpr (List.mem_map.mpr ⟨cfg, Runtime.mem_range.mp hcfg, rfl⟩))

end TickTimer

/-! ## The clock -/

variable {period now : Int} {times : List Int}

theorem timeSlice_le {a b : Int} (hp : 0 < period) (h : a ≤ b) :
    timeSlice period a ≤ timeSlice period b :=
  Int.tdiv_le_tdiv hp h

theorem timeSlice_le_succ {a b : Int} (hp : 0 < period) (h : b ≤ a + period) :
    timeSlice period b ≤ timeSlice period a + 1 := by
  refine Int.le_trans (timeSlice_le hp h) ?_
  rw [timeSlice, timeSlice, Int.tdiv_eq_ediv, Int.tdiv_eq_ediv,
    Int.add_ediv_of_dvd_right (Int.dvd_refl period), Int.ediv_self (Int.ne_of_gt hp)]
  by_cases ha : 0 ≤ a ∨ period ∣ a
  · have hb : 0 ≤ a + period ∨ period ∣ a + period :=
      ha.imp (fun ha ↦ Int.add_nonneg ha (Int.le_of_lt hp)) fun ha ↦
        Int.dvd_add ha (Int.dvd_refl period)
    rw [if_pos ha, if_pos hb]
    omega
  · rw [if_neg ha, Int.sign_eq_one_of_pos hp]
    split <;> omega

/-- The clock is not set back. -/
theorem isChain_timeSlice (hp : 0 < period) (h : (now :: times).IsChain (· ≤ ·)) :
    (timeSlice period now :: times.map (timeSlice period)).IsChain (· ≤ ·) :=
  List.isChain_map_of_isChain (timeSlice period) (fun _ _ ↦ timeSlice_le hp) h

/-- The clock does not skip a period. -/
theorem isChain_timeSlice_succ (hp : 0 < period)
    (h : (now :: times).IsChain fun a b ↦ b ≤ a + period) :
    (timeSlice period now :: times.map (timeSlice period)).IsChain fun a b ↦ b ≤ a + 1 :=
  List.isChain_map_of_isChain (timeSlice period) (fun _ _ ↦ timeSlice_le_succ hp) h

theorem pos_of_lookup {tickType : Str} (h : tickConfigs.lookup tickType = some period) :
    0 < period := by
  have hmem := AList.mem_lookup_iff.mp h
  simp only [tickConfigs, List.mem_cons, Sigma.mk.injEq, heq_eq_eq, List.not_mem_nil,
    or_false] at hmem
  omega

/-- A longer period begins only where a shorter one begins that goes into it. -/
theorem timeSlice_mul (p q : Nat) (now : Int) :
    timeSlice (p * q) now = timeSlice q (timeSlice p now) := by
  unfold timeSlice
  obtain ⟨n, rfl | rfl⟩ := now.eq_nat_or_neg
  · rw [← Int.natCast_mul, ← Int.ofNat_tdiv, ← Int.ofNat_tdiv, ← Int.ofNat_tdiv,
      Nat.div_div_eq_div_mul]
  · rw [Int.neg_tdiv, Int.neg_tdiv, Int.neg_tdiv, ← Int.natCast_mul, ← Int.ofNat_tdiv,
      ← Int.ofNat_tdiv, ← Int.ofNat_tdiv, Nat.div_div_eq_div_mul]

/-- **Ticks.**  The events of a type are those for the looks at the clock that find another period
than the look before, in the order of the looks and each with the time of its look; there are no
others.  An event of a longer period never comes without one of each shorter period.  If the clock
is not set back, then no period has two events, and each period that begins has one unless the clock
has skipped one. -/
theorem startTickTimer_ticks (draw : Nat → UInt64) (rt : Runtime) (now : Int)
    (clock : List (Runtime × Int)) : let s := startTickTimer draw ((rt, now) :: clock)
    s.emitted.map (·.getSerial) = (List.range s.emitted.length).map draw ∧
    (∀ e ∈ s.emitted, e.getType ∈ tickConfigs) ∧
    (s.bodies (str "TICK_3600")).Sublist (s.bodies (str "TICK_60")) ∧
    (s.bodies (str "TICK_60")).Sublist (s.bodies (str "TICK_5")) ∧
    ∀ tickType period, tickConfigs.lookup tickType = some period → ∃ times,
      times = changes (timeSlice period) (timeSlice period now) (clock.map (·.2)) ∧
      s.bodies tickType = times.map whenBody ∧
      ((now :: clock.map (·.2)).IsChain (· ≤ ·) →
        (timeSlice period now :: times.map (timeSlice period)).IsChain (· < ·) ∧
        times.length ≤
          timeSlice period ((clock.map (·.2)).getLastD now) - timeSlice period now ∧
        ((now :: clock.map (·.2)).IsChain (fun a b ↦ b ≤ a + period) → times.length =
          timeSlice period ((clock.map (·.2)).getLastD now) - timeSlice period now)) := by
  have hbodies (tickType : Str) (period : Int) (h : tickConfigs.lookup tickType = some period) :
      (startTickTimer draw ((rt, now) :: clock)).bodies tickType =
        (changes (timeSlice period) (timeSlice period now) (clock.map (·.2))).map whenBody := by
    have hfirst := TickTimer.seen_tick draw {} h (rt, now)
    obtain ⟨hslice, hnil⟩ := Prod.mk.inj hfirst
    rw [startTickTimer, List.foldl_cons, TickTimer.seen_foldl_tick h hslice, hnil]
    rfl
  have hnested {p q : Nat} {t : List Int} :
      (changes (timeSlice (p * q)) (timeSlice (p * q) now) t).Sublist
        (changes (timeSlice p) (timeSlice p now) t) :=
    changes_sublist_of_imp (fun a b h ↦ by rw [timeSlice_mul, timeSlice_mul, h]) t
  obtain ⟨hserial, htype⟩ : (startTickTimer draw ((rt, now) :: clock)).Wf draw :=
    TickTimer.Wf.foldl_tick ⟨rfl, by rintro e ⟨⟩⟩
  refine ⟨hserial, htype, ?_, ?_, fun tickType period h ↦ ?_⟩
  · rw [hbodies _ 3600 rfl, hbodies _ 60 rfl]
    exact (@hnested 60 60 _).map whenBody
  · rw [hbodies _ 60 rfl, hbodies _ 5 rfl]
    exact (@hnested 5 12 _).map whenBody
  · refine ⟨_, rfl, hbodies _ _ h, fun hle ↦ ?_⟩
    have hp := pos_of_lookup h
    have hchain := isChain_timeSlice hp hle
    obtain ⟨hlen, heq⟩ := length_changes hchain
    rw [List.getLastD_map] at hlen heq
    exact ⟨isChain_changes hchain, hlen, fun hstep ↦ heq.mpr (isChain_timeSlice_succ hp hstep)⟩

end Supervisord.Events
