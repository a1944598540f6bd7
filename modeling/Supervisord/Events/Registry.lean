import Mathlib.Data.List.Induction
import Supervisord.Events.Manager

/-!
# Who receives an event

`run` is the manager after a history of registrations and unregistrations, `current` says who is
registered under a name.  The listeners that receive an event are known from the history alone:
those that are current and have asked for the type, as long as no listener that receives events is
replaced under its name without having been unregistered.
-/

namespace Supervisord.Events

open Go

/-! ## Asking for a type -/

/-- What the table lists for a type. -/
def ancestors (t : Str) : List Str := (eventTypeDerives.lookup t).getD []

/-- The type or one of its ancestors is in the list. -/
def Asks (events : List Str) (t : Str) : Prop := t ∈ events ∨ ∃ a ∈ ancestors t, a ∈ events

/-- A type of the table is asked for. -/
def Wants (events : List Str) (t : Str) : Prop := t ∈ eventTypeDerives ∧ Asks events t

variable {rt : Runtime} {events : List Str} {t : Str}

theorem mem_addEvent {event : Str} {all : Map Str Bool} {kv : Σ _ : Str, List Str} :
    t ∈ addEvent event all kv ↔ t ∈ all ∨ t = kv.1 ∧ (event = kv.1 ∨ event ∈ kv.2) := by
  have hvals :
      t ∈ kv.2.foldl (fun all val ↦ if val = event then all.insert kv.1 true else all) all ↔
        t ∈ all ∨ ∃ val ∈ kv.2, t = kv.1 ∧ val = event := by
    refine foldl_iff (P := (t ∈ ·)) fun all val ↦ ?_
    split
    · rw [AList.mem_insert]
      tauto
    · tauto
  unfold addEvent
  split
  · rename_i hk
    rw [AList.mem_insert]
    tauto
  · rename_i hk
    rw [hvals]
    constructor
    · rintro (h | ⟨val, hval, ht, rfl⟩)
      · exact .inl h
      · exact .inr ⟨ht, .inr hval⟩
    · rintro (h | ⟨ht, he | he⟩)
      · exact .inl h
      · exact absurd he hk
      · exact .inr ⟨event, he, ht, rfl⟩

theorem mem_allEvents : t ∈ allEvents rt events ↔ Wants events t := by
  have hround (all : Map Str Bool) (p : Str × Nat) :
      t ∈ ((rt.fork p.2).range eventTypeDerives.entries).foldl (addEvent p.1) all ↔
        t ∈ all ∨ ∃ kv ∈ (rt.fork p.2).range eventTypeDerives.entries,
          t = kv.1 ∧ (p.1 = kv.1 ∨ p.1 ∈ kv.2) :=
    foldl_iff (P := (t ∈ ·)) fun _ _ ↦ mem_addEvent
  unfold allEvents
  rw [foldl_iff (P := (t ∈ ·)) hround]
  simp only [AList.notMem_empty, false_or, Runtime.mem_range]
  constructor
  · rintro ⟨p, hp, ⟨k, values⟩, hkv, rfl, he⟩
    have hmem : p.1 ∈ events := by
      rw [← List.zipIdx_map_fst 0 events]
      exact List.mem_map_of_mem hp
    have hk : eventTypeDerives.lookup t = some values := AList.mem_lookup_iff.mpr hkv
    refine ⟨AList.lookup_isSome.mp (by rw [hk]; rfl), ?_⟩
    rcases he with he | he
    · rw [he] at hmem
      exact .inl hmem
    · exact .inr ⟨p.1, by rw [ancestors, hk]; exact he, hmem⟩
  · rintro ⟨hk, hasks⟩
    obtain ⟨values, hk⟩ := Option.isSome_iff_exists.mp (AList.lookup_isSome.mpr hk)
    have hfind (e : Str) (he : e ∈ events) : ∃ p ∈ events.zipIdx, p.1 = e := by
      rw [← List.zipIdx_map_fst 0 events] at he
      exact List.mem_map.mp he
    have hkv := AList.mem_lookup_iff.mp hk
    rcases hasks with he | ⟨a, ha, he⟩
    · obtain ⟨p, hp, rfl⟩ := hfind t he
      exact ⟨p, hp, _, hkv, rfl, .inl rfl⟩
    · obtain ⟨p, hp, rfl⟩ := hfind a he
      rw [ancestors, hk] at ha
      exact ⟨p, hp, _, hkv, rfl, .inr ha⟩

/-! ## One call -/

namespace EventListenerManager

variable {em : EventListenerManager} {name : Str} {l listener : ListenerId}

/-- A listener receives the events of a type. -/
def Listens (em : EventListenerManager) (t : Str) (l : ListenerId) : Prop :=
  Multimap.Has em.eventListeners t l

theorem mem_emitEvent : l ∈ em.emitEvent rt t ↔ em.Listens t l := by
  unfold emitEvent Listens Multimap.Has
  cases em.eventListeners.lookup t with
  | none => simp
  | some ls => simp [AList.mem_keys]

theorem nodup_emitEvent : (em.emitEvent rt t).Nodup := by
  unfold emitEvent
  split
  · rename_i ls _
    exact (rt.range_perm _).nodup_iff.mpr ls.keys_nodup
  · exact .nil

theorem named_register (name' : Str) :
    (em.registerEventListener rt name events listener).namedListeners.lookup name' =
      if name' = name then some listener else em.namedListeners.lookup name' := by
  unfold registerEventListener
  split
  · rename_i he
    subst he
    exact AList.lookup_insert _
  · exact AList.lookup_insert_ne ‹_›

theorem named_unregister (name' : Str) :
    (em.unregisterEventListener rt name).1.namedListeners.lookup name' =
      if name' = name then none else em.namedListeners.lookup name' := by
  unfold unregisterEventListener
  by_cases he : name' = name
  · subst he
    rw [if_pos rfl]
    cases hn : em.namedListeners.lookup name' with
    | none => exact hn
    | some l => exact AList.lookup_erase _ _
  · rw [if_neg he]
    cases em.namedListeners.lookup name with
    | none => rfl
    | some l => exact AList.lookup_erase_ne he

theorem listens_register : (em.registerEventListener rt name events listener).Listens t l ↔
    em.Listens t l ∨ l = listener ∧ Wants events t := by
  unfold Listens registerEventListener
  rw [Multimap.has_foldl_add, Runtime.mem_range, ← AList.mem_keys, mem_allEvents]
  tauto

theorem listens_unregister : (em.unregisterEventListener rt name).1.Listens t l ↔
    em.Listens t l ∧ em.namedListeners.lookup name ≠ some l := by
  unfold unregisterEventListener
  cases em.namedListeners.lookup name with
  | none => simp
  | some listener =>
      unfold Listens
      rw [Multimap.has_foldl_drop, Runtime.mem_range, ← AList.mem_keys, Ne, Option.some_inj]
      constructor
      · rintro ⟨h, hn⟩
        exact ⟨h, fun he ↦ hn ⟨h.mem, he.symm⟩⟩
      · rintro ⟨h, hn⟩
        exact ⟨h, fun he ↦ hn he.2.symm⟩

end EventListenerManager

/-! ## Histories -/

structure Registration where
  eventListenerName : Str
  events : List Str
  listener : ListenerId
deriving DecidableEq

inductive Call where
  | register (r : Registration)
  | unregister (eventListenerName : Str)
deriving DecidableEq

/-- The calls made on a manager, each with the choices of the runtime. -/
abbrev History := List (Runtime × Call)

def Call.exec (em : EventListenerManager) (rt : Runtime) : Call → EventListenerManager
  | .register r => em.registerEventListener rt r.eventListenerName r.events r.listener
  | .unregister name => (em.unregisterEventListener rt name).1

/-- The manager after a history. -/
def run (h : History) : EventListenerManager := h.foldl (fun em c ↦ c.2.exec em c.1) {}

def Call.registration? : Call → Option Registration
  | .register r => some r
  | .unregister _ => none

/-- All registrations of a history. -/
def registrations (h : History) : List Registration := h.filterMap fun c ↦ c.2.registration?

/-- Who is registered under a name once a call is made. -/
def Call.after (m : Str → Option Registration) : Call → Str → Option Registration
  | .register r => Function.update m r.eventListenerName (some r)
  | .unregister name => Function.update m name none

/-- Who is registered under a name. -/
def current (h : History) : Str → Option Registration :=
  h.foldl (fun m c ↦ c.2.after m) fun _ ↦ none

/-- Each registration brings a new listener. -/
def NewListeners (h : History) : Prop := ((registrations h).map (·.listener)).Nodup

variable {h : History} {c : Runtime × Call} {name : Str} {r r' : Registration} {l : ListenerId}

theorem run_concat (h : History) (c : Runtime × Call) : run (h ++ [c]) = c.2.exec (run h) c.1 :=
  List.foldl_append

theorem current_concat (h : History) (c : Runtime × Call) :
    current (h ++ [c]) = c.2.after (current h) :=
  List.foldl_append

theorem registrations_append (h h' : History) :
    registrations (h ++ h') = registrations h ++ registrations h' :=
  List.filterMap_append

theorem NewListeners.left {h' : History} (hn : NewListeners (h ++ h')) : NewListeners h := by
  unfold NewListeners at hn ⊢
  rw [registrations_append, List.map_append] at hn
  exact (List.nodup_append.mp hn).1

theorem NewListeners.eq (hn : NewListeners h) (hr : r ∈ registrations h)
    (hr' : r' ∈ registrations h) (hl : r.listener = r'.listener) : r = r' :=
  List.inj_on_of_nodup_map hn hr hr' hl

theorem NewListeners.ne {b : History} {rt : Runtime}
    (hn : NewListeners (h ++ (rt, .register r') :: b)) (hr : r ∈ registrations h) : r ≠ r' := by
  unfold NewListeners at hn
  rw [registrations_append, List.map_append] at hn
  rintro rfl
  exact (List.nodup_append.mp hn).2.2 _ (List.mem_map_of_mem hr) _ List.mem_cons_self rfl

/-- The manager knows who is current, and whoever is receives what it has asked for. -/
structure Registered (h : History) : Prop where
  named : ∀ name, (run h).namedListeners.lookup name = (current h name).map (·.listener)
  mem : ∀ name r, current h name = some r → r ∈ registrations h ∧ r.eventListenerName = name
  listens : ∀ name r t, current h name = some r → Wants r.events t →
    (run h).Listens t r.listener

theorem registered (hn : NewListeners h) : Registered h := by
  induction h using List.reverseRecOn with
  | nil => exact ⟨fun _ ↦ rfl, by nofun, by nofun⟩
  | append_singleton h c ih =>
      have hh := ih hn.left
      obtain ⟨rt, c⟩ := c
      cases c with
      | register r =>
          have hcur (name : Str) : current (h ++ [(rt, .register r)]) name =
              if name = r.eventListenerName then some r else current h name := by
            rw [current_concat]
            exact Function.update_apply _ _ _ _
          refine ⟨fun name ↦ ?_, fun name r' hr' ↦ ?_, fun name r' t hr' hw ↦ ?_⟩
          · rw [hcur, run_concat, Call.exec, EventListenerManager.named_register, hh.named]
            split <;> rfl
          · rw [hcur] at hr'
            rw [registrations_append]
            split at hr'
            · rename_i he
              cases hr'
              exact ⟨List.mem_append_right _ List.mem_cons_self, he.symm⟩
            · exact (hh.mem name r' hr').imp_left (List.mem_append_left _)
          · rw [run_concat]
            refine EventListenerManager.listens_register.mpr ?_
            rw [hcur] at hr'
            split at hr'
            · cases hr'
              exact .inr ⟨rfl, hw⟩
            · exact .inl (hh.listens name r' t hr' hw)
      | unregister n =>
          have hcur (name : Str) : current (h ++ [(rt, .unregister n)]) name =
              if name = n then none else current h name := by
            rw [current_concat]
            exact Function.update_apply _ _ _ _
          refine ⟨fun name ↦ ?_, fun name r hr ↦ ?_, fun name r t hr hw ↦ ?_⟩
          · rw [hcur, run_concat, Call.exec, EventListenerManager.named_unregister, hh.named]
            split <;> rfl
          · rw [hcur] at hr
            rw [registrations_append]
            split at hr
            · cases hr
            · exact (hh.mem name r hr).imp_left (List.mem_append_left _)
          · rw [hcur] at hr
            split at hr
            · cases hr
            · rename_i hne
              rw [run_concat]
              refine EventListenerManager.listens_unregister.mpr ⟨hh.listens name r t hr hw, ?_⟩
              rw [hh.named]
              intro he
              obtain ⟨r', hr', hl⟩ := Option.map_eq_some_iff.mp he
              obtain ⟨hm, hname⟩ := hh.mem name r hr
              obtain ⟨hm', hname'⟩ := hh.mem n r' hr'
              rw [hn.left.eq hm hm' hl.symm, hname'] at hname
              exact hne hname.symm

/-- No listener that receives events is replaced under its name. -/
def Unreplaced (h : History) : Prop :=
  ∀ a rt r' b, h = a ++ (rt, .register r') :: b → ∀ r, current a r'.eventListenerName = some r →
    ∀ t, ¬Wants r.events t

theorem Unreplaced.left {h' : History} (hu : Unreplaced (h ++ h')) : Unreplaced h := by
  rintro a rt r' b rfl
  exact hu a rt r' (b ++ h') (by rw [List.append_assoc, List.cons_append])

/-- Only current listeners receive events. -/
theorem current_of_listens (hn : NewListeners h) (hu : Unreplaced h) {t : Str}
    (hl : (run h).Listens t l) :
    ∃ name r, current h name = some r ∧ r.listener = l ∧ Wants r.events t := by
  induction h using List.reverseRecOn with
  | nil => exact absurd hl Multimap.has_empty
  | append_singleton h c ih =>
      rw [run_concat] at hl
      rw [current_concat]
      obtain ⟨rt, c⟩ := c
      cases c with
      | register r' =>
          rcases EventListenerManager.listens_register.mp hl with hl | ⟨rfl, hw⟩
          · obtain ⟨name, r, hr, hrl, hw⟩ := ih hn.left hu.left hl
            refine ⟨name, r, ?_, hrl, hw⟩
            have hne : name ≠ r'.eventListenerName := by
              rintro rfl
              exact hu h rt r' [] rfl r hr t hw
            exact (Function.update_of_ne hne _ _).trans hr
          · exact ⟨_, r', Function.update_self _ _ _, rfl, hw⟩
      | unregister n =>
          obtain ⟨hl, hnamed⟩ := EventListenerManager.listens_unregister.mp hl
          obtain ⟨name, r, hr, hrl, hw⟩ := ih hn.left hu.left hl
          refine ⟨name, r, ?_, hrl, hw⟩
          have hne : name ≠ n := by
            rintro rfl
            refine hnamed ?_
            rw [(registered hn.left).named, hr, ← hrl]
            rfl
          exact (Function.update_of_ne hne _ _).trans hr

/-- A listener that has been registered and is not current any more: its name has been registered
again or unregistered. -/
def Retired (h : History) (l : ListenerId) : Prop :=
  ∃ r ∈ registrations h, r.listener = l ∧ current h r.eventListenerName ≠ some r

/-- **Retired listeners.**  Listeners whose name has been registered again or unregistered receive
nothing, at any time, exactly when no listener that has asked for events is replaced under its name
without having been unregistered. -/
theorem retired_receive_nothing_iff (hn : NewListeners h) :
    (∀ h', h' <+: h → ∀ l, Retired h' l → ∀ rt t, l ∉ (run h').emitEvent rt t) ↔
      Unreplaced h := by
  constructor
  · rintro hs a rt r' b rfl r hr t hw
    have hna : NewListeners a := hn.left
    have hra := registered hna
    obtain ⟨hm, hname⟩ := hra.mem _ r hr
    have hpre : a ++ [(rt, Call.register r')] <+: a ++ (rt, Call.register r') :: b :=
      ⟨b, by rw [List.append_assoc]; rfl⟩
    -- the listener is retired by this registration, and is still in the sets
    have hret : Retired (a ++ [(rt, Call.register r')]) r.listener := by
      refine ⟨r, ?_, rfl, ?_⟩
      · rw [registrations_append]
        exact List.mem_append_left _ hm
      · rw [current_concat, hname]
        refine fun he ↦ (hn.ne hm) ?_
        rw [Call.after, Function.update_self, Option.some_inj] at he
        exact he.symm
    refine hs _ hpre _ hret rt t (EventListenerManager.mem_emitEvent.mpr ?_)
    rw [run_concat]
    exact EventListenerManager.listens_register.mpr (.inl (hra.listens _ r t hr hw))
  · rintro hu h' ⟨b, rfl⟩ l ⟨r, hm, hrl, hc⟩ rt t hmem
    obtain ⟨name, r', hr', hrl', -⟩ :=
      current_of_listens hn.left hu.left (EventListenerManager.mem_emitEvent.mp hmem)
    obtain ⟨hm', hname⟩ := (registered hn.left).mem name r' hr'
    rw [hn.left.eq hm hm' (hrl.trans hrl'.symm), hname] at hc
    exact hc hr'

/-- A listener that is unregistered before its name is registered again. -/
theorem retired_receive_nothing_unregistered :
    let h : History := [(.inOrder, .register ⟨str "mail", [str "TICK_5"], 1⟩),
      (.inOrder, .unregister (str "mail")),
      (.inOrder, .register ⟨str "mail", [str "TICK_5"], 2⟩)]
    ∀ h', h' <+: h → ∀ l, Retired h' l → ∀ rt t, l ∉ (run h').emitEvent rt t := by
  refine (retired_receive_nothing_iff (by unfold NewListeners; decide)).mpr ?_
  intro a rt r' b he r hr
  rcases a with _ | ⟨c, _ | ⟨c', _ | ⟨c'', a⟩⟩⟩
  · cases hr
  · cases he
  · cases he
    simp [current, Call.after] at hr
  · simp at he

/-- A listener whose name is registered again goes on to receive events. -/
theorem replaced_receives :
    let h : History := [(.inOrder, .register ⟨str "mail", [str "TICK_5"], 1⟩),
      (.inOrder, .register ⟨str "mail", [str "TICK_5"], 2⟩)]
    NewListeners h ∧ Retired h 1 ∧ 1 ∈ (run h).emitEvent .inOrder (str "TICK_5") := by
  refine ⟨by unfold NewListeners; decide, ?_, EventListenerManager.mem_emitEvent.mpr ?_⟩
  · exact ⟨⟨str "mail", [str "TICK_5"], 1⟩, by decide, rfl, by decide⟩
  · exact EventListenerManager.listens_register.mpr (.inl
      (EventListenerManager.listens_register.mpr
        (.inr ⟨rfl, by decide, .inl List.mem_cons_self⟩)))

/-! ## Exactly once -/

/-- Each registration is under a new name. -/
def NewNames (h : History) : Prop := ((registrations h).map (·.eventListenerName)).Nodup

theorem NewNames.unreplaced (hn : NewNames h) (hl : NewListeners h) : Unreplaced h := by
  rintro a rt r' b rfl r hr t -
  obtain ⟨hm, hname⟩ := (registered hl.left).mem _ r hr
  unfold NewNames at hn
  rw [registrations_append, List.map_append] at hn
  exact (List.nodup_append.mp hn).2.2 _ (List.mem_map_of_mem hm) _ List.mem_cons_self hname

/-- **Who receives an event.**  When distinct listeners have been registered under distinct names,
an event of a type of the table is handled exactly once by each listener that is registered and has
asked for the type or for an ancestor of it, and by no other; an event of any other type is handled
by none. -/
theorem emitEvent_once (hl : NewListeners h) (hn : NewNames h) (rt : Runtime) (t : Str) :
    ((run h).emitEvent rt t).Nodup ∧ ∀ l, l ∈ (run h).emitEvent rt t ↔
      t ∈ eventTypeDerives ∧ ∃ name r, current h name = some r ∧ r.listener = l ∧
        Asks r.events t := by
  refine ⟨EventListenerManager.nodup_emitEvent, fun l ↦ ?_⟩
  rw [EventListenerManager.mem_emitEvent]
  constructor
  · intro h
    obtain ⟨name, r, hr, hrl, ht, ha⟩ := current_of_listens hl (hn.unreplaced hl) h
    exact ⟨ht, name, r, hr, hrl, ha⟩
  · rintro ⟨ht, name, r, hr, rfl, ha⟩
    exact (registered hl).listens name r t hr ⟨ht, ha⟩

/-- Overlapping requests, and a listener that has been unregistered. -/
theorem emitEvent_once_overlapping :
    let h : History := [(.inOrder, .register ⟨str "a", [str "EVENT", str "TICK_5", str "TICK"], 1⟩),
      (.inOrder, .register ⟨str "b", [str "TICK"], 2⟩), (.inOrder, .unregister (str "b"))]
    ((run h).emitEvent .inOrder (str "TICK_5")).Nodup ∧
      1 ∈ (run h).emitEvent .inOrder (str "TICK_5") ∧
      2 ∉ (run h).emitEvent .inOrder (str "TICK_5") := by
  intro h
  obtain ⟨hnd, hmem⟩ := emitEvent_once (h := h) (by unfold NewListeners; decide)
    (by unfold NewNames; decide) .inOrder (str "TICK_5")
  refine ⟨hnd, (hmem 1).mpr ⟨by decide, str "a", _, rfl, rfl, .inl (by decide)⟩, fun h2 ↦ ?_⟩
  obtain ⟨-, name, r, hr, hrl, -⟩ := (hmem 2).mp h2
  simp only [h, current, Call.after, List.foldl_cons, List.foldl_nil, Function.update_apply] at hr
  split at hr
  · cases hr
  · split at hr
    · cases hr
      cases hrl
    · cases hr

/-- The events the program creates. -/
inductive Created : Event → Prop
  | remoteCommunication (n : UInt64) (typ data : Str) :
      Created (newRemoteCommunicationEvent n typ data)
  | procCommStdout (n : UInt64) (proc group : Str) (pid : Int) (data : Str) :
      Created (newProcCommEvent n (str "PROCESS_COMMUNICATION_STDOUT") proc group pid data)
  | procCommStderr (n : UInt64) (proc group : Str) (pid : Int) (data : Str) :
      Created (newProcCommEvent n (str "PROCESS_COMMUNICATION_STDERR") proc group pid data)
  | tick (n : UInt64) {period : Nat} (hp : period ∈ [5, 60, 3600]) (time : Int) :
      Created (newTickEvent n (str "TICK_" ++ Str.itoa period) time)
  | starting (n : UInt64) (process group fromState : Str) (tries : Int) :
      Created (createProcessStartingEvent n process group fromState tries)
  | running (n : UInt64) (process group fromState : Str) (pid : Int) :
      Created (createProcessRunningEvent n process group fromState pid)
  | backoff (n : UInt64) (process group fromState : Str) (tries : Int) :
      Created (createProcessBackoffEvent n process group fromState tries)
  | stopping (n : UInt64) (process group fromState : Str) (pid : Int) :
      Created (createProcessStoppingEvent n process group fromState pid)
  | exited (n : UInt64) (process group fromState : Str) (expected pid : Int) :
      Created (createProcessExitedEvent n process group fromState expected pid)
  | stopped (n : UInt64) (process group fromState : Str) (pid : Int) :
      Created (createProcessStoppedEvent n process group fromState pid)
  | fatal (n : UInt64) (process group fromState : Str) :
      Created (createProcessFatalEvent n process group fromState)
  | unknown (n : UInt64) (process group fromState : Str) :
      Created (createProcessUnknownEvent n process group fromState)
  | stateChangeRunning (n : UInt64) : Created (createSupervisorStateChangeRunning n)
  | stateChangeStopping (n : UInt64) : Created (createSupervisorStateChangeStopping n)
  | logStdout (n : UInt64) (proc group : Str) (pid : Int) (data : Str) :
      Created (createProcessLogStdoutEvent n proc group pid data)
  | logStderr (n : UInt64) (proc group : Str) (pid : Int) (data : Str) :
      Created (createProcessLogStderrEvent n proc group pid data)
  | groupAdded (n : UInt64) (group : Str) : Created (createProcessGroupAddedEvent n group)
  | groupRemoved (n : UInt64) (group : Str) : Created (createProcessGroupRemovedEvent n group)

/-- The types of the events the program creates are in the table. -/
theorem Created.getType_mem {e : Event} (h : Created e) : e.getType ∈ eventTypeDerives := by
  have hkeys : ∀ k ∈ eventTypes.map (·.1), str k ∈ eventTypeDerives := by decide +kernel
  cases h with
  | tick n hp time =>
      have : ∀ p ∈ [5, 60, 3600], str "TICK_" ++ Str.itoa p ∈ eventTypeDerives := by decide
      exact this _ hp
  | _ => exact hkeys _ (by simp [eventTypes])

/-- A type that is not in the table reaches nobody, not even who asks for it by name. -/
theorem emitEvent_unknown :
    let h : History := [(.inOrder, .register ⟨str "a", [str "FOO"], 1⟩)]
    NewListeners h ∧ NewNames h ∧ (∃ name r, current h name = some r ∧ r.listener = 1 ∧
      Asks r.events (str "FOO")) ∧ 1 ∉ (run h).emitEvent .inOrder (str "FOO") := by
  refine ⟨by unfold NewListeners; decide, by unfold NewNames; decide,
    ⟨str "a", _, rfl, rfl, .inl List.mem_cons_self⟩, fun hm ↦ ?_⟩
  rcases EventListenerManager.listens_register.mp (EventListenerManager.mem_emitEvent.mp hm) with
    h | ⟨-, ht, -⟩
  · exact Multimap.has_empty h
  · exact absurd ht (by decide)

end Supervisord.Events
