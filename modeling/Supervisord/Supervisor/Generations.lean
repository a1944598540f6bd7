import Supervisord.Machine.Basic

/-!
# One supervisor after the other

`runServer` makes a supervisor, waits until all its processes are stopped, and makes another one.
Each has its own HTTP servers: `startHTTPServer` launches a goroutine for each protocol and waits on
a condition variable for its callback, `startedCb`.  What a server listens on is not given up by the
next supervisor, which has a list of listeners of its own.  A server that cannot listen calls the
callback like any other, and then ends the program.

`runServer_servers` says that the callback is never missed, and what becomes of supervisors that
have to listen on one address.
-/

universe u

namespace Supervisord.RunServer

inductive Protocol
  | tcp
  | unix
deriving DecidableEq

/-- Where the main goroutine is. -/
inductive MainPc
  /-- at the settings for the protocol -/
  | start (p : Protocol)
  /-- has the lock and has launched the goroutine -/
  | wait (p : Protocol)
  /-- is in `cond.Wait` -/
  | asleep (p : Protocol)
  /-- has been signalled, and needs the lock to go on -/
  | woken (p : Protocol)
  /-- in `WaitForExit` -/
  | running
deriving DecidableEq

/-- Where the goroutine of a server is, and whether it listens. -/
inductive ServerPc
  | off
  | listen
  /-- at the lock in `startedCb` -/
  | callback (ok : Bool)
  | locked (ok : Bool)
  | signalled (ok : Bool)
  /-- at `http.Serve` or `log.Fatal` -/
  | returned (ok : Bool)
  | serving
deriving DecidableEq

/-- The addresses that each supervisor has in its settings.  No two of the addresses that `clash`
can be listened on at a time. -/
structure Settings (α : Type u) where
  addr : Protocol → Nat → Option α
  clash : α → α → Bool

structure State where
  /-- The number of the supervisor. -/
  gen : Nat := 0
  main : MainPc := .start .tcp
  servers : Nat → Protocol → ServerPc := fun _ _ ↦ .off
  exited : Bool := false

inductive Act
  | main
  /-- The goroutine of a server; `net.Listen` may fail. -/
  | server (g : Nat) (p : Protocol) (ok : Bool)
  /-- `WaitForExit` returns. -/
  | restart

def Protocol.next : Protocol → MainPc
  | .tcp => .start .unix
  | .unix => .running

namespace ServerPc

/-- The listener has been made. -/
def listening : ServerPc → Bool
  | .callback ok | .locked ok | .signalled ok | .returned ok => ok
  | .serving => true
  | .off | .listen => false

/-- The lock is taken. -/
def hasLock : ServerPc → Bool
  | .locked _ | .signalled _ => true
  | _ => false

end ServerPc

namespace State

variable {α : Type u} (c : Settings α)

def goServer (s : State) (g : Nat) (p : Protocol) (pc : ServerPc) : State :=
  { s with servers := Function.update s.servers g (Function.update (s.servers g) p pc) }

/-- The address is taken by another server.  The file of a unix socket is removed before. -/
def inUse (s : State) (p : Protocol) (g : Nat) : Bool :=
  p = .tcp && (List.range (s.gen + 1)).any fun g' ↦ g' ≠ g && (s.servers g' .tcp).listening &&
    (c.addr .tcp g).any fun a ↦ (c.addr .tcp g').any fun a' ↦ c.clash a a'

/-- The main goroutine waits for the callback and has given up the lock. -/
def waits (s : State) (g : Nat) (p : Protocol) : Bool :=
  s.gen = g && (s.main = .asleep p || s.main = .woken p)

def mainStep (s : State) : Option State :=
  match s.main with
  | .start p =>
    if (c.addr p s.gen).isSome then some { s.goServer s.gen p .listen with main := .wait p }
    else some { s with main := p.next }
  | .wait p => some { s with main := .asleep p }
  | .asleep _ => none
  | .woken p => if (s.servers s.gen p).hasLock then none else some { s with main := p.next }
  | .running => none

def serverStep (s : State) (g : Nat) (p : Protocol) (ok : Bool) : Option State :=
  match s.servers g p with
  | .off => none
  | .listen => some (s.goServer g p (.callback (ok && !s.inUse c p g)))
  | .callback ok => if s.waits g p then some (s.goServer g p (.locked ok)) else none
  | .locked ok =>
    let s' := s.goServer g p (.signalled ok)
    some { s' with main := if s.gen = g ∧ s.main = .asleep p then .woken p else s.main }
  | .signalled ok => some (s.goServer g p (.returned ok))
  | .returned true => some (s.goServer g p .serving)
  | .returned false => some { s with exited := true }
  | .serving => none

def step (s : State) (a : Act) : Option State :=
  if s.exited then none
  else match a with
    | .main => s.mainStep c
    | .server g p ok => s.serverStep c g p ok
    | .restart =>
      if s.main = .running then some { s with gen := s.gen + 1, main := .start .tcp } else none

end State

/-- `runServer`. -/
def runServer {α : Type u} (c : Settings α) : Machine State Act where
  init := {}
  step := State.step c

/-! ## Where the goroutines are -/

/-- How far the main goroutine is with a server. -/
inductive Stage
  | before
  | launched
  | asleep
  | woken
  | after
deriving DecidableEq

/-- The servers are dealt with one after the other. -/
def Stage.at (e : Stage) (p q : Protocol) : Stage :=
  if q = p then e else if q = .tcp then .after else .before

def MainPc.stage : MainPc → Protocol → Stage
  | .start p => Stage.before.at p
  | .wait p => Stage.launched.at p
  | .asleep p => Stage.asleep.at p
  | .woken p => Stage.woken.at p
  | .running => fun _ ↦ .after

def State.stage (s : State) (g : Nat) (p : Protocol) : Stage :=
  if g < s.gen then .after else if g = s.gen then s.main.stage p else .before

/-- Where the goroutine of a server can be. -/
def Allowed (configured : Bool) : Stage → ServerPc → Prop
  | .before, pc => pc = .off
  | .launched, pc => configured ∧ (pc = .listen ∨ ∃ ok, pc = .callback ok)
  | .asleep, pc => configured ∧ (pc = .listen ∨ ∃ ok, pc = .callback ok ∨ pc = .locked ok)
  | .woken, pc => configured ∧ (pc = .serving ∨ ∃ ok, pc = .signalled ok ∨ pc = .returned ok)
  | .after, pc => configured ∧ (pc = .serving ∨ ∃ ok, pc = .returned ok) ∨
    ¬configured ∧ pc = .off

variable {α : Type u} {c : Settings α} {s s' : State} {g g' : Nat} {p q : Protocol} {ok : Bool}
  {pc : ServerPc} {e : Stage} {a : Act}

/-! Where a goroutine is tells how far the main goroutine is. -/

theorem Allowed.of_listen {b : Bool} (h : Allowed b e .listen) :
    b ∧ (e = .launched ∨ e = .asleep) := by
  cases e <;> simp_all [Allowed]

theorem Allowed.of_callback {b : Bool} (h : Allowed b e (.callback ok)) :
    b ∧ (e = .launched ∨ e = .asleep) := by
  cases e <;> simp_all [Allowed]

theorem Allowed.of_locked {b : Bool} (h : Allowed b e (.locked ok)) : b ∧ e = .asleep := by
  cases e <;> simp_all [Allowed]

theorem Allowed.of_signalled {b : Bool} (h : Allowed b e (.signalled ok)) : b ∧ e = .woken := by
  cases e <;> simp_all [Allowed]

theorem Allowed.of_returned {b : Bool} (h : Allowed b e (.returned ok)) :
    b ∧ (e = .woken ∨ e = .after) := by
  cases e <;> simp_all [Allowed]

theorem Stage.at_self : e.at p p = e := if_pos rfl

theorem Stage.at_of_ne {e' : Stage} (h : q ≠ p) : e.at p q = e'.at p q := by
  rw [Stage.at, Stage.at, if_neg h, if_neg h]

theorem Protocol.stage_next : p.next.stage q = Stage.after.at p q := by
  cases p <;> cases q <;> rfl

structure Inv (c : Settings α) (s : State) : Prop where
  placed (g : Nat) (p : Protocol) : Allowed (c.addr p g).isSome (s.stage g p) (s.servers g p)
  exclusive : ∀ g' g a' a, g' < g → c.addr .tcp g' = some a' → c.addr .tcp g = some a →
    (s.servers g' .tcp).listening → (s.servers g .tcp).listening → c.clash a a' = false

namespace State

@[simp]
theorem goServer_self : (s.goServer g p pc).servers g p = pc := by simp [goServer]

theorem goServer_of_ne (h : ¬(g' = g ∧ q = p)) :
    (s.goServer g p pc).servers g' q = s.servers g' q := by
  rw [goServer]
  by_cases hg : g' = g
  · subst hg
    simp only [Function.update_self]
    exact Function.update_of_ne (fun hq ↦ h ⟨rfl, hq⟩) _ _
  · simp only [Function.update_of_ne hg]

/-- The main goroutine goes on with the server it is at. -/
theorem stage_main {e e' : Stage} (hs : s.main.stage = e.at p) (hs' : s'.main.stage = e'.at p)
    (hgen : s'.gen = s.gen) : s'.stage s.gen p = e' ∧ s.stage s.gen p = e ∧
      ∀ g q, ¬(g = s.gen ∧ q = p) → s'.stage g q = s.stage g q := by
  simp only [stage, hgen, Nat.lt_irrefl, if_true, if_false, hs, hs']
  refine ⟨Stage.at_self, Stage.at_self, fun g q h ↦ ?_⟩
  split
  · rfl
  · split
    · exact Stage.at_of_ne fun hq ↦ h ⟨‹_›, hq⟩
    · rfl

end State

/-! ## What the steps keep -/

namespace State

/-- Only with the servers of the latest supervisor the main goroutine has to do. -/
theorem gen_of_stage (h : s.stage g p ≠ .before) (h' : s.stage g p ≠ .after) : s.gen = g := by
  unfold stage at h h'
  split at h
  · exact absurd (if_pos ‹_›) h'
  · split at h
    · exact Eq.symm ‹_›
    · exact absurd rfl h

theorem stage_gen (s : State) (p : Protocol) : s.stage s.gen p = s.main.stage p := by
  rw [stage, if_neg (Nat.lt_irrefl _), if_pos rfl]

theorem stage_eq_asleep (h : s.stage g p = .asleep) : s.gen = g ∧ s.main = .asleep p := by
  obtain rfl := gen_of_stage (by rw [h]; rintro ⟨⟩) (by rw [h]; rintro ⟨⟩)
  rw [stage_gen] at h
  refine ⟨rfl, ?_⟩
  cases hm : s.main with
  | running =>
      rw [hm] at h
      cases h
  | start q | wait q | asleep q | woken q =>
      rw [hm] at h
      cases p <;> cases q <;> first | rfl | cases h

theorem stage_eq_asleep_of_waits (hw : s.waits g p)
    (h : s.stage g p = .launched ∨ s.stage g p = .asleep) : s.stage g p = .asleep := by
  obtain ⟨hgen, hm⟩ := (Bool.and_eq_true _ _).mp hw
  obtain rfl := of_decide_eq_true hgen
  rw [stage_gen] at h ⊢
  rcases (Bool.or_eq_true _ _).mp hm with hm | hm <;> rw [of_decide_eq_true hm] at h ⊢
  · exact Stage.at_self
  · rw [show (MainPc.woken p).stage p = .woken from Stage.at_self] at h
    rcases h with h | h <;> cases h

/-- The state after a step of the main goroutine at a server. -/
inductive MainMoves (c : Settings α) (s : State) (p : Protocol) : State → Stage → Stage → Prop
  | launch (h : (c.addr p s.gen).isSome) :
    MainMoves c s p { s.goServer s.gen p .listen with main := .wait p } .before .launched
  | skip (h : c.addr p s.gen = none) : MainMoves c s p { s with main := p.next } .before .after
  | sleep : MainMoves c s p { s with main := .asleep p } .launched .asleep
  | go (h : (s.servers s.gen p).hasLock = false) :
    MainMoves c s p { s with main := p.next } .woken .after

theorem mainStep_cases (h : s.mainStep c = some s') : ∃ p e e', MainMoves c s p s' e e' ∧
    s.main.stage = e.at p ∧ s'.main.stage = e'.at p := by
  unfold mainStep at h
  split at h
  · rename_i p hm
    split at h
    · obtain rfl := Option.some.inj h
      exact ⟨p, _, _, .launch ‹_›, hm ▸ rfl, rfl⟩
    · obtain rfl := Option.some.inj h
      exact ⟨p, _, _, .skip (Option.not_isSome_iff_eq_none.mp ‹_›), hm ▸ rfl,
        funext fun _ ↦ Protocol.stage_next⟩
  · rename_i p hm
    obtain rfl := Option.some.inj h
    exact ⟨p, _, _, .sleep, hm ▸ rfl, rfl⟩
  · cases h
  · rename_i p hm
    split at h
    · cases h
    · obtain rfl := Option.some.inj h
      exact ⟨p, _, _, .go (Bool.not_eq_true _ ▸ ‹_›), hm ▸ rfl,
        funext fun _ ↦ Protocol.stage_next⟩
  · cases h

/-- Nothing but the launch of a server is seen at the servers. -/
theorem MainMoves.apply_servers {β : Type*} (f : ServerPc → β) (hf : f .listen = f .off)
    (h : MainMoves c s p s' e e') (hoff : e = .before → s.servers s.gen p = .off) (g : Nat)
    (q : Protocol) : f (s'.servers g q) = f (s.servers g q) := by
  cases h with
  | launch =>
      by_cases hgq : g = s.gen ∧ q = p
      · obtain ⟨rfl, rfl⟩ := hgq
        rw [hoff rfl]
        show f ((s.goServer s.gen q .listen).servers s.gen q) = _
        rw [goServer_self]
        exact hf
      · exact congrArg f (goServer_of_ne hgq)
  | skip => rfl
  | sleep => rfl
  | go => rfl

theorem MainMoves.gen (h : MainMoves c s p s' e e') : s'.gen = s.gen := by
  cases h <;> rfl

theorem MainMoves.servers (h : MainMoves c s p s' e e') (hgq : ¬(g = s.gen ∧ q = p)) :
    s'.servers g q = s.servers g q := by
  cases h with
  | launch => exact goServer_of_ne hgq
  | skip => rfl
  | sleep => rfl
  | go => rfl

theorem MainMoves.allowed (h : MainMoves c s p s' e e')
    (ha : Allowed (c.addr p s.gen).isSome e (s.servers s.gen p)) :
    Allowed (c.addr p s.gen).isSome e' (s'.servers s.gen p) := by
  cases h with
  | launch hc => exact ⟨hc, .inl goServer_self⟩
  | skip hc => exact .inr ⟨by rw [hc]; exact Bool.false_ne_true, ha⟩
  | sleep =>
      obtain ⟨hc, hl | ⟨ok, hk⟩⟩ := ha
      · exact ⟨hc, .inl hl⟩
      · exact ⟨hc, .inr ⟨ok, .inl hk⟩⟩
  | go hlock =>
      obtain ⟨hc, hpc | ⟨ok, hpc | hpc⟩⟩ := ha
      · exact .inl ⟨hc, .inl hpc⟩
      · rw [hpc] at hlock
        cases hlock
      · exact .inl ⟨hc, .inr ⟨ok, hpc⟩⟩

end State

theorem Inv.mainStep (h : Inv c s) (hst : s.mainStep c = some s') : Inv c s' := by
  obtain ⟨p, e, e', hm, hs, hs'⟩ := State.mainStep_cases hst
  obtain ⟨hself', hself, hother⟩ := State.stage_main hs hs' hm.gen
  have ha := h.placed s.gen p
  rw [hself] at ha
  have hl := hm.apply_servers ServerPc.listening rfl fun he ↦ by
    subst he
    exact ha
  constructor
  · intro g q
    by_cases hgq : g = s.gen ∧ q = p
    · obtain ⟨rfl, rfl⟩ := hgq
      rw [hself']
      exact hm.allowed ha
    · rw [hother g q hgq, hm.servers hgq]
      exact h.placed g q
  · intro g' g a' a hlt ha' ha hl' hlg
    rw [hl] at hl' hlg
    exact h.exclusive g' g a' a hlt ha' ha hl' hlg

theorem Inv.restart (h : Inv c s) (hm : s.main = .running) :
    Inv c { s with gen := s.gen + 1, main := .start .tcp } := by
  refine ⟨fun g p ↦ ?_, h.exclusive⟩
  have hp := h.placed g p
  have hstage : State.stage { s with gen := s.gen + 1, main := .start .tcp } g p =
      s.stage g p := by
    unfold State.stage
    rw [hm]
    dsimp only
    rcases Nat.lt_trichotomy g s.gen with hlt | rfl | hlt
    · rw [if_pos (Nat.lt_succ_of_lt hlt), if_pos hlt]
    · rw [if_pos (Nat.lt_succ_self _), if_neg (Nat.lt_irrefl _), if_pos rfl]
      rfl
    · have hnot : ¬g < s.gen + 1 := Nat.not_lt.mpr hlt
      rw [if_neg hnot, if_neg (Nat.lt_asymm hlt), if_neg (Nat.ne_of_gt hlt)]
      split
      · cases p <;> rfl
      · rfl
  rw [hstage]
  exact hp

/-- A step of a server that is not the one to listen. -/
theorem Inv.goServer (h : Inv c s) (hl : pc.listening = (s.servers g p).listening)
    (hservers : s'.servers = (s.goServer g p pc).servers)
    (hstage : ∀ g' q, ¬(g' = g ∧ q = p) → s'.stage g' q = s.stage g' q)
    (ha : Allowed (c.addr p g).isSome (s'.stage g p) pc) : Inv c s' := by
  have hlistening (g' : Nat) (q : Protocol) :
      (s'.servers g' q).listening = (s.servers g' q).listening := by
    rw [hservers]
    by_cases hgq : g' = g ∧ q = p
    · obtain ⟨rfl, rfl⟩ := hgq
      rw [State.goServer_self, hl]
    · rw [State.goServer_of_ne hgq]
  constructor
  · intro g' q
    by_cases hgq : g' = g ∧ q = p
    · obtain ⟨rfl, rfl⟩ := hgq
      rw [hservers, State.goServer_self]
      exact ha
    · rw [hstage g' q hgq, hservers, State.goServer_of_ne hgq]
      exact h.placed g' q
  · intro g' g a' a hlt ha' ha hl' hlg
    rw [hlistening] at hl' hlg
    exact h.exclusive g' g a' a hlt ha' ha hl' hlg

/-- A server is about to listen. -/
theorem Inv.listen (h : Inv c s) (hpc : s.servers g p = .listen) :
    Inv c (s.goServer g p (.callback (ok && !s.inUse c p g))) := by
  have ha := h.placed g p
  rw [hpc] at ha
  obtain ⟨hc, hstage⟩ := ha.of_listen
  have hgen : s.gen = g := by
    refine State.gen_of_stage (p := p) ?_ ?_ <;> rcases hstage with he | he <;> rw [he] <;>
      rintro ⟨⟩
  constructor
  · intro g' q
    by_cases hgq : g' = g ∧ q = p
    · obtain ⟨rfl, rfl⟩ := hgq
      rw [State.goServer_self]
      show Allowed _ (s.stage g' q) _
      rcases hstage with he | he <;> rw [he]
      · exact ⟨hc, .inr ⟨_, rfl⟩⟩
      · exact ⟨hc, .inr ⟨_, .inl rfl⟩⟩
    · rw [State.goServer_of_ne hgq]
      exact h.placed g' q
  · intro g₁ g₂ a₁ a₂ hlt ha₁ ha₂ hl₁ hl₂
    by_cases h₂ : g₂ = g ∧ Protocol.tcp = p
    · obtain ⟨rfl, rfl⟩ := h₂
      rw [State.goServer_of_ne fun hgq ↦ Nat.ne_of_lt hlt hgq.1] at hl₁
      rw [State.goServer_self] at hl₂
      obtain ⟨-, hfree⟩ := (Bool.and_eq_true _ _).mp hl₂
      by_contra hclash
      have huse : s.inUse c .tcp g₂ = true := by
        rw [State.inUse, Bool.and_eq_true, List.any_eq_true]
        refine ⟨rfl, g₁, List.mem_range.mpr (Nat.lt_succ_of_lt (hgen ▸ hlt)), ?_⟩
        rw [hl₁, ha₁, ha₂, decide_eq_true (Nat.ne_of_lt hlt)]
        exact eq_true_of_ne_false hclash
      rw [huse] at hfree
      cases hfree
    · rw [State.goServer_of_ne h₂] at hl₂
      by_cases h₁ : g₁ = g ∧ Protocol.tcp = p
      · -- the later supervisor has not been made
        obtain ⟨rfl, rfl⟩ := h₁
        have hlater := h.placed g₂ .tcp
        rw [State.stage, if_neg (Nat.lt_asymm (hgen ▸ hlt)),
          if_neg (Nat.ne_of_gt (hgen ▸ hlt))] at hlater
        rw [show s.servers g₂ .tcp = .off from hlater] at hl₂
        cases hl₂
      · rw [State.goServer_of_ne h₁] at hl₁
        exact h.exclusive g₁ g₂ a₁ a₂ hlt ha₁ ha₂ hl₁ hl₂

theorem Inv.serverStep (h : Inv c s) (hst : s.serverStep c g p ok = some s') : Inv c s' := by
  have ha := h.placed g p
  unfold State.serverStep at hst
  split at hst
  · cases hst
  · rename_i hpc
    obtain rfl := Option.some.inj hst
    exact h.listen hpc
  · rename_i ok' hpc
    rw [hpc] at ha
    split at hst
    · rename_i hwaits
      obtain rfl := Option.some.inj hst
      refine h.goServer (by rw [hpc]; rfl) rfl (fun _ _ _ ↦ rfl) ?_
      show Allowed _ (s.stage g p) _
      rw [State.stage_eq_asleep_of_waits hwaits ha.of_callback.2]
      exact ⟨ha.of_callback.1, .inr ⟨_, .inr rfl⟩⟩
    · cases hst
  · rename_i ok' hpc
    rw [hpc] at ha
    obtain ⟨hc, he⟩ := ha.of_locked
    obtain ⟨rfl, hm⟩ := State.stage_eq_asleep he
    rw [if_pos ⟨rfl, hm⟩] at hst
    have hst := Option.some.inj hst
    have hs : s.main.stage = Stage.asleep.at p := hm ▸ rfl
    have hs' : s'.main.stage = Stage.woken.at p := hst ▸ rfl
    obtain ⟨hself', -, hother⟩ := State.stage_main hs hs' (hst ▸ rfl)
    have hl : (ServerPc.signalled ok').listening = (s.servers s.gen p).listening := by
      rw [hpc]
      rfl
    refine h.goServer hl (by rw [← hst]) hother ?_
    rw [hself']
    exact ⟨hc, .inr ⟨_, .inl rfl⟩⟩
  · rename_i ok' hpc
    rw [hpc] at ha
    obtain ⟨hc, he⟩ := ha.of_signalled
    obtain rfl := Option.some.inj hst
    refine h.goServer (by rw [hpc]; rfl) rfl (fun _ _ _ ↦ rfl) ?_
    show Allowed _ (s.stage g p) _
    rw [he]
    exact ⟨hc, .inr ⟨_, .inr rfl⟩⟩
  · rename_i hpc
    rw [hpc] at ha
    obtain ⟨hc, he⟩ := ha.of_returned
    obtain rfl := Option.some.inj hst
    refine h.goServer (by rw [hpc]; rfl) rfl (fun _ _ _ ↦ rfl) ?_
    show Allowed _ (s.stage g p) _
    rcases he with he | he <;> rw [he]
    · exact ⟨hc, .inl rfl⟩
    · exact .inl ⟨hc, .inl rfl⟩
  · obtain rfl := Option.some.inj hst
    exact ⟨h.placed, h.exclusive⟩
  · cases hst

theorem Inv.step (h : Inv c s) (hst : s.step c a = some s') : Inv c s' := by
  unfold State.step at hst
  split at hst
  · cases hst
  · cases a with
    | main => exact h.mainStep hst
    | server g p ok => exact h.serverStep hst
    | restart =>
        dsimp only at hst
        split at hst
        · obtain rfl := Option.some.inj hst
          exact h.restart ‹_›
        · cases hst

theorem Inv.of_reachable (h : (runServer c).Reachable s) : Inv c s := by
  refine h.invariant ⟨fun g p ↦ ?_, ?_⟩ fun s a s' _ hs _ hst ↦ hs.step hst
  · show Allowed _ (State.stage {} g p) .off
    unfold State.stage
    cases g with
    | zero => cases p <;> rfl
    | succ g => rfl
  · rintro g' g a' a - - - ⟨⟩

/-! ## The supervisor gets to `WaitForExit` -/

/-- The steps that are left to the goroutine, at most. -/
def ServerPc.todo : ServerPc → Nat
  | .off | .listen => 5
  | .callback _ => 4
  | .locked _ => 3
  | .signalled _ => 2
  | .returned _ => 1
  | .serving => 0

def MainPc.todo : MainPc → Nat
  | .start .tcp => 8
  | .wait .tcp => 7
  | .asleep .tcp => 6
  | .woken .tcp => 5
  | .start .unix => 4
  | .wait .unix => 3
  | .asleep .unix => 2
  | .woken .unix => 1
  | .running => 0

theorem MainPc.todo_next : p.next.todo < (MainPc.woken p).todo := by
  cases p <;> exact Nat.lt_succ_self _

theorem MainPc.todo_woken : (MainPc.woken p).todo < (MainPc.start p).todo := by
  cases p <;> decide

namespace State

/-- The steps that are left to the goroutines of the latest supervisor, at most. -/
def todo (s : State) : Nat :=
  s.main.todo + ((s.servers s.gen .tcp).todo + (s.servers s.gen .unix).todo)

theorem todo_goServer (h : pc.todo < (s.servers s.gen p).todo) :
    (s.goServer s.gen p pc).todo < s.todo := by
  show s.main.todo + (((s.goServer s.gen p pc).servers s.gen .tcp).todo +
    ((s.goServer s.gen p pc).servers s.gen .unix).todo) < _
  rw [todo]
  cases p with
  | tcp =>
      rw [goServer_self, goServer_of_ne (by rintro ⟨-, ⟨⟩⟩)]
      exact Nat.add_lt_add_left (Nat.add_lt_add_right h _) _
  | unix =>
      rw [goServer_self, goServer_of_ne (by rintro ⟨-, ⟨⟩⟩)]
      exact Nat.add_lt_add_left (Nat.add_lt_add_left h _) _

theorem todo_mainStep (h : s.mainStep c = some s') : s'.main.todo < s.main.todo := by
  unfold mainStep at h
  split at h
  · rename_i p hm
    rw [hm]
    split at h
    · obtain rfl := Option.some.inj h
      cases p <;> exact Nat.lt_succ_self _
    · obtain rfl := Option.some.inj h
      exact Nat.lt_trans MainPc.todo_next MainPc.todo_woken
  · rename_i p hm
    obtain rfl := Option.some.inj h
    rw [hm]
    cases p <;> exact Nat.lt_succ_self _
  · cases h
  · rename_i p hm
    rw [hm]
    split at h
    · cases h
    · obtain rfl := Option.some.inj h
      exact MainPc.todo_next
  · cases h

end State

/-- A step of a goroutine of the supervisor, or of the main goroutine for it. -/
def Act.of (gen : Nat) : Act → Prop
  | .main => True
  | .server g _ _ => g = gen
  | .restart => False

theorem Inv.todo_mainStep (h : Inv c s) (hst : s.mainStep c = some s') :
    s'.gen = s.gen ∧ s'.todo < s.todo := by
  obtain ⟨p, e, e', hm, hs, hs'⟩ := State.mainStep_cases hst
  obtain ⟨-, hself, -⟩ := State.stage_main hs hs' hm.gen
  have ha := h.placed s.gen p
  rw [hself] at ha
  have hl := hm.apply_servers ServerPc.todo rfl fun he ↦ by
    subst he
    exact ha
  refine ⟨hm.gen, ?_⟩
  rw [State.todo, State.todo, hm.gen, hl, hl]
  exact Nat.add_lt_add_right (State.todo_mainStep hst) _

theorem State.todo_serverStep (hst : s.serverStep c s.gen p ok = some s') :
    s'.exited = true ∨ s'.gen = s.gen ∧ s'.todo < s.todo := by
  unfold State.serverStep at hst
  split at hst
  · cases hst
  · rename_i hpc
    obtain rfl := Option.some.inj hst
    exact .inr ⟨rfl, State.todo_goServer (by rw [hpc]; exact Nat.lt_succ_self _)⟩
  · rename_i hpc
    split at hst
    · obtain rfl := Option.some.inj hst
      exact .inr ⟨rfl, State.todo_goServer (by rw [hpc]; exact Nat.lt_succ_self _)⟩
    · cases hst
  · rename_i ok' hpc
    obtain rfl := Option.some.inj hst
    have hlt : (ServerPc.signalled ok').todo < (s.servers s.gen p).todo := by
      rw [hpc]
      exact Nat.lt_succ_self _
    refine .inr ⟨rfl, Nat.lt_of_le_of_lt (Nat.add_le_add_right ?_ _) (State.todo_goServer hlt)⟩
    split
    · rename_i hm
      show _ ≤ s.main.todo
      rw [hm.2]
      cases p <;> exact Nat.le_succ _
    · exact Nat.le_refl _
  · rename_i hpc
    obtain rfl := Option.some.inj hst
    exact .inr ⟨rfl, State.todo_goServer (by rw [hpc]; exact Nat.lt_succ_self _)⟩
  · rename_i hpc
    obtain rfl := Option.some.inj hst
    exact .inr ⟨rfl, State.todo_goServer (by rw [hpc]; exact Nat.lt_succ_self _)⟩
  · obtain rfl := Option.some.inj hst
    exact .inl rfl
  · cases hst

theorem Inv.todo_step (h : Inv c s) (ha : a.of s.gen) (hst : s.step c a = some s') :
    s'.exited = true ∨ s'.gen = s.gen ∧ s'.todo < s.todo := by
  unfold State.step at hst
  split at hst
  · cases hst
  · cases a with
    | main => exact .inr (h.todo_mainStep hst)
    | server g p ok =>
        obtain rfl : g = s.gen := ha
        exact State.todo_serverStep hst
    | restart => exact ha.elim

namespace State

theorem step_of_exited (he : s.exited = true) : s.step c a = none := if_pos he

theorem step_main (he : s.exited = false) : s.step c .main = s.mainStep c := by
  rw [step, he]
  rfl

theorem step_server (he : s.exited = false) :
    s.step c (.server g p ok) = s.serverStep c g p ok := by
  rw [step, he]
  rfl

end State

/-- The main goroutine waits for nothing that does not come. -/
theorem Inv.exists_step (h : Inv c s) (he : s.exited = false) (hm : s.main ≠ .running) :
    ∃ a s', a.of s.gen ∧ s.step c a = some s' := by
  have hmain {t : State} (ht : s.mainStep c = some t) :
      ∃ a s', a.of s.gen ∧ s.step c a = some s' :=
    ⟨.main, t, trivial, (State.step_main he).trans ht⟩
  have hserver {p : Protocol} {t : State} (ht : s.serverStep c s.gen p true = some t) :
      ∃ a s', a.of s.gen ∧ s.step c a = some s' :=
    ⟨.server s.gen p true, t, rfl, (State.step_server he).trans ht⟩
  cases hs : s.main with
  | start p =>
      by_cases hc : (c.addr p s.gen).isSome = true
      · exact hmain (by rw [State.mainStep, hs]; exact if_pos hc)
      · exact hmain (by rw [State.mainStep, hs]; exact if_neg hc)
  | wait p => exact hmain (by rw [State.mainStep, hs])
  | asleep p =>
      have ha := h.placed s.gen p
      rw [State.stage_gen, hs, MainPc.stage, Stage.at_self] at ha
      obtain ⟨-, hpc | ⟨ok, hpc | hpc⟩⟩ := ha
      · exact hserver (by rw [State.serverStep, hpc])
      · have hw : s.waits s.gen p = true := by
          rw [State.waits, hs]
          simp
        exact hserver (by rw [State.serverStep, hpc]; exact if_pos hw)
      · exact hserver (by rw [State.serverStep, hpc])
  | woken p =>
      have ha := h.placed s.gen p
      rw [State.stage_gen, hs, MainPc.stage, Stage.at_self] at ha
      have hgo (hl : (s.servers s.gen p).hasLock = false) :
          ∃ a s', a.of s.gen ∧ s.step c a = some s' :=
        hmain (by rw [State.mainStep, hs]; exact if_neg (by rw [hl]; exact Bool.false_ne_true))
      obtain ⟨-, hpc | ⟨ok, hpc | hpc⟩⟩ := ha
      · exact hgo (by rw [hpc]; rfl)
      · exact hserver (by rw [State.serverStep, hpc])
      · exact hgo (by rw [hpc]; rfl)
  | running => exact absurd hs hm

theorem Inv.todo_exec {as : List Act} (h : Inv c s) (has : ∀ a ∈ as, a.of s.gen)
    (he : (runServer c).exec s as = some s') :
    s'.exited = true ∨ as.length + s'.todo ≤ s.todo := by
  induction as generalizing s with
  | nil =>
      obtain rfl := Option.some.inj he
      exact .inr (Nat.le_of_eq (Nat.zero_add _))
  | cons a as ih =>
      obtain ⟨t, ht, he⟩ := Option.bind_eq_some_iff.mp he
      have ha := has a List.mem_cons_self
      rcases h.todo_step ha ht with hex | ⟨hgen, hlt⟩
      · -- the program has ended
        cases as with
        | nil =>
            obtain rfl := Option.some.inj he
            exact .inl hex
        | cons b as =>
            obtain ⟨u, hu, -⟩ := Option.bind_eq_some_iff.mp he
            cases (State.step_of_exited hex).symm.trans hu
      · rcases ih (h.step ht) (fun b hb ↦ hgen ▸ has b (List.mem_cons_of_mem _ hb)) he with
          hex | hle
        · exact .inl hex
        · refine .inr ?_
          rw [List.length_cons, Nat.add_right_comm]
          exact Nat.le_trans (Nat.succ_le_succ hle) hlt

theorem State.todo_le : s.todo ≤ 18 := by
  have hmain : s.main.todo ≤ 8 := by
    cases s.main with
    | start p | wait p | asleep p | woken p => cases p <;> decide
    | running => decide
  have hserver (pc : ServerPc) : pc.todo ≤ 5 := by
    cases pc <;> simp [ServerPc.todo]
  exact Nat.add_le_add hmain (Nat.add_le_add (hserver _) (hserver _))

/-- While the main goroutine is in `WaitForExit`, all its servers are through with the callback. -/
theorem Inv.served (h : Inv c s) (hm : s.main = .running) (hg : g ≤ s.gen)
    (hc : (c.addr p g).isSome) :
    s.servers g p = .serving ∨ ∃ ok, s.servers g p = .returned ok := by
  have ha := h.placed g p
  have hstage : s.stage g p = .after := by
    rcases Nat.lt_or_eq_of_le hg with hlt | rfl
    · exact if_pos hlt
    · rw [State.stage_gen, hm]
      rfl
  rw [hstage] at ha
  rcases ha with ⟨-, ha⟩ | ⟨hn, -⟩
  · exact ha
  · exact absurd hc hn

theorem Inv.failed (h : Inv c s) (hm : s.main = .running) {a' a : α} (hlt : g' < g)
    (hg : g ≤ s.gen) (ha' : c.addr .tcp g' = some a') (ha : c.addr .tcp g = some a)
    (hclash : c.clash a a' = true) :
    s.servers g' .tcp = .returned false ∨ s.servers g .tcp = .returned false := by
  have hpc' := h.served hm (Nat.le_trans (Nat.le_of_lt hlt) hg) (by rw [ha']; rfl)
  have hpc := h.served hm hg (by rw [ha]; rfl)
  have hlistening {pc : ServerPc} (hpc : pc = .serving ∨ ∃ ok, pc = .returned ok)
      (hne : pc ≠ .returned false) : pc.listening = true := by
    obtain rfl | ⟨ok, rfl⟩ := hpc
    · rfl
    · exact eq_true_of_ne_false fun hok ↦ hne (congrArg _ hok)
  by_contra hne
  obtain ⟨hne', hne⟩ := not_or.mp hne
  have hfree := h.exclusive g' g a' a hlt ha' ha (hlistening hpc' hne') (hlistening hpc hne)
  rw [hclash] at hfree
  cases hfree

/-- Until the latest supervisor is in `WaitForExit`, one of its goroutines can take a step, and
after no more than 18 of them it is, or the program has ended.  Then the servers of all supervisors
serve, or are about to serve or to end the program.  Of two supervisors with one address, one is
about to end the program. -/
theorem runServer_servers (h : (runServer c).Reachable s) :
    (s.exited = false → s.main ≠ .running →
      ∃ a s', a.of s.gen ∧ (runServer c).step s a = some s') ∧
    (∀ as s', (∀ a ∈ as, a.of s.gen) → (runServer c).exec s as = some s' →
      s'.exited = true ∨ as.length ≤ 18) ∧
    (s.main = .running →
      (∀ g p, g ≤ s.gen → (c.addr p g).isSome →
        s.servers g p = .serving ∨ ∃ ok, s.servers g p = .returned ok) ∧
      ∀ g' g a' a, g' < g → g ≤ s.gen → c.addr .tcp g' = some a' → c.addr .tcp g = some a →
        c.clash a a' = true → s.exited = false → ∃ g₀, (g₀ = g' ∨ g₀ = g) ∧ ∀ ok,
          (runServer c).step s (.server g₀ .tcp ok) = some { s with exited := true }) := by
  have hinv := Inv.of_reachable h
  refine ⟨fun he hm ↦ hinv.exists_step he hm, fun as s' has he ↦ ?_, fun hm ↦
    ⟨fun g p hg hc ↦ hinv.served hm hg hc, fun g' g a' a hlt hg ha' ha hclash he ↦ ?_⟩⟩
  · exact (hinv.todo_exec has he).imp_right fun hle ↦
      Nat.le_trans (Nat.le_add_right _ _) (Nat.le_trans hle State.todo_le)
  · have hfatal {g : Nat} (hpc : s.servers g .tcp = .returned false) (ok : Bool) :
        (runServer c).step s (.server g .tcp ok) = some { s with exited := true } := by
      refine (State.step_server he).trans ?_
      rw [State.serverStep, hpc]
    rcases hinv.failed hm hlt hg ha' ha hclash with hpc | hpc
    · exact ⟨g', .inl rfl, hfatal hpc⟩
    · exact ⟨g, .inr rfl, hfatal hpc⟩

/-- Every supervisor has the port in its settings, and no socket. -/
def Settings.onePort (port : Nat) : Settings Nat where
  addr p _ := if p = .tcp then some port else none
  clash a a' := decide (a = a')

/-- A second supervisor with the port of the first. -/
theorem runServer_servers_port : ∃ s : State, (runServer (.onePort 9001)).Reachable s ∧
    s.main = .running ∧ s.gen = 1 ∧ ∃ g₀, (g₀ = 0 ∨ g₀ = 1) ∧ ∀ ok,
      (runServer (.onePort 9001)).step s (.server g₀ .tcp ok) =
        some { s with exited := true } := by
  obtain ⟨s, hs, hp⟩ := Machine.exists_reachable (m := runServer (.onePort 9001))
    (fun s ↦ decide (s.main = .running) && decide (s.gen = 1) && !s.exited)
    [.main, .main, .server 0 .tcp true, .server 0 .tcp true, .server 0 .tcp true,
      .server 0 .tcp true, .main, .main, .restart, .main, .main, .server 1 .tcp true,
      .server 1 .tcp true, .server 1 .tcp true, .server 1 .tcp true, .main, .main] (by decide)
  obtain ⟨hp, he⟩ := (Bool.and_eq_true _ _).mp hp
  obtain ⟨hm, hgen⟩ := (Bool.and_eq_true _ _).mp hp
  have hm := of_decide_eq_true hm
  have hgen := of_decide_eq_true hgen
  exact ⟨s, hs, hm, hgen, ((runServer_servers hs).2.2 hm).2 0 1 9001 9001 Nat.zero_lt_one
    (Nat.le_of_eq hgen.symm) rfl rfl rfl (by simpa using he)⟩

end Supervisord.RunServer
