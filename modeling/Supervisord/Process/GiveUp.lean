import Supervisord.Process.Requests

/-!
# Giving up

`run` gives up where the command cannot be created or no retry is left, and stores `Fatal`.
Whether that is the end is decided by the loop around it, which asks `isAutoRestart` as if the
program had exited, and by a `Stop` that has seen the process running and has not stored
`Stopping` yet.  `fatal_final` says that nothing else touches a process that has given up.
-/

namespace Supervisord.Process

/-- The stages from the end of the retry loop to the end of the start loop. -/
def Stage.winding : Stage → Bool
  | .idle | .failing | .over | .rested | .deciding | .ending => true
  | .entering | .checking | .refusing | .head | .pausing | .paused | .trying | .making | .made
  | .failed _ | .launching | .born | .watching | .seen | .settling | .judging | .excused
  | .judged _ | .exhausted => false

attribute [grind] Stage.winding

theorem Stage.not_bound_of_winding {s : Stage} (h : s.winding) : s.bound = false := by
  cases s <;> first | rfl | cases h

/-- `run` has given up since the last `Start`. -/
structure GivingUp where
  gaveUp : Bool := false
deriving DecidableEq

def GivingUp.next (h : GivingUp) (_ : Core) : Label → GivingUp
  | .stored _ k => match k with
    | .createFatal | .spawnFatal | .retryFatal => { gaveUp := true }
    | .starting | .spawnBackoff | .running | .exited | .stopped | .exitBackoff => h
  | .start _ _ => { gaveUp := false }
  | _ => h

/-- A process whose giving up is recorded. -/
def givingUp (cfg : Config) : Machine (Sys × GivingUp) Act := observed cfg {} GivingUp.next

/-- After `run` has given up, `isAutoRestart` is false where the start loop asks it, and no
`Stop` is late to store `Stopping`. -/
def Resigned (cfg : Config) (h : GivingUp) (c : Core) : Label → Prop
  | .decide _ => h.gaveUp = true → cfg.isAutoRestart (c.cmd.map c.cmds) = false
  | .stopping _ => h.gaveUp = false
  | _ => True

instance (cfg : Config) (h : GivingUp) (c : Core) (k : Label) : Decidable (Resigned cfg h c k) := by
  unfold Resigned
  split <;> infer_instance

/-- The process has been given up, and its start loop is winding down. -/
structure GivingUp.Final (c : Core) (h : GivingUp) : Prop where
  fatal : h.gaveUp = true → c.state = .fatal
  winding : h.gaveUp = true → ∀ t, (c.loops t).stage.winding

variable {cfg : Config} {c c' : Core} {h : GivingUp} {k : Label}

/-- The process is given up by the step. -/
structure GivesUp (c : Core) (k : Label) (c' : Core) : Prop where
  state : c'.state = .fatal
  loop : ∃ t, k.loop = some t ∧ (c.loops t).stage ≠ .idle ∧ (c'.loops t).stage = .failing

namespace GivingUp

/-- It has been given up before, and no `Start` has been called, or it is given up now. -/
theorem gaveUp_cases (hm : Move cfg c k c') (hg : (h.next c k).gaveUp = true) :
    h.gaveUp = true ∧ (∀ t b, k ≠ .start t b) ∨ GivesUp c k c' := by
  cases hm with
  | createFatal hs hl | spawnFatal hs hl | retryFatal hs hl =>
      refine .inr ⟨rfl, _, rfl, by rw [hs]; decide, ?_⟩
      simp only [Function.update_self, hl]
  | accept | refuse => cases hg
  | _ => exact .inl ⟨hg, nofun⟩

theorem Final.winding_move (hc : c.Inv) (hh : Final c h) (hr : Resigned cfg h c k)
    (hm : Move cfg c k c') (hg : (h.next c k).gaveUp = true) (t : Tid) :
    (c'.loops t).stage.winding := by
  rcases gaveUp_cases hm hg with ⟨hbefore, hk'⟩ | ⟨-, u, hk, hu, hf⟩
  · have hw := hh.winding hbefore t
    by_cases hk : k.loop = some t
    · cases hm with
      | accept => exact absurd rfl (hk' _ _)
      | loop hs =>
          cases hk
          simp only [Function.update_self, hs]
          exact hw
      | gaveUp _ hl | leave _ hl | finish _ _ hl =>
          cases hk
          simp only [Function.update_self, hl]
          rfl
      | rest _ hl =>
          cases hk
          simp only [Function.update_self, hl]
          split <;> rfl
      | decide _ hl =>
          cases hk
          simp only [Function.update_self, hl, if_neg (Bool.eq_false_iff.mp (hr hbefore))]
          rfl
      | fail hs =>
          cases hk
          rcases hs with hs | ⟨hs, -⟩ <;> rw [hs] at hw <;> cases hw
      | _ =>
          -- the other steps are not those of a start loop that winds down
          cases hk
          all_goals
            rw [‹(c.loops t).stage = _›] at hw
            cases hw
    · rwa [hm.loops_eq hk]
  · by_cases ht : t = u
    · rw [ht, hf]
      rfl
    · have hidle : (c.loops t).stage = .idle := by
        by_contra hne
        exact ht (hc.turns.one t u hne hu)
      rw [hm.loops_eq fun hkt ↦ ht (Option.some.inj (hkt.symm.trans hk)), hidle]
      rfl

theorem Final.fatal_move (hc : c.Inv) (hh : Final c h) (hr : Resigned cfg h c k)
    (hm : Move cfg c k c') (hg : (h.next c k).gaveUp = true) : c'.state = .fatal := by
  rcases gaveUp_cases hm hg with ⟨hbefore, -⟩ | hf
  · have hw {t : Tid} {st : Stage} (hs : (c.loops t).stage = st) : st.winding :=
      hs ▸ hh.winding hbefore t
    cases hm with
    | stopping => exact Bool.noConfusion (hbefore.symm.trans hr)
    | monRunning hp =>
        -- the start loop of a monitor that may store `Running` waits for the exit
        obtain ⟨t, -, ht⟩ := hc.watch.passed _ hp
        rcases ht with ht | ht | ht <;> cases hw ht
    | stopped hs =>
        obtain ⟨t, ht, -⟩ := hc.child.waiter _ (by rw [hs]; rfl)
        cases hw ht
    | starting hs | createFatal hs | spawnFatal hs | retry hs | up hs | closeExited hs
    | closeStopped hs | backoff hs | exhaust hs | retryFatal hs => cases hw hs
    | _ => exact hh.fatal hbefore
  · exact hf.state

end GivingUp

theorem GivingUp.Final.init : Final {} {} := ⟨nofun, nofun⟩

/-- **Giving up is final** until the next `Start`, if `isAutoRestart` is false when the start
loop asks it and no `Stop` is late: the state stays `Fatal` and nothing is spawned. -/
theorem fatal_final {w : Sys × GivingUp} (hw : (givingUp cfg).Reach (heeds (Resigned cfg)) w)
    (hg : w.2.gaveUp = true) : w.1.state = .fatal ∧ ∀ a, ¬w.1.attempts a := by
  have hh : GivingUp.Final w.1.toCore w.2 :=
    observed_invariant (P := GivingUp.Final) .init
      (fun hc hh hr hm ↦ ⟨hh.fatal_move hc hr hm, hh.winding_move hc hr hm⟩) hw
  exact ⟨hh.fatal hg, Sys.not_attempts fun t ↦ Stage.not_bound_of_winding (hh.winding hg t)⟩

/-- A program whose command cannot be created. -/
def startAndFail : List Act :=
  List.flatten [[.call 0 (.start false), .caller 0 .ok], .replicate 6 (.loop 0 .ok),
    [.loop 0 .fail], .replicate 3 (.loop 0 .ok)]

set_option maxRecDepth 4000 in
/-- By default a command that cannot be created is given up, and the start loop ends. -/
theorem fatal_final_create : ∃ w : Sys × GivingUp,
    (givingUp {}).Reach (heeds (Resigned {})) w ∧ w.1.inStart = false ∧ w.2.gaveUp = true ∧
      w.1.state = .fatal := by
  obtain ⟨w, hw, hp⟩ := Machine.exists_reach (m := givingUp {})
    (fun w a ↦ Resigned {} w.2 w.1.toCore (w.1.label a))
    (fun w ↦ w.1.inStart = false ∧ w.2.gaveUp = true)
    (List.flatten [startAndFail, .replicate 5 (.loop 0 .ok)])
    (fun w a _ hp ↦ of_decide_eq_true hp) (by decide +kernel)
  obtain ⟨hi, hg⟩ := of_decide_eq_true hp
  exact ⟨w, hw, hi, hg, (fatal_final hw hg).1⟩

set_option maxRecDepth 4000 in
/-- With `autorestart` set to `true`, a command that cannot be created is tried for ever. -/
theorem fatal_not_final : ¬∀ (cfg : Config) (w : Sys × GivingUp), (givingUp cfg).Reachable w →
    w.2.gaveUp = true → w.1.state = .fatal ∧ ∀ a, ¬w.1.attempts a := by
  intro h
  obtain ⟨w, hw, hp⟩ := Machine.exists_reachable (m := givingUp { autorestart := "true" })
    (fun w ↦ w.2.gaveUp = true ∧ w.1.state = .starting)
    (List.flatten [startAndFail, .replicate 10 (.loop 0 .ok)]) (by decide +kernel)
  obtain ⟨hg, hs⟩ := of_decide_eq_true hp
  have hf := (h _ w hw hg).1
  rw [hs] at hf
  cases hf

end Supervisord.Process
