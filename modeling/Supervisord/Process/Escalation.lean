import Supervisord.Process.Holders

/-!
# The signals of a stop

The goroutine a `Stop` leaves behind sends the stop signals one after another, waiting for SIGCHLD
or for the time to run out between them, and then KILL if the state still is a running one.
`stop_escalates` says what the `kill` system calls of one `Stop` are, in which order, in every
interleaving: a prefix of the stop signals, and behind it at most one KILL.
-/

namespace Supervisord.Process

/-- A signal, and whether it goes to the process group. -/
abbrev Signalling := String × Bool

/-- What the stop signals of the configuration come to. -/
def Config.stops (cfg : Config) : List Signalling := cfg.stopsignal.map (·, cfg.stopasgroup)

/-- The final KILL. -/
def Config.lastResort (cfg : Config) : Signalling := ("KILL", cfg.killasgroup)

/-- The system calls the stopping goroutine of `t` has made. -/
def Sys.sentBy (s : Sys) (t : Tid) : List Signalling :=
  (s.kills.filter fun k ↦ k.byStopper && k.caller = t).map fun k ↦ (k.sig, k.group)

/-- Stop signals in their order, then perhaps KILL. -/
def Config.Escalation (cfg : Config) (l : List Signalling) : Prop :=
  l <+: cfg.stops ∨ ∃ p, p <+: cfg.stops ∧ l = p ++ [cfg.lastResort]

/-- What a stopping goroutine has sent where it stands. -/
def StopperPc.HasSent (cfg : Config) (l : List Signalling) : StopperPc → Prop
  | .off | .send false => l = []
  | .killing false job =>
    job.sigChildren = cfg.stopasgroup ∧ l ++ job.sigs.map (·, cfg.stopasgroup) = cfg.stops
  | .check | .send true => l <+: cfg.stops
  | .killing true job => job.sigChildren = cfg.killasgroup ∧
    ∃ p, p <+: cfg.stops ∧ l ++ job.sigs.map (·, cfg.killasgroup) = p ++ [cfg.lastResort]
  | .done | .crashed => cfg.Escalation l

namespace StopperPc

variable {cfg : Config} {l : List Signalling} {pc : StopperPc} {job job' : KillJob}

theorem HasSent.raise (h : pc.HasSent cfg l) : pc.raise.HasSent cfg l := by
  cases pc with
  | killing kill job => cases kill <;> exact h
  | _ => exact h

/-- Some of what was to be sent has been. -/
theorem prefix_or_of_append {r s : List Signalling} {x : Signalling} (hs : s <+: cfg.stops)
    (h : l ++ r = s ++ [x]) : l <+: cfg.stops ∨ l = s ++ [x] := by
  rcases List.prefix_concat_iff.mp (h ▸ List.prefix_append l r) with hl | hl
  · exact .inr hl
  · exact .inl (hl.trans hs)

/-- Wherever it stands, it has not sent anything else. -/
theorem HasSent.escalation (h : pc.HasSent cfg l) : cfg.Escalation l := by
  cases pc with
  | off =>
      rw [show l = [] from h]
      exact .inl List.nil_prefix
  | send kill =>
      cases kill with
      | false =>
          rw [show l = [] from h]
          exact .inl List.nil_prefix
      | true => exact .inl h
  | killing kill job =>
      cases kill with
      | false => exact .inl ⟨_, h.2⟩
      | true =>
          obtain ⟨p, hp, he⟩ := h.2
          exact (prefix_or_of_append hp he).imp_right fun hl ↦ ⟨p, hp, hl⟩
  | check => exact .inl h
  | done | crashed => exact h

end StopperPc

namespace Sys

variable {cfg : Config} {s s' : Sys} {a : Act} {t u : Tid} {ch : Choice}

theorem sentBy_of_kills (h : s'.kills = s.kills) (t : Tid) : s'.sentBy t = s.sentBy t := by
  rw [sentBy, h, sentBy]

theorem sentBy_concat {k : KillCall} (h : s'.kills = s.kills ++ [k]) (t : Tid) :
    s'.sentBy t = s.sentBy t ++ if k.byStopper && k.caller = t then [(k.sig, k.group)] else [] := by
  rw [sentBy, h, List.filter_append, List.map_append, sentBy, List.filter_singleton]
  congr 1
  cases k.byStopper && decide (k.caller = t) <;> rfl

/-- A running `signals.Kill` has sent the first of its signals, or none. -/
theorem sigs_eq_of_more {job job' : KillJob} {sent : Option (CmdId × String × Bool)}
    (h : job.step ch = some (.more job' sent)) : job'.sigChildren = job.sigChildren ∧
      job.sigs = (sent.map fun x ↦ x.2.1).toList ++ job'.sigs := by
  unfold KillJob.step at h
  split at h
  · split at h
    · split at h <;> cases h
    · cases h
      exact ⟨rfl, rfl⟩
    · cases h
  · split at h
    · cases h
    · rename_i hs
      split at h <;> cases h
      all_goals exact ⟨rfl, hs⟩

/-- A `kill` of the stopping goroutine is recorded as its own. -/
theorem sentBy_kill (pc : StopperPc) (g : Bool) (sent : Option (CmdId × String × Bool)) :
    ((s.kill t true g sent).goStopper t pc).sentBy t =
      s.sentBy t ++ (sent.map fun x ↦ x.2.1).toList.map (·, g) := by
  cases sent with
  | none =>
      refine (sentBy_of_kills (s := s) rfl t).trans ?_
      simp
  | some x =>
      refine (sentBy_concat (s := s) rfl t).trans ?_
      simp

/-- The own steps of a stopping goroutine. -/
theorem stopperStep_hasSent (hs : (s.stoppers t).HasSent cfg (s.sentBy t))
    (h : s.stopperStep cfg t ch = some s') : (s'.stoppers t).HasSent cfg (s'.sentBy t) := by
  have hself (s₁ : Sys) (pc : StopperPc) : (s₁.goStopper t pc).stoppers t = pc :=
    Function.update_self _ _ _
  have hgo {s₁ : Sys} {pc : StopperPc} (hk : s₁.kills = s.kills)
      (hpc : pc.HasSent cfg (s.sentBy t)) : ((s₁.goStopper t pc).stoppers t).HasSent cfg
        ((s₁.goStopper t pc).sentBy t) := by
    rw [hself]
    exact sentBy_of_kills hk t ▸ hpc
  unfold stopperStep at h
  cases hp : s.stoppers t with
  | off | done | crashed => simp [hp] at h
  | check =>
      rw [hp] at hs
      simp only [hp] at h
      cases h
      refine hgo rfl ?_
      split
      · exact hs
      · exact .inl hs
  | send kill =>
      rw [hp] at hs
      simp only [hp, Option.map_eq_some_iff] at h
      obtain ⟨k, _, rfl⟩ := h
      split
      · exact hgo rfl hs.escalation
      · refine hgo rfl ?_
        cases kill with
        | false =>
            rw [show s.sentBy t = [] from hs]
            exact ⟨rfl, rfl⟩
        | true => exact ⟨rfl, _, hs, rfl⟩
  | killing kill job =>
      rw [hp] at hs
      simp only [hp, Option.map_eq_some_iff] at h
      obtain ⟨res, hj, rfl⟩ := h
      cases res with
      | more job' sent =>
          obtain ⟨hg, hsigs⟩ := sigs_eq_of_more hj
          dsimp only
          rw [hself, sentBy_kill]
          cases kill with
          | false =>
              obtain ⟨hc, he⟩ := hs
              refine ⟨hg.trans hc, ?_⟩
              rw [hc, List.append_assoc, ← List.map_append, ← hsigs, he]
          | true =>
              obtain ⟨hc, p, hpre, he⟩ := hs
              refine ⟨hg.trans hc, p, hpre, ?_⟩
              rw [hc, List.append_assoc, ← List.map_append, ← hsigs, he]
      | done =>
          refine hgo rfl ?_
          cases kill with
          | false => exact ⟨_, hs.2⟩
          | true => exact hs.escalation
      | crash => exact hgo rfl hs.escalation

theorem step_hasSent (hl : s.LaunchesOnce) (hs : (s.stoppers t).HasSent cfg (s.sentBy t))
    (h : s.step cfg a = some s') : (s'.stoppers t).HasSent cfg (s'.sentBy t) := by
  have hsame (hk : s'.kills = s.kills) (hst : s'.stoppers t = s.stoppers t) :
      (s'.stoppers t).HasSent cfg (s'.sentBy t) := by
    rw [hst, sentBy_of_kills hk]
    exact hs
  cases a with
  | stopper u ch =>
      by_cases htu : t = u
      · subst htu
        exact stopperStep_hasSent hs h
      · have hst {pc : StopperPc} (h : s'.stoppers = Function.update s.stoppers u pc) :
            s'.stoppers t = s.stoppers t := by
          rw [h, Function.update_of_ne htu]
        cases stopperStep_to h with
        | read _ _ _ hk _ h | wait _ _ _ _ hk _ h | go _ _ hk _ h => exact hsame hk (hst h)
        | send _ _ _ k _ hk hc _ _ h =>
            rw [hst h, sentBy_concat hk, if_neg (by simp [hc, Ne.symm htu]), List.append_nil]
            exact hs
  | caller u ch =>
      cases callerStep_signals h with
      | same h => exact hsame h.kills (by rw [h.stoppers])
      | kill k hb hk h =>
          rw [h, sentBy_concat hk, if_neg (by simp [hb]), List.append_nil]
          exact hs
      | launch wait restart hp hk h =>
          by_cases htu : t = u
          · -- it has not been launched before
            subst htu
            rw [hl.off t (by rw [hp]; rfl)] at hs
            rw [h, Function.update_self, sentBy_of_kills hk]
            exact hs
          · exact hsame hk (by rw [h, Function.update_of_ne htu])
  | call u op =>
      simp only [step] at h
      split at h <;> cases h
      exact hs
  | loop u ch => exact hsame (loopStep_aside h).kills (by rw [(loopStep_aside h).stoppers])
  | monitor c => exact hsame (monitorStep_aside h).kills (by rw [(monitorStep_aside h).stoppers])
  | waiter c => exact hsame (waiterStep_aside h).kills (by rw [(waiterStep_aside h).stoppers])
  | closer c => exact hsame (closerStep_aside h).kills (by rw [(closerStep_aside h).stoppers])
  | exit c st =>
      simp only [step, exitStep] at h
      split at h <;> cases h
      exact hs.raise
  | sigchld =>
      cases h
      exact hs.raise

end Sys

theorem reachable_hasSent {cfg : Config} {s : Sys} (h : (machine cfg).Reachable s) (t : Tid) :
    (s.stoppers t).HasSent cfg (s.sentBy t) :=
  h.invariant (P := fun s ↦ (s.stoppers t).HasSent cfg (s.sentBy t)) rfl
    fun _ _ _ hr hs _ hst ↦ Sys.step_hasSent (reachable_launchesOnce hr) hs hst

/-- **A `Stop` escalates.**  In every interleaving the system calls of one `Stop` are a prefix of
the stop signals, in their order and each sent once, followed by at most one KILL. -/
theorem stop_escalates {cfg : Config} {s : Sys} (h : (machine cfg).Reachable s) (t : Tid) :
    cfg.Escalation (s.sentBy t) :=
  (reachable_hasSent h t).escalation

/-- The time runs out after TERM, and KILL is sent. -/
theorem stop_escalates_kill : ∃ s : Sys, (machine {}).Reachable s ∧
    s.sentBy 1 = [("TERM", false), ("KILL", false)] ∧
      ({} : Config).Escalation (s.sentBy 1) := by
  obtain ⟨s, hs, hp⟩ := Machine.exists_reachable (m := machine {})
    (fun s ↦ decide (s.sentBy 1 = [("TERM", false), ("KILL", false)]))
    (startAndRun ++ .call 1 (.stop true) :: .replicate 6 (.caller 1 .ok) ++
      [.stopper 1 .ok, .stopper 1 .ok, .stopper 1 .timeout, .stopper 1 .ok, .stopper 1 .ok,
        .stopper 1 .ok, .stopper 1 .ok]) (by decide +kernel)
  exact ⟨s, hs, of_decide_eq_true hp, stop_escalates hs 1⟩

end Supervisord.Process
