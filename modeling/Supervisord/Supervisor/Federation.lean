import Supervisord.Supervisor.Restful

/-!
# Restarting, shutting down and reloading

`RestartProgram` is two requests, one after the other.  `Shutdown` and `Reload` are for a supervisor
itself.  They name the node as the other requests do, but what they send on does not name it: it is
for whoever answers at the URL.
-/

universe u v w

namespace Supervisord.Federation

open Go Fuel

variable {ι : Type u} {σ : Type v} {net : Federation ι} {node name : Str} {w w' : σ} {i j k : ι}
  {n m : Nat} {ok : Bool} {stopProcess startProcess : ι → Str → σ → Outcome × σ}

theorem passes_unique (i j k : ι) (hj : net.Passes node i j) (hk : net.Passes node i k) :
    j = k := by
  obtain ⟨-, url, hurl, hd⟩ := hj
  obtain ⟨-, url', hurl', hd'⟩ := hk
  obtain rfl := Option.some.inj (hurl.symm.trans hurl')
  exact Option.some.inj (hd.symm.trans hd')

theorem EndsAt.not_passes {κ : Type} {ρ : Type w} {svc : Service ι κ σ ρ} {x : κ} {y : ρ × σ}
    (h : net.EndsAt svc node x w j y) (k : ι) : ¬net.Passes node j k := by
  rintro ⟨hne, url, hurl, hd⟩
  cases h with
  | served h => exact hne h
  | unknown h hu =>
      rw [hu] at hurl
      cases hurl
  | failed h hu hd' =>
      obtain rfl := Option.some.inj (hu.symm.trans hurl)
      rw [hd'] at hd
      cases hd

/-! A request comes to its end in one of three ways. -/

section Ends

variable {κ : Type} {ρ : Type w} {svc : Service ι κ σ ρ} {x : κ} {y : ρ × σ}

theorem endsAt_served (h : node = net.getNodeName j) :
    net.EndsAt svc node x w j y ↔ y = svc.serve j x w := by
  constructor
  · rintro (- | hne | hne)
    · rfl
    · exact absurd h hne
    · exact absurd h hne
  · rintro rfl
    exact .served h

theorem endsAt_unknown (h : node ≠ net.getNodeName j)
    (hu : (net.remoteSupervisors j).lookup node = none) :
    net.EndsAt svc node x w j y ↔ y = (svc.unknown, w) := by
  constructor
  · rintro (h' | - | ⟨-, hu'⟩)
    · exact absurd h' h
    · rfl
    · rw [hu] at hu'
      cases hu'
  · rintro rfl
    exact .unknown h hu

theorem endsAt_failed {url : Str} (h : node ≠ net.getNodeName j)
    (hu : (net.remoteSupervisors j).lookup node = some url) (hd : net.dial url = none) :
    net.EndsAt svc node x w j y ↔ y = (svc.failed, w) := by
  constructor
  · rintro (h' | ⟨-, hu'⟩ | -)
    · exact absurd h' h
    · rw [hu] at hu'
      cases hu'
    · rfl
  · rintro rfl
    exact .failed h hu hd

/-- If the route is known. -/
theorem returns_request_of_route (hn : UrlSafe node) (hx : svc.Safe x)
    (hr : Relay.Route (net.Passes node) n i j) (hj : ∀ k, ¬net.Passes node j k) {z : ρ × σ} :
    Returns (net.request svc · i node x w) z ↔
      ∃ y, net.EndsAt svc node x w j y ∧ z = (Prod.map svc.reply id)^[n] y := by
  rw [returns_request hn hx]
  constructor
  · rintro ⟨m, k, y, hr', he, rfl⟩
    obtain ⟨rfl, rfl⟩ := hr.unique passes_unique hj hr' he.not_passes
    exact ⟨y, he, rfl⟩
  · rintro ⟨y, he, rfl⟩
    exact ⟨n, j, y, hr, he, rfl⟩

end Ends

/-! ## Restarting -/

/-- An error is told to nobody but the one who has asked the supervisor itself. -/
theorem reply_err (f : ι → Str → σ → Outcome × σ) (n : Nat) (y : Outcome × σ) :
    ((Prod.map (Service.startProgram f).reply id)^[n] y).1.err = (decide (n = 0) && y.1.err) := by
  cases n with
  | zero => rfl
  | succ n => rw [Function.iterate_succ_apply']; rfl

theorem reply_snd {ρ : Type w} (f : ρ → ρ) (n : Nat) (y : ρ × σ) :
    ((Prod.map f id)^[n] y).2 = y.2 := by
  induction n with
  | zero => rfl
  | succ n ih =>
      rw [Function.iterate_succ_apply']
      exact ih

theorem restartProgram_eq : net.restartProgram stopProcess startProcess n i node name w =
    (net.request (.stopProgram stopProcess) n i node name w).bind fun stopped ↦
      if stopped.1.err then some (false, stopped.2)
      else (net.request (.startProgram startProcess) n i node name stopped.2).map fun started ↦
        (!started.1.err, started.2) := by
  rw [restartProgram]
  cases net.request (.stopProgram stopProcess) n i node name w with
  | none => rfl
  | some stopped =>
      cases hs : stopped.1.err with
      | true => simp [hs]
      | false =>
          simp only [Option.bind_some, hs, Option.bind_eq_bind, Bool.false_eq_true, if_false]
          cases net.request (.startProgram startProcess) n i node name stopped.2 <;> rfl

variable (net stopProcess startProcess node name w) in
/-- What becomes of a restart that comes to its end at `j` after `n` hops. -/
def restartAt (n : Nat) (j : ι) : Bool × σ :=
  if node = net.getNodeName j then
    let stopped := stopProcess j name w
    if n = 0 ∧ stopped.1.err then (false, stopped.2)
    else
      let started := startProcess j name stopped.2
      (!(decide (n = 0) && started.1.err), started.2)
  else match (net.remoteSupervisors j).lookup node with
    | none => (true, w)
    | some _ => (!decide (n = 0), w)

/-- The two requests go the same way. -/
theorem returns_restartProgram (hn : UrlSafe node) (hp : UrlSafe name)
    (hr : Relay.Route (net.Passes node) n i j) (hj : ∀ k, ¬net.Passes node j k) {x : Bool × σ} :
    Returns (net.restartProgram stopProcess startProcess · i node name w) x ↔
      ∃ stopped, net.EndsAt (.stopProgram stopProcess) node name w j stopped ∧
        if n = 0 ∧ stopped.1.err then x = (false, stopped.2)
        else ∃ started, net.EndsAt (.startProgram startProcess) node name stopped.2 j started ∧
          x = (!(decide (n = 0) && started.1.err), started.2) := by
  have hstop (m : Nat) (a : Outcome × σ)
      (h : net.request (.stopProgram stopProcess) m i node name w = some a) :=
    returns_of_request hn hp h
  have hstart (w₁ : σ) (m : Nat) (a : Outcome × σ)
      (h : net.request (.startProgram startProcess) m i node name w₁ = some a) :=
    returns_of_request hn hp h
  have hcond (y : Outcome × σ) :
      ((Prod.map (Service.stopProgram stopProcess).reply id)^[n] y).1.err = true ↔
        n = 0 ∧ y.1.err = true := by
    rw [show (Service.stopProgram stopProcess).reply = (Service.startProgram startProcess).reply
      from rfl, reply_err, Bool.and_eq_true, decide_eq_true_iff]
  simp only [restartProgram_eq]
  refine (returns_bind_iff (g := fun stopped n ↦ if stopped.1.err then some (false, stopped.2)
    else (net.request (.startProgram startProcess) n i node name stopped.2).map fun started ↦
      (!started.1.err, started.2)) hstop).trans ?_
  constructor
  · rintro ⟨a, ha, hx⟩
    obtain ⟨y, hy, rfl⟩ := (returns_request_of_route hn hp hr hj).mp ha
    refine ⟨y, hy, ?_⟩
    simp only [hcond, reply_snd] at hx
    by_cases hs : n = 0 ∧ y.1.err = true
    · simp only [if_pos hs] at hx ⊢
      exact hx.unique (.pure _)
    · simp only [if_neg hs] at hx ⊢
      obtain ⟨b, hb, rfl⟩ := (returns_map_iff (hstart y.2)).mp hx
      obtain ⟨z, hz, rfl⟩ := (returns_request_of_route hn hp hr hj).mp hb
      exact ⟨z, hz, by rw [reply_err, reply_snd]⟩
  · rintro ⟨y, hy, hx⟩
    refine ⟨_, (returns_request_of_route hn hp hr hj).mpr ⟨y, hy, rfl⟩, ?_⟩
    simp only [hcond, reply_snd]
    by_cases hs : n = 0 ∧ y.1.err = true
    · simp only [if_pos hs] at hx ⊢
      exact hx ▸ .pure _
    · simp only [if_neg hs] at hx ⊢
      obtain ⟨z, hz, rfl⟩ := hx
      refine (returns_map_iff (hstart y.2)).mpr
        ⟨_, (returns_request_of_route hn hp hr hj).mpr ⟨z, hz, rfl⟩, ?_⟩
      rw [reply_err, reply_snd]

theorem returns_iff_restartAt (hn : UrlSafe node) (hp : UrlSafe name)
    (hr : Relay.Route (net.Passes node) n i j) (hj : ∀ k, ¬net.Passes node j k) {x : Bool × σ} :
    Returns (net.restartProgram stopProcess startProcess · i node name w) x ↔
      x = net.restartAt node name w stopProcess startProcess n j := by
  rw [returns_restartProgram hn hp hr hj, restartAt]
  by_cases h : node = net.getNodeName j
  · simp only [endsAt_served h, exists_eq_left, if_pos h]
    by_cases hs : n = 0 ∧ (stopProcess j name w).1.err = true
    · rw [if_pos hs]
      exact Iff.of_eq (if_pos hs)
    · rw [if_neg hs]
      exact Iff.of_eq (if_neg hs)
  · rw [if_neg h]
    cases hu : (net.remoteSupervisors j).lookup node with
    | none => simp [endsAt_unknown h hu, Service.stopProgram, Service.startProgram]
    | some url =>
        have hd : net.dial url = none :=
          Option.eq_none_iff_forall_ne_some.mpr fun k hk ↦ hj k ⟨h, url, hu, hk⟩
        by_cases hn : n = 0 <;>
          simp [endsAt_failed h hu hd, Service.stopProgram, Service.startProgram, hn]

/-- **A restart is a stop and then a start, of the same program at the same supervisor.**  Nothing
else is done.  What goes wrong is only told to the one who has asked the supervisor itself: if the
request has been handed on, then the answer says success in any case, and so it does for a node that
is not known. -/
theorem restartProgram_served (hn : UrlSafe node) (hp : UrlSafe name) {x : Bool × σ} :
    Returns (net.restartProgram stopProcess startProcess · i node name w) x ↔
      ∃ n j, Relay.Route (net.Passes node) n i j ∧ (∀ k, ¬net.Passes node j k) ∧
        x = net.restartAt node name w stopProcess startProcess n j := by
  constructor
  · intro h
    have hstop : ∃ a, Returns (net.request (.stopProgram stopProcess) · i node name w) a := by
      obtain ⟨m, hm⟩ := h
      have hm : net.restartProgram stopProcess startProcess m i node name w = some x :=
        hm m (Nat.le_refl m)
      rw [restartProgram_eq] at hm
      obtain ⟨a, ha, -⟩ := Option.bind_eq_some_iff.mp hm
      exact ⟨a, returns_of_request hn hp ha⟩
    obtain ⟨a, ha⟩ := hstop
    obtain ⟨n, j, y, hr, he, -⟩ := (returns_request hn hp).mp ha
    exact ⟨n, j, hr, he.not_passes, (returns_iff_restartAt hn hp hr he.not_passes).mp h⟩
  · rintro ⟨n, j, hr, hj, rfl⟩
    exact (returns_iff_restartAt hn hp hr hj).mpr rfl

/-- A program of `c` is restarted through `a`. -/
theorem restartProgram_served_chain :
    Returns (chain.restartProgram recordStart recordStart · (str "a") (str "c") (str "p") [])
      (true, [(str "c", str "p"), (str "c", str "p")]) :=
  (restartProgram_served (by decide) (by decide)).mpr
    ⟨2, str "c", route_chain, fun _ h ↦ h.1 rfl, rfl⟩

/-! ## Shutting down and reloading -/

/-- What is for a supervisor itself. -/
structure Control where
  handler : RestHandler
  path : Str
  /-- What is written for what a remote supervisor has answered, or for an error. -/
  write : Option Bool → Option Bool
  routed : route .post path = some (handler, [])

namespace Control

/-- `Shutdown` writes nothing if a remote supervisor has not been shut down. -/
def shutdown : Control where
  handler := .shutdown
  path := str "/supervisor/shutdown"
  write r := if r = some true then some true else none
  routed := by decide

def reload : Control where
  handler := .reload
  path := str "/supervisor/reload"
  write r := some (r.getD false)
  routed := by decide

end Control

/-- The handler of `Shutdown` or `Reload`, with `serve` for what the supervisor does itself. -/
def control (net : Federation ι) (c : Control) (serve : ι → σ → Bool × σ) :
    Nat → ι → Str → σ → Option (Option Bool × σ)
  | 0, _, _, _ => none
  | n + 1, i, node, w =>
    if node = [] ∨ node = net.getNodeName i then some (Prod.map some id (serve i w))
    else match (net.remoteSupervisors i).lookup node with
      | none => some (c.write none, w)
      | some url => match net.send url .post c.path with
        | none => some (c.write none, w)
        | some (j, h, args) =>
          if h = c.handler then
            (control net c serve n j (args.headD []) w).map (Prod.map c.write id)
          else some (c.write none, w)

variable {c : Control} {serve : ι → σ → Bool × σ}

theorem control_self (h : node = [] ∨ node = net.getNodeName i) :
    Returns (net.control c serve · i node w) (some (serve i w).1, (serve i w).2) :=
  ⟨1, fun m hm ↦ by
    obtain ⟨m, rfl⟩ := Nat.exists_eq_add_of_le' hm
    exact if_pos h⟩

theorem control_passes (hne : node ≠ []) (h : net.Passes node i j) :
    Returns (net.control c serve · i node w)
      (c.write (some (serve j w).1), (serve j w).2) := by
  obtain ⟨hi, url, hu, hd⟩ := h
  refine ⟨2, fun m hm ↦ ?_⟩
  obtain ⟨m, rfl⟩ := Nat.exists_eq_add_of_le' hm
  have hsend : net.send url .post c.path = some (j, c.handler, []) := by
    rw [send, hd, c.routed]
    rfl
  simp only [control, hne, hi, hu, hsend, or_self, if_false, if_true, List.headD_nil, true_or]
  rfl

theorem control_stays (hne : node ≠ []) (hi : node ≠ net.getNodeName i)
    (h : ∀ j, ¬net.Passes node i j) :
    Returns (net.control c serve · i node w) (c.write none, w) := by
  refine ⟨1, fun m hm ↦ ?_⟩
  obtain ⟨m, rfl⟩ := Nat.exists_eq_add_of_le' hm
  simp only [control, hne, hi, or_self, if_false]
  cases hu : (net.remoteSupervisors i).lookup node with
  | none => rfl
  | some url =>
      have hd : net.dial url = none :=
        Option.eq_none_iff_forall_ne_some.mpr fun j hj ↦ h j ⟨hi, url, hu, hj⟩
      have hsend : net.send url .post c.path = none := by rw [send, hd]; rfl
      simp only [hsend]

/-- **To shut down and to reload is only handed on once.**  There is always an answer, and nothing
is done unless the supervisor that has been asked is that of the node or hands the request on to
another one.  Where other requests for the node are handed on further, it is the first of the others
that is shut down, and not the one that has the name of the node. -/
theorem control_neighbour (net : Federation ι) (c : Control) (serve : ι → σ → Bool × σ) (i : ι)
    (node : Str) (w : σ) :
    (∃ x, Returns (net.control c serve · i node w) x ∧
      (x.2 = w ∨ ∃ k, (k = i ∨ net.Passes node i k) ∧ x.2 = (serve k w).2)) ∧
    ∀ n j, node ≠ [] → Relay.Route (net.Passes node) n i j → node = net.getNodeName j →
      ∃ k r, Returns (net.control c serve · i node w) (r, (serve k w).2) ∧ (k = j ↔ n ≤ 1) := by
  constructor
  · by_cases h : node = [] ∨ node = net.getNodeName i
    · exact ⟨_, control_self h, .inr ⟨i, .inl rfl, rfl⟩⟩
    · obtain ⟨hne, hi⟩ := not_or.mp h
      by_cases hp : ∃ j, net.Passes node i j
      · obtain ⟨j, hj⟩ := hp
        exact ⟨_, control_passes hne hj, .inr ⟨j, .inr hj, rfl⟩⟩
      · exact ⟨_, control_stays hne hi (not_exists.mp hp), .inl rfl⟩
  · intro n j hne hr hj
    cases hr with
    | here i => exact ⟨i, _, control_self (.inr hj), by simp⟩
    | @pass n _ k _ hi hr =>
        refine ⟨k, _, control_passes hne hi, ?_⟩
        cases hr with
        | here => simp
        | pass hk =>
            refine iff_of_false ?_ (by omega)
            rintro rfl
            exact hk.1 hj

/-- To shut down `c` through `a` shuts down `b`. -/
theorem control_neighbour_chain : ∃ k r,
    Returns (chain.control .shutdown (fun j w ↦ (true, w ++ [j])) · (str "a") (str "c") [])
      (r, [k]) ∧ (k = str "c" ↔ 2 ≤ 1) :=
  (control_neighbour chain .shutdown (fun j w ↦ (true, w ++ [j])) (str "a") (str "c") []).2 2
    (str "c") (by decide) route_chain rfl

end Supervisord.Federation
