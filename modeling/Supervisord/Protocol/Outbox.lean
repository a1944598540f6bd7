import Supervisord.Machine.Trace

/-!
# An outbox with acknowledgements

A sender keeps items in a queue.  The receiver announces that it is ready, is sent the head of the
queue, and answers.  The item is removed when the answer acknowledges it; when it is refused, or
when the answer cannot be read, the receiver has to announce itself again; when it is neither, the
item is sent again at once.

The labels of a run say what was accepted and what was removed, in which order, and on which
grounds.
-/

universe u

namespace Outbox

/-- What the receiver answers. -/
inductive Verdict where
  | ok
  | fail
  | unknown
deriving DecidableEq

/-- What is seen of a run. -/
inductive Label (α : Type u) where
  /-- An item is queued. -/
  | accepted (x : α)
  /-- The receiver announces that it is ready. -/
  | ready
  /-- An item is sent in full. -/
  | written (x : α)
  /-- An item could not be sent in full. -/
  | failed (x : α)
  /-- The receiver answers. -/
  | result (v : Verdict)
  /-- The answer cannot be read. -/
  | unreadable
  /-- An item leaves the queue. -/
  | removed (x : α)
  /-- The sender ends. -/
  | quit
deriving DecidableEq

inductive Phase (α : Type u) where
  | unready
  | ready
  | sent (x : α)
  | acknowledged (x : α)
  | over
deriving DecidableEq

end Outbox

/-- The queue and where the exchange stands. -/
structure Outbox (α : Type u) where
  queue : List α := []
  phase : Outbox.Phase α := .unready

namespace Outbox

variable {α : Type u}

/-! ## The protocol -/

/-- The phase after an answer. -/
def Verdict.next (x : α) : Verdict → Phase α
  | .ok => .acknowledged x
  | .fail => .unready
  | .unknown => .ready

def step [DecidableEq α] (o : Outbox α) : Label α → Option (Outbox α)
  | .accepted x => some { o with queue := o.queue ++ [x] }
  | .ready => if o.phase = .unready then some { o with phase := .ready } else none
  | .written x =>
    if o.phase = .ready ∧ o.queue.head? = some x then some { o with phase := .sent x } else none
  | .failed x =>
    if o.phase = .ready ∧ o.queue.head? = some x then some { o with phase := .unready } else none
  | .result v => match o.phase with
    | .sent x => some { o with phase := v.next x }
    | _ => none
  | .unreadable => match o.phase with
    | .sent _ => some { o with phase := .unready }
    | _ => none
  | .removed x =>
    if o.phase = .acknowledged x ∧ o.queue.head? = some x then
      some { queue := o.queue.tail, phase := .unready }
    else none
  | .quit => some { o with phase := .over }

def machine (α : Type u) [DecidableEq α] : Machine (Outbox α) (Label α) where
  init := {}
  step := step

/-- The steps of the protocol. -/
inductive Takes : Outbox α → Label α → Outbox α → Prop
  | accepted (o : Outbox α) (x : α) :
      Takes o (.accepted x) { o with queue := o.queue ++ [x] }
  | ready {o : Outbox α} (hp : o.phase = .unready) : Takes o .ready { o with phase := .ready }
  | written {o : Outbox α} {x : α} (hp : o.phase = .ready) (hx : o.queue.head? = some x) :
      Takes o (.written x) { o with phase := .sent x }
  | failed {o : Outbox α} {x : α} (hp : o.phase = .ready) (hx : o.queue.head? = some x) :
      Takes o (.failed x) { o with phase := .unready }
  | result {o : Outbox α} {x : α} (hp : o.phase = .sent x) (v : Verdict) :
      Takes o (.result v) { o with phase := v.next x }
  | unreadable {o : Outbox α} {x : α} (hp : o.phase = .sent x) :
      Takes o .unreadable { o with phase := .unready }
  | removed {o : Outbox α} {x : α} {q : List α} (hp : o.phase = .acknowledged x)
      (hq : o.queue = x :: q) : Takes o (.removed x) { queue := q, phase := .unready }
  | quit (o : Outbox α) : Takes o .quit { o with phase := .over }

theorem takes_of_step [DecidableEq α] {o o' : Outbox α} {l : Label α} (h : o.step l = some o') :
    Takes o l o' := by
  cases l with
  | accepted x => cases h; exact .accepted o x
  | ready =>
      rw [step] at h
      split at h <;> cases h
      exact .ready ‹_›
  | written x =>
      rw [step] at h
      split at h <;> cases h
      rename_i hx
      exact .written hx.1 hx.2
  | failed x =>
      rw [step] at h
      split at h <;> cases h
      rename_i hx
      exact .failed hx.1 hx.2
  | result v =>
      rw [step] at h
      split at h <;> cases h
      exact .result ‹_› v
  | unreadable =>
      rw [step] at h
      split at h <;> cases h
      exact .unreadable ‹_›
  | removed x =>
      rw [step] at h
      split at h <;> cases h
      rename_i hx
      obtain ⟨q, hq⟩ := List.head?_eq_some_iff.mp hx.2
      rw [hq]
      exact .removed hx.1 hq
  | quit => cases h; exact .quit o

theorem Takes.step_eq [DecidableEq α] {o o' : Outbox α} {l : Label α} (h : Takes o l o') :
    o.step l = some o' := by
  cases h with
  | accepted | quit => rfl
  | ready hp => exact if_pos hp
  | written hp hx | failed hp hx => exact if_pos ⟨hp, hx⟩
  | result hp v | unreadable hp => rw [step, hp]
  | removed hp hq =>
      rw [step, if_pos ⟨hp, by rw [hq]; rfl⟩, hq]
      rfl

theorem Takes.exec [DecidableEq α] {o o' : Outbox α} {l : Label α} (h : Takes o l o') :
    (machine α).exec o [l] = some o' :=
  Machine.exec_of_step h.step_eq

/-! ## What a trace says -/

def Label.accepted? : Label α → Option α
  | .accepted x => some x
  | _ => none

def Label.removed? : Label α → Option α
  | .removed x => some x
  | _ => none

/-- The item a label says was sent, in full or in part. -/
def Label.sent? : Label α → Option α
  | .written x | .failed x => some x
  | _ => none

def Label.isWrite : Label α → Bool
  | .written _ | .failed _ => true
  | _ => false

/-- The items accepted so far. -/
def accepted (h : List (Label α)) : List α := h.filterMap Label.accepted?

/-- The items removed so far. -/
def removed (h : List (Label α)) : List α := h.filterMap Label.removed?

/-- The items in the order in which they were sent, each as often as it was. -/
def sent (h : List (Label α)) : List α := h.filterMap Label.sent?

/-- What the sender and the receiver have done, without what was queued meanwhile. -/
def exchange (h : List (Label α)) : List (Label α) := h.filter fun l ↦ l.accepted? = none

theorem accepted_concat (h : List (Label α)) (l : Label α) :
    accepted (h ++ [l]) = accepted h ++ l.accepted?.toList := by
  rw [accepted, List.filterMap_append]
  cases l <;> rfl

theorem removed_concat (h : List (Label α)) (l : Label α) :
    removed (h ++ [l]) = removed h ++ l.removed?.toList := by
  rw [removed, List.filterMap_append]
  cases l <;> rfl

theorem sent_concat (h : List (Label α)) (l : Label α) :
    sent (h ++ [l]) = sent h ++ l.sent?.toList := by
  rw [sent, List.filterMap_append]
  cases l <;> rfl

theorem sent_concat_of_none {h : List (Label α)} {l : Label α} (hl : l.sent? = none) :
    sent (h ++ [l]) = sent h := by
  rw [sent_concat, hl]
  exact List.append_nil _

theorem exchange_concat_accepted (h : List (Label α)) (x : α) :
    exchange (h ++ [.accepted x]) = exchange h := by
  rw [exchange, List.filter_append]
  exact List.append_nil _

theorem exchange_concat {h : List (Label α)} {l : Label α} (hl : l.accepted? = none) :
    exchange (h ++ [l]) = exchange h ++ [l] := by
  simp [exchange, hl]

/-- Where a label stands in a trace that has grown by one. -/
theorem eq_of_concat_eq {h a b : List (Label α)} {l x : Label α}
    (he : h ++ [l] = a ++ x :: b) : h = a ∧ l = x ∨ ∃ b', h = a ++ x :: b' := by
  rcases List.eq_nil_or_concat b with rfl | ⟨b, y, rfl⟩
  · obtain ⟨ha, hx⟩ := List.append_inj' he rfl
    exact .inl ⟨ha, List.head_eq_of_cons_eq hx⟩
  · rw [List.concat_eq_append, ← List.cons_append, ← List.append_assoc] at he
    exact .inr ⟨b, (List.append_inj' he rfl).1⟩

section Trace

variable [DecidableEq α] {h : List (Label α)} {o : Outbox α}

/-- The rule for the traces of the protocol. -/
theorem trace_induction {P : List (Label α) → Outbox α → Prop} (hinit : P [] {})
    (hstep : ∀ h o l o', (machine α).exec (machine α).init h = some o → P h o → Takes o l o' →
      P (h ++ [l]) o')
    (he : (machine α).exec (machine α).init h = some o) : P h o :=
  Machine.exec_induction hinit
    (fun _ _ _ _ he ih hst ↦ hstep _ _ _ _ he ih (takes_of_step hst)) he

/-- Items leave the queue in the order in which they came in. -/
theorem accepted_eq (he : (machine α).exec (machine α).init h = some o) :
    accepted h = removed h ++ o.queue := by
  refine trace_induction (P := fun h o ↦ accepted h = removed h ++ o.queue) rfl ?_ he
  intro h o l o' _ ih hst
  rw [accepted_concat, removed_concat, ih]
  cases hst with
  | removed hp hq => simp [Label.accepted?, Label.removed?, hq]
  | accepted | ready | written | failed | result | unreadable | quit =>
      simp [Label.accepted?, Label.removed?]

/-- What the exchange ends with in each phase. -/
def Phase.last : Phase α → List (Label α)
  | .sent x => [.written x]
  | .acknowledged x => [.written x, .result .ok]
  | .unready | .ready | .over => []

theorem last_suffix (he : (machine α).exec (machine α).init h = some o) :
    o.phase.last <:+ exchange h := by
  refine trace_induction (P := fun h o ↦ o.phase.last <:+ exchange h) List.nil_suffix ?_ he
  intro h o l o' _ ih hst
  cases hst with
  | accepted x =>
      rw [exchange_concat_accepted]
      exact ih
  | written hp hx =>
      rw [exchange_concat rfl]
      exact List.suffix_append _ _
  | result hp v =>
      rw [exchange_concat rfl]
      rw [hp] at ih
      cases v with
      | ok =>
          obtain ⟨t, ht⟩ := ih
          rw [← ht, List.append_assoc]
          exact List.suffix_append t _
      | fail | unknown => exact List.nil_suffix
  | ready | failed | unreadable | removed | quit => exact List.nil_suffix

/-- An item leaves the queue only when it has just been written in full and acknowledged. -/
theorem acknowledged_of_removed (he : (machine α).exec (machine α).init h = some o)
    {pre post : List (Label α)} {x : α} (hx : exchange h = pre ++ .removed x :: post) :
    [.written x, .result .ok] <:+ pre := by
  revert pre post x
  refine trace_induction (P := fun h _ ↦ ∀ {pre post : List (Label α)} {x : α},
    exchange h = pre ++ .removed x :: post → [.written x, .result .ok] <:+ pre) ?_ ?_ he
  · intro pre post x hx
    exact absurd hx.symm (List.append_ne_nil_of_right_ne_nil _ (List.cons_ne_nil _ _))
  · intro h o l o' hh ih hst pre post x hx
    cases hl : l.accepted? with
    | some y =>
        cases l <;> cases hl
        rw [exchange_concat_accepted] at hx
        exact ih hx
    | none =>
        rw [exchange_concat hl] at hx
        rcases eq_of_concat_eq hx with ⟨rfl, rfl⟩ | ⟨post', hx⟩
        · cases hst with
          | removed hp hq =>
              have := last_suffix hh
              rwa [hp] at this
        · exact ih hx

/-- What has been sent is out, or is the head of the queue. -/
theorem mem_removed_or_head (he : (machine α).exec (machine α).init h = some o) :
    ∀ x ∈ sent h, x ∈ removed h ∨ o.queue.head? = some x := by
  refine trace_induction
    (P := fun h o ↦ ∀ x ∈ sent h, x ∈ removed h ∨ o.queue.head? = some x) (by nofun) ?_ he
  intro h o l o' _ ih hst x hx
  rw [removed_concat]
  cases hst with
  | accepted y =>
      rw [sent_concat_of_none rfl] at hx
      refine (ih x hx).imp (List.mem_append_left _) fun hq ↦ ?_
      obtain ⟨q, hq⟩ := List.head?_eq_some_iff.mp hq
      rw [hq]
      rfl
  | written hp hq | failed hp hq =>
      rw [sent_concat] at hx
      rcases List.mem_append.mp hx with hx | hx
      · exact (ih x hx).imp_left (List.mem_append_left _)
      · rw [Label.sent?, Option.toList_some, List.mem_singleton] at hx
        exact .inr (hx ▸ hq)
  | removed hp hq =>
      rw [sent_concat_of_none rfl] at hx
      refine .inl (List.mem_append.mpr ((ih x hx).imp_right fun hq' ↦ ?_))
      rw [hq, List.head?_cons, Option.some_inj] at hq'
      rw [hq']
      exact List.mem_singleton_self x
  | ready | result | unreadable | quit =>
      rw [sent_concat_of_none rfl] at hx
      exact (ih x hx).imp_left (List.mem_append_left _)

/-- Items are sent in the order in which they were accepted. -/
theorem pairwise_sent {R : α → α → Prop} (he : (machine α).exec (machine α).init h = some o)
    (hR : (accepted h).Pairwise R) : (sent h).Pairwise fun x y ↦ x = y ∨ R x y := by
  revert hR
  refine trace_induction (P := fun h _ ↦ (accepted h).Pairwise R →
    (sent h).Pairwise fun x y ↦ x = y ∨ R x y) (fun _ ↦ .nil) ?_ he
  intro h o l o' hh ih hst hR
  rw [accepted_concat] at hR
  replace hR := (List.pairwise_append.mp hR).1
  cases hst with
  | @written x hp hq | @failed x hp hq =>
      rw [sent_concat]
      refine List.pairwise_append.mpr ⟨ih hR, List.pairwise_singleton _ _, ?_⟩
      intro y hy z hz
      cases List.mem_singleton.mp hz
      obtain ⟨q, hq⟩ := List.head?_eq_some_iff.mp hq
      rw [accepted_eq hh, hq] at hR
      rcases mem_removed_or_head hh y hy with hy | hy
      · exact .inr ((List.pairwise_append.mp hR).2.2 y hy x List.mem_cons_self)
      · rw [hq, List.head?_cons, Option.some_inj] at hy
        exact .inl hy.symm
  | accepted | ready | result | unreadable | removed | quit =>
      rw [sent_concat_of_none rfl]
      exact ih hR

end Trace

/-! ## Announcements -/

/-- The receiver has announced itself since the last item was sent to it. -/
def Announced (h : List (Label α)) : Prop :=
  ∃ a b, h = a ++ .ready :: b ∧ ∀ l ∈ b, l.isWrite = false

/-- Nothing is sent to a receiver that has not announced itself. -/
def Polite (h : List (Label α)) : Prop :=
  ∀ a l b, h = a ++ l :: b → l.isWrite = true → Announced a

theorem Announced.concat {l : Label α} (hh : Announced h) (hl : l.isWrite = false) :
    Announced (h ++ [l]) := by
  obtain ⟨a, b, rfl, hb⟩ := hh
  refine ⟨a, b ++ [l], by rw [List.append_assoc, List.cons_append], ?_⟩
  intro l' hl'
  rcases List.mem_append.mp hl' with hl' | hl'
  · exact hb l' hl'
  · rw [List.mem_singleton.mp hl', hl]

theorem Polite.concat {l : Label α} (hh : Polite h) (hl : l.isWrite = true → Announced h) :
    Polite (h ++ [l]) := by
  intro a l' b he hl'
  rcases eq_of_concat_eq he with ⟨rfl, rfl⟩ | ⟨b', he⟩
  · exact hl hl'
  · exact hh a l' b' he hl'

/-- As long as every answer is one of the two that are known, nothing is sent to a receiver that
has not announced itself. -/
theorem polite [DecidableEq α] {h : List (Label α)} {o : Outbox α}
    (he : (machine α).exec (machine α).init h = some o)
    (hk : .result .unknown ∉ h) : Polite h := by
  suffices h : Polite h ∧ (o.phase = .ready → Announced h) from h.1
  revert hk
  refine trace_induction (P := fun h o ↦ .result .unknown ∉ h →
    Polite h ∧ (o.phase = .ready → Announced h)) ?_ ?_ he
  · intro _
    refine ⟨?_, fun hp ↦ (nomatch hp)⟩
    intro a l b hx
    exact absurd hx.symm (List.append_ne_nil_of_right_ne_nil _ (List.cons_ne_nil _ _))
  · intro h o l o' _ ih hst hk
    obtain ⟨hpol, hann⟩ := ih fun hm ↦ hk (List.mem_append_left _ hm)
    cases hst with
    | accepted x => exact ⟨hpol.concat nofun, fun hp ↦ (hann hp).concat rfl⟩
    | ready hp => exact ⟨hpol.concat nofun, fun _ ↦ ⟨h, [], rfl, fun _ hl ↦ (nomatch hl)⟩⟩
    | written hp hx | failed hp hx => exact ⟨hpol.concat fun _ ↦ hann hp, fun hp ↦ (nomatch hp)⟩
    | result hp v =>
        refine ⟨hpol.concat nofun, fun hp' ↦ ?_⟩
        cases v with
        | ok | fail => cases hp'
        | unknown => exact absurd (List.mem_append_right h List.mem_cons_self) hk
    | unreadable | removed | quit => exact ⟨hpol.concat nofun, fun hp ↦ (nomatch hp)⟩

end Outbox
