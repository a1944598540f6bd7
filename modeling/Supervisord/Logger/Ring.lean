import Supervisord.Go.Ring
import Supervisord.Logger.Memory

/-!
# The ring of a memory logger

The pointer of a `MemoryLogger` is to the element that is written next: one that has never been
written, until there are none, and then the oldest one.
-/

namespace Supervisord.Logger

open Go

/-- What the operation makes of the pointer `ml.logs`.  To write through `nil` is a panic. -/
def MemoryOp.onRing (logs : Option (Go.Ring Str)) : MemoryOp → Option (Option (Go.Ring Str))
  | write p => logs.map fun r ↦ some (r.assign p).next
  | clearCurLogFile => some (Ring.new Str (Ring.len logs))
  | clearAllLogFile => some (Ring.new Str (Ring.len logs))

/-- The pointer of a new memory logger of `n` cells after these operations. -/
def ringHistory (n : Int) (ops : List MemoryOp) : Option (Option (Go.Ring Str)) :=
  ops.foldlM MemoryOp.onRing (Ring.new Str n)

variable {n : Int} {ops : List MemoryOp} {op : MemoryOp} {ml ml' : MemoryLogger}
  {logs logs' : Option (Go.Ring Str)}

theorem ringHistory_concat : ringHistory n (ops ++ [op]) =
    (ringHistory n ops).bind fun logs ↦ op.onRing logs := by
  rw [ringHistory, List.foldlM_append]
  exact congrArg (Option.bind _) (funext fun logs ↦ Option.bind_fun_some _)

/-- **One operation.**  An operation that is no panic does with the cells what it does with the
ring. -/
theorem MemoryOp.onRing_values (h : Ring.values logs = ml.logs) (ha : op.apply ml = some ml') :
    ∃ logs', op.onRing logs = some logs' ∧ Ring.values logs' = ml'.logs := by
  have hnew : Ring.values (Ring.new Str (Ring.len logs)) =
      (newMemoryLogger ml.logs.length).logs := by
    rw [Ring.values_new, ← h, Ring.length_values]
    rfl
  cases op with
  | clearCurLogFile =>
      cases ha
      exact ⟨_, rfl, hnew⟩
  | clearAllLogFile =>
      cases ha
      exact ⟨_, rfl, hnew⟩
  | write p =>
      obtain ⟨w, hw, rfl⟩ := Option.map_eq_some_iff.mp ha
      obtain ⟨hne, hput⟩ := MemoryLogger.write_logs hw
      cases logs with
      | none => exact absurd h.symm hne
      | some r =>
          refine ⟨_, rfl, ?_⟩
          rw [hput, ← h]
          exact Ring.values_assign_next r p

/-- **Runs.**  The cells of the logger are those that `Do` visits. -/
theorem memoryHistory_values (h : memoryHistory n ops = some ml) :
    ∃ logs, ringHistory n ops = some logs ∧ Ring.values logs = ml.logs := by
  induction ops using List.reverseRecOn generalizing ml with
  | nil =>
      cases h
      exact ⟨_, rfl, Ring.values_new Str n⟩
  | append_singleton ops op ih =>
      rw [memoryHistory, List.foldlM_append] at h
      obtain ⟨before, hbefore, h⟩ := Option.bind_eq_some_iff.mp h
      obtain ⟨logs, hlogs, hvalues⟩ := ih hbefore
      rw [List.foldlM_cons] at h
      obtain ⟨after, hafter, h⟩ := Option.bind_eq_some_iff.mp h
      cases h
      rw [ringHistory_concat, hlogs]
      exact MemoryOp.onRing_values hvalues hafter

/-! ## What is in the ring -/

/-- **One operation.** -/
theorem MemoryOp.onRing_holding {k : Nat} {ws : List Str}
    (h : Ring.values logs = RingBuffer.holding k ws) (ho : op.onRing logs = some logs') :
    Ring.values logs' = RingBuffer.holding k (op.record ws) := by
  have hlen : Ring.len logs = k := by
    rw [← Ring.length_values, h, RingBuffer.length_holding]
  have hnew : Ring.values (Ring.new Str (Ring.len logs)) = RingBuffer.holding k [] := by
    rw [Ring.values_new, hlen, RingBuffer.holding_nil]
    rfl
  cases op with
  | clearCurLogFile =>
      cases ho
      exact hnew
  | clearAllLogFile =>
      cases ho
      exact hnew
  | write p =>
      obtain ⟨r, rfl, rfl⟩ := Option.map_eq_some_iff.mp ho
      have hk : 0 < k := hlen ▸ Nat.succ_pos r.last
      rw [Ring.values_assign_next, h]
      exact RingBuffer.put_holding hk ws p

/-- **Runs.**  The ring holds what has been written since the logger has last been cleared. -/
theorem ringHistory_holding (h : ringHistory n ops = some logs) :
    Ring.values logs = RingBuffer.holding n.toNat (ops.foldl MemoryOp.record []) := by
  induction ops using List.reverseRecOn generalizing logs with
  | nil =>
      cases h
      rw [Ring.values_new, List.foldl_nil, RingBuffer.holding_nil]
      rfl
  | append_singleton ops op ih =>
      rw [ringHistory_concat] at h
      obtain ⟨before, hbefore, h⟩ := Option.bind_eq_some_iff.mp h
      rw [List.foldl_append]
      exact MemoryOp.onRing_holding (ih hbefore) h

/-- A ring of at least one element is never a panic. -/
theorem exists_ringHistory (hn : 0 < n) (ops : List MemoryOp) :
    ∃ logs, ringHistory n ops = some logs := by
  induction ops using List.reverseRecOn with
  | nil => exact ⟨_, rfl⟩
  | append_singleton ops op ih =>
      obtain ⟨logs, hlogs⟩ := ih
      rw [ringHistory_concat, hlogs]
      cases op with
      | clearCurLogFile => exact ⟨_, rfl⟩
      | clearAllLogFile => exact ⟨_, rfl⟩
      | write p =>
          cases logs with
          | some r => exact ⟨_, rfl⟩
          | none =>
              have hlen : 0 = n.toNat := by
                rw [← RingBuffer.length_holding n.toNat, ← ringHistory_holding hlogs]
                rfl
              omega

/-- **Retention.**  What `Do` visits, but for `nil`, is the newest writes since the last clearing,
in order, and as many of them as there are elements; their number does not change. -/
theorem ring_holds_newest (hn : 1 ≤ n) (ops : List MemoryOp) :
    ∃ logs, ringHistory n ops = some logs ∧ Ring.len logs = n ∧
      (Ring.values logs).filterMap id <:+ ops.foldl MemoryOp.record [] ∧
      ((Ring.values logs).filterMap id).length =
        min n.toNat (ops.foldl MemoryOp.record []).length := by
  obtain ⟨logs, hlogs⟩ := exists_ringHistory hn ops
  have hvalues := ringHistory_holding hlogs
  refine ⟨logs, hlogs, ?_, ?_, ?_⟩
  · rw [← Ring.length_values, hvalues, RingBuffer.length_holding]
    exact Int.toNat_of_nonneg (Int.le_of_lt hn)
  · rw [hvalues, RingBuffer.filterMap_holding]
    exact List.drop_suffix _ _
  · rw [hvalues, RingBuffer.filterMap_holding, List.rtake, List.length_drop]
    omega

/-- Three elements after four writes, and after a clearing and one more. -/
theorem ring_holds_newest_three :
    let ops : List MemoryOp :=
      [.write (str "a"), .write (str "b"), .write (str "c"), .write (str "d")]
    (∃ logs, ringHistory 3 ops = some logs ∧ Ring.len logs = (3 : Int) ∧
      (Ring.values logs).filterMap id <:+ [str "a", str "b", str "c", str "d"] ∧
      ((Ring.values logs).filterMap id).length = 3) ∧
    ∃ logs, ringHistory 3 (ops ++ [.clearAllLogFile, .write (str "e")]) = some logs ∧
      Ring.len logs = (3 : Int) ∧ (Ring.values logs).filterMap id <:+ [str "e"] ∧
      ((Ring.values logs).filterMap id).length = 1 :=
  ⟨ring_holds_newest (by decide) _, ring_holds_newest (by decide) _⟩

/-! ## The text -/

/-- The text is the newest writes. -/
theorem memoryHistory_text (h : memoryHistory n ops = some ml) :
    joinLogs ml.logs = memoryText n ops := by
  obtain ⟨logs, hlogs, hvalues⟩ := memoryHistory_values h
  rw [joinLogs_eq, ← hvalues, ringHistory_holding hlogs, RingBuffer.filterMap_holding]
  rfl

end Supervisord.Logger
