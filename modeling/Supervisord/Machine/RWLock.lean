import Mathlib.Data.List.Basic

/-!
# Readers–writer locks

The state of a readers–writer lock, with the holder of the write lock and the multiset of
readers kept by name.  A lock is *either* held by one writer *or* shared by some readers, so
the exclusion a readers–writer lock promises is not an invariant to be maintained but the
shape of the type; free is the lock shared by nobody.

Acquiring is partial (`none` is a blocked caller).  No queue is modelled: a reader may
overtake a waiting writer, so every interleaving of a fair lock is one of these.
-/

universe u v

/-- A readers–writer lock with writers named in `ω` and readers in `ρ`. -/
inductive RWLock (ω : Type u) (ρ : Type v) where
  /-- Held by one writer. -/
  | held (owner : ω)
  /-- Shared by these readers. -/
  | shared (readers : List ρ)
deriving DecidableEq

namespace RWLock

variable {ω : Type u} {ρ : Type v}

/-- Nobody holds the lock. -/
@[match_pattern] abbrev free : RWLock ω ρ := .shared []

instance : Inhabited (RWLock ω ρ) := ⟨free⟩

/-- Take the write lock. -/
def lock (o : ω) : RWLock ω ρ → Option (RWLock ω ρ)
  | .shared [] => some (.held o)
  | _ => none

/-- Take a read lock. -/
def rlock (r : ρ) : RWLock ω ρ → Option (RWLock ω ρ)
  | .held _ => none
  | .shared rs => some (.shared (r :: rs))

/-- Give one read lock back. -/
def runlock [DecidableEq ρ] (r : ρ) : RWLock ω ρ → RWLock ω ρ
  | .held o => .held o
  | .shared rs => .shared (rs.erase r)

/-- The readers inside. -/
def readers : RWLock ω ρ → List ρ
  | .held _ => []
  | .shared rs => rs

/-- A short read-only critical section can run: no writer is inside. -/
def readable : RWLock ω ρ → Bool
  | .held _ => false
  | .shared _ => true

@[simp] theorem readable_held (o : ω) : (held o : RWLock ω ρ).readable = false := rfl

@[simp] theorem readable_shared (rs : List ρ) : (shared rs : RWLock ω ρ).readable = true := rfl

theorem lock_eq_some {o : ω} {l l' : RWLock ω ρ} :
    l.lock o = some l' ↔ l = .free ∧ l' = .held o := by
  rcases l with _ | (_ | _) <;> simp [lock, eq_comm]

theorem rlock_eq_some {r : ρ} {l l' : RWLock ω ρ} (h : l.rlock r = some l') :
    l.readable ∧ l'.readable := by
  cases l with
  | held o => cases h
  | shared rs => cases h; exact ⟨rfl, rfl⟩

@[simp] theorem runlock_readable [DecidableEq ρ] (r : ρ) (l : RWLock ω ρ) :
    (l.runlock r).readable = l.readable := by
  cases l <;> rfl

@[simp] theorem readers_held (o : ω) : (held o : RWLock ω ρ).readers = [] := rfl

@[simp] theorem readers_shared (rs : List ρ) : (shared rs : RWLock ω ρ).readers = rs := rfl

theorem readers_rlock {r : ρ} {l l' : RWLock ω ρ} (h : l.rlock r = some l') :
    l'.readers = r :: l.readers := by
  cases l with
  | held o => cases h
  | shared rs => cases h; rfl

@[simp] theorem readers_runlock [DecidableEq ρ] (r : ρ) (l : RWLock ω ρ) :
    (l.runlock r).readers = l.readers.erase r := by
  cases l <;> rfl

/-- A lock that nobody holds and nobody reads is free. -/
theorem eq_free {l : RWLock ω ρ} (hw : ∀ o, l ≠ .held o) (hr : ∀ r, r ∉ l.readers) :
    l = .free := by
  cases l with
  | held o => exact absurd rfl (hw o)
  | shared rs => rw [show rs = [] from List.eq_nil_iff_forall_not_mem.mpr hr]

end RWLock
