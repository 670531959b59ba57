import Mathlib.Logic.Basic

/-!
# Reader-Writer Locks

The state of a reader-writer lock and its four operations. A lock is free,
held by one or more readers, or held by one writer; the type has no value in
which a reader and a writer hold it together, so mutual exclusion is not
something later proofs have to establish.

Acquiring is partial. `none` is a caller that has to wait, and how long it
waits is up to whoever holds the lock.

## Main definitions

* `RwLock`: The state of the lock.
* `rlock`, `runlock`: Taking and releasing the lock for reading.
* `wlock`, `wunlock`: Taking and releasing the lock for writing.

## Theorems

* `runlock_rlock`: A reader that comes and goes leaves the lock as it was.
* `wlock_eq_some`: Only a free lock can be taken for writing.
-/

/-- Who holds the lock. `reading n` is `n + 1` readers. -/
inductive RwLock where
  | free
  | reading (n : Nat)
  | writing
deriving DecidableEq, Repr

namespace RwLock

/-- Take the lock for reading, unless a writer holds it. -/
def rlock : RwLock → Option RwLock
  | .free => some (.reading 0)
  | .reading n => some (.reading (n + 1))
  | .writing => none

/-- Release the lock as a reader. -/
def runlock : RwLock → RwLock
  | .free => .free
  | .reading 0 => .free
  | .reading (n + 1) => .reading n
  | .writing => .writing

/-- Take the lock for writing, unless anyone holds it. -/
def wlock : RwLock → Option RwLock
  | .free => some .writing
  | .reading _ => none
  | .writing => none

/-- Release the lock as the writer. -/
def wunlock : RwLock → RwLock
  | .free => .free
  | .reading n => .reading n
  | .writing => .free

theorem runlock_rlock (l l' : RwLock) (h : l.rlock = some l') : l'.runlock = l := by
  cases l with
  | free =>
      simp only [rlock, Option.some.injEq] at h
      rw [← h, runlock]
  | reading n =>
      simp only [rlock, Option.some.injEq] at h
      rw [← h, runlock]
  | writing => exact absurd h (by simp only [rlock, reduceCtorEq, not_false_eq_true])

theorem wlock_eq_some (l l' : RwLock) : l.wlock = some l' ↔ l = .free ∧ l' = .writing := by
  cases l <;> simp only [wlock, Option.some.injEq, reduceCtorEq, true_and, false_and, eq_comm]

end RwLock
