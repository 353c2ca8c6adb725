import LoopProof.Lib.Fallible
import LoopProof.Lib.WorkerPool
import LoopProof.Lib.Word

/-!
# Bounded concurrency

The scripts work on the entries of a list with a bounded number of workers. A worker runs up to its
first call when it is made, and goes on whenever the call it waits for settles.
-/

namespace LoopProof.Proving

variable {α : Type}

/-- The workers of the planner's map; a bound below one makes none. -/
def mapConcurrent (values : List α) (concurrency : ℤ) (β ε : Type) :
    WorkerPool values.length β ε :=
  .start values.length β ε (min concurrency values.length).toNat

/-- The workers of the provers' map, which differs by the check of the bound. -/
def mapWithConcurrency (items : List α) (concurrency : ℤ) (β ε : Type) :
    Except String (WorkerPool items.length β ε) := do
  ensure (concurrency.natAbs ≤ maxSafeInteger ∧ 1 ≤ concurrency)
    "concurrency must be a positive integer"
  return mapConcurrent items concurrency β ε

/-- The call a worker makes for an index. -/
def workerCall {β ε : Type} (items : List α) (worker : α → ℕ → Except ε β)
    (index : Fin items.length) : Except ε β :=
  worker (items.get index) index

end LoopProof.Proving
