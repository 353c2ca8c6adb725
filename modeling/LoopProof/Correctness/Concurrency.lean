import LoopProof.Proving.Concurrency
import Mathlib.Data.List.FinRange

/-!
# Bounded maps

Whatever the order in which the calls settle, a bounded map makes each call once, never has more of
them in flight than its bound allows, and answers what a loop over the list would.
-/

namespace LoopProof.Proving

section Runs

variable {α β ε : Type} {items : List α} {concurrency : ℤ} {worker : α → ℕ → Except ε β}
  {pool pool' : WorkerPool items.length β ε} {events : List ℕ}

/-- The workers and calls of a bounded map at one moment of a run. -/
structure Bounded (items : List α) (concurrency : ℤ) (worker : α → ℕ → Except ε β)
    (events : List ℕ) (pool : WorkerPool items.length β ε) : Prop where
  inFlight_le : pool.inFlight ≤ concurrency
  /-- No two workers wait for the call of one item. -/
  distinct : ∀ {first second item}, pool.Holds first item → pool.Holds second item →
    first = second
  /-- A worker goes on with the item at the counter, which then moves: no item is started twice. -/
  inOrder : ∀ {next later item}, pool.settle (workerCall items worker) next = some later →
    later.Holds next item → pool.nextIndex = item ∧ later.nextIndex = pool.nextIndex + 1
  /-- Every item that was taken has settled or is in flight. -/
  taken : pool.nextIndex = events.length + pool.inFlight
  next_le : pool.nextIndex ≤ items.length
  /-- The results of a map that resolves are those of a loop over the list. -/
  resolved : ∀ {results}, pool.outcome = some (.ok results) → ∃ outputs,
    results = outputs.map some ∧ items.zipIdx.mapM (fun entry => worker entry.1 entry.2) =
      .ok outputs
  /-- The reason of a map that rejects is that of one of its calls. -/
  rejected : ∀ {error}, pool.outcome = some (.error error) →
    ∃ entry ∈ items.zipIdx, worker entry.1 entry.2 = .error error

theorem zipIdx_eq_map_finRange (items : List α) :
    items.zipIdx = (List.finRange items.length).map fun index => (items.get index, index.val) := by
  apply List.ext_getElem
  · simp only [List.length_zipIdx, List.length_map, List.length_finRange]
  · intro index _ _
    simp only [List.getElem_zipIdx, List.getElem_map, List.getElem_finRange, Nat.zero_add,
      List.get_eq_getElem, Fin.cast_mk]

/-- A loop over the list gives the outputs of the calls. -/
theorem mapM_workerCall {output : Fin items.length → β}
    (h : ∀ index, workerCall items worker index = .ok (output index)) :
    items.zipIdx.mapM (fun entry => worker entry.1 entry.2) = .ok (List.ofFn output) := by
  rw [zipIdx_eq_map_finRange, List.mapM_map, mapM_eq_ok, List.ofFn_eq_map,
    List.forall₂_map_right_iff, List.forall₂_same]
  exact fun index _ => h index

theorem mapWithConcurrency_eq_ok : mapWithConcurrency items concurrency β ε = .ok pool ↔
    (concurrency.natAbs ≤ maxSafeInteger ∧ 1 ≤ concurrency) ∧
      mapConcurrent items concurrency β ε = pool := by
  simp only [mapWithConcurrency, bind_eq_ok, ensure_eq_ok, pure_eq_ok, exists_const]

/-- The number of workers fits the list, and there are some unless the list is empty. -/
theorem workers_fit (items : List α) (hpositive : 1 ≤ concurrency) :
    (min concurrency items.length).toNat ≤ items.length ∧
      ((min concurrency items.length).toNat : ℤ) ≤ concurrency ∧
      (0 < (min concurrency items.length).toNat ∨ items.length = 0) := by
  omega

/-- What the pool keeps along a run, with every item that was taken settled or in flight. -/
theorem mapConcurrent_run (hpositive : 1 ≤ concurrency)
    (hrun : run (WorkerPool.settle (workerCall items worker))
      (mapConcurrent items concurrency β ε) events = some pool') :
    pool'.Sound (min concurrency items.length).toNat (workerCall items worker) ∧
      pool'.nextIndex = events.length + pool'.inFlight := by
  obtain ⟨hfits, -, -⟩ := workers_fit items hpositive
  refine ⟨WorkerPool.run_sound hfits hrun, ?_⟩
  have htaken := WorkerPool.run_taken hrun
  rw [mapConcurrent, WorkerPool.start_inFlight hfits, WorkerPool.start_eq hfits] at htaken
  simp only at htaken
  omega

/-- Any run of a bounded map, in whatever order the calls settle. -/
theorem mapWithConcurrency_bounded (hmap : mapWithConcurrency items concurrency β ε = .ok pool)
    (hrun : run (WorkerPool.settle (workerCall items worker)) pool events = some pool') :
    Bounded items concurrency worker events pool' := by
  obtain ⟨⟨-, hpositive⟩, rfl⟩ := mapWithConcurrency_eq_ok.mp hmap
  obtain ⟨-, hbound, hsome⟩ := workers_fit items hpositive
  obtain ⟨hsound, htaken⟩ := mapConcurrent_run hpositive hrun
  constructor
  case inFlight_le => exact (Int.ofNat_le.mpr hsound.inFlight_le).trans hbound
  case distinct => exact hsound.distinct
  case inOrder => exact fun hstep hheld => WorkerPool.settle_holds hstep hheld
  case taken => exact htaken
  case next_le => exact hsound.next
  case resolved =>
    intro results hanswer
    obtain ⟨output, hresults, hcalls⟩ := hsound.outcome_ok hsome hanswer
    exact ⟨List.ofFn output, hresults, mapM_workerCall hcalls⟩
  case rejected =>
    intro error hanswer
    obtain ⟨index, hindex⟩ := hsound.rejected (WorkerPool.outcome_eq_error.mp hanswer)
    refine ⟨(items.get index, index.val), ?_, hindex⟩
    rw [zipIdx_eq_map_finRange]
    exact List.mem_map_of_mem (List.mem_finRange index)

/-- Every run goes on to an answer, and what it has answered no later call changes. -/
theorem mapWithConcurrency_answers (hmap : mapWithConcurrency items concurrency β ε = .ok pool)
    (hrun : run (WorkerPool.settle (workerCall items worker)) pool events = some pool') :
    (∃ later last answer, events.length + later.length ≤ items.length ∧
      run (WorkerPool.settle (workerCall items worker)) pool' later = some last ∧
      last.outcome = some answer) ∧
    ∀ answer, pool'.outcome = some answer → ∀ more final,
      run (WorkerPool.settle (workerCall items worker)) pool' more = some final →
        final.outcome = some answer := by
  obtain ⟨⟨-, hpositive⟩, rfl⟩ := mapWithConcurrency_eq_ok.mp hmap
  obtain ⟨hsound, htaken⟩ := mapConcurrent_run hpositive hrun
  have hnext := hsound.next
  have hleft : items.length + pool'.inFlight =
      pool'.nextIndex + (items.length - events.length) := by omega
  constructor
  · obtain ⟨later, last, answer, hlength, hlater, hanswer⟩ :=
      WorkerPool.exists_answer hsound hleft
    exact ⟨later, last, answer, by omega, hlater, hanswer⟩
  · intro answer hanswer more final hmore
    exact WorkerPool.run_outcome hmore hanswer

/-- Without the check, a bound below one answers a hole for every entry, and no call is made. -/
theorem mapConcurrent_holes (h : concurrency ≤ 0) :
    (mapConcurrent items concurrency β ε).outcome =
      some (.ok (List.replicate items.length none)) := by
  have hnone : (min concurrency items.length).toNat = 0 := by omega
  rw [mapConcurrent, hnone, WorkerPool.outcome_eq_ok]
  exact ⟨rfl, rfl, List.ofFn_const items.length none⟩

end Runs

/-! ## Four calls and two workers -/

/-- How long each call takes; the results do not depend on it. -/
def delays : List ℕ := [30, 5, 20, 10]

/-- The calls settle in the order of their delays, and the results stand in the order of the
list. -/
theorem delays_bounded : ∃ pool,
    run (WorkerPool.settle (workerCall delays fun _ index => .ok index))
      (mapConcurrent delays 2 ℕ String) [1, 1, 0, 1] = some pool ∧
    pool.outcome = some (.ok [some 0, some 1, some 2, some 3]) ∧
    Bounded delays 2 (fun _ index => .ok index) [1, 1, 0, 1] pool :=
  ⟨_, rfl, rfl, mapWithConcurrency_bounded rfl rfl⟩

/-- The call of the second entry fails, and every other call gives its index. -/
def failing (_ : ℕ) (index : ℕ) : Except String ℕ :=
  if index = 1 then .error "second" else .ok index

/-- The failure of the second entry is the answer, and no call in flight changes it. -/
theorem delays_answered : ∃ pool,
    run (WorkerPool.settle (workerCall delays failing)) (mapConcurrent delays 2 ℕ String) [1] =
      some pool ∧
    (∃ later last answer, [1].length + later.length ≤ delays.length ∧
      run (WorkerPool.settle (workerCall delays failing)) pool later = some last ∧
      last.outcome = some answer) ∧
    ∀ more final, run (WorkerPool.settle (workerCall delays failing)) pool more = some final →
      final.outcome = some (.error "second") := by
  have hmap : mapWithConcurrency delays 2 ℕ String = .ok (mapConcurrent delays 2 ℕ String) := rfl
  obtain ⟨pool, hrun⟩ : ∃ pool, run (WorkerPool.settle (workerCall delays failing))
      (mapConcurrent delays 2 ℕ String) [1] = some pool := ⟨_, rfl⟩
  have hanswer : (run (WorkerPool.settle (workerCall delays failing))
      (mapConcurrent delays 2 ℕ String) [1]).bind WorkerPool.outcome = some (.error "second") := rfl
  rw [hrun, Option.bind_some] at hanswer
  obtain ⟨hlater, hstays⟩ := mapWithConcurrency_answers hmap hrun
  exact ⟨pool, hrun, hlater, hstays _ hanswer⟩

end LoopProof.Proving
