import LoopProof.Lib.Machine
import Mathlib.Data.List.Count
import Mathlib.Data.List.OfFn

/-!
# Worker pools

Workers take the items of a list by a common counter, one at a time each, and put the result of an
item at its index. Items settle in any order. The pool answers the first failure at once, and the
results when every worker has ended; a worker ends when no item is left or its own item failed.
-/

namespace LoopProof

variable {size : ℕ} {β ε : Type}

/-- The state of a pool over a number of items. -/
structure WorkerPool (size : ℕ) (β ε : Type) where
  nextIndex : ℕ
  /-- A hole for every item without a result. -/
  results : Fin size → Option β
  /-- The item in the hands of each worker; one that has ended has none. -/
  workers : List (Option (Fin size))
  rejected : Option ε

namespace WorkerPool

/-- The next item for a worker, if one is left. -/
def offer (pool : WorkerPool size β ε) : Option (Fin size) :=
  if h : pool.nextIndex < size then some ⟨pool.nextIndex, h⟩ else none

/-- The counter once a worker has asked for the next item. -/
def advance (pool : WorkerPool size β ε) : ℕ :=
  if pool.nextIndex < size then pool.nextIndex + 1 else pool.nextIndex

/-- One more worker, which asks for an item at once. -/
def hire (pool : WorkerPool size β ε) : WorkerPool size β ε :=
  ⟨pool.advance, pool.results, pool.workers ++ [pool.offer], pool.rejected⟩

/-- The pool with all its workers hired, before any item has settled. -/
def start (size : ℕ) (β ε : Type) : ℕ → WorkerPool size β ε
  | 0 => ⟨0, fun _ => none, [], none⟩
  | count + 1 => (start size β ε count).hire

/-- The item of a worker settles, and the worker asks for the next one unless it failed. -/
def settle (work : Fin size → Except ε β) (pool : WorkerPool size β ε) (worker : ℕ) :
    Option (WorkerPool size β ε) :=
  match pool.workers[worker]? with
  | some (some item) =>
    match work item with
    | .ok result =>
      some ⟨pool.advance, Function.update pool.results item (some result),
        pool.workers.set worker pool.offer, pool.rejected⟩
    | .error error =>
      some ⟨pool.nextIndex, pool.results, pool.workers.set worker none,
        pool.rejected <|> some error⟩
  | _ => none

/-- How many items are in flight. -/
def inFlight (pool : WorkerPool size β ε) : ℕ := pool.workers.countP Option.isSome

/-- What the pool answers: the first failure, or the results once all workers have ended. -/
def outcome (pool : WorkerPool size β ε) : Option (Except ε (List (Option β))) :=
  match pool.rejected with
  | some error => some (.error error)
  | none => if pool.inFlight = 0 then some (.ok (List.ofFn pool.results)) else none

/-- The worker has the item in its hands. -/
def Holds (pool : WorkerPool size β ε) (worker : ℕ) (item : Fin size) : Prop :=
  pool.workers[worker]? = some (some item)

variable {count : ℕ} {work : Fin size → Except ε β} {pool pool' : WorkerPool size β ε}
  {worker : ℕ} {item : Fin size}

/-- The next item is offered. -/
theorem offer_eq_some : pool.offer = some item ↔ pool.nextIndex = item := by
  rw [offer]
  constructor
  · intro h
    split at h
    · rw [← Option.some.inj h]
    · cases h
  · intro h
    rw [dif_pos (h ▸ item.isLt), Option.some.injEq]
    exact Fin.ext h

/-- Nothing is offered when all items were. -/
theorem offer_eq_none : pool.offer = none ↔ size ≤ pool.nextIndex := by
  rw [offer]
  by_cases h : pool.nextIndex < size
  · simp only [dif_pos h, reduceCtorEq, false_iff]
    omega
  · simp only [dif_neg h, true_iff]
    omega

/-- The counter moves by one exactly when an item is offered. -/
theorem advance_eq : pool.advance = pool.nextIndex + if pool.offer.isSome then 1 else 0 := by
  rw [advance, offer]
  by_cases h : pool.nextIndex < size
  · simp only [if_pos h, dif_pos h, Option.isSome_some, ite_true]
  · rw [if_neg h, dif_neg h]
    rfl

/-- An item the counter has passed was passed before, or is the one on offer. -/
theorem lt_advance :
    item.val < pool.advance ↔ item.val < pool.nextIndex ∨ pool.offer = some item := by
  rw [advance, offer_eq_some]
  have hitem := item.isLt
  split <;> omega

/-- As many workers as fit take one item each. -/
theorem start_eq (hcount : count ≤ size) : start size β ε count =
    ⟨count, fun _ => none, (List.finRange size).take count |>.map some, none⟩ := by
  induction count with
  | zero => rfl
  | succ count ih =>
    have hlt : count < size := hcount
    rw [start, ih hlt.le, hire, advance, offer, if_pos hlt, dif_pos hlt, ← List.map_singleton,
      ← List.map_append, List.take_succ_eq_append_getElem (by rwa [List.length_finRange])]
    simp only [List.getElem_finRange, Fin.cast_mk]

/-- There are as many workers as asked for. -/
theorem start_length (hcount : count ≤ size) :
    (start size β ε count).workers.length = count := by
  rw [start_eq hcount, List.length_map, List.length_take, List.length_finRange]
  exact min_eq_left hcount

/-- At the start the workers hold the items with their own numbers. -/
theorem start_holds (hcount : count ≤ size) :
    (start size β ε count).Holds worker item ↔ worker = item ∧ worker < count := by
  rw [Holds, start_eq hcount, List.getElem?_map, Option.map_eq_some_iff]
  constructor
  · rintro ⟨held, hheld, hitem⟩
    rw [List.getElem?_take] at hheld
    split at hheld
    · rename_i hlt
      obtain ⟨hbound, hget⟩ := List.getElem?_eq_some_iff.mp hheld
      rw [List.getElem_finRange] at hget
      rw [← Option.some.inj hitem, ← hget]
      exact ⟨rfl, hlt⟩
    · cases hheld
  · rintro ⟨rfl, hlt⟩
    refine ⟨item, ?_, rfl⟩
    rw [List.getElem?_take, if_pos hlt, List.getElem?_eq_some_iff]
    refine ⟨by rw [List.length_finRange]; exact item.isLt, ?_⟩
    rw [List.getElem_finRange]
    rfl

/-- What one settled item does. -/
inductive Settled (work : Fin size → Except ε β) (pool : WorkerPool size β ε) (worker : ℕ)
    (item : Fin size) : WorkerPool size β ε → Prop
  | done {result : β} (h : work item = .ok result) :
    Settled work pool worker item ⟨pool.advance, Function.update pool.results item (some result),
      pool.workers.set worker pool.offer, pool.rejected⟩
  | failed {error : ε} (h : work item = .error error) :
    Settled work pool worker item ⟨pool.nextIndex, pool.results, pool.workers.set worker none,
      pool.rejected <|> some error⟩

/-- A worker that holds an item settles it. -/
theorem settle_eq_some : pool.settle work worker = some pool' ↔
    ∃ item, pool.Holds worker item ∧ Settled work pool worker item pool' := by
  unfold settle Holds
  constructor
  · intro h
    split at h
    · rename_i item hitem
      refine ⟨item, hitem, ?_⟩
      cases hwork : work item with
      | ok result =>
        rw [hwork] at h
        rw [← Option.some.inj h]
        exact .done hwork
      | error error =>
        rw [hwork] at h
        rw [← Option.some.inj h]
        exact .failed hwork
    · cases h
  · rintro ⟨item, hitem, hsettled⟩
    cases hsettled with
    | done h => simp only [hitem, h]
    | failed h => simp only [hitem, h]

/-- A worker that holds an item can settle it. -/
theorem exists_settle (work : Fin size → Except ε β) (h : pool.Holds worker item) :
    ∃ pool', pool.settle work worker = some pool' := by
  cases hwork : work item with
  | ok result => exact ⟨_, settle_eq_some.mpr ⟨item, h, .done hwork⟩⟩
  | error error => exact ⟨_, settle_eq_some.mpr ⟨item, h, .failed hwork⟩⟩

/-! ## What every run keeps -/

/-- Every item the counter has passed is in the hands of one worker or has settled, and a worker
has ended for a reason. -/
structure Sound (count : ℕ) (work : Fin size → Except ε β) (pool : WorkerPool size β ε) :
    Prop where
  workers : pool.workers.length = count
  next : pool.nextIndex ≤ size
  taken : ∀ {worker item}, pool.Holds worker item → item.val < pool.nextIndex
  distinct : ∀ {worker worker' item}, pool.Holds worker item → pool.Holds worker' item →
    worker = worker'
  settled : ∀ {item : Fin size}, item.val < pool.nextIndex → (∃ worker, pool.Holds worker item) ∨
    pool.results item ≠ none ∨ pool.rejected ≠ none
  results : ∀ {item result}, pool.results item = some result → work item = .ok result
  rejected : ∀ {error}, pool.rejected = some error → ∃ item, work item = .error error
  ended : ∀ {worker : ℕ}, pool.workers[worker]? = some none →
    size ≤ pool.nextIndex ∨ pool.rejected ≠ none

/-- Items are offered in order. -/
theorem le_advance : pool.nextIndex ≤ pool.advance := by
  rw [advance]
  split <;> omega

/-- No item is offered beyond the last one. -/
theorem advance_le (h : pool.nextIndex ≤ size) : pool.advance ≤ size := by
  rw [advance]
  split <;> omega

/-- The pool is sound before any item is settled. -/
theorem start_sound (hcount : count ≤ size) : (start size β ε count).Sound count work where
  workers := start_length hcount
  next := by
    rw [start_eq hcount]
    exact hcount
  taken := by
    intro worker item h
    obtain ⟨rfl, hlt⟩ := (start_holds hcount).mp h
    rw [start_eq hcount]
    exact hlt
  distinct := by
    intro worker worker' item h h'
    rw [((start_holds hcount).mp h).1, ((start_holds hcount).mp h').1]
  settled := by
    intro item hitem
    rw [start_eq hcount] at hitem
    exact .inl ⟨item, (start_holds hcount).mpr ⟨rfl, hitem⟩⟩
  results := by
    intro item result h
    rw [start_eq hcount] at h
    cases h
  rejected := by
    intro error h
    rw [start_eq hcount] at h
    cases h
  ended := by
    intro worker h
    rw [start_eq hcount, List.getElem?_map, Option.map_eq_some_iff] at h
    obtain ⟨held, -, hheld⟩ := h
    cases hheld

/-- After a worker was given something else to do, the others hold what they held. -/
theorem getElem?_set_eq_some {workers : List (Option (Fin size))} {next held : Option (Fin size)}
    {other : ℕ} (h : (workers.set worker next)[other]? = some held) :
    (other = worker ∧ held = next) ∨ (other ≠ worker ∧ workers[other]? = some held) := by
  by_cases ho : other = worker
  · subst ho
    refine .inl ⟨rfl, ?_⟩
    rw [List.getElem?_set_self'] at h
    cases hget : workers[other]? with
    | none =>
      rw [hget] at h
      cases h
    | some old =>
      rw [hget] at h
      exact (Option.some.inj h).symm
  · rw [List.getElem?_set_ne (Ne.symm ho)] at h
    exact .inr ⟨ho, h⟩

/-- The item that settled has a result, and no other item loses its own. -/
theorem update_ne_none {results : Fin size → Option β} {result : β} {other : Fin size}
    (h : other = item ∨ results other ≠ none) :
    Function.update results item (some result) other ≠ none := by
  by_cases hother : other = item
  · rw [hother, Function.update_self]
    exact Option.some_ne_none result
  · rw [Function.update_of_ne hother]
    exact h.resolve_left hother

/-- A worker whose item settled well asks for the next one. -/
theorem Sound.done {result : β} (h : pool.Sound count work) (hitem : pool.Holds worker item)
    (hwork : work item = .ok result) :
    Sound count work ⟨pool.advance, Function.update pool.results item (some result),
      pool.workers.set worker pool.offer, pool.rejected⟩ where
  workers := by
    rw [List.length_set]
    exact h.workers
  next := advance_le h.next
  taken := by
    intro other held hheld
    rcases getElem?_set_eq_some hheld with ⟨-, hoffer⟩ | ⟨-, hold⟩
    · exact lt_advance.mpr (.inr hoffer.symm)
    · exact lt_advance.mpr (.inl (h.taken hold))
  distinct := by
    intro first second held hfirst hsecond
    rcases getElem?_set_eq_some hfirst with ⟨rfl, hoffer⟩ | ⟨-, hold⟩
    · rcases getElem?_set_eq_some hsecond with ⟨rfl, -⟩ | ⟨-, hold⟩
      · rfl
      · have hlt := h.taken hold
        have hnext := offer_eq_some.mp hoffer.symm
        omega
    · rcases getElem?_set_eq_some hsecond with ⟨rfl, hoffer⟩ | ⟨-, hold'⟩
      · have hlt := h.taken hold
        have hnext := offer_eq_some.mp hoffer.symm
        omega
      · exact h.distinct hold hold'
  settled := by
    intro passed hpassed
    rcases lt_advance.mp hpassed with hpassed | hoffer
    · rcases h.settled hpassed with ⟨other, hother⟩ | hresult | hrejected
      · by_cases ho : other = worker
        · subst ho
          have hsame : passed = item := Option.some.inj (Option.some.inj (hother.symm.trans hitem))
          exact .inr (.inl (update_ne_none (.inl hsame)))
        · refine .inl ⟨other, ?_⟩
          unfold Holds
          rw [List.getElem?_set_ne (Ne.symm ho)]
          exact hother
      · exact .inr (.inl (update_ne_none (.inr hresult)))
      · exact .inr (.inr hrejected)
    · refine .inl ⟨worker, ?_⟩
      obtain ⟨hlt, -⟩ := List.getElem?_eq_some_iff.mp hitem
      unfold Holds
      rw [List.getElem?_set_self hlt, hoffer]
  results := by
    intro settled value hvalue
    rcases update_eq_some hvalue with ⟨rfl, rfl⟩ | ⟨-, hold⟩
    · exact hwork
    · exact h.results hold
  rejected := h.rejected
  ended := by
    intro other hother
    rcases getElem?_set_eq_some hother with ⟨-, hoffer⟩ | ⟨-, hold⟩
    · exact .inl ((offer_eq_none.mp hoffer.symm).trans le_advance)
    · exact (h.ended hold).imp_left fun hsize => hsize.trans le_advance

/-- A worker whose item failed ends, and the pool is rejected. -/
theorem Sound.failed {error : ε} (h : pool.Sound count work) (hwork : work item = .error error) :
    Sound count work ⟨pool.nextIndex, pool.results, pool.workers.set worker none,
      pool.rejected <|> some error⟩ := by
  have hrejected : (pool.rejected <|> some error) ≠ none := by
    cases pool.rejected <;> exact Option.some_ne_none _
  have hkept : ∀ {other held}, (pool.workers.set worker none)[other]? = some (some held) →
      pool.Holds other held := by
    intro other held hheld
    rcases getElem?_set_eq_some hheld with ⟨-, hnone⟩ | ⟨-, hold⟩
    · cases hnone
    · exact hold
  constructor
  case workers =>
    rw [List.length_set]
    exact h.workers
  case next => exact h.next
  case taken => exact fun hheld => h.taken (hkept hheld)
  case distinct => exact fun hfirst hsecond => h.distinct (hkept hfirst) (hkept hsecond)
  case settled => exact fun _ => .inr (.inr hrejected)
  case results => exact h.results
  case rejected =>
    intro first hfirst
    cases hold : pool.rejected with
    | none =>
      rw [hold] at hfirst
      cases hfirst
      exact ⟨item, hwork⟩
    | some old =>
      rw [hold] at hfirst
      cases hfirst
      exact h.rejected hold
  case ended => exact fun _ => .inr hrejected

/-- A settled item keeps the pool sound. -/
theorem Sound.settle (h : pool.Sound count work) (hstep : pool.settle work worker = some pool') :
    pool'.Sound count work := by
  obtain ⟨item, hitem, hsettled⟩ := settle_eq_some.mp hstep
  cases hsettled with
  | done hwork => exact h.done hitem hwork
  | failed hwork => exact h.failed hwork

/-- The item a worker goes on with is the one at the counter, which then moves. -/
theorem settle_holds (hstep : pool.settle work worker = some pool')
    (hnext : pool'.Holds worker item) :
    pool.nextIndex = item ∧ pool'.nextIndex = pool.nextIndex + 1 := by
  obtain ⟨old, hold, hsettled⟩ := settle_eq_some.mp hstep
  obtain ⟨hlt, -⟩ := List.getElem?_eq_some_iff.mp hold
  unfold Holds at hnext
  cases hsettled with
  | done hwork =>
    rw [List.getElem?_set_self hlt, Option.some.injEq] at hnext
    have hitem := offer_eq_some.mp hnext
    refine ⟨hitem, ?_⟩
    rw [advance_eq, hnext]
    rfl
  | failed hwork =>
    rw [List.getElem?_set_self hlt] at hnext
    cases hnext

/-- Every item that was taken is in flight or has settled. -/
theorem settle_taken (hstep : pool.settle work worker = some pool') :
    pool'.nextIndex + pool.inFlight = pool.nextIndex + pool'.inFlight + 1 := by
  obtain ⟨item, hitem, hsettled⟩ := settle_eq_some.mp hstep
  obtain ⟨hlt, hget⟩ := List.getElem?_eq_some_iff.mp hitem
  have hpositive : 0 < pool.inFlight :=
    List.countP_pos_iff.mpr ⟨some item, List.mem_of_getElem? hitem, rfl⟩
  unfold inFlight at hpositive
  cases hsettled with
  | done hwork =>
    simp only [inFlight, List.countP_set hlt, hget, Option.isSome_some, ite_true, advance_eq]
    omega
  | failed hwork =>
    simp only [inFlight, List.countP_set hlt, hget, Option.isSome_some, ite_true,
      Option.isSome_none, Bool.false_eq_true, ite_false]
    omega

/-- Every worker starts with an item. -/
theorem start_inFlight (hcount : count ≤ size) : (start size β ε count).inFlight = count := by
  have hall : ∀ worker ∈ (start size β ε count).workers, worker.isSome := by
    intro worker hworker
    rw [start_eq hcount] at hworker
    obtain ⟨item, -, rfl⟩ := List.mem_map.mp hworker
    rfl
  rw [inFlight, List.countP_eq_length.mpr hall, start_length hcount]

/-! ## Whole runs -/

/-- What holds after any run from the start. -/
theorem run_sound (hcount : count ≤ size) {events : List ℕ}
    (hrun : run (settle work) (start size β ε count) events = some pool) :
    pool.Sound count work :=
  run_invariant (fun h hstep => Sound.settle h hstep) (start_sound hcount) hrun

/-- The items taken are those that have settled and those in flight. -/
theorem run_taken {events : List ℕ} (hrun : run (settle work) pool events = some pool') :
    pool'.nextIndex + pool.inFlight = pool.nextIndex + pool'.inFlight + events.length := by
  induction events generalizing pool with
  | nil =>
    obtain rfl : pool = pool' := Option.some.inj hrun
    rfl
  | cons worker events ih =>
    obtain ⟨mid, hmid, hrest⟩ := run_cons_eq_some.mp hrun
    have hfirst := settle_taken hmid
    have hothers := ih hrest
    rw [List.length_cons]
    omega

/-- No more items are in flight than there are workers. -/
theorem Sound.inFlight_le (h : pool.Sound count work) : pool.inFlight ≤ count := by
  rw [inFlight, ← h.workers]
  exact List.countP_le_length

/-- While an item is in flight, some worker can settle its own. -/
theorem exists_settle_of_inFlight (work : Fin size → Except ε β) (h : pool.inFlight ≠ 0) :
    ∃ worker pool', pool.settle work worker = some pool' := by
  obtain ⟨held, hheld, hsome⟩ := List.countP_pos_iff.mp (Nat.pos_of_ne_zero h)
  obtain ⟨item, rfl⟩ := Option.isSome_iff_exists.mp hsome
  obtain ⟨worker, hworker⟩ := List.mem_iff_getElem?.mp hheld
  obtain ⟨pool', hpool'⟩ := exists_settle work hworker
  exact ⟨worker, pool', hpool'⟩

/-- A pool with workers that has no item in flight any more has settled every item, unless one
failed. -/
theorem Sound.complete (h : pool.Sound count work) (hcount : 0 < count ∨ size = 0)
    (hidle : pool.inFlight = 0) (hrejected : pool.rejected = none) (item : Fin size) :
    ∃ result, pool.results item = some result ∧ work item = .ok result := by
  have hended : ∀ worker < count, pool.workers[worker]? = some none := by
    intro worker hworker
    rw [← h.workers] at hworker
    have hnone := List.countP_eq_zero.mp hidle _ (List.getElem_mem hworker)
    rw [Option.not_isSome_iff_eq_none] at hnone
    rw [List.getElem?_eq_getElem hworker, hnone]
  have hsize : size ≤ pool.nextIndex := by
    rcases hcount with hcount | rfl
    · exact (h.ended (hended 0 hcount)).resolve_right (not_not_intro hrejected)
    · exact Nat.zero_le _
  rcases h.settled (item.isLt.trans_le hsize) with ⟨worker, hworker⟩ | hresult | hne
  · obtain ⟨hlt, -⟩ := List.getElem?_eq_some_iff.mp hworker
    rw [h.workers] at hlt
    cases (hended worker hlt).symm.trans hworker
  · obtain ⟨result, hvalue⟩ := Option.ne_none_iff_exists'.mp hresult
    exact ⟨result, hvalue, h.results hvalue⟩
  · exact absurd hrejected hne

/-- The pool answers its results when no item is in flight and none was rejected. -/
theorem outcome_eq_ok {results : List (Option β)} : pool.outcome = some (.ok results) ↔
    pool.rejected = none ∧ pool.inFlight = 0 ∧ List.ofFn pool.results = results := by
  rw [outcome]
  cases pool.rejected with
  | some error => simp only [Option.some.injEq, reduceCtorEq, false_and]
  | none =>
    by_cases h : pool.inFlight = 0
    · simp only [h, ite_true, Option.some.injEq, Except.ok.injEq, true_and]
    · simp only [h, ite_false, reduceCtorEq, false_and, and_false]

/-- The pool answers the error that it was rejected with. -/
theorem outcome_eq_error {error : ε} :
    pool.outcome = some (.error error) ↔ pool.rejected = some error := by
  rw [outcome]
  cases pool.rejected with
  | some first => simp only [Option.some.injEq, Except.error.injEq]
  | none =>
    simp only [reduceCtorEq, iff_false]
    split <;> simp only [Option.some.injEq, reduceCtorEq, not_false_eq_true]

/-- A pool without an answer has an item in flight. -/
theorem inFlight_of_outcome_eq_none (h : pool.outcome = none) : pool.inFlight ≠ 0 := by
  intro hidle
  rw [outcome] at h
  split at h
  · cases h
  · rw [if_pos hidle] at h
    cases h

/-- The results of a pool that answers them are what its items give. -/
theorem Sound.outcome_ok (h : pool.Sound count work) (hcount : 0 < count ∨ size = 0)
    {results : List (Option β)} (hanswer : pool.outcome = some (.ok results)) :
    ∃ output : Fin size → β, results = (List.ofFn output).map some ∧
      ∀ item, work item = .ok (output item) := by
  obtain ⟨hrejected, hidle, rfl⟩ := outcome_eq_ok.mp hanswer
  choose output hresult hwork using h.complete hcount hidle hrejected
  refine ⟨output, ?_, hwork⟩
  rw [List.map_ofFn]
  exact congrArg List.ofFn (funext hresult)

/-- What a pool answers it answers for good. -/
theorem settle_outcome {answer : Except ε (List (Option β))}
    (hstep : pool.settle work worker = some pool') (hanswer : pool.outcome = some answer) :
    pool'.outcome = some answer := by
  obtain ⟨item, hitem, hsettled⟩ := settle_eq_some.mp hstep
  cases answer with
  | ok results =>
    obtain ⟨-, hidle, -⟩ := outcome_eq_ok.mp hanswer
    have hheld := List.countP_eq_zero.mp hidle _ (List.mem_of_getElem? hitem)
    exact absurd rfl hheld
  | error error =>
    have hrejected := outcome_eq_error.mp hanswer
    rw [outcome_eq_error]
    cases hsettled with
    | done hwork => exact hrejected
    | failed hwork =>
      rw [hrejected]
      rfl

/-- An answer stays along a run. -/
theorem run_outcome {events : List ℕ} {answer : Except ε (List (Option β))}
    (hrun : run (settle work) pool events = some pool') (hanswer : pool.outcome = some answer) :
    pool'.outcome = some answer := by
  have hstep : ∀ {s : WorkerPool size β ε} {e s'}, s.outcome = some answer →
      settle work s e = some s' → s'.outcome = some answer :=
    fun hs hs' => settle_outcome hs' hs
  exact run_invariant hstep hanswer hrun

/-- Every run can go on to an answer, in as many steps as items are in flight or left. -/
theorem exists_answer {left : ℕ} (h : pool.Sound count work)
    (hleft : size + pool.inFlight = pool.nextIndex + left) :
    ∃ later pool' answer, later.length ≤ left ∧ run (settle work) pool later = some pool' ∧
      pool'.outcome = some answer := by
  induction left generalizing pool with
  | zero =>
    have hnext := h.next
    cases hanswer : pool.outcome with
    | none =>
      have hbusy := inFlight_of_outcome_eq_none hanswer
      omega
    | some answer => exact ⟨[], pool, answer, Nat.le_refl 0, rfl, hanswer⟩
  | succ left ih =>
    cases hanswer : pool.outcome with
    | some answer => exact ⟨[], pool, answer, Nat.zero_le _, rfl, hanswer⟩
    | none =>
      obtain ⟨worker, mid, hmid⟩ :=
        exists_settle_of_inFlight work (inFlight_of_outcome_eq_none hanswer)
      have htaken := settle_taken hmid
      obtain ⟨later, pool', answer, hlength, hrun, hlast⟩ := ih (h.settle hmid) (by omega)
      refine ⟨worker :: later, pool', answer, Nat.succ_le_succ hlength, ?_, hlast⟩
      exact run_cons_eq_some.mpr ⟨mid, hmid, hrun⟩

end WorkerPool

end LoopProof
