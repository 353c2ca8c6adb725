import LoopProof.Correctness.Canary
import LoopProof.Proving.Batch

/-!
# Requests of the batch runner

The batch runner keeps no marker: the checkpoint is saved after the request was created. A
prover that ends in between leaves a request no later run can find, and two provers that look
for the checkpoint of one seller at the same time both create a request. Runs without such
steps create one request for a seller.
-/

namespace LoopProof.Proving

variable {lib : ProvingLib} {jobs : Address → SellerReport} {s s' : BatchState}
  {id : ℕ × Address} {worker : Worker} {seller : Address}

/-! ## The invariant -/

/-- What holds of the output and the provers of one seller. -/
structure SellerInv (lib : ProvingLib) (s : BatchState) (seller : Address) : Prop where
  output : OneRequest lib (s.outputs seller)
  worksOn : ∀ run state, s.prover (run, seller) = some state → WorksOn (s.outputs seller) state
  absent : ∀ run, s.prover (run, seller) = some .absent → (s.outputs seller).requests = []
  unique : ∀ run run', s.Unsaved (run, seller) → s.Unsaved (run', seller) → run = run'
  saved : (∀ run, ¬ s.Unsaved (run, seller)) →
    (s.outputs seller).requests = [] ∨ (s.outputs seller).checkpoint ≠ none
  staged : ∀ run request, s.prover (run, seller) = some (.staged request) →
    (s.outputs seller).checkpointTemp ≠ none

/-- The invariant holds for every seller. -/
def BatchInv (lib : ProvingLib) (s : BatchState) : Prop := ∀ seller, SellerInv lib s seller

/-- The invariant holds before the first run. -/
theorem batchInv_initial : BatchInv lib BatchState.initial := by
  intro seller
  refine ⟨⟨nofun, nofun, nofun, nofun, Nat.zero_le 1⟩, nofun, nofun, ?_, fun _ => .inl rfl, nofun⟩
  intro run run' h
  obtain ⟨_, hprover, _⟩ := h
  cases hprover

/-! ## One step -/

/-- The invariant of a seller reads only its output and its provers. -/
theorem SellerInv.congr (h : SellerInv lib s seller) (hout : s'.outputs seller = s.outputs seller)
    (hprovers : ∀ run, s'.prover (run, seller) = s.prover (run, seller)) :
    SellerInv lib s' seller := by
  have hunsaved : ∀ run, s'.Unsaved (run, seller) ↔ s.Unsaved (run, seller) := by
    intro run
    rw [BatchState.Unsaved, hprovers]
    rfl
  refine ⟨?_, ?_, ?_, ?_, ?_, ?_⟩
  · rw [hout]
    exact h.output
  · intro run state hprover
    rw [hout]
    exact h.worksOn run state (hprovers run ▸ hprover)
  · intro run hprover
    rw [hout]
    exact h.absent run (hprovers run ▸ hprover)
  · intro run run' hrun hrun'
    exact h.unique run run' ((hunsaved run).mp hrun) ((hunsaved run').mp hrun')
  · intro hnone
    rw [hout]
    exact h.saved fun run hrun => hnone run ((hunsaved run).mpr hrun)
  · intro run request hprover
    rw [hout]
    exact h.staged run request (hprovers run ▸ hprover)

/-- One prover of the seller moves, and the others stay as they are. -/
structure OneMoves (s s' : BatchState) (id : ℕ × Address) (state' : ProverState) : Prop where
  moved : s'.prover id = some state'
  others : ∀ run, run ≠ id.1 → s'.prover (run, id.2) = s.prover (run, id.2)

/-- A prover that has just started knows nothing yet. -/
theorem SellerInv.begin (h : SellerInv lib s id.2) (hfree : s.prover id = none)
    (hout : s'.outputs id.2 = s.outputs id.2) (hmoves : OneMoves s s' id .ready) :
    SellerInv lib s' id.2 := by
  obtain ⟨run₀, seller⟩ := id
  have hprover : ∀ run state, s'.prover (run, seller) = some state →
      state = .ready ∨ s.prover (run, seller) = some state := by
    intro run state hstate
    by_cases hrun : run = run₀
    · rw [hrun, hmoves.moved] at hstate
      exact .inl (Option.some.inj hstate).symm
    · rw [hmoves.others run hrun] at hstate
      exact .inr hstate
  have hunsaved : ∀ run, s'.Unsaved (run, seller) ↔ s.Unsaved (run, seller) := by
    intro run
    by_cases hrun : run = run₀
    · simp [BatchState.Unsaved, hrun, hmoves.moved, hfree, ProverState.unsaved]
    · rw [BatchState.Unsaved, hmoves.others run hrun]
      rfl
  change SellerInv lib s seller at h
  refine ⟨?_, ?_, ?_, ?_, ?_, ?_⟩
  · rw [hout]
    exact h.output
  · intro run state hstate
    rw [hout]
    rcases hprover run state hstate with rfl | hstate
    · intro request hrequest
      cases hrequest
    · exact h.worksOn run state hstate
  · intro run hstate
    rw [hout]
    rcases hprover run _ hstate with heq | hstate
    · cases heq
    · exact h.absent run hstate
  · intro run run' hrun hrun'
    exact h.unique run run' ((hunsaved run).mp hrun) ((hunsaved run').mp hrun')
  · intro hnone
    rw [hout]
    exact h.saved fun run hrun => hnone run ((hunsaved run).mpr hrun)
  · intro run request hstate
    rw [hout]
    rcases hprover run _ hstate with heq | hstate
    · cases heq
    · exact h.staged run request hstate

/-- A saving step of a prover keeps the invariant of its seller. -/
theorem SellerInv.prove (h : SellerInv lib s id.2) {report : SellerReport} {out : Output}
    {state state' : ProverState} {event : ProverEvent} (hprover : s.prover id = some state)
    (hstep : proverStep lib report (s.outputs id.2) state event = some (out, state'))
    (hsaving : Saving s (.prove id event)) (hout : s'.outputs id.2 = out)
    (hone : OneMoves s s' id state') : SellerInv lib s' id.2 := by
  obtain ⟨run₀, seller⟩ := id
  change SellerInv lib s seller at h
  change proverStep lib report (s.outputs seller) state event = some (out, state') at hstep
  have hmoves := proverStep_moves h.output (h.worksOn run₀ state hprover)
    (fun heq => h.absent run₀ (heq ▸ hprover)) hstep
  have hsaves := proverStep_saves (hsaving.2 state hprover)
    (fun request heq => h.staged run₀ request (heq ▸ hprover)) hstep
  -- while the moving prover is unsaved it is the only one
  have halone : state.unsaved = true → ∀ run, run ≠ run₀ → ¬ s.Unsaved (run, seller) := by
    intro hstate run hrun hother
    exact hrun (h.unique run run₀ hother ⟨state, hprover, hstate⟩)
  have hothers : ∀ run, run ≠ run₀ → (s'.Unsaved (run, seller) ↔ s.Unsaved (run, seller)) := by
    intro run hrun
    rw [BatchState.Unsaved, hone.others run hrun]
    rfl
  have hself : s'.Unsaved (run₀, seller) ↔ state'.unsaved = true := by
    simp [BatchState.Unsaved, hone.moved]
  change s'.outputs seller = out at hout
  refine ⟨?_, ?_, ?_, ?_, ?_, ?_⟩
  · rw [hout]
    exact hmoves.output
  · intro run other hother
    rw [hout]
    by_cases hrun : run = run₀
    · rw [hrun, hone.moved] at hother
      cases hother
      exact hmoves.worksOn
    · rw [hone.others run hrun] at hother
      intro request hrequest
      exact hmoves.keeps (h.worksOn run other hother request hrequest)
  · intro run hrunAbsent
    rw [hout]
    by_cases hrun : run = run₀
    · -- the prover has just looked for the checkpoint
      rw [hrun, hone.moved] at hrunAbsent
      obtain ⟨rfl, rfl, hcheckpoint⟩ := hmoves.absent (Option.some.inj hrunAbsent)
      have htest : event = .testCheckpoint := by
        rcases hsaves.unsaved (Option.some.inj hrunAbsent ▸ rfl) with hwas | ⟨htest, _⟩
        · cases hwas
        · exact htest
      rcases h.saved (hsaving.1 htest) with hnone | hsome
      · exact hnone
      · exact absurd hcheckpoint hsome
    · rw [hone.others run hrun] at hrunAbsent
      rcases hmoves.requests with heq | ⟨hstate, _⟩
      · rw [heq]
        exact h.absent run hrunAbsent
      · exact absurd ⟨.absent, hrunAbsent, rfl⟩ (halone (hstate ▸ rfl) run hrun)
  · -- a prover becomes unsaved only while no other is
    have hfirst : state'.unsaved = true → ∀ run, run ≠ run₀ → ¬ s.Unsaved (run, seller) := by
      intro hstate run hrun
      rcases hsaves.unsaved hstate with hwas | ⟨htest, _⟩
      · exact halone hwas run hrun
      · exact hsaving.1 htest run
    intro run run' hfst hsnd
    by_cases hrun : run = run₀
    · by_cases hrun' : run' = run₀
      · rw [hrun, hrun']
      · rw [hrun, hself] at hfst
        exact absurd ((hothers run' hrun').mp hsnd) (hfirst hfst run' hrun')
    · by_cases hrun' : run' = run₀
      · rw [hrun', hself] at hsnd
        exact absurd ((hothers run hrun).mp hfst) (hfirst hsnd run hrun)
      · exact h.unique run run' ((hothers run hrun).mp hfst) ((hothers run' hrun').mp hsnd)
  · intro hnone
    rw [hout]
    have hsaved : state'.unsaved = false := by
      cases hstate : state'.unsaved with
      | false => rfl
      | true => exact absurd (hself.mpr hstate) (hnone run₀)
    cases hwas : state.unsaved with
    | true =>
      rcases hsaves.saved hwas hsaved with hpublished | ⟨rfl, heq⟩
      · exact .inr hpublished
      · rw [heq]
        exact .inl (h.absent run₀ hprover)
    | false =>
      have hbefore : ∀ run, ¬ s.Unsaved (run, seller) := by
        intro run hunsaved
        by_cases hrun : run = run₀
        · obtain ⟨before, hbefore, hstate⟩ := hunsaved
          rw [hrun, hprover] at hbefore
          rw [← Option.some.inj hbefore, hwas] at hstate
          cases hstate
        · exact hnone run ((hothers run hrun).mpr hunsaved)
      rcases h.saved hbefore with hempty | hsome
      · rcases hmoves.requests with heq | ⟨rfl, _⟩
        · exact .inl (heq.trans hempty)
        · cases hwas
      · exact .inr (hmoves.checkpoint hsome)
  · intro run request hstaged
    rw [hout]
    by_cases hrun : run = run₀
    · rw [hrun, hone.moved] at hstaged
      exact hsaves.staged request (Option.some.inj hstaged)
    · rw [hone.others run hrun] at hstaged
      have hwas : state.unsaved = false := by
        cases hstate : state.unsaved with
        | false => rfl
        | true => exact absurd ⟨.staged request, hstaged, rfl⟩ (halone hstate run hrun)
      rw [hsaves.temp hwas]
      exact h.staged run request hstaged

/-- A worker that is replaced keeps the provers of all others. -/
theorem BatchState.prover_put (s : BatchState) (id : ℕ × Address) (worker : Worker)
    (other : ℕ × Address) :
    (s.put id worker).prover other = if other = id then worker.prover else s.prover other := by
  unfold BatchState.prover BatchState.put
  by_cases hother : other = id
  · simp [hother]
  · simp [hother]

/-- Changing a worker changes no output. -/
@[simp] theorem BatchState.outputs_put (s : BatchState) (id : ℕ × Address) (worker : Worker) :
    (s.put id worker).outputs = s.outputs :=
  rfl

/-- Replacing a worker by one with the same prover changes no seller. -/
theorem BatchInv.put (h : BatchInv lib s) (hprover : worker.prover = s.prover id) :
    BatchInv lib (s.put id worker) := by
  intro seller
  refine (h seller).congr rfl fun run => ?_
  rw [BatchState.prover_put]
  by_cases hrun : (run, seller) = id
  · rw [if_pos hrun, hprover, hrun]
  · rw [if_neg hrun]

/-- Every saving step keeps the invariant. -/
theorem batchStep_inv {event : BatchEvent} (h : BatchInv lib s) (hsaving : Saving s event)
    (hstep : batchStep lib jobs s event = some s') : BatchInv lib s' := by
  cases event with
  | begin id =>
    simp only [batchStep] at hstep
    split at hstep
    · cases hstep
    · rename_i hworker
      have hfree : s.prover id = none := by
        rw [BatchState.prover, hworker, Option.bind_none]
      split at hstep
      · cases hstep
        exact h.put hfree.symm
      · cases hstep
        intro seller
        by_cases hseller : seller = id.2
        · rw [hseller]
          refine (h id.2).begin hfree rfl ⟨?_, fun run hrun => ?_⟩
          · rw [BatchState.prover_put, if_pos rfl]
          · rw [BatchState.prover_put, if_neg fun heq => hrun (congrArg Prod.fst heq)]
        · refine (h seller).congr rfl fun run => ?_
          rw [BatchState.prover_put, if_neg fun heq => hseller (congrArg Prod.snd heq)]
  | prove id event =>
    simp only [batchStep, Option.bind_eq_some_iff, Option.map_eq_some_iff] at hstep
    obtain ⟨worker, hworker, state, hstate, next, hnext, rfl⟩ := hstep
    have hprover : s.prover id = some state := by
      rw [BatchState.prover, hworker, Option.bind_some, hstate]
    intro seller
    by_cases hseller : seller = id.2
    · rw [hseller]
      refine (h id.2).prove hprover hnext hsaving ?_ ⟨?_, fun run hrun => ?_⟩
      · exact Function.update_self ..
      · rw [BatchState.prover_put, if_pos rfl]
      · rw [BatchState.prover_put, if_neg fun heq => hrun (congrArg Prod.fst heq)]
        rfl
    · refine (h seller).congr ?_ fun run => ?_
      · exact Function.update_of_ne hseller ..
      · rw [BatchState.prover_put, if_neg fun heq => hseller (congrArg Prod.snd heq)]
        rfl
  | collect id =>
    simp only [batchStep, Option.bind_eq_some_iff] at hstep
    obtain ⟨worker, hworker, hstep⟩ := hstep
    have hprover : worker.prover = s.prover id := by
      rw [BatchState.prover, hworker, Option.bind_some]
    split at hstep
    · cases hstep
      exact h.put hprover
    · cases hstep
      exact h.put hprover
    · cases hstep
  | crash id =>
    simp only [batchStep, Option.bind_eq_some_iff] at hstep
    obtain ⟨worker, hworker, hstep⟩ := hstep
    split at hstep
    · cases hstep
      refine h.put ?_
      rw [BatchState.prover, hworker, Option.bind_some]
    · cases hstep

/-! ## Resuming -/

/-- The checkpoints of every seller are those of its own execution. -/
def OwnBatch (lib : ProvingLib) (jobs : Address → SellerReport) (s : BatchState) : Prop :=
  ∀ seller, OwnCheckpoints lib (jobs seller) (s.outputs seller)

/-- Nothing is under way before the first run. -/
theorem ownBatch_initial : OwnBatch lib jobs BatchState.initial := fun _ => ⟨nofun, nofun⟩

/-- Every step keeps the checkpoints with their sellers. -/
theorem batchStep_own {event : BatchEvent} (h : OwnBatch lib jobs s)
    (hstep : batchStep lib jobs s event = some s') : OwnBatch lib jobs s' := by
  cases event with
  | begin id =>
    simp only [batchStep] at hstep
    split at hstep
    · cases hstep
    · split at hstep <;> cases hstep <;> exact h
  | prove id event =>
    simp only [batchStep, Option.bind_eq_some_iff, Option.map_eq_some_iff] at hstep
    obtain ⟨worker, _, state, _, next, hnext, rfl⟩ := hstep
    intro seller
    by_cases hseller : seller = id.2
    · rw [hseller]
      simp only [BatchState.outputs_put, Function.update_self]
      exact proverStep_ownCheckpoints (h id.2) hnext
    · simp only [BatchState.outputs_put, Function.update_of_ne hseller]
      exact h seller
  | collect id =>
    simp only [batchStep, Option.bind_eq_some_iff] at hstep
    obtain ⟨worker, _, hstep⟩ := hstep
    split at hstep
    · cases hstep
      exact h
    · cases hstep
      exact h
    · cases hstep
  | crash id =>
    simp only [batchStep, Option.bind_eq_some_iff] at hstep
    obtain ⟨worker, _, hstep⟩ := hstep
    split at hstep
    · cases hstep
      exact h
    · cases hstep

/-- The prover of a run that has just started goes on with the request. -/
def Resumes (lib : ProvingLib) (jobs : Address → SellerReport) (s : BatchState)
    (id : ℕ × Address) (request : B256) : Prop :=
  ∃ s', batchStep lib jobs s (.prove id .testCheckpoint) = some s' ∧
    s'.prover id = some (.waiting request) ∧ s'.outputs = s.outputs

/-- Where a request exists and no prover of its seller is unsaved, a prover that looks for the
checkpoint goes on with that request. -/
theorem resumes_of_request (h : BatchInv lib s) (hown : OwnBatch lib jobs s) {request : B256}
    (hrequest : (s.outputs id.2).requests = [request])
    (hsaved : ∀ run, ¬ s.Unsaved (run, id.2)) (hready : s.prover id = some .ready) :
    Resumes lib jobs s id request := by
  have hcheckpoint : (s.outputs id.2).checkpoint ≠ none := by
    rcases (h id.2).saved hsaved with hnone | hsome
    · rw [hrequest] at hnone
      cases hnone
    · exact hsome
  obtain ⟨checkpoint, hcheckpoint⟩ := Option.ne_none_iff_exists'.mp hcheckpoint
  have hid : request = checkpoint.requestId := by
    have hnamed := (h id.2).output.checkpoint checkpoint hcheckpoint
    rw [hrequest] at hnamed
    exact (List.cons.inj hnamed).1
  obtain ⟨worker, hworker, hstate⟩ := Option.bind_eq_some_iff.mp hready
  refine ⟨{ s with outputs := Function.update s.outputs id.2 (s.outputs id.2) }.put id
    { worker with prover := some (.waiting request) }, ?_, ?_, ?_⟩
  · simp only [batchStep, hworker, Option.bind_some, hstate,
      proverStep_resumes (hown id.2) hcheckpoint, Option.map_some, hid]
  · rw [BatchState.prover_put, if_pos rfl]
  · rw [BatchState.outputs_put]
    exact Function.update_eq_self id.2 s.outputs

/-- A run that starts its prover in this state goes on with the request. -/
def NextRunResumes (lib : ProvingLib) (jobs : Address → SellerReport) (s : BatchState)
    (id : ℕ × Address) (request : B256) : Prop :=
  ∃ s', run (batchStep lib jobs) s [.begin id, .prove id .testCheckpoint] = some s' ∧
    s'.prover id = some (.waiting request) ∧ s'.outputs = s.outputs

/-- As long as the artifact is not written, the next run of a seller with a request goes on with
that request. -/
theorem nextRun_resumes (h : BatchInv lib s) (hown : OwnBatch lib jobs s) {request : B256}
    (hrequest : (s.outputs id.2).requests = [request])
    (hsaved : ∀ run, ¬ s.Unsaved (run, id.2)) (hworker : s.workers id = none)
    (hartifact : (s.outputs id.2).artifact = none) : NextRunResumes lib jobs s id request := by
  have hbegin : batchStep lib jobs s (.begin id) = some (s.put id ⟨.proving, some .ready⟩) := by
    simp only [batchStep, hworker, hartifact]
  have hready : (s.put id ⟨.proving, some .ready⟩).prover id = some .ready := by
    rw [BatchState.prover_put, if_pos rfl]
  have hunsaved : ∀ run, ¬ (s.put id ⟨.proving, some .ready⟩).Unsaved (run, id.2) := by
    rintro run ⟨state, hstate, hunsaved⟩
    rw [BatchState.prover_put] at hstate
    split at hstate
    · cases hstate
      cases hunsaved
    · exact hsaved run ⟨state, hstate, hunsaved⟩
  have hsaving : Saving s (.begin id) := trivial
  obtain ⟨s', hstep, hprover, hout⟩ := resumes_of_request (batchStep_inv h hsaving hbegin)
    (batchStep_own hown hbegin) hrequest hunsaved hready
  refine ⟨s', ?_, hprover, hout⟩
  exact run_cons_eq_some.mpr ⟨_, hbegin, run_cons_eq_some.mpr ⟨s', hstep, rfl⟩⟩

/-! ## Runs -/

/-- In a run of the batch runners whose steps lose no created request and share no seller, every
seller has at most one request, and every prover that knows a request works on that one. Once there
is a request, every prover that looks for the checkpoint goes on with it, and so does the next run
as long as the artifact is not written. -/
theorem batch_one_request (lib : ProvingLib) (jobs : Address → SellerReport)
    {events : List BatchEvent} {s : BatchState}
    (hsaving : RunMeets (batchStep lib jobs) Saving BatchState.initial events)
    (hrun : run (batchStep lib jobs) BatchState.initial events = some s) (seller : Address) :
    (s.outputs seller).requests.length ≤ 1 ∧
      (∀ run state request, s.prover (run, seller) = some state →
        state.requestId? = some request → (s.outputs seller).requests = [request]) ∧
      ∀ run request, request ∈ (s.outputs seller).requests →
        Saving s (.prove (run, seller) .testCheckpoint) →
          (s.prover (run, seller) = some .ready → Resumes lib jobs s (run, seller) request) ∧
          (s.workers (run, seller) = none → (s.outputs seller).artifact = none →
            NextRunResumes lib jobs s (run, seller) request) := by
  have hinv := run_invariant_of_meets batchStep_inv batchInv_initial hsaving hrun
  have hown : OwnBatch lib jobs s := run_invariant batchStep_own ownBatch_initial hrun
  have hcount := (hinv seller).output.count
  refine ⟨hcount, ?_, ?_⟩
  · intro run state request hprover hrequest
    exact (hinv seller).worksOn run state hprover request hrequest
  · intro run request hrequest hlook
    have honly : (s.outputs seller).requests = [request] := by
      obtain ⟨only, hlist⟩ := List.length_eq_one_iff.mp
        (Nat.le_antisymm hcount (List.length_pos_of_mem hrequest))
      rw [hlist] at hrequest ⊢
      rw [List.mem_singleton.mp hrequest]
    exact ⟨resumes_of_request hinv hown honly (hlook.1 rfl),
      nextRun_resumes hinv hown honly (hlook.1 rfl)⟩

/-- Every seller has the same report. -/
def sampleJobs : Address → SellerReport := fun _ => sampleReport

/-- The first prover saves its request and is killed, and its run dies. -/
def savedRun : List BatchEvent :=
  [.begin (0, 11), .prove (0, 11) .testCheckpoint, .prove (0, 11) (.request 77),
    .prove (0, 11) .stageCheckpoint, .prove (0, 11) .publishCheckpoint, .prove (0, 11) .abort,
    .crash (0, 11)]

/-- The steps of the saved run lose no request. -/
theorem savedRun_saving :
    RunMeets (batchStep sampleProvingLib sampleJobs) Saving BatchState.initial savedRun := by
  refine .cons rfl trivial (.cons rfl ⟨fun _ => ?_, fun _ _ => trivial⟩ ?_)
  · intro run hunsaved
    obtain ⟨state, hstate, hunsaved⟩ := hunsaved
    by_cases hrun : run = 0
    · rw [hrun] at hstate
      cases hstate
      cases hunsaved
    · rw [BatchState.prover_put, if_neg fun heq => hrun (congrArg Prod.fst heq)] at hstate
      cases hstate
  refine .cons rfl ⟨nofun, fun _ _ => trivial⟩ (.cons rfl ⟨nofun, fun _ _ => trivial⟩
    (.cons rfl ⟨nofun, fun _ _ => trivial⟩ (.cons rfl ⟨nofun, ?_⟩ (.cons rfl trivial trivial))))
  intro state hstate
  cases hstate
  exact fun _ => ⟨nofun, nofun⟩

/-- The second run goes on with the request of the first. -/
theorem savedRun_resumes : ∃ s,
    run (batchStep sampleProvingLib sampleJobs) BatchState.initial savedRun = some s ∧
      (s.outputs 11).requests.length ≤ 1 ∧
      NextRunResumes sampleProvingLib sampleJobs s (1, 11) 77 := by
  obtain ⟨s, hrun⟩ : ∃ s, run (batchStep sampleProvingLib sampleJobs) BatchState.initial
      savedRun = some s := ⟨_, rfl⟩
  have hreached := hrun
  cases hreached
  obtain ⟨hcount, -, hresumes⟩ :=
    batch_one_request sampleProvingLib sampleJobs savedRun_saving hrun 11
  refine ⟨_, hrun, hcount, (hresumes 1 77 (List.mem_singleton_self _)
    ⟨fun _ run hunsaved => ?_, fun _ _ => trivial⟩).2 rfl rfl⟩
  obtain ⟨state, hstate, hunsaved⟩ := hunsaved
  by_cases hfirst : run = 0
  · rw [hfirst] at hstate
    cases hstate
    cases hunsaved
  · simp [BatchState.prover, BatchState.put, BatchState.initial, Function.update, hfirst] at hstate

/-- The first prover is killed after the network accepted its request. -/
def lostRun : List BatchEvent :=
  [.begin (0, 11), .prove (0, 11) .testCheckpoint, .prove (0, 11) (.request 77),
    .prove (0, 11) .abort, .crash (0, 11), .begin (1, 11), .prove (1, 11) .testCheckpoint,
    .prove (1, 11) (.request 78)]

/-- The next run requests a second proof. -/
theorem lostRun_requests_twice : ¬ ∀ events s,
    run (batchStep sampleProvingLib sampleJobs) BatchState.initial events = some s →
      ∀ seller, (s.outputs seller).requests.length ≤ 1 := by
  intro hall
  obtain ⟨s, hrun⟩ : ∃ s, run (batchStep sampleProvingLib sampleJobs) BatchState.initial
      lostRun = some s := ⟨_, rfl⟩
  have hrequests : (run (batchStep sampleProvingLib sampleJobs) BatchState.initial
      lostRun).map (fun s => (s.outputs 11).requests) = some [77, 78] := by
    decide +kernel
  rw [hrun, Option.map_some, Option.some.injEq] at hrequests
  have hcount := hall lostRun s hrun 11
  rw [hrequests] at hcount
  exact absurd hcount (by decide)

end LoopProof.Proving
