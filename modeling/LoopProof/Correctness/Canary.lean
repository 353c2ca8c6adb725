import LoopProof.Proving.Canary

/-!
# One request for one canary

A request is created only by the prover of an invocation that found no checkpoint and created
the launch marker. The marker is never removed, so there is one such invocation, and everything
that is later saved, resumed or returned belongs to its request.
-/

namespace LoopProof.Proving

variable {lib : ProvingLib} {s s' : CanaryState} {process : ℕ} {invocation : Invocation}

/-! ## The invariant -/

/-- An invocation that created the marker and may spawn, or has spawned, its prover. -/
def Invocation.Fresh (invocation : Invocation) : Prop :=
  invocation.resuming = false ∧ (invocation.stage = .launched ∨ invocation.prover ≠ none)

/-- A fresh invocation whose prover has not created its request yet. -/
def Invocation.Unspent (invocation : Invocation) : Prop :=
  invocation.Fresh ∧ (invocation.prover = none ∨ invocation.prover = some .ready ∨
    invocation.prover = some .absent)

/-- A stage before the prover is spawned. -/
def Stage.early : Stage → Bool
  | .opened | .locked | .unmarked | .launched => true
  | _ => false

/-- The outcome an invocation holds or has returned. -/
def Stage.outcome : Stage → Option CanaryResult
  | .unlocking outcome => outcome
  | .returned result => some result
  | _ => none

/-- A result is the proof of the only request of the directory. -/
def ResultOf (lib : ProvingLib) (out : Output) (result : CanaryResult) : Prop :=
  out.requests = [result.requestId] ∧ result.artifact.requestId = some result.requestId ∧
    result.artifact.proofBytes = lib.proofOf result.requestId

/-- What holds of one invocation, given the directory. -/
structure InvocationOk (lib : ProvingLib) (s : CanaryState) (invocation : Invocation) : Prop where
  resumes : invocation.resuming = true → s.output.checkpoint ≠ none
  marked : invocation.Fresh → s.marker ≠ none
  unspent : invocation.Unspent → s.output.requests = []
  worksOn : ∀ state, invocation.prover = some state → WorksOn s.output state
  absent : invocation.prover = some .absent → invocation.resuming = false
  spawned : invocation.stage.early = true → invocation.prover = none
  outcome : ∀ result, invocation.stage.outcome = some result → ResultOf lib s.output result

/-- The directory holds at most one request, created by the only fresh invocation. -/
structure CanaryInv (lib : ProvingLib) (s : CanaryState) : Prop where
  output : OneRequest lib s.output
  unmarked : s.marker = none → s.output.requests = []
  unique : ∀ i j a b, s.invocations i = some a → s.invocations j = some b → a.Fresh → b.Fresh →
    i = j
  invocations : ∀ i a, s.invocations i = some a → InvocationOk lib s a

theorem canaryInv_initial : CanaryInv lib CanaryState.initial := by
  refine ⟨⟨nofun, nofun, nofun, nofun, Nat.zero_le 1⟩, fun _ => rfl, ?_, ?_⟩
  · intro i j a b ha
    cases ha
  · intro i a ha
    cases ha

/-! ## One step -/

/-- Replacing one invocation keeps the invariant when the replacement is acceptable and fresh
only if the original was. -/
theorem CanaryInv.put (h : CanaryInv lib s) {next : Invocation}
    (hfresh : next.Fresh → ∃ a, s.invocations process = some a ∧ a.Fresh)
    (hok : InvocationOk lib s next) : CanaryInv lib (s.put process next) := by
  refine ⟨h.output, h.unmarked, ?_, ?_⟩
  · intro i j a b ha hb hfa hfb
    rcases update_eq_some ha with ⟨hi, ha'⟩ | ⟨_, ha'⟩
    · rcases update_eq_some hb with ⟨hj, _⟩ | ⟨_, hb'⟩
      · rw [hi, hj]
      · obtain ⟨_, hstored, hwas⟩ := hfresh (ha' ▸ hfa)
        rw [hi]
        exact h.unique _ _ _ _ hstored hb' hwas hfb
    · rcases update_eq_some hb with ⟨hj, hb'⟩ | ⟨_, hb'⟩
      · obtain ⟨_, hstored, hwas⟩ := hfresh (hb' ▸ hfb)
        rw [hj]
        exact h.unique _ _ _ _ ha' hstored hfa hwas
      · exact h.unique _ _ _ _ ha' hb' hfa hfb
  · intro i a ha
    rcases update_eq_some ha with ⟨_, rfl⟩ | ⟨_, ha'⟩
    · exact ⟨hok.resumes, hok.marked, hok.unspent, hok.worksOn, hok.absent, hok.spawned,
        hok.outcome⟩
    · have hother := h.invocations i a ha'
      exact ⟨hother.resumes, hother.marked, hother.unspent, hother.worksOn, hother.absent,
        hother.spawned, hother.outcome⟩

/-- The lock carries no part of the invariant. -/
theorem CanaryInv.withLock (h : CanaryInv lib s) (lock : Option ℕ) :
    CanaryInv lib { s with lock := lock } := by
  refine ⟨h.output, h.unmarked, h.unique, ?_⟩
  intro i a ha
  have hok := h.invocations i a ha
  exact ⟨hok.resumes, hok.marked, hok.unspent, hok.worksOn, hok.absent, hok.spawned, hok.outcome⟩

/-- Moving to a stage that launches no fresh prover makes no invocation fresh. -/
theorem Invocation.Fresh.of_stage {stage : Stage}
    (hstage : stage = .launched → invocation.resuming = true)
    (h : ({ invocation with stage := stage } : Invocation).Fresh) : invocation.Fresh := by
  obtain ⟨hfresh, hlaunched | hprover⟩ := h
  · have hresuming := hstage hlaunched
    rw [hfresh] at hresuming
    cases hresuming
  · exact ⟨hfresh, .inr hprover⟩

/-- Moving to such a stage, with an outcome only where it is the proof of the request. -/
theorem CanaryInv.withStage (h : CanaryInv lib s)
    (hstored : s.invocations process = some invocation) {stage : Stage}
    (hlaunched : stage = .launched → invocation.resuming = true)
    (hearly : stage.early = true → invocation.stage.early = true)
    (houtcome : ∀ result, stage.outcome = some result → ResultOf lib s.output result) :
    CanaryInv lib (s.put process { invocation with stage := stage }) := by
  have hok := h.invocations process invocation hstored
  have hfresh := fun hnext => Invocation.Fresh.of_stage hlaunched hnext
  refine h.put (fun hnext => ⟨invocation, hstored, hfresh hnext⟩) ⟨hok.resumes,
    fun hnext => hok.marked (hfresh hnext), ?_, hok.worksOn, hok.absent,
    fun heq => hok.spawned (hearly heq), houtcome⟩
  intro hnext
  exact hok.unspent ⟨hfresh hnext.1, hnext.2⟩

/-- The first marker makes its invocation fresh: no other one is, and nothing was requested. -/
theorem CanaryInv.mark (h : CanaryInv lib s) (hstored : s.invocations process = some invocation)
    (hstage : invocation.stage = .unmarked) (hmarker : s.marker = none) (digest : B256) :
    CanaryInv lib ({ s with marker := some digest }.put process
      { invocation with stage := .launched }) := by
  have hok := h.invocations process invocation hstored
  have hrequests := h.unmarked hmarker
  have hstale : ∀ i a, s.invocations i = some a → ¬ a.Fresh := by
    intro i a ha hfresh
    exact (h.invocations i a ha).marked hfresh hmarker
  have hprover : invocation.prover = none := hok.spawned (by rw [hstage]; rfl)
  refine ⟨h.output, nofun, ?_, ?_⟩
  · intro i j a b ha hb hfa hfb
    rcases update_eq_some ha with ⟨hi, _⟩ | ⟨_, ha'⟩
    · rcases update_eq_some hb with ⟨hj, _⟩ | ⟨_, hb'⟩
      · rw [hi, hj]
      · exact absurd hfb (hstale j b hb')
    · exact absurd hfa (hstale i a ha')
  · intro i a ha
    rcases update_eq_some ha with ⟨_, rfl⟩ | ⟨_, ha'⟩
    · exact ⟨hok.resumes, nofun, fun _ => hrequests, hok.worksOn, hok.absent, fun _ => hprover,
        nofun⟩
    · have hother := h.invocations i a ha'
      exact ⟨hother.resumes, nofun, hother.unspent, hother.worksOn, hother.absent, hother.spawned,
        hother.outcome⟩

/-- A spawned prover is ready, and nothing was requested if its invocation is fresh. -/
theorem CanaryInv.spawn (h : CanaryInv lib s) (hstored : s.invocations process = some invocation)
    (hstage : invocation.stage = .launched) :
    CanaryInv lib (s.put process
      { invocation with stage := .proving, prover := some .ready }) := by
  have hok := h.invocations process invocation hstored
  have hprover : invocation.prover = none := hok.spawned (by rw [hstage]; rfl)
  have hfresh : ({ invocation with stage := .proving, prover := some .ready } : Invocation).Fresh →
      invocation.Fresh := fun hnext => ⟨hnext.1, .inl hstage⟩
  refine h.put (fun hnext => ⟨invocation, hstored, hfresh hnext⟩) ⟨hok.resumes,
    fun hnext => hok.marked (hfresh hnext), ?_, ?_, nofun, nofun, nofun⟩
  · intro hnext
    exact hok.unspent ⟨hfresh hnext.1, .inl hprover⟩
  · intro state hstate
    cases hstate
    intro id hid
    cases hid

/-- A matching artifact is the proof of the request. -/
theorem canaryResult_of (h : OneRequest lib s.output) {quote : CanaryQuote} {result : CanaryResult}
    (hresult : s.output.artifact.bind (canaryResult quote) = some result) :
    ResultOf lib s.output result := by
  obtain ⟨artifact, hartifact, hmatch⟩ := Option.bind_eq_some_iff.mp hresult
  obtain ⟨id, hrequests, hid, hproof⟩ := h.artifact artifact hartifact
  unfold canaryResult at hmatch
  split at hmatch
  · cases hmatch
  · split at hmatch
    · cases hmatch
    · rw [hid, Option.map_some, Option.some.injEq] at hmatch
      rw [← hmatch]
      exact ⟨hrequests, hid, hproof⟩

/-- A step of the submission code keeps the invariant. -/
theorem submitStep_inv (h : CanaryInv lib s) (hstored : s.invocations process = some invocation)
    {action : SubmitAction}
    (hstep : submitStep s process invocation invocation.stage action = some s') :
    CanaryInv lib s' := by
  have hok := h.invocations process invocation hstored
  generalize hstage : invocation.stage = stage at hstep
  unfold submitStep at hstep
  split at hstep
  · cases hstep
    exact h.withStage hstored nofun nofun nofun
  · split at hstep
    · cases hstep
      exact h.withStage hstored nofun nofun nofun
    · cases hstep
      exact (h.withLock (some process)).withStage hstored nofun (fun _ => by rw [hstage]; rfl) nofun
  · have hearly : invocation.stage.early = true := by
      rw [hstage]
      rfl
    split at hstep
    · rename_i hresuming
      cases hstep
      exact h.withStage hstored (fun _ => hresuming) (fun _ => hearly) nofun
    · split at hstep
      · cases hstep
        exact h.withStage hstored nofun nofun nofun
      · cases hstep
        exact h.withStage hstored nofun (fun _ => hearly) nofun
  · split at hstep
    · cases hstep
      exact h.withStage hstored nofun nofun nofun
    · rename_i hmarker
      cases hstep
      exact h.mark hstored hstage (by simpa using hmarker) _
  · cases hstep
    exact h.spawn hstored hstage
  · split at hstep
    · cases hstep
      exact h.withStage hstored nofun nofun fun result hresult => canaryResult_of h.output hresult
    · cases hstep
      exact h.withStage hstored nofun nofun nofun
    · cases hstep
  · rename_i result
    have hresult : ∀ returned, some result = some returned → ResultOf lib s.output returned := by
      intro returned heq
      exact hok.outcome returned (by rw [hstage]; exact heq)
    split at hstep
    · cases hstep
      exact (h.withLock none).withStage hstored nofun nofun hresult
    · cases hstep
      exact h.withStage hstored nofun nofun nofun
  · cases hstep
    exact (h.withLock none).withStage hstored nofun nofun nofun
  · cases hstep
  · cases hstep
  · cases hstep
  · cases hstep
    exact h.withStage hstored nofun nofun nofun
  · cases hstep

/-- A prover without a checkpoint belongs to a fresh invocation, and nothing was requested. -/
theorem CanaryInv.absent (h : CanaryInv lib s) (hstored : s.invocations process = some invocation)
    (hprover : invocation.prover = some .absent) :
    invocation.Fresh ∧ s.output.requests = [] := by
  have hok := h.invocations process invocation hstored
  have hfresh : invocation.Fresh := ⟨hok.absent hprover, .inr (by rw [hprover]; nofun)⟩
  exact ⟨hfresh, hok.unspent ⟨hfresh, .inr (.inr hprover)⟩⟩

/-- A step of a prover keeps the invariant. -/
theorem CanaryInv.prove (h : CanaryInv lib s) (hstored : s.invocations process = some invocation)
    {state state' : ProverState} {out : Output} {event : ProverEvent}
    (hprover : invocation.prover = some state)
    (hstep : proverStep lib invocation.quote.report s.output state event = some (out, state')) :
    CanaryInv lib ({ s with output := out }.put process
      { invocation with prover := some state' }) := by
  have hok := h.invocations process invocation hstored
  have hmoves := proverStep_moves h.output (hok.worksOn state hprover)
    (fun heq => (h.absent hstored (heq ▸ hprover)).2) hstep
  -- a request is created by the only fresh invocation
  have hquiet : ∀ i a, s.invocations i = some a → a.Fresh → i ≠ process →
      out.requests = s.output.requests := by
    intro i a ha hfresh hne
    rcases hmoves.requests with heq | ⟨heq, _, _⟩
    · exact heq
    · have hself := (h.absent hstored (heq ▸ hprover)).1
      exact absurd (h.unique i process a invocation ha hstored hfresh hself) hne
  have hresult : ∀ result, ResultOf lib s.output result → ResultOf lib out result := by
    intro result hresult
    exact ⟨hmoves.keeps hresult.1, hresult.2⟩
  have hfresh : ({ invocation with prover := some state' } : Invocation).Fresh →
      invocation.Fresh := fun hnext => ⟨hnext.1, .inr (by rw [hprover]; nofun)⟩
  refine ⟨hmoves.output, ?_, ?_, ?_⟩
  · intro hmarker
    rcases hmoves.requests with heq | ⟨heq, _, _⟩
    · exact heq.trans (h.unmarked hmarker)
    · have hself := (h.absent hstored (heq ▸ hprover)).1
      exact absurd hmarker (hok.marked hself)
  · intro i j a b ha hb hfa hfb
    rcases update_eq_some ha with ⟨hi, ha'⟩ | ⟨_, ha'⟩
    · rcases update_eq_some hb with ⟨hj, _⟩ | ⟨_, hb'⟩
      · rw [hi, hj]
      · rw [hi]
        exact h.unique _ _ _ _ hstored hb' (hfresh (ha' ▸ hfa)) hfb
    · rcases update_eq_some hb with ⟨hj, hb'⟩ | ⟨_, hb'⟩
      · rw [hj]
        exact h.unique _ _ _ _ ha' hstored hfa (hfresh (hb' ▸ hfb))
      · exact h.unique _ _ _ _ ha' hb' hfa hfb
  · intro i a ha
    rcases update_eq_some ha with ⟨_, rfl⟩ | ⟨hne, ha'⟩
    · refine ⟨fun hresuming => hmoves.checkpoint (hok.resumes hresuming),
        fun hnext => hok.marked (hfresh hnext), ?_, ?_, ?_, ?_,
        fun result houtcome => hresult result (hok.outcome result houtcome)⟩
      · intro hnext
        rcases hnext.2 with heq | heq | heq
        · cases heq
        · exact absurd (Option.some.inj heq) hmoves.started
        · obtain ⟨hready, hsame, _⟩ := hmoves.absent (Option.some.inj heq)
          exact (congrArg Output.requests hsame).trans
            (hok.unspent ⟨hfresh hnext.1, .inr (.inl (hready ▸ hprover))⟩)
      · intro other heq
        cases heq
        exact hmoves.worksOn
      · intro heq
        obtain ⟨_, _, hnone⟩ := hmoves.absent (Option.some.inj heq)
        by_contra hresuming
        exact hok.resumes (by simpa using hresuming) hnone
      · intro hearly
        have hspawned := hok.spawned hearly
        rw [hprover] at hspawned
        cases hspawned
    · have hother := h.invocations i a ha'
      refine ⟨fun hresuming => hmoves.checkpoint (hother.resumes hresuming), hother.marked, ?_, ?_,
        hother.absent, hother.spawned,
        fun result houtcome => hresult result (hother.outcome result houtcome)⟩
      · intro hunspent
        exact (hquiet i a ha' hunspent.1 hne).trans (hother.unspent hunspent)
      · intro other heq id hid
        exact hmoves.keeps (hother.worksOn other heq id hid)

/-- Every step of every party keeps the invariant. -/
theorem canaryStep_inv {event : CanaryEvent} (h : CanaryInv lib s)
    (hstep : canaryStep lib s event = some s') : CanaryInv lib s' := by
  cases event with
  | start process quote =>
    simp only [canaryStep] at hstep
    split at hstep
    · cases hstep
    · cases hstep
      refine h.put ?_ ⟨?_, ?_, ?_, nofun, nofun, fun _ => rfl, nofun⟩
      · rintro ⟨_, hlaunched | hprover⟩
        · cases hlaunched
        · exact absurd rfl hprover
      · intro hresuming hnone
        simp only [hnone] at hresuming
        cases hresuming
      · rintro ⟨_, hlaunched | hprover⟩
        · cases hlaunched
        · exact absurd rfl hprover
      · rintro ⟨⟨_, hlaunched | hprover⟩, _⟩
        · cases hlaunched
        · exact absurd rfl hprover
  | submit process action =>
    obtain ⟨invocation, hstored, hnext⟩ := Option.bind_eq_some_iff.mp hstep
    exact submitStep_inv h hstored hnext
  | prove process event =>
    obtain ⟨invocation, hstored, hnext⟩ := Option.bind_eq_some_iff.mp hstep
    obtain ⟨state, hprover, hnext⟩ := Option.bind_eq_some_iff.mp hnext
    obtain ⟨⟨out, state'⟩, hmove, rfl⟩ := Option.map_eq_some_iff.mp hnext
    exact h.prove hstored hprover hmove
  | removeLock =>
    cases hstep
    exact h.withLock none

/-! ## Runs -/

/-- In every interleaving, with crashes and removed locks, at most one request is ever created
for a canary directory, and every submission that returns has the proof of that request. -/
theorem canary_one_request {events : List CanaryEvent}
    (hrun : run (canaryStep lib) CanaryState.initial events = some s) :
    s.output.requests.length ≤ 1 ∧
      ∀ process invocation result, s.invocations process = some invocation →
        invocation.stage = .returned result →
        s.output.requests = [result.requestId] ∧
          result.artifact.requestId = some result.requestId ∧
          result.artifact.proofBytes = lib.proofOf result.requestId := by
  have hinv : CanaryInv lib s := run_invariant canaryStep_inv canaryInv_initial hrun
  refine ⟨hinv.output.count, ?_⟩
  intro process invocation result hstored hreturned
  exact (hinv.invocations process invocation hstored).outcome result (by rw [hreturned]; rfl)

/-! ## A crash and a resumption -/

/-- Every request has the same one-byte proof, and every digest is one. -/
def sampleProvingLib : ProvingLib := ⟨fun _ => 1, fun _ => [1]⟩

/-- A report of one seller. -/
def sampleReport : SellerReport := ⟨11, 5, 100, 102, [1], 6, 100, 1000, 7⟩

/-- A quote whose report is the prepared one. -/
def sampleQuote : CanaryQuote := ⟨9, sampleReport, sampleReport⟩

/-- The first runner dies while its prover saves the request; the lock is removed, and a second
runner returns the proof of that request. -/
def resumedRun : List CanaryEvent :=
  [.start 0 sampleQuote, .submit 0 .lock, .submit 0 .testMarker, .submit 0 .mark,
    .submit 0 .spawn, .prove 0 .testCheckpoint, .prove 0 (.request 77), .submit 0 .crash,
    .prove 0 .stageCheckpoint, .removeLock, .prove 0 .publishCheckpoint, .prove 0 .abort,
    .start 1 sampleQuote, .submit 1 .lock, .submit 1 .testMarker, .submit 1 .spawn,
    .prove 1 .testCheckpoint, .prove 1 .receiveProof, .prove 1 .stageArtifact,
    .prove 1 .publishArtifact, .submit 1 .collect, .submit 1 .unlock]

/-- The second runner returns the request the first one created. -/
theorem resumedRun_returns : ∃ s invocation result,
    run (canaryStep sampleProvingLib) CanaryState.initial resumedRun = some s ∧
      s.invocations 1 = some invocation ∧ invocation.stage = .returned result ∧
      s.output.requests = [result.requestId] ∧ result.artifact.proofBytes = [1] := by
  obtain ⟨s, hrun⟩ : ∃ s, run (canaryStep sampleProvingLib) CanaryState.initial resumedRun =
      some s := ⟨_, rfl⟩
  have hstored : (run (canaryStep sampleProvingLib) CanaryState.initial resumedRun).bind
      (fun s => s.invocations 1) = some ⟨sampleQuote, true,
        .returned ⟨77, proofArtifact sampleProvingLib sampleReport 77⟩, some .done⟩ := by
    decide +kernel
  rw [hrun, Option.bind_some] at hstored
  obtain ⟨hrequests, _, hproof⟩ := (canary_one_request hrun).2 1 _ _ hstored rfl
  exact ⟨s, _, _, hrun, hstored, rfl, hrequests, hproof⟩

end LoopProof.Proving
