import LoopProof.Lib.Machine
import LoopProof.Proving.Prover

/-!
# The production batch runner

Any number of batch runs over one artifact directory. Each run has one worker for a seller,
which reuses a current artifact or starts the prover; sellers are worked on in parallel, and
nothing but the files of a seller connects the workers. A runner can die at any point and leave
its provers running.
-/

namespace LoopProof.Proving

/-- How far the work on one seller is. -/
inductive WorkerStage where
  | proving
  /-- The artifact of an earlier run was current. -/
  | reused
  | finished
  | failed
  deriving DecidableEq, Repr

/-- The work of one run on one seller. -/
structure Worker where
  stage : WorkerStage
  prover : Option ProverState
  deriving DecidableEq, Repr

/-- The outputs of the sellers, and the workers of all runs. Every output keeps the log of the
requests created for its seller. -/
structure BatchState where
  outputs : Address → Output
  workers : ℕ × Address → Option Worker

/-- What the workers of a run and their provers do. -/
inductive BatchEvent where
  /-- The worker looks for a current artifact, and starts the prover if there is none. -/
  | begin (worker : ℕ × Address)
  | prove (worker : ℕ × Address) (event : ProverEvent)
  /-- The prover has ended and its artifact is read. -/
  | collect (worker : ℕ × Address)
  /-- The run dies; the prover lives on. -/
  | crash (worker : ℕ × Address)
  deriving DecidableEq, Repr

/-- The artifact directory of the first run. -/
def BatchState.initial : BatchState := ⟨fun _ => Output.empty, fun _ => none⟩

/-- Replace one worker. -/
def BatchState.put (s : BatchState) (id : ℕ × Address) (worker : Worker) : BatchState :=
  { s with workers := Function.update s.workers id (some worker) }

/-- Whether an artifact is the paid proof of this seller, period and program. -/
def artifactCurrent (job : SellerReport) (artifact : SellerArtifact) : Bool :=
  artifact.version = 3 ∧ artifact.kind = "antseed-wash-trading-seller-proof" ∧
    artifact.proofArchitecture = "direct-seller-v1" ∧ artifact.securityMode = .production ∧
    artifact.report.seller = job.seller ∧ artifact.claimCount = 1 ∧
    artifact.evidenceFormat = "single-bundle-v1" ∧
    artifact.report.periodStartBlock = job.periodStartBlock ∧
    artifact.report.periodEndBlock = job.periodEndBlock ∧
    artifact.report.sellerProgramVKey = job.sellerProgramVKey ∧ artifact.proved = true ∧
    artifact.verified = true ∧ artifact.report.totalSellerVolumeRaw ≠ 0 ∧
    artifact.report.publicValues ≠ [] ∧ artifact.proofBytes ≠ [] ∧ artifact.requestId ≠ none

/-- One step of a worker or a prover. The same bundle, plan and guest give every run the same
job for a seller. -/
def batchStep (lib : ProvingLib) (jobs : Address → SellerReport) (s : BatchState) :
    BatchEvent → Option BatchState
  | .begin id =>
    match s.workers id with
    | some _ => none
    | none =>
      match (s.outputs id.2).artifact with
      | some artifact =>
        some (s.put id ⟨if artifactCurrent (jobs id.2) artifact then .reused else .failed, none⟩)
      | none => some (s.put id ⟨.proving, some .ready⟩)
  | .prove id event =>
    (s.workers id).bind fun worker =>
      worker.prover.bind fun state =>
        (proverStep lib (jobs id.2) (s.outputs id.2) state event).map fun next =>
          { s with outputs := Function.update s.outputs id.2 next.1 }.put id
            { worker with prover := some next.2 }
  | .collect id =>
    (s.workers id).bind fun worker =>
      match worker.stage, worker.prover with
      | .proving, some .done =>
        some (s.put id { worker with stage :=
          if (s.outputs id.2).artifact.any (artifactCurrent (jobs id.2)) then .finished
          else .failed })
      | .proving, some .failed => some (s.put id { worker with stage := .failed })
      | _, _ => none
  | .crash id =>
    (s.workers id).bind fun worker =>
      match worker.stage with
      | .proving => some (s.put id { worker with stage := .failed })
      | _ => none

/-- The prover of a worker, if it started one. -/
def BatchState.prover (s : BatchState) (id : ℕ × Address) : Option ProverState :=
  (s.workers id).bind (·.prover)

/-- The worker's prover found no checkpoint and has not published one. -/
def BatchState.Unsaved (s : BatchState) (id : ℕ × Address) : Prop :=
  ∃ state, s.prover id = some state ∧ state.unsaved = true

/-- A step that loses no created request and shares no seller: a checkpoint is looked for only
while no prover of the seller is between its own look and its checkpoint, and a prover whose
request was accepted does not end before its checkpoint is published. -/
def Saving (s : BatchState) : BatchEvent → Prop
  | .prove id event =>
    (event = .testCheckpoint → ∀ run, ¬ s.Unsaved (run, id.2)) ∧
      ∀ state, s.prover id = some state → Saves state event
  | _ => True

end LoopProof.Proving
