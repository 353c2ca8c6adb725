import LoopProof.Lib.Machine
import LoopProof.Proving.Prover

/-!
# The frozen canary runner

Any number of `submit` invocations over one output directory, called directly or by a batch
queue, each with the prover it spawns.
The checkpoint is tested before the lock is taken, and the launch marker is created before
the prover that will create the request; lock and marker are created exclusively. A runner can
die at any point and leave its prover running, and an operator may remove a stale lock.
-/

namespace LoopProof.Proving

/-- An approved quote for one output directory: what its frozen input reports when proved, and
the estimate the artifact is compared with. -/
structure CanaryQuote where
  digest : B256
  report : SellerReport
  estimate : SellerReport
  deriving DecidableEq, Repr

/-- What a submission returns. -/
structure CanaryResult where
  requestId : B256
  artifact : SellerArtifact
  deriving DecidableEq, Repr

/-- How far a submission is. -/
inductive Stage where
  /-- The checkpoint was tested; the quote, its sources, the price and the account are still
  being checked. -/
  | opened
  | locked
  /-- The marker was tested and is missing. -/
  | unmarked
  /-- The prover may be spawned. -/
  | launched
  | proving
  /-- The lock is about to be removed, and then the outcome returned or thrown. -/
  | unlocking (outcome : Option CanaryResult)
  | returned (result : CanaryResult)
  | failed
  | crashed
  deriving DecidableEq, Repr

/-- One `submit` invocation and the prover it spawned. -/
structure Invocation where
  quote : CanaryQuote
  resuming : Bool
  stage : Stage
  prover : Option ProverState
  deriving DecidableEq, Repr

/-- The directory of one canary, and everything that runs over it. Invocations are named by
their process. -/
structure CanaryState where
  /-- `execution.lock`, holding the process that created it. -/
  lock : Option ℕ
  /-- `submission-started.json`, holding the digest of the approved quote. -/
  marker : Option B256
  output : Output
  invocations : ℕ → Option Invocation

/-- What the code of a submission does next. -/
inductive SubmitAction where
  /-- A check before the lock throws, or the invocation is a preflight. -/
  | refuse
  | lock
  | testMarker
  | mark
  | spawn
  /-- The prover has ended and its artifact is read. -/
  | collect
  | unlock
  /-- The runner dies; the prover it spawned lives on. -/
  | crash
  deriving DecidableEq, Repr

/-- What the submissions, their provers and the operator do. -/
inductive CanaryEvent where
  | start (process : ℕ) (quote : CanaryQuote)
  | submit (process : ℕ) (action : SubmitAction)
  | prove (process : ℕ) (event : ProverEvent)
  /-- The operator removes the lock. -/
  | removeLock
  deriving DecidableEq, Repr

/-- The directory as it was prepared. -/
def CanaryState.initial : CanaryState := ⟨none, none, Output.empty, fun _ => none⟩

/-- Replace one invocation. -/
def CanaryState.put (s : CanaryState) (process : ℕ) (invocation : Invocation) : CanaryState :=
  { s with invocations := Function.update s.invocations process (some invocation) }

/-- The result of an artifact that matches the estimate. -/
def canaryResult (quote : CanaryQuote) (artifact : SellerArtifact) : Option CanaryResult :=
  if artifact.report.seller ≠ quote.estimate.seller ∨
      artifact.report.sellerProgramVKey ≠ quote.estimate.sellerProgramVKey ∨
      artifact.report.publicValues ≠ quote.estimate.publicValues ∨
      artifact.report.evidenceDigest ≠ quote.estimate.evidenceDigest ∨
      artifact.report.provenWashVolumeRaw ≠ quote.estimate.provenWashVolumeRaw ∨
      artifact.report.totalSellerVolumeRaw ≠ quote.estimate.totalSellerVolumeRaw ∨
      artifact.report.proverGasUnits ≠ quote.estimate.proverGasUnits then none
  else if artifact.securityMode ≠ .production ∨ artifact.proved = false ∨
      artifact.verified = false ∨ artifact.proverNetworkSubmitted = false ∨
      artifact.proofBytes = [] then none
  else artifact.requestId.map fun id => ⟨id, artifact⟩

/-- The next step of the code of one submission. -/
def submitStep (s : CanaryState) (process : ℕ) (invocation : Invocation) :
    Stage → SubmitAction → Option CanaryState
  | .opened, .refuse => some (s.put process { invocation with stage := .failed })
  | .opened, .lock =>
    if s.lock.isSome then some (s.put process { invocation with stage := .failed })
    else some ({ s with lock := some process }.put process { invocation with stage := .locked })
  | .locked, .testMarker =>
    if invocation.resuming then some (s.put process { invocation with stage := .launched })
    else if s.marker.isSome then some (s.put process { invocation with stage := .unlocking none })
    else some (s.put process { invocation with stage := .unmarked })
  | .unmarked, .mark =>
    if s.marker.isSome then some (s.put process { invocation with stage := .unlocking none })
    else some ({ s with marker := some invocation.quote.digest }.put process
      { invocation with stage := .launched })
  | .launched, .spawn =>
    some (s.put process { invocation with stage := .proving, prover := some .ready })
  | .proving, .collect =>
    match invocation.prover with
    | some .done => some (s.put process { invocation with
        stage := .unlocking (s.output.artifact.bind (canaryResult invocation.quote)) })
    | some .failed => some (s.put process { invocation with stage := .unlocking none })
    | _ => none
  | .unlocking (some result), .unlock =>
    -- removing a lock that is gone throws, and nothing is returned
    if s.lock.isSome then
      some ({ s with lock := none }.put process { invocation with stage := .returned result })
    else some (s.put process { invocation with stage := .failed })
  | .unlocking none, .unlock =>
    some ({ s with lock := none }.put process { invocation with stage := .failed })
  | .returned _, _ | .failed, _ | .crashed, _ => none
  | _, .crash => some (s.put process { invocation with stage := .crashed })
  | _, _ => none

/-- One step of a party over the directory. -/
def canaryStep (lib : ProvingLib) (s : CanaryState) : CanaryEvent → Option CanaryState
  | .start process quote =>
    match s.invocations process with
    | some _ => none
    | none => some (s.put process ⟨quote, s.output.checkpoint.isSome, .opened, none⟩)
  | .submit process action =>
    (s.invocations process).bind fun invocation =>
      submitStep s process invocation invocation.stage action
  | .prove process event =>
    (s.invocations process).bind fun invocation =>
      invocation.prover.bind fun state =>
        (proverStep lib invocation.quote.report s.output state event).map fun next =>
          { s with output := next.1 }.put process { invocation with prover := some next.2 }
  | .removeLock => some { s with lock := none }

end LoopProof.Proving
