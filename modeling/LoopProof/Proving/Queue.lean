import Mathlib.Data.List.Infix
import LoopProof.Lib.Machine
import LoopProof.Proving.Quote

/-!
# The queue of a batch

The sellers of a batch are proved one after the other. The progress is changed in memory and
stored at every step; an invocation starts from what was stored. It can end with an error where
it waits for something, or die there, and then only the stored progress is left.
-/

namespace LoopProof.Proving

/-- What proving one seller returns. -/
structure RunResult where
  complete : Bool
  requestId : B256
  artifact : String
  artifactSha256 : B256
  productionProofVerified : Bool
  deriving DecidableEq, Repr

/-- A recorded result of a seller. -/
structure SellerResult extends RunResult where
  seller : Address
  label : String
  deriving DecidableEq, Repr

/-- The state that a batch was left in. -/
inductive QueueStatus where
  | running
  | pausedInsufficientFunds
  | needsAttention
  | complete
  | awaitingApproval
  deriving DecidableEq, Repr

/-- The progress of a batch, as it is stored in `summary.json`. -/
structure BatchProgress where
  kind : String
  batchDigest : B256
  complete : Bool
  status : Option QueueStatus
  error : Option String
  currentSeller : Option Address
  results : List SellerResult
  deriving DecidableEq, Repr

/-- The progress before the first invocation. -/
def BatchProgress.initial (batchDigest : B256) : BatchProgress :=
  ⟨"frozen-seller-batch-progress", batchDigest, false, none, none, none, []⟩

/-- The stored progress is of this batch. -/
def checkpointMatches (quote : BatchQuote) (state : BatchProgress) : Bool :=
  state.kind = "frozen-seller-batch-progress" ∧ state.batchDigest = quote.digest ∧
    (state.results.map (·.seller)).Nodup ∧
    ∀ result ∈ state.results, ∃ entry ∈ quote.body.entries, entry.seller = result.seller

/-- A text mentions a phrase in letters of either case. -/
def mentions (text phrase : String) : Bool :=
  phrase.toList.map Char.toLower <:+: text.toList.map Char.toLower

/-- A batch that runs out of money is paused; any other error needs attention. -/
def statusOfError (message : String) : QueueStatus :=
  if mentions message "insufficient available PROVE" = true ∨
      mentions message "prover-network balance is zero" = true then .pausedInsufficientFunds
  else .needsAttention

/-! ## Steps -/

/-- What an invocation waits for, with the entries that come after it. -/
inductive QueueStage where
  /-- No invocation is running. -/
  | idle
  /-- The progress is stored before the first entry. -/
  | opening
  | verifying (completed : SellerResult) (rest : List BatchEntry)
  /-- The progress names the seller that is next. -/
  | announcing (entry : BatchEntry) (rest : List BatchEntry)
  | proving (entry : BatchEntry) (rest : List BatchEntry)
  /-- The progress holds a new result. -/
  | recording (rest : List BatchEntry)
  /-- The progress holds the error that ends the invocation. -/
  | stopping
  /-- The progress says that all entries are complete. -/
  | closing
  deriving DecidableEq, Repr

/-- The progress in memory and the stored one, what the invocation waits for, and the results
that proving has returned so far. -/
structure QueueState where
  memory : BatchProgress
  stored : Option BatchProgress
  stage : QueueStage
  returned : List (Address × RunResult)
  deriving DecidableEq, Repr

/-- What a run does, and what it is answered. -/
inductive QueueEvent where
  | invoke
  /-- The awaited storing or verification succeeds. -/
  | succeed
  /-- Proving returns a result. -/
  | proved (result : RunResult)
  /-- The awaited operation throws. -/
  | throw (message : String)
  | crash
  deriving DecidableEq, Repr

/-- A seller's completed result. -/
def BatchProgress.completed (state : BatchProgress) (seller : Address) : Option SellerResult :=
  state.results.find? fun result => result.seller = seller ∧ result.complete = true

/-- A new result of a seller replaces the ones it has. -/
def BatchProgress.record (state : BatchProgress) (entry : BatchEntry) (result : RunResult) :
    BatchProgress :=
  { state with
    results := state.results.filter (·.seller ≠ entry.seller) ++
      [{ toRunResult := result, seller := entry.seller, label := entry.label }] }

/-- The progress when an entry failed. -/
def BatchProgress.fail (state : BatchProgress) (message : String) : BatchProgress :=
  { state with status := some (statusOfError message), error := some message }

namespace QueueState

/-- The state before the first invocation. -/
def initial (batchDigest : B256) : QueueState :=
  ⟨BatchProgress.initial batchDigest, none, .idle, []⟩

/-- The progress is stored, and something else is awaited. -/
def persist (s : QueueState) : QueueState := { s with stored := some s.memory }

/-- Go on with the next entry, up to what it waits for. -/
def advance (s : QueueState) : List BatchEntry → QueueState
  | [] => { s with
      memory := { s.memory with complete := true, status := some .complete, currentSeller := none }
      stage := .closing }
  | entry :: rest =>
    match s.memory.completed entry.seller with
    | some completed => { s with stage := .verifying completed rest }
    | none => { s with
        memory := { s.memory with currentSeller := some entry.seller }
        stage := .announcing entry rest }

/-- The handler of an error while an entry is proved or its result is stored. -/
def handle (s : QueueState) (message : String) : QueueState :=
  { s with memory := s.memory.fail message, stage := .stopping }

/-- The invocation is over. -/
def finish (s : QueueState) : QueueState := { s with stage := .idle }

end QueueState

/-- A new invocation loads the stored progress, and refuses one of another batch. -/
def invokeQueue (quote : BatchQuote) (s : QueueState) : QueueState :=
  let state := s.stored.getD (BatchProgress.initial quote.digest)
  if checkpointMatches quote state = false then s
  else { s with
    memory := { state with complete := false, status := some .running, error := none }
    stage := .opening }

/-- The next step of the invocation. -/
def queueStep (quote : BatchQuote) (s : QueueState) (event : QueueEvent) : Option QueueState :=
  match s.stage, event with
  | .idle, .invoke => some (invokeQueue quote s)
  | .opening, .succeed => some (s.persist.advance quote.body.entries)
  | .verifying _ rest, .succeed => some (s.advance rest)
  | .announcing entry rest, .succeed => some { s.persist with stage := .proving entry rest }
  | .proving entry rest, .proved result =>
    let s := { s with returned := s.returned ++ [(entry.seller, result)] }
    if result.complete = false ∨ result.productionProofVerified = false then
      some (s.handle "seller proof did not verify")
    else some { s with memory := s.memory.record entry result, stage := .recording rest }
  | .recording rest, .succeed => some (s.persist.advance rest)
  | .stopping, .succeed => some s.persist.finish
  | .closing, .succeed => some s.persist.finish
  | .proving _ _, .throw message => some (s.handle message)
  | .recording _, .throw message => some (s.handle message)
  | .opening, .throw _ => some s.finish
  | .verifying _ _, .throw _ => some s.finish
  | .announcing _ _, .throw _ => some s.finish
  | .stopping, .throw _ => some s.finish
  | .closing, .throw _ => some s.finish
  | .idle, _ => none
  | _, .crash => some s.finish
  | _, _ => none

end LoopProof.Proving
