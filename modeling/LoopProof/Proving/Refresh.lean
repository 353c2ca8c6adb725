import LoopProof.Proving.Queue

/-!
# Refreshing the quotes of a batch

The quotes of a batch are repriced at the live base fee, except for the sellers that already have
a request. The old batch is archived, the new quotes are stored beside it, and then the batch and
the progress are replaced, each by a rename. The refresh can die between any two file operations.
-/

namespace LoopProof.Proving

/-- The files of a batch. `requested`, `started` and `executing` tell which outputs of sellers hold
a request checkpoint, a launch marker and an execution lock. -/
structure BatchDirectory where
  quote : BatchQuote
  quoteTemp : Option BatchQuote
  summary : Option BatchProgress
  summaryTemp : Option BatchProgress
  locked : Bool
  sellerQuotes : QuotePath → Option SellerQuote
  previousBatch : ℕ → Option BatchQuote
  previousSummary : ℕ → Option BatchProgress
  requested : String → Bool
  started : String → Bool
  executing : String → Bool

/-- What a refresh is given: the time, the live base fee of each price reader, and the check of a
quote's sources. -/
structure RefreshInput where
  now : ℕ
  readPrices : String → Except String ℕ
  validate : QuoteBody → Except String Unit

/-- The quote of an entry after a refresh, and whether it is a new one. -/
structure PreparedEntry where
  entry : BatchEntry
  quote : SellerQuote
  changed : Bool
  deriving DecidableEq, Repr

/-! ## Planning -/

section Plan

variable (lib : QuoteLib) (input : RefreshInput)

/-- Check the quote of an entry, and reprice it unless it has a request. -/
def prepareEntry (dir : BatchDirectory) (entry : BatchEntry) : Except String PreparedEntry := do
  let sellerQuote ← okOr (dir.sellerQuotes entry.quotePath) "ENOENT"
  validateQuote lib sellerQuote entry.quoteDigest true input.now
  ensure (sellerQuote.body.seller = entry.seller ∧
    sellerQuote.body.requester = dir.quote.body.requester) "seller scope mismatch during refresh"
  ensure (dir.executing sellerQuote.body.output = false)
    s!"seller execution is locked: {lib.showAddress entry.seller}"
  let resuming := dir.requested sellerQuote.body.output
  ensure (resuming = true ∨ dir.started sellerQuote.body.output = false)
    (s!"ambiguous prior submission for {lib.showAddress entry.seller}; " ++
      "reconcile network history before refreshing")
  input.validate sellerQuote.body
  if resuming = true then return ⟨entry, sellerQuote, false⟩
  else
    let baseFeeWei ← input.readPrices sellerQuote.body.priceReader
    let repriced ← repriceQuote lib sellerQuote baseFeeWei input.now 500
    return ⟨entry, repriced, true⟩

/-- The entry of a prepared quote. -/
def refreshedEntry (stamp : ℕ) (item : PreparedEntry) : BatchEntry :=
  { item.entry with
    quotePath := if item.changed = true then .history stamp item.entry.seller
      else item.entry.quotePath
    quoteDigest := item.quote.digest
    estimatedCostWei := item.quote.body.estimatedCostWei
    maxEstimatedCostWei :=
      some (item.quote.body.maxEstimatedCostWei.getD item.quote.body.estimatedCostWei) }

/-- The batch of the prepared quotes. -/
def refreshedBatch (stamp : ℕ) (quote : BatchQuote) (prepared : List PreparedEntry) :
    BatchQuote :=
  let entries := prepared.map (refreshedEntry stamp)
  let body := { quote.body with
    generatedAt := stamp
    previousBatchDigest := some quote.digest
    entries := entries
    newRequestBaseFeeBufferBps := some 500
    estimatedTotalCostWei := (entries.map (·.estimatedCostWei)).sum
    estimatedTotalCostWithFeeAllowanceWei :=
      some (entries.map fun entry => entry.maxEstimatedCostWei.getD 0).sum }
  ⟨body, lib.batchDigest body⟩

/-- The progress under a refreshed batch. -/
def refreshedSummary (refreshed : BatchQuote) (state : BatchProgress) : BatchProgress :=
  { state with
    batchDigest := refreshed.digest
    status := some (if state.complete = true then .complete else .awaitingApproval)
    error := none }

/-- What a refresh has read and computed before it writes. -/
structure RefreshPlan where
  stamp : ℕ
  quote : BatchQuote
  state : Option BatchProgress
  prepared : List PreparedEntry

/-- The checks of a refresh and the quotes it prepares. The lock is held while it reads. -/
def planRefresh (dir : BatchDirectory) : Except String RefreshPlan := do
  validateBatch lib dir.quote dir.quote.digest
  ensure (∀ state ∈ dir.summary, state.kind = "frozen-seller-batch-progress" ∧
    state.batchDigest = dir.quote.digest) "batch checkpoint mismatch before refresh"
  let prepared ← dir.quote.body.entries.mapM (prepareEntry lib input dir)
  return ⟨input.now, dir.quote, dir.summary, prepared⟩

end Plan

/-! ## Writing -/

/-- One write of a refresh. -/
inductive RefreshOp where
  | lock
  | archiveBatch (stamp : ℕ) (quote : BatchQuote)
  | archiveSummary (stamp : ℕ) (state : BatchProgress)
  | storeQuote (stamp : ℕ) (seller : Address) (quote : SellerQuote)
  | stageBatch (quote : BatchQuote)
  | publishBatch
  | stageSummary (state : BatchProgress)
  | publishSummary
  | unlock

/-- Without the lock. -/
def BatchDirectory.unlocked (dir : BatchDirectory) : BatchDirectory := { dir with locked := false }

/-- One file operation. Files of the history and the lock must not exist before. -/
def applyOp (dir : BatchDirectory) : RefreshOp → Option BatchDirectory
  | .lock => if dir.locked = true then none else some { dir with locked := true }
  | .archiveBatch stamp quote =>
    if (dir.previousBatch stamp).isSome = true then none
    else some { dir with previousBatch := Function.update dir.previousBatch stamp (some quote) }
  | .archiveSummary stamp state =>
    if (dir.previousSummary stamp).isSome = true then none
    else some { dir with previousSummary := Function.update dir.previousSummary stamp (some state) }
  | .storeQuote stamp seller quote =>
    if (dir.sellerQuotes (.history stamp seller)).isSome = true then none
    else some { dir with
      sellerQuotes := Function.update dir.sellerQuotes (.history stamp seller) (some quote) }
  | .stageBatch quote => some { dir with quoteTemp := some quote }
  | .publishBatch => dir.quoteTemp.map fun quote => { dir with quote := quote, quoteTemp := none }
  | .stageSummary state => some { dir with summaryTemp := some state }
  | .publishSummary =>
    dir.summaryTemp.map fun state => { dir with summary := some state, summaryTemp := none }
  | .unlock => some dir.unlocked

namespace RefreshPlan

/-- The batch that the plan publishes. -/
def refreshed (lib : QuoteLib) (plan : RefreshPlan) : BatchQuote :=
  refreshedBatch lib plan.stamp plan.quote plan.prepared

/-- The operations that write the history, under the lock. -/
def archiving (plan : RefreshPlan) : List RefreshOp :=
  .lock :: .archiveBatch plan.stamp plan.quote ::
    (plan.state.toList.map (.archiveSummary plan.stamp) ++
      (plan.prepared.filter (·.changed)).map fun item =>
        .storeQuote plan.stamp item.entry.seller item.quote)

/-- All operations of a refresh. -/
def ops (lib : QuoteLib) (plan : RefreshPlan) : List RefreshOp :=
  plan.archiving ++ [.stageBatch (plan.refreshed lib), .publishBatch] ++
    (plan.state.toList.flatMap fun state =>
      [.stageSummary (refreshedSummary (plan.refreshed lib) state), .publishSummary]) ++
    [.unlock]

end RefreshPlan

/-- A refresh that is over, or dies after the given number of file operations; the lock it leaves
is removed. While another process holds the lock, nothing happens. -/
def refreshBatch (lib : QuoteLib) (input : RefreshInput) (survived : ℕ) (dir : BatchDirectory) :
    BatchDirectory :=
  if dir.locked = true then dir
  else
    match planRefresh lib input dir with
    | .error _ => dir
    | .ok plan => (runWhile applyOp dir ((plan.ops lib).take survived)).unlocked

/-! ## Runs -/

/-- What changes the files of a batch: refreshes, and the submissions of sellers. -/
inductive BatchFileEvent where
  | refresh (input : RefreshInput) (survived : ℕ)
  | start (output : String)
  | request (output : String)
  | execute (output : String) (running : Bool)

/-- What a refresh, the start of a proof, its request or its execution changes in the directory. -/
def batchFileStep (lib : QuoteLib) (dir : BatchDirectory) : BatchFileEvent → BatchDirectory
  | .refresh input survived => refreshBatch lib input survived dir
  | .start output => { dir with started := Function.update dir.started output true }
  | .request output => { dir with requested := Function.update dir.requested output true }
  | .execute output running =>
    { dir with executing := Function.update dir.executing output running }

end LoopProof.Proving
