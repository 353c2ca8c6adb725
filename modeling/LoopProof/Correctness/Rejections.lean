import LoopProof.Correctness.Fundings
import LoopProof.Correctness.Settlements

/-!
# What the closed-loop predicate rejects an input for

Two texts of the predicate are about settlements that no funding precedes. No other check of the
predicate, and no reader below it, fails with one of them.
-/

namespace LoopProof

/-- The error of a settlement before its buyer was funded. -/
def unfundedSettlement : String := "settlements: settlement is not after its buyer's funding"

/-- The error of a buyer without funding. -/
def unfundedBuyer : String := "funding: every buyer in the cohort must be funded"

/-- The texts that say that a funding is missing or late. -/
def fundingTexts : List String := [unfundedSettlement, unfundedBuyer]

/-- The call does not fail with one of these texts. -/
def Avoids {α : Type} (x : Outcome α) : Prop := ∀ text ∈ fundingTexts, x ≠ .error (.err text)

/-- A text with another beginning is none of them. -/
def apart (beginning : String) : Bool :=
  fundingTexts.all fun text =>
    decide (text.toList.take beginning.toList.length ≠ beginning.toList.take text.toList.length)

/-- A text that begins apart from all funding texts is none of them, whatever follows. -/
theorem append_not_mem {beginning rest : String} (h : apart beginning = true) :
    beginning ++ rest ∉ fundingTexts := by
  intro hmem
  have hne := of_decide_eq_true (List.all_eq_true.mp h _ hmem)
  simp [String.toList_append] at hne

section Avoids

variable {α β σ : Type}

/-- A result is no funding error. -/
theorem Avoids.ok {a : α} : Avoids (.ok a) := by
  intro text _ h
  cases h

/-- A value is no funding error. -/
theorem Avoids.pure {a : α} : Avoids (pure a) := Avoids.ok

/-- An error with another text is no funding error. -/
theorem Avoids.err {message : String} (h : message ∉ fundingTexts) :
    Avoids (.error (.err message) : Outcome α) := by
  intro text htext heq
  cases heq
  exact h htext

/-- A panic is no funding error. -/
theorem Avoids.panic {site : String} : Avoids (.error (.panic site) : Outcome α) := by
  intro text _ h
  cases h

/-- The end of fuel is no funding error. -/
theorem Avoids.outOfFuel : Avoids (.error .outOfFuel : Outcome α) := by
  intro text _ h
  cases h

/-- Two computations in a row avoid funding errors if both do. -/
theorem Avoids.bind {x : Outcome α} {f : α → Outcome β} (hx : Avoids x)
    (hf : ∀ a, x = .ok a → Avoids (f a)) : Avoids (x >>= f) := by
  intro text htext h
  rcases bind_eq_error.mp h with h | ⟨a, ha, h⟩
  · exact hx text htext h
  · exact hf a ha text htext h

/-- A check with another text avoids funding errors. -/
theorem Avoids.ensure {c : Prop} [Decidable c] {message : String} (h : message ∉ fundingTexts) :
    Avoids (ensure c (.err message : Failure)) := by
  intro text htext heq
  obtain ⟨_, heq⟩ := ensure_eq_error.mp heq
  cases heq
  exact h htext

/-- A check that is met does not fail. -/
theorem Avoids.ensure_of {c : Prop} [Decidable c] {failure : Failure} (h : c) :
    Avoids (LoopProof.ensure c failure) := by
  rw [LoopProof.ensure, if_pos h]
  exact Avoids.ok

/-- A missing value with another text avoids funding errors. -/
theorem Avoids.okOr {a : Option α} {message : String} (h : message ∉ fundingTexts) :
    Avoids (okOr a (.err message : Failure)) := by
  cases a with
  | none => exact Avoids.err h
  | some a => exact Avoids.ok

/-- A missing value that panics avoids funding errors. -/
theorem Avoids.okOr_panic {a : Option α} {site : String} :
    Avoids (LoopProof.okOr a (.panic site : Failure)) := by
  cases a with
  | none => exact Avoids.panic
  | some a => exact Avoids.ok

/-- An error that is renamed to other texts avoids funding errors. -/
theorem Avoids.mapError {x : Except String α} {f : String → String}
    (h : ∀ e, f e ∉ fundingTexts) : Avoids (x.mapError fun e => .err (f e)) := by
  cases x with
  | error e => exact Avoids.err (h e)
  | ok a => exact Avoids.ok

/-- A reworded error has the new text. -/
theorem Avoids.mapErr {x : Outcome α} {f : String → String} (h : ∀ e, f e ∉ fundingTexts) :
    Avoids (x.mapError (.mapErr f)) := by
  cases x with
  | ok a => exact Avoids.ok
  | error failure =>
    cases failure with
    | err message => exact Avoids.err (h message)
    | panic site => exact Avoids.panic
    | outOfFuel => exact Avoids.outOfFuel

/-- A loop avoids funding errors if each of its steps does. -/
theorem Avoids.foldlM {step : σ → α → Outcome σ} {inputs : List α}
    (hstep : ∀ s, ∀ a ∈ inputs, Avoids (step s a)) (s : σ) : Avoids (inputs.foldlM step s) := by
  intro text htext h
  obtain ⟨s', a, ha, hfail⟩ := foldlM_eq_error h
  exact hstep s' a ha text htext hfail

/-- Checks of all inputs avoid funding errors if each of them does. -/
theorem Avoids.forM {check : α → Outcome PUnit} {inputs : List α} (h : ∀ a, Avoids (check a)) :
    Avoids (inputs.forM check) := by
  induction inputs with
  | nil => exact Avoids.pure
  | cons a inputs ih => exact Avoids.bind (h a) fun _ _ => ih

/-- An index avoids funding errors. -/
theorem Avoids.indexAt {site : String} {xs : List α} {i : ℕ} : Avoids (indexAt site xs i) :=
  Avoids.okOr_panic

/-- A slice avoids funding errors. -/
theorem Avoids.sliceAt {site : String} {xs : List α} {lo hi : ℕ} :
    Avoids (sliceAt site xs lo hi) := by
  rw [LoopProof.sliceAt]
  split
  · exact Avoids.ok
  · exact Avoids.panic

/-- Reading a word avoids funding errors. -/
theorem Avoids.u256FromBeSlice {bytes : Bytes} : Avoids (u256FromBeSlice bytes) := by
  rw [LoopProof.u256FromBeSlice]
  split
  · exact Avoids.ok
  · exact Avoids.panic

/-- Reading a hash avoids funding errors. -/
theorem Avoids.b256FromSlice {bytes : Bytes} : Avoids (b256FromSlice bytes) := by
  rw [LoopProof.b256FromSlice]
  split
  · exact Avoids.ok
  · exact Avoids.panic

/-- Reading an address avoids funding errors. -/
theorem Avoids.addressFromSlice {bytes : Bytes} : Avoids (addressFromSlice bytes) := by
  rw [LoopProof.addressFromSlice]
  split
  · exact Avoids.ok
  · exact Avoids.panic

end Avoids

/-! ## Readers -/

section Readers

variable {lib : CoreLib}

/-- Reading the next item avoids funding errors. -/
theorem nextItem_avoids (buf : Bytes) : Avoids (nextItem lib buf) := by
  refine Avoids.bind (Avoids.mapError fun e => append_not_mem (by decide)) fun _ _ => ?_
  refine Avoids.bind (Avoids.ensure (by decide)) fun _ _ => ?_
  refine Avoids.bind Avoids.sliceAt fun _ _ => ?_
  exact Avoids.bind Avoids.sliceAt fun _ _ => Avoids.pure

/-- Reading the body of a receipt avoids funding errors. -/
theorem receiptBody_avoids (receipt : Bytes) : Avoids (receiptBody lib receipt) := by
  refine Avoids.bind (nextItem_avoids _) fun _ _ => ?_
  exact Avoids.bind (Avoids.ensure (by decide)) fun _ _ => Avoids.pure

/-- Reading topics avoids funding errors. -/
theorem topicsLoop_avoids (fuel : ℕ) (buf : Bytes) (topics : List B256) :
    Avoids (topicsLoop lib fuel buf topics) := by
  induction fuel generalizing buf topics with
  | zero =>
    cases buf with
    | nil => exact Avoids.ok
    | cons b rest => exact Avoids.outOfFuel
  | succ fuel ih =>
    cases buf with
    | nil => exact Avoids.ok
    | cons b rest =>
      refine Avoids.bind (nextItem_avoids _) fun _ _ => ?_
      refine Avoids.bind (Avoids.ensure (by decide)) fun _ _ => ?_
      exact Avoids.bind Avoids.b256FromSlice fun _ _ => ih _ _

/-- Parsing a log avoids funding errors. -/
theorem parseLog_avoids (log : Bytes) : Avoids (parseLog lib log) := by
  refine Avoids.bind (nextItem_avoids _) fun _ _ => ?_
  refine Avoids.bind (Avoids.ensure (by decide)) fun _ _ => ?_
  refine Avoids.bind (nextItem_avoids _) fun _ _ => ?_
  refine Avoids.bind (Avoids.ensure (by decide)) fun _ _ => ?_
  refine Avoids.bind (topicsLoop_avoids _ _ _) fun _ _ => ?_
  refine Avoids.bind (nextItem_avoids _) fun _ _ => ?_
  exact Avoids.bind Avoids.addressFromSlice fun _ _ => Avoids.pure

/-- Looking for a log avoids funding errors. -/
theorem receiptLogLoop_avoids (logIndex : Usize) (fuel : ℕ) (buf : Bytes) (i : ℕ) :
    Avoids (receiptLogLoop lib logIndex fuel buf i) := by
  have hend : ∀ n, Avoids (receiptLogLoop lib logIndex n [] i) := by
    intro n
    rw [receiptLogLoop, String.append_assoc]
    exact Avoids.err (append_not_mem (by decide))
  induction fuel generalizing buf i with
  | zero =>
    cases buf with
    | nil => exact hend 0
    | cons b rest => exact Avoids.outOfFuel
  | succ fuel ih =>
    cases buf with
    | nil => exact hend (fuel + 1)
    | cons b rest =>
      refine Avoids.bind (nextItem_avoids _) fun _ _ => ?_
      refine Avoids.bind (Avoids.ensure (by decide)) fun _ _ => ?_
      split
      · exact parseLog_avoids _
      · apply ih
        intro n
        rw [receiptLogLoop, String.append_assoc]
        exact Avoids.err (append_not_mem (by decide))

/-- Reading a log of a receipt avoids funding errors. -/
theorem receiptLog_avoids (receipt : Bytes) (logIndex : Usize) :
    Avoids (receiptLog lib receipt logIndex) := by
  refine Avoids.bind (receiptBody_avoids _) fun _ _ => ?_
  refine Avoids.bind (nextItem_avoids _) fun _ _ => ?_
  refine Avoids.bind (nextItem_avoids _) fun _ _ => ?_
  refine Avoids.bind (nextItem_avoids _) fun _ _ => ?_
  refine Avoids.bind (nextItem_avoids _) fun _ _ => ?_
  refine Avoids.bind (Avoids.ensure (by decide)) fun _ _ => ?_
  exact receiptLogLoop_avoids _ _ _ _

/-- Reading a slot avoids funding errors. -/
theorem verifyStorageValue_avoids (stateRoot : B256) (address : Address) (slot : B256)
    (proof : StorageProof) : Avoids (verifyStorageValue lib stateRoot address slot proof) := by
  have htext : ∀ rest : String,
      "account " ++ lib.showAddress address ++ rest ∉ fundingTexts := by
    intro rest
    rw [String.append_assoc]
    exact append_not_mem (by decide)
  refine Avoids.bind (Avoids.mapErr fun e => ?_) fun account _ => ?_
  · rw [String.append_assoc]
    exact htext _
  cases account with
  | none => exact Avoids.bind (Avoids.ensure (htext _)) fun _ _ => Avoids.pure
  | some rlp =>
    refine Avoids.bind (Avoids.mapErr fun e => ?_) fun storageRoot _ => ?_
    · rw [String.append_assoc]
      exact htext _
    split
    · exact Avoids.bind (Avoids.ensure (htext _)) fun _ _ => Avoids.pure
    · refine Avoids.bind (Avoids.mapErr fun e => ?_) fun value _ => ?_
      · rw [String.append_assoc, String.append_assoc, String.append_assoc]
        exact htext _
      cases value with
      | none => exact Avoids.pure
      | some valueRlp =>
        refine Avoids.bind (nextItem_avoids _) fun item _ => ?_
        refine Avoids.bind (Avoids.ensure ?_) fun _ _ => Avoids.u256FromBeSlice
        rw [String.append_assoc, String.append_assoc]
        exact htext _

end Readers

/-! ## References -/

section Resolver

variable {lib : Lib} {resolver : ChainResolver}

open ChainResolver

/-- Resolving a block avoids funding errors. -/
theorem block_avoids (index : Usize) : Avoids (resolver.block index) :=
  Avoids.okOr (by decide)

/-- Resolving a log avoids funding errors. -/
theorem log_avoids (ref : LogRef) : Avoids (resolver.log lib ref) := by
  have hreceipt : Avoids (resolver.receipt ⟨ref.block, ref.receipt⟩) := by
    refine Avoids.bind (block_avoids _) fun _ _ => ?_
    exact Avoids.bind (Avoids.okOr (by decide)) fun _ _ => Avoids.pure
  have hsuccess : ∀ bytes, Avoids (receiptSuccess lib.toCoreLib bytes) := by
    intro bytes
    refine Avoids.bind (receiptBody_avoids _) fun _ _ => ?_
    exact Avoids.bind (nextItem_avoids _) fun _ _ => Avoids.pure
  refine Avoids.bind hreceipt fun _ _ => ?_
  refine Avoids.bind (hsuccess _) fun _ _ => ?_
  refine Avoids.bind (Avoids.ensure (by decide)) fun _ _ => ?_
  exact Avoids.bind (receiptLog_avoids _ _) fun _ _ => Avoids.pure

/-- Resolving the position of a log avoids funding errors. -/
theorem logKey_avoids (ref : LogRef) : Avoids (resolver.logKey lib ref) :=
  Avoids.bind (log_avoids ref) fun _ _ => Avoids.pure

/-- Resolving the time of a log avoids funding errors. -/
theorem timestamp_avoids (ref : LogRef) : Avoids (resolver.timestamp ref) :=
  Avoids.bind (block_avoids _) fun _ _ => Avoids.pure

/-- Checking the sender of a log avoids funding errors. -/
theorem requireSigner_avoids (expected : Address) (ref : LogRef) :
    Avoids (resolver.requireSigner lib expected ref) := by
  have htransaction : Avoids (resolver.transactionForLog lib ref) := by
    refine Avoids.bind (log_avoids ref) fun _ _ => ?_
    dsimp only
    split
    · exact Avoids.err (by decide)
    · exact Avoids.pure
    · exact Avoids.err (by decide)
  have hproof : ∀ transaction, Avoids (resolver.transaction transaction) := by
    intro transaction
    refine Avoids.bind (block_avoids _) fun _ _ => ?_
    exact Avoids.bind (Avoids.okOr (by decide)) fun _ _ => Avoids.pure
  refine Avoids.bind htransaction fun transaction _ => ?_
  refine Avoids.bind ?_ fun _ _ => Avoids.ensure (by decide)
  refine Avoids.bind (hproof _) fun _ _ => ?_
  refine Avoids.bind (Avoids.mapError fun e => append_not_mem (by decide)) fun _ _ => ?_
  refine Avoids.bind (Avoids.ensure (by decide)) fun _ _ => ?_
  exact Avoids.bind (Avoids.okOr (by decide)) fun _ _ => Avoids.pure

/-- Resolving an event avoids funding errors where its own error is another text. -/
theorem event_avoids {contract : Address} {topicCount : ℕ} {signature : B256} {sized : ℕ → Bool}
    {mismatch : String} {ref : LogRef} (h : mismatch ∉ fundingTexts) :
    Avoids (resolver.event lib contract topicCount signature sized mismatch ref) := by
  refine Avoids.bind (log_avoids ref) fun _ _ => ?_
  refine Avoids.bind (Avoids.ensure h) fun _ _ => ?_
  refine Avoids.bind Avoids.indexAt fun _ _ => ?_
  exact Avoids.bind (Avoids.ensure h) fun _ _ => Avoids.pure

/-- Resolving a transfer avoids funding errors. -/
theorem usdcTransfer_avoids (ref : LogRef) : Avoids (resolver.usdcTransfer lib ref) := by
  refine Avoids.bind (event_avoids (by decide)) fun _ _ => ?_
  refine Avoids.bind Avoids.indexAt fun _ _ => ?_
  refine Avoids.bind Avoids.indexAt fun _ _ => ?_
  refine Avoids.bind Avoids.u256FromBeSlice fun _ _ => ?_
  exact Avoids.bind (Avoids.okOr (by decide)) fun _ _ => Avoids.pure

/-- Resolving a settlement avoids funding errors. -/
theorem settlement_avoids (ref : LogRef) : Avoids (resolver.settlement lib ref) := by
  refine Avoids.bind (event_avoids (by decide)) fun _ _ => ?_
  refine Avoids.bind Avoids.indexAt fun _ _ => ?_
  refine Avoids.bind Avoids.indexAt fun _ _ => ?_
  refine Avoids.bind Avoids.indexAt fun _ _ => ?_
  refine Avoids.bind Avoids.sliceAt fun _ _ => ?_
  refine Avoids.bind Avoids.u256FromBeSlice fun _ _ => ?_
  exact Avoids.bind (Avoids.okOr (by decide)) fun _ _ => Avoids.pure

/-- Resolving a deposit avoids funding errors. -/
theorem protocolDeposit_avoids (ref : LogRef) : Avoids (resolver.protocolDeposit lib ref) := by
  refine Avoids.bind (event_avoids (by decide)) fun _ _ => ?_
  refine Avoids.bind Avoids.indexAt fun _ _ => ?_
  refine Avoids.bind Avoids.u256FromBeSlice fun _ _ => ?_
  exact Avoids.bind (Avoids.okOr (by decide)) fun _ _ => Avoids.pure

/-- Resolving a slot avoids funding errors. -/
theorem storageValue_avoids (read : StateRead) (expectedBlock : U64) (contract : Address)
    (slot : B256) : Avoids (resolver.storageValue lib read expectedBlock contract slot) := by
  refine Avoids.bind (block_avoids _) fun _ _ => ?_
  refine Avoids.bind (Avoids.ensure ?_) fun _ _ => verifyStorageValue_avoids _ _ _ _
  rw [String.append_assoc, String.append_assoc]
  exact append_not_mem (by decide)

/-- Recording a log avoids funding errors where its own error is another text. -/
theorem insertNew_avoids {used : UsedLogs} {key : LogKey} {duplicate : String}
    (h : duplicate ∉ fundingTexts) : Avoids (used.insertNew key duplicate) := by
  rw [UsedLogs.insertNew]
  split
  · exact Avoids.err h
  · exact Avoids.ok

/-- The check of the period avoids funding errors where its label leads to another text. -/
theorem ensureEventInPeriod_avoids {block start finish : U64} {label : String}
    (h : label ++ " is outside the fixed enforcement period" ∉ fundingTexts) :
    Avoids (ensureEventInPeriod block start finish label) :=
  Avoids.ensure h

end Resolver

/-! ## The predicate -/

section Predicate

variable {lib : Lib}

/-- Authenticating the items of a block avoids funding errors if each of them does. -/
theorem authenticateItems_avoids {α : Type} {index : α → U64} {verify : α → Outcome Unit}
    {duplicate : String} (h : duplicate ∉ fundingTexts) (hverify : ∀ item, Avoids (verify item))
    (seen : Finset U64) (items : List α) :
    Avoids (authenticateItems index verify duplicate seen items) := by
  induction items generalizing seen with
  | nil => exact Avoids.ok
  | cons item items ih =>
    refine Avoids.bind (Avoids.ensure h) fun _ _ => ?_
    exact Avoids.bind (hverify item) fun _ _ => ih _

/-- Authenticating all blocks avoids funding errors. -/
theorem authenticateBlocks_avoids (core : CoreLib) (blocks : List EvidenceBlock)
    (periodStart periodEnd : U64) :
    Avoids (authenticateBlocks core blocks periodStart periodEnd) := by
  have hlist : ∀ numbers,
      Avoids (authenticateBlockList core periodStart periodEnd numbers blocks) := by
    induction blocks with
    | nil => exact fun _ => Avoids.ok
    | cons block blocks ih =>
      intro numbers
      refine Avoids.bind (Avoids.ensure ?_) fun _ _ => ?_
      · rw [String.append_assoc]
        exact append_not_mem (by decide)
      refine Avoids.bind (Avoids.ensure (by decide)) fun _ _ => ?_
      refine Avoids.bind (authenticateItems_avoids (by decide) ?_ _ _) fun _ _ => ?_
      · intro proof
        refine Avoids.mapError fun e => ?_
        simp only [String.append_assoc]
        exact append_not_mem (by decide)
      refine Avoids.bind (authenticateItems_avoids (by decide) ?_ _ _) fun _ _ => ?_
      · intro proof
        refine Avoids.mapError fun e => ?_
        simp only [String.append_assoc]
        exact append_not_mem (by decide)
      exact Avoids.bind (ih _) fun _ _ => Avoids.pure
  refine Avoids.bind (Avoids.ensure (by decide)) fun _ _ => ?_
  exact Avoids.bind (hlist ∅) fun _ _ => Avoids.pure

variable {input : ClosedLoopInput} {resolver : ChainResolver}

/-- Checking a funding avoids both errors about missing fundings. -/
theorem checkFunding_avoids (used : UsedLogs) (evidence : FundingEvidence) :
    Avoids (checkFunding lib input resolver used evidence) := by
  unfold checkFunding
  split
  · refine Avoids.bind (logKey_avoids _) fun _ _ => ?_
    refine Avoids.bind (insertNew_avoids (by decide)) fun _ _ => ?_
    refine Avoids.bind (usdcTransfer_avoids _) fun _ _ => ?_
    refine Avoids.bind (ensureEventInPeriod_avoids (by decide)) fun _ _ => ?_
    refine Avoids.bind (Avoids.ensure (by decide)) fun _ _ => ?_
    exact Avoids.bind (timestamp_avoids _) fun _ _ => Avoids.pure
  · refine Avoids.bind (Avoids.ensure (by decide)) fun _ _ => ?_
    refine Avoids.bind (logKey_avoids _) fun _ _ => ?_
    refine Avoids.bind (logKey_avoids _) fun _ _ => ?_
    refine Avoids.bind (Avoids.ensure (by decide)) fun _ _ => ?_
    refine Avoids.bind (insertNew_avoids (by decide)) fun _ _ => ?_
    refine Avoids.bind (insertNew_avoids (by decide)) fun _ _ => ?_
    refine Avoids.bind (usdcTransfer_avoids _) fun _ _ => ?_
    refine Avoids.bind (ensureEventInPeriod_avoids (by decide)) fun _ _ => ?_
    refine Avoids.bind (protocolDeposit_avoids _) fun _ _ => ?_
    refine Avoids.bind (Avoids.ensure (by decide)) fun _ _ => ?_
    refine Avoids.bind (requireSigner_avoids _ _) fun _ _ => ?_
    exact Avoids.bind (timestamp_avoids _) fun _ _ => Avoids.pure
  · exact Avoids.err (by decide)

/-- The step of a funding avoids both errors about missing fundings. -/
theorem fundingStep_avoids (state : FundingSummary × UsedLogs) (evidence : FundingEvidence) :
    Avoids (fundingStep lib input resolver state evidence) := by
  refine Avoids.bind (Avoids.ensure (by decide)) fun _ _ => ?_
  refine Avoids.bind (checkFunding_avoids _ _) fun checked _ => ?_
  have hcredit : Avoids (state.1.credit evidence.buyer checked.1) := by
    unfold FundingSummary.credit
    split
    · refine Avoids.bind (Avoids.okOr (by decide)) fun _ _ => ?_
      exact Avoids.bind (Avoids.okOr (by decide)) fun _ _ => Avoids.pure
    · exact Avoids.ok
  exact Avoids.bind hcredit fun _ _ => Avoids.pure

/-- Verifying ledgers avoids funding errors. -/
theorem verifyLedgers_avoids (funding : FundingSummary) (settle : SettleSummary) :
    Avoids (verifyLedgers lib input resolver funding settle) := by
  refine Avoids.bind (Avoids.ensure (by decide)) fun _ _ => ?_
  apply Avoids.forM
  intro witness
  exact Avoids.bind (storageValue_avoids _ _ _ _) fun _ _ => Avoids.ensure (by decide)

/-- The step of a hop avoids funding errors. -/
theorem hopStep_avoids (earliest : U64) (state : PathState) (hop : LogRef × ℕ) :
    Avoids (hopStep lib input resolver earliest state hop) := by
  refine Avoids.bind (logKey_avoids _) fun _ _ => ?_
  refine Avoids.bind (insertNew_avoids (by decide)) fun _ _ => ?_
  refine Avoids.bind (usdcTransfer_avoids _) fun _ _ => ?_
  refine Avoids.bind (ensureEventInPeriod_avoids (by decide)) fun _ _ => ?_
  refine Avoids.bind (timestamp_avoids _) fun _ _ => ?_
  refine Avoids.bind (Avoids.ensure (by decide)) fun _ _ => ?_
  refine Avoids.bind (Avoids.ensure (by decide)) fun _ _ => ?_
  refine Avoids.bind (Avoids.ensure (by decide)) fun _ _ => ?_
  refine Avoids.bind ?_ fun _ _ => Avoids.pure
  unfold pathFirstTime
  split
  · exact Avoids.bind (Avoids.ensure (by decide)) fun _ _ => Avoids.pure
  · exact Avoids.bind (Avoids.ensure (by decide)) fun _ _ => Avoids.pure

/-- Verifying returns avoids funding errors. -/
theorem verifyReturns_avoids (settle : SettleSummary) (used : UsedLogs) :
    Avoids (verifyReturns lib input resolver settle used) := by
  unfold verifyReturns
  split
  · exact Avoids.ensure (by decide)
  · refine Avoids.bind (Avoids.ensure (by decide)) fun _ _ => ?_
    refine Avoids.bind (Avoids.foldlM ?_ _) fun _ _ => Avoids.ensure (by decide)
    intro state path _
    refine Avoids.bind (Avoids.ensure (by decide)) fun _ _ => ?_
    refine Avoids.bind (Avoids.foldlM (fun _ _ _ => hopStep_avoids _ _ _) _) fun _ _ => ?_
    refine Avoids.bind (Avoids.ensure (by decide)) fun _ _ => ?_
    exact Avoids.bind (Avoids.okOr (by decide)) fun _ _ => Avoids.pure

/-- The transfer that stands for a funding in dollars. -/
def FundingKind.transfer? : FundingKind → Option LogRef
  | .usdc transfer => some transfer
  | .protocolDeposit transfer _ => some transfer
  | .native .. => none

/-- A funding stands in a block before a time. -/
def FundedBefore (resolver : ChainResolver) (input : ClosedLoopInput) (buyer : Address)
    (time : U64) : Prop :=
  ∃ evidence ∈ input.fundings, evidence.buyer = buyer ∧ ∃ transfer funded,
    evidence.kind.transfer? = some transfer ∧ resolver.timestamp transfer = .ok funded ∧
      funded < time

/-- Where every buyer has a funding, none is missing. -/
theorem verifyFundings_avoids
    (h : ∀ buyer ∈ input.buyers, ∃ evidence ∈ input.fundings, evidence.buyer = buyer) :
    Avoids (verifyFundings lib input resolver ∅) := by
  refine Avoids.bind (Avoids.ensure (by decide)) fun _ _ => ?_
  refine Avoids.bind (Avoids.foldlM (fun _ _ _ => fundingStep_avoids _ _) _) fun state hrun => ?_
  refine Avoids.bind (Avoids.ensure_of ?_) fun _ _ => Avoids.pure
  obtain ⟨fs, hall, _, hstate⟩ :=
    fundingStep_refines.run_sound fundingState_empty fundingsOk_nil hrun
  rw [everyBuyer_iff hstate]
  intro buyer hbuyer
  obtain ⟨evidence, hevidence, hsame⟩ := h buyer hbuyer
  obtain ⟨f, hf, hfunding⟩ := forall₂_exists_right hall hevidence
  exact ⟨f, hf, hfunding.buyer_eq.trans hsame⟩

/-- What was funded before a time was recorded with an earlier time. -/
theorem earliestTime_lt {funding : FundingSummary × UsedLogs} {buyer : Address}
    {time funded : U64} (hstate : verifyFundings lib input resolver ∅ = .ok funding)
    (hbefore : FundedBefore resolver input buyer time)
    (hrecorded : funding.1.earliestTime[buyer]? = some funded) : funded < time := by
  obtain ⟨fs, hall, _, _, hstate⟩ := verifyFundings_sound hstate
  obtain ⟨evidence, hevidence, rfl, transfer, paid, htransfer, hpaid, hearlier⟩ := hbefore
  obtain ⟨f, hf, hfunding⟩ := forall₂_exists_right hall hevidence
  have htime : f.time = paid.val := by
    cases hfunding with
    | usdc htransferAt _ _ _ =>
      obtain rfl := Option.some.inj htransfer
      obtain ⟨t, ht, hread⟩ := htransferAt.time
      rw [← ht, Except.ok.inj (hread.symm.trans hpaid)]
    | protocolDeposit hdeposit =>
      obtain rfl := Option.some.inj htransfer
      obtain ⟨t, ht, hread⟩ := hdeposit.transfer.time
      rw [← ht, Except.ok.inj (hread.symm.trans hpaid)]
  have hmin := hstate.earliest evidence.buyer
  rw [hrecorded, Option.map_some, Loop.earliestFunding, eq_comm, List.min?_eq_some_iff] at hmin
  have hle := hmin.2 f.time (List.mem_map_of_mem (List.mem_filter.mpr
    ⟨hf, decide_eq_true hfunding.buyer_eq⟩))
  rw [htime] at hle
  exact Fin.lt_def.mpr (hle.trans_lt hearlier)

/-- A settlement that is read names its buyer in its third topic. -/
theorem settlement_topic {ref : LogRef} {channel : B256} {buyer seller : Address} {amount : U128}
    {number : U64}
    (h : resolver.settlement lib ref = .ok (channel, buyer, seller, amount, number)) :
    ∃ log receipt block word, resolver.log lib ref = .ok (log, receipt, block) ∧
      log.topics[2]? = some word ∧ buyer = topicAddress word := by
  simp only [ChainResolver.settlement, ChainResolver.event, bind_eq_ok, pure_eq_ok, Prod.exists,
    Prod.mk.injEq, indexAt, okOr_eq_ok] at h
  obtain ⟨_, _, ⟨log, receipt, block, hlog, _, _, _, _, _, _, rfl, _⟩, _, _, word, hword, _, _, _,
    _, _, _, _, _, _, rfl, _⟩ := h
  exact ⟨log, receipt, block, word, hlog, hword, rfl⟩

/-- Every settlement of the input follows a funding of its buyer. -/
def FollowsFunding (lib : Lib) (input : ClosedLoopInput) : Prop :=
  ∀ ref ∈ input.settlements, ∃ log receipt block buyer,
    ChainResolver.log lib ⟨input.blocks⟩ ref = .ok (log, receipt, block) ∧
      log.topics[2]? = some (addrTopic buyer) ∧
      FundedBefore ⟨input.blocks⟩ input buyer block.header.timestamp

/-- An input whose buyers are funded and whose settlements follow their fundings is not rejected
for its fundings. -/
theorem verifyClosedLoop_avoids
    (hfunded : ∀ buyer ∈ input.buyers, ∃ evidence ∈ input.fundings, evidence.buyer = buyer)
    (hfollows : FollowsFunding lib input) : Avoids (verifyClosedLoop lib input) := by
  refine Avoids.bind (Avoids.ensure (by decide)) fun _ _ => ?_
  refine Avoids.bind (Avoids.ensure (by decide)) fun _ _ => ?_
  refine Avoids.bind (Avoids.ensure (by decide)) fun _ _ => ?_
  refine Avoids.bind (Avoids.bind (Avoids.ensure (by decide))
    fun _ _ => Avoids.ensure (by decide)) fun _ _ => ?_
  refine Avoids.bind (Avoids.ensure (by decide)) fun _ _ => ?_
  refine Avoids.bind (authenticateBlocks_avoids _ _ _ _) fun _ _ => ?_
  refine Avoids.bind (verifyFundings_avoids hfunded) fun funding hfunding => ?_
  have hsettle : Avoids (verifySettlements lib input ⟨input.blocks⟩ funding.1 funding.2) := by
    refine Avoids.bind (Avoids.ensure (by decide)) fun _ _ => ?_
    refine Avoids.foldlM (fun state ref href => ?_) _
    refine Avoids.bind (logKey_avoids _) fun _ _ => ?_
    refine Avoids.bind (insertNew_avoids (by decide)) fun _ _ => ?_
    refine Avoids.bind (settlement_avoids _) fun settled hsettled => ?_
    refine Avoids.bind (ensureEventInPeriod_avoids (by decide)) fun _ _ => ?_
    refine Avoids.bind (Avoids.ensure (by decide)) fun _ _ => ?_
    refine Avoids.bind (timestamp_avoids _) fun time htime => ?_
    refine Avoids.bind Avoids.okOr_panic fun funded hrecorded => ?_
    rw [okOr_eq_ok] at hrecorded
    -- the one check that could fail with the text, and which this settlement meets
    have hlater : funded < time := by
      obtain ⟨log, receipt, block, buyer, hlog, htopic, hbefore⟩ := hfollows ref href
      obtain ⟨log', _, _, word, hlog', hword, hbuyer⟩ := settlement_topic hsettled
      obtain ⟨rfl, _⟩ := Prod.mk.inj (Except.ok.inj (hlog.symm.trans hlog'))
      obtain rfl : addrTopic buyer = word := Option.some.inj (htopic.symm.trans hword)
      have hsame : settled.2.1 = buyer := hbuyer.trans (topicAddress_addrTopic buyer)
      have hread : time = block.header.timestamp := by
        obtain ⟨hblock, _⟩ := ChainResolver.log_eq_ok.mp hlog
        simp only [ChainResolver.timestamp, ChainResolver.block, bind_eq_ok, okOr_eq_ok,
          pure_eq_ok] at htime
        obtain ⟨other, hother, rfl⟩ := htime
        rw [Option.some.inj (hother.symm.trans hblock)]
      rw [hsame] at hrecorded
      rw [hread]
      exact earliestTime_lt hfunding hbefore hrecorded
    refine Avoids.bind (Avoids.ensure_of hlater) fun _ _ => ?_
    refine Avoids.bind (Avoids.okOr (by decide)) fun _ _ => ?_
    exact Avoids.bind (Avoids.okOr (by decide)) fun _ _ => Avoids.pure
  refine Avoids.bind hsettle fun _ _ => ?_
  refine Avoids.bind (Avoids.ensure (by decide)) fun _ _ => ?_
  refine Avoids.bind (verifyLedgers_avoids _ _) fun _ _ => ?_
  refine Avoids.bind (verifyReturns_avoids _ _) fun _ _ => ?_
  refine Avoids.bind (Avoids.bind (Avoids.mapError fun e => ?_) fun _ _ => Avoids.pure)
    fun _ _ => Avoids.pure
  exact append_not_mem (by decide)

end Predicate

end LoopProof
