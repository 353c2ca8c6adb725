import LoopProof.Correctness.Seller
import LoopProof.Correctness.Receipts

/-!
# The seller verifier never panics

Every indexing, slicing and map access of the verifier is in range for every input, and
every parsing loop is fed by its own buffer: a call returns a value or an error value.
The only fact used about the item decoder is that it makes progress.
-/

namespace LoopProof

/-! ## Calls that return -/

section Returns

variable {α β σ : Type}

/-- The call yields a value or an error value: no panic, and no loop running dry. -/
def Returns (x : Outcome α) : Prop :=
  ∀ failure, x = .error failure → ∃ message, failure = .err message

/-- A result is returned. -/
theorem Returns.ok {a : α} : Returns (.ok a) := by
  intro failure h
  cases h

/-- A value is returned. -/
theorem Returns.pure {a : α} : Returns (pure a) := Returns.ok

/-- An error is returned. -/
theorem Returns.err {message : String} : Returns (.error (.err message) : Outcome α) := by
  intro failure h
  cases h
  exact ⟨message, rfl⟩

/-- A sequence returns when its parts do; the second one may rely on the first. -/
theorem Returns.bind {x : Outcome α} {f : α → Outcome β} (hx : Returns x)
    (hf : ∀ a, x = .ok a → Returns (f a)) : Returns (x >>= f) := by
  intro failure h
  rcases bind_eq_error.mp h with h | ⟨a, ha, h⟩
  · exact hx failure h
  · exact hf a ha failure h

/-- A check returns. -/
theorem Returns.ensure {c : Prop} [Decidable c] {message : String} :
    Returns (ensure c (.err message : Failure)) := by
  intro failure h
  rw [ensure_eq_error] at h
  exact ⟨message, h.2.symm⟩

/-- A missing value is an error that is returned. -/
theorem Returns.okOr {a : Option α} {message : String} :
    Returns (okOr a (.err message : Failure)) := by
  cases a with
  | none => exact Returns.err
  | some a => exact Returns.ok

/-- An error of a library becomes an error value. -/
theorem Returns.mapError {x : Except String α} {f : String → String} :
    Returns (x.mapError fun e => .err (f e)) := by
  cases x with
  | error e => exact Returns.err
  | ok a => exact Returns.ok

/-- Rewording an error value leaves an error value. -/
theorem Returns.mapErr {x : Outcome α} {f : String → String} (hx : Returns x) :
    Returns (x.mapError (.mapErr f)) := by
  cases x with
  | ok a => exact Returns.ok
  | error failure =>
    obtain ⟨message, rfl⟩ := hx failure rfl
    exact Returns.err

/-- A loop over a list returns if each of its steps does. -/
theorem Returns.foldlM {step : σ → α → Outcome σ} (hstep : ∀ s a, Returns (step s a))
    (inputs : List α) (s : σ) : Returns (inputs.foldlM step s) := by
  intro failure h
  obtain ⟨s', a, _, hfail⟩ := foldlM_eq_error h
  exact hstep s' a failure hfail

/-- An index within the list returns. -/
theorem Returns.indexAt {site : String} {xs : List α} {i : ℕ} (h : i < xs.length) :
    Returns (indexAt site xs i) := by
  rw [LoopProof.indexAt, List.getElem?_eq_getElem h]
  exact Returns.ok

/-- A slice within the list returns. -/
theorem Returns.sliceAt {site : String} {xs : List α} {lo hi : ℕ} (h : lo ≤ hi ∧ hi ≤ xs.length) :
    Returns (sliceAt site xs lo hi) := by
  rw [LoopProof.sliceAt, if_pos h]
  exact Returns.ok

/-- A word is read from at most 32 bytes. -/
theorem Returns.u256FromBeSlice {bytes : Bytes} (h : bytes.length ≤ 32) :
    Returns (u256FromBeSlice bytes) := by
  rw [LoopProof.u256FromBeSlice, if_pos h]
  exact Returns.ok

end Returns

/-! ## Items and receipts -/

/-- The item decoder consumes its input: a decoded header is followed by its payload in the
buffer, and at least one byte belongs to the item. -/
def DecodesProgress (lib : CoreLib) : Prop :=
  ∀ buf h rest, lib.rlpHeader buf = .ok (h, rest) → rest.length < buf.length + h.payloadLength

/-- The canonical decoder makes progress. -/
theorem canonicalHeader_progress {buf rest : Bytes} {h : RlpHeader}
    (hok : canonicalHeader buf = .ok (h, rest)) : rest.length < buf.length + h.payloadLength := by
  have hchecked : ∀ {list n body}, checkedHeader list n body = .ok (h, rest) → rest = body := by
    intro list n body hbody
    unfold checkedHeader at hbody
    split at hbody
    · cases hbody
    · cases hbody
      rfl
  have hlong : ∀ {list k body}, longHeader list k body = .ok (h, rest) →
      rest.length ≤ body.length := by
    intro list k body hbody
    unfold longHeader at hbody
    split at hbody
    · cases hbody
    · split at hbody
      · cases hbody
      · split at hbody
        · cases hbody
        · rw [hchecked hbody, List.length_drop]
          omega
  cases buf with
  | nil => cases hok
  | cons b body =>
    rw [List.length_cons]
    simp only [canonicalHeader] at hok
    split at hok
    · cases hok
      exact Nat.lt_succ_self _
    · split at hok
      · split at hok
        · cases hok
        · have := congrArg List.length (hchecked hok)
          omega
      · split at hok
        · have := hlong hok
          omega
        · split at hok
          · have := congrArg List.length (hchecked hok)
            omega
          · have := hlong hok
            omega

variable {lib : CoreLib}

/-- Reading the next item returns. -/
theorem nextItem_returns (buf : Bytes) : Returns (nextItem lib buf) := by
  refine Returns.bind Returns.mapError fun header _ => ?_
  obtain ⟨h, rest⟩ := header
  refine Returns.bind Returns.ensure fun _ hlen => ?_
  rw [ensure_eq_ok] at hlen
  refine Returns.bind (Returns.sliceAt ⟨Nat.zero_le _, hlen⟩) fun _ _ => ?_
  exact Returns.bind (Returns.sliceAt ⟨hlen, le_rfl⟩) fun _ _ => Returns.pure

/-- The buffer shrinks with every item. -/
theorem nextItem_shrinks (hlib : DecodesProgress lib) {buf : Bytes} {item : Item}
    (h : nextItem lib buf = .ok item) : item.rest.length < buf.length := by
  simp only [nextItem, bind_eq_ok, mapError_eq_ok, ensure_eq_ok, pure_eq_ok, Prod.exists] at h
  obtain ⟨header, rest, hheader, _, hlen, payload, _, tail, htail, rfl⟩ := h
  have hprogress := hlib buf header rest hheader
  rw [sliceAt, if_pos ⟨hlen, le_rfl⟩] at htail
  cases htail
  simp only [List.length_take, List.length_drop]
  omega

/-- Reading the body of a receipt returns. -/
theorem receiptBody_returns (receipt : Bytes) : Returns (receiptBody lib receipt) := by
  refine Returns.bind (nextItem_returns _) fun _ _ => ?_
  exact Returns.bind Returns.ensure fun _ _ => Returns.pure

/-- Reading the status of a receipt returns. -/
theorem receiptSuccess_returns (receipt : Bytes) : Returns (receiptSuccess lib receipt) := by
  refine Returns.bind (receiptBody_returns receipt) fun _ _ => ?_
  exact Returns.bind (nextItem_returns _) fun _ _ => Returns.pure

/-- A hash is read from exactly 32 bytes. -/
theorem b256FromSlice_returns {bytes : Bytes} (h : bytes.length = 32) :
    Returns (b256FromSlice bytes) := by
  rw [b256FromSlice, if_pos h]
  exact Returns.ok

/-- The topic loop never outlives its buffer. -/
theorem topicsLoop_returns (hlib : DecodesProgress lib) {fuel : ℕ} {buf : Bytes}
    (hfuel : buf.length ≤ fuel) (topics : List B256) :
    Returns (topicsLoop lib fuel buf topics) := by
  induction fuel generalizing buf topics with
  | zero =>
    cases buf with
    | nil => exact Returns.ok
    | cons b rest => exact absurd hfuel (by simp)
  | succ fuel ih =>
    cases buf with
    | nil => exact Returns.ok
    | cons b rest =>
      refine Returns.bind (nextItem_returns _) fun item hitem => ?_
      have hshrinks := nextItem_shrinks hlib hitem
      refine Returns.bind Returns.ensure fun _ hlen => ?_
      rw [ensure_eq_ok] at hlen
      exact Returns.bind (b256FromSlice_returns hlen) fun _ _ => ih (by omega) _

/-- Parsing a log returns: its topics are read with enough fuel. -/
theorem parseLog_returns (hlib : DecodesProgress lib) (log : Bytes) :
    Returns (parseLog lib log) := by
  refine Returns.bind (nextItem_returns _) fun addr _ => ?_
  refine Returns.bind Returns.ensure fun _ hlen => ?_
  rw [ensure_eq_ok] at hlen
  refine Returns.bind (nextItem_returns _) fun topics _ => ?_
  refine Returns.bind Returns.ensure fun _ _ => ?_
  refine Returns.bind (topicsLoop_returns hlib le_rfl []) fun _ _ => ?_
  refine Returns.bind (nextItem_returns _) fun _ _ => ?_
  have haddress : Returns (addressFromSlice addr.payload) := by
    rw [addressFromSlice, if_pos hlen]
    exact Returns.ok
  exact Returns.bind haddress fun _ _ => Returns.pure

/-- Looking for a log returns, since every log takes bytes of the rest. -/
theorem receiptLogLoop_returns (hlib : DecodesProgress lib) (logIndex : Usize) {fuel : ℕ}
    {buf : Bytes} (hfuel : buf.length ≤ fuel) (i : ℕ) :
    Returns (receiptLogLoop lib logIndex fuel buf i) := by
  induction fuel generalizing buf i with
  | zero =>
    cases buf with
    | nil => exact Returns.err
    | cons b rest => exact absurd hfuel (by simp)
  | succ fuel ih =>
    cases buf with
    | nil => exact Returns.err
    | cons b rest =>
      refine Returns.bind (nextItem_returns _) fun item hitem => ?_
      have hshrinks := nextItem_shrinks hlib hitem
      refine Returns.bind Returns.ensure fun _ _ => ?_
      by_cases heq : i = logIndex.val
      · rw [if_pos heq]
        exact parseLog_returns hlib _
      · rw [if_neg heq]
        exact ih (by omega) _

/-- Reading a log of a receipt returns. -/
theorem receiptLog_returns (hlib : DecodesProgress lib) (receipt : Bytes) (logIndex : Usize) :
    Returns (receiptLog lib receipt logIndex) := by
  refine Returns.bind (receiptBody_returns receipt) fun _ _ => ?_
  refine Returns.bind (nextItem_returns _) fun _ _ => ?_
  refine Returns.bind (nextItem_returns _) fun _ _ => ?_
  refine Returns.bind (nextItem_returns _) fun _ _ => ?_
  refine Returns.bind (nextItem_returns _) fun _ _ => ?_
  refine Returns.bind Returns.ensure fun _ _ => ?_
  exact receiptLogLoop_returns hlib logIndex le_rfl 0

/-! ## Storage proofs -/

/-- Reading the items of a node returns, since every item takes bytes of the rest. -/
theorem nodeItemsLoop_returns (hlib : DecodesProgress lib) {fuel : ℕ} {node : Bytes}
    (hfuel : node.length ≤ fuel) (items : List Bytes) :
    Returns (nodeItemsLoop lib fuel node items) := by
  induction fuel generalizing node items with
  | zero =>
    cases node with
    | nil => exact Returns.ok
    | cons b rest => exact absurd hfuel (by simp)
  | succ fuel ih =>
    cases node with
    | nil => exact Returns.ok
    | cons b rest =>
      refine Returns.bind (nextItem_returns _) fun item hitem => ?_
      have hshrinks := nextItem_shrinks hlib hitem
      exact ih (by omega) _

/-- Reading the value of a leaf returns. -/
theorem leafValue_returns (hlib : DecodesProgress lib) (proof : List Bytes) :
    Returns (leafValue lib proof) := by
  refine Returns.bind Returns.okOr fun last _ => ?_
  refine Returns.bind (nextItem_returns _) fun node _ => ?_
  refine Returns.bind Returns.ensure fun _ _ => ?_
  refine Returns.bind (nodeItemsLoop_returns hlib le_rfl []) fun items _ => ?_
  split
  · rename_i hlen
    refine Returns.bind (Returns.indexAt (by omega)) fun path _ => ?_
    refine Returns.bind Returns.ensure fun _ hpath => ?_
    rw [ensure_eq_ok] at hpath
    refine Returns.bind (Returns.indexAt (List.length_pos_iff.mpr hpath)) fun head _ => ?_
    refine Returns.bind Returns.ensure fun _ _ => ?_
    exact Returns.indexAt (by omega)
  · exact Returns.err
  · exact Returns.err

/-- A lookup in a trie returns for any proof. -/
theorem mptGet_returns (hlib : DecodesProgress lib) (root : B256) (key : Nibbles)
    (proof : List Bytes) : Returns (mptGet lib root key proof) := by
  unfold mptGet
  split
  · exact Returns.ok
  · refine Returns.bind (leafValue_returns hlib proof) fun _ _ => ?_
    exact Returns.bind Returns.mapError fun _ _ => Returns.pure

/-- Reading the storage root of an account returns. -/
theorem decodeAccountStorageRoot_returns (accountRlp : Bytes) :
    Returns (decodeAccountStorageRoot lib accountRlp) := by
  refine Returns.bind (nextItem_returns _) fun _ _ => ?_
  refine Returns.bind Returns.ensure fun _ _ => ?_
  refine Returns.bind (nextItem_returns _) fun _ _ => ?_
  refine Returns.bind (nextItem_returns _) fun _ _ => ?_
  refine Returns.bind (nextItem_returns _) fun _ _ => ?_
  refine Returns.bind Returns.ensure fun _ hlen => ?_
  rw [ensure_eq_ok] at hlen
  exact b256FromSlice_returns hlen

/-- Reading a slot returns for any proof. -/
theorem verifyStorageValue_returns (hlib : DecodesProgress lib) (stateRoot : B256)
    (address : Address) (slot : B256) (proof : StorageProof) :
    Returns (verifyStorageValue lib stateRoot address slot proof) := by
  refine Returns.bind (mptGet_returns hlib _ _ _).mapErr fun account _ => ?_
  cases account with
  | none => exact Returns.bind Returns.ensure fun _ _ => Returns.pure
  | some rlp =>
    refine Returns.bind (decodeAccountStorageRoot_returns rlp).mapErr fun storageRoot _ => ?_
    by_cases hempty : storageRoot = emptyTrieRoot
    · rw [if_pos hempty]
      exact Returns.bind Returns.ensure fun _ _ => Returns.pure
    · rw [if_neg hempty]
      refine Returns.bind (mptGet_returns hlib _ _ _).mapErr fun value _ => ?_
      cases value with
      | none => exact Returns.pure
      | some valueRlp =>
        refine Returns.bind (nextItem_returns _) fun item _ => ?_
        refine Returns.bind Returns.ensure fun _ hlen => ?_
        rw [ensure_eq_ok] at hlen
        exact Returns.u256FromBeSlice hlen.2.2

/-! ## References -/

section Resolver

variable {lib : Lib} {resolver : ChainResolver}

open ChainResolver

/-- Resolving a block returns. -/
theorem block_returns (index : Usize) : Returns (resolver.block index) := Returns.okOr

/-- Resolving a log returns. -/
theorem log_returns (hlib : DecodesProgress lib.toCoreLib) (ref : LogRef) :
    Returns (resolver.log lib ref) := by
  have hreceipt : Returns (resolver.receipt ⟨ref.block, ref.receipt⟩) := by
    refine Returns.bind (block_returns _) fun _ _ => ?_
    exact Returns.bind Returns.okOr fun _ _ => Returns.pure
  refine Returns.bind hreceipt fun _ _ => ?_
  refine Returns.bind (receiptSuccess_returns _) fun _ _ => ?_
  refine Returns.bind Returns.ensure fun _ _ => ?_
  exact Returns.bind (receiptLog_returns hlib _ _) fun _ _ => Returns.pure

/-- Resolving the position of a log returns. -/
theorem logKey_returns (hlib : DecodesProgress lib.toCoreLib) (ref : LogRef) :
    Returns (resolver.logKey lib ref) :=
  Returns.bind (log_returns hlib ref) fun _ _ => Returns.pure

/-- Resolving the time of a log returns. -/
theorem timestamp_returns (ref : LogRef) : Returns (resolver.timestamp ref) :=
  Returns.bind (block_returns _) fun _ _ => Returns.pure

/-- Checking the sender of a log returns. -/
theorem requireSigner_returns (hlib : DecodesProgress lib.toCoreLib) (expected : Address)
    (ref : LogRef) : Returns (resolver.requireSigner lib expected ref) := by
  have htransaction : Returns (resolver.transactionForLog lib ref) := by
    refine Returns.bind (log_returns hlib ref) fun _ _ => ?_
    dsimp only
    split
    · exact Returns.err
    · exact Returns.pure
    · exact Returns.err
  refine Returns.bind htransaction fun transaction _ => ?_
  refine Returns.bind ?_ fun _ _ => Returns.ensure
  have hproof : Returns (resolver.transaction transaction) := by
    refine Returns.bind (block_returns _) fun _ _ => ?_
    exact Returns.bind Returns.okOr fun _ _ => Returns.pure
  refine Returns.bind hproof fun _ _ => ?_
  refine Returns.bind Returns.mapError fun _ _ => ?_
  refine Returns.bind Returns.ensure fun _ _ => ?_
  exact Returns.bind Returns.okOr fun _ _ => Returns.pure

/-- An event log carries the topics and the data its decoder indexes. -/
theorem event_shape {contract : Address} {topicCount : ℕ} {signature : B256} {sized : ℕ → Bool}
    {mismatch : String} {ref : LogRef} {log : ParsedLog} {block : EvidenceBlock}
    (h : resolver.event lib contract topicCount signature sized mismatch ref = .ok (log, block)) :
    log.topics.length = topicCount ∧ sized log.data.length = true := by
  simp only [event, bind_eq_ok, ensure_eq_ok, pure_eq_ok, Prod.exists, Prod.mk.injEq] at h
  obtain ⟨_, _, _, _, _, hshape, _, _, _, hsized, rfl, _⟩ := h
  exact ⟨hshape.2, hsized.2⟩

/-- Resolving an event returns: its topics are there before they are read. -/
theorem event_returns (hlib : DecodesProgress lib.toCoreLib) {contract : Address}
    {topicCount : ℕ} {signature : B256} {sized : ℕ → Bool} {mismatch : String} {ref : LogRef}
    (hcount : 0 < topicCount) :
    Returns (resolver.event lib contract topicCount signature sized mismatch ref) := by
  refine Returns.bind (log_returns hlib ref) fun _ _ => ?_
  refine Returns.bind Returns.ensure fun _ hshape => ?_
  rw [ensure_eq_ok] at hshape
  refine Returns.bind (Returns.indexAt (hshape.2.symm ▸ hcount)) fun _ _ => ?_
  exact Returns.bind Returns.ensure fun _ _ => Returns.pure

/-- Resolving a transfer returns. -/
theorem usdcTransfer_returns (hlib : DecodesProgress lib.toCoreLib) (ref : LogRef) :
    Returns (resolver.usdcTransfer lib ref) := by
  refine Returns.bind (event_returns hlib (by decide)) fun logged hevent => ?_
  obtain ⟨hcount, hsized⟩ := event_shape hevent
  refine Returns.bind (Returns.indexAt (by omega)) fun _ _ => ?_
  refine Returns.bind (Returns.indexAt (by omega)) fun _ _ => ?_
  refine Returns.bind (Returns.u256FromBeSlice (beq_iff_eq.mp hsized).le) fun _ _ => ?_
  exact Returns.bind Returns.okOr fun _ _ => Returns.pure

/-- Resolving a settlement returns. -/
theorem settlement_returns (hlib : DecodesProgress lib.toCoreLib) (ref : LogRef) :
    Returns (resolver.settlement lib ref) := by
  refine Returns.bind (event_returns hlib (by decide)) fun logged hevent => ?_
  obtain ⟨hcount, hsized⟩ := event_shape hevent
  have hdata : 64 ≤ logged.1.data.length := of_decide_eq_true hsized
  refine Returns.bind (Returns.indexAt (by omega)) fun _ _ => ?_
  refine Returns.bind (Returns.indexAt (by omega)) fun _ _ => ?_
  refine Returns.bind (Returns.indexAt (by omega)) fun _ _ => ?_
  refine Returns.bind (Returns.sliceAt ⟨by decide, hdata⟩) fun delta hdelta => ?_
  have hlen : delta.length ≤ 32 := by
    rw [sliceAt, if_pos ⟨by decide, hdata⟩] at hdelta
    cases hdelta
    exact List.length_take_le _ _
  refine Returns.bind (Returns.u256FromBeSlice hlen) fun _ _ => ?_
  exact Returns.bind Returns.okOr fun _ _ => Returns.pure

/-- Resolving a deposit returns. -/
theorem protocolDeposit_returns (hlib : DecodesProgress lib.toCoreLib) (ref : LogRef) :
    Returns (resolver.protocolDeposit lib ref) := by
  refine Returns.bind (event_returns hlib (by decide)) fun logged hevent => ?_
  obtain ⟨hcount, hsized⟩ := event_shape hevent
  refine Returns.bind (Returns.indexAt (by omega)) fun _ _ => ?_
  refine Returns.bind (Returns.u256FromBeSlice (beq_iff_eq.mp hsized).le) fun _ _ => ?_
  exact Returns.bind Returns.okOr fun _ _ => Returns.pure

/-- Resolving a slot returns. -/
theorem storageValue_returns (hlib : DecodesProgress lib.toCoreLib) (read : StateRead)
    (expectedBlock : U64) (contract : Address) (slot : B256) :
    Returns (resolver.storageValue lib read expectedBlock contract slot) := by
  refine Returns.bind (block_returns _) fun _ _ => ?_
  refine Returns.bind Returns.ensure fun _ _ => ?_
  exact verifyStorageValue_returns hlib _ _ _ _

/-- Recording a log returns. -/
theorem insertNew_returns (used : UsedLogs) (key : LogKey) (duplicate : String) :
    Returns (used.insertNew key duplicate) := by
  unfold UsedLogs.insertNew
  split
  · exact Returns.err
  · exact Returns.ok

end Resolver

/-! ## Predicates -/

section Predicates

variable {lib : Lib}

/-- Authenticating the items of a block returns if each of them does. -/
theorem authenticateItems_returns {α : Type} {index : α → U64} {verify : α → Outcome Unit}
    {duplicate : String} (hverify : ∀ item, Returns (verify item)) (seen : Finset U64)
    (items : List α) : Returns (authenticateItems index verify duplicate seen items) := by
  induction items generalizing seen with
  | nil => exact Returns.ok
  | cons item items ih =>
    refine Returns.bind Returns.ensure fun _ _ => ?_
    exact Returns.bind (hverify item) fun _ _ => ih _

/-- Authenticating all blocks returns. -/
theorem authenticateBlocks_returns (core : CoreLib) (blocks : List EvidenceBlock)
    (periodStart periodEnd : U64) :
    Returns (authenticateBlocks core blocks periodStart periodEnd) := by
  have hlist : ∀ numbers,
      Returns (authenticateBlockList core periodStart periodEnd numbers blocks) := by
    induction blocks with
    | nil => exact fun _ => Returns.ok
    | cons block blocks ih =>
      intro numbers
      refine Returns.bind Returns.ensure fun _ _ => ?_
      refine Returns.bind Returns.ensure fun _ _ => ?_
      refine Returns.bind (authenticateItems_returns (fun _ => Returns.mapError) _ _) fun _ _ => ?_
      refine Returns.bind (authenticateItems_returns (fun _ => Returns.mapError) _ _) fun _ _ => ?_
      exact Returns.bind (ih _) fun _ _ => Returns.pure
  refine Returns.bind Returns.ensure fun _ _ => ?_
  exact Returns.bind (hlist ∅) fun _ _ => Returns.pure

/-- Hashing the evidence returns. -/
theorem canonicalEvidenceHash_returns (core : CoreLib) (json : Except String Bytes) :
    Returns (canonicalEvidenceHash core json) :=
  Returns.bind Returns.mapError fun _ _ => Returns.pure

section ClosedLoop

variable {input : ClosedLoopInput} {resolver : ChainResolver}

/-- Checking a funding returns. -/
theorem checkFunding_returns (hlib : DecodesProgress lib.toCoreLib) (used : UsedLogs)
    (evidence : FundingEvidence) : Returns (checkFunding lib input resolver used evidence) := by
  unfold checkFunding
  split
  · refine Returns.bind (logKey_returns hlib _) fun _ _ => ?_
    refine Returns.bind (insertNew_returns _ _ _) fun _ _ => ?_
    refine Returns.bind (usdcTransfer_returns hlib _) fun _ _ => ?_
    refine Returns.bind Returns.ensure fun _ _ => ?_
    refine Returns.bind Returns.ensure fun _ _ => ?_
    exact Returns.bind (timestamp_returns _) fun _ _ => Returns.pure
  · refine Returns.bind Returns.ensure fun _ _ => ?_
    refine Returns.bind (logKey_returns hlib _) fun _ _ => ?_
    refine Returns.bind (logKey_returns hlib _) fun _ _ => ?_
    refine Returns.bind Returns.ensure fun _ _ => ?_
    refine Returns.bind (insertNew_returns _ _ _) fun _ _ => ?_
    refine Returns.bind (insertNew_returns _ _ _) fun _ _ => ?_
    refine Returns.bind (usdcTransfer_returns hlib _) fun _ _ => ?_
    refine Returns.bind Returns.ensure fun _ _ => ?_
    refine Returns.bind (protocolDeposit_returns hlib _) fun _ _ => ?_
    refine Returns.bind Returns.ensure fun _ _ => ?_
    refine Returns.bind (requireSigner_returns hlib _ _) fun _ _ => ?_
    exact Returns.bind (timestamp_returns _) fun _ _ => Returns.pure
  · exact Returns.err

/-- The step of a funding returns. -/
theorem fundingStep_returns (hlib : DecodesProgress lib.toCoreLib)
    (state : FundingSummary × UsedLogs) (evidence : FundingEvidence) :
    Returns (fundingStep lib input resolver state evidence) := by
  refine Returns.bind Returns.ensure fun _ _ => ?_
  refine Returns.bind (checkFunding_returns hlib _ _) fun checked _ => ?_
  have hcredit : Returns (state.1.credit evidence.buyer checked.1) := by
    unfold FundingSummary.credit
    split
    · refine Returns.bind Returns.okOr fun _ _ => ?_
      exact Returns.bind Returns.okOr fun _ _ => Returns.pure
    · exact Returns.ok
  exact Returns.bind hcredit fun _ _ => Returns.pure

/-- Verifying all fundings returns. -/
theorem verifyFundings_returns (hlib : DecodesProgress lib.toCoreLib) (used : UsedLogs) :
    Returns (verifyFundings lib input resolver used) := by
  refine Returns.bind Returns.ensure fun _ _ => ?_
  refine Returns.bind (Returns.foldlM (fundingStep_returns hlib) _ _) fun _ _ => ?_
  exact Returns.bind Returns.ensure fun _ _ => Returns.pure

/-- Accepted fundings know a time for every buyer of the cohort. -/
theorem verifyFundings_times {used used' : UsedLogs} {funding : FundingSummary}
    (h : verifyFundings lib input resolver used = .ok (funding, used')) {buyer : Address}
    (hbuyer : buyer ∈ input.buyers) : ∃ time, funding.earliestTime[buyer]? = some time := by
  simp only [verifyFundings, bind_eq_ok, ensure_eq_ok, pure_eq_ok, Prod.exists,
    Prod.mk.injEq] at h
  obtain ⟨_, _, _, _, _, _, hall, rfl, _⟩ := h
  have hcontains := List.all_eq_true.mp hall buyer hbuyer
  exact ⟨_, Std.ExtTreeMap.getElem?_eq_some_getElem (Std.ExtTreeMap.mem_iff_contains.mpr hcontains)⟩

/-- The map index of a settlement is guarded by its cohort check. -/
theorem settlementStep_returns (hlib : DecodesProgress lib.toCoreLib) {funding : FundingSummary}
    (htimes : ∀ buyer ∈ input.buyers, ∃ time, funding.earliestTime[buyer]? = some time)
    (state : SettleSummary × UsedLogs) (ref : LogRef) :
    Returns (settlementStep lib input resolver funding state ref) := by
  refine Returns.bind (logKey_returns hlib _) fun _ _ => ?_
  refine Returns.bind (insertNew_returns _ _ _) fun _ _ => ?_
  refine Returns.bind (settlement_returns hlib _) fun settled _ => ?_
  refine Returns.bind Returns.ensure fun _ _ => ?_
  refine Returns.bind Returns.ensure fun _ hcohort => ?_
  rw [ensure_eq_ok] at hcohort
  refine Returns.bind (timestamp_returns _) fun _ _ => ?_
  have hfunded : Returns (okOr funding.earliestTime[settled.2.1]?
      (.panic "funding.earliest_time[&buyer]")) := by
    obtain ⟨time, htime⟩ := htimes settled.2.1 hcohort.2.1
    rw [htime]
    exact Returns.ok
  refine Returns.bind hfunded fun _ _ => ?_
  refine Returns.bind Returns.ensure fun _ _ => ?_
  refine Returns.bind Returns.okOr fun _ _ => ?_
  exact Returns.bind Returns.okOr fun _ _ => Returns.pure

/-- Verifying all ledgers returns. -/
theorem verifyLedgers_returns (hlib : DecodesProgress lib.toCoreLib) (funding : FundingSummary)
    (settle : SettleSummary) : Returns (verifyLedgers lib input resolver funding settle) := by
  refine Returns.bind Returns.ensure fun _ _ => ?_
  generalize input.buyers.zip input.ledgers = witnesses
  induction witnesses with
  | nil => exact Returns.pure
  | cons witness witnesses ih =>
    refine Returns.bind ?_ fun _ _ => ih
    exact Returns.bind (storageValue_returns hlib _ _ _ _) fun _ _ => Returns.ensure

/-- The step of a hop returns. -/
theorem hopStep_returns (hlib : DecodesProgress lib.toCoreLib) (earliest : U64)
    (state : PathState) (hop : LogRef × ℕ) :
    Returns (hopStep lib input resolver earliest state hop) := by
  refine Returns.bind (logKey_returns hlib _) fun _ _ => ?_
  refine Returns.bind (insertNew_returns _ _ _) fun _ _ => ?_
  refine Returns.bind (usdcTransfer_returns hlib _) fun _ _ => ?_
  refine Returns.bind Returns.ensure fun _ _ => ?_
  refine Returns.bind (timestamp_returns _) fun _ _ => ?_
  refine Returns.bind Returns.ensure fun _ _ => ?_
  refine Returns.bind Returns.ensure fun _ _ => ?_
  refine Returns.bind Returns.ensure fun _ _ => ?_
  refine Returns.bind ?_ fun _ _ => Returns.pure
  unfold pathFirstTime
  split
  · exact Returns.bind Returns.ensure fun _ _ => Returns.pure
  · exact Returns.bind Returns.ensure fun _ _ => Returns.pure

/-- Verifying all returns of the claim returns. -/
theorem verifyReturns_returns (hlib : DecodesProgress lib.toCoreLib) (settle : SettleSummary)
    (used : UsedLogs) : Returns (verifyReturns lib input resolver settle used) := by
  unfold verifyReturns
  split
  · exact Returns.ensure
  · refine Returns.bind Returns.ensure fun _ _ => ?_
    refine Returns.bind (Returns.foldlM ?_ _ _) fun _ _ => Returns.ensure
    intro state path
    refine Returns.bind Returns.ensure fun _ _ => ?_
    refine Returns.bind (Returns.foldlM (hopStep_returns hlib _) _ _) fun _ _ => ?_
    refine Returns.bind Returns.ensure fun _ _ => ?_
    exact Returns.bind Returns.okOr fun _ _ => Returns.pure

/-- The closed-loop predicate returns for any input. -/
theorem verifyClosedLoop_returns (hlib : DecodesProgress lib.toCoreLib) :
    Returns (verifyClosedLoop lib input) := by
  refine Returns.bind Returns.ensure fun _ _ => ?_
  refine Returns.bind Returns.ensure fun _ _ => ?_
  refine Returns.bind Returns.ensure fun _ _ => ?_
  refine Returns.bind (Returns.bind Returns.ensure fun _ _ => Returns.ensure) fun _ _ => ?_
  refine Returns.bind Returns.ensure fun _ _ => ?_
  refine Returns.bind (authenticateBlocks_returns _ _ _ _) fun _ _ => ?_
  refine Returns.bind (verifyFundings_returns hlib _) fun funded hfunded => ?_
  obtain ⟨funding, used⟩ := funded
  have htimes : ∀ buyer ∈ input.buyers, ∃ time, funding.earliestTime[buyer]? = some time :=
    fun _ hbuyer => verifyFundings_times hfunded hbuyer
  have hsettle : Returns (verifySettlements lib input ⟨input.blocks⟩ funding used) := by
    refine Returns.bind Returns.ensure fun _ _ => ?_
    exact Returns.foldlM (settlementStep_returns hlib htimes) _ _
  refine Returns.bind hsettle fun _ _ => ?_
  refine Returns.bind Returns.ensure fun _ _ => ?_
  refine Returns.bind (verifyLedgers_returns hlib _ _) fun _ _ => ?_
  refine Returns.bind (verifyReturns_returns hlib _ _) fun _ _ => ?_
  exact Returns.bind (canonicalEvidenceHash_returns _ _) fun _ _ => Returns.pure

end ClosedLoop

section Reciprocal

variable {input : ReciprocalInput} {resolver : ChainResolver}

/-- The step of a settlement of a pair returns. -/
theorem pairSettlementStep_returns (hlib : DecodesProgress lib.toCoreLib)
    (state : PairMeasure × UsedLogs) (ref : LogRef) :
    Returns (pairSettlementStep lib input resolver state ref) := by
  refine Returns.bind (logKey_returns hlib _) fun _ _ => ?_
  refine Returns.bind (insertNew_returns _ _ _) fun _ _ => ?_
  refine Returns.bind (settlement_returns hlib _) fun _ _ => ?_
  refine Returns.bind Returns.ensure fun _ _ => ?_
  refine Returns.bind Returns.ensure fun _ _ => ?_
  refine Returns.bind ?_ fun _ _ => Returns.pure
  unfold PairMeasure.sell
  split
  · exact Returns.bind Returns.okOr fun _ _ => Returns.pure
  · split
    · exact Returns.bind Returns.okOr fun _ _ => Returns.pure
    · exact Returns.err

/-- The step of a deposit of a pair returns. -/
theorem pairDepositStep_returns (hlib : DecodesProgress lib.toCoreLib) (state : U128 × UsedLogs)
    (evidence : PairDepositEvidence) :
    Returns (pairDepositStep lib input resolver state evidence) := by
  refine Returns.bind Returns.ensure fun _ _ => ?_
  refine Returns.bind Returns.ensure fun _ _ => ?_
  refine Returns.bind (logKey_returns hlib _) fun _ _ => ?_
  refine Returns.bind (logKey_returns hlib _) fun _ _ => ?_
  refine Returns.bind Returns.ensure fun _ _ => ?_
  refine Returns.bind (insertNew_returns _ _ _) fun _ _ => ?_
  refine Returns.bind (insertNew_returns _ _ _) fun _ _ => ?_
  refine Returns.bind (usdcTransfer_returns hlib _) fun _ _ => ?_
  refine Returns.bind Returns.ensure fun _ _ => ?_
  refine Returns.bind (protocolDeposit_returns hlib _) fun _ _ => ?_
  refine Returns.bind Returns.ensure fun _ _ => ?_
  refine Returns.bind (requireSigner_returns hlib _ _) fun _ _ => ?_
  exact Returns.bind Returns.okOr fun _ _ => Returns.pure

/-- The reciprocal predicate returns for any input. -/
theorem verifyReciprocal_returns (hlib : DecodesProgress lib.toCoreLib) :
    Returns (verifyReciprocal lib input) := by
  refine Returns.bind Returns.ensure fun _ _ => ?_
  refine Returns.bind Returns.ensure fun _ _ => ?_
  refine Returns.bind Returns.ensure fun _ _ => ?_
  refine Returns.bind (authenticateBlocks_returns _ _ _ _) fun _ _ => ?_
  refine Returns.bind Returns.ensure fun _ _ => ?_
  refine Returns.bind (Returns.foldlM (pairSettlementStep_returns hlib) _ _) fun _ _ => ?_
  refine Returns.bind Returns.okOr fun _ _ => ?_
  refine Returns.bind Returns.ensure fun _ _ => ?_
  refine Returns.bind (Returns.foldlM (pairDepositStep_returns hlib) _ _) fun _ _ => ?_
  refine Returns.bind (storageValue_returns hlib _ _ _ _) fun _ _ => ?_
  refine Returns.bind (storageValue_returns hlib _ _ _ _) fun _ _ => ?_
  refine Returns.bind Returns.ensure fun _ _ => ?_
  exact Returns.bind (canonicalEvidenceHash_returns _ _) fun _ _ => Returns.pure

end Reciprocal

end Predicates

/-! ## The seller verifier -/

section Seller

variable {lib : Lib}

/-- Validating the evidence of a seller returns. -/
theorem validateEvidence_returns (journal : WashJournal) (seller : Address)
    (periodStart periodEnd : U64) (settlements : SettlementMap) (refs : BlockRefMap) :
    Returns (validateEvidence journal seller periodStart periodEnd settlements refs) := by
  refine Returns.bind Returns.ensure fun _ _ => ?_
  refine Returns.bind Returns.okOr fun _ _ => ?_
  refine Returns.bind Returns.ensure fun _ _ => ?_
  refine Returns.bind (Returns.foldlM ?_ _ _) fun _ _ => ?_
  · intro state record
    refine Returns.bind Returns.ensure fun _ _ => ?_
    refine Returns.bind Returns.okOr fun _ _ => ?_
    exact Returns.bind Returns.ensure fun _ _ => Returns.pure
  refine Returns.bind Returns.ensure fun _ _ => ?_
  refine Returns.bind (Returns.foldlM ?_ _ _) fun _ _ => Returns.pure
  intro state reference
  refine Returns.bind Returns.ensure fun _ _ => ?_
  exact Returns.bind Returns.ensure fun _ _ => Returns.pure

/-- Reading the total volume returns. -/
theorem verifyTotalVolume_returns (hlib : DecodesProgress lib.toCoreLib)
    (input : SellerProofInput) (refs : BlockRefMap) :
    Returns (verifyTotalVolume lib.toCoreLib input refs) := by
  refine Returns.bind ?_ fun _ _ => ?_
  · refine Returns.bind Returns.ensure fun _ _ => ?_
    refine Returns.bind (verifyStorageValue_returns hlib _ _ _ _) fun _ _ => ?_
    refine Returns.bind (verifyStorageValue_returns hlib _ _ _ _) fun _ _ => ?_
    exact Returns.bind Returns.okOr fun _ _ => Returns.pure
  refine Returns.bind Returns.ensure fun _ _ => ?_
  exact Returns.bind Returns.ensure fun _ _ => Returns.pure

/-- The siblings of every level are in range, because the checked references have a tree. -/
theorem blockAuthenticationChunks_returns (core : CoreLib) (refs : List HistoricalBlockRef) :
    Returns (blockAuthenticationChunks core refs) := by
  by_cases hvalid : ValidRefs refs
  · obtain ⟨built, hbuilt, _⟩ := blockAuthenticationChunks_spec core hvalid
    rw [hbuilt]
    exact Returns.ok
  · refine Returns.bind Returns.ensure fun _ hne => ?_
    rw [ensure_eq_ok] at hne
    refine Returns.bind Returns.ensure fun _ hchecks => ?_
    rw [ensure_eq_ok] at hchecks
    exact absurd ⟨hne, anyZero_eq_false.mp hchecks.1, outOfOrder_eq_false.mp hchecks.2⟩ hvalid

/-- The verification of a seller returns for any input: the chunks it authenticates are indexed
within their bounds. -/
theorem verifySeller_returns (hlib : DecodesProgress lib.toCoreLib) (input : SellerProofInput) :
    Returns (verifySeller lib input) := by
  refine Returns.bind Returns.ensure fun _ _ => ?_
  have hevidence : Returns (verifyEvidence lib input.evidence) := by
    cases input.evidence with
    | closedLoop evidence => exact verifyClosedLoop_returns hlib
    | reciprocal evidence => exact verifyReciprocal_returns hlib
  refine Returns.bind hevidence fun _ _ => ?_
  refine Returns.bind (validateEvidence_returns _ _ _ _ _ _) fun _ _ => ?_
  refine Returns.bind (verifyTotalVolume_returns hlib _ _) fun _ _ => ?_
  refine Returns.bind (Returns.foldlM (fun _ _ => Returns.okOr) _ _) fun _ _ => ?_
  refine Returns.bind Returns.ensure fun _ _ => ?_
  refine Returns.bind (blockAuthenticationChunks_returns _ _) fun _ _ => ?_
  refine Returns.bind Returns.okOr fun _ _ => ?_
  refine Returns.bind Returns.okOr fun _ _ => ?_
  exact Returns.bind Returns.okOr fun _ _ => Returns.pure

/-- The seller verifier is total: every input, however malformed, is accepted or answered
with an error value. No index, slice or map access is out of range, and no loop runs dry. -/
theorem verifySeller_total (hlib : DecodesProgress lib.toCoreLib) (input : SellerProofInput) :
    (∃ verified, verifySeller lib input = .ok verified) ∨
      ∃ message, verifySeller lib input = .error (.err message) := by
  cases h : verifySeller lib input with
  | ok verified => exact Or.inl ⟨verified, rfl⟩
  | error failure =>
    obtain ⟨message, rfl⟩ := verifySeller_returns hlib input failure h
    exact Or.inr ⟨message, rfl⟩

/-- The seller proof of the circuit, whose settlement names a log that its receipt lacks. -/
def farLogSeller : SellerProofInput :=
  { circuitSeller none with
    evidence := .closedLoop { circuitInput none with settlements := [⟨1, 0, 9⟩] } }

/-- The chain of the circuit, whose settlement log ends within its second data word. -/
def shortLogChain : List EvidenceBlock := [
  exemplarBlock 100 1000 [(12, [transferLog 12 13 100])],
  exemplarBlock 101 2000 [(13, [{ settledLog 13 11 100 with data := abiWord 100 ++ [0] }])],
  exemplarBlock 102 3000 [(11, [transferLog 11 12 30])]]

/-- A seller's input with a log whose data is too short. -/
def shortLogSeller : SellerProofInput :=
  { circuitSeller none with
    evidence := .closedLoop { circuitInput none with blocks := shortLogChain } }

/-- Over the canonical decoder a log index out of range and a log that ends too early are answered
with error values, where the receipts and the logs are read. -/
theorem malformedSellers_answered :
    (∃ message, verifySeller (circuitExemplar none).lib farLogSeller = .error (.err message)) ∧
      ∃ message, verifySeller { circuitExemplar none with chain := shortLogChain }.lib
        shortLogSeller = .error (.err message) := by
  have hdecodes (x : Exemplar) : DecodesProgress x.lib.toCoreLib :=
    fun _ _ _ h => canonicalHeader_progress h
  have hfar : (verifySeller (circuitExemplar none).lib farLogSeller).isOk = false := by
    decide +kernel
  have hshort : (verifySeller { circuitExemplar none with chain := shortLogChain }.lib
      shortLogSeller).isOk = false := by
    decide +kernel
  constructor
  · rcases verifySeller_total (hdecodes _) farLogSeller with ⟨verified, h⟩ | h
    · rw [h] at hfar
      cases hfar
    · exact h
  · rcases verifySeller_total (hdecodes _) shortLogSeller with ⟨verified, h⟩ | h
    · rw [h] at hshort
      cases hshort
    · exact h

end Seller

end LoopProof
