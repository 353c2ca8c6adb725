import LoopProof.Correctness.ClosedLoop
import LoopProof.Correctness.Reciprocal
import LoopProof.Loop.Order

/-!
# Relocated references

Resolution reads a block's number, its time, one receipt and the transactions of that
receipt's index. Two resolvers that agree on those answer every reference alike, wherever
the blocks and receipts are stored.
-/

namespace LoopProof

variable {lib : Lib} {resolver resolver' : ChainResolver} {move : LogRef → LogRef}

/-- Blocks that answer alike for receipts at the given indexes. -/
structure AnswersAlike (i j : Usize) (b b' : EvidenceBlock) : Prop where
  number : b'.header.number = b.header.number
  timestamp : b'.header.timestamp = b.header.timestamp
  receipt : b'.receipts[j.val]? = b.receipts[i.val]?
  transactions : b'.transactions.Perm b.transactions

/-- How references move between two resolvers that store the same evidence. -/
structure Relocation (resolver resolver' : ChainResolver) (move : LogRef → LogRef) : Prop where
  log : ∀ ref, (move ref).log = ref.log
  block : ∀ ref, Option.Rel (AnswersAlike ref.receipt (move ref).receipt)
    resolver.blocks[ref.block.val]? resolver'.blocks[(move ref).block.val]?
  sameReceipt : ∀ ref ref', ((move ref).block = (move ref').block ∧
    (move ref).receipt = (move ref').receipt) ↔ ref.block = ref'.block ∧ ref.receipt = ref'.receipt

/-! ## Signers -/

/-- The transaction decodes to an envelope of the expected signer. -/
def signedBy (lib : Lib) (expected : Address) (proof : TransactionProof) : Outcome Unit := do
  let (envelope, bytes) ← (lib.decode2718 proof.value).mapError
    fun e => .err s!"transaction decode: {e}"
  ensure (bytes = []) (.err "transaction has trailing bytes")
  let signer ← okOr (lib.recoverSigner envelope) (.err "transaction signer recovery failed")
  ensure (signer = expected) (.err "transaction signer mismatch")

/-- The signer check of the only candidate; no candidate and several candidates fail. -/
def soleSigner (lib : Lib) (expected : Address) : List TransactionProof → Outcome Unit
  | [] => .error (.err "authenticated transaction missing for receipt")
  | [proof] => signedBy lib expected proof
  | _ => .error (.err "duplicate authenticated transaction for receipt")

/-- The only transaction is signed by the sender. -/
theorem soleSigner_eq_ok {expected : Address} {ts : List TransactionProof} :
    soleSigner lib expected ts = .ok () ↔ ∃ t, ts = [t] ∧ signedBy lib expected t = .ok () := by
  match ts with
  | [] => simp [soleSigner]
  | [t] => simp [soleSigner]
  | t :: t' :: ts => simp [soleSigner]

/-- The signer check reads only the transactions of the receipt's index. -/
theorem requireSigner_eq {expected : Address} {ref : LogRef} {b : EvidenceBlock}
    (hb : resolver.block ref.block = .ok b) :
    resolver.requireSigner lib expected ref = resolver.log lib ref >>= fun found =>
      soleSigner lib expected (b.transactions.filter (·.txIndex = found.2.1.txIndex)) := by
  have hlog : ∀ {log : ParsedLog} {receipt : ReceiptProof} {block : EvidenceBlock},
      resolver.log lib ref = .ok (log, receipt, block) → block = b := by
    intro log receipt block hlog
    have hblock := (ChainResolver.log_eq_ok.mp hlog).1
    rw [ChainResolver.block, okOr_eq_ok] at hb
    exact Option.some.inj (hblock.symm.trans hb)
  unfold ChainResolver.requireSigner ChainResolver.transactionForLog
  cases hrun : resolver.log lib ref with
  | error failure => simp only [error_bind]
  | ok found =>
    obtain ⟨log, receipt, block⟩ := found
    obtain rfl := hlog hrun
    have hfst : (block.transactions.zipIdx.filter (·.1.txIndex = receipt.txIndex)).map Prod.fst =
        block.transactions.filter (·.txIndex = receipt.txIndex) := by
      nth_rewrite 2 [← List.zipIdx_map_fst 0 block.transactions]
      rw [List.filter_map]
      rfl
    simp only [ok_bind, ← hfst]
    cases hcandidates : block.transactions.zipIdx.filter (·.1.txIndex = receipt.txIndex) with
    | nil => simp only [error_bind, List.map_nil, soleSigner]
    | cons first rest =>
      obtain ⟨proof, position⟩ := first
      cases rest with
      | nil =>
        have hmem : (proof, position) ∈ block.transactions.zipIdx :=
          List.mem_of_mem_filter (hcandidates ▸ List.mem_singleton_self _)
        have hat := List.mk_mem_zipIdx_iff_getElem?.mp hmem
        simp only [pure_bind, List.map_cons, List.map_nil, soleSigner, signedBy,
          ChainResolver.decodedTransaction, ChainResolver.transaction, hb, ok_bind, hat, okOr,
          bind_assoc]
      | cons second rest => simp only [error_bind, List.map_cons, soleSigner]

/-- The order of the transactions does not matter to the check of the sender. -/
theorem soleSigner_perm {expected : Address} {ts us : List TransactionProof} (h : ts.Perm us) :
    soleSigner lib expected ts = soleSigner lib expected us := by
  match ts, us, h with
  | [], us, h => rw [h.nil_eq]
  | [t], us, h => rw [List.singleton_perm.mp h]
  | t :: t' :: ts, us, h =>
    have hlen := h.length_eq
    match us, hlen with
    | u :: u' :: us, _ => rfl

/-! ## Reads -/

namespace Relocation

variable (h : Relocation resolver resolver' move) (ref : LogRef)
include h

/-- A reference is out of range on both sides, or finds alike blocks. -/
theorem cases : (resolver.block ref.block = .error (.err "block reference out of range") ∧
      resolver'.block (move ref).block = .error (.err "block reference out of range")) ∨
    ∃ b b', resolver.block ref.block = .ok b ∧ resolver'.block (move ref).block = .ok b' ∧
      AnswersAlike ref.receipt (move ref).receipt b b' := by
  have hrel := h.block ref
  unfold ChainResolver.block
  cases hb : resolver.blocks[ref.block.val]? with
  | none =>
    cases hb' : resolver'.blocks[(move ref).block.val]? with
    | none => exact .inl ⟨rfl, rfl⟩
    | some b' =>
      rw [hb, hb'] at hrel
      cases hrel
  | some b =>
    cases hb' : resolver'.blocks[(move ref).block.val]? with
    | none =>
      rw [hb, hb'] at hrel
      cases hrel
    | some b' =>
      rw [hb, hb'] at hrel
      cases hrel with
      | some halike => exact .inr ⟨b, b', rfl, rfl, halike⟩

/-- A moved reference has the same position. -/
theorem logKey_eq : resolver'.logKey lib (move ref) = resolver.logKey lib ref := by
  unfold ChainResolver.logKey ChainResolver.log ChainResolver.receipt
  rcases h.cases ref with ⟨hb, hb'⟩ | ⟨b, b', hb, hb', halike⟩
  · simp only [hb, hb', error_bind]
  · simp only [hb, hb', ok_bind, halike.receipt, halike.number, h.log, bind_assoc, pure_bind]

/-- A moved reference has the same time. -/
theorem timestamp_eq : resolver'.timestamp (move ref) = resolver.timestamp ref := by
  unfold ChainResolver.timestamp
  rcases h.cases ref with ⟨hb, hb'⟩ | ⟨b, b', hb, hb', halike⟩
  · rw [hb, hb']
  · rw [hb, hb', ok_bind, ok_bind, halike.timestamp]

/-- A moved reference resolves to the same transfer. -/
theorem usdcTransfer_eq :
    resolver'.usdcTransfer lib (move ref) = resolver.usdcTransfer lib ref := by
  unfold ChainResolver.usdcTransfer ChainResolver.event ChainResolver.log ChainResolver.receipt
  rcases h.cases ref with ⟨hb, hb'⟩ | ⟨b, b', hb, hb', halike⟩
  · simp only [hb, hb', error_bind]
  · simp only [hb, hb', ok_bind, halike.receipt, halike.number, h.log, bind_assoc, pure_bind]

/-- A moved reference resolves to the same settlement. -/
theorem settlement_eq : resolver'.settlement lib (move ref) = resolver.settlement lib ref := by
  unfold ChainResolver.settlement ChainResolver.event ChainResolver.log ChainResolver.receipt
  rcases h.cases ref with ⟨hb, hb'⟩ | ⟨b, b', hb, hb', halike⟩
  · simp only [hb, hb', error_bind]
  · simp only [hb, hb', ok_bind, halike.receipt, halike.number, h.log, bind_assoc, pure_bind]

/-- A moved reference resolves to the same deposit. -/
theorem protocolDeposit_eq :
    resolver'.protocolDeposit lib (move ref) = resolver.protocolDeposit lib ref := by
  unfold ChainResolver.protocolDeposit ChainResolver.event ChainResolver.log ChainResolver.receipt
  rcases h.cases ref with ⟨hb, hb'⟩ | ⟨b, b', hb, hb', halike⟩
  · simp only [hb, hb', error_bind]
  · simp only [hb, hb', ok_bind, halike.receipt, halike.number, h.log, bind_assoc, pure_bind]

/-- A moved reference has the same sender. -/
theorem requireSigner_eq (expected : Address) :
    resolver'.requireSigner lib expected (move ref) = resolver.requireSigner lib expected ref := by
  rcases h.cases ref with ⟨hb, hb'⟩ | ⟨b, b', hb, hb', halike⟩
  · simp only [ChainResolver.requireSigner, ChainResolver.transactionForLog, ChainResolver.log,
      ChainResolver.receipt, hb, hb', error_bind]
  · rw [LoopProof.requireSigner_eq hb, LoopProof.requireSigner_eq hb']
    simp only [ChainResolver.log, ChainResolver.receipt, hb, hb', ok_bind, halike.receipt, h.log,
      bind_assoc, pure_bind, soleSigner_perm (halike.transactions.filter _)]

/-! ## Items -/

/-- A moved reference names the same transfer. -/
theorem transferAt_iff {t : Loop.Transfer Address LogKey} :
    TransferAt lib resolver' (move ref) t ↔ TransferAt lib resolver ref t := by
  constructor
  · rintro ⟨hkey, hevent, htime⟩
    rw [h.logKey_eq] at hkey
    rw [h.usdcTransfer_eq] at hevent
    rw [h.timestamp_eq] at htime
    exact ⟨hkey, hevent, htime⟩
  · rintro ⟨hkey, hevent, htime⟩
    rw [← h.logKey_eq] at hkey
    rw [← h.usdcTransfer_eq] at hevent
    rw [← h.timestamp_eq] at htime
    exact ⟨hkey, hevent, htime⟩

/-- A moved reference names the same settlement. -/
theorem settlementAt_iff {s : Loop.Settlement Address LogKey} :
    SettlementAt lib resolver' (move ref) s ↔ SettlementAt lib resolver ref s := by
  constructor
  · rintro ⟨hkey, hevent, htime⟩
    rw [h.logKey_eq] at hkey
    rw [h.settlement_eq] at hevent
    rw [h.timestamp_eq] at htime
    exact ⟨hkey, hevent, htime⟩
  · rintro ⟨hkey, hevent, htime⟩
    rw [← h.logKey_eq] at hkey
    rw [← h.settlement_eq] at hevent
    rw [← h.timestamp_eq] at htime
    exact ⟨hkey, hevent, htime⟩

/-- Moved references name the same deposit. -/
theorem depositAt_iff {deposited : LogRef} {payer buyer : Address}
    {t : Loop.Transfer Address LogKey} {key : LogKey} :
    DepositAt lib resolver' (move ref) (move deposited) payer buyer t key ↔
      DepositAt lib resolver ref deposited payer buyer t key := by
  constructor
  · rintro ⟨hreceipt, htransfer, hkey, hordered, hsender, hrecipient, hevent, hpos, hsigner⟩
    rw [h.sameReceipt] at hreceipt
    rw [h.transferAt_iff] at htransfer
    rw [h.logKey_eq] at hkey
    rw [h.protocolDeposit_eq] at hevent
    rw [h.requireSigner_eq] at hsigner
    exact ⟨hreceipt, htransfer, hkey, hordered, hsender, hrecipient, hevent, hpos, hsigner⟩
  · rintro ⟨hreceipt, htransfer, hkey, hordered, hsender, hrecipient, hevent, hpos, hsigner⟩
    rw [← h.sameReceipt] at hreceipt
    rw [← h.transferAt_iff] at htransfer
    rw [← h.logKey_eq] at hkey
    rw [← h.protocolDeposit_eq] at hevent
    rw [← h.requireSigner_eq] at hsigner
    exact ⟨hreceipt, htransfer, hkey, hordered, hsender, hrecipient, hevent, hpos, hsigner⟩

/-- A moved path has the same hops. -/
theorem pathAt_iff {path : ReturnPath} {hops : List (Loop.Transfer Address LogKey)} :
    PathAt lib resolver' ⟨path.transfers.map move⟩ hops ↔ PathAt lib resolver path hops := by
  unfold PathAt
  rw [List.forall₂_map_left_iff]
  simp only [h.transferAt_iff]

end Relocation

/-- A funding entry moves with its logs; the legacy shape carries no log. -/
inductive FundingMoved (move : LogRef → LogRef) : FundingEvidence → FundingEvidence → Prop
  | usdc (buyer : Address) (ref : LogRef) :
      FundingMoved move ⟨buyer, .usdc ref⟩ ⟨buyer, .usdc (move ref)⟩
  | protocolDeposit (buyer : Address) (ref deposited : LogRef) :
      FundingMoved move ⟨buyer, .protocolDeposit ref deposited⟩
        ⟨buyer, .protocolDeposit (move ref) (move deposited)⟩
  | native (buyer : Address) (t t' : TransactionRef) (r r' : ReceiptRef) :
      FundingMoved move ⟨buyer, .native t r⟩ ⟨buyer, .native t' r'⟩

/-- Moved evidence names the same funding. -/
theorem Relocation.fundingAt_iff (h : Relocation resolver resolver' move) {funder : Address}
    {evidence evidence' : FundingEvidence} (hmoved : FundingMoved move evidence evidence')
    {f : Loop.Funding Address LogKey} :
    FundingAt lib resolver' funder evidence' f ↔ FundingAt lib resolver funder evidence f := by
  cases hmoved with
  | usdc buyer ref =>
    constructor
    · rintro ⟨htransfer, hsender, hrecipient, hpos⟩
      exact .usdc ((h.transferAt_iff ref).mp htransfer) hsender hrecipient hpos
    · rintro ⟨htransfer, hsender, hrecipient, hpos⟩
      exact .usdc ((h.transferAt_iff ref).mpr htransfer) hsender hrecipient hpos
  | protocolDeposit buyer ref deposited =>
    constructor
    · rintro ⟨⟩
      rename_i hdeposit
      exact .protocolDeposit ((h.depositAt_iff ref).mp hdeposit)
    · rintro ⟨⟩
      rename_i hdeposit
      exact .protocolDeposit ((h.depositAt_iff ref).mpr hdeposit)
  | native buyer t t' r r' =>
    constructor <;> rintro ⟨⟩

/-- Moved evidence names the same deposit of a pair. -/
theorem Relocation.pairDepositAt_iff (h : Relocation resolver resolver' move)
    {input input' : ReciprocalInput}
    (hpair : input'.addressA = input.addressA ∧ input'.addressB = input.addressB)
    {evidence : PairDepositEvidence} {d : Loop.Funding Address LogKey} :
    PairDepositAt lib resolver' input'
        ⟨evidence.member, move evidence.transfer, move evidence.deposited⟩ d ↔
      PairDepositAt lib resolver input evidence d := by
  constructor
  · rintro ⟨hmember, t, key, hsender, hdeposit, rfl⟩
    rw [hpair.1, hpair.2] at hmember hsender
    exact ⟨hmember, t, key, hsender, (h.depositAt_iff _).mp hdeposit, rfl⟩
  · rintro ⟨hmember, t, key, hsender, hdeposit, rfl⟩
    rw [← hpair.1, ← hpair.2] at hmember hsender
    exact ⟨hmember, t, key, hsender, (h.depositAt_iff _).mpr hdeposit, rfl⟩

/-! ## Claims -/

section ClosedLoop

variable {input input' : ClosedLoopInput} {e : Loop.Evidence Address LogKey}

/-- The references of one claim are those of the other, moved and reordered. -/
structure ClosedLoopReordered (move : LogRef → LogRef) (input input' : ClosedLoopInput) : Prop where
  relocation : Relocation ⟨input.blocks⟩ ⟨input'.blocks⟩ move
  funder : input'.funder = input.funder
  fundings : ∃ moved, List.Forall₂ (FundingMoved move) input.fundings moved ∧
    moved.Perm input'.fundings
  settlements : (input.settlements.map move).Perm input'.settlements
  returns : (input.returns.map fun path => (⟨path.transfers.map move⟩ : ReturnPath)).Perm
    input'.returns

/-- Reordered references resolve to reordered evidence. -/
theorem ClosedLoopResolves.reorder (hre : ClosedLoopReordered move input input')
    (h : ClosedLoopResolves lib input e) : ∃ e', e.Perm e' ∧ ClosedLoopResolves lib input' e' := by
  obtain ⟨hloc, hfunder, ⟨moved, hmoved, hfundings⟩, hsettlements, hreturns⟩ := hre
  obtain ⟨fs, hfs, hfres⟩ := forall₂_perm (forall₂_replace hmoved h.fundings
    fun _ _ _ hm hr => (hloc.fundingAt_iff hm).mpr hr) hfundings
  obtain ⟨ss, hss, hsres⟩ := forall₂_perm (List.forall₂_map_left_iff.mpr
    (h.settlements.imp fun _ _ hr => (hloc.settlementAt_iff _).mpr hr)) hsettlements
  obtain ⟨ps, hps, hpres⟩ := forall₂_perm (List.forall₂_map_left_iff.mpr
    (h.returns.imp fun _ _ hr => hloc.pathAt_iff.mpr hr)) hreturns
  exact ⟨⟨fs, ss, ps⟩, ⟨hfs, hss, hps⟩, hfunder ▸ hfres, hsres, hpres⟩

end ClosedLoop

section Reciprocal

variable {input input' : ReciprocalInput} {e : Loop.PairEvidence Address LogKey}

/-- The references of one pair claim are those of the other, moved and reordered. -/
structure ReciprocalReordered (move : LogRef → LogRef) (input input' : ReciprocalInput) :
    Prop where
  relocation : Relocation ⟨input.blocks⟩ ⟨input'.blocks⟩ move
  pair : input'.addressA = input.addressA ∧ input'.addressB = input.addressB
  settlements : (input.settlements.map move).Perm input'.settlements
  deposits : (input.internalDeposits.map fun d =>
    (⟨d.member, move d.transfer, move d.deposited⟩ : PairDepositEvidence)).Perm
      input'.internalDeposits

/-- Reordered references resolve to reordered pair evidence. -/
theorem ReciprocalResolves.reorder (hre : ReciprocalReordered move input input')
    (h : ReciprocalResolves lib input e) : ∃ e', e.Perm e' ∧ ReciprocalResolves lib input' e' := by
  obtain ⟨hloc, hpair, hsettlements, hdeposits⟩ := hre
  obtain ⟨ss, hss, hsres⟩ := forall₂_perm (List.forall₂_map_left_iff.mpr
    (h.settlements.imp fun _ _ hr => (hloc.settlementAt_iff _).mpr hr)) hsettlements
  obtain ⟨ds, hds, hdres⟩ := forall₂_perm (List.forall₂_map_left_iff.mpr
    (h.deposits.imp fun _ _ hr => (hloc.pairDepositAt_iff hpair).mpr hr)) hdeposits
  exact ⟨⟨ss, ds⟩, ⟨hss, hds⟩, hsres, hdres⟩

end Reciprocal

end LoopProof
