import LoopProof.Core.Logs
import LoopProof.Predicate.ClosedLoop
import LoopProof.Loop.Model

/-!
# From references to resolved evidence

The relation between a reference and the abstract item it resolves to. The resolver is a
function, so an item is determined by its reference; distinctness of items is a property
of their positions, never of the references.
-/

namespace LoopProof

/-- The topic of an address is read back. -/
theorem topicAddress_addrTopic (address : Address) :
    topicAddress (addrTopic address) = address := by
  apply Fin.ext
  rw [topicAddress, Fin.val_ofNat, addrTopic, widen_val, Nat.mod_eq_of_lt address.isLt]

/-- Different addresses have different topics. -/
theorem addrTopic_injective : Function.Injective addrTopic := by
  intro a b h
  rw [← topicAddress_addrTopic a, h, topicAddress_addrTopic]

section Positions

variable {lib : Lib} {resolver : ChainResolver}

namespace ChainResolver

/-- What a resolved log reads: one carried receipt of one carried block. -/
theorem log_eq_ok {ref : LogRef} {log : ParsedLog} {receipt : ReceiptProof}
    {block : EvidenceBlock} :
    resolver.log lib ref = .ok (log, receipt, block) ↔
      resolver.blocks[ref.block.val]? = some block ∧
      block.receipts[ref.receipt.val]? = some receipt ∧
      receiptSuccess lib.toCoreLib receipt.value = .ok true ∧
      receiptLog lib.toCoreLib receipt.value ref.log = .ok log := by
  simp only [ChainResolver.log, ChainResolver.receipt, ChainResolver.block, bind_eq_ok,
    pure_eq_ok, okOr_eq_ok, ensure_eq_ok, Prod.exists, Prod.mk.injEq]
  constructor
  · rintro ⟨r, b, ⟨b', hb, r', hr, rfl, rfl⟩, success, hs, ⟨⟩, rfl, l, hl, rfl, rfl, rfl⟩
    exact ⟨hb, hr, hs, hl⟩
  · rintro ⟨hb, hr, hs, hl⟩
    exact ⟨receipt, block, ⟨block, hb, receipt, hr, rfl, rfl⟩, true, hs, (), rfl, log, hl, rfl,
      rfl, rfl⟩

/-- The position of a log is that of its block, its receipt and itself. -/
theorem logKey_eq_ok {ref : LogRef} {key : LogKey} :
    resolver.logKey lib ref = .ok key ↔ ∃ log receipt block,
      resolver.log lib ref = .ok (log, receipt, block) ∧
      key = ⟨block.header.number, receipt.txIndex, ref.log⟩ := by
  simp only [ChainResolver.logKey, bind_eq_ok, pure_eq_ok, Prod.exists]
  constructor
  · rintro ⟨log, receipt, block, h, rfl⟩
    exact ⟨log, receipt, block, h, rfl⟩
  · rintro ⟨log, receipt, block, h, rfl⟩
    exact ⟨log, receipt, block, h, rfl⟩

/-- A typed event is one resolved log of its contract. -/
theorem event_log {contract : Address} {count : ℕ} {signature : B256} {sized : ℕ → Bool}
    {mismatch : String} {ref : LogRef} {log : ParsedLog} {block : EvidenceBlock}
    (h : resolver.event lib contract count signature sized mismatch ref = .ok (log, block)) :
    ∃ receipt, resolver.log lib ref = .ok (log, receipt, block) := by
  simp only [ChainResolver.event, bind_eq_ok, pure_eq_ok, Prod.exists, Prod.mk.injEq] at h
  obtain ⟨log', receipt, block', hlog, _, _, _, _, _, _, rfl, rfl⟩ := h
  exact ⟨receipt, hlog⟩

/-- A resolved log sits at the number of the block its event was read from. -/
theorem log_block {ref : LogRef} {log : ParsedLog} {receipt : ReceiptProof}
    {block : EvidenceBlock} {key : LogKey} (hlog : resolver.log lib ref = .ok (log, receipt, block))
    (hkey : resolver.logKey lib ref = .ok key) : block.header.number = key.blockNumber := by
  obtain ⟨_, _, _, h, rfl⟩ := logKey_eq_ok.mp hkey
  cases hlog.symm.trans h
  rfl

/-- A transfer is in the block of its position. -/
theorem usdcTransfer_block {ref : LogRef} {sender recipient : Address} {amount : U128} {n : U64}
    {key : LogKey} (h : resolver.usdcTransfer lib ref = .ok (sender, recipient, amount, n))
    (hkey : resolver.logKey lib ref = .ok key) : n = key.blockNumber := by
  simp only [ChainResolver.usdcTransfer, bind_eq_ok, pure_eq_ok, Prod.exists, Prod.mk.injEq] at h
  obtain ⟨log, block, hevent, _, _, _, _, _, _, _, _, _, _, _, rfl⟩ := h
  obtain ⟨receipt, hlog⟩ := event_log hevent
  exact log_block hlog hkey

/-- A settlement is in the block of its position. -/
theorem settlement_block {ref : LogRef} {channel : B256} {buyer seller : Address}
    {amount : U128} {n : U64} {key : LogKey}
    (h : resolver.settlement lib ref = .ok (channel, buyer, seller, amount, n))
    (hkey : resolver.logKey lib ref = .ok key) : n = key.blockNumber := by
  simp only [ChainResolver.settlement, bind_eq_ok, pure_eq_ok, Prod.exists, Prod.mk.injEq] at h
  obtain ⟨log, block, hevent, _, _, _, _, _, _, _, _, _, _, _, _, _, _, _, _, rfl⟩ := h
  obtain ⟨receipt, hlog⟩ := event_log hevent
  exact log_block hlog hkey

/-- Two references into one receipt share block number and transaction index. -/
theorem logKey_sameReceipt {ref ref' : LogRef} {key key' : LogKey} (hb : ref.block = ref'.block)
    (hr : ref.receipt = ref'.receipt) (hkey : resolver.logKey lib ref = .ok key)
    (hkey' : resolver.logKey lib ref' = .ok key') :
    key.blockNumber = key'.blockNumber ∧ key.txIndex = key'.txIndex := by
  obtain ⟨_, _, _, h, rfl⟩ := logKey_eq_ok.mp hkey
  obtain ⟨_, _, _, h', rfl⟩ := logKey_eq_ok.mp hkey'
  obtain ⟨hblock, hreceipt, _⟩ := log_eq_ok.mp h
  obtain ⟨hblock', hreceipt', _⟩ := log_eq_ok.mp h'
  rw [← hb, hblock] at hblock'
  cases hblock'
  rw [← hr, hreceipt] at hreceipt'
  cases hreceipt'
  exact ⟨rfl, rfl⟩

end ChainResolver

end Positions

section Rule

/-- The rule the coded predicates fix. -/
def codedRule : Loop.Rule where
  fundBps := alphaFundBps.val
  returnBps := alphaReturnBps.val
  hopBps := rhoHopBps.val
  toleranceBps := epsilonLedgerBps.val
  window := tPathSeconds.val
  maxHops := hMaxIntermediateHops + 1
  maxPaths := maxReturnPaths
  amountBound := 2 ^ 128

/-- The position lies inside the enforcement period proper. -/
def EventPeriod (periodStart periodEnd : U64) (key : LogKey) : Prop :=
  periodStart ≤ key.blockNumber ∧ key.blockNumber ≤ periodEnd

end Rule

section Items

variable (lib : Lib) (resolver : ChainResolver)

/-- The reference is a USDC transfer log; the item carries its sender, recipient, amount,
position and block time. -/
structure TransferAt (ref : LogRef) (t : Loop.Transfer Address LogKey) : Prop where
  key : resolver.logKey lib ref = .ok t.position
  event : ∃ amount : U128, amount.val = t.amount ∧
    resolver.usdcTransfer lib ref = .ok (t.sender, t.recipient, amount, t.position.blockNumber)
  time : ∃ time : U64, time.val = t.time ∧ resolver.timestamp ref = .ok time

/-- The reference is a `ChannelSettled` log. -/
structure SettlementAt (ref : LogRef) (s : Loop.Settlement Address LogKey) : Prop where
  key : resolver.logKey lib ref = .ok s.position
  event : ∃ (channel : B256) (amount : U128), amount.val = s.amount ∧
    resolver.settlement lib ref =
      .ok (channel, s.buyer, s.seller, amount, s.position.blockNumber)
  time : ∃ time : U64, time.val = s.time ∧ resolver.timestamp ref = .ok time

/-- The pair of references is a transfer of `payer` into the deposits contract followed by
the equal-amount `Deposited` log of the same receipt, in a transaction the payer signed. -/
structure DepositAt (ref deposited : LogRef) (payer buyer : Address)
    (t : Loop.Transfer Address LogKey) (key : LogKey) : Prop where
  sameReceipt : ref.block = deposited.block ∧ ref.receipt = deposited.receipt
  transfer : TransferAt lib resolver ref t
  depositedKey : resolver.logKey lib deposited = .ok key
  ordered : t.position < key
  sender : t.sender = payer
  recipient : t.recipient = depositsAddress
  event : ∃ (amount : U128) (n : U64), amount.val = t.amount ∧
    resolver.protocolDeposit lib deposited = .ok (buyer, amount, n)
  positive : 0 < t.amount
  signer : resolver.requireSigner lib payer ref = .ok ()

/-- The evidence entry credits its buyer: a direct transfer of the funder, or a protocol
deposit the funder paid and signed. -/
inductive FundingAt (funder : Address) : FundingEvidence → Loop.Funding Address LogKey → Prop
  | usdc {buyer : Address} {ref : LogRef} {t : Loop.Transfer Address LogKey}
      (transfer : TransferAt lib resolver ref t) (sender : t.sender = funder)
      (recipient : t.recipient = buyer) (positive : 0 < t.amount) :
      FundingAt funder ⟨buyer, .usdc ref⟩ ⟨buyer, t.amount, t.time, [t.position]⟩
  | protocolDeposit {buyer : Address} {ref deposited : LogRef}
      {t : Loop.Transfer Address LogKey} {key : LogKey}
      (deposit : DepositAt lib resolver ref deposited funder buyer t key) :
      FundingAt funder ⟨buyer, .protocolDeposit ref deposited⟩
        ⟨buyer, t.amount, t.time, [t.position, key]⟩

/-- The references of a path, hop by hop. -/
def PathAt (path : ReturnPath) (hops : List (Loop.Transfer Address LogKey)) : Prop :=
  List.Forall₂ (TransferAt lib resolver) path.transfers hops

variable {lib resolver}

/-- A reference names one transfer. -/
theorem TransferAt.unique {ref : LogRef} {t t' : Loop.Transfer Address LogKey}
    (h : TransferAt lib resolver ref t) (h' : TransferAt lib resolver ref t') : t = t' := by
  obtain ⟨hkey, ⟨_, ha, hevent⟩, ⟨_, ht, htime⟩⟩ := h
  obtain ⟨hkey', ⟨_, ha', hevent'⟩, ⟨_, ht', htime'⟩⟩ := h'
  cases t
  cases t'
  cases hkey.symm.trans hkey'
  cases hevent.symm.trans hevent'
  cases htime.symm.trans htime'
  simp_all

/-- A reference names one settlement. -/
theorem SettlementAt.unique {ref : LogRef} {s s' : Loop.Settlement Address LogKey}
    (h : SettlementAt lib resolver ref s) (h' : SettlementAt lib resolver ref s') : s = s' := by
  obtain ⟨hkey, ⟨_, _, ha, hevent⟩, ⟨_, ht, htime⟩⟩ := h
  obtain ⟨hkey', ⟨_, _, ha', hevent'⟩, ⟨_, ht', htime'⟩⟩ := h'
  cases s
  cases s'
  cases hkey.symm.trans hkey'
  cases hevent.symm.trans hevent'
  cases htime.symm.trans htime'
  simp_all

/-- Two references name one deposit. -/
theorem DepositAt.unique {ref deposited : LogRef} {payer payer' buyer buyer' : Address}
    {t t' : Loop.Transfer Address LogKey} {key key' : LogKey}
    (h : DepositAt lib resolver ref deposited payer buyer t key)
    (h' : DepositAt lib resolver ref deposited payer' buyer' t' key') : t = t' ∧ key = key' :=
  ⟨h.transfer.unique h'.transfer, Except.ok.inj (h.depositedKey.symm.trans h'.depositedKey)⟩

/-- Evidence names one funding. -/
theorem FundingAt.unique {funder : Address} {evidence : FundingEvidence}
    {f f' : Loop.Funding Address LogKey} (h : FundingAt lib resolver funder evidence f)
    (h' : FundingAt lib resolver funder evidence f') : f = f' := by
  cases h with
  | usdc transfer _ _ _ =>
    cases h' with
    | usdc transfer' _ _ _ => rw [transfer.unique transfer']
  | protocolDeposit deposit =>
    cases h' with
    | protocolDeposit deposit' =>
      obtain ⟨rfl, rfl⟩ := deposit.unique deposit'
      rfl

/-- A path has one list of hops. -/
theorem PathAt.unique {path : ReturnPath} {hops hops' : List (Loop.Transfer Address LogKey)}
    (h : PathAt lib resolver path hops) (h' : PathAt lib resolver path hops') : hops = hops' :=
  List.right_unique_forall₂' (fun _ _ _ ht ht' => ht.unique ht') h h'

/-- Transfers are of 128 bits. -/
theorem TransferAt.amount_lt {ref : LogRef} {t : Loop.Transfer Address LogKey}
    (h : TransferAt lib resolver ref t) : t.amount < 2 ^ 128 := by
  obtain ⟨amount, ha, _⟩ := h.event
  exact ha ▸ amount.isLt

/-- Settlements are of 128 bits. -/
theorem SettlementAt.amount_lt {ref : LogRef} {s : Loop.Settlement Address LogKey}
    (h : SettlementAt lib resolver ref s) : s.amount < 2 ^ 128 := by
  obtain ⟨_, amount, ha, _⟩ := h.event
  exact ha ▸ amount.isLt

/-- Both logs of a deposit sit in one block. -/
theorem DepositAt.block_eq {ref deposited : LogRef} {payer buyer : Address}
    {t : Loop.Transfer Address LogKey} {key : LogKey}
    (h : DepositAt lib resolver ref deposited payer buyer t key) :
    t.position.blockNumber = key.blockNumber :=
  (ChainResolver.logKey_sameReceipt h.sameReceipt.1 h.sameReceipt.2 h.transfer.key
    h.depositedKey).1

/-- A funding item belongs to the buyer its evidence names. -/
theorem FundingAt.buyer_eq {funder : Address} {evidence : FundingEvidence}
    {f : Loop.Funding Address LogKey} (h : FundingAt lib resolver funder evidence f) :
    f.buyer = evidence.buyer := by
  cases h <;> rfl

/-- Native fundings are not evidence. -/
theorem FundingAt.not_native {funder : Address} {evidence : FundingEvidence}
    {f : Loop.Funding Address LogKey} (h : FundingAt lib resolver funder evidence f) :
    evidence.kind.isNative = false := by
  cases h <;> rfl

/-- Fundings are positive. -/
theorem FundingAt.amount_pos {funder : Address} {evidence : FundingEvidence}
    {f : Loop.Funding Address LogKey} (h : FundingAt lib resolver funder evidence f) :
    0 < f.amount := by
  cases h with
  | usdc _ _ _ positive => exact positive
  | protocolDeposit deposit => exact deposit.positive

/-- The time of a funding item is one block's timestamp. -/
theorem FundingAt.time_eq {funder : Address} {evidence : FundingEvidence}
    {f : Loop.Funding Address LogKey} (h : FundingAt lib resolver funder evidence f) :
    ∃ time : U64, time.val = f.time := by
  cases h with
  | usdc transfer _ _ _ => exact ⟨_, transfer.time.choose_spec.1⟩
  | protocolDeposit deposit => exact ⟨_, deposit.transfer.time.choose_spec.1⟩

end Items

end LoopProof
