import LoopProof.Correctness.History
import LoopProof.Correctness.PlannedInputs

/-!
# A chain told in days

A small chain whose blocks are given by the signers and logs of their transactions, with a node
that answers every question about it. Two buyers are funded in one transaction; one of them
settles in the same block, the other in the next.
-/

namespace LoopProof.Host

/-- Funder 12 funds buyers 13 and 14; buyer 13 settles with seller 11 in the same block. -/
def days : List (U64 × List (Address × List ParsedLog)) := [
  (44471600, [(12, [transferLog 12 13 100, transferLog 12 14 100]), (13, [settledLog 13 11 100])]),
  (44471601, [(14, [settledLog 14 11 100])]),
  (49936172, [])]

/-- The chain of the days. -/
def daysExemplar : Exemplar where
  chain := days.map fun (number, transactions) => exemplarBlock number number transactions
  storage := []

/-- A platform that knows the roots of the blocks of the chain. -/
def daysLib : HostLib where
  toLib := daysExemplar.lib
  Body := Bytes
  encodeRpcTransaction := .ok
  indexRoot encoded :=
    (daysExemplar.chain.findSome? fun block =>
      if block.receipts.map ReceiptProof.value = encoded then some block.header.receiptsRoot
      else if block.transactions.map TransactionProof.value = encoded then
        some block.header.transactionsRoot
      else none).getD 0
  indexProof _ _ _ := []

theorem days_wellFormed : ∀ day ∈ days,
    (∀ receipt ∈ servedReceipts 0 (day.2.map Prod.snd),
      (receipt.type < 0x80 ∧ receipt.encode.length < 2 ^ 64) ∧
        (receipt.logs ≠ [] → receipt.status = 1)) ∧
    ((servedReceipts 0 (day.2.map Prod.snd)).flatMap fun receipt =>
      receipt.logs.filterMap RpcLog.logIndex).Nodup := by
  decide +kernel

/-- A block as the node serves it. -/
def dayBlock (day : {day // day ∈ days}) : ChainBlock daysLib.Body where
  header := (exemplarBlock day.1.1 day.1.1 day.1.2).header
  receipts := servedReceipts 0 (day.1.2.map Prod.snd)
  transactions := (exemplarBlock day.1.1 day.1.1 day.1.2).transactions.map fun proof =>
    ⟨daysLib.keccak256 proof.value, proof.value⟩
  readable receipt hreceipt := ((days_wellFormed _ day.2).1 receipt hreceipt).1
  succeeded receipt hreceipt := ((days_wellFormed _ day.2).1 receipt hreceipt).2
  distinctLogs := (days_wellFormed _ day.2).2

/-- All blocks in order. -/
def dayBlocks : List (ChainBlock daysLib.Body) := days.attach.map dayBlock

/-- The history of the days. -/
def daysHistory : History daysLib.Body where
  blocks := dayBlocks
  ordered := by decide +kernel
  paired := by decide +kernel
  few := by decide +kernel
  hashed := by decide +kernel
  indexed := by decide +kernel

theorem days_timed :
    daysHistory.blocks.Pairwise fun a b => a.header.timestamp < b.header.timestamp := by
  decide +kernel

/-- A node that answers from the history. -/
def daysNode : LogNode daysLib.Body where
  getBlockByNumber number := do
    let block ← okOr (daysHistory.chain.block number) (.err "block not found")
    return ⟨daysLib.hashSlow block.header, block.header, block.transactions⟩
  getBlockReceipts number := do
    let block ← okOr (daysHistory.chain.block number) (.err "block not found")
    return block.receipts
  getProof contract slot _ :=
    .ok ⟨(daysExemplar.storageProof contract slot).accountProof, 0, []⟩
  getTransactionReceipt tx := .ok (daysHistory.receipt tx)
  getLogs filter first last := .ok (daysHistory.select filter first last)

theorem daysNode_serves : ServesLogs daysNode daysHistory where
  block number answer h := by
    simp only [daysNode, bind_eq_ok, pure_eq_ok, okOr_eq_ok] at h
    obtain ⟨found, hfound, rfl⟩ := h
    exact ⟨found, hfound, rfl, rfl⟩
  receipts number answer h := by
    simp only [daysNode, bind_eq_ok, pure_eq_ok, okOr_eq_ok] at h
    obtain ⟨found, hfound, rfl⟩ := h
    exact ⟨found, hfound, rfl⟩
  receipt tx answer h := (Except.ok.inj h).symm
  logs filter first last answer h := (Except.ok.inj h).symm

/-- The hash of the transaction of a signer. -/
def daysTx (signer : Address) : B256 := daysLib.keccak256 (beBytes 20 signer.val)

/-- A case about one buyer of the chain. -/
def daysCase (buyer : Address) : Case.CaseFile where
  seller := 11
  funder := 12
  buyers := [buyer]
  fundings := [⟨"usdc", buyer, daysTx 12⟩]
  returns := none
  maxSettlementsPerBuyer := none

end LoopProof.Host
