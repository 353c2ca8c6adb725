import LoopProof.Core.CanonicalRlp
import LoopProof.Predicate.Seller

/-!
# Exemplary evidence

An executable instance of the third-party primitives over a small honest chain: proofs are
decided against the contents its roots commit to, so that whole claims can be evaluated.
`mptGet_content` is what such an instance guarantees for every proof.
-/

namespace LoopProof

/-- What a trie root commits to. -/
abbrev TrieContent := B256 → Nibbles → Option Bytes

/-- A proof check that decides the content of the trie, whatever nodes are offered. -/
def contentProof (content : TrieContent) (root : B256) (key : Nibbles) (value : Option Bytes)
    (_ : List Bytes) : Except String Unit :=
  if content root key = value then .ok () else .error "value mismatch"

theorem contentProof_eq_ok {content : TrieContent} {root : B256} {key : Nibbles}
    {value : Option Bytes} {proof : List Bytes} {u : Unit} :
    contentProof content root key value proof = .ok u ↔ content root key = value := by
  unfold contentProof
  split <;> simp_all

/-- A hash that is never zero and separates byte strings below its modulus. -/
def exemplarHash (bytes : Bytes) : B256 :=
  Fin.ofNat (2 ^ 256) (1 + beNat (1 :: bytes) % (2 ^ 256 - 189))

theorem exemplarHash_ne_zero (bytes : Bytes) : exemplarHash bytes ≠ 0 := by
  have hlt := Nat.mod_lt (beNat (1 :: bytes)) (show 2 ^ 256 - 189 > 0 by norm_num)
  intro h
  have hval := congrArg Fin.val h
  simp only [exemplarHash, Fin.val_ofNat, Fin.val_zero] at hval
  omega

/-- A small chain with one storage state for all of its blocks. -/
structure Exemplar where
  chain : List EvidenceBlock
  storage : List (Address × B256 × U256)

namespace Exemplar

/-- A leaf node over a hashed key, in the even-length path form. -/
def leafNode (key : B256) (value : Bytes) : Bytes :=
  rlpList [rlpBytes (0x20 :: beBytes 32 key.val), rlpBytes value]

/-- The storage root assigned to an account. -/
def storageRoot (account : Address) : B256 := Fin.ofNat (2 ^ 256) (2 ^ 200 + account.val)

/-- The encoded account: nonce, balance, storage root and code hash. -/
def encodeAccount (account : Address) : Bytes :=
  rlpList [rlpUint 1, rlpUint 0, rlpBytes (beBytes 32 (storageRoot account).val),
    rlpBytes (beBytes 32 0)]

/-- The encoded value of one slot. -/
def encodeSlot (value : U256) : Bytes := rlpBytes (significant 32 value.val)

/-- The trie key of a hashed preimage. -/
def hashedKey (bytes : Bytes) : Nibbles :=
  Nibbles.unpack (beBytes 32 (exemplarHash bytes).val)

variable (x : Exemplar)

/-- The contents of the receipt, transaction, account and storage tries. -/
def content : TrieContent := fun root key =>
  let receipts := x.chain.findSome? fun block =>
    if block.header.receiptsRoot = root then
      (block.receipts.find? fun r => Nibbles.unpack (trieIndexKey r.txIndex) == key).map (·.value)
    else none
  let transactions := x.chain.findSome? fun block =>
    if block.header.transactionsRoot = root then
      (block.transactions.find? fun t => Nibbles.unpack (trieIndexKey t.txIndex) == key).map
        (·.value)
    else none
  let account := x.chain.findSome? fun block =>
    if block.header.stateRoot = root then
      (x.storage.find? fun entry => hashedKey (beBytes 20 entry.1.val) == key).map
        fun entry => encodeAccount entry.1
    else none
  let slot := x.storage.findSome? fun entry =>
    if storageRoot entry.1 = root ∧ hashedKey (beBytes 32 entry.2.1.val) == key then
      some (encodeSlot entry.2.2)
    else none
  receipts <|> transactions <|> account <|> slot

/-- A root of no trie of the chain holds nothing. -/
theorem content_eq_none {root : B256} {key : Nibbles}
    (hblocks : ∀ block ∈ x.chain, block.header.receiptsRoot ≠ root ∧
      block.header.transactionsRoot ≠ root ∧ block.header.stateRoot ≠ root)
    (hstorage : ∀ entry ∈ x.storage, storageRoot entry.1 ≠ root) : x.content root key = none := by
  have hreceipts : ∀ f : EvidenceBlock → Option Bytes, (x.chain.findSome? fun block =>
      if block.header.receiptsRoot = root then f block else none) = none := by
    intro f
    rw [List.findSome?_eq_none_iff]
    exact fun block hblock => if_neg (hblocks block hblock).1
  have htransactions : ∀ f : EvidenceBlock → Option Bytes, (x.chain.findSome? fun block =>
      if block.header.transactionsRoot = root then f block else none) = none := by
    intro f
    rw [List.findSome?_eq_none_iff]
    exact fun block hblock => if_neg (hblocks block hblock).2.1
  have haccounts : ∀ f : EvidenceBlock → Option Bytes, (x.chain.findSome? fun block =>
      if block.header.stateRoot = root then f block else none) = none := by
    intro f
    rw [List.findSome?_eq_none_iff]
    exact fun block hblock => if_neg (hblocks block hblock).2.2
  have hslots : (x.storage.findSome? fun entry =>
      if storageRoot entry.1 = root ∧ hashedKey (beBytes 32 entry.2.1.val) == key then
        some (encodeSlot entry.2.2) else none) = none := by
    rw [List.findSome?_eq_none_iff]
    exact fun entry hentry => if_neg fun h => hstorage entry hentry h.1
  rw [content, hreceipts, htransactions, haccounts, hslots]
  rfl

/-- The primitives of the chain. Transactions are their signers' addresses. -/
def lib : Lib where
  keccak256 := exemplarHash
  hashSlow header := exemplarHash (abiWords [header.number.val, header.timestamp.val,
    header.stateRoot.val, header.transactionsRoot.val, header.receiptsRoot.val])
  rlpHeader := canonicalHeader
  verifyProof := contentProof x.content
  showAddress address := toString address
  showB256 word := toString word
  Envelope := Address
  decode2718 bytes := .ok (Fin.ofNat (2 ^ 160) (beNat bytes), [])
  recoverSigner := some
  closedLoopJson _ := .ok [0x7b, 0x7d]
  reciprocalJson _ := .ok [0x7b, 0x7d]

/-- The proof of a storage read: the account leaf, then the slot leaf when there is one. -/
def storageProof (account : Address) (slot : B256) : StorageProof where
  accountProof :=
    [leafNode (exemplarHash (beBytes 20 account.val)) (encodeAccount account)]
  storageProof := (x.storage.find? fun entry => entry.1 = account).toList.map fun _ =>
    leafNode (exemplarHash (beBytes 32 slot.val))
      (((x.storage.find? fun entry => entry.1 = account ∧ entry.2.1 = slot).map
        fun entry => encodeSlot entry.2.2).getD [])

/-- The reads of a seller's volume counter at a boundary header. -/
def totalVolume (header : Header) (seller : Address) (agent : U256) : TotalVolumeBoundary where
  header := header
  agentId := x.storageProof stakingAddress
    (mappingSlotAddress x.lib.toCoreLib seller stakingSellerAgentIdSlot)
  totalVolume := x.storageProof channelsAddress
    (slotOffset (mappingSlotU256 x.lib.toCoreLib agent channelsAgentStatsSlot)
      agentStatsTotalVolumeOffset)

end Exemplar

/-- One block of an exemplary chain: the logs of each transaction, and its signer. -/
def exemplarBlock (number timestamp : U64) (transactions : List (Address × List ParsedLog)) :
    EvidenceBlock where
  header := ⟨number, timestamp, Fin.ofNat (2 ^ 256) (1000 * number.val + 1),
    Fin.ofNat (2 ^ 256) (1000 * number.val + 2), Fin.ofNat (2 ^ 256) (1000 * number.val + 3), []⟩
  receipts := transactions.zipIdx.map fun ((_, logs), i) =>
    ⟨Fin.ofNat (2 ^ 64) i, encodeReceipt 2 1 21000 [] logs none, []⟩
  transactions := transactions.zipIdx.map fun ((signer, _), i) =>
    ⟨Fin.ofNat (2 ^ 64) i, beBytes 20 signer.val, []⟩

/-- A USDC transfer log. -/
def transferLog (sender recipient : Address) (amount : U256) : ParsedLog :=
  ⟨usdcAddress, [transferTopic, widen bits160_le_256 sender, widen bits160_le_256 recipient],
    abiWord amount.val⟩

/-- A `ChannelSettled` log with the given delta as its second data word. -/
def settledLog (buyer seller : Address) (delta : U256) : ParsedLog :=
  ⟨channelsAddress, [channelSettledTopic, 1, widen bits160_le_256 buyer,
    widen bits160_le_256 seller],
    abiWords [delta.val, delta.val]⟩

/-- A `Deposited` log. -/
def depositedLog (buyer : Address) (amount : U256) : ParsedLog :=
  ⟨depositsAddress, [depositedTopic, widen bits160_le_256 buyer], abiWord amount.val⟩

/-! ## A closed loop -/

/-- Funder 12 funds buyer 13, who settles with seller 11, who returns 30% to the funder. -/
def circuitChain : List EvidenceBlock := [
  exemplarBlock 100 1000 [(12, [transferLog 12 13 100])],
  exemplarBlock 101 2000 [(13, [settledLog 13 11 100])],
  exemplarBlock 102 3000 [(11, [transferLog 11 12 30])]]

/-- Seller 11 is agent 7 with a counted volume; the buyer keeps the given balance. -/
def circuitExemplar (balance : Option U256) : Exemplar where
  chain := circuitChain
  storage := [(stakingAddress, exemplarHash (abiWords [11, 4]), 7),
    (channelsAddress, slotOffset (exemplarHash (abiWords [7, 11])) 1, 1000)] ++
    balance.toList.map fun value =>
      (depositsAddress, slotOffset (exemplarHash (abiWords [13, 9])) 0, value)

/-- One buyer is funded, settles with the seller, and the seller pays the funder back. -/
def circuitInput (balance : Option U256) : ClosedLoopInput where
  chainId := baseChainId
  periodStartBlock := 100
  periodEndBlock := 102
  sourceClaimId := 5
  seller := 11
  funder := 12
  buyers := [13]
  blocks := circuitChain
  fundings := [⟨13, .usdc ⟨0, 0, 0⟩⟩]
  settlements := [⟨1, 0, 0⟩]
  returns := [⟨[⟨2, 0, 0⟩]⟩]
  ledgers := [⟨⟨2, (circuitExemplar balance).storageProof depositsAddress
    (slotOffset (exemplarHash (abiWords [13, 9])) 0)⟩⟩]

/-- Seller 11 proves the circuit. -/
def circuitSeller (balance : Option U256) : SellerProofInput where
  seller := 11
  periodStartBlock := 100
  periodEndBlock := 102
  totalVolume := (circuitExemplar balance).totalVolume
    (exemplarBlock 102 3000 [(11, [transferLog 11 12 30])]).header 11 7
  evidence := .closedLoop (circuitInput balance)

/-- The seller proof of the circuit proves its one settlement. -/
theorem circuitSeller_volume :
    (verifySeller (circuitExemplar none).lib (circuitSeller none)).toOption.map
      (·.journal.provenWashVolume) = some 100 := by
  decide +kernel

/-! ## A reciprocal exchange -/

/-- Member 21 deposits its own capital, then both members settle the same volume. -/
def exchangeChain : List EvidenceBlock := [
  exemplarBlock 100 1000 [(21, [transferLog 21 depositsAddress 100, depositedLog 21 100])],
  exemplarBlock 101 2000 [(21, [settledLog 22 21 50]), (22, [settledLog 21 22 50])],
  exemplarBlock 102 3000 []]

/-- Both members are agents with a counted volume; member 21 keeps the given balance. -/
def exchangeExemplar (balance : Option U256) : Exemplar where
  chain := exchangeChain
  storage := [(stakingAddress, exemplarHash (abiWords [21, 4]), 8),
    (stakingAddress, exemplarHash (abiWords [22, 4]), 9),
    (channelsAddress, slotOffset (exemplarHash (abiWords [8, 11])) 1, 1000),
    (channelsAddress, slotOffset (exemplarHash (abiWords [9, 11])) 1, 2000)] ++
    balance.toList.map fun value =>
      (depositsAddress, slotOffset (exemplarHash (abiWords [21, 9])) 0, value)

/-- Two addresses settle with each other, one of them after a deposit of its own. -/
def exchangeInput (balance : Option U256) : ReciprocalInput where
  chainId := baseChainId
  periodStartBlock := 100
  periodEndBlock := 102
  sourceClaimId := 6
  addressA := 21
  addressB := 22
  blocks := exchangeChain
  settlements := [⟨1, 0, 0⟩, ⟨1, 1, 0⟩]
  internalDeposits := [⟨21, ⟨0, 0, 0⟩, ⟨0, 0, 1⟩⟩]
  ledgerA := ⟨⟨2, (exchangeExemplar balance).storageProof depositsAddress
    (slotOffset (exemplarHash (abiWords [21, 9])) 0)⟩⟩
  ledgerB := ⟨⟨2, (exchangeExemplar balance).storageProof depositsAddress
    (slotOffset (exemplarHash (abiWords [22, 9])) 0)⟩⟩

/-- A member proves the exchange; member 21 is agent 8 and member 22 is agent 9. -/
def exchangeSeller (balance : Option U256) (seller : Address) : SellerProofInput where
  seller := seller
  periodStartBlock := 100
  periodEndBlock := 102
  totalVolume := (exchangeExemplar balance).totalVolume (exemplarBlock 102 3000 []).header seller
    (if seller = 21 then 8 else 9)
  evidence := .reciprocal (exchangeInput balance)

/-- Each member proves the volume of its own direction. -/
theorem exchangeSeller_volume {seller : Address} (h : seller = 21 ∨ seller = 22) :
    (verifySeller (exchangeExemplar none).lib (exchangeSeller none seller)).toOption.map
      (·.journal.provenWashVolume) = some 50 := by
  rcases h with rfl | rfl
  · decide +kernel
  · decide +kernel

end LoopProof
