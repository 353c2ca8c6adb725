import LoopProof.Core.State

/-!
# Rule parameters and evidence

The constants that identify the rule, the evidence a claim carries, and the input of
each predicate. References are positions in the carried vectors; they are chosen by
whoever assembled the evidence and mean nothing before resolution.
-/

namespace LoopProof

/-! ## Rule identity and parameters -/

/-- The version of the predicates, which is hashed into every claim id. -/
def predicateVersion : ℕ := 8

/-- The id of closed-loop claims. -/
def closedLoopPredicateId : UInt8 := 1

/-- The id of reciprocal claims. -/
def reciprocalPredicateId : UInt8 := 2

/-- The chain that evidence is taken from. -/
def baseChainId : U64 := 8453

/-- Share of the settled volume that funding must cover, in basis points. -/
def alphaFundBps : U64 := 9000
/-- Share of the settled volume that return paths must carry, in basis points. -/
def alphaReturnBps : U64 := 3000
/-- Share each return hop must forward of what it received, in basis points. -/
def rhoHopBps : U64 := 2800
/-- Tolerance of the per-buyer ledger reconciliation, in basis points. -/
def epsilonLedgerBps : U64 := 500
/-- Least ratio of the two directional volumes of a pair, in basis points. -/
def betaReciprocalBps : U64 := 8000
/-- Share of its combined volume a pair must have financed itself, in basis points. -/
def alphaSelfBps : U64 := 9000
/-- End-to-end bound on one return path, in seconds. -/
def tPathSeconds : U64 := 259200

/-- A return has at most this many addresses between the seller and the funder. -/
def hMaxIntermediateHops : ℕ := 8

/-- A cohort has at most this many buyers. -/
def maxBuyers : ℕ := 256

/-- A claim refers to at most this many blocks. -/
def maxBlockRefs : ℕ := 65536

/-- A claim has at most this many returns. -/
def maxReturnPaths : ℕ := 512

/-! ## Contracts, event topics and storage layout -/

/-- The token of all transfers. -/
def usdcAddress : Address := 0x833589fCD6eDb6E08f4c7C32D4f71b54bdA02913

/-- The contract that settles channels and counts the volume of sellers. -/
def channelsAddress : Address := 0xBA66d3b4fbCf472F6F11D6F9F96aaCE96516F09d

/-- The contract that holds the balances of buyers. -/
def depositsAddress : Address := 0x0F7a3a8f4Da01637d1202bb5443fcF7F88F99fD2

/-- The contract that knows the agent of a seller. -/
def stakingAddress : Address := 0x3652E6B22919bd322A25723B94BB207602E5c8e6

/-- The topic of transfers. -/
def transferTopic : B256 := 0xddf252ad1be2c89b69c2b068fc378daa952ba7f163c4a11628f55a4df523b3ef

/-- The topic of settlements. -/
def channelSettledTopic : B256 :=
  0x0b287f37d8bd14ef37f2966734ab387c243cc1a1663616a25a4cc259877736b1

/-- The topic of deposits. -/
def depositedTopic : B256 := 0x2da466a7b24304f47e87fa2e1e5a81b9831ce54fec19055ce277ca2f39ba42c4

/-- The slot of the accounts of buyers. -/
def depositsBuyersSlot : U64 := 9

/-- The balance is the first word of an account. -/
def buyerAccountBalanceOffset : U64 := 0

/-- The slot of the agents of sellers. -/
def stakingSellerAgentIdSlot : U64 := 4

/-- The slot of the counters of agents. -/
def channelsAgentStatsSlot : U64 := 11

/-- The volume is the second word of the counters. -/
def agentStatsTotalVolumeOffset : U64 := 1

/-! ## Evidence -/

/-- One referenced block: its header and the proven receipts and transactions. -/
structure EvidenceBlock where
  header : Header
  receipts : List ReceiptProof
  transactions : List TransactionProof
  deriving DecidableEq, Repr

/-- A log, by the positions of its block, its receipt and itself. -/
structure LogRef where
  block : Usize
  receipt : Usize
  log : Usize
  deriving DecidableEq, Repr

/-- A receipt, by the positions of its block and itself. -/
structure ReceiptRef where
  block : Usize
  receipt : Usize
  deriving DecidableEq, Repr

/-- A transaction reference; its position is also produced by a search, so its width
is left open. -/
structure TransactionRef where
  block : Usize
  transaction : ℕ
  deriving DecidableEq, Repr

/-- One storage read at a specific evidence block; only proof nodes travel. -/
structure StateRead where
  block : Usize
  proof : StorageProof
  deriving DecidableEq, Repr

/-- The shape of one funding event. -/
inductive FundingKind where
  /-- Direct USDC transfer from the funder to the buyer. -/
  | usdc (transfer : LogRef)
  /-- USDC transfer into the deposits contract paired with its `Deposited` event. -/
  | protocolDeposit (transfer deposited : LogRef)
  /-- Legacy native transfer, kept for decoding and always rejected. -/
  | native (transaction : TransactionRef) (receipt : ReceiptRef)
  deriving DecidableEq, Repr

/-- How one buyer was funded. -/
structure FundingEvidence where
  buyer : Address
  kind : FundingKind
  deriving DecidableEq, Repr

/-- A chain of USDC transfers from the seller back to the funder. -/
structure ReturnPath where
  transfers : List LogRef
  deriving DecidableEq, Repr

/-- The period-end protocol balance of one buyer. -/
structure BuyerLedger where
  finish : StateRead
  deriving DecidableEq, Repr

/-- The evidence of a closed-loop claim: who funded which buyers, what these settled with the
seller, and what came back to the funder. -/
structure ClosedLoopInput where
  chainId : U64
  periodStartBlock : U64
  periodEndBlock : U64
  sourceClaimId : B256
  seller : Address
  funder : Address
  buyers : List Address
  blocks : List EvidenceBlock
  fundings : List FundingEvidence
  settlements : List LogRef
  returns : List ReturnPath
  ledgers : List BuyerLedger
  deriving DecidableEq, Repr

/-- A protocol deposit crediting a pair member, financed and signed by a member. -/
structure PairDepositEvidence where
  member : Address
  transfer : LogRef
  deposited : LogRef
  deriving DecidableEq, Repr

/-- The evidence of a reciprocal claim: what two addresses settled with each other, and what each of
them held. -/
structure ReciprocalInput where
  chainId : U64
  periodStartBlock : U64
  periodEndBlock : U64
  sourceClaimId : B256
  addressA : Address
  addressB : Address
  blocks : List EvidenceBlock
  settlements : List LogRef
  internalDeposits : List PairDepositEvidence
  ledgerA : BuyerLedger
  ledgerB : BuyerLedger
  deriving DecidableEq, Repr

/-- Third-party code the predicates call besides the authentication primitives:
transaction decoding, signer recovery and JSON serialization of the evidence. -/
structure Lib extends CoreLib where
  /-- Decoded transaction envelopes. -/
  Envelope : Type
  decode2718 : Bytes → Except String (Envelope × Bytes)
  recoverSigner : Envelope → Option Address
  closedLoopJson : ClosedLoopInput → Except String Bytes
  reciprocalJson : ReciprocalInput → Except String Bytes

end LoopProof
