import LoopProof.Core.Receipt

/-!
# Logs of a chain

What a node lists of the logs of a chain, and the filters that choose among them.
-/

namespace LoopProof

/-- A log as a node lists it, with its place in the chain. -/
structure MinedLog where
  log : ParsedLog
  blockNumber : U64
  transactionHash : B256
  transactionIndex : U64
  /-- The index within the block. -/
  logIndex : U64
  deriving DecidableEq, Repr

/-- A contract and its topics in order; a missing topic matches any. -/
structure LogFilter where
  address : Address
  topics : List (Option B256)
  deriving DecidableEq, Repr

/-- The topic that stands for an address. -/
def addrTopic (address : Address) : B256 := widen bits160_le_256 address

/-- Every topic that is named stands in its place. -/
def matchesTopics : List (Option B256) → List B256 → Bool
  | [], _ => true
  | _ :: _, [] => false
  | none :: wanted, _ :: topics => matchesTopics wanted topics
  | some topic :: wanted, found :: topics => topic = found && matchesTopics wanted topics

/-- The log is of the address and has the topics. -/
def LogFilter.selects (filter : LogFilter) (log : ParsedLog) : Bool :=
  log.address = filter.address && matchesTopics filter.topics log.topics

end LoopProof
