import LoopProof.Core.Logs

/-!
# Adaptive scans

The case builder reads the logs of a range of blocks in windows. A window widens while the node
keeps up and narrows whenever a response comes back too large.
-/

namespace LoopProof.Case

/-- The error of a call that all retries ended with. -/
structure RpcError where
  message : String
  deriving DecidableEq, Repr

/-- The message of an error holds a part, in any case of letters. -/
def RpcError.mentions (error : RpcError) (part : String) : Bool :=
  decide (part.toList <:+: error.message.toLower.toList)

/-- The node rejected a range for returning too many logs. -/
def isResponseTooLarge (error : RpcError) : Bool :=
  if error.mentions "compute unit" then false
  else error.mentions "response size" || error.mentions "returned more than" ||
    error.mentions "query timeout"

/-- One call of a scan, the span it was made in and what the node answered. -/
structure ScanCall where
  first : ℕ
  last : ℕ
  span : ℕ
  answer : Except RpcError (List MinedLog)

/-- The calls of a scan in order, and what it returned or raised unless its fuel ran out. -/
structure Scanned where
  calls : List ScanCall
  outcome : Option (Except RpcError (List MinedLog))

section Scan

variable (node : ℕ → LogFilter → ℕ → ℕ → Except RpcError (List MinedLog)) (filter : LogFilter)
  (chunk maxChunk toBlock : ℕ)

/-- The loop of a scan, at its `n`-th call. -/
def scanLogs : ℕ → ℕ → ℕ → ℕ → Scanned
  | 0, _, _, _ => ⟨[], none⟩
  | fuel + 1, n, b, span =>
    if toBlock < b then ⟨[], some (.ok [])⟩
    else
      let finish := min (b + span - 1) toBlock
      let answer := node n filter b finish
      let made : ScanCall := ⟨b, finish, span, answer⟩
      match answer with
      | .error error =>
        if chunk < span ∧ isResponseTooLarge error = true then
          let rest := scanLogs fuel (n + 1) b (max chunk (span / 4))
          ⟨made :: rest.calls, rest.outcome⟩
        else ⟨[made], some (.error error)⟩
      | .ok logs =>
        let rest := scanLogs fuel (n + 1) (finish + 1)
          (if span < maxChunk then min maxChunk (span * 2) else span)
        ⟨made :: rest.calls, rest.outcome.map fun result => result.map (logs ++ ·)⟩

/-- The number of calls a scan makes at most, from a block on and in a span. -/
def scanMeasure (b span : ℕ) : ℕ := (toBlock + 1 - b) * (maxChunk + 1) + span

/-- The logs of a range, in widening and narrowing windows. -/
def scanRange (fromBlock : ℕ) : Scanned :=
  scanLogs node filter chunk maxChunk toBlock (scanMeasure maxChunk toBlock fromBlock maxChunk + 1)
    0 fromBlock maxChunk

end Scan

/-- The windows that were read, with their logs. -/
def readWindows (calls : List ScanCall) : List ((ℕ × ℕ) × List MinedLog) :=
  calls.filterMap fun call =>
    match call.answer with
    | .error _ => none
    | .ok logs => some ((call.first, call.last), logs)

end LoopProof.Case
