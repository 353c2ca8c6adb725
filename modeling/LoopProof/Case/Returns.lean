import LoopProof.Case.Build

/-!
# Tracing returns

The case builder follows transfers from the seller onwards until they reach the funder. From every
intermediary it follows the largest transfers first, and it remembers where it followed them in
vain, so that it need not do so again.
-/

namespace LoopProof.Case

/-! ## Retention -/

/-- A natural number as a float holds it: rounded to 53 bits, a tie to the even neighbour. -/
def roundFloat (n : ℕ) : ℕ :=
  let unit := 2 ^ (n.log2 + 1 - 53)
  let quotient := n / unit
  let rest := 2 * (n % unit)
  if unit < rest ∨ (rest = unit ∧ quotient % 2 = 1) then (quotient + 1) * unit else quotient * unit

/-- The literal `0.20` is this float over `2 ^ 54`. -/
def minRetention : ℕ := 3602879701896397

/-- The literal `1.05` is this float over `2 ^ 52`. -/
def maxRetention : ℕ := 4728779608739021

/-- At least 20% of what came in went out, and at most 105%; both products are floats. -/
def retained (prevAmount amount : ℕ) : Bool :=
  ¬ amount * 2 ^ 54 < roundFloat (roundFloat prevAmount * minRetention) ∧
    ¬ roundFloat (roundFloat prevAmount * maxRetention) < amount * 2 ^ 52

/-! ## Tracing -/

/-- A transfer that is followed: who received it, what amount and in which block. -/
structure Call where
  current : Address
  prevAmount : ℕ
  afterBlock : ℕ
  deriving DecidableEq, Repr

/-- What is remembered of a call that found nothing, with the hops that were left. -/
structure DeadEnd where
  current : Address
  bucket : ℕ
  remainingHops : ℕ
  deriving DecidableEq, Repr

/-- The dead end that a call is remembered as. -/
def Call.key (remainingHops : ℕ) (call : Call) : DeadEnd :=
  ⟨call.current, call.afterBlock / 100000, remainingHops⟩

/-- How many transfers are followed from an address. -/
def maxBranchPerHop : ℕ := 8

/-- The transfers that a sender makes. -/
def outflowFilter (sender : Address) : LogFilter :=
  ⟨usdcAddress, [some transferTopic, some (addrTopic sender), none]⟩

section Trace

variable (rpc : BuilderRpc)

/-- The next transfers of a receiver that pass on what it received, with their amounts. -/
def candidates (call : Call) : Except Stop (List (ℕ × MinedLog)) := do
  let searchEnd := min (call.afterBlock + 500000) periodEnd
  let outflows ← getLogs rpc (outflowFilter call.current) call.afterBlock searchEnd
  let amounts ← outflows.mapM fun out => do
    let amount ← dataWord out.log.data 0
    return (amount, out)
  return amounts.filter fun candidate => retained call.prevAmount candidate.1

/-- The first candidate that reaches the target. -/
def directHop (target : Address) : List (ℕ × MinedLog) → Except Stop (Option B256)
  | [] => .ok none
  | (_, out) :: rest => do
    let word ← topicAt out.log 2
    if topicAddress word = target then return some out.transactionHash
    else directHop target rest

/-- The call that follows a candidate. -/
def callOf (candidate : ℕ × MinedLog) : Except Stop Call := do
  let word ← topicAt candidate.2.log 2
  return ⟨topicAddress word, candidate.1, candidate.2.blockNumber.val⟩

/-- Follow the candidates in order until one leads to the target. -/
def firstChain (trace : Call → List DeadEnd → Except Stop (Option (List B256) × List DeadEnd)) :
    List (ℕ × MinedLog) → List DeadEnd → Except Stop (Option (List B256) × List DeadEnd)
  | [], exhausted => .ok (none, exhausted)
  | candidate :: rest, exhausted => do
    let call ← callOf candidate
    let (found, exhausted) ← trace call exhausted
    match found with
    | some chain => return (some (candidate.2.transactionHash :: chain), exhausted)
    | none => firstChain trace rest exhausted

/-- The largest candidates, largest first. -/
def largest (found : List (ℕ × MinedLog)) : List (ℕ × MinedLog) :=
  (sortBy (fun a b => compare b.1 a.1) found).take maxBranchPerHop

/-- Follow the largest candidates, where more than one hop is left. -/
def followLargest (trace : Call → List DeadEnd → Except Stop (Option (List B256) × List DeadEnd))
    (remainingHops : ℕ) (found : List (ℕ × MinedLog)) (exhausted : List DeadEnd) :
    Except Stop (Option (List B256) × List DeadEnd) :=
  if remainingHops > 1 then firstChain trace (largest found) exhausted
  else .ok (none, exhausted)

variable (remembers : Bool) (target : Address)

/-- A chain of transfers from a receiver to the target, and the dead ends known afterwards. The
builder remembers them; without memory the list stays empty. -/
def traceChain : ℕ → Call → List DeadEnd →
    Except Stop (Option (List B256) × List DeadEnd)
  | 0, _, exhausted => .ok (none, exhausted)
  | remaining + 1, call, exhausted =>
    if call.key (remaining + 1) ∈ exhausted then .ok (none, exhausted)
    else do
      let found ← candidates rpc call
      match ← directHop target found with
      | some tx => return (some [tx], exhausted)
      | none => do
        let (chain, exhausted) ←
          followLargest (traceChain remaining) (remaining + 1) found exhausted
        match chain with
        | some chain => return (some chain, exhausted)
        | none =>
          return (none, if remembers then call.key (remaining + 1) :: exhausted else exhausted)

/-! ## Return paths -/

/-- The returns that were found, their first hops, and the dead ends. -/
structure ReturnSearch where
  paths : List (List B256)
  seenFirstHops : List B256
  exhausted : List DeadEnd
  deriving DecidableEq, Repr

/-- A return starts with at least this amount. -/
def minFirstHop : ℕ := 1000000

variable (maxHops maxPaths : ℕ)

/-- Look for a return that begins with a transfer of the seller. -/
def traceOutflow (search : ReturnSearch) (out : MinedLog) : Except Stop ReturnSearch := do
  let word ← topicAt out.log 2
  let amount ← dataWord out.log.data 0
  if amount < minFirstHop then return search
  else if topicAddress word = target then
    return { search with paths := search.paths ++ [[out.transactionHash]] }
  else if out.transactionHash ∈ search.seenFirstHops then return search
  else do
    let (found, exhausted) ← traceChain rpc remembers target (maxHops - 1)
      ⟨topicAddress word, amount, out.blockNumber.val⟩ search.exhausted
    return {
      paths := match found with
        | some chain => search.paths ++ [out.transactionHash :: chain]
        | none => search.paths
      seenFirstHops := out.transactionHash :: search.seenFirstHops
      exhausted := exhausted }

/-- Go through the transfers of the seller until there are enough paths. -/
def traceOutflows : List MinedLog → ReturnSearch → Except Stop ReturnSearch
  | [], search => .ok search
  | out :: rest, search =>
    if maxPaths ≤ search.paths.length then .ok search
    else do
      let search ← traceOutflow rpc remembers target maxHops search out
      traceOutflows rest search

/-- The returns from a seller to its target. -/
def findReturns (seller : Address) : Except Stop (List (List B256)) := do
  let outflows ← getLogs rpc (outflowFilter seller) periodStart periodEnd
  let search ← traceOutflows rpc remembers target maxHops maxPaths outflows ⟨[], [], []⟩
  return search.paths

end Trace

end LoopProof.Case
