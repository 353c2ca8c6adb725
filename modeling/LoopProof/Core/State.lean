import LoopProof.Core.Receipt

/-!
# Account and storage proofs

Bound storage reads against a state root. The caller supplies the account and the
slot; only proof nodes are part of a witness. Absence is a proved zero.
-/

namespace LoopProof

/-- Account and storage proof nodes for one slot at one block. -/
structure StorageProof where
  accountProof : List Bytes
  storageProof : List Bytes
  deriving DecidableEq, Repr

/-- Root of an empty Merkle-Patricia trie. -/
def emptyTrieRoot : B256 := 0x56e81f171bcc55a6ff8345e692c0f86e5b48e01b996cadc001622fb5e363b421

/-- The payloads of a trie node, in order. -/
def nodeItemsLoop (lib : CoreLib) : ℕ → Bytes → List Bytes → Outcome (List Bytes)
  | _, [], items => .ok items
  | 0, _ :: _, _ => .error .outOfFuel
  | fuel + 1, node@(_ :: _), items => do
    let item ← nextItem lib node
    nodeItemsLoop lib fuel item.rest (items ++ [item.payload])

/-- The value carried by the final node of a proof, which must be a leaf. -/
def leafValue (lib : CoreLib) (proof : List Bytes) : Outcome Bytes := do
  let last ← okOr proof.getLast? (.err "empty proof")
  let node ← nextItem lib last
  ensure (node.list = true) (.err "proof node: not a list")
  let items ← nodeItemsLoop lib node.payload.length node.payload []
  match items.length with
  | 2 =>
    let path ← indexAt "leaf_value items[0]" items 0
    ensure (path ≠ []) (.err "proof node: empty path")
    let head ← indexAt "leaf_value path[0]" path 0
    let flag := head >>> 4
    ensure (flag = 2 ∨ flag = 3) (.err "proof node: last node is not a leaf")
    indexAt "leaf_value items[1]" items 1
  | 17 => .error (.err "proof node: key terminates in a branch")
  | n => .error (.err s!"proof node: {n} items")

/-- Inclusion-or-exclusion lookup; exclusion is tried first. -/
def mptGet (lib : CoreLib) (root : B256) (key : Nibbles) (proof : List Bytes) :
    Outcome (Option Bytes) :=
  match lib.verifyProof root key none proof with
  | .ok _ => .ok none
  | .error _ => do
    let value ← leafValue lib proof
    (lib.verifyProof root key (some value) proof).mapError fun e => .err s!"inclusion: {e}"
    return some value

/-- The storage root of an encoded account. -/
def decodeAccountStorageRoot (lib : CoreLib) (accountRlp : Bytes) : Outcome B256 := do
  let body ← nextItem lib accountRlp
  ensure (body.list = true) (.err "account: not a list")
  let nonce ← nextItem lib body.payload
  let balance ← nextItem lib nonce.rest
  let storageRoot ← nextItem lib balance.rest
  ensure (storageRoot.payload.length = 32) (.err "account: bad storage root")
  b256FromSlice storageRoot.payload

/-- Verify one storage slot of one account and return its value. -/
def verifyStorageValue (lib : CoreLib) (stateRoot : B256) (address : Address) (slot : B256)
    (proof : StorageProof) : Outcome U256 := do
  let account := s!"account {lib.showAddress address}"
  let accountKey := Nibbles.unpack (beBytes 32 (lib.keccak256 (beBytes 20 address.val)).val)
  let accountRlp ← (mptGet lib stateRoot accountKey proof.accountProof).mapError
    (.mapErr fun e => s!"{account}: {e}")
  match accountRlp with
  | none =>
    -- The account does not exist, so every slot is zero.
    ensure (proof.storageProof = []) (.err s!"{account}: storage proof for absent account")
    return 0
  | some rlp =>
    let storageRoot ← (decodeAccountStorageRoot lib rlp).mapError
      (.mapErr fun e => s!"{account}: {e}")
    if storageRoot = emptyTrieRoot then
      ensure (proof.storageProof = []) (.err s!"{account}: storage proof for empty trie")
      return 0
    else
      let slotKey := Nibbles.unpack (beBytes 32 (lib.keccak256 (beBytes 32 slot.val)).val)
      let value ← (mptGet lib storageRoot slotKey proof.storageProof).mapError
        (.mapErr fun e => s!"{account} slot {lib.showB256 slot}: {e}")
      match value with
      | none => return 0
      | some valueRlp =>
        let item ← nextItem lib valueRlp
        ensure (item.list = false ∧ item.rest = [] ∧ item.payload.length ≤ 32)
          (.err s!"{account} slot {lib.showB256 slot}: bad value encoding")
        u256FromBeSlice item.payload

/-- Slot of a `mapping(uint256 => V)` entry. -/
def mappingSlotU256 (lib : CoreLib) (key : U256) (base : U64) : B256 :=
  lib.keccak256 (abiWords [key.val, base.val])

/-- Slot of a `mapping(address => V)` entry. -/
def mappingSlotAddress (lib : CoreLib) (key : Address) (base : U64) : B256 :=
  lib.keccak256 (abiWords [key.val, base.val])

/-- Slot of a struct field behind a mapping value; the addition wraps. -/
def slotOffset (slot : B256) (offset : U64) : B256 := slot + widen bits64_le_256 offset

end LoopProof
