import LoopProof.Core.CanonicalRlp
import LoopProof.Core.State
import LoopProof.Lib.Patricia
import Mathlib.Data.List.FinRange

/-!
# State tries

What the storage reads of the guest are about: accounts and slots, the tries that commit
to them, and the node lists an honest node serves as proofs. A node whose encoding is
shorter than a hash is embedded in its parent and not listed.
-/

namespace LoopProof

/-! ## Nodes -/

/-- A trie over half-bytes with byte-string values. -/
abbrev Trie := Patricia.Node (Fin 16) Bytes

/-- The half-bytes of a trie key. -/
def Nibbles.halves (key : Nibbles) : List (Fin 16) := key.map fun half => Fin.ofNat 16 half.toNat

/-- Two half-bytes a byte. -/
def packHalves : List (Fin 16) → Bytes
  | a :: b :: rest => UInt8.ofNat (16 * a.val + b.val) :: packHalves rest
  | _ => []

/-- The compact form of a path: a flag for leaves and one for odd length. -/
def hexPrefix (leaf : Bool) (path : List (Fin 16)) : Bytes :=
  let flag := if leaf then 0x20 else 0
  match path with
  | a :: rest =>
    if path.length % 2 = 1 then UInt8.ofNat (flag + 0x10 + a.val) :: packHalves rest
    else UInt8.ofNat flag :: packHalves path
  | [] => [UInt8.ofNat flag]

/-- How a parent refers to a child: short encodings are embedded, others are hashed. -/
def nodeReference (hash : Bytes → B256) (encoded : Bytes) : Bytes :=
  if encoded.length < 32 then encoded else rlpBytes (beBytes 32 (hash encoded).val)

/-- The encoding of a node. -/
def encodeNode (hash : Bytes → B256) : Trie → Bytes
  | .empty => rlpBytes []
  | .leaf path value => rlpList [rlpBytes (hexPrefix true path), rlpBytes value]
  | .extension path child =>
    rlpList [rlpBytes (hexPrefix false path), nodeReference hash (encodeNode hash child)]
  | .branch children =>
    rlpList ((List.finRange 16).map (fun s => nodeReference hash (encodeNode hash (children s))) ++
      [rlpBytes []])

/-- The hash of the root node. -/
def trieRoot (hash : Bytes → B256) (trie : Trie) : B256 := hash (encodeNode hash trie)

/-- Whether a node is stored under its own hash rather than inside its parent. -/
def storedAlone (hash : Bytes → B256) (node : Trie) : Bool := 32 ≤ (encodeNode hash node).length

/-- The proof of a key: the hash-referenced nodes on its path, from the root. -/
def trieProof (hash : Bytes → B256) (trie : Trie) (key : Nibbles) : List Bytes :=
  (trie.listing (storedAlone hash) key.halves).map (encodeNode hash)

/-- The value a trie holds for a key. -/
def trieGet (trie : Trie) (key : Nibbles) : Option Bytes := trie.get key.halves

/-- The leaf of the key is present, but too short to be stored on its own. -/
def EmbeddedLeaf (hash : Bytes → B256) (trie : Trie) (key : Nibbles) : Prop :=
  ∃ path value, trie.find key.halves = some (path, value) ∧
    (encodeNode hash (.leaf path value)).length < 32

/-! ## Accounts and slots -/

/-- A consensus account. -/
structure Account where
  nonce : U64
  balance : U256
  storageRoot : B256
  codeHash : B256
  deriving DecidableEq, Repr

/-- `rlp([nonce, balance, storageRoot, codeHash])`. -/
def encodeAccount (account : Account) : Bytes :=
  rlpList [rlpBytes (significant 8 account.nonce.val),
    rlpBytes (significant 32 account.balance.val),
    rlpBytes (beBytes 32 account.storageRoot.val), rlpBytes (beBytes 32 account.codeHash.val)]

/-- A stored word: the minimal big-endian bytes as one item. -/
def encodeWord (word : U256) : Bytes := rlpBytes (significant 32 word.val)

/-- The accounts of a chain state and the nonzero words of their storage. -/
structure WorldState where
  account : Address → Option Account
  storage : Address → B256 → Option {word : U256 // word ≠ 0}

/-- The stored word of a slot of an account, absent when either is. -/
def WorldState.slot (state : WorldState) (address : Address) (slot : B256) :
    Option {word : U256 // word ≠ 0} :=
  (state.account address).bind fun _ => state.storage address slot

/-- The value a contract would read: absent slots are zero. -/
def WorldState.value (state : WorldState) (address : Address) (slot : B256) : U256 :=
  ((state.slot address slot).map Subtype.val).getD 0

/-- The trie key of an account. -/
def accountKey (lib : CoreLib) (address : Address) : Nibbles :=
  Nibbles.unpack (beBytes 32 (lib.keccak256 (beBytes 20 address.val)).val)

/-- The trie key of a slot. -/
def slotKey (lib : CoreLib) (slot : B256) : Nibbles :=
  Nibbles.unpack (beBytes 32 (lib.keccak256 (beBytes 32 slot.val)).val)

end LoopProof
