import LoopProof.Correctness.StateProofs
import Mathlib.Algebra.Order.BigOperators.Group.List

/-!
# Genuine storage proofs

What the lookup of the guest does with the node lists an honest node serves. The value is
recovered from the last listed node, which is the leaf of the key unless that leaf is too
short to be listed: then the lookup refuses the genuine proof.
-/

namespace LoopProof

variable {lib : CoreLib} {hash : Bytes → B256}

/-! ## Items of a node -/

/-- The parser reads the encoded item as the payload, whatever follows. -/
def ReadsAs (lib : CoreLib) (encoded payload : Bytes) : Prop :=
  encoded ≠ [] ∧ ∀ tail, ∃ list, nextItem lib (encoded ++ tail) = .ok ⟨list, payload, tail⟩

/-- An encoded payload is read back. -/
theorem readsAs_rlpBytes (hrlp : lib.rlpHeader = canonicalHeader) {payload : Bytes}
    (hfits : payload.length < 2 ^ 64) : ReadsAs lib (rlpBytes payload) payload :=
  ⟨rlpBytes_ne_nil payload, fun tail => ⟨false, nextItem_rlpBytes hrlp payload tail hfits⟩⟩

/-- The payload of an encoded list is read back. -/
theorem readsAs_rlpList (hrlp : lib.rlpHeader = canonicalHeader) {items : List Bytes}
    (hfits : items.flatten.length < 2 ^ 64) : ReadsAs lib (rlpList items) items.flatten :=
  ⟨rlpList_ne_nil items, fun tail => ⟨true, nextItem_rlpList hrlp items tail hfits⟩⟩

/-- The item loop collects one payload for each encoded item. -/
theorem nodeItemsLoop_encoded {encoded payloads : List Bytes}
    (h : List.Forall₂ (ReadsAs lib) encoded payloads) {fuel : ℕ} (hfuel : encoded.length ≤ fuel)
    (done : List Bytes) :
    nodeItemsLoop lib fuel encoded.flatten done = .ok (done ++ payloads) := by
  induction h generalizing fuel done with
  | nil =>
    rw [List.flatten_nil, List.append_nil]
    cases fuel <;> rfl
  | @cons item payload encoded payloads hitem _ ih =>
    rw [List.length_cons] at hfuel
    obtain ⟨fuel, rfl⟩ : ∃ k, fuel = k + 1 := ⟨fuel - 1, by omega⟩
    obtain ⟨hne, hreads⟩ := hitem
    obtain ⟨list, hnext⟩ := hreads encoded.flatten
    obtain ⟨b, rest, hbuf⟩ := List.exists_cons_of_ne_nil
      (List.append_ne_nil_of_left_ne_nil hne encoded.flatten)
    rw [List.flatten_cons]
    rw [hbuf] at hnext ⊢
    simp only [nodeItemsLoop, hnext, ok_bind]
    rw [ih (by omega), List.append_assoc, List.singleton_append]

/-! ## Encoded nodes -/

/-- Two half-bytes are packed into one byte. -/
theorem length_packHalves (path : List (Fin 16)) : (packHalves path).length = path.length / 2 := by
  induction path using packHalves.induct with
  | case1 a b rest ih =>
    rw [packHalves, List.length_cons, ih]
    simp only [List.length_cons]
    omega
  | case2 path h =>
    cases path with
    | nil => rfl
    | cons a rest =>
      cases rest with
      | nil => simp [packHalves]
      | cons b rest => exact absurd rfl (h a b rest)

/-- The length of an encoded path. -/
theorem length_hexPrefix (leaf : Bool) (path : List (Fin 16)) :
    (hexPrefix leaf path).length = path.length / 2 + 1 := by
  cases path with
  | nil => rfl
  | cons a rest =>
    simp only [hexPrefix]
    split
    · rename_i hodd
      rw [List.length_cons, length_packHalves]
      simp only [List.length_cons] at hodd ⊢
      omega
    · rw [List.length_cons, length_packHalves]

/-- The first byte of a compact path tells leaves from extensions. -/
theorem hexPrefix_flag (leaf : Bool) (path : List (Fin 16)) :
    ∃ b rest, hexPrefix leaf path = b :: rest ∧ ((b >>> 4 = 2 ∨ b >>> 4 = 3) ↔ leaf = true) := by
  have hodd : ∀ (leaf : Bool) (a : Fin 16),
      (UInt8.ofNat ((if leaf then 0x20 else 0) + 0x10 + a.val) >>> 4 = 2 ∨
        UInt8.ofNat ((if leaf then 0x20 else 0) + 0x10 + a.val) >>> 4 = 3) ↔ leaf = true := by
    decide
  have heven : ∀ leaf : Bool, (UInt8.ofNat (if leaf then 0x20 else 0) >>> 4 = 2 ∨
      UInt8.ofNat (if leaf then 0x20 else 0) >>> 4 = 3) ↔ leaf = true := by
    decide
  cases path with
  | nil => exact ⟨_, _, rfl, heven leaf⟩
  | cons a rest =>
    simp only [hexPrefix]
    split
    · exact ⟨_, _, rfl, hodd leaf a⟩
    · exact ⟨_, _, rfl, heven leaf⟩

/-- An encoding is one item: a list, or the empty string for the empty node. -/
theorem encodeNode_item (hash : Bytes → B256) (node : Trie) :
    encodeNode hash node = rlpBytes [] ∨ ∃ items, encodeNode hash node = rlpList items := by
  cases node with
  | empty => exact Or.inl rfl
  | leaf path value => exact Or.inr ⟨_, rfl⟩
  | extension path child => exact Or.inr ⟨_, rfl⟩
  | branch children => exact Or.inr ⟨_, rfl⟩

/-- A reference takes at most 41 bytes. -/
theorem length_nodeReference (hash : Bytes → B256) (encoded : Bytes) :
    (nodeReference hash encoded).length ≤ 41 := by
  unfold nodeReference
  split
  · omega
  · have h := length_rlpBytes_le (beBytes 32 (hash encoded).val)
    rwa [length_beBytes] at h

/-- A reference to a node reads as one item. -/
theorem readsAs_nodeReference (hrlp : lib.rlpHeader = canonicalHeader) (hash : Bytes → B256)
    (node : Trie) : ∃ payload, ReadsAs lib (nodeReference hash (encodeNode hash node)) payload := by
  unfold nodeReference
  split
  · rename_i hshort
    rcases encodeNode_item hash node with h | ⟨items, h⟩
    · rw [h]
      exact ⟨[], readsAs_rlpBytes hrlp (by decide)⟩
    · rw [h] at hshort ⊢
      have := length_le_rlpList items
      exact ⟨items.flatten, readsAs_rlpList hrlp (by omega)⟩
  · exact ⟨_, readsAs_rlpBytes hrlp (by rw [length_beBytes]; norm_num)⟩

section LastNode

variable {proof encoded payloads : List Bytes}

/-- The items of the last node of a proof are collected. -/
theorem lastNode_items (hrlp : lib.rlpHeader = canonicalHeader)
    (h : List.Forall₂ (ReadsAs lib) encoded payloads) (hfits : encoded.flatten.length < 2 ^ 64) :
    nextItem lib (rlpList encoded) = .ok ⟨true, encoded.flatten, []⟩ ∧
      nodeItemsLoop lib encoded.flatten.length encoded.flatten [] = .ok payloads := by
  have hnext := nextItem_rlpList hrlp encoded [] hfits
  rw [List.append_nil] at hnext
  have hcount : encoded.length ≤ encoded.flatten.length := by
    refine length_le_flatten_length ?_
    intro item hitem
    obtain ⟨_, _, hreads⟩ := forall₂_exists_right h hitem
    exact hreads.1
  have hloop := nodeItemsLoop_encoded h hcount []
  rw [List.nil_append] at hloop
  exact ⟨hnext, hloop⟩

/-- A last node of two items is a leaf or an extension, told apart by the path flag. -/
theorem leafValue_pair (hrlp : lib.rlpHeader = canonicalHeader) {leaf : Bool}
    {path : List (Fin 16)} {item value : Bytes}
    (hlast : proof.getLast? = some (rlpList [rlpBytes (hexPrefix leaf path), item]))
    (hpath : path.length ≤ 64) (hitem : ReadsAs lib item value) (hfits : item.length < 2 ^ 63) :
    leafValue lib proof =
      if leaf then .ok value else .error (.err "proof node: last node is not a leaf") := by
  have hprefix := length_hexPrefix leaf path
  have hencoded := length_rlpBytes_le (hexPrefix leaf path)
  have hread : ReadsAs lib (rlpBytes (hexPrefix leaf path)) (hexPrefix leaf path) :=
    readsAs_rlpBytes hrlp (by omega)
  obtain ⟨hnext, hloop⟩ := lastNode_items hrlp (.cons hread (.cons hitem .nil)) (by
    simp only [List.flatten_cons, List.flatten_nil, List.length_append, List.length_nil]
    omega)
  obtain ⟨b, rest, hhead, hflag⟩ := hexPrefix_flag leaf path
  have hitems : nodeItemsLoop lib [rlpBytes (hexPrefix leaf path), item].flatten.length
      [rlpBytes (hexPrefix leaf path), item].flatten [] = .ok [b :: rest, value] := by
    rw [hloop, hhead]
  simp only [leafValue, hlast, okOr, ok_bind, hnext, ensure, if_true, hitems, List.length_cons,
    List.length_nil, indexAt, List.getElem?_cons_zero, List.getElem?_cons_succ, ne_eq,
    reduceCtorEq, not_false_eq_true]
  by_cases hleaf : leaf = true
  · rw [if_pos (hflag.mpr hleaf), if_pos hleaf]
    rfl
  · rw [if_neg (mt hflag.mp hleaf), if_neg hleaf]
    rfl

/-- A last node of seventeen items is refused. -/
theorem leafValue_branch (hrlp : lib.rlpHeader = canonicalHeader)
    (hlast : proof.getLast? = some (rlpList encoded))
    (h : List.Forall₂ (ReadsAs lib) encoded payloads) (hlen : encoded.length = 17)
    (hfits : encoded.flatten.length < 2 ^ 64) :
    leafValue lib proof = .error (.err "proof node: key terminates in a branch") := by
  obtain ⟨hnext, hloop⟩ := lastNode_items hrlp h hfits
  have hcount : payloads.length = 17 := h.length_eq ▸ hlen
  simp only [leafValue, hlast, okOr, ok_bind, hnext, ensure, if_true, hloop, hcount]

/-- A proof that ends in a leaf yields the value of the leaf. -/
theorem leafValue_leaf (hrlp : lib.rlpHeader = canonicalHeader) {path : List (Fin 16)}
    {value : Bytes} (hlast : proof.getLast? = some (encodeNode hash (.leaf path value)))
    (hpath : path.length ≤ 64) (hfits : value.length < 2 ^ 62) :
    leafValue lib proof = .ok value := by
  have hlen := length_rlpBytes_le value
  rw [leafValue_pair hrlp hlast hpath (readsAs_rlpBytes hrlp (by omega)) (by omega), if_pos rfl]

/-- A proof that ends in another node is refused. -/
theorem leafValue_not_leaf (hrlp : lib.rlpHeader = canonicalHeader) {node : Trie}
    (hlast : proof.getLast? = some (encodeNode hash node)) (hne : node ≠ .empty)
    (hleaf : node.isLeaf = false) {n : ℕ} (hkeyed : node.Keyed n) (hn : n ≤ 64) :
    ∃ message, leafValue lib proof = .error (.err message) := by
  cases node with
  | empty => exact absurd rfl hne
  | leaf path value => cases hleaf
  | extension path child =>
    obtain ⟨payload, hreads⟩ := readsAs_nodeReference hrlp hash child
    have hlen := length_nodeReference hash (encodeNode hash child)
    exact ⟨_, leafValue_pair hrlp hlast (hkeyed.1.trans hn) hreads (by omega)⟩
  | branch children =>
    have hitems : ∀ item ∈ (List.finRange 16).map (fun s =>
        nodeReference hash (encodeNode hash (children s))) ++ [rlpBytes []],
        ∃ payload, ReadsAs lib item payload := by
      intro item hitem
      rcases List.mem_append.mp hitem with hitem | hitem
      · obtain ⟨s, _, rfl⟩ := List.mem_map.mp hitem
        exact readsAs_nodeReference hrlp hash (children s)
      · rw [List.mem_singleton.mp hitem]
        exact ⟨[], readsAs_rlpBytes hrlp (by decide)⟩
    obtain ⟨payloads, hall⟩ := exists_forall₂ hitems
    have hsize : ∀ item ∈ (List.finRange 16).map (fun s =>
        nodeReference hash (encodeNode hash (children s))) ++ [rlpBytes []], item.length ≤ 41 := by
      intro item hitem
      rcases List.mem_append.mp hitem with hitem | hitem
      · obtain ⟨s, _, rfl⟩ := List.mem_map.mp hitem
        exact length_nodeReference hash _
      · rw [List.mem_singleton.mp hitem]
        decide
    have hlen : ((List.finRange 16).map (fun s =>
        nodeReference hash (encodeNode hash (children s))) ++ [rlpBytes []]).length = 17 := by
      rw [List.length_append, List.length_map, List.length_finRange]
      rfl
    refine ⟨_, leafValue_branch hrlp hlast hall hlen ?_⟩
    rw [List.length_flatten]
    have hsum := List.sum_le_card_nsmul _ 41 fun n hn => by
      obtain ⟨item, hitem, rfl⟩ := List.mem_map.mp hn
      exact hsize item hitem
    rw [List.length_map, hlen] at hsum
    exact hsum.trans_lt (by norm_num)

end LastNode

/-! ## Lookups of genuine proofs -/

/-- The proof checker accepts, for the keys of a trie, exactly the genuine node lists. -/
def AcceptsGenuine (lib : CoreLib) (trie : Trie) : Prop :=
  ∀ bytes value nodes, bytes.length = 32 →
    (lib.verifyProof (trieRoot lib.keccak256 trie) (Nibbles.unpack bytes) value nodes = .ok () ↔
      trieGet trie (Nibbles.unpack bytes) = value ∧
        nodes = trieProof lib.keccak256 trie (Nibbles.unpack bytes))

section Lookup

variable {trie : Trie} {key : Nibbles}

/-- A lookup finds nothing where the trie has no value. -/
theorem trieGet_eq_none : trieGet trie key = none ↔ trie.find key.halves = none := by
  rw [trieGet, Patricia.Node.get, Option.map_eq_none_iff]

/-- A lookup finds the value that the trie has. -/
theorem trieGet_of_find {path : List (Fin 16)} {value : Bytes}
    (h : trie.find key.halves = some (path, value)) : trieGet trie key = some value := by
  rw [trieGet, Patricia.Node.get, h, Option.map_some]

/-- The leaf of a key is keyed by what is left of the key. -/
theorem leaf_path_le {n : ℕ} (hkeyed : trie.Keyed n) {path : List (Fin 16)} {value : Bytes}
    (h : trie.find key.halves = some (path, value)) : path.length ≤ n := by
  obtain ⟨above, hvisited, _⟩ := Patricia.Node.visited_of_find h
  obtain ⟨m, hm, hleaf⟩ := hkeyed.of_visited (hvisited ▸ List.mem_append_right above
    (List.mem_singleton_self _))
  exact hleaf.le.trans hm

/-- A leaf is longer than its path and its value together. -/
theorem length_le_leaf (hash : Bytes → B256) (path : List (Fin 16)) (value : Bytes) :
    path.length / 2 + 1 + value.length ≤ (encodeNode hash (.leaf path value)).length := by
  have hprefix := length_hexPrefix true path
  have hbytes := length_le_rlpBytes (hexPrefix true path)
  have hvalue := length_le_rlpBytes value
  have hlist := length_le_rlpList [rlpBytes (hexPrefix true path), rlpBytes value]
  simp only [List.flatten_cons, List.flatten_nil, List.length_append, List.length_nil] at hlist
  rw [encodeNode]
  omega

/-- A leaf at the root is long enough to be stored on its own. -/
theorem root_not_embedded (hkeyed : trie.Keyed 64) {path : List (Fin 16)} {value : Bytes}
    (hshort : (encodeNode hash (.leaf path value)).length < 32) : trie ≠ .leaf path value := by
  rintro rfl
  have hpath : path.length = 64 := hkeyed
  have hlen := length_le_leaf hash path value
  omega

/-- The genuine proof of a present key yields its value, unless the leaf is embedded. -/
theorem leafValue_genuine (hrlp : lib.rlpHeader = canonicalHeader) (hkeyed : trie.Keyed 64)
    {path : List (Fin 16)} {value : Bytes} (h : trie.find key.halves = some (path, value))
    (hfits : value.length < 2 ^ 62) :
    ((encodeNode hash (.leaf path value)).length < 32 →
      ∃ message, leafValue lib (trieProof hash trie key) = .error (.err message)) ∧
    (32 ≤ (encodeNode hash (.leaf path value)).length →
      leafValue lib (trieProof hash trie key) = .ok value) := by
  obtain ⟨hstored, hembedded⟩ := @Patricia.Node.listing_of_find _ _ _ (storedAlone hash) _ _ _ _ h
  constructor
  · intro hshort
    have halone : storedAlone hash (.leaf path value) = false := by
      rw [storedAlone, decide_eq_false_iff_not]
      omega
    obtain ⟨last, hlast, hmem, hleaf⟩ := hembedded (root_not_embedded hkeyed hshort) halone
    obtain ⟨m, hm, hnode⟩ := hkeyed.of_visited hmem
    have hproof : (trieProof hash trie key).getLast? = some (encodeNode hash last) := by
      rw [trieProof, List.getLast?_map, hlast, Option.map_some]
    exact leafValue_not_leaf hrlp hproof (Patricia.Node.ne_empty_of_visited hmem) hleaf hnode hm
  · intro hlong
    have halone : storedAlone hash (.leaf path value) = true := by
      rw [storedAlone, decide_eq_true_iff]
      exact hlong
    have hproof : (trieProof hash trie key).getLast? =
        some (encodeNode hash (.leaf path value)) := by
      rw [trieProof, List.getLast?_map, hstored (Or.inr halone), Option.map_some]
    exact leafValue_leaf hrlp hproof (leaf_path_le hkeyed h) hfits

/-- The lookup of a genuine proof returns the content of the trie exactly when the leaf of
the key is not embedded in its parent; otherwise it is an error. -/
theorem mptGet_genuine (hrlp : lib.rlpHeader = canonicalHeader)
    (haccepts : AcceptsGenuine lib trie) (hkeyed : trie.Keyed 64)
    (hfits : ∀ value, trieGet trie key = some value → value.length < 2 ^ 62) {bytes : Bytes}
    (hlen : bytes.length = 32) (hkey : Nibbles.unpack bytes = key) :
    (EmbeddedLeaf lib.keccak256 trie key → ∃ message,
      mptGet lib (trieRoot lib.keccak256 trie) key (trieProof lib.keccak256 trie key) =
        .error (.err message)) ∧
    (¬EmbeddedLeaf lib.keccak256 trie key →
      mptGet lib (trieRoot lib.keccak256 trie) key (trieProof lib.keccak256 trie key) =
        .ok (trieGet trie key)) := by
  subst hkey
  have haccepts := fun value => haccepts bytes value
    (trieProof lib.keccak256 trie (Nibbles.unpack bytes)) hlen
  cases hfind : trie.find (Nibbles.unpack bytes).halves with
  | none =>
    have hget := trieGet_eq_none.mpr hfind
    have hexcluded := (haccepts none).mpr ⟨hget, rfl⟩
    constructor
    · rintro ⟨path, value, hsome, _⟩
      rw [hfind] at hsome
      cases hsome
    · intro _
      rw [mptGet, hexcluded, hget]
  | some entry =>
    obtain ⟨path, value⟩ := entry
    have hget := trieGet_of_find hfind
    obtain ⟨hshort, hlong⟩ := @leafValue_genuine lib lib.keccak256 trie _ hrlp hkeyed path value
      hfind (hfits value hget)
    obtain ⟨error, hexcluded⟩ : ∃ error, lib.verifyProof (trieRoot lib.keccak256 trie)
        (Nibbles.unpack bytes) none (trieProof lib.keccak256 trie (Nibbles.unpack bytes)) =
          .error error := by
      cases hrun : lib.verifyProof (trieRoot lib.keccak256 trie) (Nibbles.unpack bytes) none
          (trieProof lib.keccak256 trie (Nibbles.unpack bytes)) with
      | error error => exact ⟨error, rfl⟩
      | ok _ =>
        have := ((haccepts none).mp hrun).1
        rw [hget] at this
        cases this
    have hincluded := (haccepts (some value)).mpr ⟨hget, rfl⟩
    constructor
    · rintro ⟨path', value', hsome, hlt⟩
      rw [hfind, Option.some.injEq, Prod.mk.injEq] at hsome
      obtain ⟨rfl, rfl⟩ := hsome
      obtain ⟨message, hleaf⟩ := hshort hlt
      refine ⟨message, ?_⟩
      simp only [mptGet, hexcluded, hleaf, error_bind]
    · intro hembedded
      have hle : 32 ≤ (encodeNode lib.keccak256 (.leaf path value)).length := by
        by_contra hlt
        exact hembedded ⟨path, value, hfind, by omega⟩
      simp only [mptGet, hexcluded, hlong hle, ok_bind, hincluded, Except.mapError, hget]
      rfl

end Lookup

/-! ## Storage reads of genuine proofs -/

/-- Tries that hold a state: the account trie, and one storage trie for each account. -/
structure HoldsState (lib : CoreLib) (accounts : Trie) (slots : Address → Trie)
    (state : WorldState) : Prop where
  account_get : ∀ address, trieGet accounts (accountKey lib address) =
    (state.account address).map encodeAccount
  root : ∀ address account, state.account address = some account →
    account.storageRoot = trieRoot lib.keccak256 (slots address)
  slot_get : ∀ address slot, trieGet (slots address) (slotKey lib slot) =
    (state.storage address slot).map fun word => encodeWord word.val
  keyed : accounts.Keyed 64 ∧ ∀ address, (slots address).Keyed 64

/-- The evidence an honest host assembles for a slot: the account proof, and the slot proof
of an account that exists. -/
def genuineProof (lib : CoreLib) (accounts : Trie) (slots : Address → Trie) (state : WorldState)
    (address : Address) (slot : B256) : StorageProof where
  accountProof := trieProof lib.keccak256 accounts (accountKey lib address)
  storageProof := if (state.account address).isSome then
    trieProof lib.keccak256 (slots address) (slotKey lib slot) else []

section Storage

variable {accounts : Trie} {slots : Address → Trie} {state : WorldState} {address : Address}
  {slot : B256}

/-- The bounds on the length of an encoded account. -/
theorem length_encodeAccount (account : Account) :
    32 ≤ (encodeAccount account).length ∧ (encodeAccount account).length < 2 ^ 62 := by
  have hnonce := length_rlpBytes_le (significant 8 account.nonce.val)
  have hbalance := length_rlpBytes_le (significant 32 account.balance.val)
  have hroot := length_rlpBytes_le (beBytes 32 account.storageRoot.val)
  have hcode := length_rlpBytes_le (beBytes 32 account.codeHash.val)
  have hroot' := length_le_rlpBytes (beBytes 32 account.storageRoot.val)
  have hnonce' := length_significant_le 8 account.nonce.val
  have hbalance' := length_significant_le 32 account.balance.val
  rw [length_beBytes] at hroot hcode hroot'
  have hlist := length_rlpList [rlpBytes (significant 8 account.nonce.val),
    rlpBytes (significant 32 account.balance.val), rlpBytes (beBytes 32 account.storageRoot.val),
    rlpBytes (beBytes 32 account.codeHash.val)]
  rw [← encodeAccount] at hlist
  simp only [List.flatten_cons, List.flatten_nil, List.length_append, List.length_nil] at hlist
  constructor
  · omega
  · omega

/-- The bound on the length of an encoded word. -/
theorem length_encodeWord (word : U256) : (encodeWord word).length < 2 ^ 62 := by
  have hlen := length_rlpBytes_le (significant 32 word.val)
  have hword := length_significant_le 32 word.val
  rw [← encodeWord] at hlen
  omega

/-- The leaf of an account is never embedded: it carries two hashes. -/
theorem account_not_embedded (h : HoldsState lib accounts slots state) :
    ¬EmbeddedLeaf lib.keccak256 accounts (accountKey lib address) := by
  rintro ⟨path, value, hfind, hshort⟩
  have hget := trieGet_of_find hfind
  rw [h.account_get] at hget
  obtain ⟨account, _, rfl⟩ := Option.map_eq_some_iff.mp hget
  have hlong := (length_encodeAccount account).1
  have hleaf := length_le_leaf lib.keccak256 path (encodeAccount account)
  omega

/-- A trie that is not empty has another root than the empty one. -/
theorem trieRoot_ne_empty {trie : Trie} (hempty : hash (rlpBytes []) = emptyTrieRoot)
    (hinj : Set.InjOn hash {encodeNode hash trie, rlpBytes []}) (hne : trie ≠ .empty) :
    trieRoot hash trie ≠ emptyTrieRoot := by
  intro hroot
  have hencoded : encodeNode hash trie = rlpBytes [] :=
    hinj (Set.mem_insert _ _) (Set.mem_insert_of_mem _ rfl) (hroot.trans hempty.symm)
  obtain ⟨items, hitems⟩ : ∃ items, encodeNode hash trie = rlpList items := by
    cases trie with
    | empty => exact absurd rfl hne
    | leaf path value => exact ⟨_, rfl⟩
    | extension path child => exact ⟨_, rfl⟩
    | branch children => exact ⟨_, rfl⟩
  have hlen : (rlpList items).length = 1 := by
    rw [← hitems, hencoded]
    rfl
  have hle := length_le_rlpList items
  obtain ⟨b, rest, hhead, hb⟩ := @rlpList_head items (by omega)
  rw [hitems, hhead] at hencoded
  rw [(List.cons.inj hencoded).1] at hb
  exact hb (by decide)

/-- The storage read of genuine evidence returns the word of the slot exactly when the leaf
of the slot is not embedded in its parent; otherwise the evidence is refused. -/
theorem verifyStorageValue_genuine (hrlp : lib.rlpHeader = canonicalHeader)
    (hstate : HoldsState lib accounts slots state) (haccounts : AcceptsGenuine lib accounts)
    (hslots : ∀ account, state.account address = some account → AcceptsGenuine lib (slots address))
    (hempty : lib.keccak256 (rlpBytes []) = emptyTrieRoot)
    (hinj : Set.InjOn lib.keccak256 {encodeNode lib.keccak256 (slots address), rlpBytes []}) :
    verifyStorageValue lib (trieRoot lib.keccak256 accounts) address slot
        (genuineProof lib accounts slots state address slot) = .ok (state.value address slot) ↔
      ¬((state.account address).isSome ∧
        EmbeddedLeaf lib.keccak256 (slots address) (slotKey lib slot)) := by
  have haccount : mptGet lib (trieRoot lib.keccak256 accounts) (accountKey lib address)
      (trieProof lib.keccak256 accounts (accountKey lib address)) =
        .ok ((state.account address).map encodeAccount) := by
    have hfits : ∀ value, trieGet accounts (accountKey lib address) = some value →
        value.length < 2 ^ 62 := by
      intro value hvalue
      rw [hstate.account_get] at hvalue
      obtain ⟨account, _, rfl⟩ := Option.map_eq_some_iff.mp hvalue
      exact (length_encodeAccount account).2
    rw [← hstate.account_get]
    exact (mptGet_genuine hrlp haccounts hstate.keyed.1 hfits (length_beBytes 32 _) rfl).2
      (account_not_embedded hstate)
  cases ha : state.account address with
  | none =>
    have hzero : state.value address slot = 0 := by
      refine WorldState.value_of_none ?_
      rw [WorldState.slot, ha]
      rfl
    rw [ha, accountKey] at haccount
    rw [hzero]
    simp only [verifyStorageValue, genuineProof, accountKey, haccount, ha, Except.mapError,
      Option.map_none, Option.isSome_none, Bool.false_eq_true, if_false, ok_bind, ensure, if_true,
      false_and, not_false_eq_true, iff_true]
    rfl
  | some account =>
    have hfits : ∀ value, trieGet (slots address) (slotKey lib slot) = some value →
        value.length < 2 ^ 62 := by
      intro value hvalue
      rw [hstate.slot_get] at hvalue
      obtain ⟨word, _, rfl⟩ := Option.map_eq_some_iff.mp hvalue
      exact length_encodeWord word.val
    obtain ⟨hrefused, hread⟩ := mptGet_genuine hrlp (hslots account ha) (hstate.keyed.2 address)
      hfits (length_beBytes 32 _) rfl
    have hslot : state.slot address slot = state.storage address slot := by
      rw [WorldState.slot, ha]
      rfl
    rw [ha, accountKey] at haccount
    by_cases hroot : slots address = .empty
    · -- An empty storage trie is known by its root and needs no nodes.
      have hstorageRoot : account.storageRoot = emptyTrieRoot := by
        rw [hstate.root address account ha, hroot]
        exact hempty
      have hnone : state.storage address slot = none := by
        have hget := hstate.slot_get address slot
        rw [hroot] at hget
        exact Option.map_eq_none_iff.mp hget.symm
      have hembedded : ¬EmbeddedLeaf lib.keccak256 (slots address) (slotKey lib slot) := by
        rintro ⟨path, value, hfind, _⟩
        rw [hroot] at hfind
        cases hfind
      have hnodes : trieProof lib.keccak256 (slots address) (slotKey lib slot) = [] := by
        rw [hroot]
        rfl
      rw [WorldState.value_of_none (hslot.trans hnone)]
      simp only [verifyStorageValue, genuineProof, accountKey, haccount, ha, Except.mapError,
        Option.map_some, Option.isSome_some, if_true, ok_bind,
        decodeAccountStorageRoot_encode hrlp, hstorageRoot, hnodes, ensure, hembedded, and_false,
        not_false_eq_true, iff_true]
      rfl
    · have hstorageRoot := trieRoot_ne_empty hempty hinj hroot
      rw [← hstate.root address account ha] at hstorageRoot hrefused hread
      by_cases hembedded : EmbeddedLeaf lib.keccak256 (slots address) (slotKey lib slot)
      · obtain ⟨message, hrefused⟩ := hrefused hembedded
        rw [slotKey] at hrefused
        simp only [verifyStorageValue, genuineProof, accountKey, slotKey, haccount, ha,
          Except.mapError, Option.map_some, Option.isSome_some, if_true, ok_bind,
          decodeAccountStorageRoot_encode hrlp, if_neg hstorageRoot, hrefused, error_bind,
          reduceCtorEq, false_iff, true_and, not_not]
        exact hembedded
      · have hread := hread hembedded
        rw [hstate.slot_get, slotKey] at hread
        simp only [verifyStorageValue, genuineProof, accountKey, slotKey, haccount, ha,
          Except.mapError, Option.map_some, Option.isSome_some, if_true, ok_bind,
          decodeAccountStorageRoot_encode hrlp, if_neg hstorageRoot, hread]
        refine iff_of_true ?_ (fun h => hembedded h.2)
        cases hs : state.storage address slot with
        | none =>
          rw [WorldState.value_of_none (hslot.trans hs)]
          rfl
        | some word =>
          have hlen : (significant 32 word.val.val).length ≤ 32 := length_significant_le 32 _
          rw [WorldState.value_of_some (hslot.trans hs)]
          simp only [Option.map_some, nextItem_encodeWord hrlp, ok_bind, ensure, hlen, and_self,
            if_true, u256FromBeSlice_significant]

end Storage

/-! ## Genuine evidence -/

/-- Genuine proofs are read back exactly when the leaf of the key is absent or stored on its
own: the lookup then returns what the trie holds, and a storage read the word of its slot. -/
theorem genuine_evidence_iff (hrlp : lib.rlpHeader = canonicalHeader) :
    (∀ (trie : Trie) (bytes : Bytes), AcceptsGenuine lib trie → trie.Keyed 64 →
      (∀ value, trieGet trie (Nibbles.unpack bytes) = some value → value.length < 2 ^ 62) →
      bytes.length = 32 →
      (mptGet lib (trieRoot lib.keccak256 trie) (Nibbles.unpack bytes)
          (trieProof lib.keccak256 trie (Nibbles.unpack bytes)) =
            .ok (trieGet trie (Nibbles.unpack bytes)) ↔
        ¬EmbeddedLeaf lib.keccak256 trie (Nibbles.unpack bytes))) ∧
    ∀ (accounts : Trie) (slots : Address → Trie) (state : WorldState) (address : Address)
      (slot : B256), HoldsState lib accounts slots state → AcceptsGenuine lib accounts →
      (∀ account, state.account address = some account → AcceptsGenuine lib (slots address)) →
      lib.keccak256 (rlpBytes []) = emptyTrieRoot →
      Set.InjOn lib.keccak256 {encodeNode lib.keccak256 (slots address), rlpBytes []} →
      (verifyStorageValue lib (trieRoot lib.keccak256 accounts) address slot
          (genuineProof lib accounts slots state address slot) = .ok (state.value address slot) ↔
        ¬((state.account address).isSome ∧
          EmbeddedLeaf lib.keccak256 (slots address) (slotKey lib slot))) := by
  constructor
  · intro trie bytes haccepts hkeyed hfits hlen
    obtain ⟨hrefused, hread⟩ := mptGet_genuine hrlp haccepts hkeyed hfits hlen rfl
    constructor
    · intro hok hembedded
      obtain ⟨message, hrefused⟩ := hrefused hembedded
      rw [hrefused] at hok
      cases hok
    · exact hread
  · intro accounts slots state address slot hstate haccounts hslots hempty hinj
    exact verifyStorageValue_genuine hrlp hstate haccounts hslots hempty hinj

/-! ## A crowded storage trie -/

/-- A proof check that accepts exactly the genuine proofs of the given tries. -/
def genuineCheck (hash : Bytes → B256) (tries : List Trie) (root : B256) (key : Nibbles)
    (value : Option Bytes) (nodes : List Bytes) : Except String Unit :=
  if tries.any (fun trie => trieRoot hash trie = root ∧ trieGet trie key = value ∧
    nodes = trieProof hash trie key) then .ok () else .error "value mismatch"

/-- A proof is accepted if it is the one that the trie gives for what it holds. -/
theorem genuineCheck_iff {hash : Bytes → B256} {tries : List Trie}
    (hroots : (tries.map (trieRoot hash)).Nodup) {trie : Trie} (hmem : trie ∈ tries)
    {key : Nibbles} {value : Option Bytes} {nodes : List Bytes} :
    genuineCheck hash tries (trieRoot hash trie) key value nodes = .ok () ↔
      trieGet trie key = value ∧ nodes = trieProof hash trie key := by
  have hiff : (tries.any fun t => decide (trieRoot hash t = trieRoot hash trie ∧
      trieGet t key = value ∧ nodes = trieProof hash t key)) = true ↔
      trieGet trie key = value ∧ nodes = trieProof hash trie key := by
    rw [List.any_eq_true]
    constructor
    · rintro ⟨t, ht, haccepted⟩
      obtain ⟨hroot, hrest⟩ := of_decide_eq_true haccepted
      rw [List.inj_on_of_nodup_map hroots ht hmem hroot] at hrest
      exact hrest
    · intro h
      exact ⟨trie, hmem, decide_eq_true ⟨rfl, h⟩⟩
  rw [genuineCheck]
  by_cases hany : (tries.any fun t => decide (trieRoot hash t = trieRoot hash trie ∧
      trieGet t key = value ∧ nodes = trieProof hash t key)) = true
  · rw [if_pos hany]
    exact iff_of_true rfl (hiff.mp hany)
  · rw [if_neg hany]
    exact iff_of_false (by simp) (mt hiff.mpr hany)

/-- A platform that checks proofs against tries. -/
def genuineLib (tries : List Trie) : CoreLib :=
  { (circuitExemplar none).lib.toCoreLib with verifyProof := genuineCheck exemplarHash tries }

/-- Over such a platform the proofs of every trie are accepted. -/
theorem genuineLib_accepts {tries : List Trie}
    (hroots : (tries.map (trieRoot exemplarHash)).Nodup) {trie : Trie} (hmem : trie ∈ tries) :
    AcceptsGenuine (genuineLib tries) trie :=
  fun _ _ _ _ => genuineCheck_iff hroots hmem

/-- The half-bytes of the hashed key of a slot. -/
def slotHalves (slot : B256) : List (Fin 16) :=
  (slotKey (circuitExemplar none).lib.toCoreLib slot).halves

/-- Two slots whose hashed keys share eight half-bytes, holding the words 5 and 7. -/
def crowdedSlots : Trie :=
  .extension ((slotHalves 0).take 8) (.branch fun s =>
    if some s = (slotHalves 0)[8]? then .leaf ((slotHalves 0).drop 9) (encodeWord 5)
    else if some s = (slotHalves (2 ^ 220))[8]? then
      .leaf ((slotHalves (2 ^ 220)).drop 9) (encodeWord 7)
    else .empty)

/-- The account trie of the contract at address 30. -/
def crowdedAccounts : Trie :=
  .leaf (accountKey (circuitExemplar none).lib.toCoreLib 30).halves
    (encodeAccount ⟨1, 0, trieRoot exemplarHash crowdedSlots, 0⟩)

/-- The contract at address 30 holds 5 and 7 in the two slots. -/
def crowdedState : WorldState where
  account address :=
    if address = 30 then some ⟨1, 0, trieRoot exemplarHash crowdedSlots, 0⟩ else none
  storage address slot :=
    if address = 30 ∧ slot = 0 then some ⟨5, by decide⟩
    else if address = 30 ∧ slot = 2 ^ 220 then some ⟨7, by decide⟩ else none

/-- The keys of the crowded slots have 64 half-bytes. -/
theorem crowdedSlots_keyed : crowdedSlots.Keyed 64 := by
  refine ⟨by decide +kernel, by decide +kernel, ?_⟩
  intro s
  have hfirst : ((slotHalves 0).drop 9).length = 55 := by decide +kernel
  have hsecond : ((slotHalves (2 ^ 220)).drop 9).length = 55 := by decide +kernel
  have hrest : 64 - ((slotHalves 0).take 8).length - 1 = 55 := by decide +kernel
  rw [hrest]
  dsimp only
  split
  · exact hfirst
  · split
    · exact hsecond
    · trivial

/-- The genuine proof of the slot holding 5 is refused: its leaf travels inside the branch
above it, so the last listed node is that branch. -/
theorem crowded_slot_refused :
    AcceptsGenuine (genuineLib [crowdedAccounts, crowdedSlots]) crowdedAccounts ∧
      AcceptsGenuine (genuineLib [crowdedAccounts, crowdedSlots]) crowdedSlots ∧
      crowdedSlots.Keyed 64 ∧
      trieGet crowdedSlots (slotKey (genuineLib [crowdedAccounts, crowdedSlots]) 0) =
        some (encodeWord 5) ∧
      mptGet (genuineLib [crowdedAccounts, crowdedSlots]) (trieRoot exemplarHash crowdedSlots)
        (slotKey (genuineLib [crowdedAccounts, crowdedSlots]) 0)
        (trieProof exemplarHash crowdedSlots
          (slotKey (genuineLib [crowdedAccounts, crowdedSlots]) 0)) =
        .error (.err "proof node: key terminates in a branch") ∧
      crowdedState.value 30 0 = 5 ∧
      (verifyStorageValue (genuineLib [crowdedAccounts, crowdedSlots])
        (trieRoot exemplarHash crowdedAccounts) 30 0
        (genuineProof (genuineLib [crowdedAccounts, crowdedSlots]) crowdedAccounts
          (fun _ => crowdedSlots) crowdedState 30 0)).isOk = false := by
  have hroots : ([crowdedAccounts, crowdedSlots].map (trieRoot exemplarHash)).Nodup := by
    decide +kernel
  refine ⟨genuineLib_accepts hroots (List.mem_cons_self ..),
    genuineLib_accepts hroots (List.mem_cons_of_mem _ (List.mem_cons_self ..)),
    crowdedSlots_keyed, by decide +kernel, by decide +kernel, by decide +kernel,
    by decide +kernel⟩

/-! ## A storage trie of one slot -/

/-- The hash of the exemplar, with the root of the empty trie as the chain has it. -/
def groundedHash (bytes : Bytes) : B256 :=
  if bytes = rlpBytes [] then emptyTrieRoot else exemplarHash bytes

/-- The half-bytes of a hashed key; they are computed by the kernel alone. -/
@[irreducible] def groundedHalves (bytes : Bytes) : List (Fin 16) :=
  (Nibbles.unpack (beBytes 32 (groundedHash bytes).val)).halves

/-- Slot 0 holds 5. -/
def plainSlots : Trie := .leaf (groundedHalves (beBytes 32 0)) (encodeWord 5)

/-- An account with the storage of plain slots. -/
def plainAccount : Account := ⟨1, 0, trieRoot groundedHash plainSlots, 0⟩

/-- The account trie of the contract at address 30. -/
def plainAccounts : Trie := .leaf (groundedHalves (beBytes 20 30)) (encodeAccount plainAccount)

/-- The state in the two tries; addresses and slots of one hashed key are one. -/
def plainState : WorldState where
  account address :=
    if groundedHalves (beBytes 20 address.val) = groundedHalves (beBytes 20 30) then
      some plainAccount
    else none
  storage _ slot :=
    if groundedHalves (beBytes 32 slot.val) = groundedHalves (beBytes 32 0) then
      some ⟨5, by decide⟩
    else none

/-- A platform that checks proofs against the plain tries. -/
def plainLib : CoreLib :=
  { (circuitExemplar none).lib.toCoreLib with
    keccak256 := groundedHash
    verifyProof := genuineCheck groundedHash [plainAccounts, plainSlots] }

/-- A trie of one leaf holds the value of its path alone. -/
theorem trieGet_leaf (path : List (Fin 16)) (value : Bytes) (key : Nibbles) :
    trieGet (.leaf path value) key = if key.halves = path then some value else none := by
  rw [trieGet, Patricia.Node.get, Patricia.Node.find]
  split
  · rfl
  · rfl

/-- The plain tries hold the plain state. -/
theorem plainState_held : HoldsState plainLib plainAccounts (fun _ => plainSlots) plainState where
  account_get address := by
    have hkey : (accountKey plainLib address).halves = groundedHalves (beBytes 20 address.val) := by
      rw [groundedHalves]
      rfl
    rw [plainAccounts, trieGet_leaf, hkey, plainState, apply_ite (Option.map encodeAccount)]
    rfl
  root address account haccount := by
    obtain ⟨_, haccount⟩ := Option.ite_none_right_eq_some.mp haccount
    rw [← Option.some.inj haccount]
    rfl
  slot_get address slot := by
    have hkey : (slotKey plainLib slot).halves = groundedHalves (beBytes 32 slot.val) := by
      rw [groundedHalves]
      rfl
    rw [plainSlots, trieGet_leaf, hkey, plainState, apply_ite (Option.map _)]
    rfl
  keyed := by
    constructor
    · change (groundedHalves (beBytes 20 30)).length = 64
      decide +kernel
    · intro _
      change (groundedHalves (beBytes 32 0)).length = 64
      decide +kernel

/-- The genuine proof of the slot that holds 5 is read back, and so are the empty slot beside it
and the leaf of the slot in its trie. -/
theorem plain_slot_read :
    mptGet plainLib (trieRoot groundedHash plainSlots)
        (Nibbles.unpack (beBytes 32 (groundedHash (beBytes 32 0)).val))
        (trieProof groundedHash plainSlots
          (Nibbles.unpack (beBytes 32 (groundedHash (beBytes 32 0)).val))) =
        .ok (some (encodeWord 5)) ∧
      verifyStorageValue plainLib (trieRoot groundedHash plainAccounts) 30 0
        (genuineProof plainLib plainAccounts (fun _ => plainSlots) plainState 30 0) = .ok 5 ∧
      verifyStorageValue plainLib (trieRoot groundedHash plainAccounts) 30 1
        (genuineProof plainLib plainAccounts (fun _ => plainSlots) plainState 30 1) = .ok 0 := by
  have hroots : ([plainAccounts, plainSlots].map (trieRoot groundedHash)).Nodup := by
    decide +kernel
  have haccounts : AcceptsGenuine plainLib plainAccounts :=
    fun _ _ _ _ => genuineCheck_iff hroots (List.mem_cons_self ..)
  have hslots : AcceptsGenuine plainLib plainSlots :=
    fun _ _ _ _ => genuineCheck_iff hroots (List.mem_cons_of_mem _ (List.mem_cons_self ..))
  have hembedded (key : Nibbles) : ¬EmbeddedLeaf groundedHash plainSlots key := by
    rintro ⟨path, value, hfind, hshort⟩
    rw [plainSlots, Patricia.Node.find] at hfind
    obtain ⟨_, hleaf⟩ := Option.ite_none_right_eq_some.mp hfind
    obtain ⟨rfl, rfl⟩ := Prod.mk.inj (Option.some.inj hleaf)
    exact absurd hshort (by decide +kernel)
  have hinj : Set.InjOn groundedHash {encodeNode groundedHash plainSlots, rlpBytes []} := by
    have hne : groundedHash (encodeNode groundedHash plainSlots) ≠ groundedHash (rlpBytes []) := by
      decide +kernel
    rintro _ (rfl | rfl) _ (rfl | rfl) hsame
    · rfl
    · exact absurd hsame hne
    · exact absurd hsame.symm hne
    · rfl
  have hempty : groundedHash (rlpBytes []) = emptyTrieRoot := if_pos rfl
  have hfits : ∀ value, trieGet plainSlots
      (Nibbles.unpack (beBytes 32 (groundedHash (beBytes 32 0)).val)) = some value →
        value.length < 2 ^ 62 := by
    intro value hvalue
    rw [plainSlots, trieGet_leaf] at hvalue
    obtain ⟨_, hvalue⟩ := Option.ite_none_right_eq_some.mp hvalue
    rw [← Option.some.inj hvalue]
    decide +kernel
  obtain ⟨hget, hread⟩ := @genuine_evidence_iff plainLib rfl
  have hstored (slot : B256) := (hread plainAccounts (fun _ => plainSlots) plainState 30 slot
    plainState_held haccounts (fun _ _ => hslots) hempty hinj).mpr fun h => hembedded _ h.2
  have hslot := (hget plainSlots (beBytes 32 (groundedHash (beBytes 32 0)).val) hslots
    (plainState_held.keyed.2 30) hfits (length_beBytes 32 _)).mpr (hembedded _)
  refine ⟨hslot.trans ?_, (hstored 0).trans ?_, (hstored 1).trans ?_⟩
  · decide +kernel
  · decide +kernel
  · decide +kernel

end LoopProof
