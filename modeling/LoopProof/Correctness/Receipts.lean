import LoopProof.Predicate.Exemplar

/-!
# Receipts read back what was encoded

The host writes a receipt and the guest parses it. Over the canonical item decoder the
status and every log read back exactly, at every length form, and an index past the last
log is an error.
-/

namespace LoopProof

variable {lib : CoreLib}

/-! ## Encoded items -/

private theorem length_le_flatten {item : Bytes} {items : List Bytes} (h : item ∈ items) :
    item.length ≤ items.flatten.length :=
  (List.sublist_flatten_of_mem h).length_le

/-- A prefix has a byte. -/
theorem rlpLenPrefix_ne_nil (base len : ℕ) : rlpLenPrefix base len ≠ [] := by
  unfold rlpLenPrefix
  split <;> simp

/-- An encoded list has a byte. -/
theorem rlpList_ne_nil (items : List Bytes) : rlpList items ≠ [] := by
  intro h
  exact rlpLenPrefix_ne_nil _ _ (List.append_eq_nil_iff.mp h).1

/-- An encoded payload has a byte. -/
theorem rlpBytes_ne_nil (payload : Bytes) : rlpBytes payload ≠ [] := by
  unfold rlpBytes
  split
  · rename_i h
    intro hnil
    rw [hnil] at h
    exact absurd h.1 (by decide)
  · intro h
    exact rlpLenPrefix_ne_nil _ _ (List.append_eq_nil_iff.mp h).1

/-- A payload is no longer than its encoding. -/
theorem length_le_rlpBytes (payload : Bytes) : payload.length ≤ (rlpBytes payload).length := by
  unfold rlpBytes
  split
  · exact le_rfl
  · rw [List.length_append]
    omega

/-- A prefix takes at most nine bytes. -/
theorem length_rlpBytes_le (payload : Bytes) : (rlpBytes payload).length ≤ payload.length + 9 := by
  have hlen := length_significant_le 8 payload.length
  unfold rlpBytes
  split
  · omega
  · unfold rlpLenPrefix
    split
    · simp only [List.length_append, List.length_singleton]
      omega
    · simp only [List.length_append, List.length_cons]
      omega

/-- The bounds on the length of an encoded list. -/
theorem length_rlpList (items : List Bytes) :
    items.flatten.length ≤ (rlpList items).length ∧
      (rlpList items).length ≤ items.flatten.length + 9 := by
  have hlen := length_significant_le 8 items.flatten.length
  unfold rlpList rlpLenPrefix
  split
  · simp only [List.length_append, List.length_singleton]
    omega
  · simp only [List.length_append, List.length_cons]
    omega

/-- The items are no longer than the encoded list. -/
theorem length_le_rlpList (items : List Bytes) :
    items.flatten.length ≤ (rlpList items).length := (length_rlpList items).1

/-- A list item never starts like a type byte. -/
theorem rlpList_head {items : List Bytes} (hfits : items.flatten.length < 2 ^ 64) :
    ∃ b rest, rlpList items = b :: rest ∧ ¬b < 0xc0 := by
  unfold rlpList rlpLenPrefix
  split
  · rename_i hshort
    refine ⟨_, _, List.cons_append, ?_⟩
    rw [UInt8.lt_iff_toNat_lt, UInt8.toNat_ofNat']
    change ¬_ < 192
    omega
  · refine ⟨_, _, List.cons_append, ?_⟩
    have hlen := length_significant_le 8 items.flatten.length
    rw [UInt8.lt_iff_toNat_lt, UInt8.toNat_ofNat']
    change ¬_ < 192
    omega

/-- A hash is read back from its bytes. -/
theorem b256FromSlice_beBytes (word : B256) : b256FromSlice (beBytes 32 word.val) = .ok word := by
  rw [b256FromSlice, if_pos (length_beBytes 32 _), beNat_beBytes]
  refine congrArg Except.ok (Fin.ext ?_)
  have hlt := word.isLt
  rw [Fin.val_ofNat]
  norm_num at hlt ⊢
  omega

/-- An address is read back from its bytes. -/
theorem addressFromSlice_beBytes (address : Address) :
    addressFromSlice (beBytes 20 address.val) = .ok address := by
  rw [addressFromSlice, if_pos (length_beBytes 20 _), beNat_beBytes]
  refine congrArg Except.ok (Fin.ext ?_)
  have hlt := address.isLt
  rw [Fin.val_ofNat]
  norm_num at hlt ⊢
  omega

/-! ## Logs -/

/-- The topic loop reads back the topics, one item at a time. -/
theorem topicsLoop_encoded (hlib : lib.rlpHeader = canonicalHeader) (topics : List B256)
    {fuel : ℕ} (hfuel : topics.length ≤ fuel) (done : List B256) :
    topicsLoop lib fuel (topics.map fun topic => rlpBytes (beBytes 32 topic.val)).flatten done =
      .ok (done ++ topics) := by
  induction topics generalizing fuel done with
  | nil =>
    rw [List.map_nil, List.flatten_nil, List.append_nil]
    cases fuel <;> rfl
  | cons topic topics ih =>
    rw [List.length_cons] at hfuel
    obtain ⟨fuel, rfl⟩ : ∃ k, fuel = k + 1 := ⟨fuel - 1, by omega⟩
    rw [List.map_cons, List.flatten_cons]
    have hitem := nextItem_rlpBytes hlib (beBytes 32 topic.val)
      (topics.map fun topic => rlpBytes (beBytes 32 topic.val)).flatten
      (by rw [length_beBytes]; norm_num)
    obtain ⟨b, rest, hbuf⟩ := List.exists_cons_of_ne_nil
      (List.append_ne_nil_of_left_ne_nil (rlpBytes_ne_nil (beBytes 32 topic.val))
        (topics.map fun topic => rlpBytes (beBytes 32 topic.val)).flatten)
    rw [hbuf] at hitem ⊢
    simp only [topicsLoop, hitem, ok_bind, length_beBytes, ensure, if_true,
      b256FromSlice_beBytes]
    rw [ih (by omega), List.append_assoc, List.singleton_append]

/-- Items that are not empty are no more than their bytes. -/
theorem length_le_flatten_length {items : List Bytes} (h : ∀ item ∈ items, item ≠ []) :
    items.length ≤ items.flatten.length := by
  induction items with
  | nil => simp
  | cons item items ih =>
    rw [List.forall_mem_cons] at h
    have hpos := List.length_pos_iff.mpr h.1
    have := ih h.2
    rw [List.length_cons, List.flatten_cons, List.length_append]
    omega

/-- The payload of an encoded log decodes to the log. -/
theorem parseLog_encoded (hlib : lib.rlpHeader = canonicalHeader) {log : ParsedLog}
    (hfits : (encodeLog log).length < 2 ^ 64) :
    parseLog lib (rlpBytes (beBytes 20 log.address.val) ++
      (rlpList (log.topics.map fun topic => rlpBytes (beBytes 32 topic.val)) ++
        rlpBytes log.data)) = .ok log := by
  have hparts := length_le_rlpList [rlpBytes (beBytes 20 log.address.val),
    rlpList (log.topics.map fun topic => rlpBytes (beBytes 32 topic.val)), rlpBytes log.data]
  rw [← encodeLog] at hparts
  have htopics := length_le_rlpList (log.topics.map fun topic => rlpBytes (beBytes 32 topic.val))
  have hdata := length_le_rlpBytes log.data
  simp only [List.flatten_cons, List.flatten_nil, List.length_append, List.append_nil] at hparts
  have haddress := nextItem_rlpBytes hlib (beBytes 20 log.address.val)
    (rlpList (log.topics.map fun topic => rlpBytes (beBytes 32 topic.val)) ++ rlpBytes log.data)
    (by rw [length_beBytes]; norm_num)
  have hlist := nextItem_rlpList hlib
    (log.topics.map fun topic => rlpBytes (beBytes 32 topic.val)) (rlpBytes log.data) (by omega)
  have hbytes := nextItem_rlpBytes hlib log.data [] (by omega)
  rw [List.append_nil] at hbytes
  have hcount : log.topics.length ≤
      (log.topics.map fun topic => rlpBytes (beBytes 32 topic.val)).flatten.length := by
    refine le_trans (by rw [List.length_map]) (length_le_flatten_length ?_)
    intro item hitem
    obtain ⟨topic, _, rfl⟩ := List.mem_map.mp hitem
    exact rlpBytes_ne_nil _
  have hloop := topicsLoop_encoded hlib log.topics hcount []
  simp only [parseLog, haddress, ok_bind, length_beBytes, ensure, if_true, hlist, hloop, hbytes,
    addressFromSlice_beBytes, List.nil_append]
  rfl

/-- An encoded log is one list item. -/
theorem nextItem_encodeLog (hlib : lib.rlpHeader = canonicalHeader) (log : ParsedLog)
    (tail : Bytes) (hfits : (encodeLog log).length < 2 ^ 64) :
    nextItem lib (encodeLog log ++ tail) = .ok ⟨true, rlpBytes (beBytes 20 log.address.val) ++
      (rlpList (log.topics.map fun topic => rlpBytes (beBytes 32 topic.val)) ++
        rlpBytes log.data), tail⟩ := by
  have hle := length_le_rlpList [rlpBytes (beBytes 20 log.address.val),
    rlpList (log.topics.map fun topic => rlpBytes (beBytes 32 topic.val)), rlpBytes log.data]
  rw [← encodeLog] at hle
  have hitem := nextItem_rlpList hlib [rlpBytes (beBytes 20 log.address.val),
    rlpList (log.topics.map fun topic => rlpBytes (beBytes 32 topic.val)), rlpBytes log.data] tail
    (by omega)
  simpa only [encodeLog, List.flatten_cons, List.flatten_nil, List.append_nil] using hitem

/-- The log loop, standing at index `i`, reads the selected log or runs out of logs. -/
theorem receiptLogLoop_encoded (hlib : lib.rlpHeader = canonicalHeader) (logIndex : Usize)
    (logs : List ParsedLog) (hfits : ∀ log ∈ logs, (encodeLog log).length < 2 ^ 64)
    {fuel : ℕ} (hfuel : logs.length ≤ fuel) {i : ℕ} (hi : i ≤ logIndex.val) :
    receiptLogLoop lib logIndex fuel (logs.map encodeLog).flatten i =
      okOr logs[logIndex.val - i]? (.err s!"receipt: log index {logIndex} out of range") := by
  induction logs generalizing fuel i with
  | nil =>
    rw [List.map_nil, List.flatten_nil, List.getElem?_nil]
    cases fuel <;> rfl
  | cons log logs ih =>
    rw [List.forall_mem_cons] at hfits
    rw [List.length_cons] at hfuel
    obtain ⟨fuel, rfl⟩ : ∃ k, fuel = k + 1 := ⟨fuel - 1, by omega⟩
    have hitem := nextItem_encodeLog hlib log (logs.map encodeLog).flatten hfits.1
    obtain ⟨b, rest, hbuf⟩ := List.exists_cons_of_ne_nil
      (List.append_ne_nil_of_left_ne_nil (show encodeLog log ≠ [] from rlpList_ne_nil _)
        (logs.map encodeLog).flatten)
    rw [List.map_cons, List.flatten_cons]
    rw [hbuf] at hitem ⊢
    simp only [receiptLogLoop, hitem, ok_bind, ensure, if_true]
    by_cases heq : i = logIndex.val
    · rw [if_pos heq, parseLog_encoded hlib hfits.1, heq, Nat.sub_self]
      rfl
    · have hsub : logIndex.val - i = logIndex.val - (i + 1) + 1 := by omega
      rw [if_neg heq, ih hfits.2 (by omega) (by omega), hsub, List.getElem?_cons_succ]

/-! ## Receipts -/

section Encoded

variable {type : UInt8} {status cumulativeGas : U64} {bloom : Bytes} {logs : List ParsedLog}
  {deposit : Option (U64 × U64)}

/-- The fields of a receipt after its log list. -/
def extraFields (type : UInt8) (deposit : Option (U64 × U64)) : Bytes :=
  match deposit with
  | some (nonce, version) =>
    if type = 0x7e then
      rlpUint (widen bits64_le_128 nonce) ++ rlpUint (widen bits64_le_128 version)
    else []
  | none => []

/-- The body of a receipt: status, gas, bloom, logs and the extra fields. -/
def encodedBody (type : UInt8) (status cumulativeGas : U64) (bloom : Bytes)
    (logs : List ParsedLog) (deposit : Option (U64 × U64)) : Bytes :=
  rlpUint (widen bits64_le_128 status) ++ (rlpUint (widen bits64_le_128 cumulativeGas) ++
    (rlpBytes bloom ++ (rlpList (logs.map encodeLog) ++ extraFields type deposit)))

/-- A receipt is the list of its fields behind its type. -/
theorem encodeReceipt_eq : ∃ fields,
    fields.flatten = encodedBody type status cumulativeGas bloom logs deposit ∧
      encodeReceipt type status cumulativeGas bloom logs deposit =
        if type = 0 then rlpList fields else type :: rlpList fields := by
  refine ⟨_, ?_, rfl⟩
  rw [List.flatten_append, encodedBody]
  simp only [List.flatten_cons, List.flatten_nil, List.append_nil, List.append_assoc]
  congr 4
  cases deposit with
  | none => rfl
  | some fields =>
    by_cases htype : type = 0x7e
    · simp [extraFields, htype]
    · simp [extraFields, htype]

/-- A receipt with a type below `0x80` is stripped to its body. -/
theorem receiptBody_encoded (hlib : lib.rlpHeader = canonicalHeader) (htype : type < 0x80)
    (hfits : (encodeReceipt type status cumulativeGas bloom logs deposit).length < 2 ^ 64) :
    receiptBody lib (encodeReceipt type status cumulativeGas bloom logs deposit) =
      .ok (encodedBody type status cumulativeGas bloom logs deposit) := by
  obtain ⟨fields, hbody, heq⟩ := @encodeReceipt_eq type status cumulativeGas bloom logs deposit
  have hle := length_le_rlpList fields
  rw [heq] at hfits ⊢
  have hpayload : fields.flatten.length < 2 ^ 64 := by
    split at hfits
    · omega
    · rw [List.length_cons] at hfits
      omega
  have hitem := nextItem_rlpList hlib fields [] hpayload
  rw [List.append_nil] at hitem
  by_cases hzero : type = 0
  · obtain ⟨b, rest, hhead, hb⟩ := rlpList_head hpayload
    rw [if_pos hzero]
    rw [hhead] at hitem ⊢
    simp only [receiptBody, if_neg hb, hitem, ok_bind, ensure, if_true, hbody]
    rfl
  · have hstrip : type < 0xc0 := UInt8.lt_trans htype (by decide)
    rw [if_neg hzero]
    simp only [receiptBody, if_pos hstrip, hitem, ok_bind, ensure, if_true, hbody]
    rfl

/-- The fields are no longer than the receipt. -/
theorem length_encodedBody_le :
    (encodedBody type status cumulativeGas bloom logs deposit).length ≤
      (encodeReceipt type status cumulativeGas bloom logs deposit).length := by
  obtain ⟨fields, hbody, heq⟩ := @encodeReceipt_eq type status cumulativeGas bloom logs deposit
  have hle := length_le_rlpList fields
  rw [heq, ← hbody]
  split
  · exact hle
  · rw [List.length_cons]
    omega

/-- An encoded number is read back in front of any bytes. -/
theorem nextItem_rlpUint (hlib : lib.rlpHeader = canonicalHeader) (word : U128) (tail : Bytes) :
    nextItem lib (rlpUint word ++ tail) = .ok ⟨false, significant 16 word.val, tail⟩ := by
  have hle := length_significant_le 16 word.val
  exact nextItem_rlpBytes hlib (significant 16 word.val) tail (by omega)

/-- Only the number one has the single significant byte one. -/
theorem significant_eq_one {word : U128} : significant 16 word.val = [1] ↔ word = 1 := by
  constructor
  · intro h
    have hword := beNat_significant (k := 16) (n := word.val)
      (by have := word.isLt; norm_num at this ⊢; exact this)
    rw [h] at hword
    exact Fin.ext hword.symm
  · rintro rfl
    decide

/-- The guest reads back every receipt the host encodes: the status, each log at its index,
and an error for every index past the last log. -/
theorem receipt_roundTrip (hlib : lib.rlpHeader = canonicalHeader) (htype : type < 0x80)
    (hfits : (encodeReceipt type status cumulativeGas bloom logs deposit).length < 2 ^ 64) :
    receiptSuccess lib (encodeReceipt type status cumulativeGas bloom logs deposit) =
        .ok (decide (status = 1)) ∧
      ∀ logIndex : Usize,
        (∀ log, logs[logIndex.val]? = some log →
          receiptLog lib (encodeReceipt type status cumulativeGas bloom logs deposit) logIndex =
            .ok log) ∧
        (logs.length ≤ logIndex.val → ∃ message,
          receiptLog lib (encodeReceipt type status cumulativeGas bloom logs deposit) logIndex =
            .error (.err message)) := by
  have hbody := receiptBody_encoded hlib htype hfits
  have hstatus := nextItem_rlpUint hlib (widen bits64_le_128 status)
    (rlpUint (widen bits64_le_128 cumulativeGas) ++
      (rlpBytes bloom ++ (rlpList (logs.map encodeLog) ++ extraFields type deposit)))
  constructor
  · have hone : (significant 16 (widen bits64_le_128 status).val == [1]) = decide (status = 1) := by
      rw [Bool.eq_iff_iff, beq_iff_eq, significant_eq_one, decide_eq_true_iff, Fin.ext_iff,
        Fin.ext_iff]
      rfl
    simp only [receiptSuccess, hbody, ok_bind, encodedBody, hstatus, hone]
    rfl
  · have hlen := @length_encodedBody_le type status cumulativeGas bloom logs deposit
    have hbloom := length_le_rlpBytes bloom
    have hlogs := length_le_rlpList (logs.map encodeLog)
    simp only [encodedBody, List.length_append] at hlen
    have hgas := nextItem_rlpUint hlib (widen bits64_le_128 cumulativeGas)
      (rlpBytes bloom ++ (rlpList (logs.map encodeLog) ++ extraFields type deposit))
    have hblooms := nextItem_rlpBytes hlib bloom
      (rlpList (logs.map encodeLog) ++ extraFields type deposit) (by omega)
    have hlist := nextItem_rlpList hlib (logs.map encodeLog) (extraFields type deposit) (by omega)
    have hlog : ∀ log ∈ logs, (encodeLog log).length < 2 ^ 64 := by
      intro log hmem
      have := length_le_flatten (List.mem_map_of_mem (f := encodeLog) hmem)
      omega
    have hcount : logs.length ≤ (logs.map encodeLog).flatten.length := by
      refine le_trans (by rw [List.length_map]) (length_le_flatten_length ?_)
      intro item hitem
      obtain ⟨log, _, rfl⟩ := List.mem_map.mp hitem
      exact rlpList_ne_nil _
    intro logIndex
    have hloop := receiptLogLoop_encoded hlib logIndex logs hlog hcount (Nat.zero_le _)
    have hread : receiptLog lib
        (encodeReceipt type status cumulativeGas bloom logs deposit) logIndex =
        okOr logs[logIndex.val]? (.err s!"receipt: log index {logIndex} out of range") := by
      simp only [receiptLog, hbody, ok_bind, encodedBody, hstatus, hgas, hblooms, hlist, ensure,
        if_true, hloop, Nat.sub_zero]
    constructor
    · intro log hlog
      rw [hread, hlog]
      rfl
    · intro hout
      rw [hread, List.getElem?_eq_none hout]
      exact ⟨_, rfl⟩

end Encoded

/-- A deposit receipt with one log reads back. -/
theorem deposit_receipt_reads_back :
    receiptSuccess (circuitExemplar none).lib.toCoreLib
        (encodeReceipt 0x7e 1 21000 [] [transferLog 12 13 100] (some (7, 1))) = .ok true ∧
      receiptLog (circuitExemplar none).lib.toCoreLib
        (encodeReceipt 0x7e 1 21000 [] [transferLog 12 13 100] (some (7, 1))) 0 =
          .ok (transferLog 12 13 100) := by
  have h := @receipt_roundTrip (circuitExemplar none).lib.toCoreLib 0x7e 1 21000 []
    [transferLog 12 13 100] (some (7, 1)) rfl (by decide) (by decide +kernel)
  exact ⟨h.1, (h.2 0).1 _ rfl⟩

end LoopProof
