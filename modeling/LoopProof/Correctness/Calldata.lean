import LoopProof.Proving.Calldata

/-!
# Staging calldata is the contract's encoding

A body of the calldata is the text of a byte string's length, bytes and padding, so the whole call
is the text of its selector and of the strict encoding of its two arguments.
-/

namespace LoopProof.Proving

/-- The selector's bytes. -/
def stageSelectorBytes : Bytes := [0x2b, 0xe6, 0x31, 0xa3]

/-- The digits of the selector. -/
theorem hexText_stageSelectorBytes : hexText stageSelectorBytes = stageSellerProofSelector := by
  decide

/-- The text of a byte string as the script writes it. -/
def bytesText (bytes : Bytes) : List Char := '0' :: 'x' :: hexText bytes

/-- The bytes of a text are read back. -/
@[simp] theorem dynamicBytes_bytesText (bytes : Bytes) :
    dynamicBytes (bytesText bytes) = some bytes :=
  hexBytes_hexText bytes

/-- Different bytes have different texts. -/
theorem bytesText_injective {left right : Bytes} (h : bytesText left = bytesText right) :
    left = right :=
  hexText_injective (List.cons.inj (List.cons.inj h).2).2

/-- Reading a text in lower case writes its bytes. -/
theorem dynamicHex_of_bytes {value : List Char} {bytes : Bytes}
    (h : dynamicBytes value = some bytes) (label : String) :
    dynamicHex value label = .ok (bytesText bytes) := by
  have hlower : value.map Char.toLower = bytesText bytes := by
    unfold dynamicBytes at h
    split at h
    · rw [List.map_cons, List.map_cons, map_toLower_of_hexBytes h]
      rfl
    · cases h
  rw [dynamicHex, h, hlower]
  rfl

/-- A text that denotes no bytes is refused by its name. -/
theorem dynamicHex_of_none {value : List Char} (h : dynamicBytes value = none) (label : String) :
    dynamicHex value label = .error s!"invalid {label}" := by
  rw [dynamicHex, h]
  rfl

/-- A text of bytes is read in lower case. -/
theorem dynamicHex_eq_ok {value text : List Char} {label : String} :
    dynamicHex value label = .ok text ↔
      ∃ bytes, dynamicBytes value = some bytes ∧ bytesText bytes = text := by
  cases h : dynamicBytes value with
  | none => simp only [dynamicHex_of_none h, reduceCtorEq, false_and, exists_false]
  | some bytes =>
    simp only [dynamicHex_of_bytes h, Except.ok.injEq, Option.some.injEq, exists_eq_left']

/-- The text of a byte string with its length and padding. -/
theorem encodeDynamicBytes_bytesText {bytes : Bytes} (hlength : bytes.length < 2 ^ 256) :
    encodeDynamicBytes (bytesText bytes) = hexText (abiBytes bytes) := by
  have hcount : (hexText bytes).length / 2 = bytes.length := by
    rw [length_hexText]
    omega
  have hpadding : List.replicate ((bytes.length + 31) / 32 * 64 - 2 * bytes.length) '0' =
      hexText (List.replicate (abiPaddedLength bytes.length - bytes.length) 0) := by
    rw [hexText_replicate_zero, abiPaddedLength]
    congr 1
    omega
  change word ((hexText bytes).length / 2) ++
    (hexText bytes).rightpad (((hexText bytes).length / 2 + 31) / 32 * 64) '0' = _
  rw [hcount, List.rightpad, length_hexText, hpadding, word, leftpad_toDigits_word hlength,
    abiBytes, hexText_append, hexText_append]

/-- The length of a text of bytes. -/
theorem length_of_dynamicBytes {value : List Char} {bytes : Bytes}
    (h : dynamicBytes value = some bytes) : value.length = 2 + 2 * bytes.length := by
  unfold dynamicBytes at h
  split at h
  · have hlower := congrArg List.length (map_toLower_of_hexBytes h)
    rw [List.length_map, length_hexText] at hlower
    rw [List.length_cons, List.length_cons, hlower]
    omega
  · cases h

/-- The text of a byte string, if the language can hold it. -/
def HexText.ofBytes (bytes : Bytes) (h : 2 + 2 * bytes.length ≤ maxSafeInteger) : HexText where
  text := bytesText bytes
  bytes := bytes
  denotes := dynamicBytes_bytesText bytes
  bounded := by rwa [length_of_dynamicBytes (dynamicBytes_bytesText bytes)]

/-- A text's byte string is far shorter than a word can count. -/
theorem HexText.length_bytes_lt (value : HexText) : value.bytes.length < 2 ^ 53 := by
  have hlength := length_of_dynamicBytes value.denotes
  have hbound : value.text.length ≤ 9007199254740991 := value.bounded
  omega

/-- The bytes of a staging call. -/
def stageCall (publicValues proofBytes : Bytes) : Bytes :=
  stageSelectorBytes ++ abiEncode [publicValues, proofBytes]

/-- The length of the call. -/
theorem length_stageCall (publicValues proofBytes : Bytes) :
    (stageCall publicValues proofBytes).length =
      4 + 128 + abiPaddedLength publicValues.length + abiPaddedLength proofBytes.length := by
  rw [stageCall, abiEncode, List.length_append, List.length_append, length_abiHeads,
    length_abiTails]
  simp only [stageSelectorBytes, List.length_cons, List.length_nil, List.map_cons, List.map_nil,
    List.sum_cons, List.sum_nil]
  omega

/-- The calldata of two byte strings is the text of their call. -/
theorem encodeStageSellerProof_eq (publicValues proofBytes : HexText) :
    encodeStageSellerProof publicValues.text proofBytes.text =
      .ok (bytesText (stageCall publicValues.bytes proofBytes.bytes)) := by
  have hfirst := publicValues.length_bytes_lt
  have hsecond := proofBytes.length_bytes_lt
  have hoffset : (hexText (abiBytes publicValues.bytes)).length / 2 =
      (abiBytes publicValues.bytes).length := by
    rw [length_hexText]
    omega
  have hpadded : abiPaddedLength publicValues.bytes.length < 2 ^ 54 := by
    unfold abiPaddedLength
    omega
  have hword : word (64 + (abiBytes publicValues.bytes).length) =
      hexText (abiWord (64 + (abiBytes publicValues.bytes).length)) :=
    leftpad_toDigits_word (by rw [length_abiBytes]; omega)
  have hhead : word 64 = hexText (abiWord 64) := leftpad_toDigits_word (by norm_num)
  rw [encodeStageSellerProof, dynamicHex_of_bytes publicValues.denotes,
    dynamicHex_of_bytes proofBytes.denotes]
  simp only [ok_bind, encodeDynamicBytes_bytesText (hfirst.trans (by norm_num)),
    encodeDynamicBytes_bytesText (hsecond.trans (by norm_num)), hoffset, hword, hhead]
  rw [stageCall, abiEncode, bytesText]
  simp only [abiHeads, abiTails, hexText_append, hexText_stageSelectorBytes, List.flatMap_cons,
    List.flatMap_nil, List.append_nil, List.append_assoc, List.length_cons, List.length_nil]
  rfl

/-- The strict decoder reads the two byte strings behind the selector of their call. -/
theorem abiDecode_stageCall (publicValues proofBytes : HexText) :
    abiDecode 2 ((stageCall publicValues.bytes proofBytes.bytes).drop 4) =
      some [publicValues.bytes, proofBytes.bytes] := by
  have hfirst := publicValues.length_bytes_lt
  have hsecond := proofBytes.length_bytes_lt
  have hlength := length_stageCall publicValues.bytes proofBytes.bytes
  rw [stageCall, List.length_append] at hlength
  rw [stageCall, List.drop_left' (by rfl)]
  apply abiDecode_abiEncode
  unfold abiPaddedLength at hlength
  omega

/-- Staging calldata is the selector with the exact encoding of its two byte strings: the strict
decoder recovers them, the length counts their padded lengths, and no other pair has it. -/
theorem encodeStageSellerProof_exact (publicValues proofBytes : HexText) :
    ∃ call : Bytes,
      encodeStageSellerProof publicValues.text proofBytes.text = .ok (bytesText call) ∧
      call = stageSelectorBytes ++ abiEncode [publicValues.bytes, proofBytes.bytes] ∧
      abiDecode 2 (call.drop 4) = some [publicValues.bytes, proofBytes.bytes] ∧
      call.length = 4 + 128 + abiPaddedLength publicValues.bytes.length +
        abiPaddedLength proofBytes.bytes.length ∧
      ∀ publicValues' proofBytes' : HexText,
        encodeStageSellerProof publicValues'.text proofBytes'.text =
            encodeStageSellerProof publicValues.text proofBytes.text →
          publicValues'.bytes = publicValues.bytes ∧ proofBytes'.bytes = proofBytes.bytes := by
  refine ⟨stageCall publicValues.bytes proofBytes.bytes,
    encodeStageSellerProof_eq publicValues proofBytes, rfl,
    abiDecode_stageCall publicValues proofBytes,
    length_stageCall publicValues.bytes proofBytes.bytes, ?_⟩
  intro publicValues' proofBytes' hsame
  rw [encodeStageSellerProof_eq, encodeStageSellerProof_eq] at hsame
  have hcall := bytesText_injective (Except.ok.inj hsame)
  have hread := abiDecode_stageCall publicValues' proofBytes'
  rw [hcall, abiDecode_stageCall publicValues proofBytes] at hread
  have hpair := Option.some.inj hread
  simp only [List.cons.injEq, and_true] at hpair
  exact ⟨hpair.1.symm, hpair.2.symm⟩

/-- Byte strings of no, of one and of more than one word are staged with their padded lengths. -/
theorem stagedLengths_exact :
    (∃ call, encodeStageSellerProof (bytesText []) (bytesText (List.replicate 32 9)) =
        .ok (bytesText call) ∧
      abiDecode 2 (call.drop 4) = some [[], List.replicate 32 9] ∧ call.length = 164) ∧
    ∃ call, encodeStageSellerProof (bytesText (List.replicate 33 7)) (bytesText []) =
        .ok (bytesText call) ∧
      abiDecode 2 (call.drop 4) = some [List.replicate 33 7, []] ∧ call.length = 196 := by
  constructor
  · obtain ⟨call, hcall, _, hread, hlength, _⟩ := encodeStageSellerProof_exact
      (.ofBytes [] (by decide)) (.ofBytes (List.replicate 32 9) (by decide))
    exact ⟨call, hcall, hread, hlength⟩
  · obtain ⟨call, hcall, _, hread, hlength, _⟩ := encodeStageSellerProof_exact
      (.ofBytes (List.replicate 33 7) (by decide)) (.ofBytes [] (by decide))
    exact ⟨call, hcall, hread, hlength⟩

/-- A published artifact carries the calldata of its two texts, and its proof is not empty. -/
theorem buildSellerCalldataArtifact_calldata {sellerProof : SellerProof} {artifact : SellerCalldata}
    (h : buildSellerCalldataArtifact sellerProof = .ok artifact) :
    encodeStageSellerProof artifact.publicValues artifact.proofBytes = .ok artifact.calldata ∧
      ∃ bytes, dynamicBytes artifact.proofBytes = some bytes ∧ bytes ≠ [] := by
  simp only [buildSellerCalldataArtifact, bind_eq_ok, ensure_eq_ok, dynamicHex_eq_ok] at h
  obtain ⟨_, _, _, _, publicValues, _, proofBytes, ⟨bytes, _, rfl⟩, _, hne, calldata, hcalldata,
    hartifact⟩ := h
  rw [← pure_eq_ok.mp hartifact]
  refine ⟨hcalldata, bytes, dynamicBytes_bytesText bytes, ?_⟩
  intro hempty
  exact hne (by rw [hempty]; rfl)

end LoopProof.Proving
