import LoopProof.Lib.Abi
import LoopProof.Lib.Fallible
import LoopProof.Lib.Hex

/-!
# Staging calldata

The call that stages a seller's proof on chain, written by hand as a hexadecimal text. Texts are
lists of characters; `HexText` is a text of the script that denotes a byte string.
-/

namespace LoopProof.Proving

/-- The bytes that a text of any length denotes. -/
def dynamicBytes : List Char → Option Bytes
  | '0' :: 'x' :: digits => hexBytes digits
  | _ => none

/-- A byte string's text; the language bounds the length of every text. -/
structure HexText where
  text : List Char
  bytes : Bytes
  denotes : dynamicBytes text = some bytes
  bounded : text.length ≤ maxSafeInteger

/-- The call that stages a proof. -/
def stageSellerProofSignature : String := "stageSellerProof(bytes,bytes)"

/-- The selector of the call. -/
def stageSellerProofSelector : List Char := "2be631a3".toList

/-- A text of exactly so many bytes, in lower case. -/
def fixedHex (value : List Char) (byteLength : ℕ) (label : String) : Except String (List Char) := do
  ensure ((dynamicBytes value).map List.length = some byteLength) s!"invalid {label}"
  return value.map Char.toLower

/-- A text of whole bytes, in lower case. -/
def dynamicHex (value : List Char) (label : String) : Except String (List Char) := do
  ensure ((dynamicBytes value).isSome) s!"invalid {label}"
  return value.map Char.toLower

/-- A number in 64 digits. -/
def word (value : ℕ) : List Char := (Nat.toDigits 16 value).leftpad 64 '0'

/-- The number of bytes and the bytes, filled up to whole words. -/
def encodeDynamicBytes (value : List Char) : List Char :=
  let bytes := value.drop 2
  let byteLength := bytes.length / 2
  let paddedLength := (byteLength + 31) / 32 * 64
  word byteLength ++ bytes.rightpad paddedLength '0'

/-- The calldata that stages two texts of bytes. -/
def encodeStageSellerProof (publicValues proofBytes : List Char) : Except String (List Char) := do
  let publicValues ← dynamicHex publicValues "public values"
  let publicValuesBody := encodeDynamicBytes publicValues
  let proofBytes ← dynamicHex proofBytes "proof bytes"
  let proofBody := encodeDynamicBytes proofBytes
  let headSize := 64
  let proofOffset := headSize + publicValuesBody.length / 2
  return '0' :: 'x' :: (stageSellerProofSelector ++ word headSize ++ word proofOffset ++
    publicValuesBody ++ proofBody)

/-! ## The calldata artifact -/

/-- A published proof of one seller. -/
structure SellerProof where
  version : ℕ
  kind : String
  proofArchitecture : String
  proved : Bool
  verified : Bool
  securityMode : String
  chainId : ℕ
  seller : List Char
  sellerProgramVKey : List Char
  publicValues : List Char
  proofBytes : List Char
  deriving DecidableEq, Repr

/-- What is published for the call. -/
structure SellerCalldata where
  version : ℕ
  kind : String
  proofArchitecture : String
  securityMode : String
  chainId : ℕ
  seller : List Char
  sellerProgramVKey : List Char
  callSignature : String
  publicValues : List Char
  proofBytes : List Char
  calldata : List Char
  deriving DecidableEq, Repr

/-- The calldata of a proof that was made and verified. -/
def buildSellerCalldataArtifact (sellerProof : SellerProof) : Except String SellerCalldata := do
  ensure (sellerProof.version = 3 ∧ sellerProof.kind = "antseed-wash-trading-seller-proof" ∧
    sellerProof.proofArchitecture = "direct-seller-v1" ∧ sellerProof.proved ∧
    sellerProof.verified) "invalid direct seller proof artifact"
  let sellerProgramVKey ← fixedHex sellerProof.sellerProgramVKey 32 "seller program vkey"
  let publicValues ← dynamicHex sellerProof.publicValues "public values"
  let proofBytes ← dynamicHex sellerProof.proofBytes "proof bytes"
  ensure (proofBytes ≠ "0x".toList) "proof bytes are empty"
  let calldata ← encodeStageSellerProof publicValues proofBytes
  return ⟨2, "antseed-wash-trading-stage-seller-proof-calldata", "direct-seller-v1",
    sellerProof.securityMode, sellerProof.chainId, sellerProof.seller.map Char.toLower,
    sellerProgramVKey, stageSellerProofSignature, publicValues, proofBytes, calldata⟩

end LoopProof.Proving
