import LoopProof.Lib.Word

/-!
# Reading static words

A byte string of whole 32-byte words is the encoding of the numbers that are read from it.
-/

namespace LoopProof

/-- The first numbers of a byte string, one a word. -/
def readWords : ℕ → Bytes → List ℕ
  | 0, _ => []
  | count + 1, bytes => beNat (bytes.take 32) :: readWords count (bytes.drop 32)

/-- A byte string is the encoding of its number at its own length. -/
theorem beBytes_beNat (bytes : Bytes) : beBytes bytes.length (beNat bytes) = bytes := by
  induction bytes using List.reverseRecOn with
  | nil => rfl
  | append_singleton bytes b ih =>
    have hvalue : beNat (bytes ++ [b]) = 256 * beNat bytes + b.toNat := by
      rw [beNat, List.foldl_append]
      rfl
    have hb : b.toNat < 256 := b.toNat_lt
    have hhigh : (256 * beNat bytes + b.toNat) / 256 = beNat bytes := by omega
    have hlow : UInt8.ofNat (256 * beNat bytes + b.toNat) = b := by
      apply UInt8.toNat_inj.mp
      rw [UInt8.toNat_ofNat']
      omega
    rw [List.length_append, List.length_singleton, beBytes, hvalue, hhigh, hlow, ih]

/-- Every read number fits a word. -/
theorem readWords_lt {count n : ℕ} {bytes : Bytes} (h : n ∈ readWords count bytes) :
    n < 2 ^ 256 := by
  induction count generalizing bytes with
  | zero => cases h
  | succ count ih =>
    rcases List.mem_cons.mp h with rfl | hrest
    · have hlt := beNat_lt (bytes.take 32)
      have hle : 256 ^ (bytes.take 32).length ≤ 256 ^ 32 :=
        Nat.pow_le_pow_right (by decide) (List.length_take_le _ _)
      have hword : 256 ^ 32 = 2 ^ 256 := by norm_num
      exact hword ▸ hlt.trans_le hle
    · exact ih hrest

/-- Whole words are the encoding of their numbers. -/
theorem abiWords_readWords {count : ℕ} {bytes : Bytes} (h : bytes.length = 32 * count) :
    abiWords (readWords count bytes) = bytes := by
  induction count generalizing bytes with
  | zero => exact (List.length_eq_zero_iff.mp h).symm
  | succ count ih =>
    have hfirst : (bytes.take 32).length = 32 := by
      rw [List.length_take]
      omega
    have hrest : (bytes.drop 32).length = 32 * count := by
      rw [List.length_drop]
      omega
    have hword : abiWord (beNat (bytes.take 32)) = bytes.take 32 := by
      have h := beBytes_beNat (bytes.take 32)
      rwa [hfirst] at h
    rw [readWords, abiWords, List.flatMap_cons, hword]
    exact (congrArg _ (ih hrest)).trans (List.take_append_drop 32 bytes)

/-- Numbers that fit a word are read back from their encoding. -/
theorem readWords_abiWords {words : List ℕ} (h : ∀ n ∈ words, n < 2 ^ 256) :
    readWords words.length (abiWords words) = words := by
  have hlength : (abiWords words).length = 32 * words.length := length_abiWords words
  exact abiWords_injective (fun n hn => readWords_lt hn) h (abiWords_readWords hlength)

end LoopProof
