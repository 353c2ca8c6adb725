import LoopProof.Lib.Word

/-!
# Dynamic arguments of the contract ABI

An argument area of byte strings opens with one offset word an argument and stores each string's
length, bytes and zero padding behind them. The strict decoder accepts only the offsets, lengths
and padding of that layout and no byte beyond its last string; it recovers every encoded list.
-/

namespace LoopProof

/-- A length rounded up to whole words. -/
def abiPaddedLength (n : ℕ) : ℕ := (n + 31) / 32 * 32

theorem le_abiPaddedLength (n : ℕ) : n ≤ abiPaddedLength n := by
  unfold abiPaddedLength
  omega

/-- A byte string with its length and its zero padding. -/
def abiBytes (value : Bytes) : Bytes :=
  abiWord value.length ++ (value ++ List.replicate (abiPaddedLength value.length - value.length) 0)

@[simp] theorem length_abiBytes (value : Bytes) :
    (abiBytes value).length = 32 + abiPaddedLength value.length := by
  have hle := le_abiPaddedLength value.length
  simp only [abiBytes, List.length_append, length_abiWord, List.length_replicate]
  omega

/-- The offset words of an area whose first string is at the given offset. -/
def abiHeads : ℕ → List Bytes → Bytes
  | _, [] => []
  | offset, value :: values => abiWord offset ++ abiHeads (offset + (abiBytes value).length) values

/-- The values behind the heads. -/
def abiTails (values : List Bytes) : Bytes := values.flatMap abiBytes

/-- The argument area of a list of byte strings. -/
def abiEncode (values : List Bytes) : Bytes :=
  abiHeads (32 * values.length) values ++ abiTails values

@[simp] theorem length_abiHeads (offset : ℕ) (values : List Bytes) :
    (abiHeads offset values).length = 32 * values.length := by
  induction values generalizing offset with
  | nil => rfl
  | cons value values ih =>
    rw [abiHeads, List.length_append, length_abiWord, ih, List.length_cons]
    omega

theorem length_abiTails (values : List Bytes) :
    (abiTails values).length = (values.map fun value => 32 + abiPaddedLength value.length).sum := by
  simp only [abiTails, List.length_flatMap, length_abiBytes]

/-! ## The strict decoder -/

/-- The word at a position of an area. -/
def wordAt (area : Bytes) (position : ℕ) : Option ℕ :=
  if position + 32 ≤ area.length then some (beNat ((area.drop position).take 32)) else none

/-- The byte string at a position of an area, with the position behind its padding. -/
def bytesAt (area : Bytes) (position : ℕ) : Option (Bytes × ℕ) := do
  let length ← wordAt area position
  let stop := position + 32 + abiPaddedLength length
  if stop ≤ area.length then
    let body := (area.drop (position + 32)).take (abiPaddedLength length)
    if (body.drop length).all (· == 0) then some (body.take length, stop) else none
  else none

/-- Decode the strings whose offset words begin at `head`; the next of them is stored at `tail`
and the last one ends the area. -/
def argumentsAt (area : Bytes) : ℕ → ℕ → ℕ → Option (List Bytes)
  | 0, _, tail => if tail = area.length then some [] else none
  | count + 1, head, tail => do
    let offset ← wordAt area head
    if offset = tail then
      let (value, stop) ← bytesAt area tail
      let values ← argumentsAt area count (head + 32) stop
      return value :: values
    else none

/-- The strict decoder of an argument area. -/
def abiDecode (count : ℕ) (area : Bytes) : Option (List Bytes) :=
  argumentsAt area count 0 (32 * count)

/-- A written word is read back. -/
theorem wordAt_append {n : ℕ} (left right : Bytes) (hn : n < 2 ^ 256) :
    wordAt (left ++ (abiWord n ++ right)) left.length = some n := by
  have hread : beNat (abiWord n) = n := by
    rw [abiWord, beNat_beBytes, Nat.mod_eq_of_lt (by norm_num at hn ⊢; exact hn)]
  have htake : ((left ++ (abiWord n ++ right)).drop left.length).take 32 = abiWord n := by
    rw [List.drop_left, List.take_left' (length_abiWord n)]
  rw [wordAt, htake, hread, if_pos]
  simp only [List.length_append, length_abiWord]
  omega

/-- A written byte string is read back. -/
theorem bytesAt_append {value : Bytes} (left right : Bytes) (hlength : value.length < 2 ^ 256) :
    bytesAt (left ++ (abiBytes value ++ right)) left.length =
      some (value, left.length + (abiBytes value).length) := by
  let padding : Bytes := List.replicate (abiPaddedLength value.length - value.length) 0
  have hle := le_abiPaddedLength value.length
  have hpadded : (value ++ padding).length = abiPaddedLength value.length := by
    simp only [padding, List.length_append, List.length_replicate]
    omega
  have hword : wordAt (left ++ (abiBytes value ++ right)) left.length = some value.length := by
    rw [abiBytes, List.append_assoc]
    exact wordAt_append left _ hlength
  have hdrop : (left ++ (abiBytes value ++ right)).drop (left.length + 32) =
      (value ++ padding) ++ right := by
    rw [abiBytes, List.append_assoc, ← List.append_assoc left]
    exact List.drop_left' (by rw [List.length_append, length_abiWord])
  have hzero : padding.all (· == 0) = true :=
    List.all_eq_true.mpr fun byte hbyte => by
      rw [List.eq_of_mem_replicate hbyte]
      rfl
  have hroom : left.length + 32 + abiPaddedLength value.length ≤
      (left ++ (abiBytes value ++ right)).length := by
    rw [List.length_append, List.length_append, length_abiBytes]
    omega
  rw [bytesAt, hword]
  simp only [Option.bind_eq_bind, Option.bind_some]
  rw [if_pos hroom, hdrop, List.take_left' hpadded, List.drop_left, List.take_left, if_pos hzero,
    length_abiBytes, ← Nat.add_assoc]

/-- The strings of an area are read back from any point of it. -/
private theorem argumentsAt_append (values : List Bytes) (front middle : Bytes) (tail : ℕ)
    (htail : (front ++ abiHeads tail values ++ middle).length = tail)
    (hbound : (front ++ abiHeads tail values ++ middle ++ abiTails values).length < 2 ^ 256) :
    argumentsAt (front ++ abiHeads tail values ++ middle ++ abiTails values) values.length
      front.length tail = some values := by
  induction values generalizing front middle tail with
  | nil =>
    rw [List.length_nil, argumentsAt, if_pos]
    rw [abiTails, List.flatMap_nil, List.append_nil, htail]
  | cons value values ih =>
    -- the head word moves to the front and the string behind it to the middle
    let stop := tail + (abiBytes value).length
    have hheads : abiHeads tail (value :: values) = abiWord tail ++ abiHeads stop values := rfl
    have htails : abiTails (value :: values) = abiBytes value ++ abiTails values := rfl
    let left := front ++ abiHeads tail (value :: values) ++ middle
    change (left ++ abiTails (value :: values)).length < 2 ^ 256 at hbound
    change left.length = tail at htail
    have hsame : left ++ abiTails (value :: values) =
        (front ++ abiWord tail) ++ abiHeads stop values ++ (middle ++ abiBytes value) ++
          abiTails values := by
      simp only [left, hheads, htails, List.append_assoc]
    have hlarge : tail ≤ (left ++ abiTails (value :: values)).length := by
      rw [List.length_append, htail]
      omega
    have hword : wordAt (left ++ abiTails (value :: values)) front.length = some tail := by
      simp only [left, hheads, List.append_assoc]
      exact wordAt_append front _ (by omega)
    have hvalue : value.length < 2 ^ 256 := by
      have hle := le_abiPaddedLength value.length
      have hfits := hbound
      simp only [htails, List.length_append, length_abiBytes] at hfits
      omega
    have hbytes : bytesAt (left ++ abiTails (value :: values)) tail = some (value, stop) := by
      have hread := bytesAt_append left (abiTails values) hvalue
      rwa [htail] at hread
    have hstop : ((front ++ abiWord tail) ++ abiHeads stop values ++
        (middle ++ abiBytes value)).length = stop := by
      have hlength := htail
      simp only [left, hheads, List.length_append, length_abiHeads] at hlength
      simp only [stop, List.length_append, length_abiHeads]
      omega
    have hrest := ih (front ++ abiWord tail) (middle ++ abiBytes value) stop hstop
      (by rw [← hsame]; exact hbound)
    rw [← hsame, List.length_append, length_abiWord] at hrest
    change argumentsAt (left ++ abiTails (value :: values)) (values.length + 1) front.length tail =
      some (value :: values)
    rw [argumentsAt, hword]
    simp only [Option.bind_eq_bind, Option.bind_some, if_true, hbytes, hrest]
    rfl

/-- The strict decoder recovers every encoded list of byte strings. -/
theorem abiDecode_abiEncode {values : List Bytes} (hbound : (abiEncode values).length < 2 ^ 256) :
    abiDecode values.length (abiEncode values) = some values := by
  have hread := argumentsAt_append values [] [] (32 * values.length)
  simp only [List.nil_append, List.append_nil, List.length_nil, length_abiHeads] at hread
  exact hread trivial hbound

end LoopProof
