/-!
# Byte buffers

Reading and writing single bytes of a `ByteArray`. An index outside the buffer reads as zero and is not written, so
a claim that an operation stays inside its buffer is a statement about the indices and never about these functions.
-/

namespace Framecast.Buffer

/-- The byte at an index, and zero past the end. -/
def byteAt (b : ByteArray) (i : Nat) : UInt8 := if h : i < b.size then b[i] else 0

/-- Replaces the byte at an index; nothing changes past the end. -/
def put (b : ByteArray) (i : Nat) (v : UInt8) : ByteArray := if h : i < b.size then b.set i v h else b

/-- Appends a byte `count` times. -/
def pushMany (v : UInt8) : Nat → ByteArray → ByteArray
  | 0, b => b
  | count + 1, b => pushMany v count (b.push v)

/-- A buffer of `count` equal bytes. -/
def replicate (count : Nat) (v : UInt8) : ByteArray := pushMany v count ByteArray.empty

/-- A buffer of `count` zeros. -/
def zeros (count : Nat) : ByteArray := replicate count 0

/-- Puts a byte into `count` consecutive places from `start`. -/
def fill (v : UInt8) : Nat → Nat → ByteArray → ByteArray
  | 0, _, b => b
  | count + 1, start, b => fill v count (start + 1) (put b start v)

def ofList (bytes : List UInt8) : ByteArray := bytes.foldl ByteArray.push ByteArray.empty

def toList (b : ByteArray) : List UInt8 := (List.range b.size).map (byteAt b)

@[simp] theorem size_put (b : ByteArray) (i : Nat) (v : UInt8) : (put b i v).size = b.size := by
  simp only [put]
  split
  · simp only [ByteArray.size, ByteArray.set, Array.size_set]
  · rfl

theorem byteAt_put (b : ByteArray) (i j : Nat) (v : UInt8) :
    byteAt (put b i v) j = if i = j ∧ j < b.size then v else byteAt b j := by
  by_cases hi : i < b.size
  · by_cases hj : j < b.size
    · have hj' : j < (b.set i v hi).size := by
        simpa only [ByteArray.size, ByteArray.set, Array.size_set] using hj
      simp only [byteAt, put, hi, hj, hj', ↓reduceDIte, and_true]
      have hj'' : j < (b.data.set i v hi).size := by rw [Array.size_set]; exact hj
      show (b.data.set i v hi)[j] = _
      rw [Array.getElem_set]
      rfl
    · have hj' : ¬ j < (b.set i v hi).size := by
        simpa only [ByteArray.size, ByteArray.set, Array.size_set] using hj
      simp only [byteAt, put, hi, hj, hj', ↓reduceDIte, and_false, ↓reduceIte]
  · have : ¬ (i = j ∧ j < b.size) := by
      rintro ⟨rfl, h⟩
      exact hi h
    simp only [put, hi, ↓reduceDIte, this, ↓reduceIte]

theorem size_pushMany (v : UInt8) (count : Nat) (b : ByteArray) :
    (pushMany v count b).size = b.size + count := by
  induction count generalizing b with
  | zero => rfl
  | succ count ih =>
    rw [pushMany, ih, ByteArray.size_push]
    omega

@[simp] theorem size_replicate (count : Nat) (v : UInt8) : (replicate count v).size = count := by
  rw [replicate, size_pushMany]
  simp

@[simp] theorem size_zeros (count : Nat) : (zeros count).size = count := size_replicate count 0

@[simp] theorem size_fill (v : UInt8) (count start : Nat) (b : ByteArray) :
    (fill v count start b).size = b.size := by
  induction count generalizing start b with
  | zero => rfl
  | succ count ih => rw [fill, ih, size_put]

theorem byteAt_of_lt {b : ByteArray} {i : Nat} (h : i < b.size) : byteAt b i = b[i] := dif_pos h

theorem byteAt_of_le {b : ByteArray} {i : Nat} (h : b.size ≤ i) : byteAt b i = 0 := dif_neg (by omega)

theorem byteAt_push (b : ByteArray) (v : UInt8) (i : Nat) :
    byteAt (b.push v) i = if i = b.size then v else byteAt b i := by
  rcases Nat.lt_trichotomy i b.size with hlt | rfl | hgt
  · rw [if_neg (by omega), byteAt_of_lt (by rw [ByteArray.size_push]; omega), byteAt_of_lt hlt]
    exact Array.getElem_push_lt hlt
  · rw [if_pos rfl, byteAt_of_lt (by rw [ByteArray.size_push]; omega)]
    exact Array.getElem_push_eq
  · rw [if_neg (by omega), byteAt_of_le (by rw [ByteArray.size_push]; omega), byteAt_of_le (by omega)]

@[simp] theorem byteAt_zeros (count i : Nat) : byteAt (zeros count) i = 0 := by
  have hpush : ∀ b : ByteArray, (∀ j, byteAt b j = 0) → ∀ j, byteAt (pushMany 0 count b) j = 0 := by
    induction count with
    | zero => exact fun b hb => hb
    | succ count ih =>
        intro b hb
        refine ih (b.push 0) fun j => ?_
        rw [byteAt_push, hb, ite_self]
  exact hpush _ (fun _ => byteAt_of_le (Nat.zero_le _)) i

theorem byteAt_fill (v : UInt8) (count start : Nat) (b : ByteArray) (i : Nat) :
    byteAt (fill v count start b) i = if (start ≤ i ∧ i < start + count) ∧ i < b.size then v else byteAt b i := by
  induction count generalizing start b with
  | zero => rw [fill, if_neg (by omega)]
  | succ count ih =>
      rw [fill, ih, byteAt_put, size_put]
      rcases Nat.lt_trichotomy start i with hlt | rfl | hgt
      · have hiff : start + 1 ≤ i ∧ i < start + 1 + count ↔ start ≤ i ∧ i < start + (count + 1) := by omega
        simp only [hiff, Nat.ne_of_lt hlt, false_and, ↓reduceIte]
      · have hend : start < start + (count + 1) := by omega
        simp only [Nat.not_succ_le_self, Nat.le_refl, hend, false_and, true_and, ↓reduceIte]
      · rw [if_neg (by omega), if_neg (by omega), if_neg (by omega)]

theorem byteAt_append (a b : ByteArray) (i : Nat) :
    byteAt (a ++ b) i = if i < a.size then byteAt a i else byteAt b (i - a.size) := by
  by_cases h : i < (a ++ b).size
  · have hsize := ByteArray.size_append (a := a) (b := b)
    by_cases ha : i < a.size
    · rw [if_pos ha, byteAt_of_lt h, byteAt_of_lt ha, ByteArray.getElem_append_left ha]
    · rw [if_neg ha, byteAt_of_lt h, byteAt_of_lt (by omega), ByteArray.getElem_append_right (by omega)]
  · have hsize := ByteArray.size_append (a := a) (b := b)
    rw [byteAt_of_le (by omega), if_neg (by omega), byteAt_of_le (by omega)]

theorem byteAt_extract {b : ByteArray} {start stop i : Nat} (h : start + i < stop) (hstop : stop ≤ b.size) :
    byteAt (b.extract start stop) i = byteAt b (start + i) := by
  have hi : i < (b.extract start stop).size := by
    rw [ByteArray.size_extract]
    omega
  rw [byteAt_of_lt hi, byteAt_of_lt (by omega), ByteArray.getElem_extract]

theorem size_copySlice {source target : ByteArray} {i j count : Nat} (hi : i + count ≤ source.size)
    (hj : j + count ≤ target.size) : (source.copySlice i target j count).size = target.size := by
  rw [ByteArray.copySlice_eq_append]
  simp only [ByteArray.size_append, ByteArray.size_extract, ByteArray.size_data]
  omega

/-- A copied run of bytes stands in the target in place of what was there, and the rest stays. -/
theorem byteAt_copySlice {source target : ByteArray} {i j count : Nat} (hi : i + count ≤ source.size)
    (hj : j + count ≤ target.size) (k : Nat) :
    byteAt (source.copySlice i target j count) k =
      if j ≤ k ∧ k < j + count then byteAt source (i + (k - j)) else byteAt target k := by
  have hmin : min count (source.size - i) = count := by omega
  rw [ByteArray.copySlice_eq_append]
  simp only [byteAt_append, ByteArray.size_append, ByteArray.size_extract, ByteArray.size_data, hmin]
  rcases Nat.lt_or_ge k j with hk | hk
  · rw [if_pos (by omega), if_pos (by omega), if_neg (by omega), byteAt_extract (by omega) (by omega), Nat.zero_add]
  · rcases Nat.lt_or_ge k (j + count) with hk' | hk'
    · rw [if_pos (by omega), if_neg (by omega), if_pos ⟨hk, hk'⟩, byteAt_extract (by omega) hi]
      congr 1
      omega
    · rw [if_neg (by omega), if_neg (by omega)]
      rcases Nat.lt_or_ge k target.size with hlt | hge
      · rw [byteAt_extract (by omega) (by omega)]
        congr 1
        omega
      · rw [byteAt_of_le hge, byteAt_of_le (by rw [ByteArray.size_extract]; omega)]

theorem ofList_eq (bytes : List UInt8) : ofList bytes = bytes.toByteArray := by
  have hfold : ∀ b : ByteArray, bytes.foldl ByteArray.push b = b ++ bytes.toByteArray := by
    induction bytes with
    | nil => exact fun b => ByteArray.append_empty.symm
    | cons byte rest ih =>
        intro b
        rw [List.foldl_cons, ih, ← ByteArray.append_toByteArray_singleton, ByteArray.append_assoc,
          ← List.toByteArray_append, List.singleton_append]
  rw [ofList, hfold, ByteArray.empty_append]

theorem size_ofList (bytes : List UInt8) : (ofList bytes).size = bytes.length := by
  rw [ofList_eq, List.size_toByteArray]

theorem byteAt_ofList {bytes : List UInt8} {i : Nat} {byte : UInt8} (h : bytes[i]? = some byte) :
    byteAt (ofList bytes) i = byte := by
  obtain ⟨hi, rfl⟩ := List.getElem?_eq_some_iff.mp h
  rw [byteAt_of_lt (by rwa [size_ofList])]
  simp only [ofList_eq, List.getElem_toByteArray]

/-- The first bytes of a buffer, as a list of their values. -/
theorem ofList_map_byteAt {b : ByteArray} {count : Nat} (h : count ≤ b.size) :
    ofList ((List.range count).map (byteAt b)) = b.extract 0 count := by
  apply ByteArray.ext_getElem
  · rw [size_ofList, List.length_map, List.length_range, ByteArray.size_extract]
    omega
  · intro i hi hi'
    rw [size_ofList, List.length_map, List.length_range] at hi
    have hget : ((List.range count).map (byteAt b))[i]? = some (byteAt b i) := by simp [hi]
    rw [← byteAt_of_lt, byteAt_ofList hget, ByteArray.getElem_extract, byteAt_of_lt (by omega)]
    simp only [Nat.zero_add]

end Framecast.Buffer
