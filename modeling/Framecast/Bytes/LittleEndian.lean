import Framecast.Bytes.Buffer

/-!
# Little-endian numbers

A number in a fixed count of bytes, the low byte first. Pixels lie so in a canvas and the fields of a frame header
lie so on the wire. The main statements are `load_store` and `decode_encode`: what is read back is the number
modulo the count of values that so many bytes can hold.
-/

namespace Framecast.LittleEndian

open Buffer

/-- How many values `count` bytes can hold. -/
def range : (count : Nat) → Nat
  | 0 => 1
  | count + 1 => 256 * range count

/-- The number in `count` bytes from `start`. -/
def load (b : ByteArray) : (count start : Nat) → Nat
  | 0, _ => 0
  | count + 1, start => (byteAt b start).toNat + 256 * load b count (start + 1)

/-- Writes the low `count` bytes of a number from `start` on. -/
def store (b : ByteArray) : (count start value : Nat) → ByteArray
  | 0, _, _ => b
  | count + 1, start, value => store (put b start value.toUInt8) count (start + 1) (value / 256)

/-- The low `count` bytes of a number, the lowest first. -/
def encode : (count value : Nat) → List UInt8
  | 0, _ => []
  | count + 1, value => value.toUInt8 :: encode count (value / 256)

/-- The number that a list of bytes stands for, the lowest first. -/
def decode : List UInt8 → Nat
  | [] => 0
  | byte :: rest => byte.toNat + 256 * decode rest

-- Each opens at no bytes, and at a low byte in front of the others.
attribute [local simp] range load store encode decode

@[simp] theorem size_store (b : ByteArray) (count start value : Nat) :
    (store b count start value).size = b.size := by
  induction count generalizing b start value with
  | zero => rfl
  | succ count ih => rw [store, ih, size_put]

/-- Writing a number leaves the bytes on both sides of it alone. -/
theorem byteAt_store_of_apart (b : ByteArray) (count start value i : Nat) (h : i < start ∨ start + count ≤ i) :
    byteAt (store b count start value) i = byteAt b i := by
  induction count generalizing b start value with
  | zero => rfl
  | succ count ih =>
    rw [store, ih _ _ _ (by omega), byteAt_put]
    exact if_neg (by omega)

/-- Reading depends only on the bytes read. -/
theorem load_congr {b c : ByteArray} {count i j : Nat} (h : ∀ k < count, byteAt b (i + k) = byteAt c (j + k)) :
    load b count i = load c count j := by
  induction count generalizing i j with
  | zero => rfl
  | succ count ih =>
    have hrest : load b count (i + 1) = load c count (j + 1) := ih fun k hk => by
      have := h (k + 1) (by omega)
      rwa [Nat.add_comm k 1, ← Nat.add_assoc, ← Nat.add_assoc] at this
    simp only [load, hrest]
    rw [show byteAt b i = byteAt c j from h 0 (by omega)]

theorem load_lt (b : ByteArray) (count start : Nat) : load b count start < range count := by
  induction count generalizing start with
  | zero => simp
  | succ count ih =>
    have hbyte := (byteAt b start).toNat_lt
    have hrest := ih (start + 1)
    simp only [load, range]
    omega

/-- A number stored inside the buffer reads back modulo the range of its bytes. -/
theorem load_store (b : ByteArray) (count start value : Nat) (h : start + count ≤ b.size) :
    load (store b count start value) count start = value % range count := by
  induction count generalizing b start value with
  | zero => simp [Nat.mod_one]
  | succ count ih =>
    simp only [load, store]
    rw [ih _ _ _ (by rw [size_put]; omega), byteAt_store_of_apart _ _ _ _ _ (.inl (by omega)), byteAt_put,
      if_pos ⟨rfl, by omega⟩, range, Nat.mod_mul]
    simp

theorem length_encode (count value : Nat) : (encode count value).length = count := by
  induction count generalizing value with
  | zero => rfl
  | succ count ih => simp [ih]

theorem decode_encode (count value : Nat) : decode (encode count value) = value % range count := by
  induction count generalizing value with
  | zero => simp [Nat.mod_one]
  | succ count ih =>
    simp only [encode, decode, ih]
    rw [range, Nat.mod_mul]
    simp

/-- Bytes that are those of a number read as the number, modulo the range of so many bytes. -/
theorem load_of_encode {b : ByteArray} {count start value : Nat}
    (h : ∀ k < count, (encode count value)[k]? = some (byteAt b (start + k))) :
    load b count start = value % range count := by
  induction count generalizing start value with
  | zero => simp [Nat.mod_one]
  | succ count ih =>
      have hlow : value.toUInt8 = byteAt b start := Option.some.inj (h 0 (by omega))
      have hrest : load b count (start + 1) = value / 256 % range count := by
        refine ih fun k hk => ?_
        have hnext := h (k + 1) (by omega)
        rwa [encode, List.getElem?_cons_succ, Nat.add_comm k 1, ← Nat.add_assoc] at hnext
      rw [load, hrest, ← hlow, range, Nat.mod_mul]
      simp

theorem encode_load (b : ByteArray) (count start : Nat) :
    encode count (load b count start) = (List.range count).map fun k => byteAt b (start + k) := by
  induction count generalizing start with
  | zero => rfl
  | succ count ih =>
      have hbyte := (byteAt b start).toNat_lt
      have hlow : (load b (count + 1) start).toUInt8 = byteAt b start := by
        rw [← UInt8.toNat_inj]
        simp only [load, Nat.toUInt8, UInt8.toNat_ofNat']
        omega
      have hhigh : load b (count + 1) start / 256 = load b count (start + 1) := by
        simp only [load]
        omega
      rw [encode, hlow, hhigh, ih, List.range_succ_eq_map, List.map_cons, List.map_map]
      simp only [Function.comp_def, Nat.succ_eq_add_one, Nat.add_assoc, Nat.add_comm 1, Nat.add_zero]

/-- Equal numbers have equal bytes. -/
theorem byteAt_eq_of_load_eq {b c : ByteArray} {count i j k : Nat} (h : load b count i = load c count j)
    (hk : k < count) : byteAt b (i + k) = byteAt c (j + k) := by
  have hbytes : (List.range count).map (fun k => byteAt b (i + k)) =
      (List.range count).map fun k => byteAt c (j + k) := by rw [← encode_load, ← encode_load, h]
  exact List.map_inj_left.mp hbytes k (List.mem_range.mpr hk)

end Framecast.LittleEndian
