import Framecast.Frame.Wire
import Mathlib.Tactic.Lift

/-!
# Reading what was written

A frame is read from bytes exactly when they begin with that frame as it is written. `Frame.read_eq_ok_iff` says so for
all bytes; from it follow the reading of a stream of frames and the refusal of everything that is no written frame.
-/

namespace Framecast

namespace FrameHeader

open Buffer

theorem length_encodeField (n : Int) : (encodeField n).length = 4 := LittleEndian.length_encode 4 _

theorem size_toBytes (h : FrameHeader) : h.toBytes.size = length := by
  simp only [toBytes, size_ofList, List.length_append, length_encodeField, length]

/-- A field that stands behind other bytes reads as the number that was written. -/
theorem decodeField_encodeField {n : Int} (hn : Coordinate.InRange n) (before after : List UInt8) :
    decodeField (ofList (before ++ (encodeField n ++ after))) before.length = n := by
  have hload : LittleEndian.load (ofList (before ++ (encodeField n ++ after))) 4 before.length =
      (n % 4294967296).toNat % LittleEndian.range 4 := by
    refine LittleEndian.load_of_encode fun k hk => ?_
    have hk' : k < (encodeField n).length := by rwa [length_encodeField]
    have hplace : (before ++ (encodeField n ++ after))[before.length + k]? = (encodeField n)[k]? := by
      rw [List.getElem?_append_right (by omega), Nat.add_sub_cancel_left, List.getElem?_append_left hk']
    rw [← encodeField, List.getElem?_eq_getElem hk', byteAt_ofList (hplace.trans (List.getElem?_eq_getElem hk'))]
  have hvalue : (((n % 4294967296).toNat % LittleEndian.range 4 : Nat) : Int) = n % 4294967296 := by
    simp only [LittleEndian.range]
    omega
  rw [decodeField, hload, hvalue, Coordinate.wrap_of_emod, Coordinate.wrap_of_inRange hn]

theorem encodeField_decodeField (b : ByteArray) (start : Nat) :
    encodeField (decodeField b start) = (List.range 4).map fun k => byteAt b (start + k) := by
  have hlt := LittleEndian.load_lt b 4 start
  have hvalue : (Coordinate.wrap (LittleEndian.load b 4 start) % 4294967296).toNat = LittleEndian.load b 4 start := by
    rw [Coordinate.wrap_emod]
    simp only [LittleEndian.range] at hlt
    omega
  rw [encodeField, decodeField, hvalue, LittleEndian.encode_load]

theorem ofBytes_toBytes {h : FrameHeader} (hmagic : Coordinate.InRange h.magic) (hwidth : Coordinate.InRange h.width)
    (hheight : Coordinate.InRange h.height) (hsize : Coordinate.InRange h.size) : ofBytes h.toBytes = h := by
  obtain ⟨magic, width, height, size⟩ := h
  simp only [ofBytes, toBytes, List.append_assoc, mk.injEq]
  refine ⟨decodeField_encodeField hmagic [] _, ?_, ?_, ?_⟩
  · exact decodeField_encodeField hwidth (encodeField magic) _
  · have hfield := decodeField_encodeField hheight (encodeField magic ++ encodeField width) (encodeField size)
    rwa [List.append_assoc] at hfield
  · have hfield := decodeField_encodeField hsize (encodeField magic ++ (encodeField width ++ encodeField height)) []
    rwa [List.append_nil, List.append_assoc, List.append_assoc] at hfield

theorem ofBytes_inRange (b : ByteArray) : Coordinate.InRange (ofBytes b).width ∧
    Coordinate.InRange (ofBytes b).height ∧ Coordinate.InRange (ofBytes b).size := by
  simp only [ofBytes, decodeField]
  exact ⟨Coordinate.wrap_inRange _, Coordinate.wrap_inRange _, Coordinate.wrap_inRange _⟩

theorem toBytes_ofBytes {b : ByteArray} (h : length ≤ b.size) : (ofBytes b).toBytes = b.extract 0 length := by
  simp only [toBytes, ofBytes, encodeField_decodeField, ← ofList_map_byteAt h]
  rfl

theorem ofBytes_congr {b c : ByteArray} (h : ∀ i < length, byteAt b i = byteAt c i) : ofBytes b = ofBytes c := by
  have hfield : ∀ start, start + 4 ≤ length → decodeField b start = decodeField c start := fun start hstart => by
    rw [decodeField, LittleEndian.load_congr fun k hk => h (start + k) (by omega), decodeField]
  simp only [ofBytes, hfield _ (show 0 + 4 ≤ length by decide), hfield _ (show 4 + 4 ≤ length by decide),
    hfield _ (show 8 + 4 ≤ length by decide), hfield _ (show 12 + 4 ≤ length by decide)]

end FrameHeader

namespace Frame

open Buffer

/-- A picture that fits in the header and has the bytes that its size asks for. -/
structure WellFormed (f : Frame) : Prop where
  width_le : (f.width : Int) ≤ Coordinate.greatest
  height_le : (f.height : Int) ≤ Coordinate.greatest
  size_eq : f.pixels.size = f.width * f.height * 4
  size_le : (f.pixels.size : Int) ≤ Coordinate.greatest

/-- Written frames one behind the other, and what stands behind them. -/
def encodeAll (frames : List Frame) (rest : ByteArray) : ByteArray := frames.foldr (fun f b => f.encode ++ b) rest

variable {f : Frame} {b rest : ByteArray}

theorem header_eq (hf : f.WellFormed) :
    f.header = ⟨Coordinate.wrap FrameHeader.mark, f.width, f.height, f.pixels.size⟩ := by
  obtain ⟨hwidth, hheight, hsize, hfits⟩ := hf
  rw [hsize] at hfits
  simp only [Coordinate.greatest] at hwidth hheight hfits
  simp only [header, FrameHeader.ofSize, FrameHeader.mk.injEq, true_and]
  refine ⟨Coordinate.wrap_of_inRange ?_, Coordinate.wrap_of_inRange ?_, ?_⟩
  · simp only [Coordinate.InRange, Coordinate.least, Coordinate.greatest]
    omega
  · simp only [Coordinate.InRange, Coordinate.least, Coordinate.greatest]
    omega
  · rw [hsize]
    simp only [Coordinate.greatest]
    push_cast at hfits ⊢
    omega

/-- A header that stands at the start of the bytes reads as it was written, also one that does not fit its picture. -/
theorem ofBytes_header (hb : ∀ i < FrameHeader.length, byteAt b i = byteAt f.header.toBytes i) :
    FrameHeader.ofBytes b = f.header := by
  have hsize : (0 : Int) ≤ f.width * f.height * 4 := by exact_mod_cast Nat.zero_le (f.width * f.height * 4)
  rw [FrameHeader.ofBytes_congr hb, FrameHeader.ofBytes_toBytes] <;> simp only [header, FrameHeader.ofSize]
  · exact Coordinate.wrap_inRange _
  · exact Coordinate.wrap_inRange _
  · exact Coordinate.wrap_inRange _
  · simp only [Coordinate.InRange, Coordinate.least, Coordinate.greatest]
    omega

theorem ofBytes_encode_append (f : Frame) (rest : ByteArray) : FrameHeader.ofBytes (f.encode ++ rest) = f.header := by
  refine ofBytes_header fun i hi => ?_
  rw [encode, ByteArray.append_assoc, byteAt_append, if_pos (by rwa [FrameHeader.size_toBytes])]

theorem read_of_header (hf : f.WellFormed) (hlength : FrameHeader.length ≤ b.size)
    (hheader : FrameHeader.ofBytes b = f.header) :
    read b =
      if b.size < FrameHeader.length + f.pixels.size then .error .payloadCut
      else .ok (⟨f.width, f.height, b.extract FrameHeader.length (FrameHeader.length + f.pixels.size)⟩,
        b.extract (FrameHeader.length + f.pixels.size) b.size) := by
  have hsize := hf.size_eq
  have hproduct : (f.pixels.size : Int) = f.width * f.height * 4 := by
    rw [hsize]
    push_cast
    rfl
  have hwidth : ¬ ((f.width : Int) < 0 ∨ (f.height : Int) < 0) := by omega
  have hmatch : ¬ ((f.pixels.size : Int) < 0 ∨ (f.pixels.size : Int) ≠ f.width * f.height * 4) := by omega
  simp only [read, if_neg (Nat.not_lt.mpr hlength), hheader, header_eq hf, ne_eq, not_true_eq_false, ↓reduceIte,
    if_neg hwidth]
  rw [if_neg hmatch]
  simp only [Int.toNat_natCast]

theorem size_encode (f : Frame) : f.encode.size = FrameHeader.length + f.pixels.size := by
  rw [encode, ByteArray.size_append, FrameHeader.size_toBytes]

/-- A written frame and what stands behind it are read apart again. -/
theorem read_encode (hf : f.WellFormed) (rest : ByteArray) : read (f.encode ++ rest) = .ok (f, rest) := by
  have hheader := f.header.size_toBytes
  have hsize : (f.encode ++ rest).size = FrameHeader.length + f.pixels.size + rest.size := by
    rw [ByteArray.size_append, size_encode]
  rw [read_of_header hf (by omega) (ofBytes_encode_append f rest), if_neg (by omega)]
  have hpixels : (f.encode ++ rest).extract FrameHeader.length (FrameHeader.length + f.pixels.size) = f.pixels := by
    have hempty : f.header.toBytes.extract f.header.toBytes.size (f.header.toBytes.size + f.pixels.size) = .empty :=
      ByteArray.extract_eq_empty_iff.mpr (Nat.min_le_right _ _)
    rw [encode, ByteArray.append_assoc, ← hheader, ByteArray.extract_append, hempty, ByteArray.empty_append,
      Nat.sub_self, Nat.add_sub_cancel_left, ByteArray.extract_append_eq_left rfl]
  have hrest : (f.encode ++ rest).extract (FrameHeader.length + f.pixels.size) (f.encode ++ rest).size = rest :=
    ByteArray.extract_append_eq_right (size_encode f).symm (ByteArray.size_append)
  rw [hpixels, hrest]

/-- A frame is read only behind a header that passes every check, and with all its bytes there. -/
theorem fields_of_read (h : read b = .ok (f, rest)) :
    ∃ width height size : Nat, FrameHeader.ofBytes b = ⟨Coordinate.wrap FrameHeader.mark, width, height, size⟩ ∧
      size = width * height * 4 ∧ FrameHeader.length + size ≤ b.size ∧
      f = ⟨width, height, b.extract FrameHeader.length (FrameHeader.length + size)⟩ ∧
      rest = b.extract (FrameHeader.length + size) b.size := by
  simp only [read] at h
  split at h
  · cases h
  split at h
  · cases h
  rename_i hmark
  split at h
  · cases h
  rename_i hsign
  split at h
  · cases h
  rename_i hmatch
  split at h
  · cases h
  rename_i hpayload
  simp only [Except.ok.injEq, Prod.mk.injEq] at h
  obtain ⟨rfl, rfl⟩ := h
  generalize FrameHeader.ofBytes b = header at *
  obtain ⟨magic, width, height, size⟩ := header
  simp only at hmark hsign hmatch hpayload ⊢
  lift width to Nat using by omega
  lift height to Nat using by omega
  lift size to Nat using by omega
  have hsize : (size : Int) = width * height * 4 := by omega
  refine ⟨width, height, size, ?_, by exact_mod_cast hsize, Nat.not_lt.mp hpayload, rfl, rfl⟩
  rw [Decidable.not_not.mp hmark]

/-- The bytes that a frame was read from are the written frame and the rest. -/
theorem wellFormed_of_read (h : read b = .ok (f, rest)) : f.WellFormed ∧ b = f.encode ++ rest := by
  obtain ⟨width, height, size, hheader, hproduct, hlength, rfl, rfl⟩ := fields_of_read h
  obtain ⟨⟨-, hwidth⟩, ⟨-, hheight⟩, ⟨-, hsize⟩⟩ := FrameHeader.ofBytes_inRange b
  have hbytes := FrameHeader.toBytes_ofBytes (b := b) (by omega)
  rw [hheader] at hwidth hheight hsize hbytes
  have hpixels : (b.extract FrameHeader.length (FrameHeader.length + size)).size = size := by
    rw [ByteArray.size_extract]
    omega
  have hf : WellFormed ⟨width, height, b.extract FrameHeader.length (FrameHeader.length + size)⟩ :=
    ⟨hwidth, hheight, hpixels.trans hproduct, by rwa [hpixels]⟩
  refine ⟨hf, ?_⟩
  have hwhole : b = b.extract 0 FrameHeader.length ++ b.extract FrameHeader.length (FrameHeader.length + size) ++
      b.extract (FrameHeader.length + size) b.size := by
    rw [← ByteArray.extract_eq_extract_append_extract _ (Nat.zero_le _) (Nat.le_add_right _ _),
      ← ByteArray.extract_eq_extract_append_extract _ (Nat.zero_le _) hlength, ByteArray.extract_zero_size]
  rw [encode, header_eq hf, hpixels, hbytes]
  exact hwhole

theorem read_eq_ok_iff : read b = .ok (f, rest) ↔ f.WellFormed ∧ b = f.encode ++ rest := by
  constructor
  · exact wellFormed_of_read
  · rintro ⟨hf, rfl⟩
    exact read_encode hf rest

/-- A written frame of which the end is missing is refused. -/
theorem read_of_cut (hf : f.WellFormed) {count : Nat} (hcut : count < f.encode.size) :
    read (f.encode.extract 0 count) = .error (if count < FrameHeader.length then .headerCut else .payloadCut) := by
  have hsize := size_encode f
  have hcount : (f.encode.extract 0 count).size = count := by
    rw [ByteArray.size_extract]
    omega
  split
  · rename_i hheader
    rw [read, if_pos (by rwa [hcount])]
  · rename_i hheader
    have hfirst : FrameHeader.ofBytes (f.encode.extract 0 count) = f.header := by
      refine ofBytes_header fun i hi => ?_
      rw [byteAt_extract (by omega) (by omega), Nat.zero_add, encode, byteAt_append,
        if_pos (by rwa [FrameHeader.size_toBytes])]
    rw [read_of_header hf (by omega) hfirst, if_pos (by omega)]

/-- Written frames are read one after the other, and then nothing more. -/
theorem readMany_encodeAll {frames : List Frame} (hall : ∀ f ∈ frames, f.WellFormed) (count : Nat) (rest : ByteArray) :
    readMany (frames.length + count) (encodeAll frames rest) =
      (frames ++ (readMany count rest).1, (readMany count rest).2) := by
  induction frames with
  | nil => simp [encodeAll]
  | cons f frames ih =>
      obtain ⟨hf, hrest⟩ := List.forall_mem_cons.mp hall
      have hread : read (encodeAll (f :: frames) rest) = .ok (f, encodeAll frames rest) := read_encode hf _
      rw [List.length_cons, Nat.add_right_comm, readMany, hread]
      simp only [ih hrest, List.cons_append]

/-- Reading takes exactly the written frames, one behind the other, and refuses a frame that is cut, that has another
mark, or whose size is not that of its width and height. -/
theorem read_exact :
    (∀ (b : ByteArray) (f : Frame) (rest : ByteArray),
      read b = .ok (f, rest) ↔ f.WellFormed ∧ b = f.encode ++ rest) ∧
    (∀ (frames : List Frame) (count : Nat) (rest : ByteArray), (∀ f ∈ frames, f.WellFormed) →
      readMany (frames.length + count) (encodeAll frames rest) =
        (frames ++ (readMany count rest).1, (readMany count rest).2)) ∧
    (∀ (f : Frame) (count : Nat), f.WellFormed → count < f.encode.size →
      ∃ e, read (f.encode.extract 0 count) = .error e) ∧
    ∀ b : ByteArray, (FrameHeader.ofBytes b).magic ≠ Coordinate.wrap FrameHeader.mark ∨
      (FrameHeader.ofBytes b).size ≠ (FrameHeader.ofBytes b).width * (FrameHeader.ofBytes b).height * 4 →
      ∃ e, read b = .error e := by
  refine ⟨fun b f rest => read_eq_ok_iff, fun frames count rest hall => readMany_encodeAll hall count rest,
    fun f count hf hcut => ⟨_, read_of_cut hf hcut⟩, ?_⟩
  intro b hwrong
  cases hread : read b with
  | error e => exact ⟨e, rfl⟩
  | ok result =>
      obtain ⟨f, rest⟩ := result
      obtain ⟨width, height, size, hheader, hsize, -⟩ := fields_of_read hread
      have hproduct : (size : Int) = width * height * 4 := by exact_mod_cast hsize
      rw [hheader] at hwrong
      rcases hwrong with hmark | hmatch
      · exact absurd rfl hmark
      · exact absurd hproduct hmatch

/-- Two frames, one of them without a pixel, and then the end of the bytes. -/
theorem read_exact_of_two_frames : ∃ a b : Frame, a.pixels.size = 8 ∧ b.height = 7 ∧
    readMany 3 (encodeAll [a, b] .empty) = ([a, b], some .headerCut) ∧
    (∃ e, read (a.encode.extract 0 20) = .error e) ∧ ∃ e, read .empty = .error e := by
  let a : Frame := ⟨2, 1, ofList [1, 2, 3, 4, 5, 6, 7, 8]⟩
  let b : Frame := ⟨0, 7, .empty⟩
  have ha : a.WellFormed := ⟨by decide, by decide, by decide, by decide⟩
  have hb : b.WellFormed := ⟨by decide, by decide, by decide, by decide⟩
  have hall : ∀ f ∈ [a, b], f.WellFormed := by simp [ha, hb]
  obtain ⟨-, hmany, hcut, hwrong⟩ := read_exact
  exact ⟨a, b, rfl, rfl, hmany [a, b] 1 .empty hall, hcut a 20 ha (by decide), hwrong .empty (.inl (by decide))⟩

end Frame

end Framecast
