import Framecast.Proofs.Canvas.Export
import Framecast.Proofs.Canvas.Operations
import Framecast.Proofs.Frame.Reading

/-!
# How large a picture can be

The header of a frame holds the number of bytes of its picture in a signed number of 32 bits, and a canvas may have far
more. Up to the greatest such number the header says what the frame is and the frame is read back; above it the header
is wrong, and no reader accepts the frame.
-/

namespace Framecast

namespace Frame

/-- The header gives the width, the height and the number of bytes of the picture. -/
structure Labelled (f : Frame) : Prop where
  width_eq : f.header.width = f.width
  height_eq : f.header.height = f.height
  size_eq : f.header.size = f.pixels.size

/-- Why a picture that does not fit its header is refused. -/
def refusal (f : Frame) : FrameError :=
  if f.header.width < 0 ∨ f.header.height < 0 then .negativeSize f.header.width f.header.height
  else .sizeMismatch f.header.size f.header.width f.header.height

variable {f : Frame}

/-- A picture with at least one pixel that fits the size field fits the other fields as well. -/
theorem wellFormed_of_size_le (hwidth : 0 < f.width) (hheight : 0 < f.height)
    (hsize : f.pixels.size = f.width * f.height * 4) (hfits : (f.pixels.size : Int) ≤ Coordinate.greatest) :
    f.WellFormed := by
  have hw : f.width ≤ f.width * f.height := Nat.le_mul_of_pos_right _ hheight
  have hh : f.height ≤ f.width * f.height := Nat.le_mul_of_pos_left _ hwidth
  exact ⟨by omega, by omega, hsize, hfits⟩

theorem WellFormed.labelled (hf : f.WellFormed) : f.Labelled := by
  constructor <;> rw [header_eq hf]

/-- The size field never holds more than the greatest number. -/
theorem Labelled.size_le (hf : f.Labelled) : (f.pixels.size : Int) ≤ Coordinate.greatest := by
  rw [← hf.size_eq]
  exact Int.min_le_right _ _

/-- A picture that is too large is refused: the greatest number in the size field is odd, and no reader finds it to be
four bytes a pixel. -/
theorem read_of_large (hsize : f.pixels.size = f.width * f.height * 4)
    (hlarge : Coordinate.greatest < f.pixels.size) (rest : ByteArray) :
    read (f.encode ++ rest) = .error f.refusal := by
  have hlength : ¬ (f.encode ++ rest).size < FrameHeader.length := by
    rw [ByteArray.size_append, size_encode]
    omega
  have hfield : f.header.size = 2147483647 := by
    simp only [header, FrameHeader.ofSize, Coordinate.greatest] at hlarge ⊢
    rw [hsize] at hlarge
    push_cast at hlarge
    omega
  have hmark : f.header.magic = Coordinate.wrap FrameHeader.mark := by simp only [header, FrameHeader.ofSize]
  have hodd : f.header.size < 0 ∨ f.header.size ≠ f.header.width * f.header.height * 4 := by
    rw [hfield]
    omega
  simp only [read, if_neg hlength, ofBytes_encode_append, hmark, ne_eq, not_true_eq_false, ↓reduceIte, if_pos hodd,
    refusal]
  split <;> rfl

end Frame

namespace Canvas

theorem Valid.after_all {c : Canvas} (hc : c.Valid) (operations : List CanvasOperation) :
    (operations.foldl after c).Valid :=
  List.foldlRecOn (motive := Valid) operations after hc fun _ hd operation _ =>
    (OfKind.after ⟨hd, rfl, rfl⟩ operation).valid

end Canvas

/-- What a mailbox stages of a canvas, whatever was done to the canvas before: a picture of it, which has its label and
is read back exactly if the size field can hold the number of its bytes, and which is refused otherwise. -/
theorem Mailbox.publish_readable {allocator : Allocator} {width height : Nat} {format : PixelFormat} {antialias : Bool}
    {blank : Canvas} (hcreate : Canvas.create allocator width height format antialias = .ok blank)
    (operations : List CanvasOperation) {m : Mailbox} (hopen : m.closed = false) :
    let c := operations.foldl Canvas.after blank
    ∃ f : Frame, (m.publish c).1 = true ∧ (m.publish c).2.staged = some f ∧ f.Shows c ∧
      (f.Labelled ↔ (4 * (c.width * c.height) : Nat) ≤ Coordinate.greatest) ∧
      ((4 * (c.width * c.height) : Nat) ≤ Coordinate.greatest → ∀ rest, Frame.read (f.encode ++ rest) = .ok (f, rest)) ∧
      (Coordinate.greatest < (4 * (c.width * c.height) : Nat) →
        ∀ rest, Frame.read (f.encode ++ rest) = .error f.refusal) := by
  intro c
  have hc : c.Valid := (Canvas.valid_of_create hcreate).after_all operations
  have hshows := Canvas.frame_shows hc
  have hsize : c.frame.pixels.size = c.frame.width * c.frame.height * 4 := by
    rw [hshows.size_eq, hshows.width_eq, hshows.height_eq, Nat.mul_comm]
  have hfits (h : (4 * (c.width * c.height) : Nat) ≤ Coordinate.greatest) : c.frame.WellFormed := by
    rw [← hshows.size_eq] at h
    exact Frame.wellFormed_of_size_le hc.width_pos hc.height_pos hsize h
  refine ⟨c.frame, ?_, ?_, hshows, ⟨fun h => ?_, fun h => (hfits h).labelled⟩,
    fun h => Frame.read_encode (hfits h), fun h => ?_⟩
  · rw [Mailbox.publish_of_open hopen]
  · rw [Mailbox.publish_of_open hopen]
  · rw [← hshows.size_eq]
    exact h.size_le
  · rw [← hshows.size_eq] at h
    exact Frame.read_of_large hsize h

/-- A canvas of two pixels gives a frame that is read back, and one of half a thousand million pixels of a byte each
gives a frame that every reader refuses. -/
theorem Mailbox.publish_readable_of_two_canvases :
    (∃ f c, Canvas.create (.upTo 4) 2 1 .rgba4444 false = .ok c ∧ (Mailbox.empty.publish c).2.staged = some f ∧
      f.Labelled ∧ ∀ rest, Frame.read (f.encode ++ rest) = .ok (f, rest)) ∧
    ∃ f c, Canvas.create (.upTo 536870912) 32768 16384 .rgba2222 false = .ok c ∧
      (Mailbox.empty.publish c).2.staged = some f ∧
      ¬ f.Labelled ∧ ∀ rest, Frame.read (f.encode ++ rest) = .error (.sizeMismatch 2147483647 32768 16384) := by
  have hsmall : Canvas.create (.upTo 4) 2 1 .rgba4444 false = .ok (.blank 2 1 .rgba4444 false) := rfl
  have hlarge : Canvas.create (.upTo 536870912) 32768 16384 .rgba2222 false =
      .ok (.blank 32768 16384 .rgba2222 false) := rfl
  obtain ⟨f, -, hf, -, hlabelled, hread, -⟩ := publish_readable hsmall [] (m := .empty) rfl
  obtain ⟨g, -, hg, hshows, hunlabelled, -, hrefused⟩ := publish_readable hlarge [] (m := .empty) rfl
  refine ⟨⟨f, _, hsmall, hf, hlabelled.mpr (by decide), hread (by decide)⟩,
    g, _, hlarge, hg, fun h => absurd (hunlabelled.mp h) (by decide), fun rest => ?_⟩
  have hheader : g.header = ⟨Coordinate.wrap FrameHeader.mark, 32768, 16384, 2147483647⟩ := by
    rw [Frame.header, hshows.width_eq, hshows.height_eq]
    decide
  simp only [hrefused (by decide) rest, Frame.refusal, hheader]
  rfl

end Framecast
