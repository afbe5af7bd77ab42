import Framecast.Proofs.Canvas.Operations
import Framecast.Proofs.Canvas.Writes

/-!
# Access to the buffer of a canvas

Reading and writing bytes never fails here: an index outside the buffer reads as zero and is not written. The functions
of `Checked` do what those of `Canvas` do and give up where a byte outside a buffer would be read or written, or where a
negative number would be taken for an index. On valid canvases none of them ever gives up, and each gives the canvas
that its namesake gives.
-/

namespace Framecast

namespace Checked

/-! ## Pixels, rows and rectangles -/

/-- Where the bytes of a pixel start, if its coordinates are indices and its last byte lies in the buffer. -/
def reach? (c : Canvas) (p : Point) : Option Nat :=
  if (0 ≤ p.x ∧ 0 ≤ p.y) ∧ c.byteIndex p + c.format.bytesPerPixel ≤ c.bytes.size then some (c.byteIndex p) else none

def packed? (c : Canvas) (p : Point) : Option (Option Nat) :=
  if c.Contains p then (reach? c p).map fun index => some (c.loadAt index) else some none

def store (c : Canvas) (p : Point) (value : Nat) : Option Canvas := (reach? c p).map fun index => c.storeAt index value

def put (c : Canvas) (p : Point) (value : Nat) : Option Canvas := if c.Contains p then store c p value else some c

def blend (c : Canvas) (p : Point) (color : Rgba) : Option Canvas :=
  if color.a = 0 then some c
  else if c.Contains p then
    (reach? c p).map fun index =>
      c.storeAt index (c.format.pack (color.paintedOver (c.format.unpack (c.loadAt index))))
  else some c

def putRow (c : Canvas) (a b y : Int) (value : Nat) : Option Canvas :=
  if y < 0 ∨ (c.height : Int) ≤ y then some c
  else ((Span.between a b).clip 0 c.lastColumn).toList.foldlM (fun c x => store c ⟨x, y⟩ value) c

def putRect (c : Canvas) (corner : Point) (width height : Nat) (value : Nat) : Option Canvas :=
  if width = 0 ∨ height = 0 then some c
  else
    let right := Coordinate.saturate (corner.x + (min (width : Int) Coordinate.greatest - 1))
    let bottom := Coordinate.saturate (corner.y + min (height : Int) Coordinate.greatest)
    (Span.clip ⟨corner.y, bottom - 1⟩ 0 (c.height - 1)).toList.foldlM (fun c y => putRow c corner.x right y value) c

/-! ## Bitmaps -/

/-- Goes through `count` pixels of a bitmap from the `index`-th on, up to the first missing one. -/
def bitmapFrom (b : Bitmap) (f : Canvas → Nat → Nat → Rgba → Option Canvas) :
    (count index : Nat) → Canvas → Option Canvas
  | 0, _, c => some c
  | count + 1, index, c =>
    match b.pixel? (index % b.width) (index / b.width) with
    | none => some c
    | some color => f c (index % b.width) (index / b.width) color >>= bitmapFrom b f count (index + 1)

def paste (c : Canvas) (b : Bitmap) (corner : Point) : Option Canvas :=
  bitmapFrom b (fun c column row color => put c (corner.offset column row) (c.format.pack color))
    (b.width * b.height) 0 c

def pasteOver (c : Canvas) (b : Bitmap) (corner : Point) : Option Canvas :=
  bitmapFrom b (fun c column row color => blend c (corner.offset column row) color) (b.width * b.height) 0 c

/-! ## Copies and exports -/

/-- Copies the bytes of an overlap if both runs start at indices and end inside their buffers. -/
def copyBytes (target source : Canvas) (corner : Point) (o : RowOverlap) : Option Canvas :=
  let copy := Canvas.byteCopy target source corner o
  if o.columns.first ≤ o.columns.last ∧
      (0 ≤ o.sourceRow ∧ 0 ≤ o.columns.first ∧ copy.source + copy.count ≤ source.bytes.size) ∧
      0 ≤ o.targetRow ∧ 0 ≤ corner.x + o.columns.first ∧ copy.target + copy.count ≤ target.bytes.size then
    some (Canvas.copyBytes target source corner o)
  else none

def copyPixels (target source : Canvas) (corner : Point) (o : RowOverlap) : Option Canvas :=
  o.columns.toList.foldlM (fun target x =>
    packed? source ⟨x, o.sourceRow⟩ >>= fun packed =>
      match packed with
      | none => some target
      | some value =>
        put target ⟨corner.x + x, o.targetRow⟩ (target.format.pack (source.format.unpack value))) target

def copyRow (source : Canvas) (corner : Point) (target : Canvas) (row : Int) : Option Canvas :=
  match Canvas.rowOverlap? target source corner row with
  | none => some target
  | some o =>
    if source.format = target.format then copyBytes target source corner o else copyPixels target source corner o

def copyFrom (target source : Canvas) (corner : Point) : Option Canvas :=
  (Span.toList ⟨0, Coordinate.wrap source.height - 1⟩).foldlM (copyRow source corner) target

def appendColors (c : Canvas) : (count index : Nat) → ByteArray → Option ByteArray
  | 0, _, out => some out
  | count + 1, index, out =>
    if index * c.format.bytesPerPixel + c.format.bytesPerPixel ≤ c.bytes.size then
      let color := c.format.unpack (c.loadAt (index * c.format.bytesPerPixel))
      appendColors c count (index + 1) ((((out.push color.r).push color.g).push color.b).push color.a)
    else none

def exportInto (c : Canvas) (buffer : ByteArray) : Option ByteArray :=
  let emptied := buffer.extract 0 0
  match c.format with
  | .rgba8888 => some (emptied ++ c.bytes)
  | _ => appendColors c (c.bytes.size / c.format.bytesPerPixel) 0 emptied

/-! ## Lines -/

/-- Puts the points of a walk, at most `steps` of them after the first. -/
def walkFrom (w : LineWalk) (value : Nat) : (steps : Nat) → Point → (error : Int) → Canvas → Option Canvas
  | 0, p, _, c => put c p value
  | steps + 1, p, error, c =>
    put c p value >>= fun c =>
      if p = w.target then some c
      else if w.hasPassed (w.advance p error).1 then some c
      else walkFrom w value steps (w.advance p error).1 (w.advance p error).2 c

def drawLine (c : Canvas) (a b : Point) (color : Rgba) : Option Canvas :=
  if c.missesSegment a b then some c
  else
    let w := LineWalk.between c a b
    walkFrom w (c.format.pack color) w.length a (w.across + w.down) c

def plot (l : SmoothLine) (color : Rgba) (c : Canvas) (along : Int) (height : Single) : Option Canvas :=
  let whole := Dyad.floor height
  let part := Single.sub height whole
  let row := Coordinate.saturate whole
  blend c (l.point along row) (color.withCoverage (.finite (Single.sub 1 part))) >>= fun c =>
    if 0 < part then blend c (l.point along (row + 1)) (color.withCoverage (.finite part)) else some c

def drawSmoothLine (c : Canvas) (a b : Point) (color : Rgba) : Option Canvas :=
  if c.missesSegment a b then some c
  else if a = b then blend c a color
  else
    match SmoothLine.between? a b with
    | none => some c
    | some l =>
      let last := if l.steep then c.lastRow else c.lastColumn
      let first := max (Coordinate.saturate (Dyad.floor l.start)) 0
      let steps : Span := ⟨first, min (Coordinate.saturate (Dyad.floor l.stop)) last⟩
      let height := Single.add l.base (Single.mul l.gradient (Single.sub (Single.ofInt first) l.start))
      (steps.toList.foldlM (fun (q : Canvas × Single) along =>
        (plot l color q.1 along q.2).map fun c => (c, Single.add q.2 l.gradient)) (c, height)).map Prod.fst

/-! ## Polygons and discs -/

def fillPolygon (c : Canvas) (points : List Point) (color : Rgba) : Option Canvas :=
  if points.length < 3 then some c
  else
    let value := c.format.pack color
    ((Polygon.rows points).clip 0 c.lastRow).toList.foldlM (fun c y =>
      (Polygon.rowSpans points y).foldlM (fun c s =>
        if s.first ≤ s.last then putRow c s.first s.last y value else some c) c) c

def fillSmoothPolygon (c : Canvas) (points : List Point) (color : Rgba) : Option Canvas :=
  fillPolygon c points color >>= fun c =>
    if points.length < 2 then some c
    else (Polygon.edges points).foldlM (fun c e => drawSmoothLine c e.1 e.2 color) c

def rimFill (s : RimStep) (c : Canvas) (center : Point) (value : Nat) : Option Canvas :=
  let wide (c : Canvas) (y : Int) := putRow c (center.x - s.reach) (center.x + s.reach) y value
  let narrow (c : Canvas) (y : Int) := putRow c (center.x - s.height) (center.x + s.height) y value
  wide c (center.y + s.height) >>= fun c =>
    (if s.height = 0 then some c else wide c (center.y - s.height)) >>= fun c =>
      if s.reach = s.height then some c
      else
        narrow c (center.y + s.reach) >>= fun c =>
          if s.height = 0 then some c else narrow c (center.y - s.reach)

def rimFillFrom (center : Point) (value : Nat) : (steps : Nat) → RimStep → Canvas → Option Canvas
  | 0, _, c => some c
  | steps + 1, s, c =>
    if s.reach < s.height then some c else rimFill s c center value >>= rimFillFrom center value steps s.next

def fillDisc (c : Canvas) (center : Point) (radius : Int) (color : Rgba) : Option Canvas :=
  if radius < 0 then some c
  else
    let value := c.format.pack color
    if radius = 0 then put c center value else rimFillFrom center value (radius.toNat + 1) (.start radius) c

def fillSmoothDisc (c : Canvas) (center : Point) (radius : Int) (color : Rgba) : Option Canvas :=
  if radius < 0 then some c
  else
    let value := c.format.pack color
    let reach := radius + 1
    let rows := Span.clip ⟨center.y - reach, center.y + reach⟩ 0 c.lastRow
    let columns := Span.clip ⟨center.x - reach, center.x + reach⟩ 0 c.lastColumn
    rows.toList.foldlM (fun c y =>
      columns.toList.foldlM (fun c x =>
        let coverage := Canvas.discCoverage radius (x - center.x) (y - center.y)
        if 1 ≤ coverage then put c ⟨x, y⟩ value
        else if 0 < coverage then blend c ⟨x, y⟩ (color.withCoverage (.finite coverage))
        else some c) c) c

/-- The canvas after an operation. A change of size reads and writes nothing of the old buffer. -/
def after (c : Canvas) : CanvasOperation → Option Canvas
  | .put p value => put c p value
  | .blend p color => blend c p color
  | .putRow a b y value => putRow c a b y value
  | .putRect corner width height value => putRect c corner width height value
  | .paste b corner => paste c b corner
  | .pasteOver b corner => pasteOver c b corner
  | .copyFrom source _ corner => copyFrom c source corner
  | .resize allocator width height =>
    match c.resize allocator width height with
    | .error _ => some c
    | .ok d => some d
  | .drawLine a b color => drawLine c a b color
  | .drawSmoothLine a b color => drawSmoothLine c a b color
  | .fillPolygon points color => fillPolygon c points color
  | .fillSmoothPolygon points color => fillSmoothPolygon c points color
  | .fillDisc center radius color => fillDisc c center radius color
  | .fillSmoothDisc center radius color => fillSmoothDisc c center radius color

/-! ## Nothing is out of reach -/

/-- What is done to a canvas with checks goes through, gives the other canvas and keeps the layout. -/
structure Does (c : Canvas) (checked : Option Canvas) (d : Canvas) : Prop where
  eq_some : checked = some d
  layout : c.SameLayout d

theorem foldlM_eq_some {α β : Type} {P : β → Prop} {f : β → α → Option β} {g : β → α → β} {l : List α}
    (h : ∀ b a, a ∈ l → P b → f b a = some (g b a) ∧ P (g b a)) {b : β} (hb : P b) :
    l.foldlM f b = some (l.foldl g b) ∧ P (l.foldl g b) := by
  induction l generalizing b with
  | nil => exact ⟨rfl, hb⟩
  | cons a l ih =>
      obtain ⟨hfirst, hnext⟩ := h b a List.mem_cons_self hb
      rw [List.foldlM_cons, hfirst]
      exact ih (fun b a ha => h b a (List.mem_cons_of_mem _ ha)) hnext

namespace Does

variable {c d e : Canvas} {checked : Option Canvas} {f : Canvas → Option Canvas}

theorem nothing (c : Canvas) : Does c (some c) c := ⟨rfl, .refl c⟩

theorem bind (h : Does c checked d) (hf : Does d (f d) e) : Does c (checked >>= f) e :=
  ⟨by rw [h.eq_some]; exact hf.eq_some, h.layout.trans hf.layout⟩

theorem ite {p : Prop} [Decidable p] {checked' : Option Canvas} {d' : Canvas} (h : p → Does c checked d)
    (h' : ¬ p → Does c checked' d') : Does c (if p then checked else checked') (if p then d else d') := by
  split
  · exact h ‹p›
  · exact h' ‹¬ p›

theorem foldl {α : Type} {f : Canvas → α → Option Canvas} {g : Canvas → α → Canvas} {l : List α}
    (h : ∀ d a, a ∈ l → c.SameLayout d → Does d (f d a) (g d a)) : Does c (l.foldlM f c) (l.foldl g c) := by
  have hfold := foldlM_eq_some (P := c.SameLayout) (fun d a ha hd => ⟨(h d a ha hd).eq_some,
    hd.trans (h d a ha hd).layout⟩) (.refl c)
  exact ⟨hfold.1, hfold.2⟩

theorem spanFold {f : Canvas → Int → Option Canvas} {g : Canvas → Int → Canvas} {s : Span}
    (h : ∀ d n, n ∈ s → c.SameLayout d → Does d (f d n) (g d n)) : Does c (s.toList.foldlM f c) (s.fold g c) := by
  rw [Span.fold_eq_foldl]
  exact foldl fun d n hn => h d n (Span.mem_toList.mp hn)

end Does

variable {c target source : Canvas}

theorem reach?_eq (hc : c.Valid) {p : Point} (hp : c.Contains p) : reach? c p = some (c.byteIndex p) :=
  if_pos ⟨⟨hp.1, hp.2.2.1⟩, Canvas.byteIndex_add_bytesPerPixel_le hc hp⟩

theorem packed?_eq (hc : c.Valid) (p : Point) : packed? c p = some (c.packed? p) := by
  unfold packed? Canvas.packed? Canvas.byteIndex?
  split
  · rename_i hp
    rw [reach?_eq hc hp]
    rfl
  · rfl

theorem store_does (hc : c.Valid) {p : Point} (hp : c.Contains p) (value : Nat) :
    Does c (store c p value) (c.storeAt (c.byteIndex p) value) :=
  ⟨by rw [store, reach?_eq hc hp]; rfl, c.sameLayout_storeAt _ _⟩

theorem put_does (hc : c.Valid) (p : Point) (value : Nat) : Does c (put c p value) (c.put p value) := by
  unfold put Canvas.put Canvas.byteIndex?
  split
  · rename_i hp
    exact store_does hc hp value
  · exact .nothing c

theorem blend_does (hc : c.Valid) (p : Point) (color : Rgba) : Does c (blend c p color) (c.blend p color) := by
  unfold blend Canvas.blend Canvas.byteIndex?
  split
  · exact .nothing c
  · split
    · rename_i hp
      rw [reach?_eq hc hp]
      exact ⟨rfl, c.sameLayout_storeAt _ _⟩
    · exact .nothing c

theorem putRow_does (hc : c.Valid) (a b y : Int) (value : Nat) :
    Does c (putRow c a b y value) (c.putRow a b y value) := by
  unfold putRow Canvas.putRow
  split
  · exact .nothing c
  · refine .spanFold fun d x hx hd => store_does (hd.valid hc) ?_ value
    have hlast := hc.lastColumn_lt
    simp only [Span.mem_clip] at hx
    rw [hd.contains_iff]
    simp only [Canvas.Contains]
    omega

theorem putRect_does (hc : c.Valid) (corner : Point) (width height value : Nat) :
    Does c (putRect c corner width height value) (c.putRect corner width height value) := by
  unfold putRect Canvas.putRect
  split
  · exact .nothing c
  · exact .spanFold fun d y _ hd => putRow_does (hd.valid hc) _ _ y value

/-! ## Bitmaps and copies -/

theorem bitmapFrom_does (hc : c.Valid) (b : Bitmap) {f : Canvas → Nat → Nat → Rgba → Option Canvas}
    {g : Canvas → Nat → Nat → Rgba → Canvas}
    (h : ∀ (d : Canvas) column row color, d.Valid → Does d (f d column row color) (g d column row color))
    (count index : Nat) : Does c (bitmapFrom b f count index c) (b.foldFrom g count index c) := by
  induction count generalizing index c with
  | zero => exact .nothing c
  | succ count ih =>
      simp only [bitmapFrom, Bitmap.foldFrom]
      cases b.pixel? (index % b.width) (index / b.width) with
      | none => exact .nothing c
      | some color =>
          have hone := h c (index % b.width) (index / b.width) color hc
          exact hone.bind (ih (hone.layout.valid hc) _)

theorem paste_does (hc : c.Valid) (b : Bitmap) (corner : Point) : Does c (paste c b corner) (c.paste b corner) :=
  bitmapFrom_does hc b (fun _ _ _ _ hd => put_does hd _ _) _ 0

theorem pasteOver_does (hc : c.Valid) (b : Bitmap) (corner : Point) :
    Does c (pasteOver c b corner) (c.pasteOver b corner) :=
  bitmapFrom_does hc b (fun _ _ _ _ hd => blend_does hd _ _) _ 0

theorem copyBytes_does (ht : target.Valid) (hs : source.Valid) {corner : Point} {o : RowOverlap}
    (hf : source.format = target.format) (ho : o.Fits target source corner) :
    Does target (copyBytes target source corner o) (Canvas.copyBytes target source corner o) :=
  ⟨if_pos ⟨ho.nonempty, ⟨ho.sourceRow.1, ho.first.1, Canvas.byteCopy_source_le hs hf ho⟩, ho.targetRow.1, ho.first.2,
    Canvas.byteCopy_target_le ht ho⟩, Canvas.sameLayout_copyBytes ht hs hf ho⟩

theorem copyPixels_does (ht : target.Valid) (hs : source.Valid) (corner : Point) (o : RowOverlap) :
    Does target (copyPixels target source corner o) (Canvas.copyPixels target source corner o) := by
  refine .spanFold fun d x _ hd => ?_
  rw [packed?_eq hs, Canvas.color?]
  cases source.packed? ⟨x, o.sourceRow⟩ with
  | none => exact .nothing d
  | some value => exact put_does (hd.valid ht) _ _

theorem copyRow_does (ht : target.Valid) (hs : source.Valid) (corner : Point) {row : Int}
    (hrow : 0 ≤ row ∧ row < source.height) :
    Does target (copyRow source corner target row) (Canvas.copyRow source corner target row) := by
  unfold copyRow Canvas.copyRow
  cases ho : Canvas.rowOverlap? target source corner row with
  | none => exact .nothing target
  | some o =>
      dsimp only
      split
      · rename_i hf
        exact copyBytes_does ht hs hf (Canvas.fits_of_rowOverlap? hrow ho)
      · exact copyPixels_does ht hs corner o

theorem copyFrom_does (ht : target.Valid) (hs : source.Valid) (corner : Point) :
    Does target (copyFrom target source corner) (target.copyFrom source corner) := by
  have hwrap := Coordinate.wrap_le (n := source.height) (by omega)
  refine .spanFold fun d row hrow hd => copyRow_does (hd.valid ht) hs corner ?_
  simp only [Span.mem_iff] at hrow
  omega

theorem appendColors_eq (hc : c.Valid) {count index : Nat} (h : index + count ≤ c.width * c.height) (out : ByteArray) :
    appendColors c count index out = some (c.appendColors count index out) := by
  induction count generalizing index out with
  | zero => rfl
  | succ count ih =>
      have hend : index * c.format.bytesPerPixel + c.format.bytesPerPixel ≤ c.bytes.size := by
        rw [hc.size_eq]
        exact Canvas.mul_add_le_mul (by omega)
      rw [appendColors, if_pos hend]
      exact ih (by omega) _

theorem exportInto_eq (hc : c.Valid) (buffer : ByteArray) : exportInto c buffer = some (c.exportInto buffer) := by
  have hcount : c.bytes.size / c.format.bytesPerPixel = c.width * c.height := by
    rw [hc.size_eq]
    exact Nat.mul_div_cancel _ c.format.bytesPerPixel_pos
  have happend := @appendColors_eq c hc (c.width * c.height) 0 (by omega) (buffer.extract 0 0)
  simp only [exportInto, Canvas.exportInto, hcount, happend]
  cases c.format <;> rfl

/-! ## Shapes -/

theorem walkFrom_does (hc : c.Valid) (w : LineWalk) (value steps : Nat) (p : Point) (error : Int) :
    Does c (walkFrom w value steps p error c) (w.foldFrom (fun c p => c.put p value) steps p error c) := by
  induction steps generalizing p error c with
  | zero => exact put_does hc p value
  | succ steps ih =>
      have hput := put_does hc p value
      simp only [walkFrom, LineWalk.foldFrom]
      refine hput.bind ?_
      split
      · exact .nothing _
      · split
        · exact .nothing _
        · exact ih (hput.layout.valid hc) _ _

theorem drawLine_does (hc : c.Valid) (a b : Point) (color : Rgba) :
    Does c (drawLine c a b color) (c.drawLine a b color) := by
  unfold drawLine Canvas.drawLine
  split
  · exact .nothing c
  · exact walkFrom_does hc _ _ _ _ _

theorem plot_does (hc : c.Valid) (l : SmoothLine) (color : Rgba) (along : Int) (height : Single) :
    Does c (plot l color c along height) (l.plot color c along height) := by
  have hblend (d : Canvas) (hd : d.Valid) (p : Point) (color : Rgba) := blend_does hd p color
  simp only [plot, SmoothLine.plot]
  refine (hblend c hc _ _).bind ?_
  split
  · exact hblend _ ((hblend c hc _ _).layout.valid hc) _ _
  · exact .nothing _

theorem drawSmoothLine_does (hc : c.Valid) (a b : Point) (color : Rgba) :
    Does c (drawSmoothLine c a b color) (c.drawSmoothLine a b color) := by
  unfold drawSmoothLine Canvas.drawSmoothLine
  split
  · exact .nothing c
  · split
    · exact blend_does hc a color
    · cases SmoothLine.between? a b with
      | none => exact .nothing c
      | some l =>
        -- The walk carries the height of the line along.
        have hstep (q : Canvas × Single) (along : Int) (hq : c.SameLayout q.1) :
            ((plot l color q.1 along q.2).map fun c => (c, Single.add q.2 l.gradient)) =
                some (l.plot color q.1 along q.2, Single.add q.2 l.gradient) ∧
              c.SameLayout (l.plot color q.1 along q.2) := by
          have hplot := plot_does (hq.valid hc) l color along q.2
          rw [hplot.eq_some]
          exact ⟨rfl, hq.trans hplot.layout⟩
        simp only [Span.fold_eq_foldl]
        have hfold (steps : List Int) (height : Single) :=
          foldlM_eq_some (P := fun q : Canvas × Single => c.SameLayout q.1) (l := steps)
            (fun q along _ => hstep q along) (b := (c, height)) (.refl c)
        refine ⟨?_, (hfold _ _).2⟩
        rw [(hfold _ _).1]
        rfl

theorem fillPolygon_does (hc : c.Valid) (points : List Point) (color : Rgba) :
    Does c (fillPolygon c points color) (c.fillPolygon points color) := by
  unfold fillPolygon Canvas.fillPolygon
  split
  · exact .nothing c
  · refine .spanFold fun d y _ hd => .foldl fun e s _ he => ?_
    split
    · exact putRow_does (he.valid (hd.valid hc)) _ _ y _
    · exact .nothing e

theorem fillSmoothPolygon_does (hc : c.Valid) (points : List Point) (color : Rgba) :
    Does c (fillSmoothPolygon c points color) (c.fillSmoothPolygon points color) := by
  have hfill := fillPolygon_does hc points color
  simp only [fillSmoothPolygon, Canvas.fillSmoothPolygon]
  refine hfill.bind ?_
  split
  · exact .nothing _
  · exact .foldl fun d e _ hd => drawSmoothLine_does (hd.valid (hfill.layout.valid hc)) _ _ color

theorem rimFill_does (hc : c.Valid) (s : RimStep) (center : Point) (value : Nat) :
    Does c (rimFill s c center value) (s.fill c center value) := by
  have hrow (d : Canvas) (hd : c.SameLayout d) (a b y : Int) := putRow_does (hd.valid hc) a b y value
  have hmaybe (d : Canvas) (hd : c.SameLayout d) (a b y : Int) :
      Does d (if s.height = 0 then some d else putRow d a b y value)
        (if s.height = 0 then d else d.putRow a b y value) :=
    .ite (fun _ => .nothing d) fun _ => hrow d hd a b y
  have hwide := hrow c (.refl c) (center.x - s.reach) (center.x + s.reach) (center.y + s.height)
  have hwides := hmaybe _ hwide.layout (center.x - s.reach) (center.x + s.reach) (center.y - s.height)
  have hlayout := hwide.layout.trans hwides.layout
  have hnarrow := hrow _ hlayout (center.x - s.height) (center.x + s.height) (center.y + s.reach)
  have hnarrows := hmaybe _ (hlayout.trans hnarrow.layout) (center.x - s.height) (center.x + s.height)
    (center.y - s.reach)
  exact hwide.bind (hwides.bind (.ite (fun _ => .nothing _) fun _ => hnarrow.bind hnarrows))

theorem rimFillFrom_does (hc : c.Valid) (center : Point) (value steps : Nat) (s : RimStep) :
    Does c (rimFillFrom center value steps s c) (RimStep.fillFrom center value steps s c) := by
  induction steps generalizing s c with
  | zero => exact .nothing c
  | succ steps ih =>
      have hfill := rimFill_does hc s center value
      simp only [rimFillFrom, RimStep.fillFrom]
      split
      · exact .nothing c
      · exact hfill.bind (ih (hfill.layout.valid hc) _)

theorem fillDisc_does (hc : c.Valid) (center : Point) (radius : Int) (color : Rgba) :
    Does c (fillDisc c center radius color) (c.fillDisc center radius color) := by
  simp only [fillDisc, Canvas.fillDisc]
  split
  · exact .nothing c
  · split
    · exact put_does hc center _
    · exact rimFillFrom_does hc center _ _ _

theorem fillSmoothDisc_does (hc : c.Valid) (center : Point) (radius : Int) (color : Rgba) :
    Does c (fillSmoothDisc c center radius color) (c.fillSmoothDisc center radius color) := by
  simp only [fillSmoothDisc, Canvas.fillSmoothDisc]
  split
  · exact .nothing c
  · refine .spanFold fun d y _ hd => .spanFold fun e x _ he => ?_
    have hvalid := he.valid (hd.valid hc)
    split
    · exact put_does hvalid _ _
    · split
      · exact blend_does hvalid _ _
      · exact .nothing e

/-! ## Every sequence of operations -/

theorem after_eq (hc : c.Valid) (operation : CanvasOperation) :
    after c operation = some (c.after operation) ∧ (c.after operation).Valid := by
  refine ⟨?_, (Canvas.OfKind.after ⟨hc, rfl, rfl⟩ operation).valid⟩
  cases operation with
  | put p value => exact (put_does hc p value).eq_some
  | blend p color => exact (blend_does hc p color).eq_some
  | putRow a b y value => exact (putRow_does hc a b y value).eq_some
  | putRect corner width height value => exact (putRect_does hc corner width height value).eq_some
  | paste b corner => exact (paste_does hc b corner).eq_some
  | pasteOver b corner => exact (pasteOver_does hc b corner).eq_some
  | copyFrom source valid corner => exact (copyFrom_does hc valid corner).eq_some
  | resize allocator width height =>
      simp only [after, Canvas.after]
      cases c.resize allocator width height <;> rfl
  | drawLine a b color => exact (drawLine_does hc a b color).eq_some
  | drawSmoothLine a b color => exact (drawSmoothLine_does hc a b color).eq_some
  | fillPolygon points color => exact (fillPolygon_does hc points color).eq_some
  | fillSmoothPolygon points color => exact (fillSmoothPolygon_does hc points color).eq_some
  | fillDisc center radius color => exact (fillDisc_does hc center radius color).eq_some
  | fillSmoothDisc center radius color => exact (fillSmoothDisc_does hc center radius color).eq_some

/-- Whatever is done to a new canvas, it stays valid and nothing outside a buffer is read or written. -/
theorem operations_in_bounds {allocator : Allocator} {width height : Nat} {format : PixelFormat} {antialias : Bool}
    (hcreate : Canvas.create allocator width height format antialias = .ok c) (operations : List CanvasOperation) :
    let d := operations.foldl Canvas.after c
    operations.foldlM after c = some d ∧ d.Valid ∧ (∀ p, packed? d p = some (d.packed? p)) ∧
      ∀ buffer, exportInto d buffer = some (d.exportInto buffer) := by
  obtain ⟨hrun, hvalid⟩ := foldlM_eq_some (P := Canvas.Valid) (l := operations)
    (fun d operation _ hd => after_eq hd operation) (Canvas.valid_of_create hcreate)
  exact ⟨hrun, hvalid, fun p => packed?_eq hvalid p, fun buffer => exportInto_eq hvalid buffer⟩

/-- A canvas of two pixels is copied half off another, and a change of size is refused. -/
theorem operations_in_bounds_of_two_pixels :
    ∃ (allocator : Allocator) (c source : Canvas) (hsource : source.Valid),
      Canvas.create allocator 2 1 .rgba4444 false = .ok c ∧
      let operations := [.copyFrom source hsource ⟨-1, 0⟩, .resize allocator 0 1, .fillDisc ⟨0, 0⟩ 1 .white]
      operations.foldlM after c = some (operations.foldl Canvas.after c) := by
  have hcreate : Canvas.create (.upTo 4) 2 1 .rgba4444 false = .ok (.blank 2 1 .rgba4444 false) := rfl
  have hsource : (Canvas.blank 2 1 .rgba4444 false).Valid := Canvas.valid_of_create hcreate
  exact ⟨_, _, _, hsource, hcreate, (operations_in_bounds hcreate _).1⟩

end Checked

end Framecast
