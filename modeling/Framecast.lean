import Framecast.Main
import Framecast.Json.Records
import Framecast.Pipe.FramePipe
import Framecast.Png.Decoder
import Framecast.Proofs.Canvas.Layout
import Framecast.Proofs.Canvas.Pixels
import Framecast.Proofs.Canvas.Copies
import Framecast.Proofs.Canvas.Operations
import Framecast.Proofs.Canvas.Writes
import Framecast.Proofs.Screen.Operations
import Framecast.Proofs.Screen.Handles
import Framecast.Proofs.Screen.Composition
import Framecast.Proofs.Display.Calls
import Framecast.Proofs.Display.Hidden
import Framecast.Proofs.Canvas.Export
import Framecast.Proofs.Frame.Delivery
import Framecast.Proofs.Frame.Exchange
import Framecast.Proofs.Display.Session
import Framecast.Proofs.Display.Handoff
import Framecast.Proofs.Display.Waiting
import Framecast.Proofs.Number.Literal
import Framecast.Proofs.Frame.Reading
import Framecast.Proofs.Control.Grammar
import Framecast.Proofs.Frame.Relay
import Framecast.Proofs.Canvas.Solid
import Framecast.Proofs.Canvas.Bitmaps
import Framecast.Proofs.Display.Solid
import Framecast.Proofs.Display.Hearing
import Framecast.Proofs.Display.Input
import Framecast.Proofs.Canvas.Checked
import Framecast.Proofs.Number.Halves
import Framecast.Proofs.Shape.Discs
import Framecast.Proofs.Shape.Strokes
import Framecast.Proofs.Frame.Limit
import Framecast.Proofs.Display.Refusals
import Framecast.Proofs.Display.Publishing
import Framecast.Proofs.Demo.Rendering
import Framecast.Proofs.Demo.Loop
import Framecast.Proofs.Pipe.Connections
import Framecast.Proofs.Pipe.Recipients
import Framecast.Proofs.Shape.Lines
import Framecast.Proofs.Pipe.Framing
import Framecast.Proofs.Shape.Polygons
import Framecast.Proofs.Canvas.Conversions
import Framecast.Proofs.Canvas.Layers
import Framecast.Proofs.Text.Runs
import Framecast.Proofs.Canvas.Rectangles
import Framecast.Proofs.Display.Discs
import Framecast.Proofs.Canvas.Pastes
import Framecast.Proofs.Text.Memory
import Framecast.Proofs.Canvas.Restoration
import Framecast.Proofs.Control.Segments
import Framecast.Proofs.Text.Measure
import Framecast.Proofs.Config.Selections
import Framecast.Proofs.Json.Acceptance
import Framecast.Proofs.Shape.Plans
import Framecast.Proofs.Number.Rounding
import Framecast.Proofs.Canvas.Store
import Framecast.Proofs.Shape.Scanlines
