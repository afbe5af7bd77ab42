import Framecast.Color.PixelFormat
import Framecast.Json.Parser
import Framecast.Json.Printer
import Framecast.Json.Reader

/-!
# Configuration

The settings of the display, its pipes and its timing. A configuration file is a JSON text in which every section and
every setting may be missing; what is missing keeps its default.
-/

namespace Framecast

open Json

/-- The settings of the root surface. -/
structure DisplaySettings where
  width : Nat
  height : Nat
  bitsPerPixel : Nat
  antialias : Bool
  deriving DecidableEq

/-- The paths of the pipes that frames leave by and control lines come in by. -/
structure PipeSettings where
  imagePipe : String
  commandPipe : String
  deriving DecidableEq

/-- How long to wait between two looks, in milliseconds. -/
structure TimingSettings where
  framePoll : Nat
  inputPoll : Nat
  deriving DecidableEq

structure Config where
  display : DisplaySettings
  pipes : PipeSettings
  timing : TimingSettings
  deriving DecidableEq

/-- Why a configuration cannot be loaded. -/
inductive ConfigError where
  | unreadable (path : String)
  | malformed (path : String)
  deriving DecidableEq

namespace ConfigError

/-- The text shown for the error. -/
def message : ConfigError → String
  | unreadable path => s!"failed to read config {path}"
  | malformed path => s!"failed to parse config {path}"

end ConfigError

namespace DisplaySettings

/-- A square of 400 pixels in the widest format with smooth edges. -/
def default : DisplaySettings := ⟨400, 400, 32, true⟩

/-- The pixel format of the depth that is set. -/
def format (s : DisplaySettings) : Except SurfaceError PixelFormat := PixelFormat.ofBitsPerPixel s.bitsPerPixel

/-- The names of the settings in order. -/
def names : List String := ["width", "height", "bits_per_pixel", "antialias"]

def toJson (s : DisplaySettings) : Value :=
  .record [("width", .integer s.width), ("height", .integer s.height), ("bits_per_pixel", .integer s.bitsPerPixel),
    ("antialias", .boolean s.antialias)]

def ofJson? (v : Value) : Option DisplaySettings := do
  match ← v.fields? names with
  | [width, height, bitsPerPixel, antialias] =>
    return {
      width := ← orElse default.width (Value.natural? 32) width
      height := ← orElse default.height (Value.natural? 32) height
      bitsPerPixel := ← orElse default.bitsPerPixel (Value.natural? 32) bitsPerPixel
      antialias := ← orElse default.antialias Value.boolean? antialias }
  | _ => none

end DisplaySettings

namespace PipeSettings

/-- Two pipes in the directory for temporary files. -/
def default : PipeSettings := ⟨"/tmp/navit.image.fifo", "/tmp/navit.command.fifo"⟩

/-- The names of the settings in order. -/
def names : List String := ["image_fifo", "command_fifo"]

def toJson (s : PipeSettings) : Value :=
  .record [("image_fifo", .text s.imagePipe), ("command_fifo", .text s.commandPipe)]

def ofJson? (v : Value) : Option PipeSettings := do
  match ← v.fields? names with
  | [imagePipe, commandPipe] =>
    return {
      imagePipe := ← orElse default.imagePipe Value.string? imagePipe
      commandPipe := ← orElse default.commandPipe Value.string? commandPipe }
  | _ => none

end PipeSettings

namespace TimingSettings

/-- Five milliseconds for frames and twenty for control lines. -/
def default : TimingSettings := ⟨5, 20⟩

/-- The wait between two looks for a frame or a reader, at least a millisecond. -/
def framePollInterval (s : TimingSettings) : Nat := max s.framePoll 1

/-- The wait between two looks for control lines. -/
def inputPollInterval (s : TimingSettings) : Nat := s.inputPoll

/-- The names of the settings in order. -/
def names : List String := ["frame_poll_interval_ms", "input_poll_interval_ms"]

def toJson (s : TimingSettings) : Value :=
  .record [("frame_poll_interval_ms", .integer s.framePoll), ("input_poll_interval_ms", .integer s.inputPoll)]

def ofJson? (v : Value) : Option TimingSettings := do
  match ← v.fields? names with
  | [framePoll, inputPoll] =>
    return {
      framePoll := ← orElse default.framePoll (Value.natural? 64) framePoll
      inputPoll := ← orElse default.inputPoll (Value.natural? 64) inputPoll }
  | _ => none

end TimingSettings

namespace Config

/-- The defaults of every section. -/
def default : Config := ⟨.default, .default, .default⟩

/-- The variable of the environment that names the configuration file. -/
def variableName : String := "FIFO_CANVAS_CONFIG"

/-- The names of the sections in order. -/
def names : List String := ["display", "pipes", "timing"]

def toJson (c : Config) : Value :=
  .record [("display", c.display.toJson), ("pipes", c.pipes.toJson), ("timing", c.timing.toJson)]

def ofJson? (v : Value) : Option Config := do
  match ← v.fields? names with
  | [display, pipes, timing] =>
    return {
      display := ← orElse .default DisplaySettings.ofJson? display
      pipes := ← orElse .default PipeSettings.ofJson? pipes
      timing := ← orElse .default TimingSettings.ofJson? timing }
  | _ => none

def toText (c : Config) : String := c.toJson.toText

def ofText? (text : String) : Option Config := Json.parse text >>= ofJson?

/-- The configuration in the bytes of a file, if there is one. -/
def ofFile (path : String) (contents : Option ByteArray) : Except ConfigError Config :=
  match contents.bind String.fromUTF8? with
  | none => .error (.unreadable path)
  | some text =>
    match ofText? text with
    | none => .error (.malformed path)
    | some c => .ok c

/-- The configuration that the environment asks for: the defaults, unless it names a file. -/
def load (named : Option (String × Option ByteArray)) : Except ConfigError Config :=
  match named with
  | none => .ok default
  | some (path, contents) => ofFile path contents

end Config

end Framecast
