import Framecast.Demo.Program

/-!
# The command line

The demonstration program on real pipes, which its peers have put at the configured paths. It writes its frames to one
of them and takes its control lines from the other. Without a usable configuration the defaults are used.
-/

namespace Framecast

/-- The configuration that the environment asks for. -/
def configured : IO Config := do
  let named ← match ← IO.getEnv Config.variableName with
    | none => pure none
    | some path =>
      let contents ← try some <$> IO.FS.readBinFile path catch _ => pure none
      pure (some (path, contents))
  match Config.load named with
  | .ok config => return config
  | .error _ => return .default

/-- What one read of the command pipe brings. -/
def readOnce (commands : IO.FS.Handle) (pause : UInt32) : IO ReadOutcome := do
  let b ← commands.read CommandPipe.pieceSize.toUSize
  if b.isEmpty then
    IO.sleep pause
    return .endOfFile
  return .bytes b.toList

/-- Turns of the program until it ends; `sent` is the number of frames that were written. -/
partial def serve (images commands : IO.FS.Handle) (pause : UInt32) (reader : LineReader) (sent : Nat)
    (lines : List String) (p : Demo.Program) : IO UInt32 := do
  match p.turn lines with
  | .error failure =>
    (← IO.getStderr).putStr failure.report
    return 1
  | .ok (goesOn, p) =>
    if !goesOn then return 0
    let p := p.awaitFrame
    for f in p.frames.drop sent do
      images.write f.encode
      images.flush
    let (lines, reader) := reader.poll [← readOnce commands pause]
    serve images commands pause reader p.frames.length lines p

/-- The program takes no buffer of more bytes than a one with forty zero bits behind it. -/
def allocator : Allocator := .upTo 1099511627776

def runWith (config : Config) : IO UInt32 := do
  match Demo.Program.start allocator config.display with
  | .error failure =>
    (← IO.getStderr).putStr failure.report
    return 1
  | .ok p =>
    let images ← IO.FS.Handle.mk config.pipes.imagePipe .write
    let commands ← IO.FS.Handle.mk config.pipes.commandPipe .read
    serve images commands config.timing.inputPollInterval.toUInt32 .start 0 [] p

end Framecast

/-- Runs the demonstration program. -/
def main : IO UInt32 := do Framecast.runWith (← Framecast.configured)
