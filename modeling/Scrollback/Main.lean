import Scrollback.Session
/-!
# Command line
-/

namespace Scrollback.Main

/-- A failure of the operating system. -/
def faultOf : IO.Error → Fault
  | .alreadyExists _ code details | .otherError code details | .resourceBusy code details
  | .resourceVanished code details | .unsupportedOperation code details
  | .hardwareFault code details | .unsatisfiedConstraints code details
  | .illegalOperation code details | .protocolError code details | .timeExpired code details
  | .interrupted _ code details | .noFileOrDirectory _ code details
  | .invalidArgument _ code details | .permissionDenied _ code details
  | .resourceExhausted _ code details | .inappropriateType _ code details
  | .noSuchThing _ code details => ⟨details, code.toNat⟩
  | .unexpectedEof => ⟨"end of file", 0⟩
  | .userError details => ⟨details, 0⟩

/-- A call whose failure is a result. -/
def attempt {α : Type} (call : IO α) : IO (Except Fault α) := do
  try
    return .ok (← call)
  catch e => return .error (faultOf e)

/-- Write bytes to a stream. -/
def emit (stream : IO.FS.Stream) (content : Bytes) : IO Unit := do
  stream.write content.toByteArray
  stream.flush

/-- All bytes that are left in a stream. -/
partial def drain (stream : IO.FS.Stream) (done : ByteArray) : IO ByteArray := do
  let chunk ← stream.read 65536
  if chunk.isEmpty then return done else drain stream (done ++ chunk)

instance : Host IO where
  now := IO.monoNanosNow
  readInput := attempt do return (← drain (← IO.getStdin) .empty).toList
  readFile path := attempt do return (← IO.FS.readBinFile (Config.shownPath path)).toList
  writeFile path content := attempt do
    IO.FS.writeBinFile (Config.shownPath path) content.toByteArray
  writeOutput content := attempt do emit (← IO.getStdout) content
  flushOutput := attempt do (← IO.getStdout).flush
  writeDiagnostic content := attempt do emit (← IO.getStderr) content
  log e := do
    let values := e.values.map fun (name, value) => " " ++ name ++ "=" ++ value
    IO.eprintln (e.level.name ++ " " ++ e.shownMessage ++ String.join values)

end Scrollback.Main

def main (words : List String) : IO UInt32 := do
  let code ← Scrollback.Session.start .ample (words.map Scrollback.Session.bytesOf)
  return UInt32.ofNat code
