import Scrollback.Disk
/-!
# A host in memory

A world is a disk with the streams of one session and a clock, which moves on by a nanosecond each
time it is looked at. What is given to a stream is kept as it comes.
-/

namespace Scrollback

/-- The files, the streams and the clock of a session. -/
structure World where
  disk : Disk
  input : Bytes
  output : Bytes
  diagnostics : List Diagnostic
  clock : Nat

namespace World

/-- A world before the session, with files at some paths of the working directory. -/
def start (machine : Place → Option Node) (working : Place) (input : Bytes)
    (files : List (Bytes × Bytes)) : World :=
  let given := files.map fun (path, content) => (working ++ Path.steps path, content)
  ⟨⟨machine, working, given⟩, input, [], [], 0⟩

/-! ### Reading -/

/-- What a stream gives to a reader. -/
def readStream (w : World) : Standard → Bytes
  | .input => w.input
  | .output | .diagnostics => []

/-- What a node gives to a reader. -/
def readNode (w : World) : Node → Except Fault Bytes
  | .directory rules => .error (if rules.listable then .isADirectory else .permissionDenied)
  | .link _ => .error .tooManyLinks
  | .stream s => .ok (w.readStream s)
  | .file rules => rules.reading

/-- What is at a place for a reader. -/
def readAt (w : World) (p : Place) : Except Fault Bytes :=
  match w.disk.file? p, w.disk.node? p with
  | some content, _ => .ok content
  | none, some node => w.readNode node
  | none, none => .error .notFound

def readFile (w : World) (path : Bytes) : Except Fault Bytes := do
  w.readAt (← w.disk.locateOld path)

/-! ### Writing -/

/-- The world after standard output got some bytes. -/
def print (w : World) (content : Bytes) : World :=
  { w with output := w.output ++ content }

/-- The world after standard error got a text or an event. -/
def report (w : World) (diagnostic : Diagnostic) : World :=
  { w with diagnostics := w.diagnostics ++ [diagnostic] }

/-- The world after a stream got some bytes. -/
def writeStream (w : World) (content : Bytes) : Standard → World
  | .input => w
  | .output => w.print content
  | .diagnostics => w.report (.text content)

/-- The world after a node got some bytes. -/
def writeNode (w : World) (content : Bytes) : Node → Except Fault World
  | .directory _ => .error .isADirectory
  | .link _ => .error .tooManyLinks
  | .stream s => .ok (w.writeStream content s)
  | .file rules =>
    match rules.refusal? content with
    | some f => .error f
    | none => .ok w

def writeAt (w : World) (p : Place) (content : Bytes) : Except Fault World :=
  match w.disk.file? p, w.disk.node? p with
  | some _, _ => .ok { w with disk := w.disk.put p content }
  | none, some node => w.writeNode content node
  | none, none => return { w with disk := ← w.disk.create p content }

def writeFile (w : World) (path content : Bytes) : Except Fault World := do
  w.writeAt (← w.disk.locateNew path) content

end World

instance : Host (StateM World) where
  now := modifyGet fun w => (w.clock, { w with clock := w.clock + 1 })
  readInput := return .ok (← get).input
  readFile path := return (← get).readFile path
  writeFile path content := do
    match (← get).writeFile path content with
    | .ok w => set w; return .ok ()
    | .error f => return .error f
  writeOutput content := do
    modify (·.print content)
    return .ok ()
  flushOutput := return .ok ()
  writeDiagnostic content := do
    modify (·.report (.text content))
    return .ok ()
  log e := modify (·.report (.event e))

end Scrollback
