import Scrollback.Host
import Scrollback.Path
/-!
# Disks

A disk has the files of a session among the nodes of a machine: directories, links to other places,
the streams of the session, and files that follow rules of their own. Which nodes there are is a
parameter. A path is walked step by step, links are followed up to a bound, and the first step that
fails gives the fault.
-/

namespace Scrollback

/-! ### Nodes -/

/-- A stream of a session. -/
inductive Standard where
  | input
  | output
  | diagnostics
  deriving DecidableEq, Repr

/-- What a directory lets a session do. -/
structure DirectoryRules where
  /-- Whether a path may lead through it. -/
  enterable : Bool
  /-- Whether it may be opened to be read. -/
  listable : Bool
  /-- Whether it refuses names that are too long as such. -/
  boundsNames : Bool
  /-- What a new file meets, if it is refused. -/
  refusal : Option Fault
  deriving DecidableEq, Repr

namespace DirectoryRules

/-- A directory that everyone may look into. -/
def usual : DirectoryRules :=
  ⟨true, true, true, some .permissionDenied⟩

/-- A directory where everyone may make files. -/
def shared : DirectoryRules :=
  ⟨true, true, true, none⟩

end DirectoryRules

/-- How a file of the machine answers a session. -/
structure FileRules where
  /-- What a reader gets. -/
  reading : Except Fault Bytes
  /-- What a writer meets that opens it, if it is refused. -/
  opening : Option Fault
  /-- What the bytes of a writer meet, if they are refused. -/
  taking : Option Fault

namespace FileRules

/-- A device that holds nothing and takes everything. -/
def sink : FileRules :=
  ⟨.ok [], none, none⟩

/-- What a writer of some bytes meets, if it is refused. -/
def refusal? (rules : FileRules) (content : Bytes) : Option Fault :=
  if content.isEmpty then rules.opening else rules.opening <|> rules.taking

end FileRules

/-- What is at a place. -/
inductive Node where
  | directory (rules : DirectoryRules)
  /-- Another place is meant. -/
  | link (target : Place)
  /-- One end of a stream of the session. -/
  | stream (s : Standard)
  | file (rules : FileRules)

/-! ### Disks -/

/-- The files of a session on a machine. -/
structure Disk where
  /-- What the machine has in place. -/
  machine : Place → Option Node
  /-- The working directory. -/
  working : Place
  files : List (Place × Bytes)

namespace Disk

/-- The content of the file of the session at a place. -/
def file? (d : Disk) (p : Place) : Option Bytes :=
  (d.files.find? (·.1 == p)).map (·.2)

/-- What is at a place where no file of the session is: a directory around such files at least. -/
def node? (d : Disk) (p : Place) : Option Node :=
  match d.machine p with
  | some node => some node
  | none => if d.files.any (·.1.isBelow p) then some (.directory .shared) else none

/-- The rules of the directory at a place. -/
def directory? (d : Disk) (p : Place) : Option DirectoryRules :=
  match d.file? p, d.node? p with
  | none, some (.directory rules) => some rules
  | _, _ => none

/-- The place that is meant instead of a place, if there is a link at it. -/
def link? (d : Disk) (p : Place) : Option Place :=
  match d.file? p, d.node? p with
  | none, some (.link target) => some target
  | _, _ => none

/-- Whether there is something at a place. -/
def holds (d : Disk) (p : Place) : Bool :=
  (d.file? p).isSome || (d.node? p).isSome

/-- The disk after a file got its content. -/
def put (d : Disk) (p : Place) (content : Bytes) : Disk :=
  { d with files := d.files.filter (·.1 != p) ++ [(p, content)] }

/-! ### Walking -/

/-- The place that a step leads to, whether there is something at it or not. -/
def enter (d : Disk) (p : Place) (step : Bytes) : Except Fault Place :=
  match d.directory? p with
  | none => .error .notADirectory
  | some rules =>
    if !rules.enterable then .error .permissionDenied
    else if step = Path.here then .ok p
    else if step = Path.up then .ok p.parent
    else if rules.boundsNames && Path.longestName < step.length then .error .nameTooLong
    else .ok (p.child step)

/-- The place that steps lead to, with as many links on the way as may be followed. There must be
something at each place on the way, and at the last one unless it may be new. -/
def walk (d : Disk) (mayBeNew : Bool) (links : Nat) (p : Place) (steps : List Bytes) :
    Except Fault Place :=
  match steps with
  | [] => .ok p
  | step :: rest =>
    match d.enter p step with
    | .error f => .error f
    | .ok next =>
      match d.link? next, links with
      | some _, 0 => .error .tooManyLinks
      | some target, links + 1 => walk d mayBeNew links [] (target ++ rest)
      | none, links =>
        if d.holds next || (mayBeNew && rest.isEmpty) then walk d mayBeNew links next rest
        else .error .notFound
  termination_by (links, steps.length)

/-- The place that some steps of a path lead to. -/
def locate (d : Disk) (mayBeNew : Bool) (path : Bytes) (steps : List Bytes) : Except Fault Place :=
  d.walk mayBeNew Path.mostLinks (Path.start d.working path) steps

/-- The place of a file that is to be read. -/
def locateOld (d : Disk) (path : Bytes) : Except Fault Place := do
  Path.check path
  let p ← d.locate false path (Path.steps path)
  if (d.directory? p).isNone && Path.endsInSlash path then .error .notADirectory
  else .ok p

/-- The place of a file that is to be written. A path that ends in a slash names no file, whatever
is there. -/
def locateNew (d : Disk) (path : Bytes) : Except Fault Place := do
  Path.check path
  if Path.endsInSlash path then
    let around ← d.locate false path (Path.steps path).dropLast
    let _ ← d.enter around Path.here
    .error .isADirectory
  else d.locate true path (Path.steps path)

/-! ### Making files -/

/-- The disk after a new file got its content, if its directory takes it. -/
def create (d : Disk) (p : Place) (content : Bytes) : Except Fault Disk :=
  match d.directory? p.parent with
  | none => .error .notADirectory
  | some rules =>
    match rules.refusal with
    | some f => .error f
    | none => .ok (d.put p content)

end Disk

end Scrollback
