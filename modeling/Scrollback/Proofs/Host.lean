import Scrollback.Host
/-!
# Hosts seen from outside

What a session does is seen in the machine behind its host: in what the standard streams were given,
and in what is read from files. `Host.View` has the states of such a machine, and `View.Lawful` says
that each call does what it is there for. Bytes for a stream come behind those that it was given
before, an event for the log comes to standard error, and a file that was written is read back.

There is no law for what the clock shows, for what is read, for which calls fail, or for the form in
which events are logged. What a write to a path does depends on where the path leads
(`Host.Destination`): to a file, to whatever standard output is directed to, or to something else.
-/

namespace Scrollback.Host

/-- What is at the end of a path that is to be written to. -/
inductive Destination where
  /-- A file, there or to be made, to which no standard stream is directed. -/
  | file
  /-- What standard output is directed to: a pipe, a terminal or a file. -/
  | output
  /-- Something else, such as a device, or nothing that can be written to. -/
  | elsewhere
  deriving DecidableEq

/-- A host seen from outside: each call takes the machine from one state to another one. -/
structure View (m : Type → Type) (σ : Type) where
  run : {α : Type} → m α → σ → α × σ
  /-- What standard output was given. -/
  output : σ → Bytes
  /-- What standard error was given. -/
  diagnostics : σ → List Diagnostic
  /-- Where a path leads. -/
  leads : σ → Bytes → Destination

namespace View

variable {m : Type → Type} [Host m] {σ : Type}

/-- What a path reads. -/
def reading (v : View m σ) (s : σ) (path : Bytes) : Except Fault Bytes :=
  (v.run (Host.readFile path) s).1

/-- The streams were given something, paths lead where they did, and files are as they were. -/
structure Emits (v : View m σ) (s : σ) (output : Bytes) (diagnostics : List Diagnostic)
    (s' : σ) : Prop where
  output_eq : v.output s' = v.output s ++ output
  diagnostics_eq : v.diagnostics s' = v.diagnostics s ++ diagnostics
  leads_eq : ∀ path, v.leads s' path = v.leads s path
  reading_eq : ∀ {path}, v.leads s path = .file → v.reading s' path = v.reading s path

/-- A path that leads to a file reads some bytes now, and standard error was given nothing. -/
structure Stores (v : View m σ) (s : σ) (path content : Bytes) (s' : σ) : Prop where
  diagnostics_eq : v.diagnostics s' = v.diagnostics s
  leads_eq : v.leads s' path = .file
  reading_eq : v.reading s' path = .ok content

/-- Each call on the host does what it is there for, and nothing else. -/
structure Lawful [Monad m] (v : View m σ) : Prop where
  run_pure : ∀ {α : Type} (a : α) (s : σ), v.run (pure a) s = (a, s)
  run_map : ∀ {α β : Type} (f : α → β) (x : m α) (s : σ),
    v.run (f <$> x) s = (f (v.run x s).1, (v.run x s).2)
  run_bind : ∀ {α β : Type} (x : m α) (f : α → m β) (s : σ),
    v.run (x >>= f) s = v.run (f (v.run x s).1) (v.run x s).2
  now : ∀ s, v.Emits s [] [] (v.run Host.now s).2
  readInput : ∀ s, v.Emits s [] [] (v.run Host.readInput s).2
  readFile : ∀ path s, v.Emits s [] [] (v.run (Host.readFile path) s).2
  writeOutput : ∀ {content s s'}, v.run (Host.writeOutput content) s = (.ok (), s') →
    v.Emits s content [] s'
  flushOutput : ∀ {s s'}, v.run Host.flushOutput s = (.ok (), s') → v.Emits s [] [] s'
  writeDiagnostic : ∀ {content s s'}, v.run (Host.writeDiagnostic content) s = (.ok (), s') →
    v.Emits s [] [.text content] s'
  log : ∀ e s, v.Emits s [] [.event e] (v.run (Host.log e) s).2
  /-- Standard output gets nothing of a file, unless the path leads to it. -/
  writeFile_output : ∀ {path content s s'}, v.run (Host.writeFile path content) s = (.ok (), s') →
    v.leads s path ≠ .output → v.output s' = v.output s
  writeFile : ∀ {path content s s'}, v.run (Host.writeFile path content) s = (.ok (), s') →
    v.leads s path = .file → v.Stores s path content s'

variable {v : View m σ} {s t u : σ} {output output' : Bytes} {diagnostics more : List Diagnostic}

theorem Emits.refl (v : View m σ) (s : σ) : v.Emits s [] [] s :=
  ⟨(List.append_nil _).symm, (List.append_nil _).symm, fun _ => rfl, fun _ => rfl⟩

theorem Emits.trans (h : v.Emits s output diagnostics t) (h' : v.Emits t output' more u) :
    v.Emits s (output ++ output') (diagnostics ++ more) u where
  output_eq := by rw [h'.output_eq, h.output_eq, List.append_assoc]
  diagnostics_eq := by rw [h'.diagnostics_eq, h.diagnostics_eq, List.append_assoc]
  leads_eq path := (h'.leads_eq path).trans (h.leads_eq path)
  reading_eq hpath :=
    (h'.reading_eq ((h.leads_eq _).trans hpath)).trans (h.reading_eq hpath)

end View

end Scrollback.Host
