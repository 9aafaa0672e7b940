import Scrollback.Proofs.Disk
import Scrollback.Proofs.Host
import Scrollback.World
/-!
# A world as a machine

A world keeps what its streams were given, and its disk says where a path leads: to a file of the
session, there or new, to one of the streams, or to something of the machine. Seen so, a world is a
lawful host (`World.view_lawful`), whatever the machine has in place.
-/

namespace Scrollback

open Host (Destination View)

/-- Where a path leads that is written to. Only a file of the session has no part of the machine at
its place. -/
def Disk.destination (d : Disk) (path : Bytes) : Destination :=
  match d.locateNew path with
  | .error _ => .elsewhere
  | .ok p =>
    match d.native? p with
    | none => .file
    | some (.stream .output) => .output
    | some _ => .elsewhere

namespace World

variable {w w' : World} {p : Place} {path content : Bytes}

/-- A world seen from outside. -/
def view : View (StateM World) World where
  run x w := x.run w
  output := output
  diagnostics := diagnostics
  leads w := w.disk.destination

/-! ### Writing -/

/-- Without a part of the machine in its way, a file is made or replaced. -/
theorem writeAt_of_file (hp : w.disk.native? p = none) (h : w.writeAt p content = .ok w') :
    w' = { w with disk := w.disk.put p content } := by
  unfold Disk.native? at hp
  unfold writeAt at h
  split at hp
  · next hfile =>
    rw [hfile] at h
    exact (Except.ok.inj h).symm
  · next hfile =>
    -- The directory around the file takes a new one.
    simp only [hfile, hp, Disk.create] at h
    split at h
    · cases h
    · split at h
      · cases h
      · exact (Except.ok.inj h).symm

/-- A part of the machine takes the bytes on its own. -/
theorem writeAt_of_native {node : Node} (hp : w.disk.native? p = some node) :
    w.writeAt p content = w.writeNode content node := by
  unfold Disk.native? at hp
  unfold writeAt
  split at hp
  · cases hp
  · next hfile => rw [hfile, hp]

/-- Standard output gets what is written to it, and nothing of what is written elsewhere. -/
theorem output_writeNode {node : Node} (hnode : node ≠ .stream .output)
    (h : w.writeNode content node = .ok w') : w'.output = w.output := by
  cases node with
  | directory rules => cases h
  | link target => cases h
  | stream s =>
    cases h
    cases s with
    | input | diagnostics => rfl
    | output => exact absurd rfl hnode
  | file rules =>
    rw [writeNode] at h
    split at h
    · cases h
    · cases h
      rfl

theorem writeFile_eq (h : w.disk.locateNew path = .ok p) (content : Bytes) :
    w.writeFile path content = w.writeAt p content := by
  rw [writeFile, h]
  rfl

theorem readFile_eq (h : w.disk.locateOld path = .ok p) : w.readFile path = w.readAt p := by
  rw [readFile, h]
  rfl

theorem writeFile_eq_ok (h : w.writeFile path content = .ok w') :
    ∃ p, w.disk.locateNew path = .ok p ∧ w.writeAt p content = .ok w' := by
  cases hleads : w.disk.locateNew path with
  | error f =>
    rw [writeFile, hleads] at h
    cases h
  | ok p =>
    rw [writeFile_eq hleads] at h
    exact ⟨p, rfl, h⟩

theorem run_writeFile (h : w.writeFile path content = .ok w') :
    view.run (Host.writeFile path content) w = (.ok (), w') := by
  simp only [view, Host.writeFile, StateT.run_bind, StateT.run_get, pure_bind, h, StateT.run_set]
  rfl

theorem run_writeFile_of_error {f : Fault} (h : w.writeFile path content = .error f) :
    view.run (Host.writeFile path content) w = (.error f, w) := by
  simp only [view, Host.writeFile, StateT.run_bind, StateT.run_get, pure_bind, h]
  rfl

theorem run_writeFile_eq_ok (h : view.run (Host.writeFile path content) w = (.ok (), w')) :
    w.writeFile path content = .ok w' := by
  cases hwrite : w.writeFile path content with
  | error f =>
    rw [run_writeFile_of_error hwrite] at h
    cases h
  | ok next =>
    rw [run_writeFile hwrite] at h
    cases h
    rfl

theorem output_writeFile (h : w.writeFile path content = .ok w')
    (hpath : w.disk.destination path ≠ .output) : w'.output = w.output := by
  obtain ⟨p, hleads, hwrite⟩ := writeFile_eq_ok h
  cases hnative : w.disk.native? p with
  | none => rw [writeAt_of_file hnative hwrite]
  | some node =>
    rw [writeAt_of_native hnative] at hwrite
    refine output_writeNode ?_ hwrite
    rintro rfl
    exact hpath (by simp only [Disk.destination, hleads, hnative])

theorem destination_eq_file (h : w.disk.destination path = .file) :
    ∃ p, w.disk.locateNew path = .ok p ∧ w.disk.native? p = none := by
  unfold Disk.destination at h
  split at h
  · cases h
  · next p hleads =>
    refine ⟨p, hleads, ?_⟩
    split at h
    · assumption
    · cases h
    · cases h

/-- A file that was written is read back. -/
theorem writeFile_stores (h : w.writeFile path content = .ok w')
    (hpath : w.disk.destination path = .file) : view.Stores w path content w' := by
  obtain ⟨p, hleads, hwrite⟩ := writeFile_eq_ok h
  obtain ⟨q, hplace, hnative⟩ := destination_eq_file hpath
  cases hleads.symm.trans hplace
  cases writeAt_of_file hnative hwrite
  refine ⟨rfl, ?_, ?_⟩
  · change (w.disk.put p content).destination path = .file
    simp only [Disk.destination, Disk.locateNew_put hnative hleads, Disk.native?_put]
  · change readFile { w with disk := w.disk.put p content } path = _
    rw [readFile_eq (Disk.locateOld_put hnative hleads), readAt, Disk.file?_put_self]

/-! ### Streams -/

/-- With other streams and another clock, a world has the same files. -/
theorem view_emits {output : Bytes} {diagnostics : List Diagnostic} (hdisk : w'.disk = w.disk)
    (hinput : w'.input = w.input) (houtput : w'.output = w.output ++ output)
    (hdiagnostics : w'.diagnostics = w.diagnostics ++ diagnostics) :
    view.Emits w output diagnostics w' where
  output_eq := houtput
  diagnostics_eq := hdiagnostics
  leads_eq path := congrArg (Disk.destination · path) hdisk
  reading_eq {path} _ := by
    cases w
    cases w'
    cases hdisk
    cases hinput
    rfl

theorem view_emits_print (w : World) (content : Bytes) :
    view.Emits w content [] (w.print content) :=
  view_emits rfl rfl rfl (List.append_nil _).symm

theorem view_emits_report (w : World) (diagnostic : Diagnostic) :
    view.Emits w [] [diagnostic] (w.report diagnostic) :=
  view_emits rfl rfl (List.append_nil _).symm rfl

/-- A world is a lawful host. -/
theorem view_lawful : view.Lawful where
  run_pure _ _ := rfl
  run_map _ _ _ := rfl
  run_bind _ _ _ := rfl
  now _ := view_emits rfl rfl (List.append_nil _).symm (List.append_nil _).symm
  readInput _ := View.Emits.refl view _
  readFile _ _ := View.Emits.refl view _
  writeOutput h := by
    cases h
    exact view_emits_print _ _
  flushOutput h := by
    cases h
    exact View.Emits.refl view _
  writeDiagnostic h := by
    cases h
    exact view_emits_report _ _
  log e w := view_emits_report w (.event e)
  writeFile_output h := output_writeFile (run_writeFile_eq_ok h)
  writeFile h := writeFile_stores (run_writeFile_eq_ok h)

/-! ### A small machine -/

/-- A machine with little on it: a directory for files, a device that holds nothing, and a path to
standard output. -/
def smallMachine (p : Place) : Option Node :=
  if p = [] ∨ p = Place.ofString "/dev" then some (.directory .usual)
  else if p = Place.ofString "/home" then some (.directory .shared)
  else if p = Place.ofString "/dev/null" then some (.file .sink)
  else if p = Place.ofString "/dev/stdout" then some (.stream .output)
  else none

/-- A world on the small machine, with some files in its directory. -/
def small (input : Bytes) (files : List (Bytes × Bytes)) : World :=
  start smallMachine (Place.ofString "/home") input files

/-- A device of the small machine is found by its path. -/
theorem locate_small (path name : Bytes) (hpath : Path.check path = .ok ())
    (hslash : Path.endsInSlash path = false) (hstart : path.head? = some 47)
    (hsteps : Path.steps path = Place.ofString "/dev" ++ [name]) (hname : Disk.Plain name)
    (hlink : (small [] []).disk.link? (Path.steps path) = none)
    (hholds : (small [] []).disk.holds (Path.steps path) = true) :
    (small [] []).disk.locateNew path = .ok (Path.steps path) ∧
      (small [] []).disk.locateOld path = .ok (Path.steps path) := by
  have hroot : (small [] []).disk.directory? [] = some .usual := by decide +kernel
  have hdev : (small [] []).disk.directory? (Place.ofString "/dev") = some .usual := by
    decide +kernel
  have hplace : Place.ofString "/dev" = [Utf8.encode "dev".toList] := by decide +kernel
  have hwalk (mayBeNew : Bool) : (small [] []).disk.locate mayBeNew path (Path.steps path) =
      .ok (Path.steps path) := by
    rw [hplace] at hdev hsteps
    rw [hsteps] at hlink hholds ⊢
    rw [Disk.locate, Path.start, if_pos hstart, List.cons_append, List.nil_append,
      Disk.walk_directory hroot rfl (by decide +kernel) hdev]
    exact Disk.walk_last hdev rfl hname hlink (Bool.or_eq_true_iff.2 (.inl hholds))
  rw [Disk.locateOld_eq hpath hslash]
  exact ⟨Disk.locateNew_eq_ok.2 ⟨hpath, hslash, hwalk true⟩, hwalk false⟩

end World

end Scrollback
