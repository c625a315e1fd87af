import JvmReach.EntryPoint
import JvmReach.Proofs.Load.Sources
import JvmReach.Proofs.Program.Index

/-!
# The class path adds no entry points

Whatever is loaded for the class path is not under analysis: the flag is handed down to the
sources of the classes, and a model can only take it away. So the classes under analysis are
those among the classes of the target, and a program lists them by name. The entry points of
a library are theirs, whatever the class path was.
-/

namespace JvmReach.Load

open Files

theorem isTarget_of_load {f : ClassFile.Structure} {isTarget : Bool} {c : ClassDef}
    (h : f.load isTarget = .ok c) : c.isTarget = isTarget := by
  obtain ⟨name, -, h⟩ := bind_eq_ok_iff.1 h
  obtain ⟨superclass?, -, h⟩ := bind_eq_ok_iff.1 h
  obtain ⟨interfaces, -, h⟩ := bind_eq_ok_iff.1 h
  obtain ⟨references, -, h⟩ := bind_eq_ok_iff.1 h
  obtain ⟨methods, -, h⟩ := bind_eq_ok_iff.1 h
  cases h
  rfl

/-- None of the classes is under analysis. -/
def Loaded.IsLibrary (loaded : Loaded) : Prop := ∀ c ∈ loaded.classes, c.isTarget = false

variable {fs : FileSystem} {p : Path} {loaded : Loaded}

/-- A model cannot put its classes under analysis by itself. -/
theorem isTarget_eq_false_of_hasSource {c : ClassDef} (h : HasSource fs false c) :
    c.isTarget = false := by
  obtain ⟨content, listings, -, hyields⟩ := h
  cases hyields with
  | classFile _ hload => exact isTarget_of_load hload
  | model _ _ => rw [isTarget_prepare, Bool.and_false]

theorem isLibrary_of_loadInput (h : loadInput fs false p = .ok loaded) : loaded.IsLibrary :=
  fun c hc => isTarget_eq_false_of_hasSource (hasSource_of_loadInput h c hc)

/-- What is loaded for a target and a class path: first what the target holds, then what the
class path holds once it has been expanded, the target itself left out. -/
structure LoadedInParts (fs : FileSystem) (target : Path) (classPath : List Path)
    (loaded own libraries : Loaded) : Prop where
  ofTarget : loadInput fs true target = .ok own
  ofClassPath : ∃ given entries, givenClassPath fs target classPath = .ok given ∧
    expand fs given = .ok entries ∧
    Loaded.collect (loadInput fs false) (entries.filter (!·.isSame target)) = .ok libraries
  eq_append : loaded = own ++ libraries

variable {target : Path} {classPath classPath' : List Path} {own libraries : Loaded}

theorem exists_loadedInParts (h : loadInputs fs target classPath = .ok loaded) :
    ∃ own libraries, LoadedInParts fs target classPath loaded own libraries := by
  obtain ⟨own, hown, h⟩ := bind_eq_ok_iff.1 h
  obtain ⟨given, hgiven, h⟩ := bind_eq_ok_iff.1 h
  obtain ⟨entries, hentries, h⟩ := bind_eq_ok_iff.1 h
  obtain ⟨libraries, hlibraries, h⟩ := bind_eq_ok_iff.1 h
  cases h
  exact ⟨own, libraries, hown, ⟨given, entries, hgiven, hentries, hlibraries⟩, rfl⟩

namespace LoadedInParts

theorem isLibrary (h : LoadedInParts fs target classPath loaded own libraries) :
    libraries.IsLibrary := by
  obtain ⟨given, entries, -, -, hlibraries⟩ := h.ofClassPath
  exact forall_mem_of_collect (fun _ _ => isLibrary_of_loadInput) hlibraries

/-- The classes under analysis are those of the target. -/
theorem filter_classes (h : LoadedInParts fs target classPath loaded own libraries) :
    loaded.classes.filter ClassDef.isTarget = own.classes.filter ClassDef.isTarget := by
  have hnone : libraries.classes.filter ClassDef.isTarget = [] := by
    apply List.filter_eq_nil_iff.2
    intro c hc
    simp [h.isLibrary c hc]
  have happend : loaded.classes = own.classes ++ libraries.classes := by
    rw [h.eq_append]
    rfl
  rw [happend, List.filter_append, hnone, List.append_nil]

end LoadedInParts

/-- Programs loaded for one target have the same classes under analysis. -/
theorem filter_classes_eq_of_loaded {loaded' libraries' : Loaded} {p p' : Program}
    (h : LoadedInParts fs target classPath loaded own libraries)
    (h' : LoadedInParts fs target classPath' loaded' own libraries')
    (hp : Program.ofClasses loaded.classes = .ok p)
    (hp' : Program.ofClasses loaded'.classes = .ok p') :
    p.classes.filter ClassDef.isTarget = p'.classes.filter ClassDef.isTarget := by
  apply Program.filter_classes_eq_of_perm
  have hperm := (Program.perm_classes_of_ofClasses hp).filter ClassDef.isTarget
  have hperm' := (Program.perm_classes_of_ofClasses hp').filter ClassDef.isTarget
  rw [h.filter_classes] at hperm
  rw [h'.filter_classes] at hperm'
  exact hperm.trans hperm'.symm

/-- What is loaded for a class path is never under analysis, so the class path has no say in
the entry points of a library. -/
theorem entryPoints_library_eq_of_loadInputs (fs : FileSystem) (target : Path)
    (classPath classPath' : List Path) (loaded loaded' : Loaded) (p p' : Program)
    (hloaded : loadInputs fs target classPath = .ok loaded)
    (hloaded' : loadInputs fs target classPath' = .ok loaded')
    (hp : Program.ofClasses loaded.classes = .ok p)
    (hp' : Program.ofClasses loaded'.classes = .ok p') :
    (∃ own libraries libraries',
      LoadedInParts fs target classPath loaded own libraries ∧
      LoadedInParts fs target classPath' loaded' own libraries' ∧
      libraries.IsLibrary ∧ libraries'.IsLibrary ∧
      loaded.classes.filter ClassDef.isTarget = own.classes.filter ClassDef.isTarget ∧
      loaded'.classes.filter ClassDef.isTarget = own.classes.filter ClassDef.isTarget) ∧
    ∀ h h' : Hierarchy, h.program = p → h'.program = p' →
      h.entryPoints .library = h'.entryPoints .library := by
  obtain ⟨own, libraries, hparts⟩ := exists_loadedInParts hloaded
  obtain ⟨own', libraries', hparts'⟩ := exists_loadedInParts hloaded'
  have hown : own' = own := Except.ok.inj (hparts'.ofTarget.symm.trans hparts.ofTarget)
  subst hown
  refine ⟨⟨own', libraries, libraries', hparts, hparts', hparts.isLibrary, hparts'.isLibrary,
    hparts.filter_classes, hparts'.filter_classes⟩, ?_⟩
  rintro h h' rfl rfl
  simp only [Hierarchy.entryPoints, filter_classes_eq_of_loaded hparts hparts' hp hp']

def runMethod : Method :=
  { name := "run", descriptor := "()V", access := { isPublic := true } }

def runModel (name : String) : String :=
  "\x7b\"classes\": [\x7b\"name\": \"" ++ name ++ "\", \"isTarget\": true, \"methods\": " ++
    "[\x7b\"name\": \"run\", \"descriptor\": \"()V\", \"access\": \x7b\"isPublic\": true\x7d\x7d]" ++
    "\x7d]\x7d"

def sharedManifest : ArchiveEntry :=
  ⟨manifestName, .bytes "Class-Path: ../more.json\n".toUTF8.data⟩

/-- An archive whose manifest refers to a model that claims to be under analysis. -/
def sharedFiles : FileSystem :=
  (((FileSystem.empty ["work"]).add ["work", "app.json"]
      (.file (runModel "App").toUTF8.data)).add
    ["work", "lib", "a.jar"] (.archive (.ofRecords [sharedManifest]))).add
    ["work", "more.json"] (.file (runModel "More").toUTF8.data)

theorem classes_sharedFiles :
    (loadInputs sharedFiles ⟨"app.json"⟩ [⟨"lib/a.jar"⟩]).toOption.map Loaded.classes =
        some [{ name := "App", methods := [runMethod] },
          { name := "More", methods := [runMethod], isTarget := false }] ∧
      (loadInputs sharedFiles ⟨"app.json"⟩ [⟨"lib"⟩]).toOption.map Loaded.classes =
        some [{ name := "App", methods := [runMethod] }] := by
  decide +kernel

theorem eq_ok_of_toOption_map {ε α β : Type} {x : Except ε α} {f : α → β} {b : β}
    (h : x.toOption.map f = some b) : ∃ a, x = .ok a ∧ f a = b := by
  cases x with
  | error e => cases h
  | ok a => exact ⟨a, rfl, Option.some.inj h⟩

theorem entryPoints_library_eq_sharedFiles :
    ∃ loaded loaded' p p',
      loadInputs sharedFiles ⟨"app.json"⟩ [⟨"lib/a.jar"⟩] = .ok loaded ∧
      loadInputs sharedFiles ⟨"app.json"⟩ [⟨"lib"⟩] = .ok loaded' ∧
      Program.ofClasses loaded.classes = .ok p ∧ Program.ofClasses loaded'.classes = .ok p' ∧
      loaded.classes ≠ loaded'.classes ∧
      ∀ h h' : Hierarchy, h.program = p → h'.program = p' →
        h.entryPoints .library = h'.entryPoints .library := by
  obtain ⟨loaded, hloaded, hclasses⟩ := eq_ok_of_toOption_map classes_sharedFiles.1
  obtain ⟨loaded', hloaded', hclasses'⟩ := eq_ok_of_toOption_map classes_sharedFiles.2
  have hnames : (loaded.classes.map ClassDef.name).Nodup := by
    rw [hclasses]
    decide
  have hnames' : (loaded'.classes.map ClassDef.name).Nodup := by
    rw [hclasses']
    decide
  obtain ⟨p, hp, -⟩ := Program.ofClasses_eq_ok hnames
  obtain ⟨p', hp', -⟩ := Program.ofClasses_eq_ok hnames'
  have hne : loaded.classes ≠ loaded'.classes := by
    rw [hclasses, hclasses']
    decide
  exact ⟨loaded, loaded', p, p', hloaded, hloaded', hp, hp', hne,
    (entryPoints_library_eq_of_loadInputs sharedFiles ⟨"app.json"⟩ [⟨"lib/a.jar"⟩] [⟨"lib"⟩]
      loaded loaded' p p' hloaded hloaded' hp hp').2⟩

end JvmReach.Load
