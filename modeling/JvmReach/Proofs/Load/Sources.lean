import JvmReach.Load.Scan
import JvmReach.Proofs.Except

/-!
# What classes are loaded from

Every class that is loaded stems from a class file, which is a file or an entry of an
archive, or from a program model. Directories and the class path only lead to those. The
source lists the line entries of a method in an order of its own, in a class file in any
number of tables.
-/

namespace JvmReach

/-- The line entries of a method as its class file lists them, table after table. -/
def ClassFile.Member.listing? (m : Member) : Option (List LineEntry) :=
  m.code?.map fun (_, attributes) => lineEntries attributes

namespace Load

open Files

/-- The content of a file, or of an entry of an archive. -/
inductive Stores (fs : FileSystem) : Array UInt8 → Prop
  | file {p : Path} {content : Array UInt8} (hread : fs.read p = .ok content) : Stores fs content
  | entry {p : Path} {entries : List ArchiveEntry} {name : String} {content : Array UInt8}
      (harchive : openArchive fs p = .ok entries) (hentry : ⟨name, .bytes content⟩ ∈ entries) :
      Stores fs content

/-- A class as it is loaded from a class file or a model, with the line entries that the
source lists for each of its methods. -/
inductive Yields (content : Array UInt8) (isTarget : Bool) :
    ClassDef → List (Option (List LineEntry)) → Prop
  | classFile {f : ClassFile.Structure} {c : ClassDef}
      (hfile : ClassFile.Structure.ofBytes content = .ok f) (hload : f.load isTarget = .ok c) :
      Yields content isTarget c (f.methods.map ClassFile.Member.listing?)
  | model {classes : List ClassDef} {c : ClassDef}
      (hmodel : Document.readModel content.toList = .ok classes) (hc : c ∈ classes) :
      Yields content isTarget (prepare isTarget c) (c.methods.map fun m => m.body?.map Body.lines)

/-- A class that was loaded from some source in the file system. -/
def HasSource (fs : FileSystem) (isTarget : Bool) (c : ClassDef) : Prop :=
  ∃ content listings, Stores fs content ∧ Yields content isTarget c listings

variable {fs : FileSystem} {p : Path} {loaded : Loaded} {isTarget : Bool}

theorem exists_structure_of_load {content : Array UInt8} {c : ClassDef}
    (h : ClassFile.load content isTarget = .ok c) :
    ∃ f, ClassFile.Structure.ofBytes content = .ok f ∧ f.load isTarget = .ok c := by
  obtain ⟨f, hf, h⟩ := bind_eq_ok_iff.1 h
  exact ⟨f, mapError_eq_ok_iff.1 hf, h⟩

theorem hasSource_of_load {content : Array UInt8} (hstored : Stores fs content) {c : ClassDef}
    (h : ClassFile.load content isTarget = .ok c) : HasSource fs isTarget c := by
  obtain ⟨f, hfile, hload⟩ := exists_structure_of_load h
  exact ⟨content, _, hstored, .classFile hfile hload⟩

theorem hasSource_of_loadClassFile (h : loadClassFile fs p isTarget = .ok loaded) :
    ∀ c ∈ loaded.classes, HasSource fs isTarget c := by
  obtain ⟨content, hread, h⟩ := bind_eq_ok_iff.1 h
  obtain ⟨c, hc, h⟩ := bind_eq_ok_iff.1 h
  cases h
  intro d hd
  rw [List.mem_singleton.1 hd]
  exact hasSource_of_load (.file (mapError_eq_ok_iff.1 hread)) (mapError_eq_ok_iff.1 hc)

theorem readEntry_eq_ok_iff {entry : ArchiveEntry} {name : String} {content : Array UInt8} :
    readEntry p entry = .ok (name, content) ↔ entry = ⟨name, .bytes content⟩ := by
  obtain ⟨name', content'⟩ := entry
  unfold readEntry EntryContent.read?
  cases content' <;> simp [Except.map, Except.mapError]

/-- How an archive is loaded: all of its entries open, its class files are read, and then
decoded. -/
theorem exists_of_loadArchive (h : loadArchive fs p isTarget = .ok loaded) :
    ∃ (entries : List ArchiveEntry) (files : List (String × Array UInt8)) (classes : List ClassDef),
      openArchive fs p = .ok entries ∧ (∀ entry ∈ entries, entry.content ≠ .sealed) ∧
      List.Forall₂ (fun entry file => entry = ⟨file.1, .bytes file.2⟩) (classEntries entries)
        files ∧
      List.Forall₂ (fun file c => ClassFile.load file.2 isTarget = .ok c) files classes ∧
      loaded = ⟨[p], classes⟩ := by
  obtain ⟨entries, harchive, h⟩ := bind_eq_ok_iff.1 h
  split at h
  · cases h
  · next hopen =>
      obtain ⟨files, hfiles, h⟩ := bind_eq_ok_iff.1 h
      obtain ⟨classes, hclasses, h⟩ := bind_eq_ok_iff.1 h
      refine ⟨entries, files, classes, harchive, ?_, ?_, ?_, (pure_eq_ok_iff.1 h).symm⟩
      · simpa using hopen
      · exact (mapM_eq_ok_iff.1 hfiles).imp fun _ _ => readEntry_eq_ok_iff.1
      · exact (mapM_eq_ok_iff.1 hclasses).imp fun _ _ => mapError_eq_ok_iff.1

theorem hasSource_of_loadArchive (h : loadArchive fs p isTarget = .ok loaded) :
    ∀ c ∈ loaded.classes, HasSource fs isTarget c := by
  obtain ⟨entries, files, classes, harchive, -, hfiles, hclasses, rfl⟩ := exists_of_loadArchive h
  intro c hc
  obtain ⟨⟨name, content⟩, hfile, hload⟩ := (exists_mem_of_forall₂ hclasses).2 c hc
  obtain ⟨_, hentry, rfl⟩ := (exists_mem_of_forall₂ hfiles).2 (name, content) hfile
  have hmem : ⟨name, .bytes content⟩ ∈ entries :=
    (List.mem_filter.1 (List.mem_mergeSort.1 hentry)).1
  exact hasSource_of_load (.entry harchive hmem) hload

theorem hasSource_of_loadModel (h : loadModel fs p isTarget = .ok loaded) :
    ∀ c ∈ loaded.classes, HasSource fs isTarget c := by
  obtain ⟨content, hread, h⟩ := bind_eq_ok_iff.1 h
  obtain ⟨classes, hclasses, h⟩ := bind_eq_ok_iff.1 h
  cases h
  intro c hc
  obtain ⟨d, hd, rfl⟩ := List.mem_map.1 hc
  exact ⟨content, _, .file (mapError_eq_ok_iff.1 hread), .model (mapError_eq_ok_iff.1 hclasses) hd⟩

theorem hasSource_of_loadFile {isGiven : Bool} (h : loadFile fs isTarget isGiven p = .ok loaded) :
    ∀ c ∈ loaded.classes, HasSource fs isTarget c := by
  unfold loadFile at h
  split at h
  · exact hasSource_of_loadClassFile h
  · exact hasSource_of_loadArchive h
  · exact hasSource_of_loadModel h
  · cases h
  · cases h
    intro c hc
    cases hc

theorem forall_mem_of_collect {α : Type} {load : α → Except LoadError Loaded}
    {q : ClassDef → Prop} (hload : ∀ a part, load a = .ok part → ∀ c ∈ part.classes, q c)
    {l : List α} (h : Loaded.collect load l = .ok loaded) : ∀ c ∈ loaded.classes, q c := by
  induction l generalizing loaded with
  | nil =>
      cases h
      intro c hc
      cases hc
  | cons a rest ih =>
      obtain ⟨first, hfirst, h⟩ := bind_eq_ok_iff.1 h
      obtain ⟨others, hothers, h⟩ := bind_eq_ok_iff.1 h
      cases h
      intro c hc
      rcases List.mem_append.1 hc with hc | hc
      · exact hload a first hfirst c hc
      · exact ih hothers c hc

/-- What a directory holds at any depth is loaded like the directory. -/
theorem hasSource_of_loadWithin {depth : Nat} {isGiven : Bool}
    (h : loadWithin fs isTarget depth isGiven p = .ok loaded) :
    ∀ c ∈ loaded.classes, HasSource fs isTarget c := by
  induction depth generalizing isGiven p loaded with
  | zero =>
      cases h
      intro c hc
      cases hc
  | succ depth ih =>
      rw [loadWithin] at h
      split at h
      · exact forall_mem_of_collect (fun _ _ => ih) h
      · exact hasSource_of_loadFile h

theorem hasSource_of_loadInput (h : loadInput fs isTarget p = .ok loaded) :
    ∀ c ∈ loaded.classes, HasSource fs isTarget c :=
  hasSource_of_loadWithin h

end Load

end JvmReach
