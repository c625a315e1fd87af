import JvmReach.Proofs.Load.Mentions
import JvmReach.Proofs.Load.Targets

/-!
# What counts as an archive

The loader asks twice whether a path is an archive: for its references by the extension in any
letter case, and for its classes by the extension in lower case, after directories have been told
apart. The answers differ for an archive with capitals in its extension, and for a directory that
is named like an archive. Neither is passed over: the one is refused when its classes are to be
loaded, the other when its references are looked up. So the answers agree wherever loading
succeeds.
-/

namespace JvmReach.Load

open Files

/-- As what an input is loaded. -/
inductive InputKind where
  | directory
  | classFile
  | archive
  | model
  | unsupported
deriving DecidableEq

def inputKind (fs : FileSystem) (p : Path) : InputKind :=
  if fs.isDirectory p then .directory
  else if p.extension? = some "class" then .classFile
  else if p.extension? = some "jar" then .archive
  else if p.extension? = some "json" then .model
  else .unsupported

def InputKind.load (fs : FileSystem) (isTarget : Bool) (p : Path) :
    InputKind → Except LoadError Loaded
  | directory => Loaded.collect (loadWithin fs isTarget (fs.nodes.size + 1) false) (fs.children p)
  | classFile => loadClassFile fs p isTarget
  | archive => loadArchive fs p isTarget
  | model => loadModel fs p isTarget
  | unsupported => .error (.unsupportedFile p)

/-- How a path is treated that is there, as a target or on the class path. -/
structure Treatment (fs : FileSystem) (p : Path) : Prop where
  references_eq : references fs p =
    if p.isJar then (manifestClassPath fs p).map sortPaths else .ok []
  givenClassPath_eq : ∀ classPath, givenClassPath fs p classPath =
    if p.isJar then (manifestClassPath fs p).map (sortPaths classPath ++ ·)
    else .ok (sortPaths classPath)
  loadInput_eq : ∀ isTarget, loadInput fs isTarget p = (inputKind fs p).load fs isTarget p
  agree_iff : (p.isJar = true ↔ inputKind fs p = .archive) ↔
    (p.isJar = true → fs.isDirectory p = false ∧ p.extension? = some "jar")
  archive : ∀ files, openArchive fs p = .ok files → p.extension? = some "jar" →
    p.isJar = true ∧ inputKind fs p = .archive
  unsupported : p.isJar = true → fs.isDirectory p = false → p.extension? ≠ some "jar" →
    ∀ isTarget, loadInput fs isTarget p = .error (.unsupportedFile p)
  notAnArchive : p.isJar = true → fs.isDirectory p = true →
    references fs p = .error (.notAnArchive p) ∧
      ∀ classPath, givenClassPath fs p classPath = .error (.notAnArchive p)

variable {fs : FileSystem} {isTarget : Bool} {p q target : Path} {classPath : List Path}
  {loaded : Loaded}

section Kinds

theorem isJar_of_extension (h : p.extension? = some "jar") : p.isJar = true := by
  rw [Path.isJar, h]
  rfl

theorem loadInput_eq_load : loadInput fs isTarget p = (inputKind fs p).load fs isTarget p := by
  rw [loadInput, loadWithin, inputKind]
  split
  · rfl
  · unfold loadFile
    split <;> simp_all [InputKind.load]

theorem inputKind_eq_directory_iff :
    inputKind fs p = .directory ↔ fs.isDirectory p = true := by
  unfold inputKind
  split_ifs <;> simp_all

theorem inputKind_eq_archive_iff :
    inputKind fs p = .archive ↔ fs.isDirectory p = false ∧ p.extension? = some "jar" := by
  unfold inputKind
  split_ifs <;> simp_all

/-- An archive by its name that is no directory has capitals in its extension, or is loaded. -/
theorem inputKind_of_isJar (hjar : p.isJar = true) (hfile : fs.isDirectory p = false) :
    inputKind fs p = if p.extension? = some "jar" then .archive else .unsupported := by
  have hclass : p.extension? ≠ some "class" := by
    intro h
    rw [Path.isJar, h] at hjar
    cases hjar
  have hjson : p.extension? ≠ some "json" := by
    intro h
    rw [Path.isJar, h] at hjar
    cases hjar
  rw [inputKind, if_neg (by simp [hfile]), if_neg hclass, if_neg hjson]

theorem extension_eq_of_isSame (h : p.isSame q = true) : p.extension? = q.extension? := by
  rw [Path.isSame, beq_iff_eq] at h
  rw [Path.extension?, Path.extension?, Path.name?, Path.name?, h]

theorem isDirectory_of_openArchive {files : List ArchiveEntry} (h : openArchive fs p = .ok files) :
    fs.isDirectory p = false := by
  obtain ⟨node, hnode, h⟩ := bind_eq_ok_iff.1 h
  rw [FileSystem.isDirectory, mapError_eq_ok_iff.1 hnode]
  cases node with
  | directory => cases h
  | file _ | archive _ => rfl

theorem isDirectory_of_manifestClassPath {found : List Path}
    (h : manifestClassPath fs p = .ok found) : fs.isDirectory p = false := by
  obtain ⟨files, hfiles, -⟩ := bind_eq_ok_iff.1 h
  exact isDirectory_of_openArchive hfiles

theorem lookup_of_isDirectory (h : fs.isDirectory p = true) : fs.lookup p = .ok .directory := by
  rw [FileSystem.isDirectory] at h
  split at h
  · assumption
  · cases h

theorem manifestClassPath_of_isDirectory (h : fs.isDirectory p = true) :
    manifestClassPath fs p = .error (.notAnArchive p) := by
  rw [manifestClassPath, openArchive, lookup_of_isDirectory h]
  rfl

theorem givenClassPath_eq_ite (classPath : List Path) : givenClassPath fs p classPath =
    if p.isJar then (manifestClassPath fs p).map (sortPaths classPath ++ ·)
    else .ok (sortPaths classPath) := by
  unfold givenClassPath
  cases p.isJar with
  | true => cases manifestClassPath fs p <;> rfl
  | false => exact congrArg Except.ok (List.append_nil _)

theorem treatment_of_contains (h : fs.contains p = true) : Treatment fs p := by
  have hreferences : references fs p =
      if p.isJar then (manifestClassPath fs p).map sortPaths else .ok [] := by
    rw [references, h]
    rfl
  exact {
    references_eq := hreferences
    givenClassPath_eq := givenClassPath_eq_ite
    loadInput_eq := fun _ => loadInput_eq_load
    agree_iff := by
      rw [inputKind_eq_archive_iff]
      exact ⟨Iff.mp, fun h => ⟨h, fun harchive => isJar_of_extension harchive.2⟩⟩
    archive := fun files hfiles hextension =>
      ⟨isJar_of_extension hextension,
        inputKind_eq_archive_iff.2 ⟨isDirectory_of_openArchive hfiles, hextension⟩⟩
    unsupported := by
      intro hjar hfile hextension isTarget
      rw [loadInput_eq_load, inputKind_of_isJar hjar hfile, if_neg hextension]
      rfl
    notAnArchive := by
      intro hjar hdirectory
      have hmanifest := manifestClassPath_of_isDirectory hdirectory
      refine ⟨?_, fun classPath => ?_⟩
      · rw [hreferences, if_pos hjar, hmanifest]
        rfl
      · rw [givenClassPath_eq_ite, if_pos hjar, hmanifest]
        rfl }

end Kinds

section Runs

theorem archive_of_loadInput (hload : loadInput fs isTarget p = .ok loaded)
    (hjar : p.isJar = true) (hfile : fs.isDirectory p = false) : p.extension? = some "jar" := by
  by_contra hextension
  rw [loadInput_eq_load, inputKind_of_isJar hjar hfile, if_neg hextension] at hload
  cases hload

theorem isJar_iff_archive_of_loadInputs (h : loadInputs fs target classPath = .ok loaded) :
    ∃ given entries, givenClassPath fs target classPath = .ok given ∧
      expand fs given = .ok entries ∧
      ∀ p ∈ target :: entries, (p.isJar = true ↔ inputKind fs p = .archive) := by
  obtain ⟨own, libraries, hparts⟩ := exists_loadedInParts h
  obtain ⟨given, entries, hgiven, hentries, hlibraries⟩ := hparts.ofClassPath
  have htarget : target.isJar = true → fs.isDirectory target = false ∧
      target.extension? = some "jar" := by
    intro hjar
    rw [givenClassPath_eq_ite, if_pos hjar] at hgiven
    obtain ⟨found, hfound, -⟩ := map_eq_ok_iff.1 hgiven
    have hfile := isDirectory_of_manifestClassPath hfound
    exact ⟨hfile, archive_of_loadInput hparts.ofTarget hjar hfile⟩
  have hentry : ∀ p ∈ entries, p.isJar = true → fs.isDirectory p = false ∧
      p.extension? = some "jar" := by
    intro p hp hjar
    have hcan := ((expands_iff.2 hentries.symm).mentioned rfl p hp).2
    obtain ⟨found, hfound⟩ := (exists_manifestClassPath_iff hjar).2 hcan
    have hfile := isDirectory_of_manifestClassPath hfound
    refine ⟨hfile, ?_⟩
    -- The target under another text is not loaded again, but has the extension of the target.
    by_cases hsame : p.isSame target = true
    · have hextension := extension_eq_of_isSame hsame
      rw [hextension]
      exact (htarget (by rwa [Path.isJar, ← hextension])).2
    · obtain ⟨part, hpart⟩ := Loaded.exists_of_collect hlibraries p
        (List.mem_filter.2 ⟨hp, by simpa using hsame⟩)
      exact archive_of_loadInput hpart hjar hfile
  refine ⟨given, entries, hgiven, hentries, fun p hp => ?_⟩
  rw [inputKind_eq_archive_iff]
  refine ⟨?_, fun harchive => isJar_of_extension harchive.2⟩
  rcases List.mem_cons.1 hp with rfl | hp
  · exact htarget
  · exact hentry p hp

end Runs

/-- A path that is there counts as an archive in both ways or in none, unless it names an
archive but is a directory, or has capitals in its extension. Where loading succeeds there is
no such path among the inputs. -/
theorem archives_counted_alike (fs : FileSystem) :
    (∀ p, fs.contains p = true → Treatment fs p) ∧
    ∀ target classPath loaded, loadInputs fs target classPath = .ok loaded →
      ∃ given entries, givenClassPath fs target classPath = .ok given ∧
        expand fs given = .ok entries ∧
        ∀ p ∈ target :: entries, (p.isJar = true ↔ inputKind fs p = .archive) :=
  ⟨fun _ => treatment_of_contains, fun _ _ _ => isJar_iff_archive_of_loadInputs⟩

theorem artifacts_circularFiles :
    (loadInputs circularFiles ⟨"a.jar"⟩ []).toOption.map Loaded.artifacts =
      some [⟨"a.jar"⟩, ⟨"b.jar"⟩, ⟨"c.jar"⟩] := by
  decide +kernel

theorem archives_counted_alike_circular :
    Treatment circularFiles ⟨"a.jar"⟩ ∧
    ∃ loaded, loadInputs circularFiles ⟨"a.jar"⟩ [] = .ok loaded ∧
      ∃ given entries, givenClassPath circularFiles ⟨"a.jar"⟩ [] = .ok given ∧
        expand circularFiles given = .ok entries ∧
        ∀ p ∈ (⟨"a.jar"⟩ : Path) :: entries,
          (p.isJar = true ↔ inputKind circularFiles p = .archive) := by
  obtain ⟨loaded, hloaded, -⟩ := eq_ok_of_toOption_map artifacts_circularFiles
  have hcontains : circularFiles.contains ⟨"a.jar"⟩ = true := by decide +kernel
  exact ⟨(archives_counted_alike circularFiles).1 ⟨"a.jar"⟩ hcontains, loaded, hloaded,
    (archives_counted_alike circularFiles).2 ⟨"a.jar"⟩ [] loaded hloaded⟩

/-- An archive with capitals in its extension, and a directory that is named like one. -/
def misnamedFiles : FileSystem :=
  ((FileSystem.empty ["work"]).add ["work", "LIB.JAR"] (referring "lib.jar")).add
    ["work", "lib.jar", "more.jar"] (referring "")

/-- The archive is read for its references, but refused as an input. The directory is loaded,
but its name keeps the class path from being expanded. -/
theorem isJar_disagrees_misnamed :
    (misnamedFiles.contains ⟨"LIB.JAR"⟩ = true ∧
      (references misnamedFiles ⟨"LIB.JAR"⟩).toOption = some [⟨"lib.jar"⟩] ∧
      loadInput misnamedFiles false ⟨"LIB.JAR"⟩ = .error (.unsupportedFile ⟨"LIB.JAR"⟩)) ∧
    misnamedFiles.isDirectory ⟨"lib.jar"⟩ = true ∧
      (loadInput misnamedFiles false ⟨"lib.jar"⟩).toOption.map Loaded.artifacts =
        some [⟨"lib.jar/more.jar"⟩] ∧
      references misnamedFiles ⟨"lib.jar"⟩ = .error (.notAnArchive ⟨"lib.jar"⟩) := by
  have hcapitals : misnamedFiles.contains ⟨"LIB.JAR"⟩ = true := by decide +kernel
  have hdirectory : misnamedFiles.contains ⟨"lib.jar"⟩ = true := by decide +kernel
  refine ⟨⟨hcapitals, by decide +kernel, ?_⟩, by decide +kernel, by decide +kernel, ?_⟩
  · exact (treatment_of_contains hcapitals).unsupported (by decide) (by decide +kernel)
      (by decide) false
  · exact ((treatment_of_contains hdirectory).notAnArchive (by decide) (by decide +kernel)).1

end JvmReach.Load
