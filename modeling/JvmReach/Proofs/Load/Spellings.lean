import JvmReach.Proofs.Files.Plain
import JvmReach.Proofs.Load.Archives

/-!
# What is loaded more than once

An expansion meets a path once, but a place has many paths: an archive that refers to
`../lib/b.jar` from the directory `ext` mentions `ext/../lib/b.jar`, which leads to `lib/b.jar`.
A place is met under each path that is mentioned for it, and what it holds is loaded as often. So
nothing is loaded twice just if no place is mentioned under two paths. Plain paths give no
occasion for that.
-/

namespace JvmReach.Load

open Files

/-- No two of the paths lead to one place. -/
def OneSpelling (fs : FileSystem) (IsAmong : Path → Prop) : Prop :=
  ∀ p q location, IsAmong p → IsAmong q → fs.resolve p = .ok location →
    fs.resolve q = .ok location → p = q

/-- The class path in the manifest has plain paths only. -/
def PlainManifest (rooted : Bool) (content : String) : Prop :=
  ∀ value ∈ Manifest.classPathValue? content, ∀ word ∈ Text.words (String.ofList value),
    (Files.Path.mk word).IsPlain false ∨ (Files.Path.mk word).IsPlain rooted

/-- The archives in a file system, each as its entries. -/
def archives (fs : FileSystem) : List (List ArchiveEntry) :=
  fs.nodes.toList.filterMap fun (_, node) =>
    match node with
    | .archive archive => some archive.entries
    | _ => none

def PlainReferences (fs : FileSystem) (rooted : Bool) : Prop :=
  ∀ files ∈ archives fs, ∀ read ∈ manifestText? files, ∀ content ∈ read.toOption,
    PlainManifest rooted content

/-- The paths from which something is loaded: the target, and other entries. -/
def loadedPaths (target : Path) (entries : List Path) : List Path :=
  target :: entries.filter (!·.isSame target)

instance (rooted : Bool) (content : String) : Decidable (PlainManifest rooted content) :=
  inferInstanceAs (Decidable (∀ value ∈ Manifest.classPathValue? content,
    ∀ word ∈ Text.words (String.ofList value),
      (Files.Path.mk word).IsPlain false ∨ (Files.Path.mk word).IsPlain rooted))

instance (fs : FileSystem) (rooted : Bool) : Decidable (PlainReferences fs rooted) :=
  inferInstanceAs (Decidable (∀ files ∈ archives fs, ∀ read ∈ manifestText? files,
    ∀ content ∈ read.toOption, PlainManifest rooted content))

variable {fs : FileSystem} {rooted isTarget : Bool} {p q target : Path}
  {classPath entries paths given found : List Path} {loaded : Loaded}

section Places

theorem exists_resolve_of_contains (h : fs.contains p = true) :
    ∃ location, fs.resolve p = .ok location := by
  rw [FileSystem.contains, FileSystem.lookup] at h
  cases hresolve : fs.resolve p with
  | error e =>
      rw [hresolve] at h
      cases h
  | ok location => exact ⟨location, rfl⟩

/-- Whatever is loaded is there, be it looked up, opened or read. -/
theorem contains_of_loadInput (h : loadInput fs isTarget p = .ok loaded) :
    fs.contains p = true := by
  rw [loadInput_eq_load] at h
  cases hkind : inputKind fs p with
  | directory =>
      exact contains_of_lookup (lookup_of_isDirectory (inputKind_eq_directory_iff.1 hkind))
  | classFile | model =>
      rw [hkind] at h
      obtain ⟨content, hread, -⟩ := bind_eq_ok_iff.1 h
      exact contains_of_read (mapError_eq_ok_iff.1 hread)
  | archive =>
      rw [hkind] at h
      obtain ⟨files, hfiles, -⟩ := bind_eq_ok_iff.1 h
      exact contains_of_openArchive hfiles
  | unsupported =>
      rw [hkind] at h
      cases h

/-- Places are met once just if none is mentioned under two paths. -/
theorem nodup_map_resolve_iff {IsAmong : Path → Prop} (hnodup : paths.Nodup)
    (hmem : ∀ p, p ∈ paths ↔ IsAmong p) (hcontains : ∀ p ∈ paths, fs.contains p = true) :
    (paths.map fs.resolve).Nodup ↔ OneSpelling fs IsAmong := by
  rw [List.nodup_map_iff_inj_on hnodup]
  constructor
  · intro h p q location hp hq hresolve hresolve'
    exact h p ((hmem p).2 hp) q ((hmem q).2 hq) (hresolve.trans hresolve'.symm)
  · intro h p hp q hq heq
    obtain ⟨location, hresolve⟩ := exists_resolve_of_contains (hcontains p hp)
    exact h p q location ((hmem p).1 hp) ((hmem q).1 hq) hresolve (heq ▸ hresolve)

end Places

section Plain

theorem mem_archives_of_openArchive {files : List ArchiveEntry}
    (h : openArchive fs p = .ok files) : files ∈ archives fs := by
  obtain ⟨node, hnode, h⟩ := bind_eq_ok_iff.1 h
  obtain ⟨location, -, hlookup⟩ := bind_eq_ok_iff.1 (mapError_eq_ok_iff.1 hnode)
  cases node with
  | archive archive =>
      cases h
      have hfound : fs.node? location = some (.archive archive) := by
        split at hlookup
        · next hfound => rw [hfound, pure_eq_ok_iff.1 hlookup]
        · cases hlookup
      cases location with
      | nil => cases hfound
      | cons name rest =>
          have hnode : (name :: rest, .archive archive) ∈ fs.nodes.toList :=
            Std.ExtTreeMap.mem_toList_iff_getElem?_eq_some.2 hfound
          exact List.mem_filterMap.2 ⟨_, hnode, rfl⟩
  | directory | file _ => cases h

theorem exists_of_mem_manifestClassPath (h : manifestClassPath fs p = .ok found) (hq : q ∈ found) :
    ∃ files content, openArchive fs p = .ok files ∧ manifestText? files = some (.ok content) ∧
      q ∈ Manifest.classPath p content := by
  obtain ⟨files, hfiles, hfound⟩ := manifestClassPath_eq_ok_iff.1 h
  rcases hfound with ⟨-, rfl⟩ | ⟨content, hcontent, rfl⟩
  · cases hq
  · exact ⟨files, content, hfiles, hcontent, hq⟩

theorem isPlain_of_mem_classPath {content : String} (hmanifest : PlainManifest rooted content)
    (hp : p.IsPlain rooted) (hq : q ∈ Manifest.classPath p content) : q.IsPlain rooted := by
  unfold Manifest.classPath at hq
  split at hq
  · cases hq
  · next value hvalue =>
      obtain ⟨word, hword, rfl⟩ := List.mem_map.1 hq
      rcases hmanifest value hvalue word hword with hplain | hplain
      · exact hp.join hplain
      · cases rooted with
        | false => exact hp.join hplain
        | true => rwa [Path.join_of_isAbsolute _ hplain.isAbsolute_eq]

theorem isPlain_of_mem_manifestClassPath (hreferences : PlainReferences fs rooted)
    (hp : p.IsPlain rooted) (h : manifestClassPath fs p = .ok found) (hq : q ∈ found) :
    q.IsPlain rooted := by
  obtain ⟨files, content, hfiles, hcontent, hq⟩ := exists_of_mem_manifestClassPath h hq
  have hplain := hreferences files (mem_archives_of_openArchive hfiles) (.ok content) hcontent
  exact isPlain_of_mem_classPath (hplain content rfl) hp hq

/-- Plain manifests lead from plain paths to plain paths. -/
theorem Mentioned.isPlain (hreferences : PlainReferences fs rooted)
    (hentries : ∀ p ∈ entries, p.IsPlain rooted) (h : Mentioned fs entries p) :
    p.IsPlain rooted := by
  obtain ⟨n, h⟩ := h
  induction h with
  | given hp => exact hentries _ hp
  | reference _ _ hfound hq ih =>
      exact isPlain_of_mem_manifestClassPath hreferences ih hfound hq

theorem oneSpelling_of_isPlain {IsAmong : Path → Prop} (h : ∀ p, IsAmong p → p.IsPlain rooted) :
    OneSpelling fs IsAmong :=
  fun p q _ hp hq hresolve hresolve' =>
    FileSystem.eq_of_resolve (h p hp) (h q hq) hresolve hresolve'

theorem isPlain_of_mem_givenClassPath (hreferences : PlainReferences fs rooted)
    (htarget : target.IsPlain rooted) (hclassPath : ∀ p ∈ classPath, p.IsPlain rooted)
    (hgiven : givenClassPath fs target classPath = .ok given) : ∀ p ∈ given, p.IsPlain rooted := by
  rw [givenClassPath_eq_ite] at hgiven
  have hsorted : ∀ p ∈ sortPaths classPath, p.IsPlain rooted :=
    fun p hp => hclassPath p ((perm_sortPaths classPath).mem_iff.1 hp)
  split at hgiven
  · obtain ⟨found, hfound, rfl⟩ := map_eq_ok_iff.1 hgiven
    intro p hp
    rcases List.mem_append.1 hp with hp | hp
    · exact hsorted p hp
    · exact isPlain_of_mem_manifestClassPath hreferences htarget hfound hp
  · cases hgiven
    exact hsorted

end Plain

section Artifacts

/-- What is loaded from a file comes from that file alone. -/
theorem artifacts_of_loadInput (hfile : fs.isDirectory p = false)
    (h : loadInput fs isTarget p = .ok loaded) : loaded.artifacts = [p] := by
  rw [loadInput_eq_load] at h
  cases hkind : inputKind fs p with
  | directory =>
      cases hfile.symm.trans (inputKind_eq_directory_iff.1 hkind)
  | classFile | model =>
      rw [hkind] at h
      obtain ⟨content, -, h⟩ := bind_eq_ok_iff.1 h
      obtain ⟨classes, -, h⟩ := bind_eq_ok_iff.1 h
      cases h
      rfl
  | archive =>
      rw [hkind] at h
      obtain ⟨entries, files, classes, -, -, -, -, rfl⟩ := exists_of_loadArchive h
      rfl
  | unsupported =>
      rw [hkind] at h
      cases h

theorem artifacts_of_collect (hfiles : ∀ p ∈ paths, fs.isDirectory p = false)
    (h : Loaded.collect (loadInput fs isTarget) paths = .ok loaded) : loaded.artifacts = paths := by
  induction paths generalizing loaded with
  | nil =>
      cases h
      rfl
  | cons p rest ih =>
      obtain ⟨hp, hrest⟩ := List.forall_mem_cons.1 hfiles
      obtain ⟨first, hfirst, h⟩ := bind_eq_ok_iff.1 h
      obtain ⟨others, hothers, h⟩ := bind_eq_ok_iff.1 h
      cases h
      exact congrArg₂ (· ++ ·) (artifacts_of_loadInput hp hfirst) (ih hrest hothers)

end Artifacts

/-- How the inputs are loaded one after the other: from each path once, and from each place once
if no place has two of the paths. -/
structure LoadedInTurn (fs : FileSystem) (target : Path) (given entries : List Path)
    (loaded : Loaded) : Prop where
  eq_append : ∃ own libraries, loadInput fs true target = .ok own ∧
    Loaded.collect (loadInput fs false) (loadedPaths target entries).tail = .ok libraries ∧
    loaded = own ++ libraries
  nodup : (loadedPaths target entries).Nodup
  nodup_places : OneSpelling fs (fun p => p = target ∨ Mentioned fs given p) →
    ((loadedPaths target entries).map fs.resolve).Nodup
  artifacts_eq : (∀ p ∈ loadedPaths target entries, fs.isDirectory p = false) →
    loaded.artifacts = loadedPaths target entries

theorem loadedInTurn {own libraries : Loaded} (hown : loadInput fs true target = .ok own)
    (hentries : expand fs given = .ok entries)
    (hlibraries : Loaded.collect (loadInput fs false) (entries.filter (!·.isSame target)) =
      .ok libraries) : LoadedInTurn fs target given entries (own ++ libraries) := by
  have hfirst := breadthFirst_of_expand hentries
  have hcan := (expands_iff.2 hentries.symm).mentioned rfl
  have hnodup : (loadedPaths target entries).Nodup := by
    -- A path is the same as itself, so the target is not among the other paths.
    refine List.nodup_cons.2 ⟨fun hmem => ?_, hfirst.nodup.filter _⟩
    simpa [Path.isSame_refl] using (List.mem_filter.1 hmem).2
  have hamong : ∀ p ∈ loadedPaths target entries, p = target ∨ Mentioned fs given p := by
    intro p hp
    rcases List.mem_cons.1 hp with rfl | hp
    · exact .inl rfl
    · exact .inr ((hfirst.mem_iff p).1 (List.mem_filter.1 hp).1)
  have hcontains : ∀ p ∈ loadedPaths target entries, fs.contains p = true := by
    intro p hp
    rcases List.mem_cons.1 hp with rfl | hp
    · exact contains_of_loadInput hown
    · exact (hcan p (List.mem_filter.1 hp).1).2.contains
  exact {
    eq_append := ⟨own, libraries, hown, hlibraries, rfl⟩
    nodup := hnodup
    nodup_places := by
      intro hone
      refine (nodup_map_resolve_iff hnodup (fun _ => Iff.rfl) hcontains).2 ?_
      exact fun p q location hp hq => hone p q location (hamong p hp) (hamong q hq)
    artifacts_eq := by
      intro hfiles
      obtain ⟨htarget, hrest⟩ := List.forall_mem_cons.1 hfiles
      exact congrArg₂ (· ++ ·) (artifacts_of_loadInput htarget hown)
        (artifacts_of_collect hrest hlibraries) }

/-- An expansion ends. It meets each place once just if no place is mentioned under two paths, and
plain paths do not; then what is there is loaded once. -/
theorem expand_once (fs : FileSystem) :
    (∀ entries outcome, Expands fs [] entries outcome ↔ outcome = expand fs entries) ∧
    (∀ entries paths, expand fs entries = .ok paths →
      (∀ p ∈ paths, ∃ location, fs.resolve p = .ok location) ∧
      ((paths.map fs.resolve).Nodup ↔ OneSpelling fs (Mentioned fs entries))) ∧
    (∀ target classPath loaded, loadInputs fs target classPath = .ok loaded →
      ∃ given entries, givenClassPath fs target classPath = .ok given ∧
        expand fs given = .ok entries ∧ LoadedInTurn fs target given entries loaded) ∧
    ∀ rooted, PlainReferences fs rooted →
      (∀ entries, (∀ p ∈ entries, p.IsPlain rooted) → OneSpelling fs (Mentioned fs entries)) ∧
      ∀ target classPath given, givenClassPath fs target classPath = .ok given →
        target.IsPlain rooted → (∀ p ∈ classPath, p.IsPlain rooted) →
        OneSpelling fs (fun p => p = target ∨ Mentioned fs given p) := by
  refine ⟨fun entries outcome => expands_iff, ?_, ?_, ?_⟩
  · intro entries paths hpaths
    have hfirst := breadthFirst_of_expand hpaths
    have hcontains : ∀ p ∈ paths, fs.contains p = true :=
      fun p hp => ((expands_iff.2 hpaths.symm).mentioned rfl p hp).2.contains
    exact ⟨fun p hp => exists_resolve_of_contains (hcontains p hp),
      nodup_map_resolve_iff hfirst.nodup hfirst.mem_iff hcontains⟩
  · intro target classPath loaded hloaded
    obtain ⟨own, libraries, hparts⟩ := exists_loadedInParts hloaded
    obtain ⟨given, entries, hgiven, hentries, hlibraries⟩ := hparts.ofClassPath
    rw [hparts.eq_append]
    exact ⟨given, entries, hgiven, hentries,
      loadedInTurn hparts.ofTarget hentries hlibraries⟩
  · intro rooted hreferences
    refine ⟨fun entries hentries =>
      oneSpelling_of_isPlain fun p => Mentioned.isPlain hreferences hentries, ?_⟩
    intro target classPath given hgiven htarget hclassPath
    have hplain := isPlain_of_mem_givenClassPath hreferences htarget hclassPath hgiven
    apply oneSpelling_of_isPlain
    rintro p (rfl | hp)
    · exact htarget
    · exact hp.isPlain hreferences hplain

theorem expand_once_circular :
    (∃ paths, expand circularFiles [⟨"b.jar"⟩, ⟨"a.jar"⟩] = .ok paths ∧ paths.length = 3 ∧
      (paths.map circularFiles.resolve).Nodup) ∧
    ∃ loaded given entries, loadInputs circularFiles ⟨"a.jar"⟩ [] = .ok loaded ∧
      expand circularFiles given = .ok entries ∧
      ((loadedPaths ⟨"a.jar"⟩ entries).map circularFiles.resolve).Nodup := by
  have hreferences : PlainReferences circularFiles false := by decide +kernel
  have hentries : expand circularFiles [⟨"b.jar"⟩, ⟨"a.jar"⟩] =
      .ok [⟨"b.jar"⟩, ⟨"a.jar"⟩, ⟨"c.jar"⟩] := by
    rw [← toOption_eq_some_iff]
    decide +kernel
  obtain ⟨loaded, hloaded, -⟩ := eq_ok_of_toOption_map artifacts_circularFiles
  obtain ⟨-, hplaces, hturns, hplain⟩ := expand_once circularFiles
  obtain ⟨hplain, hplainTarget⟩ := hplain false hreferences
  obtain ⟨given, entries, hgiven, hexpand, hturn⟩ := hturns ⟨"a.jar"⟩ [] loaded hloaded
  refine ⟨⟨_, hentries, rfl, ?_⟩, loaded, given, entries, hloaded, hexpand, ?_⟩
  · exact (hplaces _ _ hentries).2.2 (hplain _ (by decide))
  · exact hturn.nodup_places
      (hplainTarget ⟨"a.jar"⟩ [] given hgiven (by decide) fun _ hp => absurd hp List.not_mem_nil)

/-- A class file that holds nothing but a name of one letter. -/
def bareClass (letter : UInt8) : Array UInt8 :=
  #[0xca, 0xfe, 0xba, 0xbe, 0, 0, 0, 0x34, 0, 3, 1, 0, 1, letter, 7, 0, 1, 0, 0x21, 0, 2, 0, 0,
    0, 0, 0, 0, 0, 0, 0, 0]

/-- An archive that refers to a neighbour and to another directory, which refers back to the
neighbour. -/
def diamondFiles : FileSystem :=
  (((FileSystem.empty ["work"]).add ["work", "lib", "a.jar"] (referring "b.jar ../ext/c.jar")).add
    ["work", "lib", "b.jar"] (.archive (.ofRecords [⟨"B.class", .bytes (bareClass 0x42)⟩]))).add
    ["work", "ext", "c.jar"] (referring "../lib/b.jar")

/-- The neighbour is met under two paths, and its class is loaded twice. -/
theorem place_twice_diamond :
    ∃ paths, expand diamondFiles [⟨"lib/b.jar"⟩, ⟨"lib/../ext/c.jar"⟩] = .ok paths ∧
      ¬ (paths.map diamondFiles.resolve).Nodup ∧
      ∃ loaded, loadInputs diamondFiles ⟨"lib/a.jar"⟩ [] = .ok loaded ∧
        loaded.artifacts = ⟨"lib/a.jar"⟩ :: paths ∧
        loaded.classes.map ClassDef.name = ["B", "B"] := by
  have hpaths : expand diamondFiles [⟨"lib/b.jar"⟩, ⟨"lib/../ext/c.jar"⟩] =
      .ok [⟨"lib/b.jar"⟩, ⟨"lib/../ext/c.jar"⟩, ⟨"lib/../ext/../lib/b.jar"⟩] := by
    rw [← toOption_eq_some_iff]
    decide +kernel
  have hloaded : (loadInputs diamondFiles ⟨"lib/a.jar"⟩ []).toOption.map
      (fun loaded => (loaded.artifacts, loaded.classes.map ClassDef.name)) =
      some ([⟨"lib/a.jar"⟩, ⟨"lib/b.jar"⟩, ⟨"lib/../ext/c.jar"⟩, ⟨"lib/../ext/../lib/b.jar"⟩],
        ["B", "B"]) := by
    decide +kernel
  have hsame : diamondFiles.resolve ⟨"lib/b.jar"⟩ = .ok ["work", "lib", "b.jar"] ∧
      diamondFiles.resolve ⟨"lib/../ext/../lib/b.jar"⟩ = .ok ["work", "lib", "b.jar"] := by
    rw [← toOption_eq_some_iff, ← toOption_eq_some_iff]
    decide +kernel
  obtain ⟨loaded, hloaded, hparts⟩ := eq_ok_of_toOption_map hloaded
  obtain ⟨hartifacts, hclasses⟩ := Prod.mk.inj hparts
  refine ⟨_, hpaths, fun hnodup => ?_, loaded, hloaded, hartifacts, hclasses⟩
  apply (List.nodup_cons.1 hnodup).1
  simp [hsame.1, hsame.2]

end JvmReach.Load
