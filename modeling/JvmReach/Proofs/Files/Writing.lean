import JvmReach.Files.FileSystem
import JvmReach.Proofs.Except
import Mathlib.Data.List.Basic

/-!
# What writing a file changes

A file is written at one location, which is not that of a directory. Every way along
directories that there was before is still there, so the path that was written to leads to
the new content. No other location changes.
-/

namespace JvmReach.Files.FileSystem

/-- A step that succeeds starts from a directory. It stays, goes up, or goes down to a node. -/
theorem step_eq_ok_iff {fs : FileSystem} {location next : Location} {piece : String} :
    fs.step location piece = .ok next ↔ fs.node? location = some .directory ∧
      if Path.isFiller piece then location = next
      else if piece = ".." then location.dropLast = next
      else ¬ maxPieceSize < piece.utf8ByteSize ∧ (fs.node? (location ++ [piece])).isSome ∧
        location ++ [piece] = next := by
  rw [step]
  cases fs.node? location with
  | none => simp
  | some node =>
      cases node with
      | file content => simp
      | archive entries => simp
      | directory =>
          by_cases hsize : maxPieceSize < piece.utf8ByteSize
          · simp only [hsize, if_true, not_true_eq_false, false_and]
            split_ifs <;> simp
          · simp only [hsize, if_false, not_false_eq_true, true_and]
            cases fs.node? (location ++ [piece]) <;> split_ifs <;> simp

/-- Nodes have not gone and directories are still directories. -/
structure Keeps (fs fs' : FileSystem) : Prop where
  workingDirectory : fs'.workingDirectory = fs.workingDirectory
  directory : ∀ location, fs.node? location = some .directory →
    fs'.node? location = some .directory
  node : ∀ location, (fs.node? location).isSome → (fs'.node? location).isSome

namespace Keeps

variable {fs fs' : FileSystem}

theorem step (h : fs.Keeps fs') {location next : Location} {piece : String}
    (hstep : fs.step location piece = .ok next) : fs'.step location piece = .ok next := by
  rw [step_eq_ok_iff] at hstep ⊢
  obtain ⟨hdirectory, hnext⟩ := hstep
  refine ⟨h.directory location hdirectory, ?_⟩
  split_ifs at hnext ⊢
  · exact hnext
  · exact hnext
  · obtain ⟨hsize, hnode, hnext⟩ := hnext
    exact ⟨hsize, h.node _ hnode, hnext⟩

theorem foldlM (h : fs.Keeps fs') {pieces : List String} {location next : Location}
    (hpath : pieces.foldlM fs.step location = .ok next) :
    pieces.foldlM fs'.step location = .ok next := by
  induction pieces generalizing location with
  | nil => exact hpath
  | cons piece rest ih =>
      rw [List.foldlM_cons] at hpath ⊢
      obtain ⟨middle, hmiddle, hrest⟩ := bind_eq_ok_iff.1 hpath
      exact bind_eq_ok_iff.2 ⟨middle, h.step hmiddle, ih hrest⟩

end Keeps

/-- The path ends with a name in a directory that its other pieces lead to. -/
structure LeadsToNew (fs : FileSystem) (p : Path) (before : List String) (last : String)
    (start directory : Location) : Prop where
  start_eq : fs.start p = .ok start
  pieces_eq : p.pieces = before ++ [last]
  leads : before.foldlM fs.step start = .ok directory
  isDirectory : fs.node? directory = some .directory
  notFiller : Path.isFiller last = false
  notUp : last ≠ ".."
  size : ¬ maxPieceSize < last.utf8ByteSize

theorem exists_append_of_getLast? {pieces : List String} {last : String}
    (hlast : (pieces.filter (· ≠ "")).getLast? = some last) (hend : pieces.getLast? ≠ some "") :
    pieces = ((pieces.reverse.dropWhile (· = "")).drop 1).reverse ++ [last] := by
  rcases List.eq_nil_or_concat pieces with rfl | ⟨before, piece, rfl⟩
  · cases hlast
  · rw [List.concat_eq_append] at hlast hend ⊢
    have hpiece : piece ≠ "" := by simpa using hend
    have heq : piece = last := by simpa [hpiece] using hlast
    subst heq
    simp [hpiece]

theorem exists_leadsToNew {fs : FileSystem} {p : Path} {location : Location}
    (h : fs.resolveNew p = .ok location) :
    ∃ before last start directory, fs.LeadsToNew p before last start directory ∧
      location = directory ++ [last] := by
  obtain ⟨start, hstart, h⟩ := bind_eq_ok_iff.1 h
  split at h
  · cases h
  · next last hlast =>
      obtain ⟨directory, hbefore, h⟩ := bind_eq_ok_iff.1 h
      split at h
      · obtain ⟨_, -, h⟩ := bind_eq_ok_iff.1 h
        cases h
      · next hnamed =>
          split at h
          · cases h
          · next hdirectory =>
              split at h
              · cases h
              · next hend =>
                  split at h
                  · cases h
                  · next hsize =>
                      cases h
                      have hpieces := exists_append_of_getLast? hlast hend
                      have hne : last ≠ "" := by
                        have hmem := List.mem_of_mem_getLast? hlast
                        simpa using (List.mem_filter.1 hmem).2
                      rw [not_or] at hnamed
                      refine ⟨_, last, start, directory, ⟨hstart, hpieces, hbefore, hdirectory,
                        ?_, hnamed.2, hsize⟩, rfl⟩
                      simp [Path.isFiller, hne, hnamed.1]
          · cases h

/-- The file system with another node at one location. -/
def replace (fs : FileSystem) (location : Location) (node : Node) : FileSystem :=
  { fs with nodes := fs.nodes.insert location node }

theorem node?_replace (fs : FileSystem) {location : Location} (hne : location ≠ [])
    (node : Node) (other : Location) :
    (fs.replace location node).node? other =
      if other = location then some node else fs.node? other := by
  cases other with
  | nil => rw [if_neg hne.symm, node?, node?]
  | cons name rest =>
      have hlocation : compare location (name :: rest) = .eq ↔ name :: rest = location := by
        rw [Std.LawfulEqCmp.compare_eq_iff_eq, eq_comm]
      simp only [node?, replace, Std.ExtTreeMap.getElem?_insert, hlocation]

theorem keeps_replace (fs : FileSystem) {location : Location} (hne : location ≠ [])
    (hfree : fs.node? location ≠ some .directory) (node : Node) :
    fs.Keeps (fs.replace location node) where
  workingDirectory := rfl
  directory other hother := by
    rw [fs.node?_replace hne, if_neg]
    · exact hother
    · rintro rfl
      exact hfree hother
  node other hother := by
    rw [fs.node?_replace hne]
    split
    · rfl
    · exact hother

theorem LeadsToNew.lookup {fs fs' : FileSystem} {p : Path} {before : List String} {last : String}
    {start directory : Location} {node : Node} (h : fs.LeadsToNew p before last start directory)
    (hkeeps : fs.Keeps fs') (hnode : fs'.node? (directory ++ [last]) = some node) :
    fs'.resolve p = .ok (directory ++ [last]) ∧ fs'.lookup p = .ok node := by
  have hstart : fs'.start p = .ok start := by
    rw [← h.start_eq, FileSystem.start, FileSystem.start, hkeeps.workingDirectory]
  have hlast : fs'.step directory last = .ok (directory ++ [last]) := by
    rw [step_eq_ok_iff, h.notFiller, if_neg Bool.false_ne_true, if_neg h.notUp]
    exact ⟨hkeeps.directory _ h.isDirectory, h.size, by simp [hnode], rfl⟩
  have hresolve : fs'.resolve p = .ok (directory ++ [last]) := by
    rw [resolve, hstart, h.pieces_eq]
    refine bind_eq_ok_iff.2 ⟨start, rfl, ?_⟩
    rw [List.foldlM_append]
    refine bind_eq_ok_iff.2 ⟨directory, hkeeps.foldlM h.leads, ?_⟩
    rw [List.foldlM_cons, hlast]
    rfl
  refine ⟨hresolve, ?_⟩
  rw [FileSystem.lookup, hresolve]
  refine bind_eq_ok_iff.2 ⟨_, rfl, ?_⟩
  rw [hnode]
  rfl

/-- Apart from one location, the two file systems are the same. -/
structure DiffersOnlyAt (fs fs' : FileSystem) (location : Location) : Prop where
  workingDirectory : fs'.workingDirectory = fs.workingDirectory
  node? : ∀ other, other ≠ location → fs'.node? other = fs.node? other

/-- After a file was written, its path leads to the new content. Nothing else has changed. -/
theorem lookup_of_write {fs fs' : FileSystem} {p : Path} {content : Array UInt8}
    (h : fs.write p content = .ok fs') :
    ∃ location, fs'.resolve p = .ok location ∧ fs'.lookup p = .ok (.file content) ∧
      fs.DiffersOnlyAt fs' location := by
  obtain ⟨location, hlocation, h⟩ := bind_eq_ok_iff.1 h
  obtain ⟨before, last, start, directory, hleads, rfl⟩ := exists_leadsToNew hlocation
  have hne : directory ++ [last] ≠ [] := by simp
  split at h
  · cases h
  · next hfree =>
      have hfs' : fs.replace (directory ++ [last]) (.file content) = fs' := Except.ok.inj h
      subst hfs'
      have hnode := fs.node?_replace hne (.file content) (directory ++ [last])
      rw [if_pos rfl] at hnode
      obtain ⟨hresolve, hlookup⟩ :=
        hleads.lookup (fs.keeps_replace hne hfree (.file content)) hnode
      refine ⟨_, hresolve, hlookup, rfl, ?_⟩
      intro other hother
      rw [fs.node?_replace hne, if_neg hother]

end JvmReach.Files.FileSystem
