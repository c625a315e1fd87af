import JvmReach.Load.Scan
import JvmReach.Proofs.Except

/-!
# Entries of the class path

What an entry is loaded as stands in one piece among what is loaded, whatever comes before and
after it. A file that is no archive leads to no further entries.
-/

namespace JvmReach.Load

open Files

namespace Loaded

theorem append_assoc (a b c : Loaded) : a ++ b ++ c = a ++ (b ++ c) :=
  congrArg₂ mk (List.append_assoc ..) (List.append_assoc ..)

variable {α : Type} {load : α → Except LoadError Loaded} {l : List α} {a : α} {rest : List α}
  {first others block : Loaded}

theorem exists_of_collect {loaded : Loaded} (h : collect load l = .ok loaded) :
    ∀ a ∈ l, ∃ part, load a = .ok part := by
  induction l generalizing loaded with
  | nil => exact fun a ha => absurd ha List.not_mem_nil
  | cons a rest ih =>
      obtain ⟨first, hfirst, h⟩ := bind_eq_ok_iff.1 h
      obtain ⟨others, hothers, h⟩ := bind_eq_ok_iff.1 h
      exact List.forall_mem_cons.2 ⟨⟨first, hfirst⟩, ih hothers⟩

end Loaded

variable {fs : FileSystem} {p target : Path} {content : Array UInt8} {own block : Loaded}
  {classPath entries : List Path}

theorem exists_lookup_of_read (h : fs.read p = .ok content) :
    ∃ node, fs.lookup p = .ok node ∧ node ≠ .directory := by
  obtain ⟨node, hnode, h⟩ := bind_eq_ok_iff.1 h
  refine ⟨node, hnode, ?_⟩
  rintro rfl
  cases h

theorem contains_of_lookup {node : Node} (h : fs.lookup p = .ok node) : fs.contains p = true := by
  rw [FileSystem.contains, h]
  rfl

theorem contains_of_read (h : fs.read p = .ok content) : fs.contains p = true := by
  obtain ⟨node, hnode, -⟩ := exists_lookup_of_read h
  exact contains_of_lookup hnode

theorem pathCount_pos : 0 < pathCount := by
  unfold pathCount
  generalize FileSystem.maxPathSize = size
  exact Nat.pow_pos (by decide)

end JvmReach.Load
