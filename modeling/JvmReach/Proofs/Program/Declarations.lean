import JvmReach.Proofs.Construction.Rules
import JvmReach.Proofs.Hierarchy.Declared
import Mathlib.Data.List.Flatten
import Mathlib.Data.List.Perm.Subperm

/-!
# Counting declared methods

A list of different methods is no longer than the program has methods, and all
their observations together are no more than the program has instructions. A class
may repeat a method; only the first of its declarations is ever found.
-/

namespace JvmReach.Program

/-- The declared methods, each with the reference it is found by. -/
def declarations (p : Program) : List (MethodRef × Method) :=
  p.classes.flatMap fun c => c.methods.map fun method => (method.refIn c.name, method)

theorem map_snd_declarations (p : Program) : p.declarations.map Prod.snd = p.methods := by
  rw [declarations, methods, List.map_flatMap]
  simp [Function.comp_def]

theorem mem_declarations_of_method? (p : Program) {m : MethodRef} {method : Method}
    (hmethod : p.method? m = some method) : (m, method) ∈ p.declarations := by
  obtain ⟨c, hc, hmethod⟩ := Option.bind_eq_some_iff.1 hmethod
  have hname := p.name_eq_of_class? hc
  have hfound := List.find?_some hmethod
  simp only [Bool.and_eq_true, beq_iff_eq] at hfound
  have href : method.refIn c.name = m := by
    rw [Method.refIn, hname, hfound.1, hfound.2]
  refine List.mem_flatMap.2 ⟨c, ?_, List.mem_map.2 ⟨method, List.mem_of_find?_eq_some hmethod, ?_⟩⟩
  · rw [mem_classes_iff, hname]
    exact hc
  · rw [href]

/-- Different methods that are entries or declared are no more than there are. -/
theorem length_le_of_declares (p : Program) (entries : List MethodRef) {l : List MethodRef}
    (hnodup : l.Nodup) (hl : ∀ m ∈ l, m ∈ entries ∨ p.Declares m) :
    l.length ≤ entries.length + p.methodCount := by
  have hsubset : l ⊆ entries ++ p.declarations.map Prod.fst := by
    intro m hm
    rcases hl m hm with hentry | ⟨method, hmethod⟩
    · exact List.mem_append_left _ hentry
    · exact List.mem_append_right _
        (List.mem_map.2 ⟨(m, method), p.mem_declarations_of_method? hmethod, rfl⟩)
  have hlength := (hnodup.subperm hsubset).length_le
  have hcount : p.declarations.length = p.methodCount := by
    rw [methodCount, ← p.map_snd_declarations, List.length_map]
  rwa [List.length_append, List.length_map, hcount] at hlength

/-- The number of observations that a list of methods has. -/
def observationCount (p : Program) (l : List MethodRef) : Nat := (l.flatMap p.observed).length

def code (method : Method) : List Instruction := (method.body?.map Body.instructions).getD []

theorem length_observed_of_method? (p : Program) {m : MethodRef} {method : Method}
    (hmethod : p.method? m = some method) : (p.observed m).length = (code method).length := by
  cases hbody : method.body? with
  | none => simp [observed, body?, hmethod, hbody, code]
  | some body => simp [observed, body?, hmethod, hbody, code, body.length_observed]

theorem length_code_declarations (p : Program) :
    (p.declarations.flatMap fun d => code d.2).length = p.instructionCount := by
  rw [instructionCount, ← p.map_snd_declarations, List.flatMap_map]
  rfl

/-- The declarations that the methods of a list are found at. -/
def found (p : Program) (l : List MethodRef) : List (MethodRef × Method) :=
  l.filterMap fun m => (p.method? m).map fun method => (m, method)

theorem length_code_found (p : Program) (l : List MethodRef) :
    ((p.found l).flatMap fun d => code d.2).length = p.observationCount l := by
  induction l with
  | nil => rfl
  | cons m rest ih =>
      rw [found, observationCount] at ih ⊢
      cases hmethod : p.method? m with
      | none =>
          have hempty : p.observed m = [] := by simp [observed, body?, hmethod]
          simpa [hmethod, hempty] using ih
      | some method =>
          have hlength := p.length_observed_of_method? hmethod
          rw [List.filterMap_cons_some (by rw [hmethod]; rfl), List.flatMap_cons,
            List.flatMap_cons, List.length_append, List.length_append, ih, hlength]

theorem nodup_found (p : Program) {l : List MethodRef} (hnodup : l.Nodup) :
    (p.found l).Nodup := by
  refine List.Nodup.filterMap ?_ hnodup
  intro m m' d hd hd'
  obtain ⟨_, -, rfl⟩ := Option.map_eq_some_iff.1 hd
  obtain ⟨_, -, heq⟩ := Option.map_eq_some_iff.1 hd'
  exact (congrArg Prod.fst heq).symm

theorem found_subset (p : Program) (l : List MethodRef) : p.found l ⊆ p.declarations := by
  intro d hd
  obtain ⟨m, -, hd⟩ := List.mem_filterMap.1 hd
  obtain ⟨method, hmethod, rfl⟩ := Option.map_eq_some_iff.1 hd
  exact p.mem_declarations_of_method? hmethod

/-- Different methods have no more observations than the program has instructions. -/
theorem observationCount_le (p : Program) {l : List MethodRef} (hnodup : l.Nodup) :
    p.observationCount l ≤ p.instructionCount := by
  obtain ⟨l', hperm, hsublist⟩ := (p.nodup_found hnodup).subperm (p.found_subset l)
  have hlength := (hsublist.flatMap fun d => code d.2).length_le
  rwa [(hperm.flatMap_right fun d => code d.2).length_eq, p.length_code_found,
    p.length_code_declarations] at hlength

theorem observationCount_append_singleton (p : Program) (l : List MethodRef) (m : MethodRef) :
    p.observationCount (l ++ [m]) = p.observationCount l + (p.observed m).length := by
  simp [observationCount]

end JvmReach.Program
