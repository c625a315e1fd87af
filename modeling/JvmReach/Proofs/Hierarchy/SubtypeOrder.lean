import JvmReach.Hierarchy.Basic
import JvmReach.Proofs.Program.Index
import JvmReach.Proofs.Program.Subtypes
import Mathlib.Order.Defs.Unbundled

/-!
# The order of types in a hierarchy

Subtypes are asked for in two ways: downwards, by closing a type under the classes that list
it, and upwards, by looking for it among what a class lists. Both give the same relation,
which is to lead from one type to the other along superclasses and interfaces of the classes
in the program. It goes through types that the program lacks on neither way, but it may end
at one. In a hierarchy it is a partial order.
-/

namespace JvmReach

namespace Program

/-- A class of the program has `parent` as its superclass or as one of its interfaces. -/
def Extends (p : Program) (name parent : TypeName) : Prop :=
  ∃ c, p.class? name = some c ∧ (c.superclass? = some parent ∨ parent ∈ c.interfaces)

theorem mem_directSupertypes_iff (p : Program) (name parent : TypeName) :
    parent ∈ p.directSupertypes name ↔ p.Extends name parent := by
  rw [directSupertypes, Extends]
  cases p.class? name with
  | none => simp
  | some c => simp [ClassDef.supertypes]

theorem descends_iff (p : Program) (sub sup : TypeName) :
    p.Descends sub sup ↔ Relation.ReflTransGen p.Extends sub sup := by
  simp only [Descends, mem_directSupertypes_iff]

theorem pairwise_directSubtypes (p : Program) (name : TypeName) :
    (p.directSubtypes name).Pairwise (· < ·) := by
  rw [directSubtypes, List.pairwise_map]
  refine (p.pairwise_classes.filter _).imp ?_
  intro c d hlt
  exact compareOfLessAndEq_eq_lt.1 hlt

end Program

namespace Hierarchy

theorem isPartialOrder_isSubtypeOf (h : Hierarchy) :
    IsPartialOrder TypeName fun sub sup => h.program.isSubtypeOf sub sup = true where
  refl type := (h.program.isSubtypeOf_iff type type).2 (.refl _ type)
  trans a b c hab hbc := by
    rw [Program.isSubtypeOf_iff] at hab hbc ⊢
    exact hab.trans hbc
  antisymm a b hab hba := by
    rw [Program.isSubtypeOf_iff] at hab hba
    exact hab.antisymm h.acyclic hba

/-- The two questions for subtypes have the same answer, which is given by the supertypes that
the classes list, and they order the types. -/
theorem subtypes_exact (h : Hierarchy) :
    (∀ a b, (b ∈ h.program.descendants a ↔ h.program.isSubtypeOf b a = true) ∧
      (h.program.isSubtypeOf b a = true ↔ Relation.ReflTransGen h.program.Extends b a) ∧
      (b ∈ h.program.directSubtypes a ↔ a ∈ h.program.directSupertypes b) ∧
      (a ∈ h.program.directSupertypes b ↔ h.program.Extends b a)) ∧
    (∀ a, (h.program.directSubtypes a).Pairwise (· < ·)) ∧
    IsPartialOrder TypeName fun sub sup => h.program.isSubtypeOf sub sup = true := by
  refine ⟨fun a b => ⟨?_, ?_, ?_, ?_⟩, h.program.pairwise_directSubtypes,
    h.isPartialOrder_isSubtypeOf⟩
  · rw [h.program.mem_descendants_iff, h.program.isSubtypeOf_iff]
  · rw [h.program.isSubtypeOf_iff, h.program.descends_iff]
  · exact h.program.mem_directSubtypes_iff a b
  · exact h.program.mem_directSupertypes_iff b a

end Hierarchy

end JvmReach
