import JvmReach.Program.Acyclic

/-!
# Type hierarchies

A hierarchy is a program in which no type is its own proper supertype. Walks
along superclasses need no record of what they have seen: they end at a class
without superclass or at a type the program lacks.
-/

namespace JvmReach

structure Hierarchy where
  program : Program
  acyclic : program.cycle? = none

/-- A type that is its own proper supertype. -/
structure CyclicHierarchy where
  name : TypeName
deriving DecidableEq

def CyclicHierarchy.message (e : CyclicHierarchy) : String :=
  s!"cyclic type hierarchy involving {e.name}"

namespace Hierarchy

def ofProgram (p : Program) : Except CyclicHierarchy Hierarchy :=
  match h : p.cycle? with
  | none => .ok ⟨p, h⟩
  | some name => .error ⟨name⟩

theorem ofProgram_eq_ok {p : Program} (hacyclic : p.cycle? = none) :
    ofProgram p = .ok ⟨p, hacyclic⟩ := by
  unfold ofProgram
  split
  · rfl
  · next name hcycle =>
      rw [hacyclic] at hcycle
      cases hcycle

theorem ofProgram_eq_error {p : Program} {name : TypeName} (hcycle : p.cycle? = some name) :
    ofProgram p = .error ⟨name⟩ := by
  unfold ofProgram
  split
  · next hacyclic =>
      rw [hcycle] at hacyclic
      cases hacyclic
  · next other hother =>
      rw [hcycle] at hother
      cases hother
      rfl

/-- A superclass chain: the classes met, from the start upwards, and the type
at which it leaves the program, if it does. -/
structure Chain where
  classes : List ClassDef
  missing? : Option TypeName

end Hierarchy

/-- At most `depth` classes of the chain that starts at `start?`. -/
def Program.chainFrom (p : Program) : Nat → Option TypeName → Hierarchy.Chain
  | _, none => ⟨[], none⟩
  | 0, some name => ⟨[], some name⟩
  | depth + 1, some name =>
      match p.class? name with
      | none => ⟨[], some name⟩
      | some c =>
          let above := p.chainFrom depth c.superclass?
          ⟨c :: above.classes, above.missing?⟩

/-- The classes on a chain are distinct, so their number bounds its length. -/
def Hierarchy.superclassChain (h : Hierarchy) (name : TypeName) : Hierarchy.Chain :=
  h.program.chainFrom (h.program.classCount + 1) (some name)

end JvmReach
