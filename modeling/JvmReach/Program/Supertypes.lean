import JvmReach.Closure
import JvmReach.Program.Index

/-!
# Supertypes and subtypes

The direct supertypes of a type are its superclass and its interfaces; a type
that is not in the program has none. `ancestors` closes a type upwards and
`descendants` closes it downwards, each by its own walk; both contain the type
itself. `isSubtypeOf` asks whether a type is among the ancestors of another.
-/

namespace JvmReach.Program

def directSupertypes (p : Program) (name : TypeName) : List TypeName :=
  ((p.class? name).map ClassDef.supertypes).getD []

/-- The classes that list `name` among their supertypes, by increasing name. -/
def directSubtypes (p : Program) (name : TypeName) : List TypeName :=
  (p.classes.filter fun c => c.supertypes.contains name).map ClassDef.name

def directInterfaces (p : Program) (name : TypeName) : List TypeName :=
  ((p.class? name).map ClassDef.interfaces).getD []

/-- More than the number of supertypes that can be met on the way up. -/
def supertypeBound (p : Program) : Nat :=
  (p.classes.flatMap ClassDef.supertypes).length + 1

def ancestors (p : Program) (name : TypeName) : Std.ExtTreeSet TypeName :=
  Closure.close p.directSupertypes p.supertypeBound {name}

def descendants (p : Program) (name : TypeName) : Std.ExtTreeSet TypeName :=
  Closure.close p.directSubtypes (p.classCount + 1) {name}

/-- The given interfaces and all their superinterfaces, missing ones included. -/
def interfaceClosure (p : Program) (interfaces : List TypeName) : Std.ExtTreeSet TypeName :=
  Closure.close p.directInterfaces p.supertypeBound (Std.ExtTreeSet.ofList interfaces)

def isSubtypeOf (p : Program) (sub sup : TypeName) : Bool :=
  (p.ancestors sub).contains sup

/-- Subtypes are the supertypes read backwards. -/
theorem mem_directSubtypes_iff (p : Program) (name child : TypeName) :
    child ∈ p.directSubtypes name ↔ name ∈ p.directSupertypes child := by
  simp only [directSubtypes, directSupertypes, List.mem_map, List.mem_filter, mem_classes_iff,
    List.contains_iff_mem]
  constructor
  · rintro ⟨c, ⟨hc, hname⟩, rfl⟩
    simpa only [hc, Option.map_some, Option.getD_some]
  · intro hname
    cases hc : p.class? child with
    | none => simp [hc] at hname
    | some c =>
        have hchild := p.name_eq_of_class? hc
        subst hchild
        exact ⟨c, ⟨hc, by simpa [hc] using hname⟩, rfl⟩

end JvmReach.Program
