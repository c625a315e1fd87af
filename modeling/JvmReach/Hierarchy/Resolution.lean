import JvmReach.Hierarchy.Basic

/-!
# Method resolution

Resolution looks for the method a call names. A declaration on the superclass
chain of the owner comes first, whatever its access. After that come the
superinterfaces of the chain: the ones that declare the method, neither static
nor private, are reduced to the maximally specific ones, those without another
declaring subtype. A maximally specific declaration with a body wins if there is
exactly one such; otherwise the first one by name does. If nothing declares the
method, the search is blamed on a type the program lacks, if it met one: the end
of the superclass chain before a missing interface.
-/

namespace JvmReach

inductive Resolution where
  | resolved (method : MethodRef)
  /-- The search reached a type that is not in the program. -/
  | phantom (missing : TypeName)
  | notFound
deriving DecidableEq

namespace Hierarchy

/-- A type that declares the method in a way that objects inherit. -/
def offers (h : Hierarchy) (name descriptor : String) (type : TypeName) : Bool :=
  match h.program.method? ⟨type, name, descriptor⟩ with
  | some method => !method.access.isStatic && !method.access.isPrivate
  | none => false

def hasBody (h : Hierarchy) (name descriptor : String) (type : TypeName) : Bool :=
  match h.program.method? ⟨type, name, descriptor⟩ with
  | some method => !method.access.isAbstract
  | none => false

/-- The superinterfaces of each class in turn, by increasing name. -/
def superinterfaces (h : Hierarchy) (classes : List ClassDef) : List TypeName :=
  classes.flatMap fun c => (h.program.interfaceClosure c.interfaces).toList

/-- The types above a candidate, all candidates taken together. -/
def covered (h : Hierarchy) (candidates : List TypeName) : Std.ExtTreeSet TypeName :=
  Std.ExtTreeSet.ofList <|
    candidates.flatMap fun c => (h.program.ancestors c).toList.filter (· != c)

/-- The candidates without another candidate below them, by increasing name. -/
def maximallySpecific (h : Hierarchy) (candidates : List TypeName) : List TypeName :=
  let distinct := (Std.ExtTreeSet.ofList candidates).toList
  let covered := h.covered distinct
  distinct.filter (!covered.contains ·)

/-- The maximally specific superinterface declarations of a chain. -/
def inherited (h : Hierarchy) (classes : List ClassDef) (name descriptor : String) :
    List TypeName :=
  h.maximallySpecific ((h.superinterfaces classes).filter (h.offers name descriptor))

/-- The inherited declaration with a body, if there is exactly one. -/
def soleDefault? (h : Hierarchy) (classes : List ClassDef) (name descriptor : String) :
    Option TypeName :=
  match (h.inherited classes name descriptor).filter (h.hasBody name descriptor) with
  | [type] => some type
  | _ => none

def resolve (h : Hierarchy) (m : MethodRef) : Resolution :=
  let chain := h.superclassChain m.owner
  match chain.classes.find? (·.declares m.name m.descriptor) with
  | some c => .resolved ⟨c.name, m.name, m.descriptor⟩
  | none =>
      match h.soleDefault? chain.classes m.name m.descriptor <|>
          (h.inherited chain.classes m.name m.descriptor).head? with
      | some type => .resolved ⟨type, m.name, m.descriptor⟩
      | none =>
          match chain.missing? <|>
              (h.superinterfaces chain.classes).find? (!h.program.contains ·) with
          | some missing => .phantom missing
          | none => .notFound

end Hierarchy

end JvmReach
