import JvmReach.Program.Basic
import Std.Data.ExtTreeMap

/-!
# Programs

A program is a set of classes, no two of one name, looked up by name. A list of
classes forms a program exactly when no name is repeated; the error names every
repeated one with the number of its definitions. Classes are listed by
increasing name, so nothing later depends on the order they were loaded in.

`Program.missing` holds the names that some class mentions and none defines.
-/

namespace JvmReach

structure Program where
  index : Std.ExtTreeMap TypeName ClassDef
  name_eq_of_getElem? : ∀ (n : TypeName) (c : ClassDef), index[n]? = some c → c.name = n

/-- The names that several classes share, each with the number of its definitions. -/
structure DuplicateClasses where
  repeated : List (TypeName × Nat)
deriving DecidableEq

namespace DuplicateClasses

def message (e : DuplicateClasses) : String :=
  "duplicate classes found: " ++
    ", ".intercalate (e.repeated.map fun (name, count) => s!"{name} (defined {count} times)")

end DuplicateClasses

namespace Program

def indexOf (classes : List ClassDef) : Std.ExtTreeMap TypeName ClassDef :=
  classes.foldl (fun index c => index.insert c.name c) ∅

theorem name_eq_of_getElem?_foldl (classes : List ClassDef)
    (start : Std.ExtTreeMap TypeName ClassDef)
    (hstart : ∀ (n : TypeName) (c : ClassDef), start[n]? = some c → c.name = n) (n : TypeName) (c : ClassDef)
    (h : (classes.foldl (fun index c => index.insert c.name c) start)[n]? = some c) :
    c.name = n := by
  induction classes generalizing start with
  | nil => exact hstart n c h
  | cons d rest ih =>
      refine ih (start.insert d.name d) ?_ h
      intro k e hk
      rw [Std.ExtTreeMap.getElem?_insert] at hk
      split at hk
      · next heq =>
          cases hk
          exact Std.LawfulEqCmp.eq_of_compare heq
      · exact hstart k e hk

theorem name_eq_of_getElem?_indexOf (classes : List ClassDef) (n : TypeName) (c : ClassDef)
    (h : (indexOf classes)[n]? = some c) : c.name = n :=
  name_eq_of_getElem?_foldl classes ∅ (by simp) n c h

def repeatedNames (classes : List ClassDef) : List (TypeName × Nat) :=
  let names := classes.map ClassDef.name
  (Std.ExtTreeSet.ofList names).toList.filterMap fun name =>
    let count := names.count name
    if 1 < count then some (name, count) else none

def ofClasses (classes : List ClassDef) : Except DuplicateClasses Program :=
  match repeatedNames classes with
  | [] => .ok ⟨indexOf classes, name_eq_of_getElem?_indexOf classes⟩
  | repeated => .error ⟨repeated⟩

def class? (p : Program) (name : TypeName) : Option ClassDef := p.index[name]?

def contains (p : Program) (name : TypeName) : Bool := (p.class? name).isSome

def method? (p : Program) (m : MethodRef) : Option Method :=
  (p.class? m.owner).bind (·.method? m.name m.descriptor)

/-- The classes by increasing name. -/
def classes (p : Program) : List ClassDef := p.index.toList.map Prod.snd

def classCount (p : Program) : Nat := p.index.size

/-- The declared methods, class by class. -/
def methods (p : Program) : List Method := p.classes.flatMap ClassDef.methods

def methodCount (p : Program) : Nat := p.methods.length

def instructionCount (p : Program) : Nat :=
  (p.methods.flatMap fun m => (m.body?.map Body.instructions).getD []).length

def mentioned (p : Program) : List TypeName :=
  p.classes.flatMap fun c => c.references ++ c.supertypes

def missing (p : Program) : Std.ExtTreeSet TypeName :=
  Std.ExtTreeSet.ofList (p.mentioned.filter fun name => !p.contains name)

theorem name_eq_of_class? (p : Program) {n : TypeName} {c : ClassDef}
    (h : p.class? n = some c) : c.name = n :=
  p.name_eq_of_getElem? n c h

theorem mem_classes_iff (p : Program) (c : ClassDef) :
    c ∈ p.classes ↔ p.class? c.name = some c := by
  simp only [classes, List.mem_map, class?]
  constructor
  · rintro ⟨⟨n, d⟩, h, rfl⟩
    have h := Std.ExtTreeMap.mem_toList_iff_getElem?_eq_some.1 h
    have hn := p.name_eq_of_getElem? n d h
    subst hn
    exact h
  · intro h
    exact ⟨(c.name, c), Std.ExtTreeMap.mem_toList_iff_getElem?_eq_some.2 h, rfl⟩

end Program

/-- Names that belong to the run-time library. -/
def TypeName.isPlatform (name : TypeName) : Bool :=
  ["java/", "javax/", "jdk/", "sun/", "com/sun/"].any fun root =>
    root.toList.isPrefixOf name.toList

end JvmReach
