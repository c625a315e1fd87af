import JvmReach.Program.Supertypes

/-!
# Cycles in the supertype relation

`Program.cycle?` searches depth first, from each class in name order, and
follows the supertypes of a class from the last to the first. A class closes a
cycle when one of its direct supertypes is on the path that led to it; the first
such supertype, in declaration order, is the one reported. The types on a path
are distinct and all but its end are classes of the program, so the path is
never longer than the number of classes plus one.
-/

namespace JvmReach.Program

def visit (p : Program) :
    Nat → List TypeName → Std.ExtTreeSet TypeName → TypeName →
      Except TypeName (Std.ExtTreeSet TypeName)
  | 0, _, done, _ => .ok done
  | depth + 1, path, done, name =>
      if done.contains name then .ok done
      else
        match (p.directSupertypes name).find? fun parent => (name :: path).contains parent with
        | some parent => .error parent
        | none => do
            let done ← (p.directSupertypes name).reverse.foldlM
              (fun done parent => visit p depth (name :: path) done parent) done
            return done.insert name

/-- A type on some cycle of supertypes, if there is one. -/
def cycle? (p : Program) : Option TypeName :=
  match (p.classes.map ClassDef.name).foldlM (p.visit (p.classCount + 1) []) ∅ with
  | .ok _ => none
  | .error name => some name

end JvmReach.Program
