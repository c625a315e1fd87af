import JvmReach.Proofs.Document.Decoding
import JvmReach.Proofs.Json.Compact
import JvmReach.Proofs.Load.Entries
import JvmReach.Proofs.Load.Targets
import JvmReach.Proofs.Program.LineTables

/-!
# Models read back

A model may be written in many ways, and it is loaded as the classes that it is written for,
whichever way that was. Only the line tables are put in order, and the classes of a model on
the class path are not under analysis.

What stands beside the fields of a record is passed over. A key has to be a text there, but
what is passed over need not stand for anything: it may hold numbers out of range, and strings
and keys with half of a surrogate pair, which are no texts. An instruction is stored before it
is read, though. What stands beside its fields must not nest too deep, and neither a number out
of range nor half of a surrogate pair may be in it.
-/

namespace JvmReach

/-- The same body with its line table put in order. -/
inductive Body.Ordered : Body → Body → Prop
  | mk {instructions : List Instruction} {listing table : List LineEntry}
      (h : StablySorted listing table) : Ordered ⟨instructions, listing⟩ ⟨instructions, table⟩

def Method.Ordered (m m' : Method) : Prop :=
  ∃ body?, Option.Rel Body.Ordered m.body? body? ∧ m' = { m with body? }

def ClassDef.Ordered (c c' : ClassDef) : Prop :=
  ∃ methods, List.Forall₂ Method.Ordered c.methods methods ∧ c' = { c with methods }

namespace Load

open Files Document Json

variable {fs : FileSystem} {p : Files.Path} {text : String} {classes : List ClassDef}

section Sample

variable {ignores : Tree → Prop} {note stored : Tree}

end Sample

end Load

end JvmReach
