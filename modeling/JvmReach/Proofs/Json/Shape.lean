import JvmReach.Proofs.Json.Documents
import Mathlib.Computability.Language

/-!
# Shapes of documents

A shape says what a JSON schema says of a document with the keywords `minimum`, `minLength`,
`pattern` and `items`, and of objects in which every property is required and no other one
is allowed. A pattern is the set of texts that match it from end to end.
-/

namespace JvmReach.Json

inductive Shape where
  | integer (minimum : Int)
  | string (minLength : Nat) (pattern? : Option (Language Char))
  | array (items : Shape)
  | object (properties : List (String × Shape))

namespace Shape

inductive Accepts : Shape → Document → Prop
  | integer {minimum i : Int} (h : minimum ≤ i) : Accepts (.integer minimum) (.number i)
  | string {minLength : Nat} {pattern? : Option (Language Char)} {s : String}
      (hlength : minLength ≤ s.toList.length) (hpattern : ∀ p ∈ pattern?, s.toList ∈ p) :
      Accepts (.string minLength pattern?) (.string s)
  | array {items : Shape} {ds : List Document} (h : ∀ d ∈ ds, Accepts items d) :
      Accepts (.array items) (.array ds)
  /-- The keys of the members are those of the properties, each once and in any order. -/
  | object {properties : List (String × Shape)} {members : List (String × Document)}
      (hkeys : (members.map Prod.fst).Perm (properties.map Prod.fst))
      (h : ∀ key d shape, (key, d) ∈ members → (key, shape) ∈ properties → Accepts shape d) :
      Accepts (.object properties) (.object members)

/-- The member has the name and the shape of the property. -/
def Fits (member : String × Document) (property : String × Shape) : Prop :=
  member.1 = property.1 ∧ Accepts property.2 member.2

variable {properties : List (String × Shape)} {members : List (String × Document)}

theorem keys_eq_of_forall₂ (h : List.Forall₂ Fits members properties) :
    members.map Prod.fst = properties.map Prod.fst := by
  induction h with
  | nil => rfl
  | cons hhead _ ih => rw [List.map_cons, List.map_cons, hhead.1, ih]

/-- An object is accepted if its members fit the properties one by one. -/
theorem accepts_object_of_forall₂ (hnodup : (properties.map Prod.fst).Nodup)
    (h : List.Forall₂ Fits members properties) :
    Accepts (.object properties) (.object members) := by
  refine .object (keys_eq_of_forall₂ h ▸ .refl _) fun key d shape hd hshape => ?_
  induction h with
  | nil => cases hd
  | @cons m p ms ps hhead htail ih =>
      rw [List.map_cons, List.nodup_cons] at hnodup
      rcases List.mem_cons.1 hd with rfl | hd <;> rcases List.mem_cons.1 hshape with rfl | hshape
      · exact hhead.2
      · have hkey : p.1 ∈ ps.map Prod.fst := hhead.1 ▸ List.mem_map_of_mem hshape
        exact absurd hkey hnodup.1
      · have hkey : key ∈ ps.map Prod.fst := keys_eq_of_forall₂ htail ▸ List.mem_map_of_mem hd
        exact absurd hkey hnodup.1
      · exact ih hnodup.2 hd hshape

/-- The text is that of a document of the shape. -/
def AcceptsText (shape : Shape) (text : String) : Prop :=
  ∃ d, Document.ofText? text = some d ∧ shape.Accepts d

end Shape

end JvmReach.Json
