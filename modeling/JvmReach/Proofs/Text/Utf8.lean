import Mathlib.Init

/-!
# The bytes of a text

A text is encoded character by character: characters below U+0080 as their number, all
others as bytes from `0x80` on. Reading the bytes of a text gives the text back.
-/

namespace JvmReach.Text

def utf8 (cs : List Char) : List UInt8 := cs.flatMap String.utf8EncodeChar

@[simp]
theorem utf8_nil : utf8 [] = [] := rfl

@[simp]
theorem utf8_cons (c : Char) (cs : List Char) :
    utf8 (c :: cs) = String.utf8EncodeChar c ++ utf8 cs := rfl

@[simp]
theorem utf8_append (cs ds : List Char) : utf8 (cs ++ ds) = utf8 cs ++ utf8 ds :=
  List.flatMap_append

theorem utf8EncodeChar_of_lt {c : Char} (h : c.toNat < 0x80) :
    String.utf8EncodeChar c = [UInt8.ofNat c.toNat] :=
  if_pos (Nat.le_of_lt_succ h)

theorem toNat_ofNat_toNat {c : Char} (h : c.toNat < 0x80) :
    (UInt8.ofNat c.toNat).toNat = c.toNat :=
  UInt8.toNat_ofNat_of_lt' (Nat.lt_trans h (by decide))

theorem eq_of_ofNat_toNat_eq {c d : Char} (hc : c.toNat < 0x80) (hd : d.toNat < 0x80)
    (h : UInt8.ofNat c.toNat = UInt8.ofNat d.toNat) : c = d := by
  have htoNat := congrArg UInt8.toNat h
  rw [toNat_ofNat_toNat hc, toNat_ofNat_toNat hd] at htoNat
  exact Char.toNat_inj.1 htoNat

theorem le_of_mem_utf8EncodeChar {c : Char} {b : UInt8} (h : 0x80 ≤ c.toNat)
    (hb : b ∈ String.utf8EncodeChar c) : 0x80 ≤ b := by
  have h : ¬ c.val.toNat ≤ 0x7f := Nat.not_le.2 h
  unfold String.utf8EncodeChar at hb
  rw [if_neg h] at hb
  rw [UInt8.le_iff_toNat_le]
  split at hb
  · simp at hb
    rcases hb with rfl | rfl <;> simp <;> omega
  · split at hb
    · simp at hb
      rcases hb with rfl | rfl | rfl <;> simp <;> omega
    · simp at hb
      rcases hb with rfl | rfl | rfl | rfl <;> simp <;> omega

theorem toByteArray_utf8 (s : String) : (utf8 s.toList).toByteArray = s.toUTF8 := by
  calc (utf8 s.toList).toByteArray
    _ = (String.ofList s.toList).toByteArray := String.toByteArray_ofList.symm
    _ = s.toUTF8 := by rw [String.ofList_toList, String.toUTF8_eq_toByteArray]

theorem toList_data_toUTF8 (s : String) : s.toUTF8.data.toList = utf8 s.toList := by
  rw [← toByteArray_utf8, List.data_toByteArray]

theorem fromUTF8?_toUTF8 (s : String) : String.fromUTF8? s.toUTF8 = some s := by
  rw [String.fromUTF8?, String.toUTF8_eq_toByteArray, dif_pos s.isValidUTF8]
  rfl

end JvmReach.Text
