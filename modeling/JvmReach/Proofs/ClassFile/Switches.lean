import JvmReach.ClassFile.Opcode
import JvmReach.Proofs.Except
import Mathlib.Algebra.Group.Int.Defs
import Mathlib.Algebra.Group.Nat.Defs

/-!
# Lengths of switches

The operands of a switch are signed words, aligned to a multiple of four. A table from `low`
to `high` has a length if its words lie inside the code, no step of counting its entries
leaves the range of a word, and the count is not negative; a look-up switch has one if its
words lie inside the code and the number of its pairs is not negative. The length is that of
the opcode, the padding, the words and the entries, and far from what an address can hold.

The count is zero for a table whose `high` is one below its `low`. Such a table has no entry
to jump by, yet it has a length.
-/

namespace JvmReach.ClassFile.Code

/-- Four bytes stand at an offset, and `word` is the signed word that they make up, the most
significant byte first. -/
def IsWord (code : Bytes) (offset : Nat) (word : Int) : Prop :=
  ∃ a b c d : UInt8, code[offset]? = some a ∧ code[offset + 1]? = some b ∧
    code[offset + 2]? = some c ∧ code[offset + 3]? = some d ∧
    word = (a.toBitVec ++ b.toBitVec ++ c.toBitVec ++ d.toBitVec).toInt

/-- A number that a signed word can hold. -/
def InWordRange (n : Int) : Prop := -2 ^ 31 ≤ n ∧ n < 2 ^ 31

instance (n : Int) : Decidable (InWordRange n) :=
  inferInstanceAs (Decidable (-2 ^ 31 ≤ n ∧ n < 2 ^ 31))

theorem toNat_append_byte {width : Nat} (front : BitVec width) (last : UInt8) :
    (front ++ last.toBitVec).toNat = front.toNat * 256 + last.toNat := by
  rw [BitVec.toNat_append, ← Nat.shiftLeft_add_eq_or_of_lt last.toBitVec.isLt, Nat.shiftLeft_eq,
    UInt8.toNat_toBitVec]

theorem toInt_append_bytes (a b c d : UInt8) :
    (a.toBitVec ++ b.toBitVec ++ c.toBitVec ++ d.toBitVec).toInt =
      let n := ((a.toNat * 256 + b.toNat) * 256 + c.toNat) * 256 + d.toNat
      if n < 0x80000000 then (n : Int) else (n : Int) - 0x100000000 := by
  simp only [BitVec.toInt_eq_toNat_cond, toNat_append_byte, UInt8.toNat_toBitVec]
  split <;> split <;> omega

theorem wordAt_eq_ok_iff (code : Bytes) (offset : Nat) (word : Int) :
    wordAt code offset = .ok word ↔ IsWord code offset word := by
  rw [wordAt]
  constructor
  · intro h
    split at h
    · next a b c d ha hb hc hd =>
        refine ⟨a, b, c, d, ha, hb, hc, hd, ?_⟩
        rw [toInt_append_bytes]
        exact (Except.ok.inj h).symm
    · cases h
  · rintro ⟨a, b, c, d, ha, hb, hc, hd, rfl⟩
    simp only [ha, hb, hc, hd, toInt_append_bytes]

namespace IsWord

variable {code : Bytes} {offset : Nat} {word : Int}

theorem le_size (h : IsWord code offset word) : offset + 4 ≤ code.size := by
  obtain ⟨_, _, _, _, -, -, -, hd, -⟩ := h
  have hlast := (Array.getElem?_eq_some_iff.1 hd).1
  omega

theorem inWordRange (h : IsWord code offset word) : InWordRange word := by
  obtain ⟨_, _, _, _, -, -, -, -, rfl⟩ := h
  exact ⟨BitVec.le_toInt _, BitVec.toInt_lt⟩

end IsWord

/-- The entries of a table are counted in two steps, each of which has to give a word. -/
theorem tableCount_eq_ok_iff (low high : Int) (count : Nat) :
    tableCount low high = .ok count ↔
      InWordRange (high - low) ∧ InWordRange (high - low + 1) ∧ 0 ≤ high - low + 1 ∧
        (count : Int) = high - low + 1 := by
  simp only [tableCount, InWordRange]
  split
  · next hcount =>
      rw [Except.ok.injEq]
      omega
  · next hcount =>
      constructor
      · intro h
        cases h
      · rintro ⟨-, hfits, hpos, -⟩
        exact absurd ⟨hpos, hfits.2⟩ hcount

theorem lengthAt_of_tableSwitch {code : Bytes} {offset : Nat}
    (hopcode : code[offset]? = some Opcode.tableSwitch) :
    lengthAt code offset = tableSwitchLength code offset := by
  rw [lengthAt, hopcode]
  rfl

theorem lengthAt_of_lookupSwitch {code : Bytes} {offset : Nat}
    (hopcode : code[offset]? = some Opcode.lookupSwitch) :
    lengthAt code offset = lookupSwitchLength code offset := by
  rw [lengthAt, hopcode]
  rfl

theorem tableSwitchLength_eq_ok_iff (code : Bytes) (offset length : Nat) :
    tableSwitchLength code offset = .ok length ↔
      ∃ low high, IsWord code (offset + 1 + padding offset + 4) low ∧
        IsWord code (offset + 1 + padding offset + 8) high ∧
        low ≤ high + 1 ∧ InWordRange (high - low + 1) ∧
        (length : Int) = 1 + padding offset + 12 + 4 * (high - low + 1) := by
  simp only [tableSwitchLength, bind_eq_ok_iff, pure_eq_ok_iff, wordAt_eq_ok_iff,
    tableCount_eq_ok_iff]
  constructor
  · rintro ⟨low, hlow, high, hhigh, count, ⟨-, hfits, hpos, hcount⟩, rfl⟩
    refine ⟨low, high, hlow, hhigh, by omega, hfits, ?_⟩
    push_cast
    omega
  · rintro ⟨low, high, hlow, hhigh, hle, hfits, hlength⟩
    refine ⟨low, hlow, high, hhigh, (high - low + 1).toNat, ⟨?_, hfits, by omega, by omega⟩,
      by omega⟩
    -- the difference is one less than the count, and that is not the least of all words
    have hlt := hfits.2
    constructor <;> omega

theorem lookupSwitchLength_eq_ok_iff (code : Bytes) (offset length : Nat) :
    lookupSwitchLength code offset = .ok length ↔
      ∃ count, IsWord code (offset + 1 + padding offset + 4) count ∧ 0 ≤ count ∧
        (length : Int) = 1 + padding offset + 8 + 8 * count := by
  simp only [lookupSwitchLength, bind_eq_ok_iff, wordAt_eq_ok_iff]
  refine exists_congr fun count => and_congr_right fun _ => ?_
  split
  · next hneg =>
      constructor
      · intro h
        cases h
      · rintro ⟨hpos, -⟩
        omega
  · next hpos =>
      rw [pure_eq_ok_iff]
      omega

theorem padding_eq {offset p : Nat} (hp : p < 4) (haligned : (offset + 1 + p) % 4 = 0) :
    padding offset = p := by
  rw [padding]
  omega

/-- Which switches have a length, and which one, with the padding `p` of their operands. The
range of a table may be empty, but then it has to end one before its start. -/
theorem switchLength_exact (code : Bytes) (offset p length : Nat) (hp : p < 4)
    (haligned : (offset + 1 + p) % 4 = 0) :
    (code[offset]? = some Opcode.tableSwitch →
      (lengthAt code offset = .ok length ↔
        offset + 1 + p + 12 ≤ code.size ∧
        ∃ low high, IsWord code (offset + 1 + p + 4) low ∧
          IsWord code (offset + 1 + p + 8) high ∧ low ≤ high + 1 ∧
          InWordRange (high - low + 1) ∧
          (length : Int) = 1 + p + 12 + 4 * (high - low + 1) ∧ length < 2 ^ 64)) ∧
    (code[offset]? = some Opcode.lookupSwitch →
      (lengthAt code offset = .ok length ↔
        offset + 1 + p + 8 ≤ code.size ∧
        ∃ count, IsWord code (offset + 1 + p + 4) count ∧ 0 ≤ count ∧
          (length : Int) = 1 + p + 8 + 8 * count ∧ length < 2 ^ 64)) := by
  have hpadding := padding_eq hp haligned
  constructor
  · intro hopcode
    rw [lengthAt_of_tableSwitch hopcode, tableSwitchLength_eq_ok_iff, hpadding]
    constructor
    · rintro ⟨low, high, hlow, hhigh, hle, hfits, hlength⟩
      have hsize := hhigh.le_size
      have hlt := hfits.2
      exact ⟨by omega, low, high, hlow, hhigh, hle, hfits, hlength, by omega⟩
    · rintro ⟨-, low, high, hlow, hhigh, hle, hfits, hlength, -⟩
      exact ⟨low, high, hlow, hhigh, hle, hfits, hlength⟩
  · intro hopcode
    rw [lengthAt_of_lookupSwitch hopcode, lookupSwitchLength_eq_ok_iff, hpadding]
    constructor
    · rintro ⟨count, hcount, hpos, hlength⟩
      have hsize := hcount.le_size
      have hlt := hcount.inWordRange.2
      exact ⟨by omega, count, hcount, hpos, hlength, by omega⟩
    · rintro ⟨-, count, hcount, hpos, hlength, -⟩
      exact ⟨count, hcount, hpos, hlength⟩

/-- A table of the entries 0 and 1, and a look-up switch with one pair behind it. -/
def twoSwitches : Bytes :=
  #[0xaa, 0, 0, 0, 0, 0, 0, 24, 0, 0, 0, 0, 0, 0, 0, 1, 0, 0, 0, 24, 0, 0, 0, 24,
    0xab, 0, 0, 0, 0, 0, 0, 20, 0, 0, 0, 1, 0, 0, 0, 7, 0, 0, 0, 20]

theorem switchLength_exact_twoSwitches :
    twoSwitches[0]? = some Opcode.tableSwitch ∧ lengthAt twoSwitches 0 = .ok 24 ∧
      twoSwitches[24]? = some Opcode.lookupSwitch ∧ lengthAt twoSwitches 24 = .ok 20 := by
  have hlow : IsWord twoSwitches 8 0 := ⟨0, 0, 0, 0, rfl, rfl, rfl, rfl, rfl⟩
  have hhigh : IsWord twoSwitches 12 1 := ⟨0, 0, 0, 1, rfl, rfl, rfl, rfl, rfl⟩
  have hcount : IsWord twoSwitches 32 1 := ⟨0, 0, 0, 1, rfl, rfl, rfl, rfl, rfl⟩
  have htable := (switchLength_exact twoSwitches 0 3 24 (by decide) (by decide)).1 rfl
  have hlookup := (switchLength_exact twoSwitches 24 3 20 (by decide) (by decide)).2 rfl
  refine ⟨rfl, htable.2 ?_, rfl, hlookup.2 ?_⟩
  · exact ⟨by decide, 0, 1, hlow, hhigh, by decide, by decide, by decide, by decide⟩
  · exact ⟨by decide, 1, hcount, by decide, by decide, by decide⟩

/-- A table from 1 to 0. -/
def emptyTable : Bytes := #[0xaa, 0, 0, 0, 0, 0, 0, 16, 0, 0, 0, 1, 0, 0, 0, 0]

/-- A table without entries has a length, though there is nothing it could jump by. -/
theorem lengthAt_emptyTable :
    emptyTable[0]? = some Opcode.tableSwitch ∧ IsWord emptyTable 8 1 ∧ IsWord emptyTable 12 0 ∧
      ¬ (1 : Int) ≤ 0 ∧ lengthAt emptyTable 0 = .ok 16 := by
  have hlow : IsWord emptyTable 8 1 := ⟨0, 0, 0, 1, rfl, rfl, rfl, rfl, rfl⟩
  have hhigh : IsWord emptyTable 12 0 := ⟨0, 0, 0, 0, rfl, rfl, rfl, rfl, rfl⟩
  refine ⟨rfl, hlow, hhigh, by decide, ?_⟩
  rw [lengthAt_of_tableSwitch rfl, tableSwitchLength_eq_ok_iff]
  exact ⟨1, 0, hlow, hhigh, by decide, by decide, by decide⟩

end JvmReach.ClassFile.Code
