import JvmReach.ClassFile.ModifiedUtf8

/-!
# Lengths of instructions

The opcode of an instruction fixes its length, but for three: the two switches,
whose operands are aligned to four bytes from the start of the code and followed
by as many entries as they tell, and the wide form, whose length hangs on the
opcode behind it. `Code.lengthAt` is the length of the instruction at an offset,
with its operands; it does not ask whether they lie inside the code, beyond what
it has to read.
-/

namespace JvmReach.ClassFile

inductive CodeError where
  | noInstruction (offset : Nat)
  | unsupportedOpcode (opcode : UInt8)
  | noByte
  | noShort
  | noWord
  | badTableRange
  | badPairCount
  | noWideOpcode
  | badLength (offset : Nat)
deriving DecidableEq

namespace CodeError

/-- Two hexadecimal digits. -/
def hexText (b : UInt8) : String :=
  let digits := Nat.toDigits 16 b.toNat
  String.ofList (List.replicate (2 - digits.length) '0' ++ digits)

def message : CodeError → String
  | noInstruction offset => s!"no instruction at offset {offset}"
  | unsupportedOpcode opcode => s!"unsupported opcode 0x{hexText opcode}"
  | noByte => "ldc index"
  | noShort => "bytecode u16 out of bounds"
  | noWord => "bytecode i32 out of bounds"
  | badTableRange => "invalid tableswitch range"
  | badPairCount => "invalid lookupswitch pairs"
  | noWideOpcode => "missing wide opcode"
  | badLength offset => s!"invalid bytecode length at offset {offset}"

end CodeError

namespace Opcode

def ldc : UInt8 := 0x12
def ldcWide : UInt8 := 0x13
def increment : UInt8 := 0x84
def tableSwitch : UInt8 := 0xaa
def lookupSwitch : UInt8 := 0xab
def getStatic : UInt8 := 0xb2
def putStatic : UInt8 := 0xb3
def invokeVirtual : UInt8 := 0xb6
def invokeSpecial : UInt8 := 0xb7
def invokeStatic : UInt8 := 0xb8
def invokeInterface : UInt8 := 0xb9
def invokeDynamic : UInt8 := 0xba
def new : UInt8 := 0xbb
def wide : UInt8 := 0xc4

/-- Ranges of opcodes, first and last, with the length of their instructions. -/
def fixedLengths : List (UInt8 × UInt8 × Nat) :=
  [(0x00, 0x0f, 1), (0x10, 0x10, 2), (0x11, 0x11, 3), (0x12, 0x12, 2), (0x13, 0x14, 3),
    (0x15, 0x19, 2), (0x1a, 0x35, 1), (0x36, 0x3a, 2), (0x3b, 0x83, 1), (0x84, 0x84, 3),
    (0x85, 0x98, 1), (0x99, 0xa8, 3), (0xa9, 0xa9, 2), (0xac, 0xb1, 1), (0xb2, 0xb8, 3),
    (0xb9, 0xba, 5), (0xbb, 0xbb, 3), (0xbc, 0xbc, 2), (0xbd, 0xbd, 3), (0xbe, 0xbf, 1),
    (0xc0, 0xc1, 3), (0xc2, 0xc3, 1), (0xc5, 0xc5, 4), (0xc6, 0xc7, 3), (0xc8, 0xc9, 5),
    (0xca, 0xca, 1), (0xfe, 0xff, 1)]

def fixedLength? (opcode : UInt8) : Option Nat :=
  (fixedLengths.find? fun (first, last, _) => first ≤ opcode && opcode ≤ last).map (·.2.2)

theorem pos_of_fixedLength? {opcode : UInt8} {length : Nat}
    (h : fixedLength? opcode = some length) : 0 < length := by
  obtain ⟨⟨first, last, n⟩, hmem, rfl⟩ := Option.map_eq_some_iff.1 h
  have hmem := List.mem_of_find?_eq_some hmem
  have hall : ∀ row ∈ fixedLengths, 0 < row.2.2 := by decide
  exact hall _ hmem

end Opcode

namespace Code

def byteAt (code : Bytes) (offset : Nat) : Except CodeError Nat :=
  match code[offset]? with
  | some b => .ok b.toNat
  | none => .error .noByte

def shortAt (code : Bytes) (offset : Nat) : Except CodeError Nat :=
  match code[offset]?, code[offset + 1]? with
  | some a, some b => .ok (a.toNat * 256 + b.toNat)
  | _, _ => .error .noShort

/-- A signed word. -/
def wordAt (code : Bytes) (offset : Nat) : Except CodeError Int :=
  match code[offset]?, code[offset + 1]?, code[offset + 2]?, code[offset + 3]? with
  | some a, some b, some c, some d =>
      let n := ((a.toNat * 256 + b.toNat) * 256 + c.toNat) * 256 + d.toNat
      .ok (if n < 0x80000000 then n else (n : Int) - 0x100000000)
  | _, _, _, _ => .error .noWord

/-- The bytes between an opcode at `offset` and the next multiple of four. -/
def padding (offset : Nat) : Nat := (4 - (offset + 1) % 4) % 4

theorem padding_lt (offset : Nat) : padding offset < 4 := Nat.mod_lt _ (by decide)

theorem aligned_padding (offset : Nat) : (offset + 1 + padding offset) % 4 = 0 := by
  rw [padding]
  omega

/-- The number of entries of a table from `low` to `high`, which has to be a
signed word that is not negative. -/
def tableCount (low high : Int) : Except CodeError Nat :=
  let count := high - low + 1
  if 0 ≤ count ∧ count < 0x80000000 then .ok count.toNat else .error .badTableRange

def tableSwitchLength (code : Bytes) (offset : Nat) : Except CodeError Nat := do
  let operands := offset + 1 + padding offset
  let low ← wordAt code (operands + 4)
  let high ← wordAt code (operands + 8)
  let count ← tableCount low high
  return 1 + padding offset + 12 + 4 * count

def lookupSwitchLength (code : Bytes) (offset : Nat) : Except CodeError Nat := do
  let count ← wordAt code (offset + 1 + padding offset + 4)
  if count < 0 then .error .badPairCount
  else return 1 + padding offset + 8 + 8 * count.toNat

def wideLength (code : Bytes) (offset : Nat) : Except CodeError Nat :=
  match code[offset + 1]? with
  | none => .error .noWideOpcode
  | some opcode => .ok (if opcode = Opcode.increment then 6 else 4)

def lengthAt (code : Bytes) (offset : Nat) : Except CodeError Nat :=
  match code[offset]? with
  | none => .error (.noInstruction offset)
  | some opcode =>
      if opcode = Opcode.tableSwitch then tableSwitchLength code offset
      else if opcode = Opcode.lookupSwitch then lookupSwitchLength code offset
      else if opcode = Opcode.wide then wideLength code offset
      else
        match Opcode.fixedLength? opcode with
        | some length => .ok length
        | none => .error (.unsupportedOpcode opcode)

theorem tableSwitchLength_pos {code : Bytes} {offset length : Nat}
    (h : tableSwitchLength code offset = .ok length) : 0 < length := by
  simp only [tableSwitchLength, bind, Except.bind, pure, Except.pure] at h
  split at h
  · cases h
  · split at h
    · cases h
    · split at h
      · cases h
      · cases h
        omega

theorem lookupSwitchLength_pos {code : Bytes} {offset length : Nat}
    (h : lookupSwitchLength code offset = .ok length) : 0 < length := by
  simp only [lookupSwitchLength, bind, Except.bind, pure, Except.pure] at h
  split at h
  · cases h
  · split at h
    · cases h
    · cases h
      omega

theorem wideLength_pos {code : Bytes} {offset length : Nat}
    (h : wideLength code offset = .ok length) : 0 < length := by
  rw [wideLength] at h
  split at h
  · cases h
  · cases h
    split <;> decide

/-- No instruction is empty, so reading one after the other makes progress. -/
theorem lengthAt_pos {code : Bytes} {offset length : Nat}
    (h : lengthAt code offset = .ok length) : 0 < length := by
  rw [lengthAt] at h
  split at h
  · cases h
  · split at h
    · exact tableSwitchLength_pos h
    · split at h
      · exact lookupSwitchLength_pos h
      · split at h
        · exact wideLength_pos h
        · split at h
          · next found =>
              cases h
              exact Opcode.pos_of_fixedLength? found
          · cases h

end Code

end JvmReach.ClassFile
