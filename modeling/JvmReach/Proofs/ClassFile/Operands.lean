import JvmReach.ClassFile.Code
import JvmReach.Proofs.Except
import Mathlib.Tactic.SplitIfs

/-!
# Operands inside the code

The operations that are decoded have an index of the constant pool behind their opcode, of
one byte or of two. They are of fixed length, and the length has room for the index, so once
such an instruction is known to lie inside the code its index can be read. What remains to
fail are the look-ups in the pool. Measuring an instruction never looks for an opcode that is
not there.
-/

namespace JvmReach.ClassFile

/-- The code was read where it has ended: for an opcode or for an index. -/
def CodeError.isOverrun : CodeError → Bool
  | noInstruction _ | noByte | noShort => true
  | _ => false

/-- A look-up in the constant pool has failed. -/
def DecodingError.IsLookup (e : DecodingError) : Prop := ∃ cause, e = .lookup cause

namespace Opcode

/-- The opcodes with an index of two bytes. -/
def shortOperands : List UInt8 :=
  [ldcWide, getStatic, putStatic, invokeVirtual, invokeSpecial, invokeStatic, invokeInterface,
    invokeDynamic, new]

theorem exists_fixedLength?_of_shortOperands {opcode : UInt8} (h : opcode ∈ shortOperands) :
    ∃ length, fixedLength? opcode = some length ∧ 3 ≤ length := by
  have hall : ∀ opcode ∈ shortOperands, ∃ length ∈ fixedLength? opcode, 3 ≤ length := by
    decide +kernel
  exact hall opcode h

end Opcode

namespace Code

variable {pool : ConstantPool} {code : Bytes} {offset : Nat} {opcode : UInt8}

theorem lengthAt_of_fixedLength? {length : Nat} (hopcode : code[offset]? = some opcode)
    (hfixed : Opcode.fixedLength? opcode = some length) : lengthAt code offset = .ok length := by
  have htable : opcode ≠ Opcode.tableSwitch := by
    rintro rfl
    cases hfixed
  have hlookup : opcode ≠ Opcode.lookupSwitch := by
    rintro rfl
    cases hfixed
  have hwide : opcode ≠ Opcode.wide := by
    rintro rfl
    cases hfixed
  simp only [lengthAt, hopcode, htable, hlookup, hwide, hfixed, if_false]

theorem exists_byteAt_eq_ok (h : offset < code.size) : ∃ n, byteAt code offset = .ok n :=
  ⟨_, by rw [byteAt, Array.getElem?_eq_getElem h]⟩

theorem exists_shortAt_eq_ok (h : offset + 2 ≤ code.size) : ∃ n, shortAt code offset = .ok n :=
  ⟨_, by
    rw [shortAt, Array.getElem?_eq_getElem (show offset < code.size by omega),
      Array.getElem?_eq_getElem (show offset + 1 < code.size by omega)]⟩

theorem failsOnly_ofCode_byteAt (p : DecodingError → Prop) (h : offset < code.size) :
    FailsOnly p (ofCode (byteAt code offset)) := by
  obtain ⟨n, hn⟩ := exists_byteAt_eq_ok h
  rw [hn]
  exact .ok p n

theorem failsOnly_ofCode_shortAt (p : DecodingError → Prop) (h : offset + 2 ≤ code.size) :
    FailsOnly p (ofCode (shortAt code offset)) := by
  obtain ⟨n, hn⟩ := exists_shortAt_eq_ok h
  rw [hn]
  exact .ok p n

theorem failsOnly_ofLookup {α : Type} (r : Lookup α) :
    FailsOnly DecodingError.IsLookup (ofLookup r) :=
  FailsOnly.mapError (q := fun _ => True) (fun _ _ => trivial) fun cause _ => ⟨cause, rfl⟩

theorem mem_shortOperands_of_callKind? {kind : CallKind} (h : callKind? opcode = some kind) :
    opcode ∈ Opcode.shortOperands := by
  obtain ⟨before, after, heq, -⟩ := List.lookup_eq_some_iff.1 h
  have hall : ∀ pair ∈ before ++ (opcode, kind) :: after, pair.1 ∈ Opcode.shortOperands := by
    rw [← heq]
    decide
  exact hall (opcode, kind) (by simp)

theorem le_size_of_shortOperands (hopcode : code[offset]? = some opcode)
    (hshort : opcode ∈ Opcode.shortOperands) {length : Nat}
    (hlength : lengthAt code offset = .ok length) (hinside : offset + length ≤ code.size) :
    offset + 1 + 2 ≤ code.size := by
  obtain ⟨fixed, hfixed, hle⟩ := Opcode.exists_fixedLength?_of_shortOperands hshort
  rw [lengthAt_of_fixedLength? hopcode hfixed] at hlength
  cases hlength
  omega

theorem lt_size_of_ldc (hopcode : code[offset]? = some Opcode.ldc) {length : Nat}
    (hlength : lengthAt code offset = .ok length) (hinside : offset + length ≤ code.size) :
    offset + 1 < code.size := by
  rw [lengthAt_of_fixedLength? hopcode (by decide : Opcode.fixedLength? Opcode.ldc = some 2)]
    at hlength
  cases hlength
  omega

/-- An instruction inside the code has its operands there, so only look-ups can fail. -/
theorem failsOnly_operationAt (pool : ConstantPool) (hopcode : code[offset]? = some opcode)
    {length : Nat} (hlength : lengthAt code offset = .ok length)
    (hinside : offset + length ≤ code.size) :
    FailsOnly DecodingError.IsLookup (operationAt pool code offset opcode) := by
  have hshort : opcode ∈ Opcode.shortOperands →
      FailsOnly DecodingError.IsLookup (ofCode (shortAt code (offset + 1))) := fun hmem =>
    failsOnly_ofCode_shortAt _ (le_size_of_shortOperands hopcode hmem hlength hinside)
  have hlook : ∀ {α : Type} (r : Lookup α) (f : α → Operation),
      FailsOnly DecodingError.IsLookup (do return f (← ofLookup r)) := fun r f =>
    (failsOnly_ofLookup r).bind fun a _ => .ok _ (f a)
  rw [operationAt]
  split
  · next kind hkind =>
      exact (hshort (mem_shortOperands_of_callKind? hkind)).bind fun index _ => hlook _ _
  · split_ifs with hdynamic hnew hload hldc hstatic
    · exact (hshort (by simp [hdynamic, Opcode.shortOperands])).bind fun index _ => hlook _ _
    · exact (hshort (by simp [hnew, Opcode.shortOperands])).bind fun index _ => hlook _ _
    · subst hldc
      have hbyte := lt_size_of_ldc hopcode hlength hinside
      exact (failsOnly_ofCode_byteAt _ hbyte).bind fun index _ => hlook _ _
    · have hwide := hload.resolve_left hldc
      exact (hshort (by simp [hwide, Opcode.shortOperands])).bind fun index _ => hlook _ _
    · refine (hshort ?_).bind fun index _ => hlook _ _
      rcases hstatic with hget | hput
      · simp [hget, Opcode.shortOperands]
      · simp [hput, Opcode.shortOperands]
    · exact .ok _ _

theorem failsOnly_wordAt (code : Bytes) (offset : Nat) :
    FailsOnly (fun e => e.isOverrun = false) (wordAt code offset) := by
  rw [wordAt]
  split
  · exact .ok _ _
  · exact .error rfl

theorem failsOnly_tableSwitchLength (code : Bytes) (offset : Nat) :
    FailsOnly (fun e => e.isOverrun = false) (tableSwitchLength code offset) := by
  refine (failsOnly_wordAt code _).bind fun low _ => (failsOnly_wordAt code _).bind fun high _ => ?_
  refine FailsOnly.bind ?_ fun count _ => .ok _ _
  rw [tableCount]
  split
  · exact .ok _ _
  · exact .error rfl

theorem failsOnly_lookupSwitchLength (code : Bytes) (offset : Nat) :
    FailsOnly (fun e => e.isOverrun = false) (lookupSwitchLength code offset) := by
  refine (failsOnly_wordAt code _).bind fun count _ => ?_
  split
  · exact .error rfl
  · exact .ok _ _

theorem failsOnly_wideLength (code : Bytes) (offset : Nat) :
    FailsOnly (fun e => e.isOverrun = false) (wideLength code offset) := by
  rw [wideLength]
  split
  · exact .error rfl
  · exact .ok _ _

/-- Measuring an instruction finds its opcode. -/
theorem failsOnly_lengthAt (hopcode : code[offset]? = some opcode) :
    FailsOnly (fun e => e.isOverrun = false) (lengthAt code offset) := by
  simp only [lengthAt, hopcode]
  split_ifs with htable hlookup hwide
  · exact failsOnly_tableSwitchLength code offset
  · exact failsOnly_lookupSwitchLength code offset
  · exact failsOnly_wideLength code offset
  · split
    · exact .ok _ _
    · exact .error rfl

end Code

end JvmReach.ClassFile
