import JvmReach.Proofs.ClassFile.Operands
import Mathlib.Data.List.Chain
import Mathlib.Logic.ExistsUnique

/-!
# Instructions tile the code

`Decodes` is the loop over a code array that neither counts its turns nor stops before the
end: it holds of an offset and an outcome if decoding from this offset on ends with it. No
instruction is empty, so the loop ends, with what `instructions` computes.

Where it succeeds, every instruction starts where the one before ends, and the last one ends
with the code. So each byte belongs to exactly one instruction.
-/

namespace JvmReach.ClassFile.Code

variable {pool : ConstantPool} {code : Bytes}

/-- Decoding from an offset on ends with an outcome. -/
inductive Decodes (pool : ConstantPool) (code : Bytes) : Nat → Decoded (List Instruction) → Prop
  | done {offset : Nat} (hend : code[offset]? = none) : Decodes pool code offset (.ok [])
  | failed {offset : Nat} {opcode : UInt8} {e : DecodingError}
      (hopcode : code[offset]? = some opcode)
      (hfail : instructionAt pool code offset opcode = .error e) :
      Decodes pool code offset (.error e)
  | next {offset : Nat} {opcode : UInt8} {i : Instruction} {length : Nat}
      {rest : Decoded (List Instruction)} (hopcode : code[offset]? = some opcode)
      (hok : instructionAt pool code offset opcode = .ok (i, length))
      (hrest : Decodes pool code (offset + length) rest) :
      Decodes pool code offset (rest.map (i :: ·))

/-- From an offset on, each instruction starts where the one before ends, and the last one
ends with the code. -/
inductive Tiles (code : Bytes) : Nat → List Instruction → Prop
  | done {start : Nat} (hend : start = code.size) : Tiles code start []
  | next {start : Nat} {i : Instruction} {length : Nat} {rest : List Instruction}
      (hstart : i.offset = start) (hlength : lengthAt code i.offset = .ok length)
      (hrest : Tiles code (i.offset + length) rest) : Tiles code start (i :: rest)

/-- Byte `b` is one of those of an instruction. -/
def Covers (code : Bytes) (i : Instruction) (b : Nat) : Prop :=
  ∃ length, lengthAt code i.offset = .ok length ∧ i.offset ≤ b ∧ b < i.offset + length

/-- Instructions that make up a code array, without overlap and without gap. -/
structure Tiling (code : Bytes) (instructions : List Instruction) : Prop where
  starts : 0 < code.size → ∃ first ∈ instructions.head?, first.offset = 0
  increases : (instructions.map Instruction.offset).Pairwise (· < ·)
  adjoins : instructions.IsChain fun i j =>
    ∃ length, lengthAt code i.offset = .ok length ∧ j.offset = i.offset + length
  ends : ∀ last ∈ instructions.getLast?,
    ∃ length, lengthAt code last.offset = .ok length ∧ last.offset + length = code.size
  lies : ∀ i ∈ instructions, i.offset < code.size
  covers : ∀ b < code.size, ∃! i, i ∈ instructions ∧ Covers code i b

theorem instructionAt_eq_ok {offset length : Nat} {opcode : UInt8} {i : Instruction}
    (h : instructionAt pool code offset opcode = .ok (i, length)) :
    i.offset = offset ∧ lengthAt code offset = .ok length ∧ 0 < length ∧
      offset + length ≤ code.size := by
  rw [instructionAt, bind_eq_ok_iff] at h
  obtain ⟨measured, hmeasured, h⟩ := h
  rw [ofCode, mapError_eq_ok_iff] at hmeasured
  split at h
  · cases h
  · next hinside =>
      obtain ⟨operation, -, h⟩ := bind_eq_ok_iff.1 h
      cases h
      exact ⟨rfl, hmeasured, lengthAt_pos hmeasured, by omega⟩

namespace Decodes

theorem unique {offset : Nat} {r r' : Decoded (List Instruction)} (h : Decodes pool code offset r)
    (h' : Decodes pool code offset r') : r = r' := by
  induction h generalizing r' with
  | done hend =>
      cases h' with
      | done => rfl
      | failed hopcode => cases hend.symm.trans hopcode
      | next hopcode => cases hend.symm.trans hopcode
  | failed hopcode hfail =>
      cases h' with
      | done hend => cases hend.symm.trans hopcode
      | failed hopcode' hfail' =>
          cases hopcode.symm.trans hopcode'
          cases hfail.symm.trans hfail'
          rfl
      | next hopcode' hok' =>
          cases hopcode.symm.trans hopcode'
          cases hfail.symm.trans hok'
  | next hopcode hok _ ih =>
      cases h' with
      | done hend => cases hend.symm.trans hopcode
      | failed hopcode' hfail' =>
          cases hopcode.symm.trans hopcode'
          cases hok.symm.trans hfail'
      | next hopcode' hok' hrest' =>
          cases hopcode.symm.trans hopcode'
          cases hok.symm.trans hok'
          rw [ih hrest']

end Decodes

theorem instructionsFrom_of_opcode (bound : Nat) {offset : Nat} {opcode : UInt8}
    (hopcode : code[offset]? = some opcode) :
    instructionsFrom pool code (bound + 1) offset =
      (instructionAt pool code offset opcode).bind fun first =>
        (instructionsFrom pool code bound (offset + first.2)).map (first.1 :: ·) := by
  rw [instructionsFrom, hopcode]
  dsimp only
  cases instructionAt pool code offset opcode with
  | error e => rfl
  | ok first =>
      change (instructionsFrom pool code bound (offset + first.2) >>=
        fun rest => pure (first.1 :: rest)) =
          (instructionsFrom pool code bound (offset + first.2)).map (first.1 :: ·)
      cases instructionsFrom pool code bound (offset + first.2) with
      | error e => rfl
      | ok rest => rfl

/-- The bound is not met as long as it makes up for the bytes that are left. -/
theorem decodes_instructionsFrom (pool : ConstantPool) (code : Bytes) (bound offset : Nat)
    (hbound : code.size ≤ offset + bound) :
    Decodes pool code offset (instructionsFrom pool code bound offset) := by
  induction bound generalizing offset with
  | zero => exact .done (Array.getElem?_eq_none hbound)
  | succ bound ih =>
      cases hopcode : code[offset]? with
      | none =>
          rw [instructionsFrom, hopcode]
          exact .done hopcode
      | some opcode =>
          rw [instructionsFrom_of_opcode bound hopcode]
          cases hfirst : instructionAt pool code offset opcode with
          | error e => exact .failed hopcode hfirst
          | ok first =>
              obtain ⟨-, -, hpos, -⟩ := instructionAt_eq_ok hfirst
              exact .next hopcode hfirst (ih (offset + first.2) (by omega))

theorem decodes_iff (pool : ConstantPool) (code : Bytes) (r : Decoded (List Instruction)) :
    Decodes pool code 0 r ↔ r = instructions pool code := by
  have hdecodes : Decodes pool code 0 (instructions pool code) :=
    decodes_instructionsFrom pool code code.size 0 (by omega)
  constructor
  · intro hr
    exact hr.unique hdecodes
  · rintro rfl
    exact hdecodes

theorem exists_of_map_cons_eq_ok {i : Instruction} {r : Decoded (List Instruction)}
    {l : List Instruction} (h : r.map (i :: ·) = .ok l) : ∃ rest, r = .ok rest ∧ i :: rest = l := by
  cases r with
  | error e => cases h
  | ok rest => exact ⟨rest, rfl, Except.ok.inj h⟩

namespace Decodes

/-- Decoding from inside the code fails at what one of the instructions fails at. -/
theorem exists_of_error {offset : Nat} {r : Decoded (List Instruction)}
    (h : Decodes pool code offset r) {e : DecodingError} (he : r = .error e) :
    ∃ offset opcode, code[offset]? = some opcode ∧
      instructionAt pool code offset opcode = .error e := by
  induction h with
  | done hend => cases he
  | @failed offset opcode e' hopcode hfail =>
      cases he
      exact ⟨offset, opcode, hopcode, hfail⟩
  | @next offset opcode i length rest _ _ _ ih =>
      apply ih
      cases rest with
      | error e' =>
          cases he
          rfl
      | ok l => cases he

theorem tiles {offset : Nat} {r : Decoded (List Instruction)} (h : Decodes pool code offset r)
    (hoffset : offset ≤ code.size) {l : List Instruction} (hl : r = .ok l) :
    Tiles code offset l := by
  induction h generalizing l with
  | @done offset hend =>
      cases hl
      exact .done (Nat.le_antisymm hoffset (Array.getElem?_eq_none_iff.1 hend))
  | failed => cases hl
  | @next offset opcode i length rest _ hok _ ih =>
      obtain ⟨rfl, hlength, -, hinside⟩ := instructionAt_eq_ok hok
      obtain ⟨rest, hrest, rfl⟩ := exists_of_map_cons_eq_ok hl
      exact .next rfl hlength (ih hinside hrest)

end Decodes

namespace Tiles

variable {start : Nat} {l : List Instruction}

theorem start_le_size (h : Tiles code start l) : start ≤ code.size := by
  induction h with
  | done hend => exact hend.le
  | next _ _ _ ih => omega

theorem start_le_offset (h : Tiles code start l) : ∀ i ∈ l, start ≤ i.offset := by
  induction h with
  | done => simp
  | next hstart _ _ ih =>
      intro j hj
      rcases List.mem_cons.1 hj with rfl | hj
      · exact hstart.ge
      · have hle := ih j hj
        omega

theorem offset_lt_size (h : Tiles code start l) : ∀ i ∈ l, i.offset < code.size := by
  induction h with
  | done => simp
  | next _ hlength hrest ih =>
      intro j hj
      rcases List.mem_cons.1 hj with rfl | hj
      · have hpos := lengthAt_pos hlength
        have hle := hrest.start_le_size
        omega
      · exact ih j hj

theorem exists_head? (h : Tiles code start l) (hstart : start < code.size) :
    ∃ first ∈ l.head?, first.offset = start := by
  cases h with
  | done hend => omega
  | next hfirst _ _ => exact ⟨_, rfl, hfirst⟩

theorem pairwise_offset (h : Tiles code start l) :
    (l.map Instruction.offset).Pairwise (· < ·) := by
  induction h with
  | done => exact .nil
  | next _ hlength hrest ih =>
      rw [List.map_cons, List.pairwise_cons]
      refine ⟨?_, ih⟩
      intro offset hoffset
      obtain ⟨j, hj, rfl⟩ := List.mem_map.1 hoffset
      have hpos := lengthAt_pos hlength
      have hle := hrest.start_le_offset j hj
      omega

theorem isChain (h : Tiles code start l) : l.IsChain fun i j =>
    ∃ length, lengthAt code i.offset = .ok length ∧ j.offset = i.offset + length := by
  induction h with
  | done => exact .nil
  | next _ hlength hrest ih =>
      cases hrest with
      | done _ => exact .singleton _
      | next hfollows _ _ => exact .cons_cons ⟨_, hlength, hfollows⟩ ih

theorem getLast?_ends (h : Tiles code start l) : ∀ last ∈ l.getLast?,
    ∃ length, lengthAt code last.offset = .ok length ∧ last.offset + length = code.size := by
  induction h with
  | done => simp
  | next _ hlength hrest ih =>
      intro last hlast
      cases hrest with
      | done hend =>
          cases hlast
          exact ⟨_, hlength, hend⟩
      | next _ _ _ =>
          rw [List.getLast?_cons_cons] at hlast
          exact ih last hlast

theorem existsUnique_covers (h : Tiles code start l) {b : Nat} (hstart : start ≤ b)
    (hb : b < code.size) : ∃! i, i ∈ l ∧ Covers code i b := by
  induction h with
  | done hend => omega
  | @next start i length rest hfirst hlength hrest ih =>
      have hcovers : Covers code i b ↔ b < i.offset + length := by
        constructor
        · rintro ⟨other, hother, -, hlt⟩
          cases hlength.symm.trans hother
          exact hlt
        · exact fun hlt => ⟨length, hlength, hfirst.trans_le hstart, hlt⟩
      by_cases hlt : b < i.offset + length
      · refine ⟨i, ⟨List.mem_cons_self, hcovers.2 hlt⟩, ?_⟩
        rintro j ⟨hj, other, -, hle, -⟩
        rcases List.mem_cons.1 hj with rfl | hj
        · rfl
        · -- the others start behind the byte
          have hbehind := hrest.start_le_offset j hj
          omega
      · obtain ⟨j, ⟨hj, hjcovers⟩, hunique⟩ := ih (by omega)
        refine ⟨j, ⟨List.mem_cons_of_mem _ hj, hjcovers⟩, ?_⟩
        rintro k ⟨hk, hkcovers⟩
        rcases List.mem_cons.1 hk with rfl | hk
        · exact absurd (hcovers.1 hkcovers) hlt
        · exact hunique k ⟨hk, hkcovers⟩

theorem tiling (h : Tiles code 0 l) : Tiling code l where
  starts := h.exists_head?
  increases := h.pairwise_offset
  adjoins := h.isChain
  ends := h.getLast?_ends
  lies := h.offset_lt_size
  covers _ hb := h.existsUnique_covers (Nat.zero_le _) hb

end Tiles

theorem failsOnly_instructionAt {offset : Nat} {opcode : UInt8}
    (hopcode : code[offset]? = some opcode) :
    FailsOnly (fun e => ∀ cause, e = .code cause → cause.isOverrun = false)
      (instructionAt pool code offset opcode) := by
  rw [instructionAt]
  refine FailsOnly.bind ?_ fun length hlength => ?_
  · refine (failsOnly_lengthAt hopcode).mapError ?_
    rintro e he _ ⟨⟩
    exact he
  · rw [ofCode, mapError_eq_ok_iff] at hlength
    split
    · apply FailsOnly.error
      rintro _ ⟨⟩
      rfl
    · next hinside =>
        refine FailsOnly.bind ?_ fun operation _ => .ok _ _
        intro e he cause hcause
        obtain ⟨lookup, hlookup⟩ := failsOnly_operationAt pool hopcode hlength (by omega) e he
        cases hcause.symm.trans hlookup

/-- Decoding a code array ends. It never reads behind the end of the code, an instruction that
lies inside the code has its operand there, and the instructions it finds tile the code. -/
theorem instructions_tile (pool : ConstantPool) (code : Bytes) :
    (∀ r, Decodes pool code 0 r ↔ r = instructions pool code) ∧
    (∀ cause, instructions pool code = .error (.code cause) → cause.isOverrun = false) ∧
    (∀ l, instructions pool code = .ok l → Tiling code l) ∧
    ∀ offset opcode length, code[offset]? = some opcode → lengthAt code offset = .ok length →
      offset + length ≤ code.size →
        ∀ cause, operationAt pool code offset opcode ≠ .error (.code cause) := by
  have hdecodes : Decodes pool code 0 (instructions pool code) := (decodes_iff pool code _).2 rfl
  refine ⟨decodes_iff pool code, ?_, ?_, ?_⟩
  · intro cause hcause
    obtain ⟨offset, opcode, hopcode, hfail⟩ := hdecodes.exists_of_error hcause
    exact failsOnly_instructionAt hopcode _ hfail cause rfl
  · intro l hl
    exact (hdecodes.tiles (Nat.zero_le _) hl).tiling
  · intro offset opcode length hopcode hlength hinside cause hcause
    obtain ⟨lookup, hlookup⟩ := failsOnly_operationAt pool hopcode hlength hinside _ hcause
    cases hlookup

def shapePool : ConstantPool := #[.empty, .utf8 "app/Shape", .classInfo 1]

/-- A construction, a switch behind it that needs no padding, and a return. -/
def shapeSwitch : Bytes :=
  #[0xbb, 0, 2, 0xaa, 0, 0, 0, 21, 0, 0, 0, 0, 0, 0, 0, 1, 0, 0, 0, 21, 0, 0, 0, 21, 0xb1]

theorem instructions_tile_shapeSwitch :
    instructions shapePool shapeSwitch =
        .ok [⟨0, .new "app/Shape"⟩, ⟨3, .other 0xaa⟩, ⟨24, .other 0xb1⟩] ∧
      Tiling shapeSwitch [⟨0, .new "app/Shape"⟩, ⟨3, .other 0xaa⟩, ⟨24, .other 0xb1⟩] ∧
      (∀ cause, operationAt shapePool shapeSwitch 0 Opcode.new ≠ .error (.code cause)) ∧
      instructions shapePool #[0xbb, 0] = .error (.code (.badLength 0)) ∧
      (CodeError.badLength 0).isOverrun = false := by
  have hok : instructions shapePool shapeSwitch =
      .ok [⟨0, .new "app/Shape"⟩, ⟨3, .other 0xaa⟩, ⟨24, .other 0xb1⟩] := rfl
  have hcut : instructions shapePool #[0xbb, 0] = .error (.code (.badLength 0)) := rfl
  obtain ⟨-, -, htiling, hoperand⟩ := instructions_tile shapePool shapeSwitch
  exact ⟨hok, htiling _ hok, hoperand 0 Opcode.new 3 rfl rfl (by decide), hcut,
    (instructions_tile shapePool #[0xbb, 0]).2.1 _ hcut⟩

end JvmReach.ClassFile.Code
