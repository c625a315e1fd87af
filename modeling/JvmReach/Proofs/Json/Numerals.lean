import JvmReach.Json.Reader
import JvmReach.Proofs.Json.Grammar
import JvmReach.Proofs.Text.Utf8

/-!
# Numerals read back

A numeral is read as it was written if nothing behind it continues it.
-/

namespace JvmReach.Json

open Text

namespace Numeral

/-- Nothing that follows can be taken for a part of a numeral. -/
def EndsBefore (rest : List UInt8) : Prop :=
  ∀ b ∈ rest.head?, Byte.isDigit b = false ∧ b ≠ Byte.point ∧ Byte.isExponent b = false

/-- No digit follows. -/
def EndsDigits (rest : List UInt8) : Prop := ∀ b ∈ rest.head?, Byte.isDigit b = false

variable {rest : List UInt8}

theorem EndsBefore.endsDigits (h : EndsBefore rest) : EndsDigits rest := fun b hb => (h b hb).1

def digitByte (d : Nat) : UInt8 := UInt8.ofNat (0x30 + d)

theorem digitByte_of_lt {d : Nat} (h : d < 10) :
    String.utf8EncodeChar d.digitChar = [digitByte d] ∧ Byte.isDigit (digitByte d) = true ∧
      (digitByte d).toNat - 0x30 = d := by
  have hall : ∀ d < 10, String.utf8EncodeChar d.digitChar = [digitByte d] ∧
      Byte.isDigit (digitByte d) = true ∧ (digitByte d).toNat - 0x30 = d := by decide
  exact hall d h

theorem utf8_digitChars {ds : List Nat} (h : ∀ d ∈ ds, d < 10) :
    utf8 (digitChars ds) = ds.map digitByte := by
  induction ds with
  | nil => rfl
  | cons d ds ih =>
      obtain ⟨hd, hds⟩ := List.forall_mem_cons.1 h
      rw [digitChars, List.map_cons, utf8_cons, (digitByte_of_lt hd).1, ← digitChars, ih hds]
      rfl

theorem digits_append {ds : List Nat} (h : ∀ d ∈ ds, d < 10) (hrest : EndsDigits rest) :
    digits (utf8 (digitChars ds) ++ rest) = (ds, rest) := by
  have hdigits : ∀ b ∈ ds.map digitByte, Byte.isDigit b := by
    intro b hb
    obtain ⟨d, hd, rfl⟩ := List.mem_map.1 hb
    exact (digitByte_of_lt (h d hd)).2.1
  have hvalues : (ds.map digitByte).map (·.toNat - 0x30) = ds := by
    rw [List.map_map]
    exact (List.map_congr_left fun d hd => (digitByte_of_lt (h d hd)).2.2).trans (List.map_id ds)
  have hend : rest.takeWhile Byte.isDigit = [] ∧ rest.dropWhile Byte.isDigit = rest := by
    cases rest with
    | nil => exact ⟨rfl, rfl⟩
    | cons b rest => simp [hrest b rfl]
  rw [utf8_digitChars h, digits, List.takeWhile_append_of_pos hdigits,
    List.dropWhile_append_of_pos hdigits, hend.1, hend.2, List.append_nil, hvalues]

theorem digits1_append {ds : List Nat} (h : IsDigits ds) (hrest : EndsDigits rest) :
    digits1 (utf8 (digitChars ds) ++ rest) = .ok (ds, rest) := by
  rw [digits1, digits_append h.2 hrest]
  split
  · next hnil => exact absurd (Prod.ext_iff.1 hnil).1 h.1
  · next hnil => exact absurd (Prod.ext_iff.1 hnil).1 h.1
  · rfl

theorem parseWhole_append {ds : List Nat} (h : IsDigits ds) (hzero : ds.head? = some 0 → ds = [0])
    (hrest : EndsDigits rest) : parseWhole (utf8 (digitChars ds) ++ rest) = .ok (ds, rest) := by
  rw [parseWhole, digits1_append h hrest]
  split
  · next d ds' rest' heq =>
      injection heq with heq
      obtain ⟨rfl, -⟩ := Prod.ext_iff.1 heq
      cases hzero rfl
  · rfl

theorem parseFraction_append {ds : List Nat} {cs : List Char} (h : WritesFraction ds cs)
    (hrest : EndsDigits rest) (hpoint : rest.head? ≠ some Byte.point) :
    parseFraction (utf8 cs ++ rest) = .ok (ds, rest) := by
  cases h with
  | absent =>
      cases rest with
      | nil => rfl
      | cons b rest => exact if_neg fun hb => hpoint (congrArg some hb)
  | present hds => exact digits1_append hds hrest

theorem exists_utf8_digitChars {ds : List Nat} (h : IsDigits ds) :
    ∃ b bytes, utf8 (digitChars ds) = b :: bytes ∧ Byte.isDigit b := by
  obtain ⟨d, ds, rfl⟩ := List.exists_cons_of_ne_nil h.1
  exact ⟨_, _, utf8_digitChars h.2, (digitByte_of_lt (h.2 d List.mem_cons_self)).2.1⟩

theorem parseExponent_append {exponent? : Option (Bool × List Nat)} {cs : List Char}
    (h : WritesExponent exponent? cs) (hrest : EndsBefore rest) :
    parseExponent (utf8 cs ++ rest) = .ok (exponent?, rest) := by
  cases h with
  | absent =>
      cases rest with
      | nil => rfl
      | cons b rest =>
          rw [utf8_nil, List.nil_append, parseExponent, (hrest b rfl).2.2]
          rfl
  | @present letter isNegative sign ds hletter hsign hds =>
      obtain ⟨b, hb, hexponent⟩ :
          ∃ b, String.utf8EncodeChar letter = [b] ∧ Byte.isExponent b = true := by
        simp only [List.mem_cons, List.not_mem_nil, or_false] at hletter
        rcases hletter with rfl | rfl
        · exact ⟨0x65, rfl, rfl⟩
        · exact ⟨0x45, rfl, rfl⟩
      have hdigits := digits1_append hds hrest.endsDigits
      obtain ⟨c, bytes, hcons, hc⟩ := exists_utf8_digitChars hds
      rw [utf8_cons, hb, List.singleton_append, List.cons_append, parseExponent, if_pos hexponent,
        utf8_append, List.append_assoc]
      simp only [List.mem_cons, List.not_mem_nil, or_false, Prod.mk.injEq] at hsign
      rcases hsign with ⟨rfl, rfl⟩ | ⟨rfl, rfl⟩ | ⟨rfl, rfl⟩
      · have hminus : c ≠ Byte.minus := by
          rintro rfl
          cases hc
        have hplus : c ≠ Byte.plus := by
          rintro rfl
          cases hc
        rw [hcons, List.cons_append] at hdigits ⊢
        simp [hminus, hplus, hdigits, Except.map]
      · have hplus : utf8 ['+'] = [Byte.plus] := rfl
        have hne : Byte.plus ≠ Byte.minus := by decide
        simp [hplus, hne, hdigits, Except.map]
      · have hminus : utf8 ['-'] = [Byte.minus] := rfl
        simp [hminus, hdigits, Except.map]

theorem endsDigits_of_writesFraction {ds : List Nat} {cs : List Char} (h : WritesFraction ds cs)
    (hrest : EndsDigits rest) : EndsDigits (utf8 cs ++ rest) := by
  cases h with
  | absent => exact hrest
  | present hds =>
      rintro b ⟨⟩
      decide

theorem ends_of_writesExponent {exponent? : Option (Bool × List Nat)} {cs : List Char}
    (h : WritesExponent exponent? cs) (hrest : EndsBefore rest) :
    EndsDigits (utf8 cs ++ rest) ∧ (utf8 cs ++ rest).head? ≠ some Byte.point := by
  cases h with
  | absent => exact ⟨hrest.endsDigits, fun hpoint => (hrest _ hpoint).2.1 rfl⟩
  | present hletter hsign hds =>
      simp only [List.mem_cons, List.not_mem_nil, or_false] at hletter
      rcases hletter with rfl | rfl
      · exact ⟨fun b hb => by cases hb; decide, by rintro ⟨⟩⟩
      · exact ⟨fun b hb => by cases hb; decide, by rintro ⟨⟩⟩

/-- The first byte of a numeral. -/
def StartsNumeral (b : UInt8) : Prop := b = Byte.minus ∨ Byte.isDigit b

namespace StartsNumeral

variable {b c : UInt8}

theorem toNat_mem (h : StartsNumeral b) : 0x2d ≤ b.toNat ∧ b.toNat ≤ 0x39 := by
  rcases h with rfl | h
  · decide
  · simp [Byte.isDigit, UInt8.le_iff_toNat_le] at h
    omega

theorem ne (h : StartsNumeral b) (hc : ¬ (0x2d ≤ c.toNat ∧ c.toNat ≤ 0x39)) : b ≠ c := by
  rintro rfl
  exact hc h.toNat_mem

theorem isBlank_eq_false (h : StartsNumeral b) : Byte.isBlank b = false := by
  simp [Byte.isBlank, h.ne (c := 0x20) (by decide), h.ne (c := 0x09) (by decide),
    h.ne (c := 0x0a) (by decide), h.ne (c := 0x0d) (by decide)]

end StartsNumeral

theorem exists_cons_of_writesNumeral {n : Numeral} {cs : List Char} (h : WritesNumeral n cs) :
    ∃ b bytes, utf8 cs = b :: bytes ∧ StartsNumeral b := by
  obtain @⟨isNegative, _, _, _, _, _, hwhole, -, -, -⟩ := h
  cases isNegative with
  | true => exact ⟨Byte.minus, _, rfl, .inl rfl⟩
  | false =>
      obtain ⟨b, bytes, hcons, hdigit⟩ := exists_utf8_digitChars hwhole
      rw [if_neg Bool.false_ne_true, List.nil_append, utf8_append, hcons]
      exact ⟨b, _, rfl, .inr hdigit⟩

/-- A numeral is read up to its end. -/
theorem parse_append {n : Numeral} {cs : List Char} (h : WritesNumeral n cs)
    (hrest : EndsBefore rest) : parse (utf8 cs ++ rest) = .ok (n, rest) := by
  obtain @⟨isNegative, whole, fraction, exponent?, fractionText, exponentText, hwhole, hzero,
    hfraction, hexponent⟩ := h
  obtain ⟨hends, hpoint⟩ := ends_of_writesExponent hexponent hrest
  have hparts := parseWhole_append hwhole hzero (endsDigits_of_writesFraction hfraction hends)
  have hparts' := parseFraction_append hfraction hends hpoint
  have hparts'' := parseExponent_append hexponent hrest
  have htext : utf8 ((if isNegative then ['-'] else []) ++
      (digitChars whole ++ (fractionText ++ exponentText))) ++ rest =
        utf8 (if isNegative then ['-'] else []) ++ (utf8 (digitChars whole) ++
          (utf8 fractionText ++ (utf8 exponentText ++ rest))) := by simp
  rw [htext]
  cases isNegative with
  | true =>
      have hminus : utf8 (if true then ['-'] else []) = [Byte.minus] := rfl
      rw [hminus, List.singleton_append, parse, List.head?_cons, if_pos rfl, List.tail_cons, hparts]
      simp only [bind, Except.bind, hparts', hparts'', decide_true]
      rfl
  | false =>
      obtain ⟨b, bytes, hcons, hdigit⟩ := exists_utf8_digitChars hwhole
      have hminus : ¬ (utf8 (digitChars whole) ++
          (utf8 fractionText ++ (utf8 exponentText ++ rest))).head? = some Byte.minus := by
        rw [hcons]
        rintro ⟨⟩
        cases hdigit
      rw [if_neg Bool.false_ne_true, utf8_nil, List.nil_append, parse, if_neg hminus, hparts]
      simp only [bind, Except.bind, hparts', hparts'', hminus, decide_false]
      rfl

end Numeral

theorem Value.parseNumber_append {n : Numeral} {cs : List Char} (h : WritesNumeral n cs)
    {rest : List UInt8} (hrest : Numeral.EndsBefore rest) :
    parseNumber (utf8 cs ++ rest) = (.number n.value, some rest) := by
  rw [parseNumber, Numeral.parse_append h hrest]

end JvmReach.Json
