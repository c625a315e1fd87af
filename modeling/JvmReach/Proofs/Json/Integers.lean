import JvmReach.Proofs.Json.Grammar

/-!
# Integers and their numerals

An integer is printed as the numeral of its decimal digits, and the number of that numeral is
the integer again if it fits a 64-bit word, signed or unsigned.
-/

namespace JvmReach.Json

namespace Numeral

/-- The values of the decimal digits of a number. -/
def decimal (n : Nat) : List Nat := (Nat.toDigits 10 n).map (·.toNat - '0'.toNat)

theorem decimal_ne_nil (n : Nat) : decimal n ≠ [] := by
  simp [decimal]

theorem decimal_of_lt {n : Nat} (h : n < 10) : decimal n = [n] := by
  simp [decimal, Nat.toDigits_of_lt_base h, Nat.toNat_digitChar_sub_48_of_lt_ten h]

theorem decimal_of_le {n : Nat} (h : 10 ≤ n) : decimal n = decimal (n / 10) ++ [n % 10] := by
  have hdigit : (n % 10).digitChar.toNat - '0'.toNat = n % 10 :=
    Nat.toNat_digitChar_sub_48_of_lt_ten (Nat.mod_lt n (by decide))
  rw [decimal, Nat.toDigits_of_base_le (by decide) h, List.map_append, List.map_singleton,
    hdigit, decimal]

/-- No number but zero starts with a zero: its first digit is that of a tenth of it. -/
theorem head?_decimal_ne_zero {n : Nat} (h : 0 < n) : (decimal n).head? ≠ some 0 := by
  induction n using Nat.strongRecOn with
  | ind n ih =>
      rcases Nat.lt_or_ge n 10 with hn | hn
      · rw [decimal_of_lt hn, List.head?_cons, ne_eq, Option.some.injEq]
        exact Nat.ne_of_gt h
      · have htenth := ih (n / 10) (by omega) (by omega)
        obtain ⟨d, ds, hcons⟩ := List.exists_cons_of_ne_nil (decimal_ne_nil (n / 10))
        rw [hcons] at htenth
        rwa [decimal_of_le hn, hcons]

theorem decimal_ne_leadingZero {n d : Nat} {ds : List Nat} : decimal n ≠ 0 :: d :: ds := by
  intro h
  by_cases hn : n = 0
  · rw [hn, decimal_of_lt (by decide)] at h
    cases h
  · exact head?_decimal_ne_zero (Nat.pos_of_ne_zero hn) (by rw [h]; rfl)

theorem le_foldl_digits (s : Nat) (ds : List Nat) : s ≤ ds.foldl (fun s d => s * 10 + d) s := by
  induction ds generalizing s with
  | nil => exact Nat.le_refl s
  | cons d ds ih =>
      have := ih (s * 10 + d)
      rw [List.foldl_cons]
      omega

/-- Digits whose number fits are all taken. -/
theorem accumulate_of_lt {s : Nat} {ds : List Nat}
    (h : ds.foldl (fun s d => s * 10 + d) s < wordSize) :
    accumulate s ds = (ds.foldl (fun s d => s * 10 + d) s, []) := by
  induction ds generalizing s with
  | nil => rfl
  | cons d ds ih =>
      rw [List.foldl_cons] at h ⊢
      rw [accumulate, if_pos (Nat.lt_of_le_of_lt (le_foldl_digits _ _) h), ih h]

theorem accumulate_decimal {n : Nat} (h : n < wordSize) : accumulate 0 (decimal n) = (n, []) := by
  have hfold : (decimal n).foldl (fun s d => s * 10 + d) 0 = n := by
    simp only [decimal, List.foldl_map, Nat.mul_comm _ 10]
    exact Nat.ofDigitChars_ten_toDigits
  rw [accumulate_of_lt (by rw [hfold]; exact h), hfold]

theorem isDigit_of_mem_toDigits {n : Nat} {c : Char} (hc : c ∈ Nat.toDigits 10 n) : c.isDigit :=
  Nat.isDigit_of_mem_toDigits (by decide) (by decide) hc

theorem toNat_of_isDigit {c : Char} (h : c.isDigit) : 0x30 ≤ c.toNat ∧ c.toNat ≤ 0x39 := by
  simpa [Char.isDigit, UInt32.le_iff_toNat_le] using h

theorem digitChar_toNat_sub {c : Char} (h : c.isDigit) : (c.toNat - '0'.toNat).digitChar = c := by
  obtain ⟨hle, hge⟩ := toNat_of_isDigit h
  have hzero : '0'.toNat = 0x30 := rfl
  refine Char.toNat_inj.1 ?_
  rw [Nat.toNat_digitChar_of_lt_ten (by omega)]
  omega

theorem digitChars_decimal (n : Nat) : digitChars (decimal n) = Nat.toDigits 10 n := by
  rw [digitChars, decimal, List.map_map]
  exact (List.map_congr_left fun c hc => digitChar_toNat_sub (isDigit_of_mem_toDigits hc)).trans
    (List.map_id _)

theorem isDigits_decimal (n : Nat) : IsDigits (decimal n) := by
  refine ⟨decimal_ne_nil n, fun d hd => ?_⟩
  obtain ⟨c, hc, rfl⟩ := List.mem_map.1 hd
  have := toNat_of_isDigit (isDigit_of_mem_toDigits hc)
  have hzero : '0'.toNat = 0x30 := rfl
  omega

theorem decimal_eq_zero_of_head? {n : Nat} (h : (decimal n).head? = some 0) : decimal n = [0] := by
  obtain ⟨d, ds, hcons⟩ := List.exists_cons_of_ne_nil (decimal_ne_nil n)
  rw [hcons] at h ⊢
  cases h
  cases ds with
  | nil => rfl
  | cons d ds => exact absurd hcons decimal_ne_leadingZero

theorem value_natural {n : Nat} (h : n < wordSize) :
    value ⟨false, decimal n, [], none⟩ = .ok (.natural n) := by
  rw [value, integer?, accumulate_decimal h]
  rfl

theorem value_negative {n : Nat} (hpos : 0 < n) (h : n ≤ 0x8000000000000000) :
    value ⟨true, decimal n, [], none⟩ = .ok (.negative n) := by
  rw [value, integer?, accumulate_decimal (Nat.lt_of_le_of_lt h (by decide))]
  simp [hpos, h]

end Numeral

/-- Integers are kept by their sign. -/
def Number.ofInt : Int → Number
  | .ofNat n => .natural n
  | .negSucc n => .negative (n + 1)

/-- An integer fits a 64-bit word, signed or unsigned. -/
def FitsWord (i : Int) : Prop := -0x8000000000000000 ≤ i ∧ i < 0x10000000000000000

theorem toList_toString_natural (n : Nat) :
    (toString (Int.ofNat n)).toList = Nat.toDigits 10 n :=
  Nat.toList_repr

theorem toList_toString_negative (n : Nat) :
    (toString (Int.negSucc n)).toList = '-' :: Nat.toDigits 10 (n + 1) := by
  rw [Int.toString_eq_repr, Int.repr, String.toList_append, Nat.toList_repr]
  rfl

/-- An integer as it is printed. -/
def Numeral.ofInt : Int → Numeral
  | .ofNat n => ⟨false, decimal n, [], none⟩
  | .negSucc n => ⟨true, decimal (n + 1), [], none⟩

theorem writesNumeral_toString (i : Int) : WritesNumeral (.ofInt i) (toString i).toList := by
  cases i with
  | ofNat n =>
      have h : WritesNumeral ⟨false, Numeral.decimal n, [], none⟩ _ :=
        .mk (Numeral.isDigits_decimal n) Numeral.decimal_eq_zero_of_head? .absent .absent
      rwa [Numeral.digitChars_decimal, List.append_nil, List.append_nil,
        ← toList_toString_natural] at h
  | negSucc n =>
      have h : WritesNumeral ⟨true, Numeral.decimal (n + 1), [], none⟩ _ :=
        .mk (Numeral.isDigits_decimal (n + 1)) Numeral.decimal_eq_zero_of_head? .absent .absent
      rwa [Numeral.digitChars_decimal, List.append_nil, List.append_nil, if_pos rfl,
        List.singleton_append, ← toList_toString_negative] at h

theorem Numeral.value_ofInt {i : Int} (hi : FitsWord i) :
    (Numeral.ofInt i).value = .ok (.ofInt i) := by
  cases i with
  | ofNat n => exact value_natural (Int.ofNat_lt.1 hi.2)
  | negSucc n =>
      have hn : n + 1 ≤ 0x8000000000000000 := by
        have := hi.1
        omega
      exact value_negative (Nat.succ_pos n) hn

end JvmReach.Json
