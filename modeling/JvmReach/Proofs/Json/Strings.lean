import JvmReach.Json.Reader
import JvmReach.Json.Printer
import JvmReach.Proofs.Json.Grammar
import JvmReach.Proofs.Text.Utf8

/-!
# Strings read back

However a string is written, its escapes stand for the characters that were escaped, and
everything else stands for itself. So the string is read back, up to its closing quote. A
printed string is one way of writing it.
-/

namespace JvmReach.Json

open Text

namespace Quoted

theorem prepend_nil (r : Except Fault (List UInt8 × List UInt8)) : prepend [] r = r := by
  cases r <;> rfl

theorem prepend_prepend (a b : List UInt8) (r : Except Fault (List UInt8 × List UInt8)) :
    prepend a (prepend b r) = prepend (a ++ b) r := by
  cases r with
  | error fault => rfl
  | ok x =>
      exact congrArg (fun content => Except.ok (content, x.2)) (List.append_assoc a b x.1).symm

/-- A byte that stands for itself. -/
def IsPlain (b : UInt8) : Prop := b ≠ quote ∧ b ≠ backslash ∧ ¬ b < 0x20

/-- No byte from `0x80` on means anything by itself. -/
theorem isPlain_of_le {b : UInt8} (h : 0x80 ≤ b) : IsPlain b := by
  have hb : 0x80 ≤ b.toNat := UInt8.le_iff_toNat_le.1 h
  refine ⟨?_, ?_, ?_⟩
  · rintro rfl
    exact absurd hb (by decide)
  · rintro rfl
    exact absurd hb (by decide)
  · rw [UInt8.lt_iff_toNat_lt]
    exact Nat.not_lt.2 (Nat.le_trans (by decide) hb)

theorem isPlain_of_mem_utf8EncodeChar {c : Char} (hcontrol : 0x20 ≤ c.toNat) (hquote : c ≠ '"')
    (hbackslash : c ≠ '\\') : ∀ b ∈ String.utf8EncodeChar c, IsPlain b := by
  intro b hb
  by_cases hascii : c.toNat < 0x80
  · rw [utf8EncodeChar_of_lt hascii, List.mem_singleton] at hb
    rw [hb]
    have hne : ∀ d : Char, d.toNat < 0x80 → c ≠ d → UInt8.ofNat c.toNat ≠ UInt8.ofNat d.toNat :=
      fun d hd hne h => hne (eq_of_ofNat_toNat_eq hascii hd h)
    refine ⟨hne '"' (by decide) hquote, hne '\\' (by decide) hbackslash, ?_⟩
    rw [UInt8.lt_iff_toNat_lt, toNat_ofNat_toNat hascii]
    exact Nat.not_lt.2 hcontrol
  · exact isPlain_of_le (le_of_mem_utf8EncodeChar (Nat.not_lt.1 hascii) hb)

theorem readFrom_append_of_isPlain {bs : List UInt8} (h : ∀ b ∈ bs, IsPlain b)
    (rest : List UInt8) :
    readFrom .plain (bs ++ rest) = prepend bs (readFrom .plain rest) := by
  induction bs with
  | nil => exact (prepend_nil _).symm
  | cons b bs ih =>
      obtain ⟨⟨hquote, hbackslash, hcontrol⟩, hbs⟩ := List.forall_mem_cons.1 h
      rw [List.cons_append, readFrom, if_neg hquote, if_neg hbackslash, if_neg hcontrol, ih hbs,
        prepend_prepend]
      rfl

/-- A short escape takes two bytes, and the second one is not the letter of the long ones. -/
theorem exists_of_mem_shortEscapes {letter c : Char} (h : (letter, c) ∈ shortEscapes) :
    ∃ b b', utf8 ['\\', letter] = [backslash, b] ∧ b ≠ letterU ∧ shortEscape? b = some b' ∧
      String.utf8EncodeChar c = [b'] := by
  have hall : ∀ e ∈ shortEscapes,
      utf8 ['\\', e.1] = [backslash, UInt8.ofNat e.1.toNat] ∧
        UInt8.ofNat e.1.toNat ≠ letterU ∧
        shortEscape? (UInt8.ofNat e.1.toNat) = some (UInt8.ofNat e.2.toNat) ∧
        String.utf8EncodeChar e.2 = [UInt8.ofNat e.2.toNat] := by decide
  exact ⟨_, _, hall (letter, c) h⟩

theorem readFrom_short {letter c : Char} (h : (letter, c) ∈ shortEscapes) (rest : List UInt8) :
    readFrom .plain (utf8 ['\\', letter] ++ rest) =
      prepend (String.utf8EncodeChar c) (readFrom .plain rest) := by
  obtain ⟨b, b', htext, hlong, hshort, hc⟩ := exists_of_mem_shortEscapes h
  have hescape : readFrom .plain (backslash :: b :: rest) = readFrom .escape (b :: rest) := rfl
  rw [htext, List.cons_append, List.singleton_append, hescape, readFrom, if_neg hlong, hshort, hc]

theorem hexDigit?_of_mem {d : Char × Nat} (h : d ∈ hexDigits) :
    ∃ b, String.utf8EncodeChar d.1 = [b] ∧ hexDigit? b = some d.2 := by
  have hall : ∀ d ∈ hexDigits, String.utf8EncodeChar d.1 = [UInt8.ofNat d.1.toNat] ∧
      hexDigit? (UInt8.ofNat d.1.toNat) = some d.2 := by decide
  exact ⟨_, hall d h⟩

theorem foldlM_hexDigit? {digits : List (Char × Nat)} (h : ∀ d ∈ digits, d ∈ hexDigits) (n : Nat) :
    ∃ bytes, utf8 (digits.map Prod.fst) = bytes ∧ bytes.length = digits.length ∧
      bytes.foldlM (fun n b => (hexDigit? b).map (16 * n + ·)) n =
        some (digits.foldl (fun n d => 16 * n + d.2) n) := by
  induction digits generalizing n with
  | nil => exact ⟨[], rfl, rfl, rfl⟩
  | cons d digits ih =>
      obtain ⟨hd, hdigits⟩ := List.forall_mem_cons.1 h
      obtain ⟨b, hb, hvalue⟩ := hexDigit?_of_mem hd
      obtain ⟨bytes, htext, hlength, hfold⟩ := ih hdigits (16 * n + d.2)
      refine ⟨b :: bytes, ?_, congrArg (· + 1) hlength, ?_⟩
      · rw [List.map_cons, utf8_cons, hb, htext]
        rfl
      · rw [List.foldlM_cons, hvalue]
        exact hfold

section Escapes

variable {n : Nat} {digits : List Char}

theorem exists_of_writesUnit (h : WritesUnit n digits) :
    ∃ a b c d, utf8 digits = [a, b, c, d] ∧ hexNumber? [a, b, c, d] = some n := by
  obtain ⟨digits, hdigits, hfour, rfl, rfl⟩ := h
  obtain ⟨bytes, htext, hlength, hnumber⟩ := foldlM_hexDigit? hdigits 0
  rw [hfour] at hlength
  match bytes, hlength with
  | [a, b, c, d], _ => exact ⟨a, b, c, d, htext, hnumber⟩

/-- Four digits are read as one number, which ends the escape or starts a pair. -/
theorem readFrom_unit (h : WritesUnit n digits) (high? : Option Nat) (rest : List UInt8) :
    readFrom (.hex high? []) (utf8 digits ++ rest) =
      match high? with
      | none =>
          if isHighSurrogate n then readFrom (.paired n) rest
          else if isLowSurrogate n then .error .malformed
          else prepend (encode n) (readFrom .plain rest)
      | some high =>
          if isLowSurrogate n then prepend (encode (pairValue high n)) (readFrom .plain rest)
          else .error .malformed := by
  obtain ⟨a, b, c, d, htext, hnumber⟩ := exists_of_writesUnit h
  rw [htext]
  simp only [List.cons_append, List.nil_append, readFrom, List.length_cons, List.length_nil,
    Nat.reduceAdd, Nat.reduceLT, if_true, if_false, hnumber]
  cases high? <;> rfl

theorem readFrom_escape (h : WritesUnit n digits) (rest : List UInt8) :
    readFrom .plain (utf8 ('\\' :: 'u' :: digits) ++ rest) =
      if isHighSurrogate n then readFrom (.paired n) rest
      else if isLowSurrogate n then .error .malformed
      else prepend (encode n) (readFrom .plain rest) :=
  readFrom_unit h none rest

theorem readFrom_paired_escape {high : Nat} (h : WritesUnit n digits) (rest : List UInt8) :
    readFrom (.paired high) (utf8 ('\\' :: 'u' :: digits) ++ rest) =
      if isLowSurrogate n then prepend (encode (pairValue high n)) (readFrom .plain rest)
      else .error .malformed :=
  readFrom_unit h (some high) rest

theorem utf8_pair_append (digits digits' : List Char) (rest : List UInt8) :
    utf8 ('\\' :: 'u' :: (digits ++ '\\' :: 'u' :: digits')) ++ rest =
      utf8 ('\\' :: 'u' :: digits) ++ (utf8 ('\\' :: 'u' :: digits') ++ rest) := by
  rw [← List.append_assoc, ← utf8_append]
  rfl

/-- No character is half of a surrogate pair. -/
theorem surrogates_of_char (c : Char) :
    isHighSurrogate c.toNat = false ∧ isLowSurrogate c.toNat = false := by
  have hvalid : c.toNat < 0xd800 ∨ 0xdfff < c.toNat ∧ c.toNat < 0x110000 := c.valid
  simp only [isHighSurrogate, isLowSurrogate, Bool.and_eq_false_iff, decide_eq_false_iff_not]
  omega

end Escapes

theorem readFrom_writesChar {c : Char} {cs : List Char} (h : WritesChar c cs) (rest : List UInt8) :
    readFrom .plain (utf8 cs ++ rest) =
      prepend (String.utf8EncodeChar c) (readFrom .plain rest) := by
  cases h with
  | plain hcontrol hquote hbackslash =>
      rw [utf8_cons, utf8_nil, List.append_nil]
      exact readFrom_append_of_isPlain
        (isPlain_of_mem_utf8EncodeChar hcontrol hquote hbackslash) rest
  | short h => exact readFrom_short h rest
  | unit h =>
      obtain ⟨hhigh, hlow⟩ := surrogates_of_char c
      rw [readFrom_escape h, hhigh, hlow, if_neg Bool.false_ne_true, if_neg Bool.false_ne_true,
        encode, Char.ofNat_toNat]
  | @pair _ high low _ _ hhigh hlow hc h h' =>
      have hisHigh : isHighSurrogate high = true := by simpa [isHighSurrogate] using hhigh
      have hisLow : isLowSurrogate low = true := by simpa [isLowSurrogate] using hlow
      have hvalue : pairValue high low = c.toNat := hc.symm
      rw [utf8_pair_append, readFrom_escape h, if_pos hisHigh, readFrom_paired_escape h',
        if_pos hisLow, hvalue, encode, Char.ofNat_toNat]

theorem readFrom_flatten {cs : List Char} {parts : List (List Char)}
    (h : List.Forall₂ WritesChar cs parts) (rest : List UInt8) :
    readFrom .plain (utf8 parts.flatten ++ quote :: rest) = .ok (utf8 cs, rest) := by
  induction h with
  | nil => rfl
  | cons hc _ ih =>
      rw [List.flatten_cons, utf8_append, List.append_assoc, readFrom_writesChar hc, ih]
      rfl

theorem utf8_quoted (parts : List (List Char)) :
    utf8 (quoted parts) = quote :: (utf8 parts.flatten ++ [quote]) := by
  have hquote : String.utf8EncodeChar '"' = [quote] := rfl
  simp [quoted, hquote]

theorem read_of_spells {s : String} {parts : List (List Char)}
    (h : List.Forall₂ WritesChar s.toList parts) (rest : List UInt8) :
    read (utf8 parts.flatten ++ quote :: rest) = .ok s := by
  rw [read, readFrom_flatten h]
  simp only [toByteArray_utf8, fromUTF8?_toUTF8]

end Quoted

section Printer

theorem hexDigit_mem_hexDigits {n : Nat} (h : n < 16) : (Document.hexDigit n, n) ∈ hexDigits := by
  have hall : ∀ n < 16, (Document.hexDigit n, n) ∈ hexDigits := by decide
  exact hall n h

theorem writesChar_escape (c : Char) : WritesChar c (Document.escape c) := by
  unfold Document.escape
  split
  · next h =>
      subst h
      exact .short (by decide)
  split
  · next h =>
      subst h
      exact .short (by decide)
  split
  · next hcontrol =>
      have hshort : ∀ {n letter}, c.toNat = n → (letter, Char.ofNat n) ∈ shortEscapes →
          WritesChar c ['\\', letter] := by
        rintro _ letter rfl h
        rw [Char.ofNat_toNat] at h
        exact .short h
      split
      · next h => exact hshort h (by decide)
      · next h => exact hshort h (by decide)
      · next h => exact hshort h (by decide)
      · next h => exact hshort h (by decide)
      · next h => exact hshort h (by decide)
      · refine .unit ⟨[('0', 0), ('0', 0), (Document.hexDigit (c.toNat / 16), c.toNat / 16),
          (Document.hexDigit (c.toNat % 16), c.toNat % 16)], ?_, rfl, rfl, ?_⟩
        · simp only [List.forall_mem_cons, List.not_mem_nil, false_imp_iff, implies_true, and_true]
          exact ⟨by decide, by decide, hexDigit_mem_hexDigits (by omega),
            hexDigit_mem_hexDigits (by omega)⟩
        · simp only [List.foldl_cons, List.foldl_nil]
          omega
  · next hquote hbackslash hcontrol => exact .plain (Nat.not_lt.1 hcontrol) hquote hbackslash

theorem writesString_quote (s : String) : WritesString s (Document.quote s) := by
  change Spells s (Document.quote s)
  refine ⟨s.toList.map Document.escape, ?_, ?_⟩
  · rw [List.forall₂_map_right_iff, List.forall₂_same]
    exact fun c _ => writesChar_escape c
  · rw [Document.quote, List.flatMap_def]
    rfl

end Printer

end JvmReach.Json
