import JvmReach.Proofs.Except
import JvmReach.Proofs.Json.Strings

/-!
# Halves of surrogate pairs

One who skips a string minds the form of its escapes only, one who reads it also what they stand
for. An escape for the first half of a surrogate pair has to be followed by one for the second
half, and the second half by itself is no character. So a string that is written by the rules is
either read as the text that it stands for, or malformed when the first unpaired half is met; it
is skipped in any case.
-/

namespace JvmReach.Json

open Text

namespace Quoted

/-- What a string is read as. -/
def contentOf : Option String → Except Fault String
  | some s => .ok s
  | none => .error .malformed

section Skipping

theorem skipFrom_append_of_isPlain {bs : List UInt8} (h : ∀ b ∈ bs, IsPlain b)
    (rest : List UInt8) : skipFrom .plain (bs ++ rest) = skipFrom .plain rest := by
  induction bs with
  | nil => rfl
  | cons b bs ih =>
      obtain ⟨⟨hquote, hbackslash, hcontrol⟩, hbs⟩ := List.forall_mem_cons.1 h
      rw [List.cons_append, skipFrom, if_neg hquote, if_neg hbackslash, if_neg hcontrol, ih hbs]
      · simp
      · simp

theorem skipFrom_unit {n : Nat} {digits : List Char} (h : WritesUnit n digits)
    (rest : List UInt8) :
    skipFrom .plain (utf8 ('\\' :: 'u' :: digits) ++ rest) = skipFrom .plain rest := by
  obtain ⟨a, b, c, d, htext, hnumber⟩ := exists_of_writesUnit h
  have hescape : skipFrom .plain (utf8 ('\\' :: 'u' :: digits) ++ rest) =
      skipFrom (.hex none []) (utf8 digits ++ rest) := rfl
  rw [hescape, htext]
  simp only [List.cons_append, List.nil_append, skipFrom, List.length_cons, List.length_nil,
    Nat.reduceAdd, Nat.reduceLT, if_true, if_false, hnumber, Option.isSome_some]

theorem skipFrom_writesChar {c : Char} {cs : List Char} (h : WritesChar c cs)
    (rest : List UInt8) : skipFrom .plain (utf8 cs ++ rest) = skipFrom .plain rest := by
  cases h with
  | plain hcontrol hquote hbackslash =>
      rw [utf8_cons, utf8_nil, List.append_nil]
      exact skipFrom_append_of_isPlain
        (isPlain_of_mem_utf8EncodeChar hcontrol hquote hbackslash) rest
  | short h =>
      obtain ⟨b, b', htext, hlong, hshort, -⟩ := exists_of_mem_shortEscapes h
      have hescape : skipFrom .plain (backslash :: b :: rest) = skipFrom .escape (b :: rest) := rfl
      rw [htext, List.cons_append, List.singleton_append, hescape, skipFrom, if_neg hlong, hshort,
        if_pos Option.isSome_some]
  | unit h => exact skipFrom_unit h rest
  | pair _ _ _ h h' => rw [utf8_pair_append, skipFrom_unit h, skipFrom_unit h']

theorem skip_flatten {parts : List (List Char)} (h : ∀ part ∈ parts, WritesPiece part)
    (rest : List UInt8) : skip (utf8 parts.flatten ++ quote :: rest) = .ok rest := by
  rw [skip]
  induction parts with
  | nil => rfl
  | cons part parts ih =>
      obtain ⟨hpart, hparts⟩ := List.forall_mem_cons.1 h
      have hskip : ∀ bytes, skipFrom .plain (utf8 part ++ bytes) = skipFrom .plain bytes := by
        cases hpart with
        | char hc => exact skipFrom_writesChar hc
        | half _ hunit => exact skipFrom_unit hunit
      rw [List.flatten_cons, utf8_append, List.append_assoc, hskip, ih hparts]

end Skipping

section Reading

variable {n high : Nat} {digits : List Char}

/-- No character takes the place of the second half. -/
theorem readFrom_paired_writesChar {c : Char} {cs : List Char} (h : WritesChar c cs)
    (rest : List UInt8) : readFrom (.paired high) (utf8 cs ++ rest) = .error .malformed := by
  cases h with
  | plain hcontrol hquote hbackslash =>
      have hplain := isPlain_of_mem_utf8EncodeChar hcontrol hquote hbackslash
      rw [utf8_cons, utf8_nil, List.append_nil]
      cases hbytes : String.utf8EncodeChar c with
      | nil => simp at hbytes
      | cons b bytes =>
          rw [hbytes] at hplain
          exact if_neg (hplain b List.mem_cons_self).2.1
  | short h =>
      obtain ⟨b, b', htext, hlong, -, -⟩ := exists_of_mem_shortEscapes h
      have hescape : readFrom (.paired high) (backslash :: b :: rest) =
          readFrom (.pairedLetter high) (b :: rest) := rfl
      rw [htext, List.cons_append, List.singleton_append, hescape, readFrom, if_neg hlong]
  | unit h => rw [readFrom_paired_escape h, (surrogates_of_char c).2, if_neg Bool.false_ne_true]
  | @pair _ high' _ _ _ hhigh _ _ h _ =>
      have hlow : isLowSurrogate high' = false := by
        simp only [isLowSurrogate, Bool.and_eq_false_iff, decide_eq_false_iff_not]
        omega
      rw [utf8_pair_append, readFrom_paired_escape h, hlow, if_neg Bool.false_ne_true]

theorem exists_writesChar_pair {low : Nat} {digits' : List Char}
    (hhigh : 0xd800 ≤ high ∧ high < 0xdc00) (hlow : 0xdc00 ≤ low ∧ low < 0xe000)
    (h : WritesUnit high digits) (h' : WritesUnit low digits') :
    ∃ c, WritesChar c (('\\' :: 'u' :: digits) ++ ('\\' :: 'u' :: digits')) := by
  have hvalid : (pairValue high low).isValidChar := by
    refine .inr ⟨?_, ?_⟩ <;> (unfold pairValue; omega)
  exact ⟨Char.ofNatAux (pairValue high low) hvalid, .pair hhigh hlow rfl h h'⟩

/-- The pieces are characters, or reading stops at a half without the other one. -/
def ReadsPieces (parts : List (List Char)) : Prop :=
  (∃ cs texts, List.Forall₂ WritesChar cs texts ∧ texts.flatten = parts.flatten) ∨
    ∀ rest, readFrom .plain (utf8 parts.flatten ++ quote :: rest) = .error .malformed

theorem ReadsPieces.cons {c : Char} {text : List Char} {parts : List (List Char)}
    (hc : WritesChar c text) (h : ReadsPieces parts) : ReadsPieces (text :: parts) := by
  rcases h with ⟨cs, texts, htexts, hflatten⟩ | hmalformed
  · refine .inl ⟨c :: cs, text :: texts, .cons hc htexts, ?_⟩
    rw [List.flatten_cons, List.flatten_cons, hflatten]
  · refine .inr fun rest => ?_
    rw [List.flatten_cons, utf8_append, List.append_assoc, readFrom_writesChar hc, hmalformed rest]
    rfl

/-- A first half is paired with a second one behind it, or left alone. -/
theorem readsPieces_high (hhigh : 0xd800 ≤ high ∧ high < 0xdc00) (h : WritesUnit high digits)
    {parts : List (List Char)} (hparts : ∀ part ∈ parts, WritesPiece part)
    (ih : ReadsPieces parts.tail) : ReadsPieces (('\\' :: 'u' :: digits) :: parts) := by
  have hisHigh : isHighSurrogate high = true := by simpa [isHighSurrogate] using hhigh
  have hescape : ∀ bytes, readFrom .plain (utf8 ('\\' :: 'u' :: digits) ++ bytes) =
      readFrom (.paired high) bytes := by
    intro bytes
    rw [readFrom_escape h, if_pos hisHigh]
  cases parts with
  | nil =>
      refine .inr fun rest => ?_
      rw [List.flatten_cons, List.flatten_nil, List.append_nil, hescape]
      rfl
  | cons next parts =>
      have hstop : (∀ bytes, readFrom (.paired high) (utf8 next ++ bytes) = .error .malformed) →
          ReadsPieces (('\\' :: 'u' :: digits) :: next :: parts) := by
        intro hnext
        refine .inr fun rest => ?_
        rw [List.flatten_cons, List.flatten_cons, utf8_append, utf8_append, List.append_assoc,
          List.append_assoc, hescape, hnext]
      cases hparts next List.mem_cons_self with
      | char hc => exact hstop (readFrom_paired_writesChar hc)
      | @half low digits' hn h' =>
          by_cases hlow : 0xdc00 ≤ low
          · obtain ⟨c, hc⟩ := exists_writesChar_pair hhigh ⟨hlow, hn.2⟩ h h'
            have hcons := ih.cons hc
            rwa [ReadsPieces, List.flatten_cons, List.append_assoc, ← List.flatten_cons,
              ← List.flatten_cons] at hcons
          · refine hstop fun bytes => ?_
            rw [readFrom_paired_escape h', if_neg]
            simpa [isLowSurrogate] using fun h => absurd h hlow

/-- A second half by itself is no character. -/
theorem readsPieces_low (hlow : 0xdc00 ≤ n ∧ n < 0xe000) (h : WritesUnit n digits)
    (parts : List (List Char)) : ReadsPieces (('\\' :: 'u' :: digits) :: parts) := by
  refine .inr fun rest => ?_
  have hhigh : isHighSurrogate n = false := by
    simp only [isHighSurrogate, Bool.and_eq_false_iff, decide_eq_false_iff_not]
    omega
  have hisLow : isLowSurrogate n = true := by simpa [isLowSurrogate] using hlow
  rw [List.flatten_cons, utf8_append, List.append_assoc, readFrom_escape h, hhigh, hisLow,
    if_neg Bool.false_ne_true, if_pos rfl]

theorem readsPieces : (parts : List (List Char)) → (∀ part ∈ parts, WritesPiece part) →
    ReadsPieces parts ∧ ReadsPieces parts.tail
  | [], _ => ⟨.inl ⟨[], [], .nil, rfl⟩, .inl ⟨[], [], .nil, rfl⟩⟩
  | part :: parts, h => by
      obtain ⟨hpart, hparts⟩ := List.forall_mem_cons.1 h
      obtain ⟨ih, ihtail⟩ := readsPieces parts hparts
      refine ⟨?_, ih⟩
      cases hpart with
      | char hc => exact ih.cons hc
      | @half n digits hn hunit =>
          by_cases hlow : 0xdc00 ≤ n
          · exact readsPieces_low ⟨hlow, hn.2⟩ hunit parts
          · exact readsPieces_high ⟨hn.1, Nat.lt_of_not_le hlow⟩ hunit hparts ihtail

end Reading

/-- A string is read as far as it is a text, and skipped, up to its closing quote. -/
theorem exists_of_writesString {s? : Option String} {cs : List Char} (h : WritesString s? cs) :
    ∃ content, utf8 cs = quote :: content ∧
      ∀ rest, read (content ++ rest) = contentOf s? ∧ skip (content ++ rest) = .ok rest := by
  cases s? with
  | some s =>
      obtain ⟨parts, hparts, rfl⟩ := h
      refine ⟨_, utf8_quoted parts, fun rest => ?_⟩
      have hpieces : ∀ part ∈ parts, WritesPiece part := by
        intro part hpart
        obtain ⟨c, -, hc⟩ := (exists_mem_of_forall₂ hparts).2 part hpart
        exact .char hc
      rw [List.append_assoc, List.singleton_append]
      exact ⟨read_of_spells hparts rest, skip_flatten hpieces rest⟩
  | none =>
      obtain ⟨⟨parts, hparts, rfl⟩, hnone⟩ := h
      refine ⟨_, utf8_quoted parts, fun rest => ?_⟩
      rw [List.append_assoc, List.singleton_append]
      refine ⟨?_, skip_flatten hparts rest⟩
      rcases (readsPieces parts hparts).1 with ⟨cs, texts, htexts, hflatten⟩ | hmalformed
      · refine absurd ⟨texts, ?_, ?_⟩ (hnone (String.ofList cs))
        · rwa [String.toList_ofList]
        · rw [quoted, quoted, hflatten]
      · rw [read, hmalformed rest]
        rfl

end Quoted

end JvmReach.Json
