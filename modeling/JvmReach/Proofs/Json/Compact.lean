import JvmReach.Proofs.Json.Surrogates

/-!
# A text for every value

The shortest way to write a value: without white space, and with no more escapes than it
takes. There is nothing but its numerals that could keep a value from being written.
-/

namespace JvmReach.Json

namespace Numeral

def chars (n : Numeral) : List Char :=
  (if n.isNegative then ['-'] else []) ++ (digitChars n.whole ++
    ((if n.fraction = [] then [] else '.' :: digitChars n.fraction) ++
      match n.exponent? with
      | none => []
      | some (isNegative, ds) => 'e' :: ((if isNegative then ['-'] else []) ++ digitChars ds)))

/-- Only the letter and the sign of an exponent leave a choice. -/
theorem writesNumeral_chars {n : Numeral} {cs : List Char} (h : WritesNumeral n cs) :
    WritesNumeral n n.chars := by
  obtain ⟨hwhole, hzero, hfraction, hexponent⟩ := h
  refine .mk hwhole hzero ?_ ?_
  · cases hfraction with
    | absent => exact .absent
    | present hds =>
        rw [if_neg hds.1]
        exact .present hds
  · cases hexponent with
    | absent => exact .absent
    | @present _ isNegative _ _ _ _ hds =>
        exact .present (by decide) (by cases isNegative <;> decide) hds

end Numeral

namespace Tree

mutual

def numerals : Tree → List Numeral
  | .number n => [n]
  | .array items => numeralsItems items
  | .object members => numeralsMembers members
  | _ => []

def numeralsItems : List Tree → List Numeral
  | [] => []
  | t :: rest => t.numerals ++ numeralsItems rest

def numeralsMembers : List (Option String × Tree) → List Numeral
  | [] => []
  | (_, t) :: rest => t.numerals ++ numeralsMembers rest

end

/-- A string that is no text is written as half of a surrogate pair. -/
def quote : Option String → List Char
  | some s => Document.quote s
  | none => quoted [['\\', 'u', 'd', '8', '0', '0']]

mutual

def chars : Tree → List Char
  | .null => ['n', 'u', 'l', 'l']
  | .bool true => ['t', 'r', 'u', 'e']
  | .bool false => ['f', 'a', 'l', 's', 'e']
  | .number n => n.chars
  | .string s? => quote s?
  | .array items => '[' :: (charsItems items ++ [']'])
  | .object members => '\x7b' :: (charsMembers members ++ ['\x7d'])

def charsItems : List Tree → List Char
  | [] => []
  | [t] => t.chars
  | t :: rest => t.chars ++ ',' :: charsItems rest

def charsMembers : List (Option String × Tree) → List Char
  | [] => []
  | [(key?, t)] => quote key? ++ ':' :: t.chars
  | (key?, t) :: rest => (quote key? ++ ':' :: t.chars) ++ ',' :: charsMembers rest

end

theorem writesPadded_of_writes {t : Tree} {cs : List Char} (h : Writes t cs) :
    WritesPadded t cs := by
  have hpadded : WritesPadded t ([] ++ (cs ++ [])) := .mk isBlank_nil h isBlank_nil
  simpa using hpadded

theorem writesString_quote : (s? : Option String) → WritesString s? (quote s?)
  | some s => Json.writesString_quote s
  | none => by
      have hunit : WritesUnit 0xd800 ['d', '8', '0', '0'] :=
        ⟨[('d', 13), ('8', 8), ('0', 0), ('0', 0)], by decide, rfl, rfl, rfl⟩
      refine ⟨⟨_, ?_, rfl⟩, fun s hs => ?_⟩
      · rw [List.forall_mem_singleton]
        exact .half (by decide) hunit
      -- what could be written so would be read as a text
      · have hstring : WritesString (some s) (quote none) := hs
        obtain ⟨content, htext, hcontent⟩ := Quoted.exists_of_writesString hstring
        obtain ⟨hread, -⟩ := hcontent []
        cases htext
        cases hread

theorem writesMember_of_writes {key? : Option String} {t : Tree} {cs : List Char}
    (h : Writes t cs) : WritesMember key? t (quote key? ++ ':' :: cs) :=
  .mk isBlank_nil (writesString_quote key?) isBlank_nil (writesPadded_of_writes h)

mutual

theorem writes_chars : (t : Tree) → (∀ n ∈ t.numerals, ∃ cs, WritesNumeral n cs) →
    Writes t t.chars
  | .null, _ => .null
  | .bool true, _ => .true
  | .bool false, _ => .false
  | .number n, h => by
      obtain ⟨cs, hcs⟩ := h n List.mem_cons_self
      exact .number (Numeral.writesNumeral_chars hcs)
  | .string s?, _ => .string (writesString_quote s?)
  | .array items, h => .array (writesItems_chars items h)
  | .object members, h => .object (writesMembers_chars members h)

theorem writesItems_chars : (items : List Tree) →
    (∀ n ∈ numeralsItems items, ∃ cs, WritesNumeral n cs) → WritesItems items (charsItems items)
  | [], _ => .none isBlank_nil
  | [t], h =>
      .last (writesPadded_of_writes (writes_chars t fun n hn => h n (List.mem_append_left _ hn)))
  | t :: t' :: rest, h =>
      .cons (writesPadded_of_writes (writes_chars t fun n hn => h n (List.mem_append_left _ hn)))
        (writesItems_chars (t' :: rest) fun n hn => h n (List.mem_append_right _ hn))

theorem writesMembers_chars : (members : List (Option String × Tree)) →
    (∀ n ∈ numeralsMembers members, ∃ cs, WritesNumeral n cs) →
      WritesMembers members (charsMembers members)
  | [], _ => .none isBlank_nil
  | [(_, t)], h =>
      .last (writesMember_of_writes (writes_chars t fun n hn => h n (List.mem_append_left _ hn)))
  | (_, t) :: m :: rest, h =>
      .cons (writesMember_of_writes (writes_chars t fun n hn => h n (List.mem_append_left _ hn)))
        (writesMembers_chars (m :: rest) fun n hn => h n (List.mem_append_right _ hn))

end

end Tree

end JvmReach.Json
