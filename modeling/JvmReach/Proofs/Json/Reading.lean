import JvmReach.Proofs.Json.Numerals
import JvmReach.Proofs.Json.Surrogates
import Mathlib.Data.List.DropRight

/-!
# Values read back

However a value is written, reading the text gives the value, and whatever stands behind the
text is left.
-/

namespace JvmReach.Json

open Text

mutual

/-- The value that a text is read as. -/
def Tree.value : Tree → Value
  | null => .null
  | bool b => .bool b
  | number n => .number n.value
  | string s? => .string (Quoted.contentOf s?)
  | array items => .array (Tree.valueItems items)
  | object members => .object (Tree.valueMembers members)
termination_by structural t => t

def Tree.valueItems : List Tree → Items
  | [] => .closed
  | t :: rest => .cons t.value (Tree.valueItems rest)
termination_by structural items => items

def Tree.valueMembers : List (Option String × Tree) → Members
  | [] => .closed
  | (key?, t) :: rest => .cons (Quoted.contentOf key?) t.value (Tree.valueMembers rest)
termination_by structural members => members

end

theorem skipBlanks_cons {b : UInt8} (hb : Byte.isBlank b = false) (bytes : List UInt8) :
    skipBlanks (b :: bytes) = b :: bytes := by
  rw [skipBlanks, List.dropWhile_cons, hb]
  rfl

theorem utf8_of_isBlank {cs : List Char} (h : IsBlank cs) :
    ∃ bytes, utf8 cs = bytes ∧ ∀ b ∈ bytes, Byte.isBlank b := by
  refine ⟨_, rfl, ?_⟩
  intro b hb
  obtain ⟨c, hc, hb⟩ := List.mem_flatMap.1 hb
  have hall : [' ', '\t', '\n', '\r'].all
      (fun c => (String.utf8EncodeChar c).all Byte.isBlank) = true := by
    decide
  exact List.all_eq_true.1 (List.all_eq_true.1 hall c (h c hc)) b hb

theorem skipBlanks_append {cs : List Char} (h : IsBlank cs) (bytes : List UInt8) :
    skipBlanks (utf8 cs ++ bytes) = skipBlanks bytes := by
  obtain ⟨blanks, hblanks, hall⟩ := utf8_of_isBlank h
  rw [hblanks, skipBlanks, List.dropWhile_append_of_pos hall]
  rfl

theorem skipBlanks_skipBlanks (bytes : List UInt8) :
    skipBlanks (skipBlanks bytes) = skipBlanks bytes :=
  List.dropWhile_idempotent Byte.isBlank bytes

/-- White space ends every numeral. -/
theorem endsBefore_append {cs : List Char} (h : IsBlank cs) {rest : List UInt8}
    (hrest : Numeral.EndsBefore rest) : Numeral.EndsBefore (utf8 cs ++ rest) := by
  cases cs with
  | nil => exact hrest
  | cons c cs =>
      have hall : ∀ c ∈ [' ', '\t', '\n', '\r'], ∀ bytes,
          Numeral.EndsBefore (String.utf8EncodeChar c ++ bytes) := by
        simp only [List.forall_mem_cons, List.not_mem_nil, false_imp_iff, implies_true, and_true]
        refine ⟨?_, ?_, ?_, ?_⟩ <;> (rintro bytes b ⟨⟩; decide)
      rw [utf8_cons, List.append_assoc]
      exact hall c (h c List.mem_cons_self) _

/-- A text that starts with a value: neither blank nor the end of an array. -/
def StartsValue (bytes : List UInt8) : Prop :=
  ∃ b rest, bytes = b :: rest ∧ Byte.isBlank b = false ∧ b ≠ Byte.closeBracket

theorem StartsValue.length_pos {bytes : List UInt8} (h : StartsValue bytes) :
    0 < bytes.length := by
  obtain ⟨b, bytes, rfl, _⟩ := h
  exact Nat.succ_pos _

theorem startsValue_of_writes {t : Tree} {cs : List Char} (h : Writes t cs) :
    StartsValue (utf8 cs) := by
  cases h with
  | null => exact ⟨0x6e, _, rfl, by decide⟩
  | true => exact ⟨0x74, _, rfl, by decide⟩
  | false => exact ⟨0x66, _, rfl, by decide⟩
  | number h =>
      obtain ⟨b, bytes, htext, hb⟩ := Numeral.exists_cons_of_writesNumeral h
      exact ⟨b, bytes, htext, hb.isBlank_eq_false, hb.ne (by decide)⟩
  | string h =>
      obtain ⟨content, htext, -⟩ := Quoted.exists_of_writesString h
      exact ⟨Quoted.quote, content, htext, by decide⟩
  | array h => exact ⟨Byte.openBracket, _, rfl, by decide⟩
  | object h => exact ⟨Byte.openBrace, _, rfl, by decide⟩

namespace Value

variable {bound : Nat} {bytes rest rest' : List UInt8}

theorem parseWithin_skipBlanks (bound : Nat) (bytes : List UInt8) :
    parseWithin bound (skipBlanks bytes) = parseWithin bound bytes := by
  cases bound with
  | zero => rfl
  | succ bound => rw [parseWithin, parseWithin, skipBlanks_skipBlanks]

theorem parseItem_skipBlanks (bound : Nat) (bytes : List UInt8) :
    parseItem bound (skipBlanks bytes) = parseItem bound bytes := by
  cases bound with
  | zero => rfl
  | succ bound => rw [parseItem, parseItem, parseWithin_skipBlanks]

theorem parseWithin_scalar {b : UInt8} (hblank : Byte.isBlank b = false)
    (hbracket : b ≠ Byte.openBracket) (hbrace : b ≠ Byte.openBrace) (bytes : List UInt8) :
    parseWithin (bound + 1) (b :: bytes) = parseScalar b bytes := by
  rw [parseWithin, skipBlanks_cons hblank]
  simp only [if_neg hbracket, if_neg hbrace]

theorem parseWithin_openBracket {items : Items}
    (h : parseItems bound true bytes = (items, some rest)) :
    parseWithin (bound + 1) (Byte.openBracket :: bytes) = (.array items, some rest) := by
  rw [parseWithin, skipBlanks_cons rfl]
  simp only [if_pos, h]

theorem parseWithin_openBrace {members : Members}
    (h : parseMembers bound true bytes = (members, some rest)) :
    parseWithin (bound + 1) (Byte.openBrace :: bytes) = (.object members, some rest) := by
  rw [parseWithin, skipBlanks_cons rfl]
  simp only [if_neg (show ¬ Byte.openBrace = Byte.openBracket by decide), if_pos, h]

theorem parseItems_closed (isFirst : Bool) (h : skipBlanks bytes = Byte.closeBracket :: rest) :
    parseItems (bound + 1) isFirst bytes = (.closed, some rest) := by
  rw [parseItems, h]
  simp only [if_pos]

theorem parseMembers_closed (isFirst : Bool) (h : skipBlanks bytes = Byte.closeBrace :: rest) :
    parseMembers (bound + 1) isFirst bytes = (.closed, some rest) := by
  rw [parseMembers, h]
  simp only [if_pos]

theorem parseItems_first (h : StartsValue (skipBlanks bytes)) :
    parseItems (bound + 1) true bytes = parseItem bound bytes := by
  rw [← parseItem_skipBlanks]
  obtain ⟨b, tail, hcons, hblank, hclose⟩ := h
  rw [parseItems, hcons]
  simp only [if_neg hclose, if_pos]

theorem parseItems_next (hcomma : skipBlanks bytes = Byte.comma :: rest)
    (h : StartsValue (skipBlanks rest)) :
    parseItems (bound + 1) false bytes = parseItems (bound + 1) true rest := by
  rw [parseItems_first h, ← parseItem_skipBlanks]
  obtain ⟨b, tail, hcons, hblank, hclose⟩ := h
  rw [parseItems, hcomma]
  simp only [if_neg (show ¬ Byte.comma = Byte.closeBracket by decide), Bool.false_eq_true,
    if_false, if_pos, hcons, if_neg hclose]

theorem parseItem_cons {head : Value} {tail : Items}
    (hhead : parseWithin bound bytes = (head, some rest))
    (htail : parseItems bound false rest = (tail, some rest')) :
    parseItem (bound + 1) bytes = (.cons head tail, some rest') := by
  simp only [parseItem, hhead, htail]

theorem parseMembers_first (h : skipBlanks bytes = Quoted.quote :: rest) :
    parseMembers (bound + 1) true bytes = parseMember bound (skipBlanks bytes) := by
  rw [parseMembers, h]
  rfl

theorem parseMembers_next (hcomma : skipBlanks bytes = Byte.comma :: rest)
    (h : skipBlanks rest = Quoted.quote :: rest') :
    parseMembers (bound + 1) false bytes = parseMembers (bound + 1) true rest := by
  rw [parseMembers_first h, parseMembers, hcomma]
  simp only [h]
  rfl

theorem parseMember_cons {key : Except Fault String} {content : List UInt8} {value : Value}
    {tail : Members} {rest'' : List UInt8} (hread : Quoted.read content = key)
    (hskip : Quoted.skip content = .ok bytes) (hcolon : skipBlanks bytes = Byte.colon :: rest)
    (hvalue : parseWithin bound rest = (value, some rest'))
    (htail : parseMembers bound false rest' = (tail, some rest'')) :
    parseMember (bound + 1) (Quoted.quote :: content) =
      (.cons key value tail, some rest'') := by
  simp only [parseMember, if_pos, hskip, hread, hcolon, hvalue, htail]

theorem parseWithin_writesNumeral {n : Numeral} {cs : List Char} (h : WritesNumeral n cs)
    (hrest : Numeral.EndsBefore rest) :
    parseWithin (bound + 1) (utf8 cs ++ rest) = (.number n.value, some rest) := by
  have hnumber := parseNumber_append h hrest
  obtain ⟨b, bytes, htext, hb⟩ := Numeral.exists_cons_of_writesNumeral h
  rw [htext, List.cons_append] at hnumber ⊢
  rw [parseWithin_scalar hb.isBlank_eq_false (hb.ne (by decide)) (hb.ne (by decide)), parseScalar,
    if_neg (hb.ne (by decide)), ← hnumber]
  exact if_pos hb

theorem parseWithin_writesString {s? : Option String} {cs : List Char}
    (h : WritesString s? cs) :
    parseWithin (bound + 1) (utf8 cs ++ rest) =
      (.string (Quoted.contentOf s?), some rest) := by
  obtain ⟨content, htext, hcontent⟩ := Quoted.exists_of_writesString h
  obtain ⟨hread, hskip⟩ := hcontent rest
  rw [htext, List.cons_append, parseWithin_scalar rfl (by decide) (by decide), parseScalar,
    if_pos rfl, parseString]
  simp only [hskip, hread]

end Value

/-- Where the value has been written it is read, up to white space behind it. Two calls for
each byte are enough. -/
def ReadsBack (t : Tree) (cs : List Char) : Prop :=
  ∀ (bound : Nat) (rest : List UInt8), Numeral.EndsBefore rest → 2 * (utf8 cs).length ≤ bound →
    ∃ rest', Value.parseWithin bound (utf8 cs ++ rest) = (t.value, some rest') ∧
      skipBlanks rest' = skipBlanks rest

section

variable {t : Tree} {cs : List Char} {bound : Nat} {rest rest'' : List UInt8}

theorem startsValue_of_writesPadded (h : WritesPadded t cs) (rest : List UInt8) :
    StartsValue (skipBlanks (utf8 cs ++ rest)) := by
  obtain ⟨hbefore, h, -⟩ := h
  rw [utf8_append, List.append_assoc, skipBlanks_append hbefore, utf8_append, List.append_assoc]
  obtain ⟨b, tail, hcons, hblank, hclose⟩ := startsValue_of_writes h
  rw [hcons, List.cons_append, skipBlanks_cons hblank]
  exact ⟨b, _, rfl, hblank, hclose⟩

theorem startsValue_of_writesItems {items : List Tree} (h : WritesItems (t :: items) cs)
    (rest : List UInt8) : StartsValue (skipBlanks (utf8 cs ++ rest)) := by
  cases h with
  | last h => exact startsValue_of_writesPadded h rest
  | cons h hrest =>
      rw [utf8_append, List.append_assoc]
      exact startsValue_of_writesPadded h _

theorem length_pos_of_writesPadded (h : WritesPadded t cs) : 0 < (utf8 cs).length := by
  obtain ⟨-, h, -⟩ := h
  have := (startsValue_of_writes h).length_pos
  simp only [utf8_append, List.length_append]
  omega

theorem exists_of_writesMember {key? : Option String} (h : WritesMember key? t cs)
    (rest : List UInt8) : ∃ tail, skipBlanks (utf8 cs ++ rest) = Quoted.quote :: tail := by
  obtain ⟨hbefore, hname, -, -⟩ := h
  obtain ⟨content, htext, -⟩ := Quoted.exists_of_writesString hname
  rw [utf8_append, List.append_assoc, skipBlanks_append hbefore, utf8_append, htext]
  exact ⟨_, skipBlanks_cons rfl _⟩

theorem length_pos_of_writesMember {key? : Option String} (h : WritesMember key? t cs) :
    0 < (utf8 cs).length := by
  obtain ⟨-, -, -, h⟩ := h
  have := length_pos_of_writesPadded h
  simp only [utf8_append, utf8_cons, List.length_append]
  omega

theorem exists_of_writesMembers {m : Option String × Tree} {members : List (Option String × Tree)}
    (h : WritesMembers (m :: members) cs) (rest : List UInt8) :
    ∃ tail, skipBlanks (utf8 cs ++ rest) = Quoted.quote :: tail := by
  cases h with
  | last h => exact exists_of_writesMember h rest
  | cons h hrest =>
      rw [utf8_append, List.append_assoc]
      exact exists_of_writesMember h _

theorem ReadsBack.pad (h : ReadsBack t cs) {before after : List Char} (hbefore : IsBlank before)
    (hafter : IsBlank after) : ReadsBack t (before ++ (cs ++ after)) := by
  intro bound rest hrest hbound
  simp only [utf8_append, List.length_append] at hbound
  obtain ⟨rest', hvalue, hrest'⟩ := h bound (utf8 after ++ rest) (endsBefore_append hafter hrest)
    (by omega)
  refine ⟨rest', ?_, hrest'.trans (skipBlanks_append hafter rest)⟩
  rw [utf8_append, List.append_assoc, ← Value.parseWithin_skipBlanks, skipBlanks_append hbefore,
    Value.parseWithin_skipBlanks, utf8_append, List.append_assoc, hvalue]

/-- An element is read, and then what is read behind it. -/
theorem ReadsBack.parseItem (h : ReadsBack t cs) {tail : Items} (hrest : Numeral.EndsBefore rest)
    (hbound : 2 * (utf8 cs).length ≤ bound)
    (htail : ∀ rest', skipBlanks rest' = skipBlanks rest →
      Value.parseItems bound false rest' = (tail, some rest'')) :
    Value.parseItem (bound + 1) (utf8 cs ++ rest) = (.cons t.value tail, some rest'') := by
  obtain ⟨rest', hvalue, hrest'⟩ := h bound rest hrest hbound
  exact Value.parseItem_cons hvalue (htail rest' hrest')

/-- A member is read, and then what is read behind it. -/
theorem ReadsBack.parseMember (h : ReadsBack t cs) {key? : Option String}
    {before name after : List Char}
    (hbefore : IsBlank before) (hname : WritesString key? name) (hafter : IsBlank after)
    {tail : Members} (hrest : Numeral.EndsBefore rest) (hbound : 2 * (utf8 cs).length ≤ bound)
    (htail : ∀ rest', skipBlanks rest' = skipBlanks rest →
      Value.parseMembers bound false rest' = (tail, some rest'')) :
    Value.parseMember (bound + 1)
        (skipBlanks (utf8 (before ++ (name ++ (after ++ ':' :: cs))) ++ rest)) =
      (.cons (Quoted.contentOf key?) t.value tail, some rest'') := by
  obtain ⟨rest', hvalue, hrest'⟩ := h bound rest hrest hbound
  obtain ⟨content, htext, hcontent⟩ := Quoted.exists_of_writesString hname
  obtain ⟨hread, hskip⟩ := hcontent (utf8 after ++ (Byte.colon :: (utf8 cs ++ rest)))
  have hcolon : skipBlanks (utf8 after ++ (Byte.colon :: (utf8 cs ++ rest))) =
      Byte.colon :: (utf8 cs ++ rest) := by
    rw [skipBlanks_append hafter, skipBlanks_cons rfl]
  have hbytes : skipBlanks (utf8 (before ++ (name ++ (after ++ ':' :: cs))) ++ rest) =
      Quoted.quote :: (content ++ (utf8 after ++ (Byte.colon :: (utf8 cs ++ rest)))) := by
    have hutf8 : utf8 (':' :: cs) = Byte.colon :: utf8 cs := rfl
    simp only [utf8_append, htext, hutf8, List.append_assoc, List.cons_append]
    rw [skipBlanks_append hbefore, skipBlanks_cons rfl]
  rw [hbytes]
  exact Value.parseMember_cons hread hskip hcolon hvalue (htail rest' hrest')

theorem endsBefore_cons {b : UInt8} (hb : Byte.isDigit b = false ∧ b ≠ Byte.point ∧
    Byte.isExponent b = false) (rest : List UInt8) : Numeral.EndsBefore (b :: rest) := by
  rintro _ ⟨⟩
  exact hb

end

theorem utf8_enclosed {opening closing : Char} {b b' : UInt8}
    (hopening : String.utf8EncodeChar opening = [b])
    (hclosing : String.utf8EncodeChar closing = [b']) (cs : List Char) (rest : List UInt8) :
    utf8 (opening :: (cs ++ [closing])) ++ rest = b :: (utf8 cs ++ b' :: rest) := by
  simp [hopening, hclosing]

theorem utf8_separated (cs cs' : List Char) (rest : List UInt8) :
    utf8 (cs ++ ',' :: cs') ++ rest = utf8 cs ++ Byte.comma :: (utf8 cs' ++ rest) := by
  have hcomma : String.utf8EncodeChar ',' = [Byte.comma] := rfl
  simp [hcomma]

mutual

theorem readsBack_of_writes {t : Tree} {cs : List Char} (h : Writes t cs) : ReadsBack t cs := by
  intro bound rest hrest hbound
  have hpos := (startsValue_of_writes h).length_pos
  obtain ⟨bound, rfl⟩ := Nat.exists_eq_add_of_le' (show 1 ≤ bound by omega)
  have hbracket : String.utf8EncodeChar '[' = [Byte.openBracket] := rfl
  have hbracket' : String.utf8EncodeChar ']' = [Byte.closeBracket] := rfl
  have hbrace : String.utf8EncodeChar '\x7b' = [Byte.openBrace] := rfl
  have hbrace' : String.utf8EncodeChar '\x7d' = [Byte.closeBrace] := rfl
  refine ⟨rest, ?_, rfl⟩
  match h with
  | .null => exact (Value.parseWithin_scalar rfl (by decide) (by decide) _).trans rfl
  | .true => exact (Value.parseWithin_scalar rfl (by decide) (by decide) _).trans rfl
  | .false => exact (Value.parseWithin_scalar rfl (by decide) (by decide) _).trans rfl
  | .number h => exact Value.parseWithin_writesNumeral h hrest
  | .string h => exact Value.parseWithin_writesString h
  | .array h =>
      have hlength : ∀ cs, (utf8 ('[' :: (cs ++ [']']))).length = (utf8 cs).length + 2 := by
        simp [hbracket, hbracket']
      rw [hlength] at hbound
      rw [utf8_enclosed hbracket hbracket']
      exact Value.parseWithin_openBracket (parseItems_of_writes h (by omega))
  | .object h =>
      have hlength : ∀ cs, (utf8 ('\x7b' :: (cs ++ ['\x7d']))).length = (utf8 cs).length + 2 := by
        simp [hbrace, hbrace']
      rw [hlength] at hbound
      rw [utf8_enclosed hbrace hbrace']
      exact Value.parseWithin_openBrace (parseMembers_of_writes h (by omega))

theorem readsBack_of_writesPadded {t : Tree} {cs : List Char} (h : WritesPadded t cs) :
    ReadsBack t cs := by
  match h with
  | .mk hbefore h hafter => exact (readsBack_of_writes h).pad hbefore hafter

theorem parseItems_of_writes {items : List Tree} {cs : List Char} (h : WritesItems items cs)
    {bound : Nat} {rest : List UInt8} (hbound : 2 * (utf8 cs).length + 2 ≤ bound) :
    Value.parseItems bound true (utf8 cs ++ Byte.closeBracket :: rest) =
        (Tree.valueItems items, some rest) := by
  obtain ⟨bound, rfl⟩ := Nat.exists_eq_add_of_le' (show 2 ≤ bound by omega)
  match h with
  | .none h =>
      exact Value.parseItems_closed true ((skipBlanks_append h _).trans (skipBlanks_cons rfl _))
  | .last h =>
      have hpos := length_pos_of_writesPadded h
      obtain ⟨bound, rfl⟩ := Nat.exists_eq_add_of_le' (show 1 ≤ bound by omega)
      rw [Value.parseItems_first (startsValue_of_writesPadded h _)]
      refine (readsBack_of_writesPadded h).parseItem (endsBefore_cons (by decide) _) (by omega) ?_
      intro rest' hrest'
      exact Value.parseItems_closed false (hrest'.trans (skipBlanks_cons rfl _))
  | @WritesItems.cons _ t items cs cs' h hitems =>
      simp only [utf8_append, utf8_cons, List.length_append] at hbound
      have hcomma : (String.utf8EncodeChar ',').length = 1 := rfl
      obtain ⟨bound, rfl⟩ := Nat.exists_eq_add_of_le' (show 1 ≤ bound by omega)
      have htail : Value.parseItems (bound + 1) true (utf8 cs' ++ Byte.closeBracket :: rest) =
          (Tree.valueItems (t :: items), some rest) := parseItems_of_writes hitems (by omega)
      rw [utf8_separated, Value.parseItems_first (startsValue_of_writesPadded h _)]
      refine (readsBack_of_writesPadded h).parseItem (endsBefore_cons (by decide) _) (by omega) ?_
      intro rest' hrest'
      rw [Value.parseItems_next (hrest'.trans (skipBlanks_cons rfl _))
        (startsValue_of_writesItems hitems _), htail]

theorem parseMembers_of_writes {members : List (Option String × Tree)} {cs : List Char}
    (h : WritesMembers members cs) {bound : Nat} {rest : List UInt8}
    (hbound : 2 * (utf8 cs).length + 2 ≤ bound) :
    Value.parseMembers bound true (utf8 cs ++ Byte.closeBrace :: rest) =
        (Tree.valueMembers members, some rest) := by
  obtain ⟨bound, rfl⟩ := Nat.exists_eq_add_of_le' (show 2 ≤ bound by omega)
  match h with
  | .none h =>
      exact Value.parseMembers_closed true ((skipBlanks_append h _).trans (skipBlanks_cons rfl _))
  | .last h =>
      obtain ⟨_, hquote⟩ := exists_of_writesMember h (Byte.closeBrace :: rest)
      have hpos := length_pos_of_writesMember h
      obtain ⟨bound, rfl⟩ := Nat.exists_eq_add_of_le' (show 1 ≤ bound by omega)
      rw [Value.parseMembers_first hquote]
      refine parseMember_of_writesMember h (endsBefore_cons (by decide) _) (by omega) ?_
      intro rest' hrest'
      exact Value.parseMembers_closed false (hrest'.trans (skipBlanks_cons rfl _))
  | @WritesMembers.cons _ _ m members cs cs' h hmembers =>
      simp only [utf8_append, utf8_cons, List.length_append] at hbound
      have hcomma : (String.utf8EncodeChar ',').length = 1 := rfl
      obtain ⟨bound, rfl⟩ := Nat.exists_eq_add_of_le' (show 1 ≤ bound by omega)
      have htail : Value.parseMembers (bound + 1) true (utf8 cs' ++ Byte.closeBrace :: rest) =
          (Tree.valueMembers (m :: members), some rest) :=
        parseMembers_of_writes hmembers (by omega)
      obtain ⟨_, hquote⟩ :=
        exists_of_writesMember h (Byte.comma :: (utf8 cs' ++ Byte.closeBrace :: rest))
      obtain ⟨_, hquote'⟩ := exists_of_writesMembers hmembers (Byte.closeBrace :: rest)
      rw [utf8_separated, Value.parseMembers_first hquote]
      refine parseMember_of_writesMember h (endsBefore_cons (by decide) _) (by omega) ?_
      intro rest' hrest'
      rw [Value.parseMembers_next (hrest'.trans (skipBlanks_cons rfl _)) hquote', htail]

theorem parseMember_of_writesMember {key? : Option String} {t : Tree} {cs : List Char}
    (h : WritesMember key? t cs) {bound : Nat} {rest rest'' : List UInt8} {tail : Members}
    (hrest : Numeral.EndsBefore rest) (hbound : 2 * (utf8 cs).length ≤ bound)
    (htail : ∀ rest', skipBlanks rest' = skipBlanks rest →
      Value.parseMembers bound false rest' = (tail, some rest'')) :
    Value.parseMember (bound + 1) (skipBlanks (utf8 cs ++ rest)) =
      (.cons (Quoted.contentOf key?) t.value tail, some rest'') := by
  match h with
  | .mk hbefore hname hafter h =>
      simp only [utf8_append, utf8_cons, List.length_append] at hbound
      exact (readsBack_of_writesPadded h).parseMember hbefore hname hafter hrest (by omega) htail

end

end JvmReach.Json
