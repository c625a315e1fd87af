import JvmReach.Proofs.Json.Integers
import JvmReach.Proofs.Json.Reading

/-!
# Documents read back

A printed document is a text of the grammar, so it is read back as that document if its
numbers fit a 64-bit word.
-/

namespace JvmReach.Json

open Text

namespace Document

mutual

/-- The value that a document is read as. -/
def value : Document → Value
  | number i => .number (.ok (.ofInt i))
  | string s => .string (.ok s)
  | array items => .array (valueItems items)
  | object members => .object (valueMembers members)
termination_by structural d => d

def valueItems : List Document → Items
  | [] => .closed
  | item :: rest => .cons (value item) (valueItems rest)
termination_by structural items => items

def valueMembers : List (String × Document) → Members
  | [] => .closed
  | (key, item) :: rest => .cons (.ok key) (value item) (valueMembers rest)
termination_by structural members => members

end

/-- The numbers of a document fit a 64-bit word. -/
inductive FitsWords : Document → Prop
  | number {i : Int} (h : FitsWord i) : FitsWords (.number i)
  | string {s : String} : FitsWords (.string s)
  | array {items : List Document} (h : ∀ d ∈ items, FitsWords d) : FitsWords (.array items)
  | object {members : List (String × Document)} (h : ∀ m ∈ members, FitsWords m.2) :
      FitsWords (.object members)

end Document

/-- The text that a document is, if it is one. -/
def Document.string? : Document → Option String
  | .string s => some s
  | _ => none

/-- The integer that a number is, if it is one. -/
def Number.integer? : Number → Option Int
  | .natural n => some n
  | .negative n => some (-n)
  | .float _ => none

mutual

/-- The document that a value comes from, if nothing in it is faulty or of another kind. -/
def Value.document? : Value → Option Document
  | .number (.ok n) => n.integer?.map .number
  | .string (.ok s) => some (.string s)
  | .array items => items.documents?.map .array
  | .object members => members.documents?.map .object
  | _ => none

def Items.documents? : Items → Option (List Document)
  | .closed => some []
  | .broken .. => none
  | .cons head tail => do
      let head ← head.document?
      let tail ← tail.documents?
      return head :: tail

def Members.documents? : Members → Option (List (String × Document))
  | .closed => some []
  | .cons (.ok key) value tail => do
      let value ← value.document?
      let tail ← tail.documents?
      return (key, value) :: tail
  | _ => none

end

/-- The document that a text consists of, if it does. -/
def Document.ofText? (text : String) : Option Document :=
  match Value.parse text.toUTF8.data.toList with
  | (value, some rest) => if skipBlanks rest = [] then value.document? else none
  | (_, none) => none

theorem Number.integer?_ofInt (i : Int) : (Number.ofInt i).integer? = some i := by
  cases i with
  | ofNat n => rfl
  | negSucc n => rfl

namespace Document

mutual

theorem document?_value : (d : Document) → d.value.document? = some d
  | number i => by simp [value, Value.document?, Number.integer?_ofInt]
  | string s => rfl
  | array items => by simp [value, Value.document?, documents?_valueItems items]
  | object members => by simp [value, Value.document?, documents?_valueMembers members]

theorem documents?_valueItems : (items : List Document) → (valueItems items).documents? = some items
  | [] => rfl
  | item :: rest => by
      simp [valueItems, Items.documents?, document?_value item, documents?_valueItems rest]

theorem documents?_valueMembers :
    (members : List (String × Document)) → (valueMembers members).documents? = some members
  | [] => rfl
  | (key, item) :: rest => by
      simp [valueMembers, Members.documents?, document?_value item, documents?_valueMembers rest]

end

end Document

namespace Document

mutual

/-- The value that a document is the text of. -/
def tree : Document → Tree
  | number i => .number (.ofInt i)
  | string s => .string s
  | array items => .array (treeItems items)
  | object members => .object (treeMembers members)
termination_by structural d => d

def treeItems : List Document → List Tree
  | [] => []
  | item :: rest => tree item :: treeItems rest
termination_by structural items => items

def treeMembers : List (String × Document) → List (Option String × Tree)
  | [] => []
  | (key, item) :: rest => (key, tree item) :: treeMembers rest
termination_by structural members => members

end

theorem isBlank_newline (depth : Nat) : IsBlank (newline depth) := by
  intro c hc
  rcases List.mem_cons.1 hc with rfl | hc
  · decide
  · rw [List.eq_of_mem_replicate hc]
    decide

/-- The items with what separates them, between the brackets or braces. -/
def between (depth : Nat) : List (List Char) → List Char
  | [] => []
  | [item] => newline (depth + 1) ++ (item ++ newline depth)
  | item :: rest => newline (depth + 1) ++ (item ++ []) ++ ',' :: between depth rest

theorem between_cons (depth : Nat) (first : List Char) (rest : List (List Char)) :
    between depth (first :: rest) = newline (depth + 1) ++ (first ++
      (rest.flatMap (fun item => ',' :: newline (depth + 1) ++ item) ++ newline depth)) := by
  induction rest generalizing first with
  | nil => rfl
  | cons second rest ih =>
      rw [between, ih]
      · simp
      · rintro ⟨⟩

theorem enclose_eq (opening closing : Char) (depth : Nat) (items : List (List Char)) :
    enclose opening closing depth items = opening :: (between depth items ++ [closing]) := by
  cases items with
  | nil => rfl
  | cons first rest => simp [enclose, between_cons]

theorem writesItems_between {ts : List Tree} {texts : List (List Char)}
    (h : List.Forall₂ Writes ts texts) (depth : Nat) : WritesItems ts (between depth texts) := by
  induction h with
  | nil => exact .none isBlank_nil
  | cons hfirst hrest ih =>
      cases hrest with
      | nil => exact .last (.mk (isBlank_newline _) hfirst (isBlank_newline _))
      | cons hsecond hrest => exact .cons (.mk (isBlank_newline _) hfirst isBlank_nil) ih

/-- A colon with a space behind it stands between the key and the value. -/
theorem writesMember_colon {key : String} {t : Tree} {before cs after : List Char}
    (hbefore : IsBlank before) (h : Writes t cs) (hafter : IsBlank after) :
    WritesMember key t (before ++ ((quote key ++ ':' :: ' ' :: cs) ++ after)) := by
  have hspace : IsBlank [' '] := by
    intro c hc
    rw [List.mem_singleton.1 hc]
    decide
  have hmember : WritesMember key t
      (before ++ (quote key ++ ([] ++ ':' :: ([' '] ++ (cs ++ after))))) :=
    .mk hbefore (writesString_quote key) isBlank_nil (.mk hspace h hafter)
  simpa using hmember

/-- A member is written on a line of its own. -/
def WritesLine (m : Option String × Tree) (text : List Char) : Prop :=
  ∃ key cs, m.1 = some key ∧ Writes m.2 cs ∧ text = quote key ++ ':' :: ' ' :: cs

theorem writesMembers_between {ms : List (Option String × Tree)} {texts : List (List Char)}
    (h : List.Forall₂ WritesLine ms texts) (depth : Nat) :
    WritesMembers ms (between depth texts) := by
  induction h with
  | nil => exact .none isBlank_nil
  | @cons m _ _ _ hfirst hrest ih =>
      obtain ⟨_, t⟩ := m
      obtain ⟨key, cs, rfl, hcs, rfl⟩ := hfirst
      cases hrest with
      | nil => exact .last (writesMember_colon (isBlank_newline _) hcs (isBlank_newline _))
      | cons hsecond hrest =>
          exact .cons (writesMember_colon (isBlank_newline _) hcs isBlank_nil) ih

mutual

theorem writes_render : (d : Document) → (depth : Nat) → Writes d.tree (d.render depth)
  | number i, _ => .number (writesNumeral_toString i)
  | string s, _ => .string (writesString_quote s)
  | array items, depth => by
      rw [render, enclose_eq]
      exact .array (writesItems_between (writes_renderItems items (depth + 1)) depth)
  | object members, depth => by
      rw [render, enclose_eq]
      exact .object (writesMembers_between (writes_renderMembers members (depth + 1)) depth)

theorem writes_renderItems : (items : List Document) → (depth : Nat) →
    List.Forall₂ Writes (treeItems items) (renderItems depth items)
  | [], _ => .nil
  | item :: rest, depth => .cons (writes_render item depth) (writes_renderItems rest depth)

theorem writes_renderMembers : (members : List (String × Document)) → (depth : Nat) →
    List.Forall₂ WritesLine (treeMembers members) (renderMembers depth members)
  | [], _ => .nil
  | (key, item) :: rest, depth =>
      .cons ⟨key, _, rfl, writes_render item depth, rfl⟩ (writes_renderMembers rest depth)

end

theorem valueItems_treeItems {items : List Document} (h : ∀ d ∈ items, d.tree.value = d.value) :
    Tree.valueItems (treeItems items) = valueItems items := by
  induction items with
  | nil => rfl
  | cons item rest ih =>
      obtain ⟨hitem, hrest⟩ := List.forall_mem_cons.1 h
      rw [treeItems, Tree.valueItems, valueItems, hitem, ih hrest]

theorem valueMembers_treeMembers {members : List (String × Document)}
    (h : ∀ m ∈ members, m.2.tree.value = m.2.value) :
    Tree.valueMembers (treeMembers members) = valueMembers members := by
  induction members with
  | nil => rfl
  | cons m rest ih =>
      obtain ⟨hm, hrest⟩ := List.forall_mem_cons.1 h
      obtain ⟨key, item⟩ := m
      rw [treeMembers, Tree.valueMembers, valueMembers, hm, ih hrest]
      rfl

theorem value_tree {d : Document} (h : d.FitsWords) : d.tree.value = d.value := by
  induction h with
  | number h => rw [tree, Tree.value, value, Numeral.value_ofInt h]
  | string => rfl
  | array _ ih => rw [tree, Tree.value, value, valueItems_treeItems ih]
  | object _ ih => rw [tree, Tree.value, value, valueMembers_treeMembers ih]

/-- A document is what its text consists of, with a line break at the end. -/
theorem ofText?_text {d : Document} (h : d.FitsWords) : ofText? (d.text ++ "\n") = some d := by
  have hpadded : WritesPadded d.tree ([] ++ (d.render 0 ++ ['\n'])) :=
    .mk isBlank_nil (writes_render d 0) (isBlank_newline 0)
  obtain ⟨rest, hparse, hrest⟩ := readsBack_of_writesPadded hpadded
    (3 * (utf8 (d.render 0 ++ ['\n'])).length + 3) [] (by rintro b ⟨⟩) (by
      rw [List.nil_append]
      omega)
  have htext : (d.text ++ "\n").toUTF8.data.toList = utf8 (d.render 0 ++ ['\n']) := by
    rw [toList_data_toUTF8, String.toList_append, text, String.toList_ofList]
    rfl
  rw [List.nil_append, List.append_nil, value_tree h] at hparse
  rw [ofText?, htext, Value.parse, hparse]
  exact (if_pos hrest).trans (document?_value d)

end Document

end JvmReach.Json
