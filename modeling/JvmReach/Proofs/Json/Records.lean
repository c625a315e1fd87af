import JvmReach.Json.Schema
import JvmReach.Proofs.Except
import JvmReach.Proofs.Json.Reading

/-!
# Records read back

A record is written as an object with its fields in any order, among any other members. A
field that has its default may be left out, and no field comes twice. A schema whose fields
read what is written of them, each one into its place, reads the record.
-/

namespace JvmReach.Json

/-- What is written of one field of a record. -/
structure Entry where
  key : String
  /-- The field has its default and may be left out. -/
  isDefault : Prop
  fits : Tree → Prop

namespace Entry

def required (key : String) (fits : Tree → Prop) : Entry := ⟨key, False, fits⟩

def optional (key : String) (isDefault : Prop) (fits : Tree → Prop) : Entry :=
  ⟨key, isDefault, fits⟩

def keys (entries : List Entry) : List String := entries.map Entry.key

/-- The fields that are there after another member. -/
def note (entries : List Entry) (key : String) (seen : List String) : List String :=
  if key ∈ keys entries then key :: seen else seen

theorem mem_note {entries : List Entry} {key key' : String} {seen : List String} :
    key' ∈ note entries key seen ↔ (key' = key ∧ key ∈ keys entries) ∨ key' ∈ seen := by
  rw [note]
  split
  · next h => simp [h]
  · next h => simp [h]

end Entry

/-- The members of an object that is written for a record. What is ignored in it must be as
`ignores` says. -/
structure WritesEntries (entries : List Entry) (ignores : Tree → Prop)
    (members : List (String × Tree)) : Prop where
  distinct : ((members.map Prod.fst).filter (· ∈ Entry.keys entries)).Nodup
  fits : ∀ e ∈ entries, ∀ t, (e.key, t) ∈ members → e.fits t
  complete : ∀ e ∈ entries, e.key ∈ members.map Prod.fst ∨ e.isDefault
  ignored : ∀ key t, (key, t) ∈ members → key ∉ Entry.keys entries → ignores t

def WritesRecord (entries : List Entry) (ignores : Tree → Prop) (t : Tree) : Prop :=
  ∃ members, t = .object (Tree.named members) ∧ WritesEntries entries ignores members

variable {α β : Type}

/-- The decoder turns whatever is written for `a` into `a`. -/
def Decoder.ReadsBack (decode : Decoder α) (writes : α → Tree → Prop) : Prop :=
  ∀ a t, writes a t → decode t.value = .ok a

/-- A field reads what is written of it, and changes a record that has the fields of `seen`
already into one that has it, too. -/
structure Entry.FilledBy (part : List String → α) (e : Entry) (f : Field α) : Prop where
  key : e.key = f.key
  isRequired : e.isDefault → f.isRequired = false
  change : ∀ t, e.fits t → ∃ change, f.decode t.value = .ok change ∧
    ∀ seen, change (part seen) = part (e.key :: seen)

/-- The record `a` comes about from its fields, in whatever order they are read. -/
structure Schema.Assembles (s : Schema α) (entries : List Entry) (part : List String → α) (a : α) :
    Prop where
  blank : s.blank = part []
  fields : List.Forall₂ (Entry.FilledBy part) entries s.fields
  full : ∀ seen, (∀ e ∈ entries, e.key ∈ seen ∨ e.isDefault) → part seen = a

mutual

theorem Tree.skip_value : (t : Tree) → t.value.skip = .ok ()
  | null | bool _ | number _ | string _ => rfl
  | array items => skip_valueItems items
  | object members => skip_valueMembers members

theorem Tree.skip_valueItems : (items : List Tree) → (valueItems items).skip = .ok ()
  | [] => rfl
  | t :: rest => bind_eq_ok_iff.2 ⟨(), skip_value t, skip_valueItems rest⟩

theorem Tree.skip_valueMembers : (members : List (Option String × Tree)) →
    (valueMembers members).skip = .ok ()
  | [] => rfl
  | (_, t) :: rest => bind_eq_ok_iff.2 ⟨(), skip_value t, skip_valueMembers rest⟩

end

theorem Tree.valueMembers_named_cons (key : String) (t : Tree) (rest : List (String × Tree)) :
    valueMembers (named ((key, t) :: rest)) = .cons (.ok key) t.value (valueMembers (named rest)) :=
  rfl

/-- The members of an object as they are stored. -/
def Tree.entries (members : List (String × Tree)) : List (String × Value) :=
  members.map fun m => (m.1, m.2.value)

namespace Schema

variable {s : Schema α} {entries : List Entry} {part : List String → α} {a : α}

namespace Assembles

theorem keys_eq (h : s.Assembles entries part a) : Entry.keys entries = s.fields.map Field.key := by
  rw [← List.forall₂_eq_eq_eq, Entry.keys, List.forall₂_map_left_iff, List.forall₂_map_right_iff]
  exact h.fields.imp fun _ _ h => h.key

theorem field?_eq_none (h : s.Assembles entries part a) {key : String}
    (hkey : key ∉ Entry.keys entries) : s.field? key = none := by
  rw [field?, List.find?_eq_none]
  intro f hf heq
  refine hkey ?_
  rw [h.keys_eq, ← eq_of_beq heq]
  exact List.mem_map_of_mem hf

theorem exists_field? (h : s.Assembles entries part a) {key : String}
    (hkey : key ∈ Entry.keys entries) :
    ∃ e ∈ entries, ∃ f, s.field? key = some f ∧ e.key = key ∧ e.FilledBy part f := by
  cases hfield : s.field? key with
  | none =>
      rw [h.keys_eq] at hkey
      obtain ⟨f, hf, rfl⟩ := List.mem_map.1 hkey
      exact absurd (beq_self_eq_true f.key) (List.find?_eq_none.1 hfield f hf)
  | some f =>
      obtain ⟨e, he, hef⟩ := (exists_mem_of_forall₂ h.fields).2 f (List.mem_of_find?_eq_some hfield)
      have hkey : f.key = key := by simpa using List.find?_some hfield
      exact ⟨e, he, f, rfl, hef.key.trans hkey, hef⟩

/-- One member is either a field that was not there yet or passed over. -/
theorem decodeMember (h : s.Assembles entries part a) {seen : List String} {key : String} {t : Tree}
    (hfits : ∀ e ∈ entries, e.key = key → e.fits t)
    (hseen : key ∈ Entry.keys entries → key ∉ seen) :
    s.decodeMember ⟨part seen, seen⟩ key t.value =
      .ok ⟨part (Entry.note entries key seen), Entry.note entries key seen⟩ := by
  rw [Schema.decodeMember, freshField?]
  by_cases hkey : key ∈ Entry.keys entries
  · obtain ⟨e, he, f, hfield, rfl, hef⟩ := h.exists_field? hkey
    obtain ⟨change, hchange, hpart⟩ := hef.change t (hfits e he rfl)
    have hnew : seen.contains e.key = false := by simpa using hseen hkey
    simp only [hfield, hnew, Entry.note, if_pos hkey, hchange, hpart, Decode.under,
      Bool.false_eq_true, if_false, bind, Except.bind, Except.mapError, pure, Except.pure]
  · simp only [h.field?_eq_none hkey, Entry.note, if_neg hkey, t.skip_value, Decode.under,
      Decode.intact, bind, Except.bind, Except.mapError, pure, Except.pure]

/-- The fields are collected while the members are read. -/
theorem exists_foldlM_decodeMember (h : s.Assembles entries part a)
    {members : List (String × Tree)} (hfits : ∀ e ∈ entries, ∀ t, (e.key, t) ∈ members → e.fits t)
    {seen : List String}
    (hdistinct : ((members.map Prod.fst).filter (· ∈ Entry.keys entries)).Nodup)
    (hseen : ∀ key ∈ members.map Prod.fst, key ∈ Entry.keys entries → key ∉ seen) :
    ∃ seen', (Tree.entries members).foldlM (fun d (key, value) => s.decodeMember d key value)
        ⟨part seen, seen⟩ = .ok ⟨part seen', seen'⟩ ∧
      ∀ key ∈ Entry.keys entries, key ∈ members.map Prod.fst ∨ key ∈ seen → key ∈ seen' := by
  induction members generalizing seen with
  | nil => exact ⟨seen, rfl, fun key _ hkey => hkey.resolve_left (by rintro ⟨⟩)⟩
  | cons m rest ih =>
      obtain ⟨key, t⟩ := m
      have hmember := h.decodeMember (fun e he heq => hfits e he t (by simp [heq]))
        (hseen key List.mem_cons_self)
      have hrest : ∀ key' ∈ rest.map Prod.fst, key' ∈ Entry.keys entries →
          key' ∉ Entry.note entries key seen := by
        intro key' hkey' hfield hnote
        rcases Entry.mem_note.1 hnote with ⟨rfl, hkey⟩ | hold
        · rw [List.map_cons, List.filter_cons_of_pos (by simpa using hkey)] at hdistinct
          exact (List.nodup_cons.1 hdistinct).1
            (List.mem_filter.2 ⟨hkey', by simpa using hfield⟩)
        · exact hseen key' (List.mem_cons_of_mem _ hkey') hfield hold
      obtain ⟨seen', hfold, hseen'⟩ := ih
        (fun e he t ht => hfits e he t (List.mem_cons_of_mem _ ht))
        (hdistinct.sublist ((List.sublist_cons_self _ _).filter _)) hrest
      refine ⟨seen', ?_, fun key' hfield hkey' => hseen' key' hfield ?_⟩
      · rw [Tree.entries, List.map_cons, List.foldlM_cons]
        exact bind_eq_ok_iff.2 ⟨_, hmember, hfold⟩
      · rw [List.map_cons, List.mem_cons] at hkey'
        rcases hkey' with (rfl | hkey') | hold
        · exact .inr (Entry.mem_note.2 (.inl ⟨rfl, hfield⟩))
        · exact .inl hkey'
        · exact .inr (Entry.mem_note.2 (.inr hold))

theorem complete (h : s.Assembles entries part a) {seen : List String}
    (hseen : ∀ e ∈ entries, e.key ∈ seen ∨ e.isDefault) : s.complete ⟨part seen, seen⟩ = .ok a := by
  have hnone : s.fields.find? (fun f => f.isRequired && !seen.contains f.key) = none := by
    rw [List.find?_eq_none]
    intro f hf
    obtain ⟨e, he, hef⟩ := (exists_mem_of_forall₂ h.fields).2 f hf
    rcases hseen e he with hkey | hdefault
    · simp [← hef.key, hkey]
    · simp [hef.isRequired hdefault]
  rw [Schema.complete]
  simp only [hnone, h.full seen hseen]

/-- The record is read from its members once they have been stored. -/
theorem decodeEntries (h : s.Assembles entries part a) {ignores : Tree → Prop}
    {members : List (String × Tree)} (hmembers : WritesEntries entries ignores members) :
    s.decodeEntries (Tree.entries members) = .ok a := by
  have hnone : ∀ key ∈ members.map Prod.fst, key ∈ Entry.keys entries → key ∉ ([] : List String) :=
    fun _ _ _ => List.not_mem_nil
  obtain ⟨seen, hfold, hseen⟩ :=
    h.exists_foldlM_decodeMember hmembers.fits hmembers.distinct hnone
  rw [Schema.decodeEntries, h.blank, hfold]
  refine h.complete fun e he => ?_
  exact (hmembers.complete e he).imp_left fun hkey =>
    hseen e.key (List.mem_map_of_mem he) (.inl hkey)

end Assembles

/-- An object that is read on the way is read like one that has been stored. -/
theorem decodeMembers_value (s : Schema α) (members : List (String × Tree)) (d : Draft α) :
    s.decodeMembers d (Tree.valueMembers (Tree.named members)) = (do
      let d ← (Tree.entries members).foldlM (fun d (key, value) => s.decodeMember d key value) d
      s.complete d) := by
  induction members generalizing d with
  | nil => rfl
  | cons m rest ih =>
      obtain ⟨key, t⟩ := m
      have hkey : Decode.key (.ok key) = .ok key := rfl
      rw [Tree.valueMembers_named_cons, decodeMembers, hkey, Tree.entries, List.map_cons,
        List.foldlM_cons]
      cases hmember : s.decodeMember d key t.value with
      | error e => simp [bind, Except.bind, hmember]
      | ok d' =>
          simp only [bind, Except.bind, hmember]
          exact ih d'

theorem Assembles.decode (h : s.Assembles entries part a) {ignores : Tree → Prop} {t : Tree}
    (ht : WritesRecord entries ignores t) : s.decode t.value = .ok a := by
  obtain ⟨members, rfl, hmembers⟩ := ht
  rw [Tree.value, Schema.decode, decodeMembers_value]
  exact h.decodeEntries hmembers

end Schema

section Fields

variable {part : List String → α} {decode : Decoder β} {writes : β → Tree → Prop} {b : β}
  {set : β → α → α} {key : String}

end Fields

end JvmReach.Json
