import JvmReach.Proofs.Except
import JvmReach.Proofs.Program.SameDeclarations
import Mathlib.Data.List.Find
import Mathlib.Data.List.Perm.Basic

/-!
# Classes in another order

Classes are `Rearranged` when they are put in another order, and so are the methods and
the interfaces of each of them. Distinct names are all it takes for a list of classes to
form a program, whatever its order. As a class with distinct methods has at most one for a
name and a descriptor, the programs that rearranged lists of classes form declare the same.
-/

namespace JvmReach

/-- What a class looks its methods up by. -/
def Method.key (m : Method) : String × String := (m.name, m.descriptor)

namespace ClassDef

/-- No two methods have the same name and descriptor. -/
def DistinctMethods (c : ClassDef) : Prop := (c.methods.map Method.key).Nodup

instance (c : ClassDef) : Decidable c.DistinctMethods :=
  inferInstanceAs (Decidable (c.methods.map Method.key).Nodup)

/-- The same class with its methods and its interfaces in another order. -/
structure Rearranged (c c' : ClassDef) : Prop where
  name : c.name = c'.name
  superclass? : c.superclass? = c'.superclass?
  interfaces : c.interfaces.Perm c'.interfaces
  access : c.access = c'.access
  references : c.references = c'.references
  methods : c.methods.Perm c'.methods
  isTarget : c.isTarget = c'.isTarget

namespace Rearranged

variable {c c' : ClassDef}

theorem length_supertypes (hc : c.Rearranged c') :
    c.supertypes.length = c'.supertypes.length := by
  simp only [supertypes, List.length_append, hc.superclass?, hc.interfaces.length_eq]

/-- At most one method has the name and the descriptor, so it is found in any order. -/
theorem method? (hc : c.Rearranged c') (hdistinct : c.DistinctMethods)
    (name descriptor : String) : c.method? name descriptor = c'.method? name descriptor := by
  apply List.find?_eq_find?_of_perm hc.methods
  rintro m ⟨hm, hkey⟩ m' ⟨hm', hkey'⟩
  simp only [Bool.and_eq_true, beq_iff_eq] at hkey hkey'
  apply List.inj_on_of_nodup_map hdistinct hm hm'
  simp only [Method.key, hkey.1, hkey.2, hkey'.1, hkey'.2]

theorem sameMembers (hc : c.Rearranged c') (hdistinct : c.DistinctMethods) :
    c.SameMembers c' where
  name := hc.name
  superclass? := hc.superclass?
  access := hc.access
  isTarget := hc.isTarget
  mem_interfaces _ := hc.interfaces.mem_iff
  mem_methods _ := hc.methods.mem_iff
  method? := hc.method? hdistinct

end Rearranged

end ClassDef

/-- The same classes in another order, each of them rearranged. -/
def Rearranged (classes classes' : List ClassDef) : Prop :=
  ∃ middle, List.Forall₂ ClassDef.Rearranged classes middle ∧ middle.Perm classes'

/-- What is the same for related elements is listed alike. -/
theorem map_eq_of_forall₂ {α β γ : Type} {r : α → β → Prop} {l : List α} {l' : List β}
    (h : List.Forall₂ r l l') {f : α → γ} {g : β → γ} (hfg : ∀ a b, r a b → f a = g b) :
    l.map f = l'.map g := by
  rw [← List.forall₂_eq_eq_eq, List.forall₂_map_left_iff, List.forall₂_map_right_iff]
  exact h.imp hfg

namespace Rearranged

variable {classes classes' other : List ClassDef}

theorem perm_left (hperm : other.Perm classes) (h : Rearranged classes classes') :
    Rearranged other classes' := by
  obtain ⟨middle, hmiddle, hclasses'⟩ := h
  obtain ⟨middle', hother, hmiddle'⟩ := List.perm_comp_forall₂ hperm hmiddle
  exact ⟨middle', hother, hmiddle'.trans hclasses'⟩

theorem perm_right (h : Rearranged classes classes') (hperm : classes'.Perm other) :
    Rearranged classes other := by
  obtain ⟨middle, hmiddle, hclasses'⟩ := h
  exact ⟨middle, hmiddle, hclasses'.trans hperm⟩

theorem exists_of_mem (h : Rearranged classes classes') {c : ClassDef} (hc : c ∈ classes) :
    ∃ c' ∈ classes', c.Rearranged c' := by
  obtain ⟨middle, hmiddle, hclasses'⟩ := h
  obtain ⟨c', hc', hrearranged⟩ := (exists_mem_of_forall₂ hmiddle).1 c hc
  exact ⟨c', hclasses'.mem_iff.1 hc', hrearranged⟩

theorem exists_of_mem_right (h : Rearranged classes classes') {c' : ClassDef}
    (hc' : c' ∈ classes') : ∃ c ∈ classes, c.Rearranged c' := by
  obtain ⟨middle, hmiddle, hclasses'⟩ := h
  exact (exists_mem_of_forall₂ hmiddle).2 c' (hclasses'.mem_iff.2 hc')

theorem map_perm (h : Rearranged classes classes') {β : Type} {f : ClassDef → β}
    (hf : ∀ c c', c.Rearranged c' → f c = f c') : (classes.map f).Perm (classes'.map f) := by
  obtain ⟨middle, hmiddle, hclasses'⟩ := h
  rw [map_eq_of_forall₂ hmiddle hf]
  exact hclasses'.map f

theorem nodup_names (h : Rearranged classes classes')
    (hnames : (classes.map ClassDef.name).Nodup) : (classes'.map ClassDef.name).Nodup :=
  (h.map_perm fun _ _ hc => hc.name).nodup_iff.1 hnames

end Rearranged

namespace Program

theorem getElem?_foldl_insert {classes : List ClassDef}
    (hnames : (classes.map ClassDef.name).Nodup) (start : Std.ExtTreeMap TypeName ClassDef)
    (name : TypeName) :
    (classes.foldl (fun index c => index.insert c.name c) start)[name]? =
      ((classes.find? (·.name == name)).or start[name]?) := by
  induction classes generalizing start with
  | nil => simp
  | cons c rest ih =>
      rw [List.map_cons, List.nodup_cons] at hnames
      rw [List.foldl_cons, ih hnames.2, Std.ExtTreeMap.getElem?_insert]
      by_cases hc : c.name = name
      · have hnone : rest.find? (·.name == name) = none := by
          apply List.find?_eq_none.2
          rintro d hd hname
          exact hnames.1 (List.mem_map.2 ⟨d, hd, by rw [hc]; simpa using hname⟩)
        simp [hc, hnone]
      · simp [hc]

theorem getElem?_indexOf {classes : List ClassDef}
    (hnames : (classes.map ClassDef.name).Nodup) (name : TypeName) :
    (indexOf classes)[name]? = classes.find? (·.name == name) := by
  have hfold := getElem?_foldl_insert hnames ∅ name
  rwa [Std.ExtTreeMap.getElem?_empty, Option.or_none] at hfold

theorem repeatedNames_eq_nil {classes : List ClassDef}
    (hnames : (classes.map ClassDef.name).Nodup) : repeatedNames classes = [] := by
  rw [repeatedNames, List.filterMap_eq_nil_iff]
  intro name _
  have hcount := List.nodup_iff_count_le_one.1 hnames name
  rw [if_neg (by omega)]

theorem nodup_names (p : Program) : (p.classes.map ClassDef.name).Nodup := by
  have hkeys : p.classes.map ClassDef.name = p.index.toList.map Prod.fst := by
    rw [classes, List.map_map]
    apply List.map_congr_left
    rintro ⟨name, c⟩ hmem
    exact p.name_eq_of_getElem? name c (Std.ExtTreeMap.mem_toList_iff_getElem?_eq_some.1 hmem)
  rw [hkeys]
  exact List.pairwise_map.2 (p.index.distinct_keys_toList.imp fun hne heq =>
    hne (Std.LawfulEqCmp.compare_eq_iff_eq.2 heq))

/-- Classes with distinct names form a program of these classes. -/
theorem ofClasses_eq_ok {classes : List ClassDef} (hnames : (classes.map ClassDef.name).Nodup) :
    ∃ p, ofClasses classes = .ok p ∧ p.classes.Perm classes := by
  refine ⟨⟨indexOf classes, name_eq_of_getElem?_indexOf classes⟩, ?_, ?_⟩
  · rw [ofClasses, repeatedNames_eq_nil hnames]
  · apply (List.perm_ext_iff_of_nodup (nodup_names _).of_map hnames.of_map).2
    intro c
    rw [mem_classes_iff, class?, getElem?_indexOf hnames]
    constructor
    · exact List.mem_of_find?_eq_some
    · intro hc
      have hsome : (classes.find? (·.name == c.name)).isSome = true :=
        List.find?_isSome.2 ⟨c, hc, beq_self_eq_true _⟩
      obtain ⟨d, hd⟩ := Option.isSome_iff_exists.1 hsome
      have hname : d.name = c.name := by simpa using List.find?_some hd
      rw [hd, List.inj_on_of_nodup_map hnames (List.mem_of_find?_eq_some hd) hc hname]

/-- Rearranged classes are found under the same names, with the same members. -/
theorem sameDeclarations_of_rearranged {p p' : Program}
    (hclasses : Rearranged p.classes p'.classes)
    (hdistinct : ∀ c ∈ p.classes, c.DistinctMethods) : p.SameDeclarations p' where
  class? name := by
    cases hc : p.class? name with
    | none =>
        cases hc' : p'.class? name with
        | none => exact Or.inl ⟨rfl, rfl⟩
        | some c' =>
            have hname := p'.name_eq_of_class? hc'
            subst hname
            obtain ⟨c, hmem, hrearranged⟩ :=
              hclasses.exists_of_mem_right ((p'.mem_classes_iff c').2 hc')
            have hsome := (p.mem_classes_iff c).1 hmem
            rw [hrearranged.name, hc] at hsome
            cases hsome
    | some c =>
        have hname := p.name_eq_of_class? hc
        subst hname
        have hmem := (p.mem_classes_iff c).2 hc
        obtain ⟨c', hmem', hrearranged⟩ := hclasses.exists_of_mem hmem
        have hc' := (p'.mem_classes_iff c').1 hmem'
        rw [← hrearranged.name] at hc'
        exact Or.inr ⟨c, c', rfl, hc', hrearranged.sameMembers (hdistinct c hmem)⟩
  classCount := by
    rw [← p.length_names, ← p'.length_names]
    exact (hclasses.map_perm fun _ _ hc => hc.name).length_eq
  supertypeBound := by
    simp only [supertypeBound, List.length_flatMap]
    rw [(hclasses.map_perm fun _ _ hc => hc.length_supertypes).sum_nat]

end Program

end JvmReach
