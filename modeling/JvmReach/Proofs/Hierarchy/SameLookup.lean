import JvmReach.Hierarchy.Dispatch
import JvmReach.Proofs.Program.Rearranged

/-!
# Look-ups in programs that declare the same

Superclass chains of two programs that declare the same meet corresponding classes, so a
search along a chain stops at the same class. The interfaces above a chain, those of them
that offer a method and the maximally specific ones among these are sets of names that are
listed by increasing name, so the order of declarations is lost on the way. Resolution,
selection and the receivers of a call are the same.
-/

namespace JvmReach

/-- A search finds related elements, if it finds any. -/
theorem find?_cases_of_forall₂ {α β : Type} {r : α → β → Prop} {l : List α} {l' : List β}
    (h : List.Forall₂ r l l') {f : α → Bool} {g : β → Bool} (hfg : ∀ a b, r a b → f a = g b) :
    (l.find? f = none ∧ l'.find? g = none) ∨
      ∃ a b, l.find? f = some a ∧ l'.find? g = some b ∧ r a b := by
  induction h with
  | nil => exact Or.inl ⟨rfl, rfl⟩
  | @cons a b l l' hab _ ih =>
      by_cases ha : f a = true
      · have hb : g b = true := hfg a b hab ▸ ha
        exact Or.inr ⟨a, b, List.find?_cons_of_pos ha, List.find?_cons_of_pos hb, hab⟩
      · have hb : ¬ g b = true := hfg a b hab ▸ ha
        rwa [List.find?_cons_of_neg ha, List.find?_cons_of_neg hb]

namespace Program.SameDeclarations

/-- Chains meet corresponding classes and leave the program at the same type. -/
theorem chainFrom {p p' : Program} (hp : p.SameDeclarations p') (depth : Nat)
    (start? : Option TypeName) :
    List.Forall₂ ClassDef.SameMembers (p.chainFrom depth start?).classes
        (p'.chainFrom depth start?).classes ∧
      (p.chainFrom depth start?).missing? = (p'.chainFrom depth start?).missing? := by
  induction depth generalizing start? with
  | zero => cases start? <;> exact ⟨.nil, rfl⟩
  | succ depth ih =>
      cases start? with
      | none => exact ⟨.nil, rfl⟩
      | some name =>
          rcases hp.class? name with ⟨hnone, hnone'⟩ | ⟨c, c', hc, hc', hmembers⟩
          · rw [Program.chainFrom, Program.chainFrom, hnone, hnone']
            exact ⟨.nil, rfl⟩
          · simp only [Program.chainFrom, hc, hc', ← hmembers.superclass?]
            exact ⟨.cons hmembers (ih c.superclass?).1, (ih c.superclass?).2⟩

end Program.SameDeclarations

namespace Hierarchy

variable {h h' : Hierarchy}

section

variable (hp : h.program.SameDeclarations h'.program)

include hp

theorem forall₂_superclassChain (name : TypeName) :
    List.Forall₂ ClassDef.SameMembers (h.superclassChain name).classes
      (h'.superclassChain name).classes := by
  rw [superclassChain, superclassChain, hp.classCount]
  exact (hp.chainFrom _ _).1

theorem missing?_superclassChain_eq (name : TypeName) :
    (h.superclassChain name).missing? = (h'.superclassChain name).missing? := by
  rw [superclassChain, superclassChain, hp.classCount]
  exact (hp.chainFrom _ _).2

theorem offers_eq : h.offers = h'.offers := by
  funext name descriptor type
  simp only [offers, hp.method?]

theorem hasBody_eq : h.hasBody = h'.hasBody := by
  funext name descriptor type
  simp only [hasBody, hp.method?]

theorem maximallySpecific_eq : h.maximallySpecific = h'.maximallySpecific := by
  funext candidates
  simp only [maximallySpecific, covered, hp.ancestors]

theorem superinterfaces_eq {classes classes' : List ClassDef}
    (hclasses : List.Forall₂ ClassDef.SameMembers classes classes') :
    h.superinterfaces classes = h'.superinterfaces classes' := by
  have hmap : classes.map (fun c => (h.program.interfaceClosure c.interfaces).toList) =
      classes'.map (fun c => (h'.program.interfaceClosure c.interfaces).toList) := by
    apply map_eq_of_forall₂ hclasses
    intro c c' hc
    rw [hp.interfaceClosure hc.mem_interfaces]
  rw [superinterfaces, superinterfaces, List.flatMap_def, List.flatMap_def, hmap]

theorem inherited_eq {classes classes' : List ClassDef}
    (hclasses : List.Forall₂ ClassDef.SameMembers classes classes') (name descriptor : String) :
    h.inherited classes name descriptor = h'.inherited classes' name descriptor := by
  rw [inherited, inherited, superinterfaces_eq hp hclasses, offers_eq hp, maximallySpecific_eq hp]

theorem soleDefault?_eq {classes classes' : List ClassDef}
    (hclasses : List.Forall₂ ClassDef.SameMembers classes classes') (name descriptor : String) :
    h.soleDefault? classes name descriptor = h'.soleDefault? classes' name descriptor := by
  rw [soleDefault?, soleDefault?, inherited_eq hp hclasses, hasBody_eq hp]

theorem resolve_eq (m : MethodRef) : h.resolve m = h'.resolve m := by
  have hchain := forall₂_superclassChain hp m.owner
  have hcontains : h.program.contains = h'.program.contains := funext hp.contains
  simp only [resolve]
  rcases find?_cases_of_forall₂ hchain fun c c' hc => hc.declares m.name m.descriptor with
    ⟨hnone, hnone'⟩ | ⟨c, c', hfind, hfind', hc⟩
  · simp only [hnone, hnone', soleDefault?_eq hp hchain, inherited_eq hp hchain,
      superinterfaces_eq hp hchain, missing?_superclassChain_eq hp, hcontains]
  · simp only [hfind, hfind', hc.name]

theorem select?_eq (type name descriptor : String) :
    h.select? type name descriptor = h'.select? type name descriptor := by
  have hchain := forall₂_superclassChain hp type
  have hverdict : (h.superclassChain type).classes.map (verdict name descriptor) =
      (h'.superclassChain type).classes.map (verdict name descriptor) := by
    apply map_eq_of_forall₂ hchain
    intro c c' hc
    simp only [verdict, hc.method?, hc.name]
  have hfind : (h.superclassChain type).classes.findSome? (verdict name descriptor) =
      (h'.superclassChain type).classes.findSome? (verdict name descriptor) := by
    simpa only [List.findSome?_map, Function.id_comp] using congrArg (List.findSome? id) hverdict
  simp only [select?, hfind, soleDefault?_eq hp hchain]

theorem receivers_eq (type : TypeName) : h.receivers type = h'.receivers type := by
  have hconcrete : ∀ sub, (h.program.class? sub).any ClassDef.isConcrete =
      (h'.program.class? sub).any ClassDef.isConcrete := by
    intro sub
    rcases hp.class? sub with ⟨hnone, hnone'⟩ | ⟨c, c', hc, hc', hmembers⟩
    · rw [hnone, hnone']
    · simp only [hc, hc', Option.any_some, hmembers.isConcrete]
  simp only [receivers, hp.descendants, hconcrete]

theorem dispatchTargets_eq (m : MethodRef) (admits : TypeName → Bool) :
    h.dispatchTargets m admits = h'.dispatchTargets m admits := by
  simp only [dispatchTargets, receivers_eq hp, select?_eq hp]

end

end Hierarchy

end JvmReach
