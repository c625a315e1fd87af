import JvmReach.Proofs.Program.Acyclic

/-!
# Programs that declare the same

A look-up does not tell in which order a class lists its methods and interfaces, or a
program its classes. `Program.SameDeclarations` says of two programs that they differ in
nothing else. Then they have the same supertypes, and so the same cycles, ancestors,
descendants and closures of interfaces: a closure adds round after round all successors of
its frontier, in whatever order they are listed.
-/

namespace JvmReach

/-- Two classes with the same members, as far as looking them up can tell. -/
structure ClassDef.SameMembers (c c' : ClassDef) : Prop where
  name : c.name = c'.name
  superclass? : c.superclass? = c'.superclass?
  access : c.access = c'.access
  isTarget : c.isTarget = c'.isTarget
  mem_interfaces : ∀ name, name ∈ c.interfaces ↔ name ∈ c'.interfaces
  mem_methods : ∀ method, method ∈ c.methods ↔ method ∈ c'.methods
  method? : ∀ name descriptor, c.method? name descriptor = c'.method? name descriptor

namespace ClassDef.SameMembers

variable {c c' : ClassDef}

theorem symm (hc : c.SameMembers c') : c'.SameMembers c where
  name := hc.name.symm
  superclass? := hc.superclass?.symm
  access := hc.access.symm
  isTarget := hc.isTarget.symm
  mem_interfaces name := (hc.mem_interfaces name).symm
  mem_methods method := (hc.mem_methods method).symm
  method? name descriptor := (hc.method? name descriptor).symm

theorem mem_supertypes (hc : c.SameMembers c') (name : TypeName) :
    name ∈ c.supertypes ↔ name ∈ c'.supertypes := by
  simp only [supertypes, hc.superclass?, List.mem_append, hc.mem_interfaces]

theorem isConcrete (hc : c.SameMembers c') : c.isConcrete = c'.isConcrete := by
  simp only [ClassDef.isConcrete, hc.access]

theorem declares (hc : c.SameMembers c') (name descriptor : String) :
    c.declares name descriptor = c'.declares name descriptor := by
  simp only [ClassDef.declares, hc.method?]

theorem staticInitializer? (hc : c.SameMembers c') :
    c.staticInitializer? = c'.staticInitializer? := by
  simp only [ClassDef.staticInitializer?, hc.method?, hc.name]

end ClassDef.SameMembers

namespace Closure

variable {α : Type} [Ord α] [Std.TransOrd α] [BEq α] [LawfulBEq α] [Std.LawfulBEqOrd α]
  [Std.LawfulEqOrd α]

/-- Only which successors there are matters, not how they are listed. -/
theorem closeFrom_congr {next next' : α → List α} (hnext : ∀ a b, b ∈ next a ↔ b ∈ next' a)
    (bound : Nat) (met : Std.ExtTreeSet α) (frontier : List α) :
    closeFrom next bound met frontier = closeFrom next' bound met frontier := by
  have hdiscover : ∀ met frontier, discover next met frontier = discover next' met frontier := by
    intro met frontier
    apply Std.ExtTreeSet.ext_mem
    intro a
    simp only [mem_discover, hnext]
  induction bound generalizing met frontier with
  | zero => rfl
  | succ bound ih => simp only [closeFrom, hdiscover, ih]

theorem close_congr {next next' : α → List α} (hnext : ∀ a b, b ∈ next a ↔ b ∈ next' a)
    (bound : Nat) (s : Std.ExtTreeSet α) : close next bound s = close next' bound s :=
  closeFrom_congr hnext bound s s.toList

end Closure

namespace Program

/-- Two programs with the same classes, each with the same members. -/
structure SameDeclarations (p p' : Program) : Prop where
  class? : ∀ name, (p.class? name = none ∧ p'.class? name = none) ∨
    ∃ c c', p.class? name = some c ∧ p'.class? name = some c' ∧ c.SameMembers c'
  classCount : p.classCount = p'.classCount
  supertypeBound : p.supertypeBound = p'.supertypeBound

namespace SameDeclarations

variable {p p' : Program}

theorem symm (hp : p.SameDeclarations p') : p'.SameDeclarations p where
  class? name := by
    rcases hp.class? name with ⟨hnone, hnone'⟩ | ⟨c, c', hc, hc', hmembers⟩
    · exact Or.inl ⟨hnone', hnone⟩
    · exact Or.inr ⟨c', c, hc', hc, hmembers.symm⟩
  classCount := hp.classCount.symm
  supertypeBound := hp.supertypeBound.symm

theorem exists_mem_classes (hp : p.SameDeclarations p') {c : ClassDef} (hc : c ∈ p.classes) :
    ∃ c' ∈ p'.classes, c.SameMembers c' := by
  have hsome := (p.mem_classes_iff c).1 hc
  rcases hp.class? c.name with ⟨hnone, -⟩ | ⟨d, c', hd, hc', hmembers⟩
  · rw [hnone] at hsome
    cases hsome
  · rw [hsome] at hd
    cases hd
    rw [hmembers.name] at hc'
    exact ⟨c', (p'.mem_classes_iff c').2 hc', hmembers⟩

theorem mem_methods_of_mem (hp : p.SameDeclarations p') {method : Method}
    (hmethod : method ∈ p.methods) : method ∈ p'.methods := by
  obtain ⟨c, hc, hmethod⟩ := List.mem_flatMap.1 hmethod
  obtain ⟨c', hc', hmembers⟩ := hp.exists_mem_classes hc
  exact List.mem_flatMap.2 ⟨c', hc', (hmembers.mem_methods method).1 hmethod⟩

theorem contains (hp : p.SameDeclarations p') (name : TypeName) :
    p.contains name = p'.contains name := by
  rcases hp.class? name with ⟨hnone, hnone'⟩ | ⟨c, c', hc, hc', -⟩
  · simp only [Program.contains, hnone, hnone']
  · simp only [Program.contains, hc, hc', Option.isSome_some]

/-- A name stands for concrete classes in both programs or in none. -/
theorem concrete_cases (hp : p.SameDeclarations p') (name : TypeName) :
    ((p.class? name).filter ClassDef.isConcrete = none ∧
        (p'.class? name).filter ClassDef.isConcrete = none) ∨
      ∃ c c', (p.class? name).filter ClassDef.isConcrete = some c ∧
        (p'.class? name).filter ClassDef.isConcrete = some c' ∧ c.SameMembers c' := by
  rcases hp.class? name with ⟨hnone, hnone'⟩ | ⟨c, c', hc, hc', hmembers⟩
  · rw [hnone, hnone']
    exact Or.inl ⟨rfl, rfl⟩
  · rw [hc, hc', Option.filter_some, Option.filter_some, ← hmembers.isConcrete]
    by_cases hconcrete : c.isConcrete = true
    · simp only [hconcrete, if_true]
      exact Or.inr ⟨c, c', rfl, rfl, hmembers⟩
    · simp only [hconcrete]
      exact Or.inl ⟨rfl, rfl⟩

theorem method? (hp : p.SameDeclarations p') (m : MethodRef) : p.method? m = p'.method? m := by
  rcases hp.class? m.owner with ⟨hnone, hnone'⟩ | ⟨c, c', hc, hc', hmembers⟩
  · simp only [Program.method?, hnone, hnone', Option.bind_none]
  · simp only [Program.method?, hc, hc', Option.bind_some, hmembers.method?]

theorem mem_directSupertypes (hp : p.SameDeclarations p') (name parent : TypeName) :
    parent ∈ p.directSupertypes name ↔ parent ∈ p'.directSupertypes name := by
  rcases hp.class? name with ⟨hnone, hnone'⟩ | ⟨c, c', hc, hc', hmembers⟩
  · simp only [directSupertypes, hnone, hnone']
  · simp only [directSupertypes, hc, hc', Option.map_some, Option.getD_some,
      hmembers.mem_supertypes]

theorem mem_directInterfaces (hp : p.SameDeclarations p') (name parent : TypeName) :
    parent ∈ p.directInterfaces name ↔ parent ∈ p'.directInterfaces name := by
  rcases hp.class? name with ⟨hnone, hnone'⟩ | ⟨c, c', hc, hc', hmembers⟩
  · simp only [directInterfaces, hnone, hnone']
  · simp only [directInterfaces, hc, hc', Option.map_some, Option.getD_some,
      hmembers.mem_interfaces]

theorem mem_directSubtypes (hp : p.SameDeclarations p') (name child : TypeName) :
    child ∈ p.directSubtypes name ↔ child ∈ p'.directSubtypes name := by
  rw [mem_directSubtypes_iff, mem_directSubtypes_iff, hp.mem_directSupertypes]

theorem cycle?_eq_none_iff (hp : p.SameDeclarations p') :
    p.cycle? = none ↔ p'.cycle? = none := by
  have hsupertype : p.Supertype = p'.Supertype := by
    funext parent name
    exact propext (hp.mem_directSupertypes name parent)
  rw [Program.cycle?_eq_none_iff, Program.cycle?_eq_none_iff, hsupertype]

theorem ancestors (hp : p.SameDeclarations p') (name : TypeName) :
    p.ancestors name = p'.ancestors name := by
  rw [Program.ancestors, Program.ancestors, hp.supertypeBound]
  exact Closure.close_congr hp.mem_directSupertypes _ _

theorem descendants (hp : p.SameDeclarations p') (name : TypeName) :
    p.descendants name = p'.descendants name := by
  rw [Program.descendants, Program.descendants, hp.classCount]
  exact Closure.close_congr hp.mem_directSubtypes _ _

theorem interfaceClosure (hp : p.SameDeclarations p') {interfaces interfaces' : List TypeName}
    (hinterfaces : ∀ name, name ∈ interfaces ↔ name ∈ interfaces') :
    p.interfaceClosure interfaces = p'.interfaceClosure interfaces' := by
  have hstart : Std.ExtTreeSet.ofList interfaces = Std.ExtTreeSet.ofList interfaces' := by
    apply Std.ExtTreeSet.ext_mem
    intro name
    simp only [Std.ExtTreeSet.mem_ofList, List.contains_iff_mem, hinterfaces]
  rw [Program.interfaceClosure, Program.interfaceClosure, hp.supertypeBound, hstart]
  exact Closure.close_congr hp.mem_directInterfaces _ _

end SameDeclarations

end Program

end JvmReach
