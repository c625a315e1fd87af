import JvmReach.Proofs.Closure
import JvmReach.Proofs.Program.Acyclic

/-!
# The subtype relation

A type descends from another if it leads there along direct supertypes, in any number of
steps. This is what `isSubtypeOf` decides and what `ancestors` lists. All supertypes are
mentioned by a class, so the bound of this closure is never used up. The same goes for the
interfaces above a class.

In a program without cycle, descending is a partial order.
-/

namespace JvmReach.Program

/-- `sub` is `sup`, or leads there along direct supertypes. -/
def Descends (p : Program) (sub sup : TypeName) : Prop :=
  Relation.ReflTransGen (fun name parent => parent ∈ p.directSupertypes name) sub sup

/-- `type` is an interface of `c`, or one above such an interface. -/
inductive Superinterface (p : Program) (c : ClassDef) : TypeName → Prop
  | direct {type : TypeName} (htype : type ∈ c.interfaces) : p.Superinterface c type
  | above {type up : TypeName} {d : ClassDef} (htype : p.Superinterface c type)
      (hd : p.class? type = some d) (hup : up ∈ d.interfaces) : p.Superinterface c up

namespace Descends

variable {p : Program} {a b c : TypeName}

theorem refl (p : Program) (name : TypeName) : p.Descends name name := Relation.ReflTransGen.refl

theorem trans (hab : p.Descends a b) (hbc : p.Descends b c) : p.Descends a c :=
  Relation.ReflTransGen.trans hab hbc

theorem of_mem (h : b ∈ p.directSupertypes a) : p.Descends a b := Relation.ReflTransGen.single h

/-- Descending to a different type is a proper step up. -/
theorem transGen (h : p.Descends a b) (hne : a ≠ b) : Relation.TransGen p.Supertype b a := by
  rcases Relation.reflTransGen_iff_eq_or_transGen.1 h with heq | hab
  · exact absurd heq.symm hne
  · exact Relation.transGen_swap.1 hab

theorem antisymm (hacyclic : p.cycle? = none) (hab : p.Descends a b) (hba : p.Descends b a) :
    a = b := by
  by_contra hne
  exact p.ne_of_transGen_supertype hacyclic ((hab.transGen hne).trans (hba.transGen (Ne.symm hne)))
    rfl

end Descends

theorem mem_supertypes_of_mem (p : Program) (name : TypeName) :
    ∀ parent ∈ p.directSupertypes name, parent ∈ p.classes.flatMap ClassDef.supertypes := by
  intro parent hparent
  obtain ⟨c, hc, hmem⟩ := p.exists_class?_of_supertype hparent
  have hname := p.name_eq_of_class? hc
  subst hname
  exact List.mem_flatMap.2 ⟨c, (p.mem_classes_iff c).2 hc, hmem⟩

theorem directInterfaces_subset (p : Program) (name : TypeName) :
    p.directInterfaces name ⊆ p.directSupertypes name := by
  intro type htype
  cases hc : p.class? name with
  | none => simp [directInterfaces, hc] at htype
  | some c =>
      have htype : type ∈ c.interfaces := by simpa [directInterfaces, hc] using htype
      simp [directSupertypes, hc, ClassDef.supertypes, htype]

theorem mem_ancestors_iff (p : Program) (name sup : TypeName) :
    sup ∈ p.ancestors name ↔ p.Descends name sup := by
  rw [ancestors, supertypeBound,
    Closure.mem_close_iff p.mem_supertypes_of_mem (Nat.lt_succ_self _)]
  simp [Descends]

theorem isSubtypeOf_iff (p : Program) (sub sup : TypeName) :
    p.isSubtypeOf sub sup = true ↔ p.Descends sub sup := by
  rw [isSubtypeOf, Std.ExtTreeSet.contains_iff_mem, mem_ancestors_iff]

theorem mem_descendants_iff (p : Program) (name sub : TypeName) :
    sub ∈ p.descendants name ↔ p.Descends sub name := by
  have hnext : ∀ type, ∀ child ∈ p.directSubtypes type, child ∈ p.classes.map ClassDef.name := by
    intro type child hchild
    obtain ⟨c, hc, -⟩ := p.exists_class?_of_supertype ((p.mem_directSubtypes_iff type child).1 hchild)
    exact (p.mem_names_iff child).2 ⟨c, hc⟩
  have hbound : (p.classes.map ClassDef.name).length < p.classCount + 1 := by
    rw [p.length_names]
    exact Nat.lt_succ_self _
  rw [descendants, Closure.mem_close_iff hnext hbound, Descends, ← Relation.reflTransGen_swap]
  simp [mem_directSubtypes_iff]

theorem mem_interfaceClosure_iff (p : Program) (c : ClassDef) (type : TypeName) :
    type ∈ p.interfaceClosure c.interfaces ↔ p.Superinterface c type := by
  have hnext : ∀ name, ∀ up ∈ p.directInterfaces name,
      up ∈ p.classes.flatMap ClassDef.supertypes :=
    fun name up hup => p.mem_supertypes_of_mem name up (p.directInterfaces_subset name hup)
  rw [interfaceClosure, supertypeBound, Closure.mem_close_iff hnext (Nat.lt_succ_self _)]
  simp only [Std.ExtTreeSet.mem_ofList, List.contains_iff_mem]
  constructor
  · rintro ⟨start, hstart, hpath⟩
    induction hpath with
    | refl => exact .direct hstart
    | @tail name up _ hup ih =>
        cases hd : p.class? name with
        | none => simp [directInterfaces, hd] at hup
        | some d => exact .above ih hd (by simpa [directInterfaces, hd] using hup)
  · intro htype
    induction htype with
    | direct htype => exact ⟨_, htype, .refl⟩
    | above _ hd hup ih =>
        obtain ⟨start, hstart, hpath⟩ := ih
        exact ⟨start, hstart, hpath.tail (by simpa [directInterfaces, hd] using hup)⟩

/-- A class descends from the interfaces above it. -/
theorem Superinterface.descends {p : Program} {c : ClassDef} {name type : TypeName}
    (hc : p.class? name = some c) (htype : p.Superinterface c type) : p.Descends name type := by
  induction htype with
  | direct htype =>
      exact .of_mem (by simp [directSupertypes, hc, ClassDef.supertypes, htype])
  | @above type up d _ hd hup ih =>
      exact ih.trans (.of_mem (by simp [directSupertypes, hd, ClassDef.supertypes, hup]))

end JvmReach.Program
