import JvmReach.Proofs.Hierarchy.Selection

/-!
# What dispatch finds

The receivers of a call are the concrete classes that descend from its owner, by increasing
name. Collecting targets asks once about each of them, in this order, and about nothing else;
what it collects are the methods selected for the receivers that are admitted.
-/

namespace JvmReach

/-- A type that an object of static type `sup` may have at run time. -/
def Program.Receives (p : Program) (sup type : TypeName) : Prop :=
  ∃ c, p.class? type = some c ∧ c.access.isInterface = false ∧ c.access.isAbstract = false ∧
    p.Descends type sup

namespace Hierarchy

/-- Answers as `admits` does, and writes down each question. -/
def recorded (admits : TypeName → Bool) (type : TypeName) : StateM (List TypeName) Bool := do
  modify (· ++ [type])
  return admits type

theorem mem_receivers_iff (h : Hierarchy) (sup type : TypeName) :
    type ∈ h.receivers sup ↔ h.program.Receives sup type := by
  rw [receivers, List.mem_filter, Std.ExtTreeSet.mem_toList, Program.mem_descendants_iff,
    Option.any_eq_true]
  constructor
  · rintro ⟨hdescends, c, hc, hconcrete⟩
    simp only [ClassDef.isConcrete, Bool.and_eq_true, Bool.not_eq_true'] at hconcrete
    exact ⟨c, hc, hconcrete.1, hconcrete.2, hdescends⟩
  · rintro ⟨c, hc, hinterface, habstract, hdescends⟩
    exact ⟨hdescends, c, hc, by simp [ClassDef.isConcrete, hinterface, habstract]⟩

theorem mem_dispatchTargets_iff_receives (h : Hierarchy) (m t : MethodRef)
    (admits : TypeName → Bool) :
    t ∈ h.dispatchTargets m admits ↔
      ∃ type, h.program.Receives m.owner type ∧ admits type = true ∧
        h.select? type m.name m.descriptor = some t := by
  simp only [mem_dispatchTargets_iff, mem_receivers_iff]

theorem pairwise_receivers (h : Hierarchy) (sup : TypeName) :
    (h.receivers sup).Pairwise (· < ·) := by
  apply List.Pairwise.filter
  refine (Std.ExtTreeSet.ordered_toList (t := h.program.descendants sup)).imp ?_
  intro a b hab
  exact compareOfLessAndEq_eq_lt.1 hab

theorem run_foldlM_collectTarget (h : Hierarchy) (m : MethodRef) (admits : TypeName → Bool)
    (types : List TypeName) (targets : Std.ExtTreeSet MethodRef) (asked : List TypeName) :
    (types.foldlM (h.collectTarget m (recorded admits)) targets).run asked =
      pure (targets.insertMany (((types.filter fun type =>
          (h.program.class? type).any ClassDef.isConcrete).filter admits).filterMap fun type =>
            h.select? type m.name m.descriptor),
        asked ++ types.filter fun type => (h.program.class? type).any ClassDef.isConcrete) := by
  induction types generalizing targets asked with
  | nil => simp
  | cons type rest ih =>
      rw [List.foldlM_cons, StateT.run_bind]
      cases hconcrete : (h.program.class? type).any ClassDef.isConcrete with
      -- no question is asked about an interface, an abstract class or a missing type
      | false => simp [collectTarget, hconcrete, ih]
      | true =>
          cases hadmits : admits type with
          | false => simp [collectTarget, recorded, hconcrete, hadmits, ih]
          | true =>
            cases hselect : h.select? type m.name m.descriptor with
            | none => simp [collectTarget, recorded, hconcrete, hadmits, hselect, ih]
            | some t =>
                simp [collectTarget, recorded, hconcrete, hadmits, hselect, ih,
                  Std.ExtTreeSet.insertMany_cons]

theorem run_collectTargets (h : Hierarchy) (m : MethodRef) (admits : TypeName → Bool) :
    (h.collectTargets m (recorded admits)).run [] =
      pure (h.dispatchTargets m admits, h.receivers m.owner) := by
  rw [collectTargets, run_foldlM_collectTarget, dispatchTargets,
    Std.ExtTreeSet.ofList_eq_insertMany_empty]
  rfl

/-- Dispatch collects what the admitted receivers select, asks about each receiver once, and
only finds declared methods that an object can run. -/
theorem dispatch_exact (h : Hierarchy) (m : MethodRef) (admits : TypeName → Bool) :
    (∀ t, t ∈ h.dispatchTargets m admits ↔
      ∃ type, h.program.Receives m.owner type ∧ admits type = true ∧
        h.select? type m.name m.descriptor = some t) ∧
    (∀ type t, h.select? type m.name m.descriptor = some t ↔
      h.program.Selects Method.decides ⟨type, m.name, m.descriptor⟩ t) ∧
    (∀ t ∈ h.dispatchTargets m admits, ∃ type, h.program.Receives m.owner type ∧
      admits type = true ∧ h.select? type m.name m.descriptor = some t ∧
      h.program.Descends type t.owner ∧ ∃ method, h.program.method? t = some method ∧
        method.access.isStatic = false ∧ method.access.isAbstract = false) ∧
    (∀ admits' : TypeName → Bool, (∀ type, admits type = true → admits' type = true) →
      ∀ t ∈ h.dispatchTargets m admits, t ∈ h.dispatchTargets m admits') ∧
    (h.collectTargets m (recorded admits)).run [] =
      pure (h.dispatchTargets m admits, h.receivers m.owner) ∧
    (h.receivers m.owner).Pairwise (· < ·) ∧
    ∀ type, type ∈ h.receivers m.owner ↔ h.program.Receives m.owner type := by
  have hselect : ∀ type t, h.select? type m.name m.descriptor = some t ↔
      h.program.Selects Method.decides ⟨type, m.name, m.descriptor⟩ t :=
    fun type => h.select?_eq_some_iff ⟨type, m.name, m.descriptor⟩
  have hmem := fun t => h.mem_dispatchTargets_iff_receives m t admits
  refine ⟨hmem, hselect, ?_, ?_, h.run_collectTargets m admits, h.pairwise_receivers m.owner,
    h.mem_receivers_iff m.owner⟩
  · intro t ht
    obtain ⟨type, htype, hadmits, ht⟩ := (hmem t).1 ht
    exact ⟨type, htype, hadmits, ht, ((hselect type t).1 ht).declares⟩
  · intro admits' hle t ht
    exact h.dispatchTargets_mono hle ht

end Hierarchy

end JvmReach
