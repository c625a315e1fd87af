import JvmReach.Hierarchy.Resolution

/-!
# Virtual dispatch

For one run-time type, `select?` finds the method that runs: the nearest
declaration on the superclass chain that is not static, unless it is abstract,
which hides every inherited default; without such a declaration, the only
default among the maximally specific superinterface declarations.

A virtual call may run whatever is selected for a concrete type below the static
one. `receivers` lists these types; `dispatchTargets` keeps the ones that a
strategy admits and collects what they select.
-/

namespace JvmReach.Hierarchy

/-- What a declaration met on the chain decides: `none` to look further up,
`some none` for a method without implementation, `some (some m)` for `m`. -/
def verdict (name descriptor : String) (c : ClassDef) : Option (Option MethodRef) :=
  match c.method? name descriptor with
  | none => none
  | some method =>
      if method.access.isAbstract then some none
      else if method.access.isStatic then none
      else some (some ⟨c.name, name, descriptor⟩)

def select? (h : Hierarchy) (type : TypeName) (name descriptor : String) : Option MethodRef :=
  let chain := h.superclassChain type
  match chain.classes.findSome? (verdict name descriptor) with
  | some selected => selected
  | none =>
      (h.soleDefault? chain.classes name descriptor).map fun owner => ⟨owner, name, descriptor⟩

/-- The concrete classes among the subtypes of a type, by increasing name. -/
def receivers (h : Hierarchy) (type : TypeName) : List TypeName :=
  (h.program.descendants type).toList.filter fun sub =>
    (h.program.class? sub).any ClassDef.isConcrete

def dispatchTargets (h : Hierarchy) (m : MethodRef) (admits : TypeName → Bool) :
    Std.ExtTreeSet MethodRef :=
  Std.ExtTreeSet.ofList <|
    ((h.receivers m.owner).filter admits).filterMap fun type => h.select? type m.name m.descriptor

/-- Asks about a type, if it is a concrete class, and adds what is selected for it. -/
def collectTarget {σ : Type} (h : Hierarchy) (m : MethodRef) (admits : TypeName → StateM σ Bool)
    (targets : Std.ExtTreeSet MethodRef) (type : TypeName) :
    StateM σ (Std.ExtTreeSet MethodRef) := do
  if (h.program.class? type).any ClassDef.isConcrete then
    if ← admits type then
      return targets.insertMany (h.select? type m.name m.descriptor).toList
  return targets

/-- The same targets, collected one after the other from the subtypes by increasing name, so
that `admits` may remember what it was asked. -/
def collectTargets {σ : Type} (h : Hierarchy) (m : MethodRef)
    (admits : TypeName → StateM σ Bool) : StateM σ (Std.ExtTreeSet MethodRef) :=
  (h.program.descendants m.owner).toList.foldlM (h.collectTarget m admits) ∅

theorem mem_dispatchTargets_iff (h : Hierarchy) (m t : MethodRef) (admits : TypeName → Bool) :
    t ∈ h.dispatchTargets m admits ↔
      ∃ type ∈ h.receivers m.owner, admits type = true ∧
        h.select? type m.name m.descriptor = some t := by
  simp only [dispatchTargets, Std.ExtTreeSet.mem_ofList, List.contains_iff_mem,
    List.mem_filterMap, List.mem_filter, and_assoc]

theorem dispatchTargets_mono (h : Hierarchy) {admits admits' : TypeName → Bool}
    (hle : ∀ type, admits type = true → admits' type = true) {m t : MethodRef}
    (ht : t ∈ h.dispatchTargets m admits) : t ∈ h.dispatchTargets m admits' := by
  rw [mem_dispatchTargets_iff] at ht ⊢
  obtain ⟨type, htype, hadmits, hselect⟩ := ht
  exact ⟨type, htype, hle type hadmits, hselect⟩

end JvmReach.Hierarchy
