import JvmReach.Construction.Step
import JvmReach.Proofs.Reflection
import Mathlib.Data.List.Nodup
import Mathlib.Data.Set.Basic

/-!
# The rules of the analysis

What a body makes reachable, said without an order of processing. An observation
is an instruction of a body with the reflective effect seen at it. From the
receiver types that are admitted, each observation has

* `targets`: the methods that a call at it may run, by dispatch or reflection;
* `constructed`: the types that it constructs;
* `started`: the types that it starts, whose `initializers` then run.

A set of methods with a set of types is `Closed` when it holds the entries and
is not left by any of these. `FixedPoint` says of a call graph that it holds
what the rules give and nothing else.
-/

namespace JvmReach

/-- An instruction with the reflective effect seen at it. -/
abbrev Observation := Instruction × Option Reflection.Effect

namespace Reflection.Tracker

/-- Only calls have effects. -/
theorem exists_invoke_of_mem_zip (t : Tracker) (instructions : List Instruction)
    {obs : Observation} {effect : Effect} (heffect : obs.2 = some effect)
    (h : obs ∈ instructions.zip (t.effects (instructions.map Instruction.operation))) :
    ∃ call, obs.1.operation = .invoke call := by
  induction instructions generalizing t with
  | nil => simp at h
  | cons i rest ih =>
      simp only [List.map_cons, effects, List.zip_cons_cons, List.mem_cons] at h
      rcases h with rfl | h
      · by_contra hcall
        rw [t.observe_of_not_call (not_exists.1 hcall)] at heffect
        cases heffect
      · exact ih _ h

end Reflection.Tracker

namespace Body

theorem map_fst_observed (b : Body) : b.observed.map Prod.fst = b.instructions := by
  rw [observed, List.map_fst_zip]
  rw [Reflection.Tracker.length_effects, List.length_map]

@[simp] theorem length_observed (b : Body) : b.observed.length = b.instructions.length := by
  rw [← b.map_fst_observed, List.length_map]

theorem mem_instructions_iff (b : Body) (i : Instruction) :
    i ∈ b.instructions ↔ ∃ effect?, (i, effect?) ∈ b.observed := by
  rw [← b.map_fst_observed]
  simp

end Body

namespace Program

def body? (p : Program) (m : MethodRef) : Option Body := (p.method? m).bind Method.body?

def observed (p : Program) (m : MethodRef) : List Observation :=
  ((p.body? m).map Body.observed).getD []

/-- No body has two instructions at one offset. -/
def DistinctOffsets (p : Program) : Prop :=
  ∀ method ∈ p.methods, ∀ body ∈ method.body?,
    (body.instructions.map Instruction.offset).Nodup

instance (p : Program) : Decidable p.DistinctOffsets :=
  inferInstanceAs (Decidable (∀ method ∈ p.methods, ∀ body ∈ method.body?,
    (body.instructions.map Instruction.offset).Nodup))

theorem mem_observed_iff (p : Program) (m : MethodRef) (obs : Observation) :
    obs ∈ p.observed m ↔ ∃ body, p.body? m = some body ∧ obs ∈ body.observed := by
  rw [observed]
  cases p.body? m with
  | none => simp
  | some body => simp

theorem mem_methods_of_method? (p : Program) {m : MethodRef} {method : Method}
    (h : p.method? m = some method) : method ∈ p.methods := by
  obtain ⟨c, hc, hmethod⟩ := Option.bind_eq_some_iff.1 h
  have hname := p.name_eq_of_class? hc
  refine List.mem_flatMap.2 ⟨c, ?_, List.mem_of_find?_eq_some hmethod⟩
  rw [mem_classes_iff, hname]
  exact hc

theorem exists_invoke_of_effect (p : Program) {m : MethodRef} {obs : Observation}
    {effect : Reflection.Effect} (hobs : obs ∈ p.observed m) (heffect : obs.2 = some effect) :
    ∃ call, obs.1.operation = .invoke call := by
  obtain ⟨body, -, hobs⟩ := (p.mem_observed_iff m obs).1 hobs
  exact Reflection.Tracker.exists_invoke_of_mem_zip {} body.instructions heffect hobs

theorem DistinctOffsets.nodup_observed {p : Program} (h : p.DistinctOffsets) (m : MethodRef) :
    ((p.observed m).map fun obs => obs.1.offset).Nodup := by
  rw [observed]
  cases hbody : p.body? m with
  | none => simp
  | some body =>
      obtain ⟨method, hmethod, hbody⟩ := Option.bind_eq_some_iff.1 hbody
      have hoffsets := h method (p.mem_methods_of_method? hmethod) body hbody
      rw [← body.map_fst_observed, List.map_map] at hoffsets
      simpa [Function.comp_def] using hoffsets

end Program

/-- The calls that are resolved over the admitted receiver types. -/
def Invocation.dispatches (call : Invocation) : Bool :=
  (call.kind == .virtual || call.kind == .interface) && !call.onArray

namespace Hierarchy

/-- The method a call binds to, if it resolves. -/
def boundTargets (h : Hierarchy) (m : MethodRef) : Set MethodRef :=
  {target | h.resolve m = .resolved target}

/-- What a dispatching call may run: a private method alone, and otherwise what
is selected for the admitted receiver types. -/
def dispatchedTargets (h : Hierarchy) (admits : TypeName → Bool) (m : MethodRef) :
    Set MethodRef :=
  match h.resolve m with
  | .resolved target =>
      if (h.program.method? target).any (·.access.isPrivate) then {target}
      else {t | t ∈ h.dispatchTargets m admits}
  | .phantom _ => {t | t ∈ h.dispatchTargets m admits}
  | .notFound => ∅

def callTargets (h : Hierarchy) (admits : TypeName → Bool) (call : Invocation) :
    Set MethodRef :=
  match call.kind with
  | .static | .special => h.boundTargets call.declared
  | .virtual | .interface =>
      if call.onArray then h.boundTargets call.declared
      else h.dispatchedTargets admits call.declared
  | .dynamic => ∅

/-- The constructors that a reflective construction may run. -/
def constructorTargets (h : Hierarchy) : Reflection.Effect → List MethodRef
  | .start _ => []
  | .construct type choice =>
      match (h.program.class? type).filter ClassDef.isConcrete with
      | none => []
      | some c => Construction.State.constructorsOf c choice

def targets (h : Hierarchy) (admits : TypeName → Bool) (obs : Observation) : Set MethodRef :=
  {t | (∃ call, obs.1.operation = .invoke call ∧ t ∈ h.callTargets admits call) ∨
    ∃ effect, obs.2 = some effect ∧ t ∈ h.constructorTargets effect}

/-- Reflection constructs concrete classes of the program only. -/
def constructedBy (h : Hierarchy) : Reflection.Effect → List TypeName
  | .start _ => []
  | .construct type _ =>
      match (h.program.class? type).filter ClassDef.isConcrete with
      | none => []
      | some _ => [type]

def constructed (h : Hierarchy) (obs : Observation) : List TypeName :=
  (match obs.1.operation with
    | .new type => [type]
    | _ => []) ++ (obs.2.map h.constructedBy).getD []

/-- A static call starts the class of the method it resolves to. -/
def startedByCall (h : Hierarchy) (call : Invocation) : List TypeName :=
  match call.kind, h.resolve call.declared with
  | .static, .resolved target => [target.owner]
  | _, _ => []

def startedBy (h : Hierarchy) : Reflection.Effect → List TypeName
  | .start type => [type]
  | .construct type choice => h.constructedBy (.construct type choice)

def started (h : Hierarchy) (obs : Observation) : List TypeName :=
  (match obs.1.operation with
    | .new type => [type]
    | .staticField owner => [owner]
    | .invoke call => h.startedByCall call
    | _ => []) ++ (obs.2.map h.startedBy).getD []

/-- The static initializers of a type and of its superclasses. -/
def initializers (h : Hierarchy) (type : TypeName) : List MethodRef :=
  (h.superclassChain type).classes.filterMap ClassDef.staticInitializer?

/-- What keeps a method from being resolved, if anything does. -/
def resolutionProblem? (h : Hierarchy) (m : MethodRef) : Option Problem :=
  match h.resolve m with
  | .resolved _ => none
  | .phantom missing => some (.phantom missing)
  | .notFound => some .unresolved

def problem? (h : Hierarchy) (call : Invocation) : Option Problem :=
  if call.kind = .dynamic then some .unsupported else h.resolutionProblem? call.declared

theorem mem_startedByCall_iff (h : Hierarchy) (call : Invocation) (type : TypeName) :
    type ∈ h.startedByCall call ↔
      call.kind = .static ∧ ∃ target, h.resolve call.declared = .resolved target ∧
        target.owner = type := by
  cases hkind : call.kind <;> cases hresolve : h.resolve call.declared <;>
    simp [startedByCall, hkind, hresolve, eq_comm]

/-- An observation constructs what its instruction does and what its effect does. -/
theorem mem_constructed_iff (h : Hierarchy) (obs : Observation) (type : TypeName) :
    type ∈ h.constructed obs ↔ type ∈ h.constructed (obs.1, none) ∨
      ∃ effect, obs.2 = some effect ∧ type ∈ h.constructedBy effect := by
  cases heffect : obs.2 <;> simp [constructed, heffect]

theorem mem_started_iff (h : Hierarchy) (obs : Observation) (type : TypeName) :
    type ∈ h.started obs ↔ type ∈ h.started (obs.1, none) ∨
      ∃ effect, obs.2 = some effect ∧ type ∈ h.startedBy effect := by
  cases heffect : obs.2 <;> simp [started, heffect]

theorem dispatchedTargets_mono (h : Hierarchy) {admits admits' : TypeName → Bool}
    (hle : ∀ type, admits type = true → admits' type = true) (m : MethodRef) :
    h.dispatchedTargets admits m ⊆ h.dispatchedTargets admits' m := by
  intro t ht
  cases hresolve : h.resolve m with
  | resolved target =>
      by_cases hprivate : (h.program.method? target).any (·.access.isPrivate) = true
      · simpa [dispatchedTargets, hresolve, hprivate] using ht
      · simp only [dispatchedTargets, hresolve, hprivate] at ht ⊢
        exact h.dispatchTargets_mono hle ht
  | phantom missing =>
      simp only [dispatchedTargets, hresolve] at ht ⊢
      exact h.dispatchTargets_mono hle ht
  | notFound => simp [dispatchedTargets, hresolve] at ht

theorem callTargets_of_dispatches (h : Hierarchy) (admits : TypeName → Bool)
    {call : Invocation} (hcall : call.dispatches = true) :
    h.callTargets admits call = h.dispatchedTargets admits call.declared := by
  obtain ⟨declared, kind, onArray⟩ := call
  cases kind <;> cases onArray <;> simp_all [callTargets, Invocation.dispatches]

/-- What a call that does not dispatch may run does not depend on the receivers. -/
theorem callTargets_of_not_dispatches (h : Hierarchy) (admits admits' : TypeName → Bool)
    {call : Invocation} (hcall : call.dispatches = false) :
    h.callTargets admits call = h.callTargets admits' call := by
  obtain ⟨declared, kind, onArray⟩ := call
  cases kind <;> cases onArray <;> simp_all [callTargets, Invocation.dispatches]

theorem callTargets_mono (h : Hierarchy) {admits admits' : TypeName → Bool}
    (hle : ∀ type, admits type = true → admits' type = true) (call : Invocation) :
    h.callTargets admits call ⊆ h.callTargets admits' call := by
  intro t ht
  cases hcall : call.dispatches with
  | false => rwa [h.callTargets_of_not_dispatches admits' admits hcall]
  | true =>
      rw [h.callTargets_of_dispatches _ hcall] at ht ⊢
      exact h.dispatchedTargets_mono hle call.declared ht

theorem targets_mono (h : Hierarchy) {admits admits' : TypeName → Bool}
    (hle : ∀ type, admits type = true → admits' type = true) (obs : Observation) :
    h.targets admits obs ⊆ h.targets admits' obs := by
  rintro t (⟨call, hcall, ht⟩ | ht)
  · exact Or.inl ⟨call, hcall, h.callTargets_mono hle call ht⟩
  · exact Or.inr ht

end Hierarchy

open Classical in
/-- The receiver types that an algorithm admits once those in `types` are constructed. -/
noncomputable def Algorithm.admitting (a : Algorithm) (types : Set TypeName) :
    TypeName → Bool :=
  fun type => decide (a = .cha ∨ type ∈ types)

/-- Methods and types that the rules do not lead out of. -/
structure Hierarchy.Closed (h : Hierarchy) (a : Algorithm) (entries : List MethodRef)
    (methods : Set MethodRef) (types : Set TypeName) : Prop where
  roots : ∀ e ∈ entries, e ∈ methods
  constructorRoots : ∀ e ∈ entries,
    Strategy.isConstructorRoot h.program e = true → e.owner ∈ types
  constructed : ∀ m ∈ methods, ∀ obs ∈ h.program.observed m,
    ∀ type ∈ h.constructed obs, type ∈ types
  targets : ∀ m ∈ methods, ∀ obs ∈ h.program.observed m,
    ∀ t ∈ h.targets (a.admitting types) obs, t ∈ methods
  initializers : ∀ m ∈ methods, ∀ obs ∈ h.program.observed m,
    ∀ type ∈ h.started obs, ∀ t ∈ h.initializers type, t ∈ methods

/-- A call graph that holds what the rules give for the finally admitted receiver
types, and nothing else. -/
structure Hierarchy.FixedPoint (h : Hierarchy) (entries : List MethodRef)
    (strategy : Strategy) (g : CallGraph) : Prop where
  roots : ∀ e ∈ entries, e ∈ g.reachable
  sites : ∀ site, site ∈ g.sites ↔ site.caller ∈ g.reachable ∧
    ∃ body, h.program.body? site.caller = some body ∧
      ∃ call, ⟨site.offset, .invoke call⟩ ∈ body.instructions
  records : ∀ m ∈ g.reachable, ∀ obs ∈ h.program.observed m,
    ∀ call, obs.1.operation = .invoke call →
    ∃ r, g.sites[(⟨m, obs.1.offset⟩ : CallSite)]? = some r ∧ r.call = call ∧
      r.line? = (h.program.method? m).bind (·.line? obs.1.offset) ∧
      ∀ t, t ∈ r.targets ↔ t ∈ h.targets strategy.admits obs
  reachable : ∀ t, t ∈ g.reachable ↔ t ∈ entries ∨
    ∃ m ∈ g.reachable, ∃ obs ∈ h.program.observed m,
      t ∈ h.targets strategy.admits obs ∨ ∃ type ∈ h.started obs, t ∈ h.initializers type
  admits : ∀ type, strategy.admits type = true ↔ strategy.algorithm = .cha ∨
    (∃ e ∈ entries, Strategy.isConstructorRoot h.program e = true ∧ e.owner = type) ∨
    ∃ m ∈ g.reachable, ∃ obs ∈ h.program.observed m, type ∈ h.constructed obs

end JvmReach
