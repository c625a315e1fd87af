import JvmReach.EntryPoint
import JvmReach.Proofs.Construction.Initialization
import JvmReach.Proofs.Construction.Outcomes

/-!
# Where static initializers come from

No instruction calls a static initializer, so one becomes reachable in two ways only: as a
root, or because its class is started (`InitializersStarted`). With a started class
everything above it is started. A root, on the other hand, comes alone: the initializer of
the main class is a root, those of its superclasses are not, and in library mode only the
target classes contribute theirs. So reachable initializers are closed upwards along
superclass chains, except where a class is a root and one above it is not.
-/

namespace JvmReach

/-- The instruction calls a method that is named like a static initializer. -/
def Operation.callsInitializer : Operation → Bool
  | .invoke call => call.declared.name == "<clinit>"
  | _ => false

/-- Initializers are left to the machine. -/
def Program.InitializersUncalled (p : Program) : Prop :=
  ∀ method ∈ p.methods, ∀ body ∈ method.body?, ∀ i ∈ body.instructions,
    i.operation.callsInitializer = false

instance (p : Program) : Decidable p.InitializersUncalled :=
  inferInstanceAs (Decidable (∀ method ∈ p.methods, ∀ body ∈ method.body?,
    ∀ i ∈ body.instructions, i.operation.callsInitializer = false))

theorem Program.InitializersUncalled.name_ne {p : Program} (hp : p.InitializersUncalled)
    {m : MethodRef} {obs : Observation} (hobs : obs ∈ p.observed m) {call : Invocation}
    (hcall : obs.1.operation = .invoke call) : call.declared.name ≠ "<clinit>" := by
  obtain ⟨body, hbody, hobs⟩ := (p.mem_observed_iff m obs).1 hobs
  obtain ⟨method, hmethod, hbody⟩ := Option.bind_eq_some_iff.1 hbody
  have hinstruction := (body.mem_instructions_iff obs.1).2 ⟨obs.2, hobs⟩
  have huncalled := hp method (p.mem_methods_of_method? hmethod) body hbody obs.1 hinstruction
  simpa [hcall, Operation.callsInitializer] using huncalled

namespace Hierarchy

theorem name_of_mem_dispatchedTargets (h : Hierarchy) {admits : TypeName → Bool}
    {m t : MethodRef} (ht : t ∈ h.dispatchedTargets admits m) : t.name = m.name := by
  have hselected : ∀ t ∈ h.dispatchTargets m admits, t.name = m.name := by
    intro t ht
    obtain ⟨type, -, -, hselect⟩ := (h.mem_dispatchTargets_iff m t admits).1 ht
    exact h.name_of_select? hselect
  cases hresolve : h.resolve m with
  | resolved target =>
      cases hprivate : (h.program.method? target).any (·.access.isPrivate) with
      | true =>
          rw [h.dispatchedTargets_of_private admits hresolve hprivate] at ht
          rw [Set.mem_singleton_iff.1 ht]
          exact h.name_of_resolve hresolve
      | false =>
          rw [h.dispatchedTargets_of_resolved admits hresolve hprivate] at ht
          exact hselected t ht
  | phantom missing =>
      rw [h.dispatchedTargets_of_phantom admits hresolve] at ht
      exact hselected t ht
  | notFound => simp [dispatchedTargets, hresolve] at ht

theorem name_of_mem_callTargets (h : Hierarchy) {admits : TypeName → Bool}
    {call : Invocation} {t : MethodRef} (ht : t ∈ h.callTargets admits call) :
    t.name = call.declared.name := by
  cases hcall : call.dispatches with
  | true =>
      rw [h.callTargets_of_dispatches admits hcall] at ht
      exact h.name_of_mem_dispatchedTargets ht
  | false =>
      by_cases hkind : call.kind = .dynamic
      · simp [callTargets, hkind] at ht
      · rw [h.callTargets_of_direct admits hcall hkind] at ht
        exact h.name_of_resolve ht

theorem name_of_mem_constructorTargets (h : Hierarchy) {effect : Reflection.Effect}
    {t : MethodRef} (ht : t ∈ h.constructorTargets effect) : t.name = "<init>" := by
  cases effect with
  | start type => simp [constructorTargets] at ht
  | construct type choice =>
      cases hclass : (h.program.class? type).filter ClassDef.isConcrete with
      | none => simp [constructorTargets, hclass] at ht
      | some c =>
          simp only [constructorTargets, hclass, Construction.State.constructorsOf,
            List.mem_map, List.mem_filter, Bool.and_eq_true] at ht
          obtain ⟨method, ⟨-, hconstructor, -⟩, rfl⟩ := ht
          simpa [Method.isConstructor, Method.refIn] using hconstructor

/-- An initializer is no target of an observation. -/
theorem name_ne_of_mem_targets (h : Hierarchy) (huncalled : h.program.InitializersUncalled)
    {m : MethodRef} {obs : Observation} (hobs : obs ∈ h.program.observed m)
    {admits : TypeName → Bool} {t : MethodRef} (ht : t ∈ h.targets admits obs) :
    t.name ≠ "<clinit>" := by
  rcases ht with ⟨call, hcall, ht⟩ | ⟨effect, -, ht⟩
  · rw [h.name_of_mem_callTargets ht]
    exact huncalled.name_ne hobs hcall
  · rw [h.name_of_mem_constructorTargets ht]
    decide

end Hierarchy

namespace Construction

/-- A reachable initializer is a root, or its class is started. -/
def InitializersStarted (entries : List MethodRef) (s : State) : Prop :=
  ∀ m ∈ s.reachable, m.name = "<clinit>" → m ∈ entries ∨ m.owner ∈ s.started

theorem InitializersStarted.addEdge {entries : List MethodRef} {s : State}
    (hs : InitializersStarted entries s) (site : CallSite) {target : MethodRef}
    (htarget : target.name ≠ "<clinit>") : InitializersStarted entries (s.addEdge site target) := by
  intro m hm hname
  rw [State.started_addEdge]
  rcases (s.mem_reachable_addEdge site target m).1 hm with rfl | hm
  · exact absurd hname htarget
  · exact hs m hm hname

theorem InitializersStarted.start {h : Hierarchy} {entries : List MethodRef} {s : State}
    (hs : InitializersStarted entries s) (type : TypeName) :
    InitializersStarted entries (s.start h type) := by
  intro m hm hname
  rw [State.mem_started_start]
  rcases (State.mem_reachable_start h s type m).1 hm with ⟨c, hc, hinit⟩ | hm
  · obtain ⟨method, -, rfl⟩ := Option.map_eq_some_iff.1 hinit
    exact Or.inr (Or.inr ⟨c, hc, rfl⟩)
  · rcases hs m hm hname with hentry | hstarted
    · exact Or.inl hentry
    · exact Or.inr (Or.inl hstarted)

theorem Update.initializersStarted {h : Hierarchy} {entries : List MethodRef} {s s' : State}
    (huncalled : h.program.InitializersUncalled) (hrecorded : Recorded h s)
    (hupdate : Update h s s') (hs : InitializersStarted entries s) :
    InitializersStarted entries s' := by
  cases hupdate with
  | record e => exact hs
  | construct _ _ =>
      obtain ⟨_, heq⟩ := s.observeConstruction_eq _
      rw [heq]
      exact hs
  | start _ _ => exact hs.start _
  | edge hat htarget =>
      exact hs.addEdge _ (h.name_ne_of_mem_targets huncalled hat.observed htarget)
  | dispatch hsite htarget =>
      obtain ⟨-, r, hr, rfl⟩ := hsite
      obtain ⟨-, obs, hat, hcall⟩ := hrecorded.call _ r hr
      refine hs.addEdge _ ?_
      rw [h.name_of_mem_dispatchedTargets htarget]
      exact huncalled.name_ne hat.observed hcall
  | diagnose _ _ _ => exact hs
  | diagnoseDispatch _ _ => exact hs

theorem Step.initializersStarted {h : Hierarchy} {entries : List MethodRef} {s s' : State}
    (huncalled : h.program.InitializersUncalled) (hrecorded : Recorded h s)
    (hstep : Step h s s') (hs : InitializersStarted entries s) :
    InitializersStarted entries s' := by
  rcases hstep.update_or_organizes with hupdate | horganizes
  · exact hupdate.initializersStarted huncalled hrecorded hs
  · intro m hm hname
    rw [horganizes.reachable] at hm
    rw [horganizes.started]
    exact hs m hm hname

theorem initializersStarted_initial (h : Hierarchy) (strategy : Strategy)
    (entries : List MethodRef) :
    InitializersStarted entries (initial h strategy entries) := by
  intro m hm _
  exact Or.inl ((mem_reachable_initial h strategy entries m).1 hm)

/-- In every outcome, the class of a reachable initializer that is no root has the
initializers of all classes above it reachable. -/
theorem initializers_above_mem_reachable {h : Hierarchy}
    (huncalled : h.program.InitializersUncalled) (o : Options) (clock : Nat → Nat)
    (strategy : Strategy) {entries : List MethodRef} {type : TypeName} {d : ClassDef}
    (hentries : (⟨type, "<clinit>", "()V"⟩ : MethodRef) ∉ entries)
    (hreachable : (⟨type, "<clinit>", "()V"⟩ : MethodRef) ∈
      (build h o clock strategy entries).graph.reachable)
    (hd : h.program.OnChain type d) (hdeclares : d.declares "<clinit>" "()V" = true) :
    (⟨d.name, "<clinit>", "()V"⟩ : MethodRef) ∈
      (build h o clock strategy entries).graph.reachable := by
  have hinitial := wellFormed_initial h strategy entries
  have hsteps := steps_run h o clock (turnBound h entries) 0 hinitial.swept
  have hwf := hsteps.wellFormed hinitial
  have hinitializers := hsteps.keeps_of_wellFormed
    (fun _ _ hstep hwf => hstep.initializersStarted huncalled hwf.recorded) hinitial
    (initializersStarted_initial h strategy entries)
  rw [graph_build] at hreachable ⊢
  have hstarted := (hinitializers _ hreachable rfl).resolve_left hentries
  exact (hwf.startedAbove type hstarted d hd).2 _
    (ClassDef.staticInitializer?_of_declares hdeclares)

end Construction

/-- The class is started by being among the roots: as the main class, or as a target class
of a library. -/
def EntryMode.Starts : EntryMode → ClassDef → Prop
  | .mainClass name, c => c.name = name
  | .library, c => c.isTarget = true

instance (mode : EntryMode) (c : ClassDef) : Decidable (mode.Starts c) := by
  cases mode with
  | mainClass name => exact inferInstanceAs (Decidable (c.name = name))
  | library => exact inferInstanceAs (Decidable (c.isTarget = true))

namespace Hierarchy

theorem entryPoints_mainClass_eq_ok (h : Hierarchy) {name : TypeName}
    {entries : List MethodRef} (hentries : h.entryPoints (.mainClass name) = .ok entries) :
    ∃ (c : ClassDef) (main : Method), h.program.class? name = some c ∧
      entries = main.refIn name :: c.staticInitializer?.toList := by
  rw [entryPoints] at hentries
  cases hc : h.program.class? name with
  | none => simp [hc] at hentries
  | some c =>
      simp only [hc] at hentries
      split at hentries
      · cases hentries
      · next main _ => exact ⟨c, main, rfl, (Except.ok.inj hentries).symm⟩

/-- Each root is a method of a class that the roots start. -/
theorem starts_of_mem_entryPoints (h : Hierarchy) {mode : EntryMode} {entries : List MethodRef}
    (hentries : h.entryPoints mode = .ok entries) {c : ClassDef}
    (hc : h.program.class? c.name = some c) {m : MethodRef} (hm : m ∈ entries)
    (howner : m.owner = c.name) : mode.Starts c := by
  cases mode with
  | mainClass name =>
      obtain ⟨d, main, hd, rfl⟩ := h.entryPoints_mainClass_eq_ok hentries
      rcases List.mem_cons.1 hm with rfl | hm
      · exact howner.symm
      · obtain ⟨method, -, rfl⟩ := Option.map_eq_some_iff.1 (Option.mem_toList.1 hm)
        exact howner.symm.trans (h.program.name_eq_of_class? hd)
  | library =>
      cases hentries
      obtain ⟨d, hd, hm⟩ := List.mem_flatMap.1 hm
      obtain ⟨hd, htarget⟩ := List.mem_filter.1 hd
      obtain ⟨method, -, rfl⟩ := List.mem_map.1 hm
      have hname : d.name = c.name := howner
      rw [Program.mem_classes_iff, hname, hc] at hd
      cases hd
      exact htarget

/-- The initializer of a class that the roots start is a root. -/
theorem mem_entryPoints_of_starts (h : Hierarchy) {mode : EntryMode} {entries : List MethodRef}
    (hentries : h.entryPoints mode = .ok entries) {c : ClassDef}
    (hc : h.program.class? c.name = some c) (hstarts : mode.Starts c) {m : MethodRef}
    (hm : c.staticInitializer? = some m) : m ∈ entries := by
  cases mode with
  | mainClass name =>
      obtain ⟨d, main, hd, rfl⟩ := h.entryPoints_mainClass_eq_ok hentries
      have hname : c.name = name := hstarts
      rw [← hname, hc] at hd
      cases hd
      simp [hm]
  | library =>
      cases hentries
      obtain ⟨method, hmethod, rfl⟩ := Option.map_eq_some_iff.1 hm
      refine List.mem_flatMap.2 ⟨c, List.mem_filter.2 ⟨?_, hstarts⟩, ?_⟩
      · exact (h.program.mem_classes_iff c).2 hc
      · have hname := List.find?_some hmethod
        simp only [Bool.and_eq_true, beq_iff_eq] at hname
        refine List.mem_map.2 ⟨method, List.mem_filter.2 ⟨?_, ?_⟩, rfl⟩
        · exact List.mem_of_find?_eq_some hmethod
        · simp [Method.isStaticInitializer, hname.1]

end Hierarchy

namespace Construction

/-- In every outcome the reachable initializers are closed upwards along superclass
chains, if no class is started by the roots without those above it. -/
theorem reachable_initializers_upward_closed (h : Hierarchy)
    (huncalled : h.program.InitializersUncalled) (mode : EntryMode) (entries : List MethodRef)
    (hentries : h.entryPoints mode = .ok entries) (o : Options) (clock : Nat → Nat)
    (strategy : Strategy) (c d : ClassDef) (hc : h.program.class? c.name = some c)
    (hd : h.program.OnChain c.name d) (hdeclares : d.declares "<clinit>" "()V" = true)
    (hstarts : mode.Starts c → mode.Starts d)
    (hreachable : (⟨c.name, "<clinit>", "()V"⟩ : MethodRef) ∈
      (build h o clock strategy entries).graph.reachable) :
    (⟨d.name, "<clinit>", "()V"⟩ : MethodRef) ∈
      (build h o clock strategy entries).graph.reachable := by
  have hinit := ClassDef.staticInitializer?_of_declares hdeclares
  by_cases hentry : (⟨c.name, "<clinit>", "()V"⟩ : MethodRef) ∈ entries
  · have hclass := h.program.class?_of_onChain hd
    have hstarted := hstarts (h.starts_of_mem_entryPoints hentries hc hentry rfl)
    exact mem_reachable_build_of_mem h o clock strategy
      (h.mem_entryPoints_of_starts hentries hclass hstarted hinit)
  · exact initializers_above_mem_reachable huncalled o clock strategy hentry hreachable hd
      hdeclares

def rootMain : MethodRef := ⟨"App", "main", "([Ljava/lang/String;)V"⟩

def rootInitializer : Method := { name := "<clinit>", descriptor := "()V", body? := some {} }

def rootBase : ClassDef := { name := "Base", methods := [rootInitializer] }

def rootApp : ClassDef :=
  { name := "App"
    superclass? := some "Base"
    methods := [
      { name := "main"
        descriptor := "([Ljava/lang/String;)V"
        access := { isPublic := true, isStatic := true }
        body? := some { instructions := [⟨0, .new "Helper"⟩] } },
      rootInitializer] }

def rootSupport : ClassDef := { name := "Support", methods := [rootInitializer] }

def rootHelper : ClassDef :=
  { name := "Helper", superclass? := some "Support", methods := [rootInitializer] }

/-- A program whose main class has a superclass to initialize, as has the class that it
constructs. -/
def rootBelow : Hierarchy where
  program :=
    { index := Program.indexOf [rootBase, rootApp, rootSupport, rootHelper]
      name_eq_of_getElem? := Program.name_eq_of_getElem?_indexOf _ }
  acyclic := by decide +kernel

theorem reachable_initializers_upward_closed_rootBelow :
    rootBelow.program.InitializersUncalled ∧
      rootBelow.entryPoints (.mainClass "App") =
        .ok [rootMain, ⟨"App", "<clinit>", "()V"⟩] ∧
      (⟨"Helper", "<clinit>", "()V"⟩ : MethodRef) ∈
        (build rootBelow {} (fun _ => 0) (.ofAlgorithm .rta)
          [rootMain, ⟨"App", "<clinit>", "()V"⟩]).graph.reachable ∧
      (⟨"Support", "<clinit>", "()V"⟩ : MethodRef) ∈
        (build rootBelow {} (fun _ => 0) (.ofAlgorithm .rta)
          [rootMain, ⟨"App", "<clinit>", "()V"⟩]).graph.reachable := by
  have huncalled : rootBelow.program.InitializersUncalled := by decide +kernel
  have hentries : rootBelow.entryPoints (.mainClass "App") =
      .ok [rootMain, ⟨"App", "<clinit>", "()V"⟩] := by decide +kernel
  have hsupport : rootBelow.program.OnChain "Helper" rootSupport :=
    .above (c := rootHelper) (by decide +kernel) rfl (.here (by decide +kernel))
  have hreachable : (⟨"Helper", "<clinit>", "()V"⟩ : MethodRef) ∈
      (build rootBelow {} (fun _ => 0) (.ofAlgorithm .rta)
        [rootMain, ⟨"App", "<clinit>", "()V"⟩]).graph.reachable := by decide +kernel
  refine ⟨huncalled, hentries, hreachable, ?_⟩
  exact reachable_initializers_upward_closed rootBelow huncalled (.mainClass "App")
    [rootMain, ⟨"App", "<clinit>", "()V"⟩] hentries {} (fun _ => 0) (.ofAlgorithm .rta)
    rootHelper rootSupport (by decide +kernel) hsupport (by decide +kernel) (by decide)
    hreachable

/-- The initializer of the main class is reachable, that of its superclass is not. -/
theorem base_notMem_reachable_rootBelow :
    rootBelow.entryPoints (.mainClass "App") =
        .ok [rootMain, ⟨"App", "<clinit>", "()V"⟩] ∧
      (build rootBelow {} (fun _ => 0) (.ofAlgorithm .cha)
        [rootMain, ⟨"App", "<clinit>", "()V"⟩]).interrupt? = none ∧
      (⟨"App", "<clinit>", "()V"⟩ : MethodRef) ∈
        (build rootBelow {} (fun _ => 0) (.ofAlgorithm .cha)
          [rootMain, ⟨"App", "<clinit>", "()V"⟩]).graph.reachable ∧
      rootBelow.program.OnChain "App" rootBase ∧
      rootBase.declares "<clinit>" "()V" = true ∧
      (⟨"Base", "<clinit>", "()V"⟩ : MethodRef) ∉
        (build rootBelow {} (fun _ => 0) (.ofAlgorithm .cha)
          [rootMain, ⟨"App", "<clinit>", "()V"⟩]).graph.reachable := by
  have hbase : rootBelow.program.OnChain "App" rootBase :=
    .above (c := rootApp) (by decide +kernel) rfl (.here (by decide +kernel))
  exact ⟨by decide +kernel, by decide +kernel, by decide +kernel, hbase, by decide +kernel,
    by decide +kernel⟩

end Construction

end JvmReach
