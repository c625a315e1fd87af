import JvmReach.EntryPoint
import JvmReach.Proofs.Construction.Comparison
import JvmReach.Proofs.Hierarchy.SameLookup
import JvmReach.Report.Basic

/-!
# The order of loading

Rearranged classes lead to the same report. The programs they form declare the same, so
their hierarchies are acyclic together and follow the same rules. Entry points are the same
methods, in another order perhaps, and two constructions from them differ in the order of
discovery only, of which a report says nothing.
-/

namespace JvmReach

/-- Both fail, or both succeed with results that are related. -/
inductive Agree {ε ε' α β : Type} (r : α → β → Prop) : Except ε α → Except ε' β → Prop
  | error (e : ε) (e' : ε') : Agree r (.error e) (.error e')
  | ok {a : α} {b : β} (hab : r a b) : Agree r (.ok a) (.ok b)

theorem Agree.imp {ε ε' α β : Type} {r r' : α → β → Prop} {x : Except ε α} {y : Except ε' β}
    (h : Agree r x y) (hr : ∀ a b, r a b → r' a b) : Agree r' x y := by
  cases h with
  | error e e' => exact .error e e'
  | ok hab => exact .ok (hr _ _ hab)

namespace Program.SameDeclarations

theorem distinctOffsets {p p' : Program} (hp : p.SameDeclarations p')
    (hoffsets : p.DistinctOffsets) : p'.DistinctOffsets :=
  fun method hmethod => hoffsets method (hp.symm.mem_methods_of_mem hmethod)

variable {h h' : Hierarchy}

theorem sameRules (hp : h.program.SameDeclarations h'.program) : h.SameRules h' where
  method? := hp.method?
  resolve := Hierarchy.resolve_eq hp
  dispatchTargets := Hierarchy.dispatchTargets_eq hp
  mem_constructorTargets effect t := by
    cases effect with
    | start type => exact Iff.rfl
    | construct type choice =>
        rcases hp.concrete_cases type with ⟨hnone, hnone'⟩ | ⟨c, c', hc, hc', hmembers⟩
        · simp only [Hierarchy.constructorTargets, hnone, hnone']
        · simp only [Hierarchy.constructorTargets, hc, hc', Construction.State.constructorsOf,
            List.mem_map, List.mem_filter, hmembers.mem_methods, hmembers.name]
  constructedBy effect := by
    cases effect with
    | start type => rfl
    | construct type choice =>
        rcases hp.concrete_cases type with ⟨hnone, hnone'⟩ | ⟨c, c', hc, hc', -⟩
        · simp only [Hierarchy.constructedBy, hnone, hnone']
        · simp only [Hierarchy.constructedBy, hc, hc']
  initializers type := by
    have hmap : (h.superclassChain type).classes.map ClassDef.staticInitializer? =
        (h'.superclassChain type).classes.map ClassDef.staticInitializer? :=
      map_eq_of_forall₂ (Hierarchy.forall₂_superclassChain hp type) fun _ _ hc =>
        hc.staticInitializer?
    simpa only [Hierarchy.initializers, List.filterMap_map, Function.id_comp] using
      congrArg (List.filterMap id) hmap

end Program.SameDeclarations

namespace Hierarchy

theorem agree_ofProgram {p p' : Program} (hp : p.SameDeclarations p') :
    Agree (fun h h' : Hierarchy => h.program = p ∧ h'.program = p') (ofProgram p)
      (ofProgram p') := by
  cases hcycle : p.cycle? with
  | none =>
      have hcycle' := hp.cycle?_eq_none_iff.1 hcycle
      rw [ofProgram_eq_ok hcycle, ofProgram_eq_ok hcycle']
      exact .ok ⟨rfl, rfl⟩
  | some name =>
      cases hcycle' : p'.cycle? with
      | none =>
          rw [hp.cycle?_eq_none_iff.2 hcycle'] at hcycle
          cases hcycle
      | some name' =>
          rw [ofProgram_eq_error hcycle, ofProgram_eq_error hcycle']
          exact .error _ _

variable {h h' : Hierarchy}

theorem mem_libraryRoots_congr {c c' : ClassDef} (hc : c.SameMembers c') (m : MethodRef) :
    m ∈ libraryRoots c ↔ m ∈ libraryRoots c' := by
  simp only [libraryRoots, List.mem_map, List.mem_filter, hc.mem_methods, hc.name]

theorem mem_entryPoints_library (hp : h.program.SameDeclarations h'.program) {m : MethodRef}
    (hm : m ∈ (h.program.classes.filter ClassDef.isTarget).flatMap libraryRoots) :
    m ∈ (h'.program.classes.filter ClassDef.isTarget).flatMap libraryRoots := by
  obtain ⟨c, hc, hm⟩ := List.mem_flatMap.1 hm
  obtain ⟨hc, htarget⟩ := List.mem_filter.1 hc
  obtain ⟨c', hc', hmembers⟩ := hp.exists_mem_classes hc
  rw [hmembers.isTarget] at htarget
  exact List.mem_flatMap.2 ⟨c', List.mem_filter.2 ⟨hc', htarget⟩,
    (mem_libraryRoots_congr hmembers m).1 hm⟩

/-- Entry points are the same methods. -/
theorem agree_entryPoints (hp : h.program.SameDeclarations h'.program) (mode : EntryMode) :
    Agree (fun entries entries' : List MethodRef => ∀ m, m ∈ entries ↔ m ∈ entries')
      (h.entryPoints mode) (h'.entryPoints mode) := by
  cases mode with
  | mainClass name =>
      rcases hp.class? name with ⟨hnone, hnone'⟩ | ⟨c, c', hc, hc', hmembers⟩
      · simp only [entryPoints, hnone, hnone']
        exact .error _ _
      · simp only [entryPoints, hc, hc', hmembers.method?, hmembers.staticInitializer?]
        split
        · exact .error _ _
        · exact .ok fun _ => Iff.rfl
  | library =>
      exact .ok fun _ => ⟨mem_entryPoints_library hp, mem_entryPoints_library hp.symm⟩

end Hierarchy

theorem CallGraph.SameUpToOrder.ofGraph_eq {g g' : CallGraph} (hg : g.SameUpToOrder g') :
    Report.ofGraph g = Report.ofGraph g' := by
  simp only [Report.ofGraph, CallGraph.edgeCount, CallGraph.edges, hg.algorithm, hg.reachable,
    hg.sites, hg.diagnostics]

/-- No body has two instructions at one offset. -/
def ClassDef.DistinctOffsets (c : ClassDef) : Prop :=
  ∀ method ∈ c.methods, ∀ body ∈ method.body?,
    (body.instructions.map Instruction.offset).Nodup

instance (c : ClassDef) : Decidable c.DistinctOffsets :=
  inferInstanceAs (Decidable (∀ method ∈ c.methods, ∀ body ∈ method.body?,
    (body.instructions.map Instruction.offset).Nodup))

namespace Construction

/-- Two constructions that come to their end with the same diagnostics, and with the same
text of the report if there is one. -/
structure Outcome.SameReport (o o' : Outcome) : Prop where
  ends : o.interrupt? = none
  ends' : o'.interrupt? = none
  diagnostics : o.graph.diagnostics = o'.graph.diagnostics
  text : (Report.ofGraph o.graph).map Report.render = (Report.ofGraph o'.graph).map Report.render

/-- From the lists of classes to the reports, each stage fails for both or succeeds for
both: forming a program, its hierarchy, the entry points, and then the report. -/
def LoadedAlike (mode : EntryMode) (a : Algorithm) (clock clock' : Nat → Nat)
    (classes classes' : List ClassDef) : Prop :=
  Agree (fun p p' => Agree (fun h h' => Agree (fun entries entries' =>
          (build h {} clock (.ofAlgorithm a) entries).SameReport
            (build h' {} clock' (.ofAlgorithm a) entries'))
        (h.entryPoints mode) (h'.entryPoints mode))
      (Hierarchy.ofProgram p) (Hierarchy.ofProgram p'))
    (Program.ofClasses classes) (Program.ofClasses classes')

theorem sameReport_build {h h' : Hierarchy} (hp : h.program.SameDeclarations h'.program)
    (hoffsets : h.program.DistinctOffsets) (a : Algorithm) (clock clock' : Nat → Nat)
    {entries entries' : List MethodRef} (hentries : ∀ m, m ∈ entries ↔ m ∈ entries') :
    (build h {} clock (.ofAlgorithm a) entries).SameReport
      (build h' {} clock' (.ofAlgorithm a) entries') := by
  have hsame := sameUpToOrder_build hp.sameRules hoffsets (hp.distinctOffsets hoffsets) a clock
    clock' hentries
  constructor
  · exact interrupt?_build h a clock entries
  · exact interrupt?_build h' a clock' entries'
  · exact hsame.diagnostics
  · rw [hsame.ofGraph_eq]

/-- The order in which classes are loaded, and that of the methods and interfaces in each
class, leaves no trace in the report. -/
theorem loadedAlike_of_rearranged (classes classes' : List ClassDef)
    (hnames : (classes.map ClassDef.name).Nodup)
    (hmethods : ∀ c ∈ classes, c.DistinctMethods)
    (hoffsets : ∀ c ∈ classes, c.DistinctOffsets)
    (hrearranged : Rearranged classes classes') (mode : EntryMode) (a : Algorithm)
    (clock clock' : Nat → Nat) : LoadedAlike mode a clock clock' classes classes' := by
  obtain ⟨p, hok, hclasses⟩ := Program.ofClasses_eq_ok hnames
  obtain ⟨p', hok', hclasses'⟩ := Program.ofClasses_eq_ok (hrearranged.nodup_names hnames)
  have hdeclarations : p.SameDeclarations p' :=
    Program.sameDeclarations_of_rearranged
      ((hrearranged.perm_left hclasses).perm_right hclasses'.symm)
      fun c hc => hmethods c (hclasses.mem_iff.1 hc)
  have hdistinct : p.DistinctOffsets := by
    intro method hmethod
    obtain ⟨c, hc, hmethod⟩ := List.mem_flatMap.1 hmethod
    exact hoffsets c (hclasses.mem_iff.1 hc) method hmethod
  rw [LoadedAlike, hok, hok']
  refine .ok ((Hierarchy.agree_ofProgram hdeclarations).imp ?_)
  rintro h h' ⟨rfl, rfl⟩
  refine (Hierarchy.agree_entryPoints hdeclarations mode).imp ?_
  intro entries entries' hentries
  exact sameReport_build hdeclarations hdistinct a clock clock' hentries

def loadMain : Method :=
  { name := "main"
    descriptor := "([Ljava/lang/String;)V"
    access := { isPublic := true, isStatic := true }
    body? := some { instructions := [
      ⟨0, .new "Worker"⟩,
      ⟨3, .invoke { declared := ⟨"Worker", "run", "()V"⟩, kind := .virtual }⟩,
      ⟨6, .invoke { declared := ⟨"Worker", "stop", "()V"⟩, kind := .virtual }⟩] } }

def loadInitializer : Method := { name := "<clinit>", descriptor := "()V", body? := some {} }

def loadTask : ClassDef :=
  { name := "Task"
    access := { isInterface := true, isAbstract := true }
    methods := [{ name := "run", descriptor := "()V", body? := some {} }] }

def loadApp (methods : List Method) : ClassDef := { name := "App", methods := methods }

def loadWorker (interfaces : List TypeName) : ClassDef :=
  { name := "Worker", interfaces := interfaces }

def loadedClasses : List ClassDef :=
  [loadApp [loadMain, loadInitializer], loadTask, loadWorker ["Gone", "Task", "Lost"]]

/-- The same classes in another order; two of the interfaces of `Worker` are missing. -/
def reloadedClasses : List ClassDef :=
  [loadWorker ["Lost", "Gone", "Task"], loadApp [loadInitializer, loadMain], loadTask]

theorem rearranged_loadedClasses : Rearranged loadedClasses reloadedClasses := by
  refine ⟨[loadApp [loadInitializer, loadMain], loadTask, loadWorker ["Lost", "Gone", "Task"]],
    .cons ?_ (.cons ?_ (.cons ?_ .nil)), by decide +kernel⟩
  · exact ⟨rfl, rfl, by decide, rfl, rfl, by decide +kernel, rfl⟩
  · exact ⟨rfl, rfl, by decide, rfl, rfl, by decide +kernel, rfl⟩
  · exact ⟨rfl, rfl, by decide, rfl, rfl, by decide, rfl⟩

theorem loadedAlike_loadedClasses :
    (loadedClasses.map ClassDef.name).Nodup ∧
      (∀ c ∈ loadedClasses, c.DistinctMethods) ∧
      (∀ c ∈ loadedClasses, c.DistinctOffsets) ∧
      Rearranged loadedClasses reloadedClasses ∧
      LoadedAlike .library .rta (fun _ => 0) (fun _ => 1) loadedClasses reloadedClasses := by
  have hnames : (loadedClasses.map ClassDef.name).Nodup := by decide
  have hmethods : ∀ c ∈ loadedClasses, c.DistinctMethods := by decide +kernel
  have hoffsets : ∀ c ∈ loadedClasses, c.DistinctOffsets := by decide +kernel
  exact ⟨hnames, hmethods, hoffsets, rearranged_loadedClasses,
    loadedAlike_of_rearranged loadedClasses reloadedClasses hnames hmethods hoffsets
      rearranged_loadedClasses .library .rta (fun _ => 0) (fun _ => 1)⟩

end Construction

end JvmReach
