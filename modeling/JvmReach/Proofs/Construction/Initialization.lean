import JvmReach.Proofs.Construction.Interruption

/-!
# Initialization is complete

A construction that is not interrupted has scanned every observation of every
reachable method, and a scan starts the types that its observation starts. With a
started type its whole superclass chain is started, wherever the walks along the
chain stopped, so no static initializer on it is missed. Nothing is asked of the
offsets, the options or the strategy.
-/

namespace JvmReach

/-- A class whose static initializer is declared runs that initializer. -/
theorem ClassDef.staticInitializer?_of_declares {c : ClassDef}
    (hdeclares : c.declares "<clinit>" "()V" = true) :
    c.staticInitializer? = some ⟨c.name, "<clinit>", "()V"⟩ := by
  obtain ⟨method, hmethod⟩ := Option.isSome_iff_exists.1 hdeclares
  have hfound := List.find?_some hmethod
  simp only [Bool.and_eq_true, beq_iff_eq] at hfound
  simp [staticInitializer?, hmethod, Method.refIn, hfound]

namespace Construction

/-- A finished construction has taken up every reachable method. -/
theorem Finished.mem_processed {h : Hierarchy} {entries : List MethodRef} {s : State}
    (hs : Finished s) (hwf : WellFormed h entries s) {m : MethodRef} (hm : m ∈ s.reachable) :
    m ∈ s.processed := by
  rwa [← hwf.listed.mem_iff, State.discovered, hs.pending, List.append_nil] at hm

/-- What is initialized has its static initializers reachable. -/
theorem Initialized.mem_reachable {h : Hierarchy} {s : State} {type : TypeName}
    (htype : Initialized h s type) (hs : StartedAbove h s) {c : ClassDef}
    (hc : h.program.OnChain type c) {m : MethodRef} (hm : c.staticInitializer? = some m) :
    m ∈ s.reachable :=
  (hs c.name (htype c hc) c (.here (h.program.class?_of_onChain hc))).2 m hm

/-- In a graph that nothing interrupted, every type that an observation of a
reachable method starts has all static initializers on its chain reachable. -/
theorem staticInitializer_mem_reachable (h : Hierarchy) (o : Options) (clock : Nat → Nat)
    (strategy : Strategy) (entries : List MethodRef)
    (hbuild : (build h o clock strategy entries).interrupt? = none) :
    ∀ m ∈ (build h o clock strategy entries).graph.reachable,
      ∀ obs ∈ h.program.observed m, ∀ type ∈ h.started obs,
        ∀ d, h.program.OnChain type d → d.declares "<clinit>" "()V" = true →
          (⟨d.name, "<clinit>", "()V"⟩ : MethodRef) ∈
            (build h o clock strategy entries).graph.reachable := by
  obtain ⟨s, hrun⟩ := exists_run_of_build hbuild
  have hinitial := wellFormed_initial h strategy entries
  have hwf := wellFormed_run hinitial hrun
  have hfollowed := followed_run hrun hinitial (followed_initial h strategy entries)
  rw [build_of_run hrun]
  intro m hm obs hobs type htype d hd hdeclares
  have hprocessed := (finished_of_eq_ok hrun).mem_processed hwf hm
  have hscanned := hfollowed m hprocessed obs hobs
  exact (hscanned.started type htype).mem_reachable hwf.startedAbove hd
    (ClassDef.staticInitializer?_of_declares hdeclares)

def overlapMain : MethodRef := ⟨"App", "main", "()V"⟩

def overlapBase : ClassDef :=
  { name := "Base"
    methods := [{ name := "<clinit>", descriptor := "()V" }] }

def overlapMiddle : ClassDef :=
  { name := "Middle"
    superclass? := some "Base"
    methods := [{ name := "<clinit>", descriptor := "()V" }] }

def overlapLeaf : ClassDef := { name := "Leaf", superclass? := some "Middle" }

/-- A program whose second start enters a chain below a class that is started by then. -/
def overlap : Hierarchy where
  program :=
    { index := Program.indexOf [overlapBase, overlapMiddle, overlapLeaf,
        { name := "App"
          methods := [{
            name := "main"
            descriptor := "()V"
            body? := some { instructions := [⟨0, .new "Middle"⟩, ⟨3, .staticField "Leaf"⟩] } }] }]
      name_eq_of_getElem? := Program.name_eq_of_getElem?_indexOf _ }
  acyclic := by decide +kernel

theorem base_mem_reachable_overlap :
    (build overlap {} (fun _ => 0) (.ofAlgorithm .rta) [overlapMain]).interrupt? = none ∧
      (⟨"Base", "<clinit>", "()V"⟩ : MethodRef) ∈
        (build overlap {} (fun _ => 0) (.ofAlgorithm .rta) [overlapMain]).graph.reachable := by
  have hbase : overlap.program.OnChain "Leaf" overlapBase :=
    .above (c := overlapLeaf) (by decide +kernel) rfl
      (.above (c := overlapMiddle) (by decide +kernel) rfl (.here (by decide +kernel)))
  refine ⟨by decide +kernel, ?_⟩
  exact staticInitializer_mem_reachable overlap {} (fun _ => 0) (.ofAlgorithm .rta) [overlapMain]
    (by decide +kernel) overlapMain (by decide +kernel) (⟨3, .staticField "Leaf"⟩, none)
    (by decide +kernel) "Leaf" (by decide +kernel) overlapBase hbase (by decide +kernel)

end Construction

end JvmReach
