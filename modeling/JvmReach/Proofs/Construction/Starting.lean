import JvmReach.Proofs.Construction.Invariants

/-!
# Starting a type

Starting a type stops at the first class of its superclass chain that has been
started before. No initializer further up is lost, because of `StartedAbove`:
with a started type all classes on its chain are started, and their static
initializers are reachable. The property says nothing about how a chain was first
entered, so chains may overlap, share their upper part, or end at a type that the
program lacks.
-/

namespace JvmReach.Construction

/-- All classes on the chain of the type are started. -/
def Initialized (h : Hierarchy) (s : State) (type : TypeName) : Prop :=
  ∀ c, h.program.OnChain type c → c.name ∈ s.started

theorem Initialized.mono {h : Hierarchy} {s s' : State} {type : TypeName}
    (htype : Initialized h s type) (hstarted : ∀ other ∈ s.started, other ∈ s'.started) :
    Initialized h s' type := by
  intro c hc
  exact hstarted c.name (htype c hc)

/-- With a started type all classes on its superclass chain are started, and
their static initializers are reachable. -/
def StartedAbove (h : Hierarchy) (s : State) : Prop :=
  ∀ type ∈ s.started, ∀ c, h.program.OnChain type c →
    c.name ∈ s.started ∧ ∀ m, c.staticInitializer? = some m → m ∈ s.reachable

theorem StartedAbove.mono {h : Hierarchy} {s s' : State} (hs : StartedAbove h s)
    (hstarted : s'.started = s.started) (hreachable : ∀ m ∈ s.reachable, m ∈ s'.reachable) :
    StartedAbove h s' := by
  intro type htype c hc
  rw [hstarted] at htype ⊢
  obtain ⟨hname, hinit⟩ := hs type htype c hc
  exact ⟨hname, fun m hm => hreachable m (hinit m hm)⟩

/-- The start of a list without `p` is met before anything that has `p`. -/
theorem mem_takeWhile_of_pairwise {α : Type} {r : α → α → Prop} {p : α → Bool}
    {l : List α} {a : α} (hl : l.Pairwise r) (ha : a ∈ l) (hp : p a = true)
    (hbefore : ∀ b, r b a → p b = true) : a ∈ l.takeWhile p := by
  induction l with
  | nil => cases ha
  | cons b rest ih =>
      obtain ⟨hb, hrest⟩ := List.pairwise_cons.1 hl
      rcases List.mem_cons.1 ha with rfl | ha
      · rw [List.takeWhile_cons_of_pos hp]
        exact List.mem_cons_self
      · rw [List.takeWhile_cons_of_pos (hbefore b (hb a ha))]
        exact List.mem_cons_of_mem b (ih hrest ha)

/-- A class of the chain that is not started has no started class below it. -/
theorem StartedAbove.mem_newlyStarted {h : Hierarchy} {s : State} (hs : StartedAbove h s)
    {type : TypeName} {c : ClassDef} (hc : h.program.OnChain type c) (hnew : c.name ∉ s.started) :
    c ∈ s.newlyStarted h type := by
  have hmem := (h.mem_superclassChain_iff type c).2 hc
  have hfresh : (!s.started.contains c.name) = true := by
    simpa [← Std.ExtTreeSet.contains_iff_mem] using hnew
  apply mem_takeWhile_of_pairwise (h.pairwise_superclassChain type) hmem hfresh
  -- a started class below it would have started it
  intro b hb
  by_contra hold
  have hold : b.name ∈ s.started := by simpa using hold
  exact hnew (hs b.name hold c hb).1

/-- After a type is started, its whole chain is started and initialized. -/
theorem StartedAbove.start_onChain {h : Hierarchy} {s : State} (hs : StartedAbove h s)
    {type : TypeName} {c : ClassDef} (hc : h.program.OnChain type c) :
    c.name ∈ (s.start h type).started ∧
      ∀ m, c.staticInitializer? = some m → m ∈ (s.start h type).reachable := by
  have hclass := h.program.class?_of_onChain hc
  by_cases hold : c.name ∈ s.started
  · obtain ⟨-, hinit⟩ := hs c.name hold c (.here hclass)
    refine ⟨(s.grows_start h type).started c.name hold, ?_⟩
    intro m hm
    exact (s.grows_start h type).reachable m (hinit m hm)
  · have hnew := hs.mem_newlyStarted hc hold
    refine ⟨(State.mem_started_start h s type c.name).2 (Or.inr ⟨c, hnew, rfl⟩), ?_⟩
    intro m hm
    exact (State.mem_reachable_start h s type m).2 (Or.inl ⟨c, hnew, hm⟩)

theorem StartedAbove.initialized_start {h : Hierarchy} {s : State} (hs : StartedAbove h s)
    (type : TypeName) : Initialized h (s.start h type) type := by
  intro c hc
  exact (hs.start_onChain hc).1

theorem StartedAbove.start {h : Hierarchy} {s : State} (hs : StartedAbove h s)
    (type : TypeName) : StartedAbove h (s.start h type) := by
  intro other hother c hc
  rcases (State.mem_started_start h s type other).1 hother with hold | ⟨b, hb, rfl⟩
  · obtain ⟨hname, hinit⟩ := hs other hold c hc
    refine ⟨(s.grows_start h type).started c.name hname, ?_⟩
    intro m hm
    exact (s.grows_start h type).reachable m (hinit m hm)
  · have hb := (h.mem_superclassChain_iff type b).1 (List.takeWhile_subset _ hb)
    exact hs.start_onChain (hb.trans hc)

@[simp] theorem State.started_addEdge (s : State) (site : CallSite) (target : MethodRef) :
    (s.addEdge site target).started = s.started := by
  obtain ⟨_, _, _, heq⟩ := s.discover_eq target
  simp only [addEdge, heq]

@[simp] theorem State.started_observeConstruction (s : State) (type : TypeName) :
    (s.observeConstruction type).started = s.started := by
  obtain ⟨_, heq⟩ := s.observeConstruction_eq type
  rw [heq]

theorem Update.startedAbove {h : Hierarchy} {s s' : State} (hupdate : Update h s s')
    (hs : StartedAbove h s) : StartedAbove h s' := by
  have hreachable := hupdate.grows.reachable
  cases hupdate with
  | record e => exact hs
  | construct _ _ => exact hs.mono (s.started_observeConstruction _) hreachable
  | start _ _ => exact hs.start _
  | edge _ _ => exact hs.mono (s.started_addEdge _ _) hreachable
  | dispatch _ _ => exact hs.mono (s.started_addEdge _ _) hreachable
  | diagnose _ _ _ => exact hs
  | diagnoseDispatch _ _ => exact hs

theorem Step.startedAbove {h : Hierarchy} {s s' : State} (hstep : Step h s s')
    (hs : StartedAbove h s) : StartedAbove h s' := by
  rcases hstep.update_or_organizes with hupdate | horganizes
  · exact hupdate.startedAbove hs
  · apply hs.mono horganizes.started
    intro m hm
    rwa [horganizes.reachable]

end JvmReach.Construction
