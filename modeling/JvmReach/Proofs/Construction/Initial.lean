import JvmReach.Proofs.Construction.Turns

/-!
# Where a construction starts

Before the first turn the entries are the reachable methods, and the classes of
the constructors among them are the receiver types that have been admitted. No
method has been taken up and no site opened, so what turns keep holds trivially.
-/

namespace JvmReach

namespace Strategy

theorem foldl_onEntryPoint_eq (s : Strategy) (p : Program) (entries : List MethodRef) :
    entries.foldl (·.onEntryPoint p) s = (entries.map .entry).foldl (observe p) s := by
  rw [List.foldl_map]
  rfl

@[simp] theorem algorithm_foldl_onEntryPoint (s : Strategy) (p : Program)
    (entries : List MethodRef) :
    (entries.foldl (·.onEntryPoint p) s).algorithm = s.algorithm := by
  rw [foldl_onEntryPoint_eq, algorithm_foldl_observe]

theorem admits_foldl_onEntryPoint (s : Strategy) (p : Program) (entries : List MethodRef)
    (type : TypeName) :
    (entries.foldl (·.onEntryPoint p) s).admits type = true ↔ s.admits type = true ∨
      (s.algorithm = .rta ∧
        ∃ e ∈ entries, isConstructorRoot p e = true ∧ e.owner = type) := by
  rw [foldl_onEntryPoint_eq, admits_foldl_observe]
  simp only [List.mem_map, exists_exists_and_eq_and, Event.constructs_entry_iff]

end Strategy

namespace Construction

namespace State

@[simp] theorem strategy_discover (s : State) (m : MethodRef) :
    (s.discover m).strategy = s.strategy := by
  obtain ⟨_, _, _, heq⟩ := s.discover_eq m
  rw [heq]

@[simp] theorem strategy_observeEntry (h : Hierarchy) (s : State) (entry : MethodRef) :
    (s.observeEntry h entry).strategy = s.strategy.onEntryPoint h.program entry := by
  rw [observeEntry, strategy_discover, Strategy.onEntryPoint]
  split
  · exact s.strategy_observeConstruction entry.owner
  · rfl

theorem observeEntry_eq (h : Hierarchy) (s : State) (entry : MethodRef) :
    ∃ strategy log, s.observeEntry h entry =
      { s with strategy := strategy, log := log }.discover entry := by
  rw [observeEntry]
  split
  · obtain ⟨_, heq⟩ := s.observeConstruction_eq entry.owner
    rw [heq]
    exact ⟨_, _, rfl⟩
  · exact ⟨s.strategy, s.log, rfl⟩

theorem strategy_foldl_observeEntry (h : Hierarchy) (s : State) (entries : List MethodRef) :
    (entries.foldl (observeEntry h) s).strategy =
      entries.foldl (·.onEntryPoint h.program) s.strategy := by
  induction entries generalizing s with
  | nil => rfl
  | cons entry rest ih => rw [List.foldl_cons, ih, strategy_observeEntry, List.foldl_cons]

theorem foldl_observeEntry_eq (h : Hierarchy) (s : State) (entries : List MethodRef) :
    ∃ strategy reachable pending log, entries.foldl (observeEntry h) s =
      { s with strategy := strategy, reachable := reachable, pending := pending, log := log } := by
  induction entries generalizing s with
  | nil => exact ⟨_, _, _, _, rfl⟩
  | cons entry rest ih =>
      obtain ⟨strategy, log, hentry⟩ := s.observeEntry_eq h entry
      obtain ⟨_, _, _, hdiscover⟩ :=
        discover_eq { s with strategy := strategy, log := log } entry
      obtain ⟨_, _, _, _, hrest⟩ := ih (s.observeEntry h entry)
      rw [List.foldl_cons, hrest, hentry, hdiscover]
      exact ⟨_, _, _, _, rfl⟩

theorem mem_reachable_foldl_observeEntry (h : Hierarchy) (s : State)
    (entries : List MethodRef) (m : MethodRef) :
    m ∈ (entries.foldl (observeEntry h) s).reachable ↔ m ∈ entries ∨ m ∈ s.reachable := by
  induction entries generalizing s with
  | nil => simp
  | cons entry rest ih =>
      obtain ⟨_, _, hentry⟩ := s.observeEntry_eq h entry
      rw [List.foldl_cons, ih, hentry, mem_reachable_discover, List.mem_cons]
      tauto

theorem listed_foldl_observeEntry (h : Hierarchy) {s : State} (hs : Listed s)
    (entries : List MethodRef) : Listed (entries.foldl (observeEntry h) s) := by
  induction entries generalizing s with
  | nil => exact hs
  | cons entry rest ih =>
      obtain ⟨strategy, log, hentry⟩ := s.observeEntry_eq h entry
      have hs' : Listed { s with strategy := strategy, log := log } := ⟨hs.nodup, hs.mem_iff⟩
      exact ih (hentry ▸ hs'.discover entry)

end State

variable (h : Hierarchy) (strategy : Strategy) (entries : List MethodRef)

theorem initial_eq : ∃ strategy' reachable pending log,
    initial h strategy entries =
      { strategy := strategy', reachable := reachable, pending := pending, log := log,
        resolvedAt := strategy'.generation } := by
  obtain ⟨_, _, _, _, heq⟩ := State.foldl_observeEntry_eq h { strategy := strategy } entries
  simp only [initial, heq]
  exact ⟨_, _, _, _, rfl⟩

theorem mem_reachable_initial (m : MethodRef) :
    m ∈ (initial h strategy entries).reachable ↔ m ∈ entries := by
  have hiff := State.mem_reachable_foldl_observeEntry h { strategy := strategy } entries m
  rwa [or_iff_left (by simp)] at hiff

@[simp] theorem algorithm_initial :
    (initial h strategy entries).strategy.algorithm = strategy.algorithm := by
  show (entries.foldl (State.observeEntry h) { strategy := strategy }).strategy.algorithm = _
  rw [State.strategy_foldl_observeEntry, Strategy.algorithm_foldl_onEntryPoint]

/-- To begin with, the classes of constructor roots are admitted beside what the
strategy admits by itself. -/
theorem admits_initial (type : TypeName) :
    (initial h strategy entries).strategy.admits type = true ↔ strategy.admits type = true ∨
      (strategy.algorithm = .rta ∧
        ∃ e ∈ entries, Strategy.isConstructorRoot h.program e = true ∧ e.owner = type) := by
  show (entries.foldl (State.observeEntry h) { strategy := strategy }).strategy.admits type = true
    ↔ _
  rw [State.strategy_foldl_observeEntry, Strategy.admits_foldl_onEntryPoint]

theorem resolvedAt_initial :
    (initial h strategy entries).resolvedAt = (initial h strategy entries).strategy.generation :=
  rfl

theorem wellFormed_initial : WellFormed h entries (initial h strategy entries) := by
  have hlisted : Listed (initial h strategy entries) := by
    have hempty : Listed { strategy := strategy } := ⟨List.nodup_nil, fun m => by
      simp [State.discovered]⟩
    obtain ⟨hnodup, hmem⟩ := State.listed_foldl_observeEntry h hempty entries
    exact ⟨hnodup, hmem⟩
  have hdeclared : Declared h entries (initial h strategy entries) := by
    intro m hm
    exact Or.inl ((mem_reachable_initial h strategy entries m).1 hm)
  obtain ⟨strategy', _, _, _, heq⟩ := initial_eq h strategy entries
  rw [heq] at hlisted hdeclared ⊢
  refine ⟨?_, hlisted, hdeclared, ⟨?_, ?_⟩, le_refl strategy'.generation, ?_⟩
  · intro site hsite
    cases hsite
  · intro site r hr
    simp at hr
  · intro site hsite
    cases hsite
  · intro type htype
    simp at htype

@[simp] theorem processed_initial : (initial h strategy entries).processed = [] := by
  obtain ⟨_, _, _, _, heq⟩ := initial_eq h strategy entries
  rw [heq]

theorem followed_initial : Followed h (initial h strategy entries) := by
  intro m hm
  simp [processed_initial] at hm

theorem settled_initial : Settled h (initial h strategy entries) := by
  constructor
  · intro m hm
    simp [processed_initial] at hm
  · intro _ site hsite
    obtain ⟨_, _, _, _, heq⟩ := initial_eq h strategy entries
    simp [heq] at hsite

end Construction

end JvmReach
