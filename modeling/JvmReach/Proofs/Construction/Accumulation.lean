import JvmReach.Proofs.Construction.Initial

/-!
# What is never taken back

The methods are discovered one after the other and keep their places, and a
diagnostic that has been made stays: `Accumulates s s'` says so of any state `s'`
that is reached from `s`. A diagnostic is only made for a call that cannot be
followed, with what keeps it from being followed (`Update.diagnostics_cases`).
Before the first turn the discovered methods are the entries, each where it first
occurs.
-/

namespace JvmReach

namespace Hierarchy

theorem problem?_ne_noTarget (h : Hierarchy) (call : Invocation) :
    h.problem? call ≠ some .noTarget := by
  rw [problem?, resolutionProblem?]
  split
  · simp
  · cases h.resolve call.declared <;> simp

theorem resolutionProblem?_ne_noTarget (h : Hierarchy) (m : MethodRef) :
    h.resolutionProblem? m ≠ some .noTarget := by
  rw [resolutionProblem?]
  cases h.resolve m <;> simp

end Hierarchy

namespace Construction

structure Accumulates (s s' : State) : Prop where
  discovered : s.discovered <+: s'.discovered
  diagnostics : ∀ d ∈ s.diagnostics, d ∈ s'.diagnostics

namespace Accumulates

theorem refl (s : State) : Accumulates s s := ⟨List.prefix_refl _, fun _ hd => hd⟩

theorem trans {s₁ s₂ s₃ : State} (h₁ : Accumulates s₁ s₂) (h₂ : Accumulates s₂ s₃) :
    Accumulates s₁ s₃ where
  discovered := h₁.discovered.trans h₂.discovered
  diagnostics d hd := h₂.diagnostics d (h₁.diagnostics d hd)

end Accumulates

namespace State

@[simp] theorem diagnostics_discover (s : State) (m : MethodRef) :
    (s.discover m).diagnostics = s.diagnostics := by
  obtain ⟨_, _, _, heq⟩ := s.discover_eq m
  rw [heq]

@[simp] theorem diagnostics_start (h : Hierarchy) (s : State) (type : TypeName) :
    (s.start h type).diagnostics = s.diagnostics := by
  obtain ⟨_, _, _, heq⟩ := s.exists_start_eq h type
  rw [heq]

@[simp] theorem diagnostics_observeConstruction (s : State) (type : TypeName) :
    (s.observeConstruction type).diagnostics = s.diagnostics := by
  obtain ⟨_, heq⟩ := s.observeConstruction_eq type
  rw [heq]

@[simp] theorem diagnostics_addEdge (s : State) (site : CallSite) (target : MethodRef) :
    (s.addEdge site target).diagnostics = s.diagnostics :=
  s.diagnostics_discover target

@[simp] theorem diagnostics_dispatch (h : Hierarchy) (s : State) (site : CallSite)
    (call : Invocation) : (s.dispatch h site call).diagnostics = s.diagnostics := by
  rw [dispatch]
  generalize (h.dispatchTargets call.declared s.strategy.admits).toList = targets
  induction targets generalizing s with
  | nil => rfl
  | cons t rest ih => rw [List.foldl_cons, ih, diagnostics_addEdge]

theorem mem_diagnostics_diagnose (s : State) (problem : Problem) (site : CallSite)
    (call : Invocation) (d : Diagnostic) :
    d ∈ (s.diagnose problem site call).diagnostics ↔
      d = ⟨problem, site, call.declared.text⟩ ∨ d ∈ s.diagnostics := by
  rw [diagnose, Std.ExtTreeSet.mem_insert, Std.LawfulEqCmp.compare_eq_iff_eq, eq_comm]

theorem mem_diagnostics_diagnose_self (s : State) (problem : Problem) (site : CallSite)
    (call : Invocation) :
    (⟨problem, site, call.declared.text⟩ : Diagnostic) ∈
      (s.diagnose problem site call).diagnostics :=
  (s.mem_diagnostics_diagnose problem site call _).2 (Or.inl rfl)

theorem discovered_prefix_discover (s : State) (m : MethodRef) :
    s.discovered <+: (s.discover m).discovered := by
  rw [discovered_discover]
  exact List.prefix_append _ _

theorem discovered_prefix_foldl_discover (s : State) (methods : List MethodRef) :
    s.discovered <+: (methods.foldl discover s).discovered := by
  induction methods generalizing s with
  | nil => exact List.prefix_refl _
  | cons m rest ih => exact (s.discovered_prefix_discover m).trans (ih (s.discover m))

theorem accumulates_addEdge (s : State) (site : CallSite) (target : MethodRef) :
    Accumulates s (s.addEdge site target) where
  discovered := s.discovered_prefix_discover target
  diagnostics d hd := by rwa [diagnostics_addEdge]

theorem accumulates_start (h : Hierarchy) (s : State) (type : TypeName) :
    Accumulates s (s.start h type) where
  discovered := by
    rw [start_eq]
    exact discovered_prefix_foldl_discover
      { s with started := s.started.insertMany ((s.newlyStarted h type).map ClassDef.name) } _
  diagnostics d hd := by rwa [diagnostics_start]

theorem accumulates_diagnose (s : State) (problem : Problem) (site : CallSite)
    (call : Invocation) : Accumulates s (s.diagnose problem site call) where
  discovered := List.prefix_refl _
  diagnostics d hd := (s.mem_diagnostics_diagnose problem site call d).2 (Or.inr hd)

end State

section

variable {h : Hierarchy} {s s' : State}

theorem Update.accumulates (hupdate : Update h s s') : Accumulates s s' := by
  cases hupdate with
  | record e => exact ⟨List.prefix_refl _, fun _ hd => hd⟩
  | construct _ _ =>
      obtain ⟨_, heq⟩ := s.observeConstruction_eq _
      rw [heq]
      exact ⟨List.prefix_refl _, fun _ hd => hd⟩
  | start _ _ => exact s.accumulates_start h _
  | edge _ _ => exact s.accumulates_addEdge _ _
  | dispatch _ _ => exact s.accumulates_addEdge _ _
  | diagnose _ _ _ => exact s.accumulates_diagnose _ _ _
  | diagnoseDispatch _ _ => exact s.accumulates_diagnose _ _ _

theorem Step.accumulates (hstep : Step h s s') : Accumulates s s' := by
  cases hstep with
  | update hupdate => exact hupdate.accumulates
  | enter _ _ _ =>
      obtain ⟨_, _, heq⟩ := s.entered_eq _ _ _
      rw [heq]
      exact ⟨List.prefix_refl _, fun _ hd => hd⟩
  | take _ hpending =>
      refine ⟨?_, fun _ hd => hd⟩
      rw [State.discovered, State.discovered, hpending, List.append_assoc]
      exact List.prefix_refl _
  | visit _ => exact ⟨List.prefix_refl _, fun _ hd => hd⟩
  | pass _ _ _ => exact ⟨List.prefix_refl _, fun _ hd => hd⟩

theorem Steps.accumulates (hsteps : Steps h s s') : Accumulates s s' := by
  induction hsteps with
  | refl => exact Accumulates.refl s
  | tail _ hstep ih => exact ih.trans hstep.accumulates

/-- What a diagnostic that is made by an update says: the call that an observation
stands for cannot be followed, or the call of a dispatching site cannot be resolved. -/
theorem Update.diagnostics_cases (hupdate : Update h s s') {d : Diagnostic}
    (hd : d ∈ s'.diagnostics) :
    d ∈ s.diagnostics ∨ ∃ call, d.declared = call.declared.text ∧
      ((∃ obs, At h s d.site obs ∧ obs.1.operation = .invoke call ∧
          h.problem? call = some d.problem) ∨
        (Dispatching s d.site call ∧ h.resolutionProblem? call.declared = some d.problem)) := by
  cases hupdate with
  | record e => exact Or.inl hd
  | construct _ _ =>
      rw [State.diagnostics_observeConstruction] at hd
      exact Or.inl hd
  | start _ _ =>
      rw [State.diagnostics_start] at hd
      exact Or.inl hd
  | edge _ _ =>
      rw [State.diagnostics_addEdge] at hd
      exact Or.inl hd
  | dispatch _ _ =>
      rw [State.diagnostics_addEdge] at hd
      exact Or.inl hd
  | @diagnose site obs call problem hat hcall hproblem =>
      rcases (s.mem_diagnostics_diagnose _ _ _ d).1 hd with rfl | hd
      · exact Or.inr ⟨call, rfl, Or.inl ⟨obs, hat, hcall, hproblem⟩⟩
      · exact Or.inl hd
  | @diagnoseDispatch site call problem hsite hproblem =>
      rcases (s.mem_diagnostics_diagnose _ _ _ d).1 hd with rfl | hd
      · exact Or.inr ⟨call, rfl, Or.inr ⟨hsite, hproblem⟩⟩
      · exact Or.inl hd

theorem Step.update_or_diagnostics_eq (hstep : Step h s s') :
    Update h s s' ∨ s'.diagnostics = s.diagnostics := by
  cases hstep with
  | update hupdate => exact Or.inl hupdate
  | enter _ _ _ =>
      obtain ⟨_, _, heq⟩ := s.entered_eq _ _ _
      rw [heq]
      exact Or.inr rfl
  | take _ _ => exact Or.inr rfl
  | visit _ => exact Or.inr rfl
  | pass _ _ _ => exact Or.inr rfl

end

/-- Entries that were met before are passed over, the others are discovered in turn. -/
theorem State.discovered_foldl_observeEntry (h : Hierarchy) {s : State} {known : List MethodRef}
    (hs : Listed s) (hknown : s.discovered = known.eraseDups) (entries : List MethodRef) :
    (entries.foldl (observeEntry h) s).discovered = (known ++ entries).eraseDups := by
  induction entries generalizing s known with
  | nil => rw [List.foldl_nil, List.append_nil, hknown]
  | cons entry rest ih =>
      obtain ⟨strategy, log, hentry⟩ := s.observeEntry_eq h entry
      have hs' : Listed { s with strategy := strategy, log := log } := ⟨hs.nodup, hs.mem_iff⟩
      have hmem : entry ∈ s.reachable ↔ entry ∈ known := by
        rw [← hs.mem_iff, hknown, List.mem_eraseDups]
      have hdiscovered : (s.observeEntry h entry).discovered = (known ++ [entry]).eraseDups := by
        rw [hentry, discovered_discover, List.eraseDups_append, ← hknown]
        by_cases hold : entry ∈ known
        · simp [State.discovered, List.removeAll, hold, hmem]
        · simp [State.discovered, List.removeAll, hold, hmem, List.eraseDups_cons]
      rw [List.foldl_cons, ih (hentry ▸ hs'.discover entry) hdiscovered, List.append_assoc,
        List.singleton_append]

/-- To begin with, the discovered methods are the entries without repetition. -/
theorem discovered_initial (h : Hierarchy) (strategy : Strategy) (entries : List MethodRef) :
    (initial h strategy entries).discovered = entries.eraseDups := by
  have hempty : Listed { strategy := strategy } := ⟨List.nodup_nil, fun m => by
    simp [State.discovered]⟩
  have hnone : State.discovered { strategy := strategy } = List.eraseDups [] := rfl
  exact State.discovered_foldl_observeEntry h hempty hnone entries

end Construction

end JvmReach
