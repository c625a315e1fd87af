import JvmReach.Proofs.Construction.Scanning

/-!
# How much a scan adds

An observation adds at most one dispatching site and one receiver type, and
leaves the lists that organize the work as they are. Processing a method adds at
most one of each for every observation of it, and resolving a site again adds
none.
-/

namespace JvmReach.Construction

/-- At most `n` dispatching sites and `n` receiver types have been added. -/
structure Adds (n : Nat) (s s' : State) : Prop where
  processed : s'.processed = s.processed
  sweep : s'.sweep = s.sweep
  resolvedAt : s'.resolvedAt = s.resolvedAt
  virtualSites : s'.virtualSites.length ≤ s.virtualSites.length + n
  generation : s'.strategy.generation ≤ s.strategy.generation + n

theorem Adds.refl (s : State) : Adds 0 s s := ⟨rfl, rfl, rfl, le_refl _, le_refl _⟩

theorem Adds.trans {m n : Nat} {s₁ s₂ s₃ : State} (h₁ : Adds m s₁ s₂) (h₂ : Adds n s₂ s₃) :
    Adds (m + n) s₁ s₃ where
  processed := h₂.processed.trans h₁.processed
  sweep := h₂.sweep.trans h₁.sweep
  resolvedAt := h₂.resolvedAt.trans h₁.resolvedAt
  virtualSites := by
    have h₁ := h₁.virtualSites
    have h₂ := h₂.virtualSites
    omega
  generation := by
    have h₁ := h₁.generation
    have h₂ := h₂.generation
    omega

namespace State

variable {h : Hierarchy} {o : Options} {s s' : State} {site : CallSite} {obs : Observation}
  {call : Invocation}

@[simp] theorem strategy_dispatch (h : Hierarchy) (s : State) (site : CallSite)
    (call : Invocation) : (s.dispatch h site call).strategy = s.strategy :=
  s.strategy_foldl_addEdge site _

theorem strategy_resolveVirtual (hok : s.resolveVirtual h o site call = .ok s') :
    s'.strategy = s.strategy := by
  rcases resolveVirtual_cases hok with ⟨target, -, rfl⟩ | ⟨-, diagnostics, heq⟩ | ⟨-, rfl⟩
  · exact s.strategy_addEdge site target
  · rw [heq, strategy_dispatch]
  · rfl

theorem strategy_resolveDirect (hok : s.resolveDirect h o site call = .ok s') :
    s'.strategy = s.strategy := by
  rcases resolveDirect_cases hok with ⟨target, s₁, -, rfl | rfl, rfl⟩ | ⟨-, problem, rfl⟩
  · exact strategy_addEdge _ site target
  · rw [strategy_addEdge, strategy_start]
  · rfl

/-- Calls construct nothing by themselves. -/
theorem strategy_scanCall {line? : Option Nat}
    (hok : s.scanCall h o site call line? = .ok s') : s'.strategy = s.strategy := by
  have hopened : (s.opened site call line?).strategy = s.strategy := by
    obtain ⟨_, _, heq⟩ := s.entered_eq site (.invoke call) line?
    exact (congrArg State.strategy heq : (s.entered site (.invoke call) line?).strategy = _)
  rw [scanCall_eq] at hok
  split at hok
  · cases hok
    exact hopened
  · split at hok
    · exact (strategy_resolveVirtual hok).trans hopened
    · exact (strategy_resolveDirect hok).trans hopened

theorem generation_reflect_le (h : Hierarchy) (s : State) (site : CallSite)
    (effect : Reflection.Effect) :
    (s.reflect h site effect).strategy.generation ≤ s.strategy.generation + 1 := by
  cases effect with
  | start type =>
      rw [reflect, strategy_start]
      exact Nat.le_succ _
  | construct type choice =>
      rw [reflect]
      split
      · exact Nat.le_succ _
      · rw [strategy_foldl_addEdge, strategy_start, strategy_observeConstruction]
        exact Strategy.generation_onInstantiation_le _ type

theorem generation_scan_le {s s' : State} {caller : MethodRef} {method : Method}
    (hat : At h s ⟨caller, obs.1.offset⟩ obs) (hok : scan h o caller method s obs = .ok s') :
    s'.strategy.generation ≤ s.strategy.generation + 1 := by
  obtain ⟨s₁, hoperate, rfl⟩ := exists_of_scan_eq_ok hok
  cases heffect : obs.2 with
  | some effect =>
      obtain ⟨call, hcall⟩ := h.program.exists_invoke_of_effect hat.observed heffect
      rw [hcall] at hoperate
      rw [← strategy_scanCall hoperate]
      exact generation_reflect_le h s₁ _ effect
  | none =>
      show s₁.strategy.generation ≤ _
      cases hoperation : obs.1.operation with
      | invoke call =>
          rw [hoperation] at hoperate
          rw [strategy_scanCall hoperate]
          exact Nat.le_succ _
      | new type =>
          rw [hoperation] at hoperate
          cases hoperate
          rw [strategy_start, strategy_observeConstruction]
          exact Strategy.generation_onInstantiation_le _ type
      | staticField owner =>
          rw [hoperation] at hoperate
          cases hoperate
          rw [strategy_start]
          exact Nat.le_succ _
      | _ =>
          rw [hoperation] at hoperate
          cases hoperate
          exact Nat.le_succ _

theorem adds_scan {caller : MethodRef} {method : Method}
    (hat : At h s ⟨caller, obs.1.offset⟩ obs) (hok : scan h o caller method s obs = .ok s') :
    Adds 1 s s' := by
  have hgrows := grows_scan hat hok
  have hvirtual := s.virtualSites_entered ⟨caller, obs.1.offset⟩ obs.1.operation
    (method.line? obs.1.offset)
  obtain ⟨_, _, heq⟩ := s.entered_eq ⟨caller, obs.1.offset⟩ obs.1.operation
    (method.line? obs.1.offset)
  constructor
  · rw [hgrows.processed, heq]
  · rw [hgrows.sweep, heq]
  · rw [hgrows.resolvedAt, heq]
  · rw [hgrows.virtualSites]
    rcases hvirtual with hsame | hmore
    · rw [hsame]
      exact Nat.le_succ _
    · rw [hmore, List.length_append]
      exact le_refl _
  · exact generation_scan_le hat hok

theorem adds_foldlM {m : MethodRef} {method : Method} {observed : List Observation}
    (hm : m ∈ s.processed) (hobserved : ∀ obs ∈ observed, obs ∈ h.program.observed m)
    (hok : observed.foldlM (scan h o m method) s = .ok s') : Adds observed.length s s' := by
  induction observed generalizing s with
  | nil =>
      cases hok
      exact Adds.refl _
  | cons obs rest ih =>
      obtain ⟨s₁, hscan, hrest⟩ := exists_of_foldlM_scan_cons hok
      have hfirst := adds_scan ⟨hm, hobserved obs (by simp), rfl⟩ hscan
      have hm₁ : m ∈ s₁.processed := hfirst.processed ▸ hm
      have hall := hfirst.trans (ih hm₁ (fun obs hobs => hobserved obs (by simp [hobs])) hrest)
      rwa [Nat.add_comm] at hall

theorem adds_process {m : MethodRef} (hm : m ∈ s.processed) (hok : s.process h o m = .ok s') :
    Adds (h.program.observed m).length s s' := by
  rcases process_cases hok with ⟨hempty, rfl⟩ | ⟨method, -, hok⟩
  · rw [hempty]
    exact Adds.refl s'
  · exact adds_foldlM hm (fun _ hobs => hobs) hok

theorem adds_revisit (hsite : site ∈ s.virtualSites) (hok : s.revisit h o site = .ok s') :
    Adds 0 s s' := by
  rw [revisit] at hok
  cases hr : s.sites[site]? with
  | none =>
      simp only [hr] at hok
      cases hok
      exact Adds.refl s
  | some r =>
      simp only [hr] at hok
      have hsite : Dispatching s site r.call := ⟨hsite, r, hr, rfl⟩
      have hgrows := ((updates_resolveVirtual hsite).of_eq_ok hok).grows
      refine ⟨hgrows.processed, hgrows.sweep, hgrows.resolvedAt, ?_, ?_⟩
      · rw [hgrows.virtualSites]
        exact le_refl _
      · rw [strategy_resolveVirtual hok]
        exact le_refl _

/-- The next site of a pass is one that dispatches. -/
theorem adds_revisit_next {rest : List CallSite} (hs : Swept s) (hsweep : s.sweep = site :: rest)
    (hok : { s with sweep := rest }.revisit h o site = .ok s') :
    Adds 0 { s with sweep := rest } s' := by
  refine adds_revisit ?_ hok
  exact hs site (by simp [hsweep])

end State

end JvmReach.Construction
