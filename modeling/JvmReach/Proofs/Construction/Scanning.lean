import JvmReach.Proofs.Construction.Starting

/-!
# What a scan achieves

A scan that is not interrupted follows its observation: the constructed types are
admitted, the started types are initialized (`Scanned`), and the call site has
the targets that do not depend on the receiver types (`SiteScanned`). A site that
dispatches is `Resolved` when it has the targets for all receiver types admitted
so far.
-/

namespace JvmReach

namespace Construction

/-- What an observation calls for apart from its call site. -/
structure Scanned (h : Hierarchy) (s : State) (obs : Observation) : Prop where
  constructed : ∀ type ∈ h.constructed obs, s.strategy.admits type = true
  started : ∀ type ∈ h.started obs, Initialized h s type

/-- What an observation calls for at its call site, whatever the receivers. -/
def SiteScanned (h : Hierarchy) (s : State) (site : CallSite) (obs : Observation) : Prop :=
  ∀ call, obs.1.operation = .invoke call →
    (call.dispatches = true → site ∈ s.virtualSites) ∧
    ∃ r, s.sites[site]? = some r ∧
      (call.dispatches = false → ∀ admits, ∀ t ∈ h.callTargets admits call, t ∈ r.targets) ∧
      ∀ effect, obs.2 = some effect → ∀ t ∈ h.constructorTargets effect, t ∈ r.targets

/-- The site has the targets for all receiver types admitted so far. -/
def Resolved (h : Hierarchy) (s : State) (site : CallSite) : Prop :=
  ∀ r, s.sites[site]? = some r →
    ∀ t ∈ h.dispatchedTargets s.strategy.admits r.call.declared, t ∈ r.targets

theorem Scanned.of_grows {h : Hierarchy} {s s' : State} {obs : Observation}
    (hs : Scanned h s obs) (hgrows : Grows s s') : Scanned h s' obs where
  constructed type htype := hgrows.admits type (hs.constructed type htype)
  started type htype := (hs.started type htype).mono hgrows.started

theorem SiteScanned.of_grows {h : Hierarchy} {s s' : State} {site : CallSite}
    {obs : Observation} (hs : SiteScanned h s site obs) (hgrows : Grows s s') :
    SiteScanned h s' site obs := by
  intro call hcall
  obtain ⟨hvirtual, r, hr, hdirect, hconstructors⟩ := hs call hcall
  obtain ⟨r', hr', hrecord⟩ := hgrows.sites site r hr
  refine ⟨?_, r', hr', ?_, ?_⟩
  · rw [hgrows.virtualSites]
    exact hvirtual
  · intro hdispatches admits t ht
    exact hrecord.targets t (hdirect hdispatches admits t ht)
  · intro effect heffect t ht
    exact hrecord.targets t (hconstructors effect heffect t ht)

theorem Resolved.of_grows {h : Hierarchy} {s s' : State} {site : CallSite}
    (hs : Resolved h s site) (hgrows : Grows s s') (hstrategy : s'.strategy = s.strategy) :
    Resolved h s' site := by
  intro r' hr' t ht
  obtain ⟨r, hr, hrecord⟩ := hgrows.exists_record hr'
  rw [hstrategy, hrecord.call] at ht
  exact hrecord.targets t (hs r hr t ht)

namespace State

variable {h : Hierarchy} {o : Options} {s s' : State} {site : CallSite} {obs : Observation}
  {call : Invocation}

theorem resolved_dispatch (hsite : Dispatching s site call)
    (htargets : h.dispatchedTargets s.strategy.admits call.declared =
      {t | t ∈ h.dispatchTargets call.declared s.strategy.admits}) :
    Resolved h (s.dispatch h site call) site := by
  -- the edges leave the call of the site and the strategy as they are
  intro r hr t ht
  have hsite' := hsite.of_grows (updates_dispatch hsite htargets).grows
  obtain ⟨-, r', hr', hcall⟩ := hsite'
  obtain ⟨r'', hr'', hall⟩ := s.mem_targets_foldl_addEdge hsite.mem_sites
    (h.dispatchTargets call.declared s.strategy.admits).toList
  have hstrategy : (s.dispatch h site call).strategy = s.strategy :=
    s.strategy_foldl_addEdge site _
  have heq' : r' = r := Option.some.inj (hr'.symm.trans hr)
  have heq'' : r'' = r := Option.some.inj (hr''.symm.trans hr)
  subst heq' heq''
  rw [hstrategy, hcall, htargets] at ht
  exact hall t (Std.ExtTreeSet.mem_toList.2 ht)

theorem resolved_resolveVirtual (hsite : Dispatching s site call)
    (hok : s.resolveVirtual h o site call = .ok s') : Resolved h s' site := by
  rcases resolveVirtual_cases hok with
    ⟨target, htargets, rfl⟩ | ⟨htargets, diagnostics, hdispatch⟩ | ⟨htargets, rfl⟩
  · obtain ⟨-, r, hr, hcall⟩ := hsite
    intro r' hr' t ht
    rw [getElem?_sites_addEdge, if_pos rfl, hr] at hr'
    cases hr'
    rw [strategy_addEdge, hcall, htargets] at ht
    rw [Set.mem_singleton_iff.1 ht]
    exact Std.ExtTreeSet.mem_insert_self
  · have hsite : Dispatching { s with diagnostics := diagnostics } site call := hsite
    rw [hdispatch]
    exact resolved_dispatch hsite htargets
  · obtain ⟨-, r, hr, hcall⟩ := hsite
    intro r' hr' t ht
    have heq : r' = r := Option.some.inj (hr'.symm.trans hr)
    have ht : t ∈ h.dispatchedTargets s.strategy.admits call.declared := by
      rwa [heq, hcall] at ht
    simp [htargets] at ht

/-- The target of a call that binds directly is among the targets of its site. -/
theorem mem_targets_resolveDirect (hsite : site ∈ s.sites) (hdirect : call.dispatches = false)
    (hkind : call.kind ≠ .dynamic) (hok : s.resolveDirect h o site call = .ok s') :
    ∃ r, s'.sites[site]? = some r ∧
      ∀ admits, ∀ t ∈ h.callTargets admits call, t ∈ r.targets := by
  obtain ⟨r, hr⟩ := (s.mem_sites_iff site).1 hsite
  rcases resolveDirect_cases hok with ⟨target, s₁, hresolve, hs₁, rfl⟩ | ⟨hempty, problem, rfl⟩
  · have hr₁ : s₁.sites[site]? = some r := by
      rcases hs₁ with rfl | rfl
      · exact hr
      · rwa [sites_start]
    refine ⟨_, by rw [getElem?_sites_addEdge, if_pos rfl, hr₁]; rfl, ?_⟩
    intro admits t ht
    rw [h.callTargets_of_direct admits hdirect hkind] at ht
    have htarget : t = target := by simpa [Hierarchy.boundTargets, hresolve, eq_comm] using ht
    rw [htarget]
    exact Std.ExtTreeSet.mem_insert_self
  · refine ⟨r, hr, ?_⟩
    intro admits t ht
    rw [h.callTargets_of_direct admits hdirect hkind, hempty] at ht
    cases ht

theorem grows_scanCall {line? : Option Nat} (hat : At h s site obs)
    (hcall : obs.1.operation = .invoke call) (hok : s.scanCall h o site call line? = .ok s') :
    Grows (s.opened site call line?) s' :=
  ((updates_scanCall hat hcall).of_eq_ok hok).grows

/-- What a scanned call leaves at its site. -/
theorem siteScanned_scanCall {line? : Option Nat} (hat : At h s site obs)
    (hcall : obs.1.operation = .invoke call)
    (hok : s.scanCall h o site call line? = .ok s') :
    (call.dispatches = true → site ∈ s'.virtualSites ∧ Resolved h s' site) ∧
    ∃ r, s'.sites[site]? = some r ∧
      (call.dispatches = false → ∀ admits, ∀ t ∈ h.callTargets admits call, t ∈ r.targets) := by
  have hgrows : Grows (s.opened site call line?) s' := grows_scanCall hat hcall hok
  have hsite : site ∈ (s.opened site call line?).sites :=
    (s.mem_sites_opened site site call line?).2 (Or.inl rfl)
  obtain ⟨r, hr⟩ := (State.mem_sites_iff _ site).1 hsite
  obtain ⟨r', hr', -⟩ := hgrows.sites site r hr
  rw [scanCall_eq] at hok
  by_cases hkind : call.kind = .dynamic
  · have hdispatches : call.dispatches = false := by simp [Invocation.dispatches, hkind]
    refine ⟨by simp [hdispatches], r', hr', ?_⟩
    intro _ admits t ht
    simp [Hierarchy.callTargets, hkind] at ht
  · rw [if_neg hkind] at hok
    cases hdispatches : call.dispatches with
    | true =>
        rw [if_pos hdispatches] at hok
        have hopened := s.dispatching_opened site line? hdispatches
        refine ⟨fun _ => ⟨?_, resolved_resolveVirtual hopened hok⟩, r', hr', by simp⟩
        rw [hgrows.virtualSites]
        exact hopened.1
    | false =>
        rw [if_neg (by simp [hdispatches])] at hok
        obtain ⟨r'', hr'', hall⟩ := mem_targets_resolveDirect hsite hdispatches hkind hok
        exact ⟨by simp, r'', hr'', fun _ => hall⟩

theorem reflect_construct (h : Hierarchy) (s : State) (site : CallSite) {type : TypeName}
    {choice : Reflection.ConstructorChoice} {c : ClassDef}
    (hclass : (h.program.class? type).filter ClassDef.isConcrete = some c) :
    s.reflect h site (.construct type choice) =
      (constructorsOf c choice).foldl (fun s target => s.addEdge site target)
        (((s.record (.reflectiveConstruction site type)).observeConstruction type).start h type) :=
  by simp only [reflect, hclass]

/-- A reflective construction of a concrete class admits it, starts it and adds the
edges to its constructors. -/
theorem scanned_reflect_construct (hs : StartedAbove h s) (hsite : site ∈ s.sites)
    {type : TypeName} {choice : Reflection.ConstructorChoice} {c : ClassDef}
    (hclass : (h.program.class? type).filter ClassDef.isConcrete = some c) :
    (s.reflect h site (.construct type choice)).strategy.admits type = true ∧
    Initialized h (s.reflect h site (.construct type choice)) type ∧
    ∃ r, (s.reflect h site (.construct type choice)).sites[site]? = some r ∧
      ∀ t ∈ constructorsOf c choice, t ∈ r.targets := by
  rw [reflect_construct h s site hclass]
  let s₀ := s.record (.reflectiveConstruction site type)
  let s₁ := s₀.observeConstruction type
  have hs₁ : StartedAbove h s₁ :=
    hs.mono (s₀.started_observeConstruction type) (s₀.grows_observeConstruction type).reachable
  have hgrows₁ : Grows s (s₁.start h type) :=
    (s.grows_record _).trans ((s₀.grows_observeConstruction type).trans (s₁.grows_start h type))
  have hgrows := (s₁.start h type).grows_foldl_addEdge site (constructorsOf c choice)
  refine ⟨?_, ?_, ?_⟩
  · apply hgrows.admits type
    rw [strategy_start, strategy_observeConstruction]
    exact Strategy.admits_onInstantiation_self _ type
  · exact (hs₁.initialized_start type).mono hgrows.started
  · obtain ⟨r, hr⟩ := (s.mem_sites_iff site).1 hsite
    obtain ⟨r₁, hr₁, -⟩ := hgrows₁.sites site r hr
    exact (s₁.start h type).mem_targets_foldl_addEdge
      ((State.mem_sites_iff _ site).2 ⟨r₁, hr₁⟩) (constructorsOf c choice)

/-- What a reflective effect leaves behind. -/
theorem scanned_reflect (hs : StartedAbove h s) (hsite : site ∈ s.sites)
    (effect : Reflection.Effect) :
    (∀ type ∈ h.constructedBy effect, (s.reflect h site effect).strategy.admits type = true) ∧
    (∀ type ∈ h.startedBy effect, Initialized h (s.reflect h site effect) type) ∧
    ∃ r, (s.reflect h site effect).sites[site]? = some r ∧
      ∀ t ∈ h.constructorTargets effect, t ∈ r.targets := by
  obtain ⟨r, hr⟩ := (s.mem_sites_iff site).1 hsite
  cases effect with
  | start type =>
      have hrecord : StartedAbove h (s.record (.reflectiveStart site type)) :=
        hs.mono rfl fun _ hm => hm
      have hgrows := (s.grows_record (.reflectiveStart site type)).trans (grows_start h _ type)
      obtain ⟨r', hr', -⟩ := hgrows.sites site r hr
      refine ⟨?_, ?_, r', hr', ?_⟩
      · simp [Hierarchy.constructedBy]
      · intro other hother
        rw [List.mem_singleton.1 hother]
        exact hrecord.initialized_start type
      · simp [Hierarchy.constructorTargets]
  | construct type choice =>
      cases hclass : (h.program.class? type).filter ClassDef.isConcrete with
      | none =>
          have hnone : s.reflect h site (.construct type choice) =
              s.record (.unknownConstruction site type) := by simp only [reflect, hclass]
          rw [hnone]
          refine ⟨?_, ?_, r, hr, ?_⟩
          · simp [Hierarchy.constructedBy, hclass]
          · simp [Hierarchy.startedBy, Hierarchy.constructedBy, hclass]
          · simp [Hierarchy.constructorTargets, hclass]
      | some c =>
          obtain ⟨hadmits, hinitialized, htargets⟩ :=
            scanned_reflect_construct hs hsite hclass
          refine ⟨?_, ?_, ?_⟩
          · simpa [Hierarchy.constructedBy, hclass] using hadmits
          · simpa [Hierarchy.startedBy, Hierarchy.constructedBy, hclass] using hinitialized
          · simpa [Hierarchy.constructorTargets, hclass] using htargets

/-- A scan that is not interrupted looks at the instruction, then at the effect. -/
theorem exists_of_scan_eq_ok {caller : MethodRef} {method : Method}
    (hok : scan h o caller method s obs = .ok s') :
    ∃ s₁, s.operate h o ⟨caller, obs.1.offset⟩ obs.1.operation
        (method.line? obs.1.offset) = .ok s₁ ∧
      s' = s₁.reflect? h ⟨caller, obs.1.offset⟩ obs.2 := by
  rw [scan_eq] at hok
  cases hoperate : s.operate h o ⟨caller, obs.1.offset⟩ obs.1.operation
      (method.line? obs.1.offset) with
  | error halt => simp [hoperate, Except.map] at hok
  | ok s₁ =>
      rw [hoperate] at hok
      cases hok
      exact ⟨s₁, rfl, rfl⟩

theorem initialized_scanCall {line? : Option Nat} (hs : StartedAbove h s)
    (hok : s.scanCall h o site call line? = .ok s') :
    ∀ type ∈ h.startedByCall call, Initialized h s' type := by
  intro type htype
  obtain ⟨hstatic, target, hresolve, rfl⟩ := (h.mem_startedByCall_iff call type).1 htype
  have hs₁ : StartedAbove h (s.openSite site call line?) := hs
  simp only [scanCall, hstatic, resolveDirect, hresolve, if_true] at hok
  cases hok
  exact (hs₁.initialized_start target.owner).mono (grows_addEdge _ site target).started

/-- What an instruction constructs is admitted and what it starts is initialized,
its reflective effect apart. -/
theorem scanned_operate {line? : Option Nat} (hs : StartedAbove h s)
    (hok : s.operate h o site obs.1.operation line? = .ok s') :
    Scanned h s' (obs.1, none) := by
  obtain ⟨⟨offset, operation⟩, _⟩ := obs
  cases operation with
  | invoke call =>
      refine ⟨by simp [Hierarchy.constructed], ?_⟩
      intro type htype
      exact initialized_scanCall hs hok type (by simpa [Hierarchy.started] using htype)
  | new type =>
      cases hok
      have hs₁ : StartedAbove h (s.observeConstruction type) :=
        hs.mono (s.started_observeConstruction type) (s.grows_observeConstruction type).reachable
      constructor
      · intro other hother
        have heq : other = type := by simpa [Hierarchy.constructed] using hother
        rw [strategy_start, strategy_observeConstruction, heq]
        exact Strategy.admits_onInstantiation_self _ type
      · intro other hother
        have heq : other = type := by simpa [Hierarchy.started] using hother
        rw [heq]
        exact hs₁.initialized_start type
  | staticField owner =>
      cases hok
      refine ⟨by simp [Hierarchy.constructed], ?_⟩
      intro other hother
      have heq : other = owner := by simpa [Hierarchy.started] using hother
      rw [heq]
      exact hs.initialized_start owner
  | _ => exact ⟨by simp [Hierarchy.constructed], by simp [Hierarchy.started]⟩

theorem startedAbove_entered (hs : StartedAbove h s) (operation : Operation)
    (line? : Option Nat) : StartedAbove h (s.entered site operation line?) := by
  obtain ⟨_, _, heq⟩ := s.entered_eq site operation line?
  rw [heq]
  exact hs

theorem grows_operate {line? : Option Nat} (hat : At h s site obs)
    (hok : s.operate h o site obs.1.operation line? = .ok s') :
    Grows (s.entered site obs.1.operation line?) s' :=
  ((updates_operate hat).of_eq_ok hok).grows

theorem grows_scan {caller : MethodRef} {method : Method}
    (hat : At h s ⟨caller, obs.1.offset⟩ obs)
    (hok : scan h o caller method s obs = .ok s') :
    Grows (s.entered ⟨caller, obs.1.offset⟩ obs.1.operation (method.line? obs.1.offset)) s' :=
  ((updates_scan hat).of_eq_ok hok).grows

theorem at_operate {line? : Option Nat} (hat : At h s site obs)
    (hok : s.operate h o site obs.1.operation line? = .ok s') : At h s' site obs := by
  have hentered : At h (s.entered site obs.1.operation line?) site obs :=
    { hat with processed := (s.processed_entered _ _ _).symm ▸ hat.processed }
  exact hentered.of_grows (grows_operate hat hok)

theorem startedAbove_operate {line? : Option Nat} (hs : StartedAbove h s)
    (hat : At h s site obs) (hok : s.operate h o site obs.1.operation line? = .ok s') :
    StartedAbove h s' := by
  have hupdates := (updates_operate hat).of_eq_ok hok
  exact hupdates.steps.keeps (fun _ _ => Step.startedAbove) (startedAbove_entered hs _ _)

theorem mem_sites_operate {line? : Option Nat} (hat : At h s site obs)
    (hcall : obs.1.operation = .invoke call)
    (hok : s.operate h o site obs.1.operation line? = .ok s') : site ∈ s'.sites := by
  have hgrows := grows_operate hat hok
  rw [hcall] at hgrows
  obtain ⟨r, hr⟩ := (State.mem_sites_iff _ site).1
    ((s.mem_sites_opened site site call line?).2 (Or.inl rfl))
  obtain ⟨r', hr', -⟩ := hgrows.sites site r hr
  exact (s'.mem_sites_iff site).2 ⟨r', hr'⟩

/-- An observation is scanned when its instruction and its effect are. -/
theorem scanned_of_effect (hs : Scanned h s (obs.1, none))
    (heffect : ∀ effect, obs.2 = some effect →
      (∀ type ∈ h.constructedBy effect, s.strategy.admits type = true) ∧
      ∀ type ∈ h.startedBy effect, Initialized h s type) : Scanned h s obs := by
  constructor
  · intro type htype
    rcases (h.mem_constructed_iff obs type).1 htype with htype | ⟨effect, hobs, htype⟩
    · exact hs.constructed type htype
    · exact (heffect effect hobs).1 type htype
  · intro type htype
    rcases (h.mem_started_iff obs type).1 htype with htype | ⟨effect, hobs, htype⟩
    · exact hs.started type htype
    · exact (heffect effect hobs).2 type htype

/-- A scan that is not interrupted follows its observation. -/
theorem scanned_scan {caller : MethodRef} {method : Method} (hs : StartedAbove h s)
    (hat : At h s ⟨caller, obs.1.offset⟩ obs) (hok : scan h o caller method s obs = .ok s') :
    Scanned h s' obs := by
  obtain ⟨s₁, hoperate, rfl⟩ := exists_of_scan_eq_ok hok
  have hs₁ := startedAbove_operate hs hat hoperate
  have hgrows := (updates_reflect? (at_operate hat hoperate)).grows
  refine scanned_of_effect ((scanned_operate hs hoperate).of_grows hgrows) ?_
  intro effect heffect
  obtain ⟨call, hcall⟩ := h.program.exists_invoke_of_effect hat.observed heffect
  have hsite := mem_sites_operate hat hcall hoperate
  obtain ⟨hby, hstartedBy, -⟩ := scanned_reflect hs₁ hsite effect
  rw [heffect]
  exact ⟨hby, hstartedBy⟩

/-- It leaves the targets that do not depend on the receivers at the call site. -/
theorem siteScanned_scan {caller : MethodRef} {method : Method} (hs : StartedAbove h s)
    (hat : At h s ⟨caller, obs.1.offset⟩ obs) (hok : scan h o caller method s obs = .ok s') :
    SiteScanned h s' ⟨caller, obs.1.offset⟩ obs := by
  obtain ⟨s₁, hoperate, rfl⟩ := exists_of_scan_eq_ok hok
  have hs₁ := startedAbove_operate hs hat hoperate
  have hgrows := (updates_reflect? (at_operate hat hoperate)).grows
  intro call hcall
  have hsite := mem_sites_operate hat hcall hoperate
  rw [hcall] at hoperate
  obtain ⟨hvirtual, r, hr, hdirect⟩ := siteScanned_scanCall hat hcall hoperate
  obtain ⟨r', hr', hrecord⟩ := hgrows.sites _ r hr
  refine ⟨?_, r', hr', ?_, ?_⟩
  · intro hdispatches
    rw [hgrows.virtualSites]
    exact (hvirtual hdispatches).1
  · intro hdispatches admits t ht
    exact hrecord.targets t (hdirect hdispatches admits t ht)
  · intro effect heffect t ht
    obtain ⟨-, -, r'', hr'', hconstructors⟩ := scanned_reflect hs₁ hsite effect
    rw [heffect] at hr'
    have heq : r'' = r' := Option.some.inj (hr''.symm.trans hr')
    exact heq ▸ hconstructors t ht

end State

end Construction

end JvmReach
