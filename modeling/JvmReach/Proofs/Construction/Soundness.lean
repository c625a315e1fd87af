import JvmReach.Proofs.Construction.Interruption

/-!
# Nothing without a reason

What a step adds, it adds by a rule: a method becomes reachable as a target or an
initializer of an observation of a method that has been taken up, a type is
admitted as one that such an observation constructs, and a target of a site is one
of the observation there (`reachable_cases`, `admits_cases`, `targets_cases`). By
induction everything in a construction is grounded in the entries, and stays
within any methods and types that are closed under the rules.
-/

namespace JvmReach

namespace Hierarchy

/-- The methods that an observation makes reachable. -/
def reached (h : Hierarchy) (admits : TypeName → Bool) (obs : Observation) : Set MethodRef :=
  {t | t ∈ h.targets admits obs ∨ ∃ type ∈ h.started obs, t ∈ h.initializers type}

theorem reached_mono (h : Hierarchy) {admits admits' : TypeName → Bool}
    (hle : ∀ type, admits type = true → admits' type = true) (obs : Observation) :
    h.reached admits obs ⊆ h.reached admits' obs := by
  rintro t (ht | ht)
  · exact Or.inl (h.targets_mono hle obs ht)
  · exact Or.inr ht

theorem mem_initializers_iff (h : Hierarchy) (type : TypeName) (t : MethodRef) :
    t ∈ h.initializers type ↔ ∃ c, h.program.OnChain type c ∧ c.staticInitializer? = some t := by
  simp only [initializers, List.mem_filterMap, mem_superclassChain_iff]

end Hierarchy

theorem Algorithm.admitting_eq_true_iff (a : Algorithm) (types : Set TypeName)
    (type : TypeName) : a.admitting types type = true ↔ a = .cha ∨ type ∈ types := by
  simp [Algorithm.admitting]

namespace Construction

section

variable {h : Hierarchy} {s s' : State}

/-- With distinct offsets a dispatching site stands for the call recorded for it. -/
theorem exists_at_of_dispatching (hoffsets : h.program.DistinctOffsets) (hs : Recorded h s)
    {site : CallSite} {call : Invocation} (hsite : Dispatching s site call) :
    ∃ obs, At h s site obs ∧ obs.1.operation = .invoke call ∧ call.dispatches = true := by
  obtain ⟨hvirtual, r, hr, rfl⟩ := hsite
  obtain ⟨-, obs, hat, hcall⟩ := hs.call site r hr
  exact ⟨obs, hat, hcall, hs.dispatches hoffsets hvirtual hat hcall⟩

theorem exists_targets_of_dispatching (hoffsets : h.program.DistinctOffsets)
    (hs : Recorded h s) {site : CallSite} {call : Invocation} {t : MethodRef}
    (hsite : Dispatching s site call)
    (ht : t ∈ h.dispatchedTargets s.strategy.admits call.declared) :
    ∃ obs, At h s site obs ∧ t ∈ h.targets s.strategy.admits obs := by
  obtain ⟨obs, hat, hcall, hdispatches⟩ := exists_at_of_dispatching hoffsets hs hsite
  refine ⟨obs, hat, Or.inl ⟨call, hcall, ?_⟩⟩
  rwa [h.callTargets_of_dispatches _ hdispatches]

theorem Update.reachable_cases (hoffsets : h.program.DistinctOffsets) (hs : Recorded h s)
    (hupdate : Update h s s') {t : MethodRef} (ht : t ∈ s'.reachable) :
    t ∈ s.reachable ∨
      ∃ m ∈ s.processed, ∃ obs ∈ h.program.observed m, t ∈ h.reached s.strategy.admits obs := by
  cases hupdate with
  | record e => exact Or.inl ht
  | construct _ _ =>
      obtain ⟨_, heq⟩ := s.observeConstruction_eq _
      rw [heq] at ht
      exact Or.inl ht
  | @start site obs type hat htype =>
      rw [State.mem_reachable_start] at ht
      rcases ht with ⟨c, hc, hinit⟩ | ht
      · have hc := (h.mem_superclassChain_iff type c).1 (List.takeWhile_subset _ hc)
        exact Or.inr ⟨site.caller, hat.processed, obs, hat.observed,
          Or.inr ⟨type, htype, (h.mem_initializers_iff type t).2 ⟨c, hc, hinit⟩⟩⟩
      · exact Or.inl ht
  | @edge site obs target hat htarget =>
      rw [State.mem_reachable_addEdge] at ht
      rcases ht with rfl | ht
      · exact Or.inr ⟨site.caller, hat.processed, obs, hat.observed, Or.inl htarget⟩
      · exact Or.inl ht
  | @dispatch site call target hsite htarget =>
      rw [State.mem_reachable_addEdge] at ht
      rcases ht with rfl | ht
      · obtain ⟨obs, hat, htarget⟩ := exists_targets_of_dispatching hoffsets hs hsite htarget
        exact Or.inr ⟨site.caller, hat.processed, obs, hat.observed, Or.inl htarget⟩
      · exact Or.inl ht
  | diagnose _ _ _ => exact Or.inl ht
  | diagnoseDispatch _ _ => exact Or.inl ht

/-- A method becomes reachable by an observation of a method that has been taken up. -/
theorem Step.reachable_cases (hoffsets : h.program.DistinctOffsets) (hs : Recorded h s)
    (hstep : Step h s s') {t : MethodRef} (ht : t ∈ s'.reachable) :
    t ∈ s.reachable ∨
      ∃ m ∈ s.processed, ∃ obs ∈ h.program.observed m, t ∈ h.reached s.strategy.admits obs := by
  rcases hstep.update_or_organizes with hupdate | horganizes
  · exact hupdate.reachable_cases hoffsets hs ht
  · rw [horganizes.reachable] at ht
    exact Or.inl ht

theorem Update.strategy_cases (hupdate : Update h s s') :
    s'.strategy = s.strategy ∨ ∃ m ∈ s.processed, ∃ obs ∈ h.program.observed m,
      ∃ type ∈ h.constructed obs, s'.strategy = s.strategy.onInstantiation type := by
  cases hupdate with
  | record e => exact Or.inl rfl
  | @construct site obs type hat htype =>
      exact Or.inr ⟨site.caller, hat.processed, obs, hat.observed, type, htype,
        s.strategy_observeConstruction type⟩
  | start _ _ => exact Or.inl (s.strategy_start h _)
  | edge _ _ => exact Or.inl (s.strategy_addEdge _ _)
  | dispatch _ _ => exact Or.inl (s.strategy_addEdge _ _)
  | diagnose _ _ _ => exact Or.inl rfl
  | diagnoseDispatch _ _ => exact Or.inl rfl

/-- The strategy changes when such an observation constructs a type. -/
theorem Step.strategy_cases (hstep : Step h s s') :
    s'.strategy = s.strategy ∨ ∃ m ∈ s.processed, ∃ obs ∈ h.program.observed m,
      ∃ type ∈ h.constructed obs, s'.strategy = s.strategy.onInstantiation type := by
  rcases hstep.update_or_organizes with hupdate | horganizes
  · exact hupdate.strategy_cases
  · exact Or.inl horganizes.strategy

/-- A type is admitted when such an observation constructs it. -/
theorem Step.admits_cases (hstep : Step h s s') {type : TypeName}
    (htype : s'.strategy.admits type = true) :
    s.strategy.admits type = true ∨
      ∃ m ∈ s.processed, ∃ obs ∈ h.program.observed m, type ∈ h.constructed obs := by
  rcases hstep.strategy_cases with heq | ⟨m, hm, obs, hobs, other, hother, heq⟩
  · rw [heq] at htype
    exact Or.inl htype
  · rw [heq, Strategy.admits_onInstantiation] at htype
    rcases htype with htype | ⟨-, rfl⟩
    · exact Or.inl htype
    · exact Or.inr ⟨m, hm, obs, hobs, hother⟩

/-- A target of a site was one before, or the edge to it is the one that is added. -/
theorem State.targets_addEdge_cases (s : State) {site other : CallSite} {target t : MethodRef}
    {r : SiteRecord} (hr : (s.addEdge site target).sites[other]? = some r) (ht : t ∈ r.targets) :
    (∃ r₀, s.sites[other]? = some r₀ ∧ t ∈ r₀.targets) ∨ (site = other ∧ target = t) := by
  rw [State.getElem?_sites_addEdge] at hr
  split at hr
  · next hsite =>
      obtain ⟨r₀, hr₀, rfl⟩ := Option.map_eq_some_iff.1 hr
      rcases Std.ExtTreeSet.mem_insert.1 ht with htarget | ht
      · exact Or.inr ⟨hsite, Std.LawfulEqCmp.compare_eq_iff_eq.1 htarget⟩
      · exact Or.inl ⟨r₀, hr₀, ht⟩
  · exact Or.inl ⟨r, hr, ht⟩

/-- A target is added to a site for an observation that stands there, or by dispatching
the call that is recorded for the site. -/
theorem Update.targets_origin (hupdate : Update h s s') {site : CallSite} {r : SiteRecord}
    {t : MethodRef} (hr : s'.sites[site]? = some r) (ht : t ∈ r.targets) :
    (∃ r₀, s.sites[site]? = some r₀ ∧ t ∈ r₀.targets) ∨
      (t ∈ s'.reachable ∧
        ((∃ obs, At h s site obs ∧ t ∈ h.targets s.strategy.admits obs) ∨
          ∃ call, Dispatching s site call ∧
            t ∈ h.dispatchedTargets s.strategy.admits call.declared)) := by
  cases hupdate with
  | record e => exact Or.inl ⟨r, hr, ht⟩
  | construct _ _ =>
      obtain ⟨_, heq⟩ := s.observeConstruction_eq _
      rw [heq] at hr
      exact Or.inl ⟨r, hr, ht⟩
  | start _ _ =>
      rw [State.sites_start] at hr
      exact Or.inl ⟨r, hr, ht⟩
  | @edge other obs target hat htarget =>
      rcases s.targets_addEdge_cases hr ht with hbefore | ⟨rfl, rfl⟩
      · exact Or.inl hbefore
      · exact Or.inr ⟨(s.mem_reachable_addEdge _ _ _).2 (Or.inl rfl), Or.inl ⟨obs, hat, htarget⟩⟩
  | @dispatch other call target hsite htarget =>
      rcases s.targets_addEdge_cases hr ht with hbefore | ⟨rfl, rfl⟩
      · exact Or.inl hbefore
      · exact Or.inr ⟨(s.mem_reachable_addEdge _ _ _).2 (Or.inl rfl),
          Or.inr ⟨call, hsite, htarget⟩⟩
  | diagnose _ _ _ => exact Or.inl ⟨r, hr, ht⟩
  | diagnoseDispatch _ _ => exact Or.inl ⟨r, hr, ht⟩

theorem Step.targets_origin (hstep : Step h s s') {site : CallSite} {r : SiteRecord}
    {t : MethodRef} (hr : s'.sites[site]? = some r) (ht : t ∈ r.targets) :
    (∃ r₀, s.sites[site]? = some r₀ ∧ t ∈ r₀.targets) ∨
      (t ∈ s'.reachable ∧
        ((∃ obs, At h s site obs ∧ t ∈ h.targets s.strategy.admits obs) ∨
          ∃ call, Dispatching s site call ∧
            t ∈ h.dispatchedTargets s.strategy.admits call.declared)) := by
  cases hstep with
  | update hupdate => exact hupdate.targets_origin hr ht
  | @enter _ _ obs _ _ _ =>
      cases hoperation : obs.1.operation with
      | invoke call =>
          rw [hoperation, State.entered, State.getElem?_sites_opened] at hr
          split at hr
          · -- an opened site has no targets yet
            cases hr
            simp at ht
          · exact Or.inl ⟨r, hr, ht⟩
      | _ =>
          rw [hoperation] at hr
          exact Or.inl ⟨r, hr, ht⟩
  | take _ _ => exact Or.inl ⟨r, hr, ht⟩
  | visit _ => exact Or.inl ⟨r, hr, ht⟩
  | pass _ _ _ => exact Or.inl ⟨r, hr, ht⟩

/-- With distinct offsets it is a target of the observation that stands there. -/
theorem Step.targets_cases (hoffsets : h.program.DistinctOffsets) (hs : Recorded h s)
    (hstep : Step h s s') {site : CallSite} {r : SiteRecord} {t : MethodRef}
    (hr : s'.sites[site]? = some r) (ht : t ∈ r.targets) :
    (∃ r₀, s.sites[site]? = some r₀ ∧ t ∈ r₀.targets) ∨
      (t ∈ s'.reachable ∧ ∃ obs, At h s site obs ∧ t ∈ h.targets s.strategy.admits obs) := by
  rcases hstep.targets_origin hr ht with hbefore | ⟨hreachable, hobs | ⟨call, hsite, htarget⟩⟩
  · exact Or.inl hbefore
  · exact Or.inr ⟨hreachable, hobs⟩
  · exact Or.inr ⟨hreachable, exists_targets_of_dispatching hoffsets hs hsite htarget⟩

/-- Nothing that is reachable, admitted or taken up is lost again. -/
structure Extends (s s' : State) : Prop where
  processed : ∀ m ∈ s.processed, m ∈ s'.processed
  reachable : ∀ m ∈ s.reachable, m ∈ s'.reachable
  admits : ∀ type, s.strategy.admits type = true → s'.strategy.admits type = true
  algorithm : s'.strategy.algorithm = s.strategy.algorithm

theorem Grows.extends {s s' : State} (hgrows : Grows s s') : Extends s s' where
  processed _ hm := hgrows.processed ▸ hm
  reachable := hgrows.reachable
  admits := hgrows.admits
  algorithm := hgrows.algorithm

theorem Step.extends (hstep : Step h s s') : Extends s s' := by
  cases hstep with
  | update hupdate => exact hupdate.grows.extends
  | enter _ _ _ =>
      obtain ⟨_, _, heq⟩ := s.entered_eq _ _ _
      rw [heq]
      exact ⟨fun _ hm => hm, fun _ hm => hm, fun _ htype => htype, rfl⟩
  | take _ _ =>
      refine ⟨?_, fun _ hm => hm, fun _ htype => htype, rfl⟩
      intro m hm
      exact List.mem_append_left _ hm
  | visit _ => exact ⟨fun _ hm => hm, fun _ hm => hm, fun _ htype => htype, rfl⟩
  | pass _ _ _ => exact ⟨fun _ hm => hm, fun _ hm => hm, fun _ htype => htype, rfl⟩

theorem Steps.extends (hsteps : Steps h s s') : Extends s s' := by
  induction hsteps with
  | refl => exact ⟨fun _ hm => hm, fun _ hm => hm, fun _ htype => htype, rfl⟩
  | tail _ hstep ih =>
      have hlast := hstep.extends
      exact ⟨fun m hm => hlast.processed m (ih.processed m hm),
        fun m hm => hlast.reachable m (ih.reachable m hm),
        fun type htype => hlast.admits type (ih.admits type htype),
        hlast.algorithm.trans ih.algorithm⟩

/-- Whatever a construction holds has a reason in the entries or in an observation
of a method that has been taken up. -/
structure Grounded (h : Hierarchy) (entries : List MethodRef) (s : State) : Prop where
  reachable : ∀ t ∈ s.reachable, t ∈ entries ∨
    ∃ m ∈ s.processed, ∃ obs ∈ h.program.observed m, t ∈ h.reached s.strategy.admits obs
  admits : ∀ type, s.strategy.admits type = true → s.strategy.algorithm = .cha ∨
    (∃ e ∈ entries, Strategy.isConstructorRoot h.program e = true ∧ e.owner = type) ∨
    ∃ m ∈ s.processed, ∃ obs ∈ h.program.observed m, type ∈ h.constructed obs
  targets : ∀ (site : CallSite) (r : SiteRecord), s.sites[site]? = some r → ∀ t ∈ r.targets,
    t ∈ s.reachable ∧ ∃ obs, At h s site obs ∧ t ∈ h.targets s.strategy.admits obs

variable {entries : List MethodRef}

theorem Step.grounded (hoffsets : h.program.DistinctOffsets) (hrecorded : Recorded h s)
    (hstep : Step h s s') (hs : Grounded h entries s) : Grounded h entries s' := by
  have hextends := hstep.extends
  constructor
  · intro t ht
    rcases hstep.reachable_cases hoffsets hrecorded ht with ht | ⟨m, hm, obs, hobs, ht⟩
    · rcases hs.reachable t ht with hentry | ⟨m, hm, obs, hobs, ht⟩
      · exact Or.inl hentry
      · exact Or.inr ⟨m, hextends.processed m hm, obs, hobs, h.reached_mono hextends.admits obs ht⟩
    · exact Or.inr ⟨m, hextends.processed m hm, obs, hobs, h.reached_mono hextends.admits obs ht⟩
  · intro type htype
    rw [hextends.algorithm]
    rcases hstep.admits_cases htype with htype | ⟨m, hm, obs, hobs, htype⟩
    · rcases hs.admits type htype with hcha | hroot | ⟨m, hm, obs, hobs, htype⟩
      · exact Or.inl hcha
      · exact Or.inr (Or.inl hroot)
      · exact Or.inr (Or.inr ⟨m, hextends.processed m hm, obs, hobs, htype⟩)
    · exact Or.inr (Or.inr ⟨m, hextends.processed m hm, obs, hobs, htype⟩)
  · intro site r hr t ht
    rcases hstep.targets_cases hoffsets hrecorded hr ht with
      ⟨r₀, hr₀, ht⟩ | ⟨hreachable, obs, hat, ht⟩
    · obtain ⟨hreachable, obs, hat, ht⟩ := hs.targets site r₀ hr₀ t ht
      exact ⟨hextends.reachable t hreachable, obs, hat.mono hextends.processed,
        h.targets_mono hextends.admits obs ht⟩
    · exact ⟨hreachable, obs, hat.mono hextends.processed, h.targets_mono hextends.admits obs ht⟩

theorem Steps.grounded (hoffsets : h.program.DistinctOffsets) (hsteps : Steps h s s')
    (hwf : WellFormed h entries s) (hs : Grounded h entries s) : Grounded h entries s' :=
  hsteps.keeps_of_wellFormed
    (fun _ _ hstep hwf hs => hstep.grounded hoffsets hwf.recorded hs) hwf hs

theorem grounded_initial (h : Hierarchy) (a : Algorithm) (entries : List MethodRef) :
    Grounded h entries (initial h (.ofAlgorithm a) entries) := by
  constructor
  · intro t ht
    exact Or.inl ((mem_reachable_initial h _ entries t).1 ht)
  · intro type htype
    rw [algorithm_initial, Strategy.algorithm_ofAlgorithm]
    rw [admits_initial, Strategy.admits_ofAlgorithm] at htype
    rcases htype with hcha | ⟨-, hroot⟩
    · exact Or.inl hcha
    · exact Or.inr (Or.inl hroot)
  · intro site r hr
    obtain ⟨_, _, _, _, heq⟩ := initial_eq h (.ofAlgorithm a) entries
    simp [heq] at hr

/-- A construction stays within methods and types. -/
structure Within (a : Algorithm) (methods : Set MethodRef) (types : Set TypeName)
    (s : State) : Prop where
  reachable : ∀ m ∈ s.reachable, m ∈ methods
  admits : ∀ type, s.strategy.admits type = true → a.admitting types type = true

variable {a : Algorithm} {methods : Set MethodRef} {types : Set TypeName}

/-- No rule leads out of closed methods and types, so no step does. -/
theorem Step.within (hoffsets : h.program.DistinctOffsets)
    (hclosed : h.Closed a entries methods types) (hwf : WellFormed h entries s)
    (hstep : Step h s s') (hs : Within a methods types s) : Within a methods types s' := by
  have hprocessed : ∀ m ∈ s.processed, m ∈ methods := by
    intro m hm
    exact hs.reachable m ((hwf.listed.mem_iff m).1 (List.mem_append_left _ hm))
  constructor
  · intro t ht
    rcases hstep.reachable_cases hoffsets hwf.recorded ht with ht | ⟨m, hm, obs, hobs, ht⟩
    · exact hs.reachable t ht
    · rcases h.reached_mono hs.admits obs ht with ht | ⟨type, htype, ht⟩
      · exact hclosed.targets m (hprocessed m hm) obs hobs t ht
      · exact hclosed.initializers m (hprocessed m hm) obs hobs type htype t ht
  · intro type htype
    rcases hstep.admits_cases htype with htype | ⟨m, hm, obs, hobs, htype⟩
    · exact hs.admits type htype
    · rw [a.admitting_eq_true_iff]
      exact Or.inr (hclosed.constructed m (hprocessed m hm) obs hobs type htype)

theorem Steps.within (hoffsets : h.program.DistinctOffsets)
    (hclosed : h.Closed a entries methods types) (hsteps : Steps h s s')
    (hwf : WellFormed h entries s) (hs : Within a methods types s) :
    Within a methods types s' :=
  hsteps.keeps_of_wellFormed
    (fun _ _ hstep hwf hs => hstep.within hoffsets hclosed hwf hs) hwf hs

theorem within_initial (hclosed : h.Closed a entries methods types) :
    Within a methods types (initial h (.ofAlgorithm a) entries) := by
  constructor
  · intro m hm
    exact hclosed.roots m ((mem_reachable_initial h _ entries m).1 hm)
  · intro type htype
    rw [a.admitting_eq_true_iff]
    rw [admits_initial, Strategy.admits_ofAlgorithm] at htype
    rcases htype with hcha | ⟨-, e, he, hroot, rfl⟩
    · exact Or.inl hcha
    · exact Or.inr (hclosed.constructorRoots e he hroot)

end

end Construction

end JvmReach
