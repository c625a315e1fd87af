import JvmReach.Proofs.Construction.Rules
import JvmReach.Proofs.Strategy.Events

/-!
# What the operations on a state keep

`Grows s s'` says that `s'` has everything that `s` has: reachable methods,
started types, admitted receiver types, and for each call site the same call with
at least the same targets. The lists that organize the work are the same, no site
is opened, and the strategy is unchanged unless its generation has grown. Every
operation on a state grows it, opening a site apart; what each one adds is said
beside it.
-/

namespace JvmReach

/-- The same call with at least the same targets. -/
structure SiteRecord.Grows (r r' : SiteRecord) : Prop where
  call : r'.call = r.call
  line? : r'.line? = r.line?
  targets : ∀ t ∈ r.targets, t ∈ r'.targets

theorem SiteRecord.Grows.refl (r : SiteRecord) : r.Grows r := ⟨rfl, rfl, fun _ ht => ht⟩

theorem SiteRecord.Grows.trans {r₁ r₂ r₃ : SiteRecord} (h₁ : r₁.Grows r₂) (h₂ : r₂.Grows r₃) :
    r₁.Grows r₃ :=
  ⟨h₂.call.trans h₁.call, h₂.line?.trans h₁.line?, fun t ht => h₂.targets t (h₁.targets t ht)⟩

namespace Construction

theorem State.mem_sites_iff (s : State) (site : CallSite) :
    site ∈ s.sites ↔ ∃ r, s.sites[site]? = some r := by
  rw [Std.ExtTreeMap.mem_iff_isSome_getElem?, Option.isSome_iff_exists]

structure Grows (s s' : State) : Prop where
  processed : s'.processed = s.processed
  virtualSites : s'.virtualSites = s.virtualSites
  sweep : s'.sweep = s.sweep
  resolvedAt : s'.resolvedAt = s.resolvedAt
  reachable : ∀ m ∈ s.reachable, m ∈ s'.reachable
  started : ∀ type ∈ s.started, type ∈ s'.started
  algorithm : s'.strategy.algorithm = s.strategy.algorithm
  admits : ∀ type, s.strategy.admits type = true → s'.strategy.admits type = true
  strategy : s'.strategy = s.strategy ∨ s.strategy.generation < s'.strategy.generation
  sites : ∀ (site : CallSite) (r : SiteRecord), s.sites[site]? = some r →
    ∃ r', s'.sites[site]? = some r' ∧ r.Grows r'
  opened : ∀ site ∈ s'.sites, site ∈ s.sites

namespace Grows

theorem refl (s : State) : Grows s s where
  processed := rfl
  virtualSites := rfl
  sweep := rfl
  resolvedAt := rfl
  reachable _ hm := hm
  started _ htype := htype
  algorithm := rfl
  admits _ htype := htype
  strategy := Or.inl rfl
  sites _ r hr := ⟨r, hr, .refl r⟩
  opened _ hsite := hsite

theorem trans {s₁ s₂ s₃ : State} (h₁ : Grows s₁ s₂) (h₂ : Grows s₂ s₃) : Grows s₁ s₃ where
  processed := h₂.processed.trans h₁.processed
  virtualSites := h₂.virtualSites.trans h₁.virtualSites
  sweep := h₂.sweep.trans h₁.sweep
  resolvedAt := h₂.resolvedAt.trans h₁.resolvedAt
  reachable m hm := h₂.reachable m (h₁.reachable m hm)
  started type htype := h₂.started type (h₁.started type htype)
  algorithm := h₂.algorithm.trans h₁.algorithm
  admits type htype := h₂.admits type (h₁.admits type htype)
  strategy := by
    rcases h₁.strategy with heq₁ | hlt₁
    · rw [← heq₁]
      exact h₂.strategy
    · rcases h₂.strategy with heq₂ | hlt₂
      · rw [heq₂]
        exact Or.inr hlt₁
      · exact Or.inr (hlt₁.trans hlt₂)
  sites site r hr := by
    obtain ⟨r₂, hr₂, hgrows₂⟩ := h₁.sites site r hr
    obtain ⟨r₃, hr₃, hgrows₃⟩ := h₂.sites site r₂ hr₂
    exact ⟨r₃, hr₃, hgrows₂.trans hgrows₃⟩
  opened site hsite := h₁.opened site (h₂.opened site hsite)

theorem generation_le {s s' : State} (h : Grows s s') :
    s.strategy.generation ≤ s'.strategy.generation := by
  rcases h.strategy with heq | hlt
  · rw [heq]
  · exact hlt.le

/-- A record after growth stems from one before. -/
theorem exists_record {s s' : State} (h : Grows s s') {site : CallSite} {r' : SiteRecord}
    (hr' : s'.sites[site]? = some r') : ∃ r, s.sites[site]? = some r ∧ r.Grows r' := by
  obtain ⟨r, hr⟩ := (s.mem_sites_iff site).1 (h.opened site ((s'.mem_sites_iff site).2 ⟨r', hr'⟩))
  obtain ⟨r'', hr'', hrecord⟩ := h.sites site r hr
  have heq : r'' = r' := Option.some.inj (hr''.symm.trans hr')
  subst heq
  exact ⟨r, hr, hrecord⟩

end Grows

namespace State

theorem discover_eq (s : State) (m : MethodRef) : ∃ reachable pending log,
    s.discover m = { s with reachable := reachable, pending := pending, log := log } := by
  rw [discover]
  split
  · exact ⟨_, _, _, rfl⟩
  · exact ⟨_, _, _, rfl⟩

theorem grows_discover (s : State) (m : MethodRef) : Grows s (s.discover m) := by
  have hreachable : ∀ n ∈ s.reachable, n ∈ (s.discover m).reachable := by
    intro n hn
    exact (s.mem_reachable_discover m n).2 (Or.inr hn)
  obtain ⟨_, _, _, heq⟩ := s.discover_eq m
  rw [heq] at hreachable ⊢
  exact { Grows.refl s with reachable := hreachable }

theorem grows_foldl_discover (s : State) (methods : List MethodRef) :
    Grows s (methods.foldl discover s) := by
  induction methods generalizing s with
  | nil => exact Grows.refl s
  | cons m rest ih => exact (s.grows_discover m).trans (ih (s.discover m))

theorem mem_reachable_foldl_discover (s : State) (methods : List MethodRef) (m : MethodRef) :
    m ∈ (methods.foldl discover s).reachable ↔ m ∈ methods ∨ m ∈ s.reachable := by
  induction methods generalizing s with
  | nil => simp
  | cons n rest ih =>
      rw [List.foldl_cons, ih, mem_reachable_discover, List.mem_cons]
      tauto

theorem foldl_discover_eq (s : State) (methods : List MethodRef) : ∃ reachable pending log,
    methods.foldl discover s =
      { s with reachable := reachable, pending := pending, log := log } := by
  induction methods generalizing s with
  | nil => exact ⟨_, _, _, rfl⟩
  | cons m rest ih =>
      obtain ⟨_, _, _, hfirst⟩ := s.discover_eq m
      obtain ⟨_, _, _, hrest⟩ := ih (s.discover m)
      rw [List.foldl_cons, hrest, hfirst]
      exact ⟨_, _, _, rfl⟩

theorem getElem?_sites_addEdge (s : State) (site other : CallSite) (target : MethodRef) :
    (s.addEdge site target).sites[other]? =
      if site = other then
        s.sites[other]?.map fun r => { r with targets := r.targets.insert target }
      else s.sites[other]? := by
  obtain ⟨_, _, _, heq⟩ := s.discover_eq target
  simp only [addEdge, heq, Std.ExtTreeMap.getElem?_modify, Std.LawfulEqCmp.compare_eq_iff_eq]
  split
  · next hsite => rw [hsite]
  · rfl

theorem grows_addEdge (s : State) (site : CallSite) (target : MethodRef) :
    Grows s (s.addEdge site target) := by
  have hsites : ∀ (other : CallSite) (r : SiteRecord), s.sites[other]? = some r →
      ∃ r', (s.addEdge site target).sites[other]? = some r' ∧ r.Grows r' := by
    intro other r hr
    rw [getElem?_sites_addEdge, hr]
    split
    · refine ⟨_, rfl, rfl, rfl, ?_⟩
      intro t ht
      exact Std.ExtTreeSet.mem_insert.2 (Or.inr ht)
    · exact ⟨r, rfl, .refl r⟩
  have hopened : ∀ other ∈ (s.addEdge site target).sites, other ∈ s.sites := by
    intro other hother
    obtain ⟨r, hr⟩ := (mem_sites_iff _ other).1 hother
    rw [getElem?_sites_addEdge] at hr
    split at hr
    · obtain ⟨r, hr, -⟩ := Option.map_eq_some_iff.1 hr
      exact (s.mem_sites_iff other).2 ⟨r, hr⟩
    · exact (s.mem_sites_iff other).2 ⟨r, hr⟩
  exact { s.grows_discover target with sites := hsites, opened := hopened }

theorem mem_reachable_addEdge (s : State) (site : CallSite) (target m : MethodRef) :
    m ∈ (s.addEdge site target).reachable ↔ target = m ∨ m ∈ s.reachable :=
  s.mem_reachable_discover target m

@[simp] theorem strategy_addEdge (s : State) (site : CallSite) (target : MethodRef) :
    (s.addEdge site target).strategy = s.strategy := by
  obtain ⟨_, _, _, heq⟩ := s.discover_eq target
  simp only [addEdge, heq]

theorem grows_foldl_addEdge (s : State) (site : CallSite) (targets : List MethodRef) :
    Grows s (targets.foldl (fun s target => s.addEdge site target) s) := by
  induction targets generalizing s with
  | nil => exact Grows.refl s
  | cons t rest ih => exact (s.grows_addEdge site t).trans (ih _)

@[simp] theorem strategy_foldl_addEdge (s : State) (site : CallSite) (targets : List MethodRef) :
    (targets.foldl (fun s target => s.addEdge site target) s).strategy = s.strategy := by
  induction targets generalizing s with
  | nil => rfl
  | cons t rest ih => rw [List.foldl_cons, ih, strategy_addEdge]

/-- The edges that are added to a site are among its targets. -/
theorem mem_targets_foldl_addEdge (s : State) {site : CallSite} (hsite : site ∈ s.sites)
    (targets : List MethodRef) :
    ∃ r, (targets.foldl (fun s target => s.addEdge site target) s).sites[site]? = some r ∧
      ∀ t ∈ targets, t ∈ r.targets := by
  induction targets generalizing s with
  | nil =>
      obtain ⟨r, hr⟩ := (s.mem_sites_iff site).1 hsite
      exact ⟨r, hr, by simp⟩
  | cons t rest ih =>
      obtain ⟨r, hr⟩ := (s.mem_sites_iff site).1 hsite
      have hfirst : (s.addEdge site t).sites[site]? =
          some { r with targets := r.targets.insert t } := by
        rw [getElem?_sites_addEdge, if_pos rfl, hr]
        rfl
      have hsite' : site ∈ (s.addEdge site t).sites := (mem_sites_iff _ site).2 ⟨_, hfirst⟩
      obtain ⟨r', hr', hrest⟩ := ih (s.addEdge site t) hsite'
      refine ⟨r', hr', ?_⟩
      intro u hu
      rcases List.mem_cons.1 hu with rfl | hu
      · obtain ⟨r'', hr'', hgrows⟩ :=
          (grows_foldl_addEdge (s.addEdge site u) site rest).sites site _ hfirst
        have heq : r'' = r' := Option.some.inj (hr''.symm.trans hr')
        subst heq
        exact hgrows.targets u (Std.ExtTreeSet.mem_insert_self)
      · exact hrest u hu

theorem grows_diagnose (s : State) (problem : Problem) (site : CallSite) (call : Invocation) :
    Grows s (s.diagnose problem site call) :=
  { Grows.refl s with }

theorem grows_record (s : State) (e : Event) : Grows s (s.record e) :=
  { Grows.refl s with }

@[simp] theorem strategy_observeConstruction (s : State) (type : TypeName) :
    (s.observeConstruction type).strategy = s.strategy.onInstantiation type := by
  rw [observeConstruction]
  split
  · rfl
  · next hnews =>
      rw [Strategy.onInstantiation_of_not_isNews]
      simpa using hnews

theorem observeConstruction_eq (s : State) (type : TypeName) : ∃ log,
    s.observeConstruction type =
      { s with strategy := s.strategy.onInstantiation type, log := log } := by
  have hstrategy := s.strategy_observeConstruction type
  rw [observeConstruction] at hstrategy ⊢
  split at hstrategy
  · next hnews => exact ⟨_, if_pos hnews⟩
  · next hnews =>
      rw [if_neg hnews, ← hstrategy]
      exact ⟨_, rfl⟩

theorem grows_observeConstruction (s : State) (type : TypeName) :
    Grows s (s.observeConstruction type) := by
  obtain ⟨_, heq⟩ := s.observeConstruction_eq type
  have hadmits : ∀ other, s.strategy.admits other = true →
      (s.strategy.onInstantiation type).admits other = true := by
    intro other hother
    exact (s.strategy.admits_onInstantiation type other).2 (Or.inl hother)
  rw [heq]
  exact { Grows.refl s with
    algorithm := s.strategy.algorithm_onInstantiation type
    admits := hadmits
    strategy := s.strategy.onInstantiation_eq_or_generation_lt type }

/-- The classes that starting a type newly starts. -/
def newlyStarted (h : Hierarchy) (s : State) (type : TypeName) : List ClassDef :=
  (h.superclassChain type).classes.takeWhile (!s.started.contains ·.name)

theorem start_eq (h : Hierarchy) (s : State) (type : TypeName) :
    s.start h type = ((s.newlyStarted h type).filterMap ClassDef.staticInitializer?).foldl discover
      { s with started := s.started.insertMany ((s.newlyStarted h type).map ClassDef.name) } :=
  rfl

theorem exists_start_eq (h : Hierarchy) (s : State) (type : TypeName) :
    ∃ reachable pending log, s.start h type =
      { s with
        started := s.started.insertMany ((s.newlyStarted h type).map ClassDef.name)
        reachable := reachable
        pending := pending
        log := log } := by
  rw [start_eq]
  exact foldl_discover_eq _ _

theorem mem_started_start (h : Hierarchy) (s : State) (type other : TypeName) :
    other ∈ (s.start h type).started ↔
      other ∈ s.started ∨ ∃ c ∈ s.newlyStarted h type, c.name = other := by
  obtain ⟨_, _, _, heq⟩ := s.exists_start_eq h type
  rw [heq, Std.ExtTreeSet.mem_insertMany_list, List.contains_iff_mem, List.mem_map]

theorem mem_reachable_start (h : Hierarchy) (s : State) (type : TypeName) (m : MethodRef) :
    m ∈ (s.start h type).reachable ↔
      (∃ c ∈ s.newlyStarted h type, c.staticInitializer? = some m) ∨ m ∈ s.reachable := by
  rw [start_eq, mem_reachable_foldl_discover, List.mem_filterMap]

@[simp] theorem strategy_start (h : Hierarchy) (s : State) (type : TypeName) :
    (s.start h type).strategy = s.strategy := by
  obtain ⟨_, _, _, heq⟩ := s.exists_start_eq h type
  rw [heq]

@[simp] theorem sites_start (h : Hierarchy) (s : State) (type : TypeName) :
    (s.start h type).sites = s.sites := by
  obtain ⟨_, _, _, heq⟩ := s.exists_start_eq h type
  rw [heq]

theorem grows_start (h : Hierarchy) (s : State) (type : TypeName) :
    Grows s (s.start h type) := by
  have hstarted : ∀ other ∈ s.started,
      other ∈ s.started.insertMany ((s.newlyStarted h type).map ClassDef.name) := by
    intro other hother
    exact Std.ExtTreeSet.mem_insertMany_list.2 (Or.inl hother)
  rw [start_eq]
  refine Grows.trans ?_ (grows_foldl_discover _ _)
  exact { Grows.refl s with started := hstarted }

end State

end Construction

end JvmReach
