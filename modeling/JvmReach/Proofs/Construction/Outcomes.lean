import JvmReach.Proofs.Construction.Accumulation
import JvmReach.Proofs.Construction.Soundness

/-!
# Graphs of any outcome

Whatever ends a construction, a phantom type that is not allowed, a time budget that
runs out in the middle of a pass, or nothing, its graph is that of a state reached by
steps. So what every step keeps holds of every graph that is built, and
`CallGraph.WellFormed` says what that is. The missing targets are only reported once a
construction has stopped, for the sites that no other diagnostic is about.
-/

namespace JvmReach

/-- A call graph whose parts fit together and fit the program. -/
structure CallGraph.WellFormed (h : Hierarchy) (entries : List MethodRef) (g : CallGraph) :
    Prop where
  nodup : g.discovered.Nodup
  mem_discovered : ∀ m, m ∈ g.discovered ↔ m ∈ g.reachable
  /-- The entries come first, each where it first occurs among them. -/
  entries : entries.eraseDups <+: g.discovered
  sites : ∀ (site : CallSite) (r : SiteRecord), g.sites[site]? = some r →
    site.caller ∈ g.reachable ∧ ∃ body, h.program.body? site.caller = some body ∧
      ⟨site.offset, .invoke r.call⟩ ∈ body.instructions
  edges : ∀ site t, (site, t) ∈ g.edges → t ∈ g.reachable ∧ h.program.Declares t
  /-- A site without target has a diagnostic. -/
  diagnosed : ∀ (site : CallSite) (r : SiteRecord), g.sites[site]? = some r → r.targets = ∅ →
    ∃ d ∈ g.diagnostics, d.site = site
  /-- A missing target is the one diagnostic of a site without target. -/
  noTarget : ∀ d ∈ g.diagnostics, d.problem = .noTarget →
    (∃ r, g.sites[d.site]? = some r ∧ r.targets = ∅) ∧
      ∀ d' ∈ g.diagnostics, d'.site = d.site → d' = d

theorem Diagnostics.mentions_iff (ds : Diagnostics) (site : CallSite) :
    ds.mentions site = true ↔ ∃ d ∈ ds, d.site = site := by
  simp only [mentions, List.any_eq_true, Std.ExtTreeSet.mem_toList, beq_iff_eq]

namespace Construction

namespace State

theorem mem_silentSites_iff (s : State) (site : CallSite) (r : SiteRecord) :
    (site, r) ∈ s.silentSites ↔
      s.sites[site]? = some r ∧ r.targets = ∅ ∧ ∀ d ∈ s.diagnostics, d.site ≠ site := by
  simp only [silentSites, List.mem_filter, Std.ExtTreeMap.mem_toList_iff_getElem?_eq_some,
    Bool.and_eq_true, Std.ExtTreeSet.isEmpty_iff, Bool.not_eq_true', ← Bool.not_eq_true,
    Diagnostics.mentions_iff, not_exists, not_and, ne_eq]

/-- The graph has the diagnostics of the construction and one for each silent site. -/
theorem mem_diagnostics_graph_iff (s : State) (d : Diagnostic) :
    d ∈ s.graph.diagnostics ↔ d ∈ s.diagnostics ∨
      ∃ r, (d.site, r) ∈ s.silentSites ∧ d.problem = .noTarget ∧
        d.declared = r.call.declared.text := by
  simp only [graph, Std.ExtTreeSet.mem_insertMany_list, List.contains_iff_mem, List.mem_map,
    Prod.exists]
  refine or_congr Iff.rfl ⟨?_, ?_⟩
  · rintro ⟨site, r, hsilent, rfl⟩
    exact ⟨r, hsilent, rfl, rfl⟩
  · rintro ⟨r, hsilent, hproblem, hdeclared⟩
    exact ⟨d.site, r, hsilent, by rw [← hproblem, ← hdeclared]⟩

end State

theorem graph_build (h : Hierarchy) (o : Options) (clock : Nat → Nat) (strategy : Strategy)
    (entries : List MethodRef) :
    (build h o clock strategy entries).graph =
      (run h o clock (turnBound h entries) 0 (initial h strategy entries)).state.graph := by
  rw [build]
  cases run h o clock (turnBound h entries) 0 (initial h strategy entries) <;> rfl

/-- The entries are reachable in every outcome. -/
theorem mem_reachable_build_of_mem (h : Hierarchy) (o : Options) (clock : Nat → Nat)
    (strategy : Strategy) {entries : List MethodRef} {e : MethodRef} (he : e ∈ entries) :
    e ∈ (build h o clock strategy entries).graph.reachable := by
  have hinitial := wellFormed_initial h strategy entries
  have hsteps := steps_run h o clock (turnBound h entries) 0 hinitial.swept
  rw [graph_build]
  exact hsteps.extends.reachable e ((mem_reachable_initial h strategy entries e).2 he)

/-- In every outcome the line of a call site is the one that its caller finds at its offset. -/
theorem line?_of_getElem?_sites_build (h : Hierarchy) (o : Options) (clock : Nat → Nat)
    (strategy : Strategy) (entries : List MethodRef) {site : CallSite} {r : SiteRecord}
    (hr : (build h o clock strategy entries).graph.sites[site]? = some r) :
    r.line? = (h.program.method? site.caller).bind (·.line? site.offset) := by
  have hinitial := wellFormed_initial h strategy entries
  have hsteps := steps_run h o clock (turnBound h entries) 0 hinitial.swept
  rw [graph_build] at hr
  exact ((hsteps.wellFormed hinitial).recorded.call site r hr).1

/-- The targets of the sites are reachable and declared. -/
def Targeted (h : Hierarchy) (s : State) : Prop :=
  ∀ (site : CallSite) (r : SiteRecord), s.sites[site]? = some r → ∀ t ∈ r.targets,
    t ∈ s.reachable ∧ h.program.Declares t

theorem Step.targeted {h : Hierarchy} {s s' : State} (hstep : Step h s s')
    (hs : Targeted h s) : Targeted h s' := by
  intro site r hr t ht
  rcases hstep.targets_origin hr ht with
    ⟨r₀, hr₀, ht⟩ | ⟨hreachable, ⟨obs, -, ht⟩ | ⟨call, -, ht⟩⟩
  · obtain ⟨hreachable, hdeclares⟩ := hs site r₀ hr₀ t ht
    exact ⟨hstep.extends.reachable t hreachable, hdeclares⟩
  · exact ⟨hreachable, h.declares_of_mem_targets ht⟩
  · exact ⟨hreachable, h.declares_of_mem_dispatchedTargets ht⟩

/-- No target is reported missing as long as the construction goes on. -/
def Undecided (s : State) : Prop := ∀ d ∈ s.diagnostics, d.problem ≠ .noTarget

theorem Step.undecided {h : Hierarchy} {s s' : State} (hstep : Step h s s')
    (hs : Undecided s) : Undecided s' := by
  intro d hd
  rcases hstep.update_or_diagnostics_eq with hupdate | heq
  · rcases hupdate.diagnostics_cases hd with
      hd | ⟨call, -, ⟨_, -, -, hproblem⟩ | ⟨-, hproblem⟩⟩
    · exact hs d hd
    · intro hnoTarget
      exact h.problem?_ne_noTarget call (hnoTarget ▸ hproblem)
    · intro hnoTarget
      exact h.resolutionProblem?_ne_noTarget call.declared (hnoTarget ▸ hproblem)
  · rw [heq] at hd
    exact hs d hd

theorem targeted_initial (h : Hierarchy) (strategy : Strategy) (entries : List MethodRef) :
    Targeted h (initial h strategy entries) := by
  intro site r hr
  obtain ⟨_, _, _, _, heq⟩ := initial_eq h strategy entries
  simp [heq] at hr

@[simp] theorem diagnostics_initial (h : Hierarchy) (strategy : Strategy)
    (entries : List MethodRef) : (initial h strategy entries).diagnostics = ∅ := by
  obtain ⟨_, _, _, _, heq⟩ := initial_eq h strategy entries
  rw [heq]

theorem undecided_initial (h : Hierarchy) (strategy : Strategy) (entries : List MethodRef) :
    Undecided (initial h strategy entries) := by
  intro d hd
  simp at hd

/-- A site that stands for a call has the body that it stands in. -/
theorem At.exists_body {h : Hierarchy} {s : State} {site : CallSite} {obs : Observation}
    (hat : At h s site obs) : ∃ body, h.program.body? site.caller = some body ∧
      ⟨site.offset, obs.1.operation⟩ ∈ body.instructions := by
  obtain ⟨body, hbody, hobs⟩ := (h.program.mem_observed_iff _ _).1 hat.observed
  refine ⟨body, hbody, ?_⟩
  rw [← hat.offset]
  exact (body.mem_instructions_iff obs.1).2 ⟨obs.2, hobs⟩

/-- A graph is well-formed when it is that of a state with these properties. -/
theorem WellFormed.wellFormed_graph {h : Hierarchy} {entries : List MethodRef} {s : State}
    (hwf : WellFormed h entries s) (hentries : entries.eraseDups <+: s.discovered)
    (htargeted : Targeted h s) (hundecided : Undecided s) : s.graph.WellFormed h entries := by
  constructor
  case nodup => exact hwf.listed.nodup
  case mem_discovered => exact hwf.listed.mem_iff
  case entries => exact hentries
  case sites =>
    intro site r hr
    obtain ⟨-, obs, hat, hcall⟩ := hwf.recorded.call site r hr
    refine ⟨(hwf.listed.mem_iff _).1 (List.mem_append_left _ hat.processed), ?_⟩
    rw [← hcall]
    exact hat.exists_body
  case edges =>
    intro site t hedge
    obtain ⟨r, hr, ht⟩ := (s.graph.mem_edges_iff site t).1 hedge
    exact htargeted site r hr t ht
  case diagnosed =>
    intro site r hr hempty
    by_cases hmentioned : ∃ d ∈ s.diagnostics, d.site = site
    · obtain ⟨d, hd, hsite⟩ := hmentioned
      exact ⟨d, (s.mem_diagnostics_graph_iff d).2 (Or.inl hd), hsite⟩
    · have hsilent : (site, r) ∈ s.silentSites :=
        (s.mem_silentSites_iff site r).2 ⟨hr, hempty, by simpa using hmentioned⟩
      exact ⟨⟨.noTarget, site, r.call.declared.text⟩,
        (s.mem_diagnostics_graph_iff _).2 (Or.inr ⟨r, hsilent, rfl, rfl⟩), rfl⟩
  case noTarget =>
    intro d hd hproblem
    rcases (s.mem_diagnostics_graph_iff d).1 hd with hd | ⟨r, hsilent, -, hdeclared⟩
    · exact absurd hproblem (hundecided d hd)
    · obtain ⟨hr, hempty, hunmentioned⟩ := (s.mem_silentSites_iff _ _).1 hsilent
      refine ⟨⟨r, hr, hempty⟩, ?_⟩
      intro d' hd' hsite
      rcases (s.mem_diagnostics_graph_iff d').1 hd' with hd' | ⟨r', hsilent', hproblem', hdeclared'⟩
      · exact absurd hsite (hunmentioned d' hd')
      · -- a silent site has one record, and its diagnostic is made from the record
        obtain ⟨hr', -, -⟩ := (s.mem_silentSites_iff _ _).1 hsilent'
        rw [hsite, hr] at hr'
        cases hr'
        cases d
        cases d'
        simp_all

/-- The graph is well-formed in every outcome, whatever the options, the strategy and
the clock. -/
theorem wellFormed_graph_build (h : Hierarchy) (o : Options) (clock : Nat → Nat)
    (strategy : Strategy) (entries : List MethodRef) :
    (build h o clock strategy entries).graph.WellFormed h entries := by
  have hinitial := wellFormed_initial h strategy entries
  have hsteps := steps_run h o clock (turnBound h entries) 0 hinitial.swept
  rw [graph_build]
  apply (hsteps.wellFormed hinitial).wellFormed_graph
  · rw [← discovered_initial h strategy entries]
    exact hsteps.accumulates.discovered
  · exact hsteps.keeps (fun _ _ => Step.targeted) (targeted_initial h strategy entries)
  · exact hsteps.keeps (fun _ _ => Step.undecided) (undecided_initial h strategy entries)

end Construction

end JvmReach
