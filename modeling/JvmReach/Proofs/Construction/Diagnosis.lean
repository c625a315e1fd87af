import JvmReach.Proofs.Construction.Outcomes

/-!
# Diagnostics are exact

With distinct offsets a diagnostic of a construction explains itself: it is about a call
that stands at its site, and says what keeps that call from being followed (`Explained`).
Conversely the scan of a call that cannot be followed leaves its diagnostic, and no later
pass takes it away or makes another one (`Reported`). A site that is without diagnostic
when the construction stops has a call that was resolved, and if there is no target, that
is reported then. So each site has at most the one diagnostic that `diagnosis?` gives, and
the missing types are counted by call sites, however often these were resolved.
-/

namespace JvmReach

namespace Hierarchy

/-- The problem of a call site whose targets are known, if it has one. -/
def diagnosis? (h : Hierarchy) (r : SiteRecord) : Option Problem :=
  if r.call.kind = .dynamic then some .unsupported
  else
    match h.resolve r.call.declared with
    | .phantom missing => some (.phantom missing)
    | .notFound => some .unresolved
    | .resolved _ => if r.targets.isEmpty then some .noTarget else none

theorem problem?_of_dispatches (h : Hierarchy) {call : Invocation}
    (hcall : call.dispatches = true) :
    h.problem? call = h.resolutionProblem? call.declared := by
  obtain ⟨declared, kind, onArray⟩ := call
  cases kind <;> simp_all [problem?, Invocation.dispatches]

theorem resolve_of_resolutionProblem? (h : Hierarchy) {m : MethodRef} {problem : Problem}
    (hproblem : h.resolutionProblem? m = some problem) :
    (∃ missing, h.resolve m = .phantom missing ∧ .phantom missing = problem) ∨
      (h.resolve m = .notFound ∧ .unresolved = problem) := by
  rw [resolutionProblem?] at hproblem
  cases hresolve : h.resolve m with
  | resolved target => simp [hresolve] at hproblem
  | phantom missing => simpa [hresolve] using hproblem
  | notFound => simpa [hresolve] using hproblem

theorem problem?_eq_some_phantom_iff (h : Hierarchy) (call : Invocation) (missing : TypeName) :
    h.problem? call = some (.phantom missing) ↔
      call.kind ≠ .dynamic ∧ h.resolve call.declared = .phantom missing := by
  by_cases hkind : call.kind = .dynamic
  · simp [problem?, hkind]
  · cases hresolve : h.resolve call.declared <;>
      simp [problem?, resolutionProblem?, hkind, hresolve]

/-- A target can only be missing where the call resolves. -/
theorem diagnosis?_eq_some_iff (h : Hierarchy) (r : SiteRecord) (problem : Problem) :
    h.diagnosis? r = some problem ↔ h.problem? r.call = some problem ∨
      (h.problem? r.call = none ∧ r.targets = ∅ ∧ problem = .noTarget) := by
  by_cases hkind : r.call.kind = .dynamic
  · simp [diagnosis?, problem?, hkind]
  · cases hresolve : h.resolve r.call.declared with
    | resolved target =>
        simp [diagnosis?, problem?, resolutionProblem?, hkind, hresolve,
          eq_comm (a := problem)]
    | phantom missing => simp [diagnosis?, problem?, resolutionProblem?, hkind, hresolve]
    | notFound => simp [diagnosis?, problem?, resolutionProblem?, hkind, hresolve]

theorem diagnosis?_eq_some_phantom_iff (h : Hierarchy) (r : SiteRecord) (missing : TypeName) :
    h.diagnosis? r = some (.phantom missing) ↔
      r.call.kind ≠ .dynamic ∧ h.resolve r.call.declared = .phantom missing := by
  rw [diagnosis?_eq_some_iff, problem?_eq_some_phantom_iff]
  simp

end Hierarchy

/-- The diagnostics of a call graph are those that its call sites call for. -/
structure CallGraph.Diagnosed (h : Hierarchy) (g : CallGraph) : Prop where
  mem_iff : ∀ d, d ∈ g.diagnostics ↔ ∃ r, g.sites[d.site]? = some r ∧
    d.declared = r.call.declared.text ∧ h.diagnosis? r = some d.problem
  unique : ∀ d ∈ g.diagnostics, ∀ d' ∈ g.diagnostics, d.site = d'.site → d = d'
  /-- A missing type counts the call sites whose resolution ran into it. -/
  phantomTypes : ∀ missing count, (missing, count) ∈ Diagnostics.phantomTypes g.diagnostics ↔
    0 < count ∧ count = (g.sites.toList.filter fun (_, r) =>
      r.call.kind ≠ .dynamic ∧ h.resolve r.call.declared = .phantom missing).length

theorem Diagnostics.nodup_toList (ds : Diagnostics) : ds.toList.Nodup :=
  ds.distinct_toList.imp fun hne heq => hne (Std.LawfulEqCmp.compare_eq_iff_eq.2 heq)

theorem Diagnostics.mem_phantomTypes_iff (ds : Diagnostics) (missing : TypeName) (count : Nat) :
    (missing, count) ∈ ds.phantomTypes ↔ 0 < count ∧
      count = (ds.toList.filter fun d => d.missing? = some missing).length := by
  have hcount : (ds.toList.filterMap Diagnostic.missing?).count missing =
      (ds.toList.filter fun d => d.missing? = some missing).length := by
    rw [List.count_filterMap, List.countP_eq_length_filter]
    congr 1
    exact List.filter_congr fun d _ => by simp [beq_eq_decide]
  rw [← hcount]
  simp only [phantomTypes, List.mem_map, Prod.mk.injEq, Std.ExtTreeSet.mem_toList,
    Std.ExtTreeSet.mem_ofList, List.contains_iff_mem]
  constructor
  · rintro ⟨_, hmem, rfl, rfl⟩
    exact ⟨List.count_pos_iff.2 hmem, rfl⟩
  · rintro ⟨hpos, rfl⟩
    exact ⟨missing, List.count_pos_iff.1 hpos, rfl, rfl⟩

namespace CallGraph

/-- Diagnostics about a missing type are as many as the sites that call for them. -/
theorem length_filter_missing_eq (h : Hierarchy) (g : CallGraph)
    (hmem : ∀ d, d ∈ g.diagnostics ↔ ∃ r, g.sites[d.site]? = some r ∧
      d.declared = r.call.declared.text ∧ h.diagnosis? r = some d.problem)
    (hunique : ∀ d ∈ g.diagnostics, ∀ d' ∈ g.diagnostics, d.site = d'.site → d = d')
    (missing : TypeName) :
    (g.diagnostics.toList.filter fun d => d.missing? = some missing).length =
      (g.sites.toList.filter fun (_, r) =>
        r.call.kind ≠ .dynamic ∧ h.resolve r.call.declared = .phantom missing).length := by
  -- both lists have the same call sites, each once
  have hsites : ((g.diagnostics.toList.filter fun d => d.missing? = some missing).map
      Diagnostic.site).Perm ((g.sites.toList.filter fun (_, r) =>
        r.call.kind ≠ .dynamic ∧ h.resolve r.call.declared = .phantom missing).map Prod.fst) := by
    refine (List.perm_ext_iff_of_nodup ?_ ?_).2 ?_
    · refine ((Diagnostics.nodup_toList g.diagnostics).filter _).map_on ?_
      intro d hd d' hd' hsite
      exact hunique d (Std.ExtTreeSet.mem_toList.1 (List.mem_filter.1 hd).1) d'
        (Std.ExtTreeSet.mem_toList.1 (List.mem_filter.1 hd').1) hsite
    · have hkeys : (g.sites.toList.map Prod.fst).Nodup :=
        List.pairwise_map.2 (g.sites.distinct_keys_toList.imp fun hne heq =>
          hne (Std.LawfulEqCmp.compare_eq_iff_eq.2 heq))
      exact hkeys.sublist (List.filter_sublist.map Prod.fst)
    · intro site
      simp only [List.mem_map, List.mem_filter, decide_eq_true_eq, Prod.exists,
        Std.ExtTreeSet.mem_toList, Std.ExtTreeMap.mem_toList_iff_getElem?_eq_some,
        exists_and_right, exists_eq_right]
      constructor
      · rintro ⟨d, ⟨hd, hmissing⟩, rfl⟩
        obtain ⟨r, hr, -, hdiagnosis⟩ := (hmem d).1 hd
        have hproblem : d.problem = .phantom missing := by
          obtain ⟨problem, _, _⟩ := d
          cases problem <;> simp_all [Diagnostic.missing?, Problem.missing?]
        rw [hproblem] at hdiagnosis
        exact ⟨r, hr, (h.diagnosis?_eq_some_phantom_iff r missing).1 hdiagnosis⟩
      · rintro ⟨r, hr, hphantom⟩
        refine ⟨⟨.phantom missing, site, r.call.declared.text⟩, ⟨(hmem _).2 ?_, rfl⟩, rfl⟩
        exact ⟨r, hr, rfl, (h.diagnosis?_eq_some_phantom_iff r missing).2 hphantom⟩
  simpa using hsites.length_eq

/-- It is enough that the diagnostics are the ones that the call sites call for. -/
theorem diagnosed_of_mem_iff {h : Hierarchy} {g : CallGraph}
    (hmem : ∀ d, d ∈ g.diagnostics ↔ ∃ r, g.sites[d.site]? = some r ∧
      d.declared = r.call.declared.text ∧ h.diagnosis? r = some d.problem) : g.Diagnosed h := by
  have hunique : ∀ d ∈ g.diagnostics, ∀ d' ∈ g.diagnostics, d.site = d'.site → d = d' := by
    intro d hd d' hd' hsite
    obtain ⟨r, hr, hdeclared, hdiagnosis⟩ := (hmem d).1 hd
    obtain ⟨r', hr', hdeclared', hdiagnosis'⟩ := (hmem d').1 hd'
    rw [← hsite, hr] at hr'
    cases hr'
    cases d
    cases d'
    simp_all
  refine ⟨hmem, hunique, fun missing count => ?_⟩
  rw [Diagnostics.mem_phantomTypes_iff, g.length_filter_missing_eq h hmem hunique]

end CallGraph

namespace Construction

/-- A diagnostic is about a call that stands at its site and says what keeps it from being
followed. -/
def Explained (h : Hierarchy) (s : State) : Prop :=
  ∀ d ∈ s.diagnostics, ∃ obs call, At h s d.site obs ∧ obs.1.operation = .invoke call ∧
    d.declared = call.declared.text ∧ h.problem? call = some d.problem

/-- A call that cannot be followed has its diagnostic. -/
def Reported (h : Hierarchy) (s : State) (site : CallSite) (obs : Observation) : Prop :=
  ∀ call problem, obs.1.operation = .invoke call → h.problem? call = some problem →
    (⟨problem, site, call.declared.text⟩ : Diagnostic) ∈ s.diagnostics

theorem Step.explained {h : Hierarchy} {s s' : State} (hoffsets : h.program.DistinctOffsets)
    (hrecorded : Recorded h s) (hstep : Step h s s') (hs : Explained h s) : Explained h s' := by
  have hprocessed := hstep.extends.processed
  have hold : ∀ d ∈ s.diagnostics, ∃ obs call, At h s' d.site obs ∧
      obs.1.operation = .invoke call ∧ d.declared = call.declared.text ∧
      h.problem? call = some d.problem := by
    intro d hd
    obtain ⟨obs, call, hat, hcall⟩ := hs d hd
    exact ⟨obs, call, hat.mono hprocessed, hcall⟩
  intro d hd
  rcases hstep.update_or_diagnostics_eq with hupdate | heq
  · rcases hupdate.diagnostics_cases hd with
      hd | ⟨call, hdeclared, ⟨obs, hat, hcall, hproblem⟩ | ⟨hsite, hproblem⟩⟩
    · exact hold d hd
    · exact ⟨obs, call, hat.mono hprocessed, hcall, hdeclared, hproblem⟩
    · obtain ⟨obs, hat, hcall, hdispatches⟩ := exists_at_of_dispatching hoffsets hrecorded hsite
      rw [← h.problem?_of_dispatches hdispatches] at hproblem
      exact ⟨obs, call, hat.mono hprocessed, hcall, hdeclared, hproblem⟩
  · rw [heq] at hd
    exact hold d hd

namespace State

variable {h : Hierarchy} {o : Options} {s s' : State} {site : CallSite} {call : Invocation}
  {problem : Problem}

theorem mem_diagnostics_resolveVirtual (hok : s.resolveVirtual h o site call = .ok s')
    (hproblem : h.resolutionProblem? call.declared = some problem) :
    (⟨problem, site, call.declared.text⟩ : Diagnostic) ∈ s'.diagnostics := by
  rcases h.resolve_of_resolutionProblem? hproblem with ⟨missing, hresolve, rfl⟩ | ⟨hresolve, rfl⟩
  · rw [resolveVirtual_of_phantom h o s site call hresolve] at hok
    cases hphantoms : o.phantoms with
    | fail => simp [hphantoms] at hok
    | allow =>
        simp only [hphantoms] at hok
        cases hok
        rw [diagnostics_dispatch]
        exact s.mem_diagnostics_diagnose_self _ site call
  · rw [resolveVirtual_of_notFound h o s site call hresolve] at hok
    cases hok
    exact s.mem_diagnostics_diagnose_self _ site call

theorem mem_diagnostics_resolveDirect (hok : s.resolveDirect h o site call = .ok s')
    (hproblem : h.resolutionProblem? call.declared = some problem) :
    (⟨problem, site, call.declared.text⟩ : Diagnostic) ∈ s'.diagnostics := by
  rcases h.resolve_of_resolutionProblem? hproblem with ⟨missing, hresolve, rfl⟩ | ⟨hresolve, rfl⟩
  · simp only [resolveDirect, hresolve, missingType] at hok
    cases hphantoms : o.phantoms with
    | fail => simp [hphantoms] at hok
    | allow =>
        simp only [hphantoms] at hok
        cases hok
        exact s.mem_diagnostics_diagnose_self _ site call
  · simp only [resolveDirect, hresolve] at hok
    cases hok
    exact s.mem_diagnostics_diagnose_self _ site call

theorem mem_diagnostics_scanCall {line? : Option Nat}
    (hok : s.scanCall h o site call line? = .ok s') (hproblem : h.problem? call = some problem) :
    (⟨problem, site, call.declared.text⟩ : Diagnostic) ∈ s'.diagnostics := by
  rw [scanCall_eq] at hok
  rw [Hierarchy.problem?] at hproblem
  by_cases hkind : call.kind = .dynamic
  · rw [if_pos hkind] at hok hproblem
    cases hok
    cases hproblem
    exact mem_diagnostics_diagnose_self _ _ site call
  · rw [if_neg hkind] at hok hproblem
    split at hok
    · exact mem_diagnostics_resolveVirtual hok hproblem
    · exact mem_diagnostics_resolveDirect hok hproblem

end State

theorem lasting_reported (h : Hierarchy) (o : Options) (entries : List MethodRef) :
    Lasting h o entries (Reported h) where
  established := by
    intro s s' m method obs hwf hat hok call problem hcall hproblem
    obtain ⟨s₁, hoperate, rfl⟩ := State.exists_of_scan_eq_ok hok
    have hat₁ := State.at_operate hat hoperate
    rw [hcall] at hoperate
    have hscanned := State.mem_diagnostics_scanCall hoperate hproblem
    -- the reflective effect comes after the call and adds to it only
    exact (State.updates_reflect? hat₁).steps.accumulates.diagnostics _ hscanned
  kept hstep hs call problem hcall hproblem :=
    hstep.accumulates.diagnostics _ (hs call problem hcall hproblem)

theorem explained_of_run {h : Hierarchy} {o : Options} {clock : Nat → Nat} {turns : Nat}
    {strategy : Strategy} {entries : List MethodRef} {s : State}
    (hoffsets : h.program.DistinctOffsets)
    (hrun : run h o clock turns 0 (initial h strategy entries) = .ok s) : Explained h s := by
  have hinitial := wellFormed_initial h strategy entries
  have hsteps := (steps_run h o clock turns 0 hinitial.swept).of_eq_ok hrun
  refine hsteps.keeps_of_wellFormed (P := Explained h)
    (fun _ _ hstep hwf hs => hstep.explained hoffsets hwf.recorded hs) hinitial ?_
  intro d hd
  simp at hd

/-- A site whose call stands there is recorded with that call. -/
theorem Settled.exists_record {h : Hierarchy} {s : State} (hs : Settled h s)
    (hoffsets : h.program.DistinctOffsets) (hrecorded : Recorded h s) {site : CallSite}
    {obs : Observation} {call : Invocation} (hat : At h s site obs)
    (hcall : obs.1.operation = .invoke call) :
    ∃ r, s.sites[site]? = some r ∧ r.call = call := by
  obtain ⟨-, r, hr, -⟩ := hs.sites site.caller hat.processed obs hat.observed call hcall
  rw [hat.offset] at hr
  obtain ⟨-, obs', hat', hcall'⟩ := hrecorded.call site r hr
  rw [← hat.unique hoffsets hat', hcall] at hcall'
  cases hcall'
  exact ⟨r, hr, rfl⟩

/-- The diagnostics of the graph of a stopped construction, by its call sites. -/
theorem mem_diagnostics_graph_iff_diagnosis {h : Hierarchy} {s : State}
    (hoffsets : h.program.DistinctOffsets) (hrecorded : Recorded h s) (hsettled : Settled h s)
    (hexplained : Explained h s)
    (hreported : ∀ m ∈ s.processed, ∀ obs ∈ h.program.observed m,
      Reported h s ⟨m, obs.1.offset⟩ obs) (d : Diagnostic) :
    d ∈ s.graph.diagnostics ↔ ∃ r, s.sites[d.site]? = some r ∧
      d.declared = r.call.declared.text ∧ h.diagnosis? r = some d.problem := by
  have hproblem : ∀ (site : CallSite) (r : SiteRecord) (problem : Problem),
      s.sites[site]? = some r → h.problem? r.call = some problem →
      (⟨problem, site, r.call.declared.text⟩ : Diagnostic) ∈ s.diagnostics := by
    intro site r problem hr hproblem
    obtain ⟨-, obs, hat, hcall⟩ := hrecorded.call site r hr
    have hmem := hreported site.caller hat.processed obs hat.observed r.call problem hcall hproblem
    rwa [hat.offset] at hmem
  have hexplain : ∀ d ∈ s.diagnostics, ∃ r, s.sites[d.site]? = some r ∧
      d.declared = r.call.declared.text ∧ h.problem? r.call = some d.problem := by
    intro d hd
    obtain ⟨obs, call, hat, hcall, hdeclared, hproblem⟩ := hexplained d hd
    obtain ⟨r, hr, rfl⟩ := hsettled.exists_record hoffsets hrecorded hat hcall
    exact ⟨r, hr, hdeclared, hproblem⟩
  rw [s.mem_diagnostics_graph_iff]
  constructor
  · rintro (hd | ⟨r, hsilent, hnoTarget, hdeclared⟩)
    · obtain ⟨r, hr, hdeclared, hproblem⟩ := hexplain d hd
      exact ⟨r, hr, hdeclared, (h.diagnosis?_eq_some_iff r _).2 (Or.inl hproblem)⟩
    · obtain ⟨hr, hempty, hunmentioned⟩ := (s.mem_silentSites_iff _ _).1 hsilent
      refine ⟨r, hr, hdeclared, (h.diagnosis?_eq_some_iff r _).2 (Or.inr ⟨?_, hempty, hnoTarget⟩)⟩
      rw [Option.eq_none_iff_forall_ne_some]
      intro problem hsome
      exact hunmentioned _ (hproblem d.site r problem hr hsome) rfl
  · rintro ⟨r, hr, hdeclared, hdiagnosis⟩
    rcases (h.diagnosis?_eq_some_iff r _).1 hdiagnosis with hsome | ⟨hnone, hempty, hnoTarget⟩
    · have hmem := hproblem d.site r d.problem hr hsome
      rw [← hdeclared] at hmem
      exact Or.inl hmem
    · refine Or.inr ⟨r, (s.mem_silentSites_iff _ _).2 ⟨hr, hempty, ?_⟩, hnoTarget, hdeclared⟩
      intro d' hd' hsite
      obtain ⟨r', hr', -, hsome⟩ := hexplain d' hd'
      rw [hsite, hr] at hr'
      cases hr'
      rw [hnone] at hsome
      cases hsome

/-- A construction that is not interrupted leaves exactly the diagnostics that its call
sites call for. -/
theorem diagnosed_build (h : Hierarchy) (hoffsets : h.program.DistinctOffsets) (o : Options)
    (clock : Nat → Nat) (strategy : Strategy) (entries : List MethodRef)
    (hbuild : (build h o clock strategy entries).interrupt? = none) :
    (build h o clock strategy entries).graph.Diagnosed h := by
  obtain ⟨s, hrun⟩ := exists_run_of_build hbuild
  have hinitial := wellFormed_initial h strategy entries
  have hreported := (lasting_reported h o entries).run hrun hinitial (by simp)
  rw [build_of_run hrun]
  exact CallGraph.diagnosed_of_mem_iff (mem_diagnostics_graph_iff_diagnosis hoffsets
    (wellFormed_run hinitial hrun).recorded
    (settled_run hoffsets hrun hinitial (settled_initial h strategy entries))
    (explained_of_run hoffsets hrun) hreported)

def orphanMain : MethodRef := ⟨"App", "main", "()V"⟩

/-- A program that lacks the superclass of `Shape`. Two of its calls run into that: one
that is dispatched all the same, and is looked at again once circles are admitted, and one
that names the missing type itself. -/
def orphan : Hierarchy where
  program :=
    { index := Program.indexOf [
        { name := "Shape", superclass? := some "Gone", access := { isAbstract := true } },
        { name := "Circle"
          superclass? := some "Shape"
          methods := [{ name := "draw", descriptor := "()V", body? := some {} }] },
        { name := "App"
          methods := [
            { name := "main"
              descriptor := "()V"
              access := { isStatic := true }
              body? := some { instructions := [
                ⟨0, .invoke { declared := ⟨"App", "setup", "()V"⟩, kind := .static }⟩,
                ⟨3, .invoke { declared := ⟨"Shape", "draw", "()V"⟩, kind := .virtual }⟩,
                ⟨6, .new "Circle"⟩,
                ⟨9, .invoke { declared := ⟨"Gone", "run", "()V"⟩, kind := .static }⟩] } },
            { name := "setup"
              descriptor := "()V"
              access := { isStatic := true }
              body? := some {} }] }]
      name_eq_of_getElem? := Program.name_eq_of_getElem?_indexOf _ }
  acyclic := by decide +kernel

theorem diagnosed_build_orphan :
    orphan.program.DistinctOffsets ∧
      (build orphan {} (fun _ => 0) (.ofAlgorithm .rta) [orphanMain]).interrupt? = none ∧
      (build orphan {} (fun _ => 0) (.ofAlgorithm .rta) [orphanMain]).graph.Diagnosed orphan ∧
      ("Gone", 2) ∈ Diagnostics.phantomTypes
        (build orphan {} (fun _ => 0) (.ofAlgorithm .rta) [orphanMain]).graph.diagnostics :=
  ⟨by decide +kernel, by decide +kernel,
    diagnosed_build orphan (by decide +kernel) {} (fun _ => 0) (.ofAlgorithm .rta) [orphanMain]
      (by decide +kernel), by decide +kernel⟩

end Construction

end JvmReach
