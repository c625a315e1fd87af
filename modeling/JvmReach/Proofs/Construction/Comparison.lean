import JvmReach.Proofs.Construction.Diagnosis
import JvmReach.Proofs.Construction.FixedPoint

/-!
# Comparing constructions

Two constructions by one algorithm need not have anything to do with each other step by
step: other roots, or other orders of roots and declarations, give another order of
discovery, other passes and other moments at which types are started. Their ends compare
all the same, as each is the least set of methods and types that is closed under its
rules. Where the rules are the same (`Hierarchy.SameRules`) and the roots of one are roots
of the other, its graph is within the graph of the other; where the roots are the same as
well, only the order of discovery can differ.
-/

namespace JvmReach

namespace Hierarchy

/-- Two hierarchies that differ in nothing the rules look at. The constructors that a
reflective construction may run can be listed in another order. -/
structure SameRules (h h' : Hierarchy) : Prop where
  method? : ∀ m, h.program.method? m = h'.program.method? m
  resolve : ∀ m, h.resolve m = h'.resolve m
  dispatchTargets : ∀ m admits, h.dispatchTargets m admits = h'.dispatchTargets m admits
  mem_constructorTargets : ∀ effect t,
    t ∈ h.constructorTargets effect ↔ t ∈ h'.constructorTargets effect
  constructedBy : ∀ effect, h.constructedBy effect = h'.constructedBy effect
  initializers : ∀ type, h.initializers type = h'.initializers type

namespace SameRules

variable {h h' : Hierarchy}

theorem refl (h : Hierarchy) : h.SameRules h where
  method? _ := rfl
  resolve _ := rfl
  dispatchTargets _ _ := rfl
  mem_constructorTargets _ _ := Iff.rfl
  constructedBy _ := rfl
  initializers _ := rfl

theorem symm (hsame : h.SameRules h') : h'.SameRules h where
  method? m := (hsame.method? m).symm
  resolve m := (hsame.resolve m).symm
  dispatchTargets m admits := (hsame.dispatchTargets m admits).symm
  mem_constructorTargets effect t := (hsame.mem_constructorTargets effect t).symm
  constructedBy effect := (hsame.constructedBy effect).symm
  initializers type := (hsame.initializers type).symm

theorem observed (hsame : h.SameRules h') (m : MethodRef) :
    h.program.observed m = h'.program.observed m := by
  rw [Program.observed, Program.observed, Program.body?, Program.body?, hsame.method? m]

theorem isConstructorRoot (hsame : h.SameRules h') (entry : MethodRef) :
    Strategy.isConstructorRoot h.program entry = Strategy.isConstructorRoot h'.program entry := by
  rw [Strategy.isConstructorRoot, Strategy.isConstructorRoot, hsame.method? entry]

theorem callTargets (hsame : h.SameRules h') (admits : TypeName → Bool) (call : Invocation) :
    h.callTargets admits call = h'.callTargets admits call := by
  have hbound : h.boundTargets call.declared = h'.boundTargets call.declared := by
    simp only [boundTargets, hsame.resolve]
  have hdispatched : h.dispatchedTargets admits call.declared =
      h'.dispatchedTargets admits call.declared := by
    simp only [dispatchedTargets, hsame.resolve, hsame.method?, hsame.dispatchTargets]
  simp only [Hierarchy.callTargets, hbound, hdispatched]

theorem targets (hsame : h.SameRules h') (admits : TypeName → Bool) (obs : Observation) :
    h.targets admits obs = h'.targets admits obs := by
  simp only [Hierarchy.targets, hsame.callTargets, hsame.mem_constructorTargets]

theorem constructed (hsame : h.SameRules h') (obs : Observation) :
    h.constructed obs = h'.constructed obs := by
  have hby : h.constructedBy = h'.constructedBy := funext hsame.constructedBy
  rw [Hierarchy.constructed, Hierarchy.constructed, hby]

theorem started (hsame : h.SameRules h') (obs : Observation) :
    h.started obs = h'.started obs := by
  have hcall : ∀ call, h.startedByCall call = h'.startedByCall call := by
    intro call
    rw [startedByCall, startedByCall, hsame.resolve]
  have hby : h.startedBy = h'.startedBy := by
    funext effect
    cases effect with
    | start type => rfl
    | construct type choice => exact hsame.constructedBy (.construct type choice)
  simp only [Hierarchy.started, hcall, hby]

theorem diagnosis? (hsame : h.SameRules h') (r : SiteRecord) :
    h.diagnosis? r = h'.diagnosis? r := by
  rw [Hierarchy.diagnosis?, Hierarchy.diagnosis?, hsame.resolve]

/-- What is closed for the roots is closed for fewer roots, under the same rules. -/
theorem closed (hsame : h.SameRules h') {a : Algorithm} {entries entries' : List MethodRef}
    {methods : Set MethodRef} {types : Set TypeName} (hentries : ∀ e ∈ entries, e ∈ entries')
    (hclosed : h'.Closed a entries' methods types) : h.Closed a entries methods types where
  roots e he := hclosed.roots e (hentries e he)
  constructorRoots e he hroot := by
    rw [hsame.isConstructorRoot] at hroot
    exact hclosed.constructorRoots e (hentries e he) hroot
  constructed m hm obs hobs type htype := by
    rw [hsame.observed] at hobs
    rw [hsame.constructed] at htype
    exact hclosed.constructed m hm obs hobs type htype
  targets m hm obs hobs t ht := by
    rw [hsame.observed] at hobs
    rw [hsame.targets] at ht
    exact hclosed.targets m hm obs hobs t ht
  initializers m hm obs hobs type htype t ht := by
    rw [hsame.observed] at hobs
    rw [hsame.started] at htype
    rw [hsame.initializers] at ht
    exact hclosed.initializers m hm obs hobs type htype t ht

end SameRules

end Hierarchy

theorem SiteRecord.Grows.antisymm {r r' : SiteRecord} (hr : r.Grows r') (hr' : r'.Grows r) :
    r = r' := by
  have htargets : r.targets = r'.targets :=
    Std.ExtTreeSet.ext_mem fun t => ⟨hr.targets t, hr'.targets t⟩
  have hcall := hr'.call
  have hline := hr'.line?
  cases r
  cases r'
  simp_all

namespace CallGraph

/-- What is reachable in the first graph is so in the second, where its call sites have
at least the same targets. -/
structure Within (g g' : CallGraph) : Prop where
  reachable : ∀ m ∈ g.reachable, m ∈ g'.reachable
  sites : ∀ (site : CallSite) (r : SiteRecord), g.sites[site]? = some r →
    ∃ r', g'.sites[site]? = some r' ∧ r.Grows r'

theorem Within.reachable_eq {g g' : CallGraph} (hg : g.Within g') (hg' : g'.Within g) :
    g.reachable = g'.reachable :=
  Std.ExtTreeSet.ext_mem fun m => ⟨hg.reachable m, hg'.reachable m⟩

theorem Within.sites_eq {g g' : CallGraph} (hg : g.Within g') (hg' : g'.Within g) :
    g.sites = g'.sites := by
  apply Std.ExtTreeMap.ext_getElem?
  intro site
  cases hr : g.sites[site]? with
  | none =>
      cases hr' : g'.sites[site]? with
      | none => rfl
      | some r' =>
          obtain ⟨r, hsome, -⟩ := hg'.sites site r' hr'
          rw [hr] at hsome
          cases hsome
  | some r =>
      obtain ⟨r', hr', hgrows⟩ := hg.sites site r hr
      obtain ⟨r'', hr'', hgrows'⟩ := hg'.sites site r' hr'
      rw [hr] at hr''
      cases hr''
      rw [hr', hgrows.antisymm hgrows']

/-- The graphs differ at most in the order of discovery. -/
structure SameUpToOrder (g g' : CallGraph) : Prop where
  algorithm : g.algorithm = g'.algorithm
  reachable : g.reachable = g'.reachable
  sites : g.sites = g'.sites
  diagnostics : g.diagnostics = g'.diagnostics
  discovered : g.discovered.Perm g'.discovered

/-- Diagnostics are determined by the sites. -/
theorem Diagnosed.diagnostics_eq {h h' : Hierarchy} {g g' : CallGraph} (hg : g.Diagnosed h)
    (hg' : g'.Diagnosed h') (hsame : h.SameRules h') (hsites : g.sites = g'.sites) :
    g.diagnostics = g'.diagnostics := by
  apply Std.ExtTreeSet.ext_mem
  intro d
  rw [hg.mem_iff, hg'.mem_iff, hsites]
  simp only [hsame.diagnosis?]

theorem WellFormed.perm_discovered {h h' : Hierarchy} {entries entries' : List MethodRef}
    {g g' : CallGraph} (hg : g.WellFormed h entries) (hg' : g'.WellFormed h' entries')
    (hreachable : g.reachable = g'.reachable) : g.discovered.Perm g'.discovered := by
  refine (List.perm_ext_iff_of_nodup hg.nodup hg'.nodup).2 ?_
  intro m
  rw [hg.mem_discovered, hg'.mem_discovered, hreachable]

end CallGraph

namespace Construction

theorem build_eq_outcome (h : Hierarchy) (a : Algorithm) (clock : Nat → Nat)
    (entries : List MethodRef) :
    ∃ s, run h {} clock (turnBound h entries) 0 (initial h (.ofAlgorithm a) entries) = .ok s ∧
      build h {} clock (.ofAlgorithm a) entries = outcome none s := by
  obtain ⟨s, hrun⟩ := exists_run_eq_ok h (o := {}) rfl rfl clock (turnBound h entries) 0
    (initial h (.ofAlgorithm a) entries)
  exact ⟨s, hrun, build_of_run hrun⟩

theorem interrupt?_build (h : Hierarchy) (a : Algorithm) (clock : Nat → Nat)
    (entries : List MethodRef) :
    (build h {} clock (.ofAlgorithm a) entries).interrupt? = none := by
  obtain ⟨s, -, hbuild⟩ := build_eq_outcome h a clock entries
  rw [hbuild]
  rfl

variable {h h' : Hierarchy} {entries entries' : List MethodRef}

/-- A construction stays within another one that follows the same rules from the same
roots and perhaps more. -/
theorem within_build (hsame : h.SameRules h') (hoffsets : h.program.DistinctOffsets)
    (hoffsets' : h'.program.DistinctOffsets) (a : Algorithm) (clock clock' : Nat → Nat)
    (hentries : ∀ e ∈ entries, e ∈ entries') :
    (build h {} clock (.ofAlgorithm a) entries).graph.Within
      (build h' {} clock' (.ofAlgorithm a) entries').graph := by
  obtain ⟨s, hrun, hbuild⟩ := build_eq_outcome h a clock entries
  obtain ⟨s', hrun', hbuild'⟩ := build_eq_outcome h' a clock' entries'
  have hfinal := final_of_run hoffsets hrun
  have hfinal' := final_of_run hoffsets' hrun'
  have halgorithm : s'.strategy.algorithm = a :=
    (algorithm_of_run hrun').trans (Strategy.algorithm_ofAlgorithm a)
  -- the second construction ends with a set that is closed for the first one, too
  have hclosed : h.Closed a entries {m | m ∈ s'.reachable}
      {type | s'.strategy.admits type = true} :=
    hsame.closed hentries
      (closed_of_fixedPoint (hfinal'.fixedPoint hoffsets') (fun ha => halgorithm.trans ha))
  have hwithin := within_of_run hoffsets hclosed hrun
  rw [hbuild, hbuild']
  constructor
  · exact hwithin.reachable
  · intro site r hr
    obtain ⟨hline, obs, hat, hcall⟩ := hfinal.wellFormed.recorded.call site r hr
    have hcaller := hwithin.reachable site.caller (hfinal.mem_reachable hat.processed)
    have hobs' : obs ∈ h'.program.observed site.caller := hsame.observed _ ▸ hat.observed
    obtain ⟨r', hr', hcall', hline', htargets'⟩ :=
      hfinal'.exists_record hoffsets' hcaller hobs' hcall
    rw [hat.offset] at hr' hline'
    rw [← hsame.method?] at hline'
    refine ⟨r', hr', hcall', hline'.trans hline.symm, ?_⟩
    intro t ht
    obtain ⟨-, obs', hat', ht⟩ := hfinal.grounded.targets site r hr t ht
    rw [← hat.unique hoffsets hat', hsame.targets] at ht
    have hadmits : ∀ type, s.strategy.admits type = true → s'.strategy.admits type = true := by
      intro type htype
      rcases (a.admitting_eq_true_iff _ type).1 (hwithin.admits type htype) with hcha | htype
      · exact Strategy.admits_cha (halgorithm.trans hcha) type
      · exact htype
    exact (htargets' t).2 (h'.targets_mono hadmits obs ht)

/-- The same rules and the same roots, in whatever order and however often each is
given, lead to the same graph up to the order of discovery. -/
theorem sameUpToOrder_build (hsame : h.SameRules h') (hoffsets : h.program.DistinctOffsets)
    (hoffsets' : h'.program.DistinctOffsets) (a : Algorithm) (clock clock' : Nat → Nat)
    (hentries : ∀ e, e ∈ entries ↔ e ∈ entries') :
    (build h {} clock (.ofAlgorithm a) entries).graph.SameUpToOrder
      (build h' {} clock' (.ofAlgorithm a) entries').graph := by
  have hwithin := within_build hsame hoffsets hoffsets' a clock clock' fun e => (hentries e).1
  have hwithin' := within_build hsame.symm hoffsets' hoffsets a clock' clock fun e =>
    (hentries e).2
  constructor
  · obtain ⟨s, hrun, hbuild⟩ := build_eq_outcome h a clock entries
    obtain ⟨s', hrun', hbuild'⟩ := build_eq_outcome h' a clock' entries'
    rw [hbuild, hbuild']
    exact (algorithm_of_run hrun).trans (algorithm_of_run hrun').symm
  · exact hwithin.reachable_eq hwithin'
  · exact hwithin.sites_eq hwithin'
  · exact (diagnosed_build h hoffsets {} clock _ _ (interrupt?_build h a clock _)).diagnostics_eq
      (diagnosed_build h' hoffsets' {} clock' _ _ (interrupt?_build h' a clock' _)) hsame
      (hwithin.sites_eq hwithin')
  · exact (wellFormed_graph_build h {} clock _ _).perm_discovered
      (wellFormed_graph_build h' {} clock' _ _) (hwithin.reachable_eq hwithin')

/-- More roots, more of a graph: reachable methods and targets are only added, whatever
the order of the roots. The same roots in another order, or given repeatedly, change
nothing but the order of discovery. -/
theorem build_mono_entries (h : Hierarchy) (hoffsets : h.program.DistinctOffsets)
    (a : Algorithm) (clock clock' : Nat → Nat) (entries entries' : List MethodRef)
    (hentries : ∀ e ∈ entries, e ∈ entries') :
    (build h {} clock (.ofAlgorithm a) entries).interrupt? = none ∧
    (build h {} clock' (.ofAlgorithm a) entries').interrupt? = none ∧
    (build h {} clock (.ofAlgorithm a) entries).graph.Within
      (build h {} clock' (.ofAlgorithm a) entries').graph ∧
    ((∀ e ∈ entries', e ∈ entries) →
      (build h {} clock (.ofAlgorithm a) entries).graph.SameUpToOrder
        (build h {} clock' (.ofAlgorithm a) entries').graph) := by
  refine ⟨interrupt?_build h a clock entries, interrupt?_build h a clock' entries',
    within_build (.refl h) hoffsets hoffsets a clock clock' hentries, ?_⟩
  intro hentries'
  exact sameUpToOrder_build (.refl h) hoffsets hoffsets a clock clock' fun e =>
    ⟨hentries e, hentries' e⟩

theorem build_mono_entries_lateReceiver :
    lateReceiver.program.DistinctOffsets ∧
      (build lateReceiver {} (fun _ => 0) (.ofAlgorithm .rta) [lateMain]).graph.Within
        (build lateReceiver {} (fun _ => 1) (.ofAlgorithm .rta)
          [lateDraw, lateMain, lateMain]).graph ∧
      (build lateReceiver {} (fun _ => 0) (.ofAlgorithm .rta)
        [lateMain, lateDraw]).graph.SameUpToOrder
          (build lateReceiver {} (fun _ => 1) (.ofAlgorithm .rta)
            [lateDraw, lateMain, lateMain]).graph ∧
      (build lateReceiver {} (fun _ => 0) (.ofAlgorithm .rta)
        [lateMain, lateDraw]).graph.discovered ≠
          (build lateReceiver {} (fun _ => 1) (.ofAlgorithm .rta)
            [lateDraw, lateMain, lateMain]).graph.discovered := by
  have hoffsets : lateReceiver.program.DistinctOffsets := by decide +kernel
  refine ⟨hoffsets, ?_, ?_, by decide +kernel⟩
  · exact (build_mono_entries lateReceiver hoffsets .rta (fun _ => 0) (fun _ => 1)
      [lateMain] [lateDraw, lateMain, lateMain] (by simp)).2.2.1
  · exact (build_mono_entries lateReceiver hoffsets .rta (fun _ => 0) (fun _ => 1)
      [lateMain, lateDraw] [lateDraw, lateMain, lateMain] (by simp)).2.2.2 (by simp)

end Construction

end JvmReach
