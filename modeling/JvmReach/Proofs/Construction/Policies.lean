import JvmReach.Proofs.Construction.Containment
import JvmReach.Proofs.Construction.Diagnosis

/-!
# Failing on phantom types

A construction that fails on phantom types goes in lock step with one that allows them, up
to the first call whose resolution runs into a missing type (`Lockstep`). There it stops
with the diagnostic just made, and the other goes on. From then on nothing is lost
(`Contained`), so what the first leaves behind is part of what the second ends with.
-/

namespace JvmReach.Construction

/-- What failing on phantom types makes of a construction, compared with allowing them:
the same, or less. -/
inductive Lockstep : Progress → Progress → Prop
  | same (s : State) : Lockstep (.ok s) (.ok s)
  | parted {halt : Halt} {s : State} (hcontained : Contained halt.state s) :
      Lockstep (.error halt) (.ok s)

namespace Lockstep

variable {p p' : Progress}

theorem map (hlockstep : Lockstep p p') {f : State → State}
    (hf : ∀ s, p' = .ok s → Contained s (f s)) : Lockstep (p.map f) (p'.map f) := by
  cases hlockstep with
  | same s => exact .same (f s)
  | @parted halt s hcontained => exact .parted (hcontained.trans (hf s rfl))

/-- What goes on from a parting keeps the two apart. -/
theorem bind (hlockstep : Lockstep p p') {f f' : State → Progress}
    (hsame : ∀ s, p' = .ok s → Lockstep (f s) (f' s))
    (hparted : ∀ s, p' = .ok s → ∃ s', f' s = .ok s' ∧ Contained s s') :
    Lockstep (p >>= f) (p' >>= f') := by
  cases hlockstep with
  | same s => exact hsame s rfl
  | @parted halt s hcontained =>
      obtain ⟨s', hs', hcontained'⟩ := hparted s rfl
      show Lockstep (.error halt) (f' s)
      rw [hs']
      exact .parted (hcontained.trans hcontained')

end Lockstep

namespace State

variable {h : Hierarchy} {fail allow : Options} {s : State} {site : CallSite}
  {call : Invocation} {obs : Observation}

theorem lockstep_resolveDirect (hfail : fail.phantoms = .fail)
    (hallow : allow.phantoms = .allow) :
    Lockstep (s.resolveDirect h fail site call) (s.resolveDirect h allow site call) := by
  cases hresolve : h.resolve call.declared with
  | resolved target =>
      simp only [resolveDirect, hresolve]
      exact .same _
  | phantom missing =>
      simp only [resolveDirect, hresolve, missingType, hfail, hallow]
      exact .parted (Contained.refl _)
  | notFound =>
      simp only [resolveDirect, hresolve]
      exact .same _

theorem lockstep_resolveVirtual (hfail : fail.phantoms = .fail)
    (hallow : allow.phantoms = .allow) (hsite : Dispatching s site call) :
    Lockstep (s.resolveVirtual h fail site call) (s.resolveVirtual h allow site call) := by
  cases hresolve : h.resolve call.declared with
  | resolved target =>
      simp only [resolveVirtual, hresolve]
      split
      · exact .same _
      · exact .same _
  | phantom missing =>
      rw [resolveVirtual_of_phantom h fail s site call hresolve,
        resolveVirtual_of_phantom h allow s site call hresolve, hfail, hallow]
      have hsite' := hsite.of_grows (s.grows_diagnose (.phantom missing) site call)
      exact .parted
        (updates_dispatch hsite' (h.dispatchedTargets_of_phantom _ hresolve)).contained
  | notFound =>
      rw [resolveVirtual_of_notFound h fail s site call hresolve,
        resolveVirtual_of_notFound h allow s site call hresolve]
      exact .same _

theorem lockstep_operate (hfail : fail.phantoms = .fail) (hallow : allow.phantoms = .allow)
    (operation : Operation) (line? : Option Nat) :
    Lockstep (s.operate h fail site operation line?) (s.operate h allow site operation line?) := by
  cases operation with
  | invoke call =>
      rw [operate, operate, scanCall_eq, scanCall_eq]
      split
      · exact .same _
      · split
        · next hdispatches =>
            exact lockstep_resolveVirtual hfail hallow (s.dispatching_opened site line? hdispatches)
        · exact lockstep_resolveDirect hfail hallow
  | _ => exact .same _

/-- A scan that was stopped would have gone on with the reflective effect. -/
theorem lockstep_scan (hfail : fail.phantoms = .fail) (hallow : allow.phantoms = .allow)
    {m : MethodRef} (method : Method) (hm : m ∈ s.processed)
    (hobs : obs ∈ h.program.observed m) :
    Lockstep (scan h fail m method s obs) (scan h allow m method s obs) := by
  rw [scan_eq, scan_eq]
  refine (lockstep_operate hfail hallow _ _).map ?_
  intro s₁ hoperate
  exact (updates_reflect? (at_operate ⟨hm, hobs, rfl⟩ hoperate)).contained

theorem lockstep_foldlM (hfail : fail.phantoms = .fail) (hallow : allow.phantoms = .allow)
    {m : MethodRef} {method : Method} {observed : List Observation} (hm : m ∈ s.processed)
    (hobserved : ∀ obs ∈ observed, obs ∈ h.program.observed m)
    (hoffsets : (observed.map fun obs => obs.1.offset).Nodup) (hnew : Unopened s m observed) :
    Lockstep (observed.foldlM (scan h fail m method) s)
      (observed.foldlM (scan h allow m method) s) := by
  induction observed generalizing s with
  | nil => exact .same s
  | cons obs rest ih =>
      have hobs := hobserved obs (by simp)
      have hobserved' : ∀ obs ∈ rest, obs ∈ h.program.observed m :=
        fun obs hobs => hobserved obs (by simp [hobs])
      have hoffsets' := (List.nodup_cons.1 hoffsets).2
      rw [List.foldlM_cons, List.foldlM_cons]
      refine (lockstep_scan hfail hallow method hm hobs).bind ?_ ?_
      · intro s₁ hscan
        exact ih (processed_scan hm hobs hscan ▸ hm) hobserved' hoffsets'
          (unopened_scan hm hobs hoffsets hnew hscan)
      · intro s₁ hscan
        obtain ⟨s', hrest⟩ := (s₁.permitted_foldlM_scan h allow m method rest).exists_eq_ok hallow
        have hcontained : Contained s₁ (Progress.state (rest.foldlM (scan h allow m method) s₁)) :=
          contained_foldlM (processed_scan hm hobs hscan ▸ hm) hobserved' hoffsets'
            (unopened_scan hm hobs hoffsets hnew hscan)
        exact ⟨s', hrest, hcontained.of_eq_ok hrest⟩

theorem lockstep_process (hfail : fail.phantoms = .fail) (hallow : allow.phantoms = .allow)
    (hoffsets : h.program.DistinctOffsets) {m : MethodRef} (hm : m ∈ s.processed)
    (hnew : Unopened s m (h.program.observed m)) :
    Lockstep (s.process h fail m) (s.process h allow m) := by
  rw [process_eq, process_eq]
  cases hmethod : h.program.method? m with
  | none => exact .same s
  | some method =>
      exact lockstep_foldlM hfail hallow hm (fun _ hobs => hobs) (hoffsets.nodup_observed m) hnew

theorem lockstep_revisit (hfail : fail.phantoms = .fail) (hallow : allow.phantoms = .allow)
    (hsite : site ∈ s.virtualSites) :
    Lockstep (s.revisit h fail site) (s.revisit h allow site) := by
  rw [revisit, revisit]
  cases hr : s.sites[site]? with
  | none => exact .same s
  | some r => exact lockstep_resolveVirtual hfail hallow ⟨hsite, r, hr, rfl⟩

/-- Without a time budget both take the same turn, unless one halts in it. -/
theorem lockstep_advance {entries : List MethodRef} (hfail : fail.phantoms = .fail)
    (hallow : allow.phantoms = .allow) (hbudget : fail.budget? = none)
    (hbudget' : allow.budget? = none) (hoffsets : h.program.DistinctOffsets)
    (hwf : WellFormed h entries s) (elapsed elapsed' : Nat) :
    (∃ s', s.advance h fail elapsed = .finished s' ∧ s.advance h allow elapsed' = .finished s') ∨
      ∃ p p', s.advance h fail elapsed = .ofProgress p ∧
        s.advance h allow elapsed' = .ofProgress p' ∧ Lockstep p p' := by
  have htime : isOutOfTime fail elapsed = false := by simp [isOutOfTime, hbudget]
  have htime' : isOutOfTime allow elapsed' = false := by simp [isOutOfTime, hbudget']
  rw [advance, advance]
  split
  · next site rest hsweep =>
      simp only [htime, htime', Bool.false_eq_true, if_false]
      have hsite : site ∈ s.virtualSites := hwf.swept site (by simp [hsweep])
      exact Or.inr ⟨_, _, rfl, rfl, lockstep_revisit hfail hallow hsite⟩
  · next m rest hsweep hpending =>
      simp only [htime, htime', Bool.false_eq_true, if_false]
      exact Or.inr ⟨_, _, rfl, rfl, lockstep_process hfail hallow hoffsets (by simp)
        (unopened_take hwf hpending _)⟩
  · split
    · exact Or.inl ⟨s, rfl, rfl⟩
    · exact Or.inr ⟨_, _, rfl, rfl, .same _⟩

end State

theorem lockstep_run {h : Hierarchy} {fail allow : Options} {entries : List MethodRef}
    (hfail : fail.phantoms = .fail) (hallow : allow.phantoms = .allow)
    (hbudget : fail.budget? = none) (hbudget' : allow.budget? = none)
    (hoffsets : h.program.DistinctOffsets) (clock clock' : Nat → Nat) (turns k : Nat) {s : State}
    (hwf : WellFormed h entries s) :
    Lockstep (run h fail clock turns k s) (run h allow clock' turns k s) := by
  induction turns generalizing k s with
  | zero => exact .same s
  | succ turns ih =>
      rw [run, run]
      rcases State.lockstep_advance hfail hallow hbudget hbudget' hoffsets hwf (clock k)
        (clock' k) with ⟨s', hadvance, hadvance'⟩ | ⟨p, p', hadvance, hadvance', hlockstep⟩
      · rw [hadvance, hadvance']
        exact .same s'
      · rw [hadvance, hadvance']
        cases hlockstep with
        | same s' =>
            have hcontinued : s.advance h allow (clock' k) = .continued s' := hadvance'
            exact ih (k + 1) ((State.steps_of_continued hwf.swept hcontinued).wellFormed hwf)
        | @parted halt s' hcontained =>
            have hcontinued : s.advance h allow (clock' k) = .continued s' := hadvance'
            have hwf' := (State.steps_of_continued hwf.swept hcontinued).wellFormed hwf
            obtain ⟨s'', hrun⟩ := exists_run_eq_ok h hallow hbudget' clock' turns (k + 1) s'
            have hrest := (contained_run hoffsets clock' turns (k + 1) hwf').of_eq_ok hrun
            simp only [Turn.ofProgress, hrun]
            exact .parted (hcontained.trans hrest)

namespace State

variable {h : Hierarchy} {o : Options} {s s' : State} {site : CallSite} {call : Invocation}

theorem resolve_ne_phantom_of_resolveVirtual (ho : o.phantoms = .fail)
    (hok : s.resolveVirtual h o site call = .ok s') (missing : TypeName) :
    h.resolve call.declared ≠ .phantom missing := by
  intro hresolve
  rw [resolveVirtual_of_phantom h o s site call hresolve, ho] at hok
  cases hok

theorem resolve_ne_phantom_of_resolveDirect (ho : o.phantoms = .fail)
    (hok : s.resolveDirect h o site call = .ok s') (missing : TypeName) :
    h.resolve call.declared ≠ .phantom missing := by
  intro hresolve
  simp only [resolveDirect, hresolve, missingType, ho] at hok
  cases hok

/-- No scan gets past a call that runs into a missing type. -/
theorem problem?_ne_phantom_of_scanCall {line? : Option Nat} (ho : o.phantoms = .fail)
    (hok : s.scanCall h o site call line? = .ok s') (missing : TypeName) :
    h.problem? call ≠ some (.phantom missing) := by
  rw [scanCall_eq] at hok
  intro hproblem
  obtain ⟨hkind, hresolve⟩ := (h.problem?_eq_some_phantom_iff call missing).1 hproblem
  rw [if_neg hkind] at hok
  split at hok
  · exact resolve_ne_phantom_of_resolveVirtual ho hok missing hresolve
  · exact resolve_ne_phantom_of_resolveDirect ho hok missing hresolve

end State

/-- The observation is no call whose resolution runs into a missing type. -/
def Provided (h : Hierarchy) (obs : Observation) : Prop :=
  ∀ call missing, obs.1.operation = .invoke call → h.problem? call ≠ some (.phantom missing)

theorem lasting_provided {h : Hierarchy} {o : Options} (ho : o.phantoms = .fail)
    (entries : List MethodRef) : Lasting h o entries fun _ _ obs => Provided h obs where
  established := by
    intro s s' m method obs _ _ hok call missing hcall
    obtain ⟨s₁, hoperate, -⟩ := State.exists_of_scan_eq_ok hok
    rw [hcall] at hoperate
    exact State.problem?_ne_phantom_of_scanCall ho hoperate missing
  kept _ hs := hs

/-- A construction that fails on phantom types and comes to its end reports none. -/
theorem phantom_notMem_diagnostics_of_run {h : Hierarchy} {o : Options} {clock : Nat → Nat}
    {turns : Nat} {strategy : Strategy} {entries : List MethodRef} {s : State}
    (ho : o.phantoms = .fail) (hoffsets : h.program.DistinctOffsets)
    (hrun : run h o clock turns 0 (initial h strategy entries) = .ok s) :
    ∀ d ∈ s.diagnostics, ∀ missing, d.problem ≠ .phantom missing := by
  have hprovided := (lasting_provided ho entries).run hrun (wellFormed_initial h strategy entries)
    (by simp)
  intro d hd missing hphantom
  obtain ⟨obs, call, hat, hcall, -, hproblem⟩ := explained_of_run hoffsets hrun d hd
  rw [hphantom] at hproblem
  exact hprovided d.site.caller hat.processed obs hat.observed call missing hcall hproblem

/-- The missing targets, which are reported at the end, are not about missing types. -/
theorem State.mem_diagnostics_graph_iff_of_phantom (s : State) {d : Diagnostic}
    {missing : TypeName} (hphantom : d.problem = .phantom missing) :
    d ∈ s.graph.diagnostics ↔ d ∈ s.diagnostics := by
  rw [s.mem_diagnostics_graph_iff, or_iff_left]
  rintro ⟨r, -, hnoTarget, -⟩
  rw [hphantom] at hnoTarget
  cases hnoTarget

/-- What a stopped construction has is part of what the full one has, and it was stopped
at a missing type that both report. -/
structure Outcome.StoppedWithin (stopped full : Outcome) : Prop where
  phantom : ∃ d missing, d.problem = .phantom missing ∧
    stopped.interrupt? = some (.phantom d.site missing) ∧
    d ∈ stopped.graph.diagnostics ∧ d ∈ full.graph.diagnostics
  discovered : stopped.graph.discovered <+: full.graph.discovered
  sites : ∀ (site : CallSite) (r : SiteRecord), stopped.graph.sites[site]? = some r →
    ∃ r', full.graph.sites[site]? = some r' ∧ r.Grows r'

theorem Halt.IsPhantom.stoppedWithin {halt : Halt} {s : State}
    (hphantom : halt.IsPhantom) (hcontained : Contained halt.state s) :
    (outcome (some halt.cause) halt.state).StoppedWithin (outcome none s) where
  phantom := by
    obtain ⟨d, hd, missing, hproblem, hcause⟩ := hphantom
    refine ⟨d, missing, hproblem, congrArg some hcause, ?_, ?_⟩
    · exact (halt.state.mem_diagnostics_graph_iff_of_phantom hproblem).2 hd
    · exact (s.mem_diagnostics_graph_iff_of_phantom hproblem).2 (hcontained.diagnostics d hd)
  discovered := hcontained.discovered
  sites := hcontained.sites

/-- Without a time budget, allowing phantom types brings a construction to its end. If it
reports none, failing on them gives the same outcome; otherwise the construction that fails
on them is stopped at one that the other reports, with a part of the other's graph. -/
theorem build_fail_eq_or_stoppedWithin (h : Hierarchy) (hoffsets : h.program.DistinctOffsets)
    (clock clock' : Nat → Nat) (strategy : Strategy) (entries : List MethodRef) :
    (build h {} clock' strategy entries).interrupt? = none ∧
      (((∀ d ∈ (build h {} clock' strategy entries).graph.diagnostics, ∀ missing,
            d.problem ≠ .phantom missing) ∧
          build h { phantoms := .fail } clock strategy entries =
            build h {} clock' strategy entries) ∨
        (build h { phantoms := .fail } clock strategy entries).StoppedWithin
          (build h {} clock' strategy entries)) := by
  have hinitial := wellFormed_initial h strategy entries
  have hlockstep : Lockstep
      (run h { phantoms := .fail } clock (turnBound h entries) 0 (initial h strategy entries))
      (run h {} clock' (turnBound h entries) 0 (initial h strategy entries)) :=
    lockstep_run rfl rfl rfl rfl hoffsets clock clock' _ 0 hinitial
  obtain ⟨s, hrun⟩ := exists_run_eq_ok h (o := {}) rfl rfl clock' (turnBound h entries) 0
    (initial h strategy entries)
  rw [build_of_run hrun]
  refine ⟨rfl, ?_⟩
  rw [hrun] at hlockstep
  cases hfail : run h { phantoms := .fail } clock (turnBound h entries) 0
      (initial h strategy entries) with
  | ok s' =>
      rw [hfail] at hlockstep
      cases hlockstep
      have hnone := phantom_notMem_diagnostics_of_run rfl hoffsets hfail
      refine Or.inl ⟨?_, build_of_run hfail⟩
      intro d hd missing hphantom
      exact hnone d ((s.mem_diagnostics_graph_iff_of_phantom hphantom).1 hd) missing hphantom
  | error halt =>
      rw [hfail] at hlockstep
      cases hlockstep with
      | parted hcontained =>
          obtain ⟨-, hphantom⟩ := permitted_run h rfl clock _ 0 _ halt hfail
          rw [build, hfail]
          exact Or.inr (hphantom.stoppedWithin hcontained)

theorem build_fail_stoppedWithin_orphan :
    orphan.program.DistinctOffsets ∧
      (build orphan { phantoms := .fail } (fun _ => 0) (.ofAlgorithm .rta)
        [orphanMain]).interrupt? = some (.phantom ⟨orphanMain, 3⟩ "Gone") ∧
      (build orphan { phantoms := .fail } (fun _ => 0) (.ofAlgorithm .rta)
        [orphanMain]).StoppedWithin
          (build orphan {} (fun _ => 0) (.ofAlgorithm .rta) [orphanMain]) := by
  have hstopped : (build orphan { phantoms := .fail } (fun _ => 0) (.ofAlgorithm .rta)
      [orphanMain]).interrupt? = some (.phantom ⟨orphanMain, 3⟩ "Gone") := by decide +kernel
  refine ⟨by decide +kernel, hstopped, ?_⟩
  obtain ⟨hallow, ⟨-, heq⟩ | hwithin⟩ := build_fail_eq_or_stoppedWithin orphan
    (by decide +kernel) (fun _ => 0) (fun _ => 0) (.ofAlgorithm .rta) [orphanMain]
  · rw [heq, hallow] at hstopped
    cases hstopped
  · exact hwithin

end JvmReach.Construction
