import JvmReach.Proofs.Construction.Growth
import Mathlib.Data.Set.Insert
import Mathlib.Logic.Relation

/-!
# What scanning does to a state

Everything that a construction does to its state on account of an instruction,
opening a call site apart, is an `Update`, with the rule that allows it: edges
lead to targets of the observation, constructed and started types are the
observation's, diagnostics tell what keeps the call from being followed. A site
that dispatches is resolved as the call that is recorded for it, at first and in
every later pass. Resolving a site and scanning an instruction are sequences of
updates, also when they are interrupted.
-/

namespace JvmReach

namespace Hierarchy

theorem dispatchedTargets_of_private (h : Hierarchy) (admits : TypeName → Bool)
    {m target : MethodRef} (hresolve : h.resolve m = .resolved target)
    (hprivate : (h.program.method? target).any (·.access.isPrivate) = true) :
    h.dispatchedTargets admits m = {target} := by
  simp only [dispatchedTargets, hresolve, hprivate, if_true]

theorem dispatchedTargets_of_resolved (h : Hierarchy) (admits : TypeName → Bool)
    {m target : MethodRef} (hresolve : h.resolve m = .resolved target)
    (hprivate : (h.program.method? target).any (·.access.isPrivate) = false) :
    h.dispatchedTargets admits m = {t | t ∈ h.dispatchTargets m admits} := by
  simp only [dispatchedTargets, hresolve, hprivate, Bool.false_eq_true, if_false]

theorem dispatchedTargets_of_phantom (h : Hierarchy) (admits : TypeName → Bool)
    {m : MethodRef} {missing : TypeName} (hresolve : h.resolve m = .phantom missing) :
    h.dispatchedTargets admits m = {t | t ∈ h.dispatchTargets m admits} := by
  simp only [dispatchedTargets, hresolve]

theorem callTargets_of_direct (h : Hierarchy) (admits : TypeName → Bool) {call : Invocation}
    (hcall : call.dispatches = false) (hkind : call.kind ≠ .dynamic) :
    h.callTargets admits call = h.boundTargets call.declared := by
  obtain ⟨declared, kind, onArray⟩ := call
  cases kind <;> cases onArray <;> simp_all [callTargets, Invocation.dispatches]

end Hierarchy

namespace Construction

/-- The state in which a construction stops, finished or not. -/
def Progress.state : Progress → State
  | .ok s => s
  | .error halt => halt.state

/-- The observation stands at the site, in a method that has been taken up. -/
structure At (h : Hierarchy) (s : State) (site : CallSite) (obs : Observation) : Prop where
  processed : site.caller ∈ s.processed
  observed : obs ∈ h.program.observed site.caller
  offset : obs.1.offset = site.offset

theorem At.of_grows {h : Hierarchy} {s s' : State} {site : CallSite} {obs : Observation}
    (hat : At h s site obs) (hgrows : Grows s s') : At h s' site obs :=
  { hat with processed := hgrows.processed ▸ hat.processed }

/-- The site dispatches, and `call` is what is recorded for it. -/
def Dispatching (s : State) (site : CallSite) (call : Invocation) : Prop :=
  site ∈ s.virtualSites ∧ ∃ r, s.sites[site]? = some r ∧ r.call = call

theorem Dispatching.of_grows {s s' : State} {site : CallSite} {call : Invocation}
    (hsite : Dispatching s site call) (hgrows : Grows s s') : Dispatching s' site call := by
  obtain ⟨hvirtual, r, hr, rfl⟩ := hsite
  obtain ⟨r', hr', hr⟩ := hgrows.sites site r hr
  exact ⟨hgrows.virtualSites ▸ hvirtual, r', hr', hr.call⟩

theorem Dispatching.mem_sites {s : State} {site : CallSite} {call : Invocation}
    (hsite : Dispatching s site call) : site ∈ s.sites := by
  obtain ⟨-, r, hr, -⟩ := hsite
  exact (s.mem_sites_iff site).2 ⟨r, hr⟩

inductive Update (h : Hierarchy) : State → State → Prop
  | record {s : State} (e : Event) : Update h s (s.record e)
  | construct {s : State} {site : CallSite} {obs : Observation} {type : TypeName}
      (hat : At h s site obs) (htype : type ∈ h.constructed obs) :
      Update h s (s.observeConstruction type)
  | start {s : State} {site : CallSite} {obs : Observation} {type : TypeName}
      (hat : At h s site obs) (htype : type ∈ h.started obs) : Update h s (s.start h type)
  | edge {s : State} {site : CallSite} {obs : Observation} {target : MethodRef}
      (hat : At h s site obs) (htarget : target ∈ h.targets s.strategy.admits obs) :
      Update h s (s.addEdge site target)
  | dispatch {s : State} {site : CallSite} {call : Invocation} {target : MethodRef}
      (hsite : Dispatching s site call)
      (htarget : target ∈ h.dispatchedTargets s.strategy.admits call.declared) :
      Update h s (s.addEdge site target)
  | diagnose {s : State} {site : CallSite} {obs : Observation} {call : Invocation}
      {problem : Problem} (hat : At h s site obs) (hcall : obs.1.operation = .invoke call)
      (hproblem : h.problem? call = some problem) : Update h s (s.diagnose problem site call)
  | diagnoseDispatch {s : State} {site : CallSite} {call : Invocation} {problem : Problem}
      (hsite : Dispatching s site call)
      (hproblem : h.resolutionProblem? call.declared = some problem) :
      Update h s (s.diagnose problem site call)

abbrev Updates (h : Hierarchy) : State → State → Prop := Relation.ReflTransGen (Update h)

theorem Update.grows {h : Hierarchy} {s s' : State} (hupdate : Update h s s') : Grows s s' := by
  cases hupdate with
  | record e => exact s.grows_record e
  | construct _ _ => exact s.grows_observeConstruction _
  | start _ _ => exact s.grows_start h _
  | edge _ _ => exact s.grows_addEdge _ _
  | dispatch _ _ => exact s.grows_addEdge _ _
  | diagnose _ _ _ => exact s.grows_diagnose _ _ _
  | diagnoseDispatch _ _ => exact s.grows_diagnose _ _ _

theorem Updates.grows {h : Hierarchy} {s s' : State} (hupdates : Updates h s s') :
    Grows s s' := by
  induction hupdates with
  | refl => exact Grows.refl s
  | tail _ hupdate ih => exact ih.trans hupdate.grows

theorem Updates.of_eq_ok {h : Hierarchy} {s s' : State} {p : Progress}
    (hupdates : Updates h s p.state) (hok : p = .ok s') : Updates h s s' := by
  rwa [hok] at hupdates

namespace State

variable {h : Hierarchy} {o : Options} {s : State} {site : CallSite} {obs : Observation}
  {call : Invocation}

theorem updates_foldl_addEdge (hat : At h s site obs) {targets : List MethodRef}
    (htargets : ∀ t ∈ targets, t ∈ h.targets s.strategy.admits obs) :
    Updates h s (targets.foldl (fun s target => s.addEdge site target) s) := by
  induction targets generalizing s with
  | nil => exact .refl
  | cons t rest ih =>
      refine .head (.edge hat (htargets t (by simp))) (ih (hat.of_grows (s.grows_addEdge _ _)) ?_)
      intro u hu
      rw [strategy_addEdge]
      exact htargets u (by simp [hu])

theorem updates_resolveDirect (hat : At h s site obs) (hcall : obs.1.operation = .invoke call)
    (hdirect : call.dispatches = false) (hkind : call.kind ≠ .dynamic) :
    Updates h s (s.resolveDirect h o site call).state := by
  rw [resolveDirect]
  cases hresolve : h.resolve call.declared with
  | resolved target =>
      have htarget : ∀ admits, target ∈ h.targets admits obs := by
        intro admits
        refine Or.inl ⟨call, hcall, ?_⟩
        rw [h.callTargets_of_direct admits hdirect hkind]
        exact hresolve
      by_cases hstatic : call.kind = .static
      · simp only [hstatic, if_true]
        have hstarted : target.owner ∈ h.started obs := by
          simp [Hierarchy.started, hcall, Hierarchy.startedByCall, hstatic, hresolve]
        exact .head (.start hat hstarted)
          (.single (.edge (hat.of_grows (s.grows_start h _)) (htarget _)))
      · simp only [hstatic, if_false]
        exact .single (.edge hat (htarget _))
  | phantom missing =>
      have hproblem : h.problem? call = some (.phantom missing) := by
        simp [Hierarchy.problem?, Hierarchy.resolutionProblem?, hkind, hresolve]
      simp only [missingType]
      cases o.phantoms with
      | allow => exact .single (.diagnose hat hcall hproblem)
      | fail => exact .single (.diagnose hat hcall hproblem)
  | notFound =>
      have hproblem : h.problem? call = some .unresolved := by
        simp [Hierarchy.problem?, Hierarchy.resolutionProblem?, hkind, hresolve]
      exact .single (.diagnose hat hcall hproblem)

theorem updates_dispatch (hsite : Dispatching s site call)
    (htargets : h.dispatchedTargets s.strategy.admits call.declared =
      {t | t ∈ h.dispatchTargets call.declared s.strategy.admits}) :
    Updates h s (s.dispatch h site call) := by
  have hall : ∀ t ∈ (h.dispatchTargets call.declared s.strategy.admits).toList,
      t ∈ h.dispatchedTargets s.strategy.admits call.declared := by
    intro t ht
    rw [htargets]
    exact Std.ExtTreeSet.mem_toList.1 ht
  rw [State.dispatch]
  generalize (h.dispatchTargets call.declared s.strategy.admits).toList = targets at hall ⊢
  clear htargets
  induction targets generalizing s with
  | nil => exact .refl
  | cons t rest ih =>
      refine .head (.dispatch hsite (hall t (by simp)))
        (ih (hsite.of_grows (s.grows_addEdge _ _)) ?_)
      intro u hu
      rw [strategy_addEdge]
      exact hall u (by simp [hu])

theorem resolveVirtual_of_private (h : Hierarchy) (o : Options) (s : State) (site : CallSite)
    (call : Invocation) {target : MethodRef} (hresolve : h.resolve call.declared = .resolved target)
    (hprivate : (h.program.method? target).any (·.access.isPrivate) = true) :
    s.resolveVirtual h o site call = .ok (s.addEdge site target) := by
  simp only [resolveVirtual, hresolve, hprivate, if_true]

theorem resolveVirtual_of_resolved (h : Hierarchy) (o : Options) (s : State) (site : CallSite)
    (call : Invocation) {target : MethodRef} (hresolve : h.resolve call.declared = .resolved target)
    (hprivate : (h.program.method? target).any (·.access.isPrivate) = false) :
    s.resolveVirtual h o site call = .ok (s.dispatch h site call) := by
  simp only [resolveVirtual, hresolve, hprivate, Bool.false_eq_true, if_false]

theorem resolveVirtual_of_phantom (h : Hierarchy) (o : Options) (s : State) (site : CallSite)
    (call : Invocation) {missing : TypeName}
    (hresolve : h.resolve call.declared = .phantom missing) :
    s.resolveVirtual h o site call =
      match o.phantoms with
      | .allow => .ok ((s.diagnose (.phantom missing) site call).dispatch h site call)
      | .fail => .error ⟨.phantom site missing, s.diagnose (.phantom missing) site call⟩ := by
  simp only [resolveVirtual, hresolve, missingType]
  cases o.phantoms <;> rfl

theorem resolveVirtual_of_notFound (h : Hierarchy) (o : Options) (s : State) (site : CallSite)
    (call : Invocation) (hresolve : h.resolve call.declared = .notFound) :
    s.resolveVirtual h o site call = .ok (s.diagnose .unresolved site call) := by
  simp only [resolveVirtual, hresolve]

/-- A dispatching site gets an edge to the one method that may run, is dispatched for the
receivers at hand, or keeps its targets where no method is found. -/
theorem resolveVirtual_cases {s' : State} (hok : s.resolveVirtual h o site call = .ok s') :
    (∃ target, h.dispatchedTargets s.strategy.admits call.declared = {target} ∧
      s' = s.addEdge site target) ∨
    (h.dispatchedTargets s.strategy.admits call.declared =
        {t | t ∈ h.dispatchTargets call.declared s.strategy.admits} ∧
      ∃ diagnostics, s' = { s with diagnostics := diagnostics }.dispatch h site call) ∨
    (h.dispatchedTargets s.strategy.admits call.declared = ∅ ∧
      s' = s.diagnose .unresolved site call) := by
  cases hresolve : h.resolve call.declared with
  | resolved target =>
      cases hprivate : (h.program.method? target).any (·.access.isPrivate) with
      | true =>
          rw [resolveVirtual_of_private h o s site call hresolve hprivate] at hok
          exact Or.inl ⟨target, h.dispatchedTargets_of_private _ hresolve hprivate,
            (Except.ok.inj hok).symm⟩
      | false =>
          rw [resolveVirtual_of_resolved h o s site call hresolve hprivate] at hok
          exact Or.inr (Or.inl ⟨h.dispatchedTargets_of_resolved _ hresolve hprivate,
            s.diagnostics, (Except.ok.inj hok).symm⟩)
  | phantom missing =>
      rw [resolveVirtual_of_phantom h o s site call hresolve] at hok
      cases hphantoms : o.phantoms with
      | fail => simp [hphantoms] at hok
      | allow =>
          simp only [hphantoms] at hok
          exact Or.inr (Or.inl ⟨h.dispatchedTargets_of_phantom _ hresolve,
            _, (Except.ok.inj hok).symm⟩)
  | notFound =>
      rw [resolveVirtual_of_notFound h o s site call hresolve] at hok
      have hempty : h.dispatchedTargets s.strategy.admits call.declared = ∅ := by
        simp only [Hierarchy.dispatchedTargets, hresolve]
      exact Or.inr (Or.inr ⟨hempty, (Except.ok.inj hok).symm⟩)

/-- A call that binds directly starts the class of a static target and gets its edge, or
is diagnosed. -/
theorem resolveDirect_cases {s' : State} (hok : s.resolveDirect h o site call = .ok s') :
    (∃ target s₁, h.resolve call.declared = .resolved target ∧
      (s₁ = s ∨ s₁ = s.start h target.owner) ∧ s' = s₁.addEdge site target) ∨
    (h.boundTargets call.declared = ∅ ∧ ∃ problem, s' = s.diagnose problem site call) := by
  cases hresolve : h.resolve call.declared with
  | resolved target =>
      simp only [resolveDirect, hresolve] at hok
      cases hok
      refine Or.inl ⟨target, _, rfl, ?_, rfl⟩
      split
      · exact Or.inr rfl
      · exact Or.inl rfl
  | phantom missing =>
      have hempty : h.boundTargets call.declared = ∅ := by
        simp [Hierarchy.boundTargets, hresolve]
      simp only [resolveDirect, hresolve, missingType] at hok
      cases hphantoms : o.phantoms with
      | fail => simp [hphantoms] at hok
      | allow =>
          simp only [hphantoms] at hok
          exact Or.inr ⟨hempty, _, (Except.ok.inj hok).symm⟩
  | notFound =>
      have hempty : h.boundTargets call.declared = ∅ := by
        simp [Hierarchy.boundTargets, hresolve]
      simp only [resolveDirect, hresolve] at hok
      exact Or.inr ⟨hempty, _, (Except.ok.inj hok).symm⟩

theorem updates_resolveVirtual (hsite : Dispatching s site call) :
    Updates h s (s.resolveVirtual h o site call).state := by
  cases hresolve : h.resolve call.declared with
  | resolved target =>
      cases hprivate : (h.program.method? target).any (·.access.isPrivate) with
      | true =>
          rw [resolveVirtual_of_private h o s site call hresolve hprivate]
          refine .single (.dispatch hsite ?_)
          rw [h.dispatchedTargets_of_private _ hresolve hprivate]
          exact Set.mem_singleton target
      | false =>
          rw [resolveVirtual_of_resolved h o s site call hresolve hprivate]
          simp only [Progress.state]
          exact updates_dispatch hsite (h.dispatchedTargets_of_resolved _ hresolve hprivate)
  | phantom missing =>
      have hdiagnose : Update h s (s.diagnose (.phantom missing) site call) :=
        .diagnoseDispatch hsite (by simp [Hierarchy.resolutionProblem?, hresolve])
      rw [resolveVirtual_of_phantom h o s site call hresolve]
      cases o.phantoms with
      | fail => exact .single hdiagnose
      | allow =>
          have hdispatching := hsite.of_grows hdiagnose.grows
          have hdispatch := updates_dispatch hdispatching
            (h.dispatchedTargets_of_phantom _ hresolve)
          simp only [Progress.state]
          exact .head hdiagnose hdispatch
  | notFound =>
      rw [resolveVirtual_of_notFound h o s site call hresolve]
      exact .single (.diagnoseDispatch hsite (by simp [Hierarchy.resolutionProblem?, hresolve]))

/-- A call site is opened without targets; a dispatching one is kept for later passes. -/
def opened (s : State) (site : CallSite) (call : Invocation) (line? : Option Nat) : State :=
  if call.dispatches then
    { s.openSite site call line? with virtualSites := s.virtualSites ++ [site] }
  else s.openSite site call line?

@[simp] theorem processed_opened (s : State) (site : CallSite) (call : Invocation)
    (line? : Option Nat) : (s.opened site call line?).processed = s.processed := by
  rw [opened]
  split <;> rfl

theorem getElem?_sites_opened (s : State) (site other : CallSite) (call : Invocation)
    (line? : Option Nat) : (s.opened site call line?).sites[other]? =
      if site = other then some ⟨call, line?, ∅⟩ else s.sites[other]? := by
  have hsites : (s.opened site call line?).sites = s.sites.insert site ⟨call, line?, ∅⟩ := by
    rw [opened]
    split <;> rfl
  rw [hsites, Std.ExtTreeMap.getElem?_insert]
  simp only [Std.LawfulEqCmp.compare_eq_iff_eq]

theorem mem_sites_opened (s : State) (site other : CallSite) (call : Invocation)
    (line? : Option Nat) :
    other ∈ (s.opened site call line?).sites ↔ site = other ∨ other ∈ s.sites := by
  rw [mem_sites_iff, mem_sites_iff]
  by_cases hother : site = other
  · simp [getElem?_sites_opened, hother]
  · simp [getElem?_sites_opened, hother]

theorem mem_virtualSites_opened (s : State) (site other : CallSite) (call : Invocation)
    (line? : Option Nat) : other ∈ (s.opened site call line?).virtualSites ↔
      (site = other ∧ call.dispatches = true) ∨ other ∈ s.virtualSites := by
  rw [opened]
  split
  · next hcall => simp [hcall, or_comm, eq_comm]
  · next hcall => simp [hcall, openSite]

theorem dispatching_opened (s : State) (site : CallSite) {call : Invocation}
    (line? : Option Nat) (hcall : call.dispatches = true) :
    Dispatching (s.opened site call line?) site call := by
  refine ⟨?_, _, by rw [getElem?_sites_opened, if_pos rfl], rfl⟩
  simp [opened, hcall]

/-- How an opened site is resolved, by the kind of its call. -/
theorem scanCall_eq (h : Hierarchy) (o : Options) (s : State) (site : CallSite)
    (call : Invocation) (line? : Option Nat) :
    s.scanCall h o site call line? =
      if call.kind = .dynamic then .ok ((s.opened site call line?).diagnose .unsupported site call)
      else if call.dispatches then (s.opened site call line?).resolveVirtual h o site call
      else (s.opened site call line?).resolveDirect h o site call := by
  obtain ⟨declared, kind, onArray⟩ := call
  cases kind <;> cases onArray <;> rfl

theorem updates_scanCall {line? : Option Nat} (hat : At h s site obs)
    (hcall : obs.1.operation = .invoke call) :
    Updates h (s.opened site call line?) (s.scanCall h o site call line?).state := by
  have hat : At h (s.opened site call line?) site obs :=
    { hat with processed := (s.processed_opened site call line?).symm ▸ hat.processed }
  rw [scanCall_eq]
  by_cases hkind : call.kind = .dynamic
  · rw [if_pos hkind]
    exact .single (.diagnose hat hcall (by simp [Hierarchy.problem?, hkind]))
  · rw [if_neg hkind]
    cases hdispatches : call.dispatches with
    | true => exact updates_resolveVirtual (s.dispatching_opened site line? hdispatches)
    | false => exact updates_resolveDirect hat hcall hdispatches hkind

theorem updates_reflect (hat : At h s site obs) {effect : Reflection.Effect}
    (heffect : obs.2 = some effect) : Updates h s (s.reflect h site effect) := by
  cases effect with
  | start type =>
      have hstarted : type ∈ h.started obs := by
        simp [Hierarchy.started, heffect, Hierarchy.startedBy]
      exact .head (.record _) (.single (.start (hat.of_grows (s.grows_record _)) hstarted))
  | construct type choice =>
      rw [reflect]
      cases hclass : (h.program.class? type).filter ClassDef.isConcrete with
      | none => exact .single (.record _)
      | some c =>
          have hby : type ∈ h.constructedBy (.construct type choice) := by
            simp [Hierarchy.constructedBy, hclass]
          have hconstructed : type ∈ h.constructed obs := by
            simp [Hierarchy.constructed, heffect, hby]
          have hstarted : type ∈ h.started obs := by
            simp [Hierarchy.started, heffect, Hierarchy.startedBy, hby]
          have hrecord := hat.of_grows (s.grows_record (.reflectiveConstruction site type))
          have hconstruct := hrecord.of_grows
            ((s.record (.reflectiveConstruction site type)).grows_observeConstruction type)
          have hstart := hconstruct.of_grows (grows_start h _ type)
          refine .head (.record _) (.head (.construct hrecord hconstructed)
            (.head (.start hconstruct hstarted) (updates_foldl_addEdge hstart ?_)))
          intro t ht
          refine Or.inr ⟨_, heffect, ?_⟩
          simpa [Hierarchy.constructorTargets, hclass] using ht

/-- The part of a scan that looks at the instruction alone. -/
def operate (h : Hierarchy) (o : Options) (s : State) (site : CallSite)
    (operation : Operation) (line? : Option Nat) : Progress :=
  match operation with
  | .invoke call => s.scanCall h o site call line?
  | .new type => .ok ((s.observeConstruction type).start h type)
  | .staticField owner => .ok (s.start h owner)
  | .constString _ | .constClass _ | .other _ => .ok s

/-- The part of a scan that follows the reflective effect, if there is one. -/
def reflect? (h : Hierarchy) (s : State) (site : CallSite) :
    Option Reflection.Effect → State
  | none => s
  | some effect => s.reflect h site effect

theorem scan_eq (h : Hierarchy) (o : Options) (caller : MethodRef) (method : Method) (s : State)
    (obs : Observation) :
    scan h o caller method s obs =
      (s.operate h o ⟨caller, obs.1.offset⟩ obs.1.operation (method.line? obs.1.offset)).map
        fun s => s.reflect? h ⟨caller, obs.1.offset⟩ obs.2 := by
  obtain ⟨⟨offset, operation⟩, effect?⟩ := obs
  cases operation with
  | invoke call =>
      cases effect? <;> simp [scan, operate, reflect?, bind, Except.bind, Except.map]
  | _ => cases effect? <;> rfl

/-- The state that a scan updates: the site of the instruction opened, if it is a call. -/
def entered (s : State) (site : CallSite) (operation : Operation) (line? : Option Nat) : State :=
  match operation with
  | .invoke call => s.opened site call line?
  | _ => s

@[simp] theorem processed_entered (s : State) (site : CallSite) (operation : Operation)
    (line? : Option Nat) : (s.entered site operation line?).processed = s.processed := by
  cases operation with
  | invoke call => exact s.processed_opened site call line?
  | _ => rfl

theorem updates_operate {line? : Option Nat} (hat : At h s site obs) :
    Updates h (s.entered site obs.1.operation line?)
      (s.operate h o site obs.1.operation line?).state := by
  cases hoperation : obs.1.operation with
  | invoke call => exact updates_scanCall hat hoperation
  | new type =>
      have hconstructed : type ∈ h.constructed obs := by
        simp [Hierarchy.constructed, hoperation]
      have hstarted : type ∈ h.started obs := by
        simp [Hierarchy.started, hoperation]
      exact .head (.construct hat hconstructed)
        (.single (.start (hat.of_grows (s.grows_observeConstruction type)) hstarted))
  | staticField owner =>
      have hstarted : owner ∈ h.started obs := by
        simp [Hierarchy.started, hoperation]
      exact .single (.start hat hstarted)
  | _ => exact .refl

theorem updates_reflect? (hat : At h s site obs) : Updates h s (s.reflect? h site obs.2) := by
  cases heffect : obs.2 with
  | none => exact .refl
  | some effect => exact updates_reflect hat heffect

theorem updates_scan {caller : MethodRef} {method : Method}
    (hat : At h s ⟨caller, obs.1.offset⟩ obs) :
    Updates h (s.entered ⟨caller, obs.1.offset⟩ obs.1.operation (method.line? obs.1.offset))
      (scan h o caller method s obs).state := by
  have hfirst : Updates h (s.entered ⟨caller, obs.1.offset⟩ obs.1.operation
      (method.line? obs.1.offset)) (s.operate h o ⟨caller, obs.1.offset⟩ obs.1.operation
      (method.line? obs.1.offset)).state := updates_operate hat
  rw [scan_eq]
  cases hoperate : s.operate h o ⟨caller, obs.1.offset⟩ obs.1.operation
      (method.line? obs.1.offset) with
  | error halt => simpa [hoperate, Except.map, Progress.state] using hfirst
  | ok s₁ =>
      rw [hoperate] at hfirst
      have hat₁ : At h s₁ ⟨caller, obs.1.offset⟩ obs := by
        refine At.of_grows ?_ hfirst.grows
        exact { hat with processed := (s.processed_entered _ _ _).symm ▸ hat.processed }
      exact hfirst.trans (updates_reflect? hat₁)

end State

end Construction

end JvmReach
