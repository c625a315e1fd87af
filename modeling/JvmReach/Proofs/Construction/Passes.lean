import JvmReach.Proofs.Construction.Scanning

/-!
# Passes

`Fresh` is the invariant of the re-resolution passes: as long as the strategy
admits no more than at the latest pass, every dispatching site is resolved, those
that are due apart. A construction that finishes with nothing due has therefore
resolved every dispatching site for the receiver types that are finally admitted.

Scanning a call anew would drop the targets of its site, and what the site is
recorded as. With distinct offsets no site is scanned twice.
-/

namespace JvmReach.Construction

/-- While nothing has been admitted since the latest pass, the dispatching sites
that are not due are resolved. -/
def Fresh (h : Hierarchy) (s : State) (due : List CallSite) : Prop :=
  s.resolvedAt = s.strategy.generation →
    ∀ site ∈ s.virtualSites, site ∉ due → Resolved h s site

/-- A change of the strategy would have raised its generation. -/
theorem Fresh.of_grows {h : Hierarchy} {s s' : State} {due : List CallSite}
    (hs : Fresh h s due) (hpaced : Paced s) (hgrows : Grows s s') : Fresh h s' due := by
  intro hgeneration site hsite hdue
  rw [hgrows.virtualSites] at hsite
  rw [hgrows.resolvedAt] at hgeneration
  rcases hgrows.strategy with hstrategy | hlt
  · rw [hstrategy] at hgeneration
    exact (hs hgeneration site hsite hdue).of_grows hgrows hstrategy
  · rw [← hgeneration] at hlt
    exact absurd hpaced (Nat.not_le.2 hlt)

/-- A site that has been resolved is due no longer. -/
theorem Fresh.drop {h : Hierarchy} {s : State} {site : CallSite} {due : List CallSite}
    (hs : Fresh h s (site :: due)) (hsite : site ∈ s.virtualSites → Resolved h s site) :
    Fresh h s due := by
  intro hgeneration other hother hdue
  by_cases heq : other = site
  · subst heq
    exact hsite hother
  · exact hs hgeneration other hother (by simp [heq, hdue])

theorem At.unique {h : Hierarchy} (hoffsets : h.program.DistinctOffsets) {s s' : State}
    {site : CallSite} {obs obs' : Observation} (hat : At h s site obs)
    (hat' : At h s' site obs') : obs = obs' :=
  List.inj_on_of_nodup_map (hoffsets.nodup_observed site.caller) hat.observed hat'.observed
    (hat.offset.trans hat'.offset.symm)

/-- With distinct offsets the sites that dispatch stand for dispatching calls only. -/
theorem Recorded.dispatches {h : Hierarchy} {s : State} (hs : Recorded h s)
    (hoffsets : h.program.DistinctOffsets) {site : CallSite} {obs : Observation}
    {call : Invocation} (hsite : site ∈ s.virtualSites) (hat : At h s site obs)
    (hcall : obs.1.operation = .invoke call) : call.dispatches = true := by
  obtain ⟨-, obs', call', hat', hcall', hdispatches⟩ := hs.dispatching site hsite
  rw [hat.unique hoffsets hat', hcall'] at hcall
  cases hcall
  exact hdispatches

theorem SiteScanned.entered {h : Hierarchy} {s : State} {site other : CallSite}
    {obs : Observation} (hs : SiteScanned h s site obs) (hother : other ≠ site)
    (operation : Operation) (line? : Option Nat) :
    SiteScanned h (s.entered other operation line?) site obs := by
  cases operation with
  | invoke call' =>
      intro call hcall
      obtain ⟨hvirtual, r, hr, hall⟩ := hs call hcall
      refine ⟨?_, r, ?_, hall⟩
      · intro hdispatches
        exact (s.mem_virtualSites_opened other site call' line?).2 (Or.inr (hvirtual hdispatches))
      · rw [State.entered, State.getElem?_sites_opened, if_neg hother]
        exact hr
  | _ => exact hs

namespace State

variable {h : Hierarchy} {o : Options} {s s' : State} {site : CallSite} {obs : Observation}
  {call : Invocation} {caller : MethodRef} {method : Method}

theorem siteScanned_scan_of_ne {other : Observation} (hs : SiteScanned h s site other)
    (hsite : (⟨caller, obs.1.offset⟩ : CallSite) ≠ site)
    (hat : At h s ⟨caller, obs.1.offset⟩ obs) (hok : scan h o caller method s obs = .ok s') :
    SiteScanned h s' site other :=
  (hs.entered hsite _ _).of_grows (grows_scan hat hok)

theorem paced_entered (hs : Paced s) (operation : Operation) (line? : Option Nat) :
    Paced (s.entered site operation line?) := by
  obtain ⟨_, _, heq⟩ := s.entered_eq site operation line?
  rw [heq]
  exact hs

/-- The other sites keep their targets, and the opened one is due. -/
theorem fresh_opened {due : List CallSite} (hs : Fresh h s due) (line? : Option Nat) :
    Fresh h (s.opened site call line?) (site :: due) := by
  intro hgeneration other hother hdue
  obtain ⟨_, _, heq⟩ := s.entered_eq site (.invoke call) line?
  have hstrategy : (s.entered site (.invoke call) line?).strategy = s.strategy := by rw [heq]
  have hresolvedAt : (s.entered site (.invoke call) line?).resolvedAt = s.resolvedAt := by
    rw [heq]
  rw [entered] at hstrategy hresolvedAt
  rw [hstrategy, hresolvedAt] at hgeneration
  simp only [List.mem_cons, not_or] at hdue
  rcases (s.mem_virtualSites_opened site other call line?).1 hother with ⟨hsite, -⟩ | hother
  · exact absurd hsite.symm hdue.1
  · intro r hr
    rw [getElem?_sites_opened, if_neg (Ne.symm hdue.1)] at hr
    rw [hstrategy]
    exact hs hgeneration other hother hdue.2 r hr

/-- A call is resolved for the receivers at hand when it is scanned. -/
theorem fresh_scanCall {due : List CallSite} {line? : Option Nat}
    (hoffsets : h.program.DistinctOffsets) (hs : Fresh h s due) (hpaced : Paced s)
    (hrecorded : Recorded h s) (hat : At h s site obs) (hcall : obs.1.operation = .invoke call)
    (hok : s.scanCall h o site call line? = .ok s') : Fresh h s' due := by
  have hgrows : Grows (s.opened site call line?) s' := grows_scanCall hat hcall hok
  have hpaced' : Paced (s.opened site call line?) := paced_entered hpaced (.invoke call) line?
  apply ((fresh_opened hs line?).of_grows hpaced' hgrows).drop
  intro hsite
  obtain ⟨hvirtual, -⟩ := siteScanned_scanCall hat hcall hok
  rw [hgrows.virtualSites] at hsite
  rcases (s.mem_virtualSites_opened site site call line?).1 hsite with ⟨-, hdispatches⟩ | hsite
  · exact (hvirtual hdispatches).2
  · -- the site was among them before, so the call that stands there dispatches
    exact (hvirtual (hrecorded.dispatches hoffsets hsite hat hcall)).2

theorem fresh_scan {due : List CallSite} (hoffsets : h.program.DistinctOffsets)
    (hs : Fresh h s due) (hpaced : Paced s) (hrecorded : Recorded h s)
    (hat : At h s ⟨caller, obs.1.offset⟩ obs) (hok : scan h o caller method s obs = .ok s') :
    Fresh h s' due := by
  cases hoperation : obs.1.operation with
  | invoke call =>
      obtain ⟨s₁, hoperate, rfl⟩ := exists_of_scan_eq_ok hok
      have hgrows₁ := grows_operate hat hoperate
      have hpaced₁ : Paced s₁ := (paced_entered hpaced _ _).of_grows hgrows₁
      have hgrows := (updates_reflect? (at_operate hat hoperate)).grows
      rw [hoperation] at hoperate
      exact (fresh_scanCall hoffsets hs hpaced hrecorded hat hoperation hoperate).of_grows
        hpaced₁ hgrows
  | _ =>
      have hgrows := grows_scan hat hok
      rw [hoperation] at hgrows
      exact hs.of_grows hpaced hgrows

/-- A pass resolves the next of its sites for the receivers at hand. -/
theorem fresh_revisit {due : List CallSite} (hs : Fresh h s (site :: due)) (hpaced : Paced s)
    (hsite : Dispatching s site call) (hok : s.resolveVirtual h o site call = .ok s') :
    Fresh h s' due := by
  have hgrows := ((updates_resolveVirtual hsite).of_eq_ok hok).grows
  exact (hs.of_grows hpaced hgrows).drop fun _ => resolved_resolveVirtual hsite hok

end State

end JvmReach.Construction
