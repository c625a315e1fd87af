import JvmReach.Proofs.Construction.Additions
import JvmReach.Proofs.Construction.Passes

/-!
# What turns achieve

`WellFormed` gathers what every step keeps. What a scan gives to its observation and no
step takes away is `Lasting`: it holds of all observations of the methods that have been
taken up, turn after turn. In particular each of them is scanned (`Followed`). With
distinct offsets this holds of the call sites too, and the dispatching sites are resolved
up to the pass that is under way (`Settled`). All this is kept by every turn of a
construction that is not interrupted.
-/

namespace JvmReach.Construction

structure WellFormed (h : Hierarchy) (entries : List MethodRef) (s : State) : Prop where
  swept : Swept s
  listed : Listed s
  declared : Declared h entries s
  recorded : Recorded h s
  paced : Paced s
  startedAbove : StartedAbove h s

theorem Step.wellFormed {h : Hierarchy} {entries : List MethodRef} {s s' : State}
    (hstep : Step h s s') (hs : WellFormed h entries s) : WellFormed h entries s' where
  swept := hstep.swept hs.swept
  listed := hstep.listed hs.listed
  declared := hstep.declared hs.declared
  recorded := hstep.recorded hs.recorded
  paced := hstep.paced hs.paced
  startedAbove := hstep.startedAbove hs.startedAbove

theorem Steps.wellFormed {h : Hierarchy} {entries : List MethodRef} {s s' : State}
    (hsteps : Steps h s s') (hs : WellFormed h entries s) : WellFormed h entries s' :=
  hsteps.keeps (fun _ _ => Step.wellFormed) hs

/-- What each step keeps of a well-formed state holds after all steps. -/
theorem Steps.keeps_of_wellFormed {h : Hierarchy} {entries : List MethodRef} {P : State → Prop}
    (hstep : ∀ s s', Step h s s' → WellFormed h entries s → P s → P s') {s s' : State}
    (hsteps : Steps h s s') (hwf : WellFormed h entries s) (hs : P s) : P s' := by
  induction hsteps with
  | refl => exact hs
  | tail hbefore hlast ih => exact hstep _ _ hlast (Steps.wellFormed hbefore hwf) ih

theorem Step.scanned {h : Hierarchy} {s s' : State} {obs : Observation} (hstep : Step h s s')
    (hs : Scanned h s obs) : Scanned h s' obs := by
  rcases hstep.update_or_organizes with hupdate | horganizes
  · exact hs.of_grows hupdate.grows
  · constructor
    · rw [horganizes.strategy]
      exact hs.constructed
    · intro type htype
      apply (hs.started type htype).mono
      intro other hother
      rwa [horganizes.started]

namespace State

variable {h : Hierarchy} {o : Options} {s s' : State} {m : MethodRef} {method : Method}
  {observed : List Observation}

/-- A site that is not among those of the observations is left as it is. -/
theorem siteScanned_foldlM_of_ne {site : CallSite} {other : Observation} (hm : m ∈ s.processed)
    (hobserved : ∀ obs ∈ observed, obs ∈ h.program.observed m)
    (hne : ∀ obs ∈ observed, (⟨m, obs.1.offset⟩ : CallSite) ≠ site)
    (hok : observed.foldlM (scan h o m method) s = .ok s') (hs : SiteScanned h s site other) :
    SiteScanned h s' site other := by
  refine (foldlM_scan_keeps (P := fun observed s =>
    (∀ obs ∈ observed, (⟨m, obs.1.offset⟩ : CallSite) ≠ site) ∧ SiteScanned h s site other)
    ?_ hm hobserved hok ⟨hne, hs⟩).2
  rintro obs rest s s' hm hobs hscan ⟨hne, hs⟩
  exact ⟨fun obs hobs => hne obs (by simp [hobs]),
    siteScanned_scan_of_ne hs (hne obs (by simp)) ⟨hm, hobs, rfl⟩ hscan⟩

theorem siteScanned_foldlM (hs : StartedAbove h s) (hm : m ∈ s.processed)
    (hmethod : h.program.method? m = some method)
    (hobserved : ∀ obs ∈ observed, obs ∈ h.program.observed m)
    (hoffsets : (observed.map fun obs => obs.1.offset).Nodup)
    (hok : observed.foldlM (scan h o m method) s = .ok s') :
    ∀ obs ∈ observed, SiteScanned h s' ⟨m, obs.1.offset⟩ obs := by
  induction observed generalizing s with
  | nil => simp
  | cons obs rest ih =>
      obtain ⟨s₁, hscan, hrest⟩ := exists_of_foldlM_scan_cons hok
      rw [List.map_cons, List.nodup_cons] at hoffsets
      have hobs := hobserved obs (by simp)
      have hobserved' : ∀ obs ∈ rest, obs ∈ h.program.observed m :=
        fun obs hobs => hobserved obs (by simp [hobs])
      have hm₁ : m ∈ s₁.processed := processed_scan hm hobs hscan ▸ hm
      have hfirst := siteScanned_scan hs ⟨hm, hobs, rfl⟩ hscan
      have hs₁ := (steps_of_scan_eq_ok hm hmethod hobs hscan).keeps
        (fun _ _ => Step.startedAbove) hs
      intro obs' hobs'
      rcases List.mem_cons.1 hobs' with rfl | hobs'
      · refine siteScanned_foldlM_of_ne hm₁ hobserved' ?_ hrest hfirst
        intro other hother heq
        have heq : other.1.offset = obs'.1.offset := congrArg CallSite.offset heq
        exact hoffsets.1 (List.mem_map.2 ⟨other, hother, heq⟩)
      · exact ih hs₁ hm₁ hobserved' hoffsets.2 hrest obs' hobs'

theorem fresh_foldlM {due : List CallSite} (hoffsets : h.program.DistinctOffsets)
    (hs : Fresh h s due) (hpaced : Paced s) (hrecorded : Recorded h s) (hm : m ∈ s.processed)
    (hmethod : h.program.method? m = some method)
    (hobserved : ∀ obs ∈ observed, obs ∈ h.program.observed m)
    (hok : observed.foldlM (scan h o m method) s = .ok s') : Fresh h s' due := by
  refine (foldlM_scan_keeps (P := fun _ s => Fresh h s due ∧ Paced s ∧ Recorded h s)
    ?_ hm hobserved hok ⟨hs, hpaced, hrecorded⟩).1
  rintro obs rest s s' hm hobs hscan ⟨hs, hpaced, hrecorded⟩
  have hsteps := steps_of_scan_eq_ok hm hmethod hobs hscan
  exact ⟨fresh_scan hoffsets hs hpaced hrecorded ⟨hm, hobs, rfl⟩ hscan,
    hsteps.keeps (fun _ _ => Step.paced) hpaced,
    hsteps.keeps (fun _ _ => Step.recorded) hrecorded⟩

theorem siteScanned_process (hoffsets : h.program.DistinctOffsets) (hs : StartedAbove h s)
    (hm : m ∈ s.processed) (hok : s.process h o m = .ok s') :
    ∀ obs ∈ h.program.observed m, SiteScanned h s' ⟨m, obs.1.offset⟩ obs := by
  rcases process_cases hok with ⟨hempty, -⟩ | ⟨method, hmethod, hok⟩
  · simp [hempty]
  · exact siteScanned_foldlM hs hm hmethod (fun _ hobs => hobs) (hoffsets.nodup_observed m) hok

theorem siteScanned_process_of_ne {site : CallSite} {other : Observation}
    (hm : m ∈ s.processed) (hne : site.caller ≠ m) (hok : s.process h o m = .ok s')
    (hs : SiteScanned h s site other) : SiteScanned h s' site other := by
  rcases process_cases hok with ⟨-, rfl⟩ | ⟨method, -, hok⟩
  · exact hs
  · refine siteScanned_foldlM_of_ne hm (fun _ hobs => hobs) ?_ hok hs
    rintro obs - rfl
    exact hne rfl

theorem fresh_process {due : List CallSite} (hoffsets : h.program.DistinctOffsets)
    (hs : Fresh h s due) (hpaced : Paced s) (hrecorded : Recorded h s) (hm : m ∈ s.processed)
    (hok : s.process h o m = .ok s') : Fresh h s' due := by
  rcases process_cases hok with ⟨-, rfl⟩ | ⟨method, hmethod, hok⟩
  · exact hs
  · exact fresh_foldlM hoffsets hs hpaced hrecorded hm hmethod (fun _ hobs => hobs) hok

theorem steps_of_continued {elapsed : Nat} (hs : Swept s)
    (hadvance : s.advance h o elapsed = .continued s') : Steps h s s' := by
  have hsteps := steps_advance (h := h) (o := o) hs elapsed
  rwa [hadvance] at hsteps

/-- A revisited site is one that dispatches, and is resolved as the call recorded for it. -/
theorem exists_of_revisit_eq_ok {site : CallSite} (hs : Recorded h s)
    (hsite : site ∈ s.virtualSites) (hok : s.revisit h o site = .ok s') :
    ∃ call, Dispatching s site call ∧ s.resolveVirtual h o site call = .ok s' := by
  obtain ⟨r, hr⟩ := (s.mem_sites_iff site).1 (hs.dispatching site hsite).1
  simp only [revisit, hr] at hok
  exact ⟨r.call, ⟨hsite, r, hr, rfl⟩, hok⟩

end State

theorem Listed.notMem_processed {s : State} (hs : Listed s) {m : MethodRef}
    {rest : List MethodRef} (hpending : s.pending = m :: rest) : m ∉ s.processed := by
  have hnodup := hs.nodup
  rw [State.discovered, hpending] at hnodup
  intro hm
  exact List.disjoint_of_nodup_append hnodup hm List.mem_cons_self

/-- A property that a scan gives to its observation and that no step takes away. -/
structure Lasting (h : Hierarchy) (o : Options) (entries : List MethodRef)
    (P : State → CallSite → Observation → Prop) : Prop where
  established : ∀ {s s' : State} {m : MethodRef} {method : Method} {obs : Observation},
    WellFormed h entries s → At h s ⟨m, obs.1.offset⟩ obs →
    State.scan h o m method s obs = .ok s' → P s' ⟨m, obs.1.offset⟩ obs
  kept : ∀ {s s' : State} {site : CallSite} {obs : Observation},
    Step h s s' → P s site obs → P s' site obs

namespace Lasting

variable {h : Hierarchy} {o : Options} {entries : List MethodRef}
  {P : State → CallSite → Observation → Prop} {s s' : State} {m : MethodRef}

theorem steps (hP : Lasting h o entries P) {site : CallSite} {obs : Observation}
    (hsteps : Steps h s s') (hs : P s site obs) : P s' site obs :=
  hsteps.keeps (fun _ _ => hP.kept) hs

theorem foldlM (hP : Lasting h o entries P) {method : Method} {observed : List Observation}
    (hwf : WellFormed h entries s) (hm : m ∈ s.processed)
    (hmethod : h.program.method? m = some method)
    (hobserved : ∀ obs ∈ observed, obs ∈ h.program.observed m)
    (hok : observed.foldlM (State.scan h o m method) s = .ok s') :
    ∀ obs ∈ observed, P s' ⟨m, obs.1.offset⟩ obs := by
  -- the observations that are not still to come have the property
  have hall := (State.foldlM_scan_keeps (P := fun rest s => WellFormed h entries s ∧
    ∀ obs ∈ observed, obs ∈ rest ∨ P s ⟨m, obs.1.offset⟩ obs) ?_ hm hobserved hok
    ⟨hwf, fun _ hobs => Or.inl hobs⟩).2
  · intro obs hobs
    exact (hall obs hobs).resolve_left List.not_mem_nil
  · rintro obs rest s s' hm hobs hscan ⟨hwf, hs⟩
    have hsteps := State.steps_of_scan_eq_ok hm hmethod hobs hscan
    refine ⟨hsteps.wellFormed hwf, ?_⟩
    intro other hother
    rcases hs other hother with hmem | hother
    · rcases List.mem_cons.1 hmem with rfl | hrest
      · exact Or.inr (hP.established hwf ⟨hm, hobs, rfl⟩ hscan)
      · exact Or.inl hrest
    · exact Or.inr (hP.steps hsteps hother)

theorem process (hP : Lasting h o entries P) (hwf : WellFormed h entries s)
    (hm : m ∈ s.processed) (hok : s.process h o m = .ok s') :
    ∀ obs ∈ h.program.observed m, P s' ⟨m, obs.1.offset⟩ obs := by
  rcases State.process_cases hok with ⟨hempty, -⟩ | ⟨method, hmethod, hok⟩
  · simp [hempty]
  · exact hP.foldlM hwf hm hmethod (fun _ hobs => hobs) hok

/-- If the observations of all methods that have been taken up have the property, so do
those of the methods that have been taken up a turn later. -/
theorem advance (hP : Lasting h o entries P) {elapsed : Nat} (hwf : WellFormed h entries s)
    (hs : ∀ m ∈ s.processed, ∀ obs ∈ h.program.observed m, P s ⟨m, obs.1.offset⟩ obs)
    (hadvance : s.advance h o elapsed = .continued s') :
    ∀ m ∈ s'.processed, ∀ obs ∈ h.program.observed m, P s' ⟨m, obs.1.offset⟩ obs := by
  have hsteps := State.steps_of_continued hwf.swept hadvance
  rcases State.continued_cases hadvance with ⟨site, rest, hsweep, hok⟩ |
    ⟨m, rest, hsweep, hpending, hok⟩ | ⟨-, -, -, log, rfl⟩
  · have hadds := State.adds_revisit_next hwf.swept hsweep hok
    intro m hm obs hobs
    rw [hadds.processed] at hm
    exact hP.steps hsteps (hs m hm obs hobs)
  · have hwf₁ := (Step.take hsweep hpending : Step h s _).wellFormed hwf
    have hadds := State.adds_process (by simp) hok
    intro m' hm' obs hobs
    rw [hadds.processed, List.mem_append, List.mem_singleton] at hm'
    rcases hm' with hm' | rfl
    · exact hP.steps hsteps (hs m' hm' obs hobs)
    · exact hP.process hwf₁ (by simp) hok obs hobs
  · intro m hm obs hobs
    exact hP.steps hsteps (hs m hm obs hobs)

end Lasting

theorem lasting_scanned (h : Hierarchy) (o : Options) (entries : List MethodRef) :
    Lasting h o entries fun s _ obs => Scanned h s obs where
  established hwf hat hok := State.scanned_scan hwf.startedAbove hat hok
  kept hstep hs := hstep.scanned hs

/-- Each observation of a method that has been taken up is scanned. -/
def Followed (h : Hierarchy) (s : State) : Prop :=
  ∀ m ∈ s.processed, ∀ obs ∈ h.program.observed m, Scanned h s obs

/-- Each call of a method that has been taken up has its site, and the sites that
dispatch are resolved unless the pass has yet to look at them. -/
structure Settled (h : Hierarchy) (s : State) : Prop where
  sites : ∀ m ∈ s.processed, ∀ obs ∈ h.program.observed m,
    SiteScanned h s ⟨m, obs.1.offset⟩ obs
  fresh : Fresh h s s.sweep

theorem Settled.advance {h : Hierarchy} {o : Options} {entries : List MethodRef}
    {elapsed : Nat} {s s' : State} (hoffsets : h.program.DistinctOffsets)
    (hwf : WellFormed h entries s) (hs : Settled h s)
    (hadvance : s.advance h o elapsed = .continued s') : Settled h s' := by
  rcases State.continued_cases hadvance with ⟨site, rest, hsweep, hok⟩ |
    ⟨m, rest, hsweep, hpending, hok⟩ | ⟨-, -, -, log, rfl⟩
  · have hsite : site ∈ s.virtualSites := hwf.swept site (by simp [hsweep])
    have hwf₁ := (Step.visit hsweep : Step h s _).wellFormed hwf
    obtain ⟨call, hdispatching, hok⟩ := State.exists_of_revisit_eq_ok hwf₁.recorded hsite hok
    have hgrows := ((State.updates_resolveVirtual hdispatching).of_eq_ok hok).grows
    have hfresh : Fresh h { s with sweep := rest } (site :: rest) := hsweep ▸ hs.fresh
    constructor
    · intro m hm obs hobs
      rw [hgrows.processed] at hm
      have hscanned : SiteScanned h { s with sweep := rest } ⟨m, obs.1.offset⟩ obs :=
        hs.sites m hm obs hobs
      exact hscanned.of_grows hgrows
    · rw [hgrows.sweep]
      exact State.fresh_revisit hfresh hwf₁.paced hdispatching hok
  · have hwf₁ := (Step.take hsweep hpending : Step h s _).wellFormed hwf
    have hadds := State.adds_process (by simp) hok
    have hm := hwf.listed.notMem_processed hpending
    have hfresh : Fresh h { s with processed := s.processed ++ [m], pending := rest } s.sweep :=
      hs.fresh
    constructor
    · intro m' hm' obs hobs
      rw [hadds.processed, List.mem_append, List.mem_singleton] at hm'
      rcases hm' with hm' | rfl
      · refine State.siteScanned_process_of_ne (by simp) ?_ hok (hs.sites m' hm' obs hobs)
        rintro rfl
        exact hm hm'
      · exact State.siteScanned_process hoffsets hwf₁.startedAbove (by simp) hok obs hobs
    · rw [hadds.sweep]
      exact State.fresh_process hoffsets hfresh hwf₁.paced hwf₁.recorded (by simp) hok
  · -- at the start of a pass every dispatching site is due
    constructor
    · exact hs.sites
    · intro _ site hsite hdue
      exact absurd hsite hdue

theorem wellFormed_run {h : Hierarchy} {o : Options} {clock : Nat → Nat} {turns k : Nat}
    {entries : List MethodRef} {s s' : State} (hwf : WellFormed h entries s)
    (hrun : run h o clock turns k s = .ok s') : WellFormed h entries s' :=
  ((steps_run h o clock turns k hwf.swept).of_eq_ok hrun).wellFormed hwf

/-- What turns keep of well-formed states holds after a run that is not interrupted. -/
theorem run_keeps_of_wellFormed {h : Hierarchy} {o : Options} {entries : List MethodRef}
    {P : State → Prop} (hturn : ∀ s s' elapsed, s.advance h o elapsed = .continued s' →
      WellFormed h entries s → P s → P s') {clock : Nat → Nat} {turns k : Nat} {s s' : State}
    (hrun : run h o clock turns k s = .ok s') (hwf : WellFormed h entries s) (hs : P s) :
    P s' := by
  have hkeeps : ∀ s s' elapsed, s.advance h o elapsed = .continued s' →
      WellFormed h entries s ∧ P s → WellFormed h entries s' ∧ P s' := by
    rintro s s' elapsed hadvance ⟨hwf, hs⟩
    exact ⟨(State.steps_of_continued hwf.swept hadvance).wellFormed hwf,
      hturn s s' elapsed hadvance hwf hs⟩
  exact (run_keeps hkeeps clock turns k hrun ⟨hwf, hs⟩).2

/-- What is lasting holds of all observations of the methods that a run takes up, if it
does of those that are taken up before. -/
theorem Lasting.run {h : Hierarchy} {o : Options} {entries : List MethodRef}
    {P : State → CallSite → Observation → Prop} (hP : Lasting h o entries P)
    {clock : Nat → Nat} {turns k : Nat} {s s' : State} (hrun : run h o clock turns k s = .ok s')
    (hwf : WellFormed h entries s)
    (hs : ∀ m ∈ s.processed, ∀ obs ∈ h.program.observed m, P s ⟨m, obs.1.offset⟩ obs) :
    ∀ m ∈ s'.processed, ∀ obs ∈ h.program.observed m, P s' ⟨m, obs.1.offset⟩ obs :=
  run_keeps_of_wellFormed (P := fun s => ∀ m ∈ s.processed, ∀ obs ∈ h.program.observed m,
    P s ⟨m, obs.1.offset⟩ obs) (fun _ _ _ hadvance hwf hs => hP.advance hwf hs hadvance)
    hrun hwf hs

theorem followed_run {h : Hierarchy} {o : Options} {clock : Nat → Nat} {turns k : Nat}
    {entries : List MethodRef} {s s' : State} (hrun : run h o clock turns k s = .ok s')
    (hwf : WellFormed h entries s) (hs : Followed h s) : Followed h s' :=
  (lasting_scanned h o entries).run hrun hwf hs

theorem settled_run {h : Hierarchy} {o : Options} {clock : Nat → Nat} {turns k : Nat}
    {entries : List MethodRef} {s s' : State} (hoffsets : h.program.DistinctOffsets)
    (hrun : run h o clock turns k s = .ok s') (hwf : WellFormed h entries s)
    (hs : Settled h s) : Settled h s' :=
  run_keeps_of_wellFormed (fun _ _ _ hadvance hwf hs => hs.advance hoffsets hwf hadvance)
    hrun hwf hs

end JvmReach.Construction
