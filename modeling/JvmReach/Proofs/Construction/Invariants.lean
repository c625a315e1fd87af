import JvmReach.Proofs.Construction.Steps
import JvmReach.Proofs.Hierarchy.Declared

/-!
# What holds all along a construction

Each of these properties holds at the start and is kept by every step:

* `Listed`: the discovered methods are the reachable ones, each listed once;
* `Declared`: what is reachable is an entry or declared by the program;
* `Recorded`: a call site stands for a call in a method that has been taken up,
  and the sites that dispatch stand for dispatching calls;
* `Paced`: the latest pass started at a generation that has been reached.

None of them asks that offsets be distinct.
-/

namespace JvmReach

namespace Hierarchy

theorem declares_of_mem_dispatchTargets (h : Hierarchy) {admits : TypeName → Bool}
    {m t : MethodRef} (ht : t ∈ h.dispatchTargets m admits) : h.program.Declares t := by
  obtain ⟨type, -, -, hselect⟩ := (h.mem_dispatchTargets_iff m t admits).1 ht
  exact h.declares_of_select? hselect

theorem declares_of_mem_dispatchedTargets (h : Hierarchy) {admits : TypeName → Bool}
    {m t : MethodRef} (ht : t ∈ h.dispatchedTargets admits m) : h.program.Declares t := by
  cases hresolve : h.resolve m with
  | resolved target =>
      cases hprivate : (h.program.method? target).any (·.access.isPrivate) with
      | true =>
          rw [h.dispatchedTargets_of_private admits hresolve hprivate] at ht
          rw [Set.mem_singleton_iff.1 ht]
          exact h.declares_of_resolve hresolve
      | false =>
          rw [h.dispatchedTargets_of_resolved admits hresolve hprivate] at ht
          exact h.declares_of_mem_dispatchTargets ht
  | phantom missing =>
      rw [h.dispatchedTargets_of_phantom admits hresolve] at ht
      exact h.declares_of_mem_dispatchTargets ht
  | notFound => simp [dispatchedTargets, hresolve] at ht

theorem declares_of_mem_callTargets (h : Hierarchy) {admits : TypeName → Bool}
    {call : Invocation} {t : MethodRef} (ht : t ∈ h.callTargets admits call) :
    h.program.Declares t := by
  cases hcall : call.dispatches with
  | true =>
      rw [h.callTargets_of_dispatches admits hcall] at ht
      exact h.declares_of_mem_dispatchedTargets ht
  | false =>
      by_cases hkind : call.kind = .dynamic
      · simp [callTargets, hkind] at ht
      · rw [h.callTargets_of_direct admits hcall hkind] at ht
        exact h.declares_of_resolve ht

theorem declares_refIn (h : Hierarchy) {type : TypeName} {c : ClassDef} {method : Method}
    (hc : h.program.class? type = some c) (hmethod : method ∈ c.methods) :
    h.program.Declares (method.refIn c.name) := by
  have hname := h.program.name_eq_of_class? hc
  subst hname
  have hfound : (c.method? method.name method.descriptor).isSome = true :=
    List.find?_isSome.2 ⟨method, hmethod, by simp⟩
  obtain ⟨found, hfound⟩ := Option.isSome_iff_exists.1 hfound
  exact ⟨found, by simp [Program.method?, Method.refIn, hc, hfound]⟩

theorem declares_of_mem_constructorTargets (h : Hierarchy) {effect : Reflection.Effect}
    {t : MethodRef} (ht : t ∈ h.constructorTargets effect) : h.program.Declares t := by
  cases effect with
  | start type => simp [constructorTargets] at ht
  | construct type choice =>
      cases hclass : (h.program.class? type).filter ClassDef.isConcrete with
      | none => simp [constructorTargets, hclass] at ht
      | some c =>
          simp only [constructorTargets, hclass, Construction.State.constructorsOf,
            List.mem_map, List.mem_filter] at ht
          obtain ⟨method, ⟨hmethod, -⟩, rfl⟩ := ht
          exact h.declares_refIn (Option.filter_eq_some_iff.1 hclass).1 hmethod

theorem declares_of_mem_targets (h : Hierarchy) {admits : TypeName → Bool} {obs : Observation}
    {t : MethodRef} (ht : t ∈ h.targets admits obs) : h.program.Declares t := by
  rcases ht with ⟨call, -, ht⟩ | ⟨effect, -, ht⟩
  · exact h.declares_of_mem_callTargets ht
  · exact h.declares_of_mem_constructorTargets ht

theorem declares_of_staticInitializer? (h : Hierarchy) {type : TypeName} {c : ClassDef}
    {m : MethodRef} (hc : h.program.OnChain type c) (hm : c.staticInitializer? = some m) :
    h.program.Declares m := by
  obtain ⟨method, hmethod, rfl⟩ := Option.map_eq_some_iff.1 hm
  exact h.declares_refIn (h.program.class?_of_onChain hc) (List.mem_of_find?_eq_some hmethod)

end Hierarchy

namespace Construction

/-- The discovered methods are the reachable ones, each listed once. -/
structure Listed (s : State) : Prop where
  nodup : s.discovered.Nodup
  mem_iff : ∀ m, m ∈ s.discovered ↔ m ∈ s.reachable

theorem Listed.discover {s : State} (hs : Listed s) (m : MethodRef) : Listed (s.discover m) := by
  constructor
  · rw [State.discovered_discover]
    split
    · simpa using hs.nodup
    · next hnew =>
        have hnew : m ∉ s.discovered := by
          rw [hs.mem_iff]
          simpa using hnew
        rw [List.nodup_append]
        refine ⟨hs.nodup, by simp, ?_⟩
        intro a ha b hb
        rw [List.mem_singleton.1 hb]
        rintro rfl
        exact hnew ha
  · intro n
    rw [State.discovered_discover, State.mem_reachable_discover, List.mem_append, hs.mem_iff]
    split
    · next hold =>
        have hold : m ∈ s.reachable := by simpa using hold
        constructor
        · rintro (hn | hn)
          · exact Or.inr hn
          · cases hn
        · rintro (rfl | hn)
          · exact Or.inl hold
          · exact Or.inl hn
    · rw [List.mem_singleton, or_comm, eq_comm]

theorem Listed.foldl_discover {s : State} (hs : Listed s) (methods : List MethodRef) :
    Listed (methods.foldl State.discover s) := by
  induction methods generalizing s with
  | nil => exact hs
  | cons m rest ih => exact ih (hs.discover m)

theorem Update.listed {h : Hierarchy} {s s' : State} (hupdate : Update h s s')
    (hs : Listed s) : Listed s' := by
  cases hupdate with
  | record e => exact ⟨hs.nodup, hs.mem_iff⟩
  | construct _ _ =>
      obtain ⟨_, heq⟩ := s.observeConstruction_eq _
      rw [heq]
      exact ⟨hs.nodup, hs.mem_iff⟩
  | start _ _ =>
      rw [State.start_eq]
      refine Listed.foldl_discover ?_ _
      exact ⟨hs.nodup, hs.mem_iff⟩
  | edge _ _ => exact ⟨(hs.discover _).nodup, (hs.discover _).mem_iff⟩
  | dispatch _ _ => exact ⟨(hs.discover _).nodup, (hs.discover _).mem_iff⟩
  | diagnose _ _ _ => exact ⟨hs.nodup, hs.mem_iff⟩
  | diagnoseDispatch _ _ => exact ⟨hs.nodup, hs.mem_iff⟩

theorem Step.listed {h : Hierarchy} {s s' : State} (hstep : Step h s s') (hs : Listed s) :
    Listed s' := by
  rcases hstep.update_or_organizes with hupdate | horganizes
  · exact hupdate.listed hs
  · constructor
    · rw [horganizes.discovered]
      exact hs.nodup
    · rw [horganizes.discovered, horganizes.reachable]
      exact hs.mem_iff

/-- What is reachable is an entry or declared by the program. -/
def Declared (h : Hierarchy) (entries : List MethodRef) (s : State) : Prop :=
  ∀ m ∈ s.reachable, m ∈ entries ∨ h.program.Declares m

theorem Update.declared {h : Hierarchy} {entries : List MethodRef} {s s' : State}
    (hupdate : Update h s s') (hs : Declared h entries s) : Declared h entries s' := by
  intro m hm
  cases hupdate with
  | record e => exact hs m hm
  | construct _ _ =>
      obtain ⟨_, heq⟩ := s.observeConstruction_eq _
      rw [heq] at hm
      exact hs m hm
  | start _ _ =>
      rw [State.mem_reachable_start] at hm
      rcases hm with ⟨c, hc, hinit⟩ | hm
      · have hc := (h.mem_superclassChain_iff _ c).1 ((List.takeWhile_subset _) hc)
        exact Or.inr (h.declares_of_staticInitializer? hc hinit)
      · exact hs m hm
  | edge _ htarget =>
      rw [State.mem_reachable_addEdge] at hm
      rcases hm with rfl | hm
      · exact Or.inr (h.declares_of_mem_targets htarget)
      · exact hs m hm
  | dispatch _ htarget =>
      rw [State.mem_reachable_addEdge] at hm
      rcases hm with rfl | hm
      · exact Or.inr (h.declares_of_mem_dispatchedTargets htarget)
      · exact hs m hm
  | diagnose _ _ _ => exact hs m hm
  | diagnoseDispatch _ _ => exact hs m hm

theorem Step.declared {h : Hierarchy} {entries : List MethodRef} {s s' : State}
    (hstep : Step h s s') (hs : Declared h entries s) : Declared h entries s' := by
  rcases hstep.update_or_organizes with hupdate | horganizes
  · exact hupdate.declared hs
  · rw [Declared, horganizes.reachable]
    exact hs

theorem At.mono {h : Hierarchy} {s s' : State} {site : CallSite} {obs : Observation}
    (hat : At h s site obs) (hprocessed : ∀ m ∈ s.processed, m ∈ s'.processed) :
    At h s' site obs :=
  { hat with processed := hprocessed site.caller hat.processed }

/-- A call site stands for a call in a method that has been taken up, and the
sites that dispatch stand for dispatching calls. -/
structure Recorded (h : Hierarchy) (s : State) : Prop where
  call : ∀ (site : CallSite) (r : SiteRecord), s.sites[site]? = some r →
    r.line? = (h.program.method? site.caller).bind (·.line? site.offset) ∧
    ∃ obs, At h s site obs ∧ obs.1.operation = .invoke r.call
  dispatching : ∀ site ∈ s.virtualSites, site ∈ s.sites ∧
    ∃ obs call, At h s site obs ∧ obs.1.operation = .invoke call ∧ call.dispatches = true

theorem Recorded.of_grows {h : Hierarchy} {s s' : State} (hs : Recorded h s)
    (hgrows : Grows s s') : Recorded h s' := by
  constructor
  · intro site r' hr'
    obtain ⟨r, hr, hrecord⟩ := hgrows.exists_record hr'
    obtain ⟨hline, obs, hat, hcall⟩ := hs.call site r hr
    rw [hrecord.call, hrecord.line?]
    exact ⟨hline, obs, hat.of_grows hgrows, hcall⟩
  · intro site hsite
    rw [hgrows.virtualSites] at hsite
    obtain ⟨hopen, obs, call, hat, hcall⟩ := hs.dispatching site hsite
    obtain ⟨r, hr⟩ := (s.mem_sites_iff site).1 hopen
    obtain ⟨r', hr', -⟩ := hgrows.sites site r hr
    exact ⟨(s'.mem_sites_iff site).2 ⟨r', hr'⟩, obs, call, hat.of_grows hgrows, hcall⟩

theorem Recorded.mono {h : Hierarchy} {s s' : State} (hs : Recorded h s)
    (hprocessed : ∀ m ∈ s.processed, m ∈ s'.processed) (hsites : s'.sites = s.sites)
    (hvirtual : s'.virtualSites = s.virtualSites) : Recorded h s' := by
  constructor
  · intro site r hr
    rw [hsites] at hr
    obtain ⟨hline, obs, hat, hcall⟩ := hs.call site r hr
    exact ⟨hline, obs, hat.mono hprocessed, hcall⟩
  · intro site hsite
    rw [hvirtual] at hsite
    obtain ⟨hopen, obs, call, hat, hcall⟩ := hs.dispatching site hsite
    exact ⟨hsites ▸ hopen, obs, call, hat.mono hprocessed, hcall⟩

theorem Recorded.opened {h : Hierarchy} {s : State} (hs : Recorded h s) {site : CallSite}
    {obs : Observation} {call : Invocation} (hat : At h s site obs)
    (hcall : obs.1.operation = .invoke call) {line? : Option Nat}
    (hline : line? = (h.program.method? site.caller).bind (·.line? site.offset)) :
    Recorded h (s.opened site call line?) := by
  have hprocessed : ∀ m ∈ s.processed, m ∈ (s.opened site call line?).processed := by
    intro m hm
    rwa [State.processed_opened]
  constructor
  · intro other r hr
    rw [State.getElem?_sites_opened] at hr
    split at hr
    · next hother =>
        cases hr
        subst hother
        exact ⟨hline, obs, hat.mono hprocessed, hcall⟩
    · obtain ⟨hline, obs, hat, hcall⟩ := hs.call other r hr
      exact ⟨hline, obs, hat.mono hprocessed, hcall⟩
  · intro other hother
    rw [State.mem_sites_opened]
    rcases (s.mem_virtualSites_opened site other call line?).1 hother with
      ⟨rfl, hdispatches⟩ | hother
    · exact ⟨Or.inl rfl, obs, call, hat.mono hprocessed, hcall, hdispatches⟩
    · obtain ⟨hopen, obs, call, hat, hcall⟩ := hs.dispatching other hother
      exact ⟨Or.inr hopen, obs, call, hat.mono hprocessed, hcall⟩

theorem Step.recorded {h : Hierarchy} {s s' : State} (hstep : Step h s s')
    (hs : Recorded h s) : Recorded h s' := by
  cases hstep with
  | update hupdate => exact hs.of_grows hupdate.grows
  | @enter m method obs hm hmethod hobs =>
      cases hoperation : obs.1.operation with
      | invoke call =>
          have hat : At h s ⟨m, obs.1.offset⟩ obs := ⟨hm, hobs, rfl⟩
          exact hs.opened hat hoperation (by simp [hmethod])
      | _ => exact hs
  | take _ _ => exact hs.mono (fun m hm => List.mem_append_left _ hm) rfl rfl
  | visit _ => exact hs.mono (fun _ hm => hm) rfl rfl
  | pass _ _ _ => exact hs.mono (fun _ hm => hm) rfl rfl

/-- The latest pass started at a generation that has been reached. -/
def Paced (s : State) : Prop := s.resolvedAt ≤ s.strategy.generation

theorem Paced.of_grows {s s' : State} (hs : Paced s) (hgrows : Grows s s') : Paced s' := by
  rw [Paced, hgrows.resolvedAt]
  exact le_trans hs hgrows.generation_le

theorem Step.paced {h : Hierarchy} {s s' : State} (hstep : Step h s s') (hs : Paced s) :
    Paced s' := by
  cases hstep with
  | update hupdate => exact hs.of_grows hupdate.grows
  | enter _ _ _ =>
      obtain ⟨_, _, heq⟩ := s.entered_eq _ _ _
      rw [heq]
      exact hs
  | take _ _ => exact hs
  | visit _ => exact hs
  | pass _ _ _ => exact le_refl s.strategy.generation

end Construction

end JvmReach
