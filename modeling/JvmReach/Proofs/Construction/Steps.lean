import JvmReach.Construction.Build
import JvmReach.Proofs.Construction.Updates

/-!
# Constructions as steps

A construction takes small steps: it takes up the next pending method, enters an
instruction of a method it has taken up, updates the state, starts a pass, or
turns to the next site of a pass. Whatever a run leaves behind, finished or
interrupted, is reached by such steps; so what every step keeps holds in every
outcome.
-/

namespace JvmReach.Construction

inductive Step (h : Hierarchy) : State → State → Prop
  | update {s s' : State} (hupdate : Update h s s') : Step h s s'
  | enter {s : State} {m : MethodRef} {method : Method} {obs : Observation}
      (hm : m ∈ s.processed) (hmethod : h.program.method? m = some method)
      (hobs : obs ∈ h.program.observed m) :
      Step h s (s.entered ⟨m, obs.1.offset⟩ obs.1.operation (method.line? obs.1.offset))
  | take {s : State} {m : MethodRef} {rest : List MethodRef} (hsweep : s.sweep = [])
      (hpending : s.pending = m :: rest) :
      Step h s { s with processed := s.processed ++ [m], pending := rest }
  | visit {s : State} {site : CallSite} {rest : List CallSite}
      (hsweep : s.sweep = site :: rest) : Step h s { s with sweep := rest }
  | pass {s : State} (log : List Event) (hsweep : s.sweep = []) (hpending : s.pending = []) :
      Step h s { s with
        resolvedAt := s.strategy.generation, sweep := s.virtualSites, log := log }

abbrev Steps (h : Hierarchy) : State → State → Prop := Relation.ReflTransGen (Step h)

theorem Updates.steps {h : Hierarchy} {s s' : State} (hupdates : Updates h s s') :
    Steps h s s' :=
  Relation.ReflTransGen.mono (fun _ _ hupdate => Step.update hupdate) _ _ hupdates

theorem Steps.of_eq_ok {h : Hierarchy} {s s' : State} {p : Progress}
    (hsteps : Steps h s p.state) (hok : p = .ok s') : Steps h s s' := by
  rwa [hok] at hsteps

/-- What each step keeps holds after all steps. -/
theorem Steps.keeps {h : Hierarchy} {P : State → Prop}
    (hstep : ∀ s s', Step h s s' → P s → P s') {s s' : State} (hsteps : Steps h s s')
    (hs : P s) : P s' := by
  induction hsteps with
  | refl => exact hs
  | tail _ hlast ih => exact hstep _ _ hlast ih

def Turn.state : Turn → State
  | continued s => s
  | finished s => s
  | halted halt => halt.state

theorem Turn.state_ofProgress (p : Progress) : (Turn.ofProgress p).state = p.state := by
  cases p <;> rfl

theorem Turn.eq_ok_of_ofProgress {p : Progress} {s : State}
    (hp : Turn.ofProgress p = .continued s) : p = .ok s := by
  cases p with
  | ok s' =>
      cases hp
      rfl
  | error halt => cases hp

theorem Turn.ofProgress_ne_finished (p : Progress) (s : State) :
    Turn.ofProgress p ≠ .finished s := by
  cases p <;> exact fun hp => nomatch hp

/-- Only sites that dispatch are looked at again. -/
def Swept (s : State) : Prop := ∀ site ∈ s.sweep, site ∈ s.virtualSites

namespace State

variable {h : Hierarchy} {o : Options}

theorem entered_eq (s : State) (site : CallSite) (operation : Operation)
    (line? : Option Nat) : ∃ sites virtualSites, s.entered site operation line? =
      { s with sites := sites, virtualSites := virtualSites } := by
  cases operation with
  | invoke call =>
      simp only [entered, opened]
      split
      · exact ⟨_, _, rfl⟩
      · exact ⟨_, _, rfl⟩
  | _ => exact ⟨_, _, rfl⟩

theorem virtualSites_entered (s : State) (site : CallSite) (operation : Operation)
    (line? : Option Nat) :
    (s.entered site operation line?).virtualSites = s.virtualSites ∨
      (s.entered site operation line?).virtualSites = s.virtualSites ++ [site] := by
  cases operation with
  | invoke call =>
      simp only [entered, opened]
      split
      · exact Or.inr rfl
      · exact Or.inl rfl
  | _ => exact Or.inl rfl

@[simp] theorem sweep_entered (s : State) (site : CallSite) (operation : Operation)
    (line? : Option Nat) : (s.entered site operation line?).sweep = s.sweep := by
  obtain ⟨_, _, heq⟩ := s.entered_eq site operation line?
  rw [heq]

theorem steps_scan {m : MethodRef} {method : Method} {s : State} {obs : Observation}
    (hm : m ∈ s.processed) (hmethod : h.program.method? m = some method)
    (hobs : obs ∈ h.program.observed m) : Steps h s (scan h o m method s obs).state :=
  .head (.enter hm hmethod hobs) (updates_scan ⟨hm, hobs, rfl⟩).steps

theorem processed_scan {m : MethodRef} {method : Method} {s s' : State} {obs : Observation}
    (hm : m ∈ s.processed) (hobs : obs ∈ h.program.observed m)
    (hscan : scan h o m method s obs = .ok s') : s'.processed = s.processed := by
  have hupdates := (updates_scan ⟨hm, hobs, rfl⟩).of_eq_ok hscan
  exact hupdates.grows.processed.trans (s.processed_entered _ _ _)

theorem exists_of_foldlM_scan_cons {m : MethodRef} {method : Method} {s s' : State}
    {obs : Observation} {observed : List Observation}
    (hok : (obs :: observed).foldlM (scan h o m method) s = .ok s') :
    ∃ s₁, scan h o m method s obs = .ok s₁ ∧
      observed.foldlM (scan h o m method) s₁ = .ok s' := by
  rw [List.foldlM_cons] at hok
  cases hscan : scan h o m method s obs with
  | error halt => simp [hscan, bind, Except.bind] at hok
  | ok s₁ =>
      rw [hscan] at hok
      exact ⟨s₁, rfl, hok⟩

/-- What each scan keeps, of the observations still to come and of the state, holds when
all of them are scanned. -/
theorem foldlM_scan_keeps {m : MethodRef} {method : Method} {P : List Observation → State → Prop}
    (hkeeps : ∀ {obs rest s s'}, m ∈ s.processed → obs ∈ h.program.observed m →
      scan h o m method s obs = .ok s' → P (obs :: rest) s → P rest s')
    {observed : List Observation} {s s' : State} (hm : m ∈ s.processed)
    (hobserved : ∀ obs ∈ observed, obs ∈ h.program.observed m)
    (hok : observed.foldlM (scan h o m method) s = .ok s') (hs : P observed s) : P [] s' := by
  induction observed generalizing s with
  | nil =>
      cases hok
      exact hs
  | cons obs rest ih =>
      obtain ⟨s₁, hscan, hrest⟩ := exists_of_foldlM_scan_cons hok
      have hobs := hobserved obs (by simp)
      exact ih (processed_scan hm hobs hscan ▸ hm)
        (fun obs hobs => hobserved obs (by simp [hobs])) hrest (hkeeps hm hobs hscan hs)

theorem steps_foldlM_scan {m : MethodRef} {method : Method} {s : State}
    {observed : List Observation} (hm : m ∈ s.processed)
    (hmethod : h.program.method? m = some method)
    (hobserved : ∀ obs ∈ observed, obs ∈ h.program.observed m) :
    Steps h s (Progress.state (observed.foldlM (scan h o m method) s)) := by
  induction observed generalizing s with
  | nil => exact .refl
  | cons obs rest ih =>
      have hobs := hobserved obs (by simp)
      have hfirst := steps_scan (o := o) hm hmethod hobs
      rw [List.foldlM_cons]
      cases hscan : scan h o m method s obs with
      | error halt => simpa [hscan, bind, Except.bind] using hfirst
      | ok s' =>
          rw [hscan] at hfirst
          have hm' : m ∈ s'.processed := processed_scan hm hobs hscan ▸ hm
          exact hfirst.trans (ih hm' fun obs hobs => hobserved obs (by simp [hobs]))

theorem steps_of_scan_eq_ok {m : MethodRef} {method : Method} {s s' : State} {obs : Observation}
    (hm : m ∈ s.processed) (hmethod : h.program.method? m = some method)
    (hobs : obs ∈ h.program.observed m) (hok : scan h o m method s obs = .ok s') :
    Steps h s s' :=
  (steps_scan hm hmethod hobs).of_eq_ok hok

theorem observed_eq {m : MethodRef} {method : Method} {body : Body}
    (hmethod : h.program.method? m = some method) (hbody : method.body? = some body) :
    h.program.observed m = body.observed := by
  simp [Program.observed, Program.body?, hmethod, hbody]

theorem observed_of_method?_eq_none {m : MethodRef} (hmethod : h.program.method? m = none) :
    h.program.observed m = [] := by
  simp [Program.observed, Program.body?, hmethod]

/-- A method is processed by scanning its observations in order. -/
theorem process_eq (h : Hierarchy) (o : Options) (s : State) (m : MethodRef) :
    s.process h o m =
      match h.program.method? m with
      | none => .ok s
      | some method => (h.program.observed m).foldlM (scan h o m method) s := by
  rw [process]
  cases hmethod : h.program.method? m with
  | none => rfl
  | some method =>
      cases hbody : method.body? with
      | none => simp [Program.observed, Program.body?, hmethod, hbody, pure, Except.pure]
      | some body => simp only [hbody, observed_eq hmethod hbody]

theorem process_cases {m : MethodRef} {s s' : State} (hok : s.process h o m = .ok s') :
    (h.program.observed m = [] ∧ s' = s) ∨
      ∃ method, h.program.method? m = some method ∧
        (h.program.observed m).foldlM (scan h o m method) s = .ok s' := by
  rw [process_eq] at hok
  cases hmethod : h.program.method? m with
  | none =>
      simp only [hmethod] at hok
      cases hok
      exact Or.inl ⟨observed_of_method?_eq_none hmethod, rfl⟩
  | some method =>
      simp only [hmethod] at hok
      exact Or.inr ⟨method, rfl, hok⟩

theorem steps_process {m : MethodRef} {s : State} (hm : m ∈ s.processed) :
    Steps h s (s.process h o m).state := by
  rw [process_eq]
  cases hmethod : h.program.method? m with
  | none => exact .refl
  | some method => exact steps_foldlM_scan hm hmethod fun _ hobs => hobs

theorem steps_revisit {s : State} {site : CallSite} (hsite : site ∈ s.virtualSites) :
    Steps h s (s.revisit h o site).state := by
  rw [revisit]
  cases hr : s.sites[site]? with
  | none => exact .refl
  | some r => exact (updates_resolveVirtual ⟨hsite, r, hr, rfl⟩).steps

theorem steps_advance {s : State} (hswept : Swept s) (elapsed : Nat) :
    Steps h s (s.advance h o elapsed).state := by
  rw [advance]
  split
  · next site rest hsweep =>
      split
      · exact .refl
      · rw [Turn.state_ofProgress]
        have hsite : site ∈ s.virtualSites := hswept site (by simp [hsweep])
        exact .head (.visit hsweep) (steps_revisit hsite)
  · next m rest hsweep hpending =>
      split
      · exact .refl
      · rw [Turn.state_ofProgress]
        exact .head (.take hsweep hpending) (steps_process (by simp))
  · next hsweep hpending =>
      split
      · exact .refl
      · exact .single (.pass _ hsweep hpending)

end State

/-- The three ways for a construction to go on: a site of the pass is resolved
again, a pending method is processed, or a pass starts. -/
theorem State.continued_cases {h : Hierarchy} {o : Options} {elapsed : Nat} {s s' : State}
    (hadvance : s.advance h o elapsed = .continued s') :
    (∃ site rest, s.sweep = site :: rest ∧
      { s with sweep := rest }.revisit h o site = .ok s') ∨
    (∃ m rest, s.sweep = [] ∧ s.pending = m :: rest ∧
      { s with processed := s.processed ++ [m], pending := rest }.process h o m = .ok s') ∨
    (s.sweep = [] ∧ s.pending = [] ∧ s.strategy.generation ≠ s.resolvedAt ∧
      ∃ log, s' = { s with
        resolvedAt := s.strategy.generation, sweep := s.virtualSites, log := log }) := by
  rw [advance] at hadvance
  split at hadvance
  · next site rest hsweep =>
      split at hadvance
      · cases hadvance
      · exact Or.inl ⟨site, rest, hsweep, Turn.eq_ok_of_ofProgress hadvance⟩
  · next m rest hsweep hpending =>
      split at hadvance
      · cases hadvance
      · exact Or.inr (Or.inl ⟨m, rest, hsweep, hpending, Turn.eq_ok_of_ofProgress hadvance⟩)
  · next hsweep hpending =>
      split at hadvance
      · cases hadvance
      · next hnews =>
          cases hadvance
          exact Or.inr (Or.inr ⟨hsweep, hpending, hnews, _, rfl⟩)

/-- A construction finishes when nothing is left to do and nothing new is admitted. -/
theorem State.finished_cases {h : Hierarchy} {o : Options} {elapsed : Nat} {s s' : State}
    (hadvance : s.advance h o elapsed = .finished s') :
    s' = s ∧ s.sweep = [] ∧ s.pending = [] ∧ s.strategy.generation = s.resolvedAt := by
  rw [advance] at hadvance
  split at hadvance
  · split at hadvance
    · cases hadvance
    · exact absurd hadvance (Turn.ofProgress_ne_finished _ _)
  · split at hadvance
    · cases hadvance
    · exact absurd hadvance (Turn.ofProgress_ne_finished _ _)
  · next hsweep hpending =>
      split at hadvance
      · next hgeneration =>
          cases hadvance
          exact ⟨rfl, hsweep, hpending, hgeneration⟩
      · cases hadvance

/-- Reachable, started and admitted stays what was, and nothing is newly discovered. -/
structure Organizes (s s' : State) : Prop where
  reachable : s'.reachable = s.reachable
  discovered : s'.discovered = s.discovered
  started : s'.started = s.started
  strategy : s'.strategy = s.strategy

/-- A step that is no update only organizes the work. -/
theorem Step.update_or_organizes {h : Hierarchy} {s s' : State} (hstep : Step h s s') :
    Update h s s' ∨ Organizes s s' := by
  cases hstep with
  | update hupdate => exact Or.inl hupdate
  | enter _ _ _ =>
      obtain ⟨_, _, heq⟩ := s.entered_eq _ _ _
      rw [heq]
      exact Or.inr ⟨rfl, rfl, rfl, rfl⟩
  | take _ hpending => exact Or.inr ⟨rfl, by simp [State.discovered, hpending], rfl, rfl⟩
  | visit _ => exact Or.inr ⟨rfl, rfl, rfl, rfl⟩
  | pass _ _ _ => exact Or.inr ⟨rfl, rfl, rfl, rfl⟩

theorem Step.swept {h : Hierarchy} {s s' : State} (hstep : Step h s s') (hswept : Swept s) :
    Swept s' := by
  cases hstep with
  | update hupdate =>
      rw [Swept, hupdate.grows.sweep, hupdate.grows.virtualSites]
      exact hswept
  | enter _ _ _ =>
      intro site hsite
      rw [State.sweep_entered] at hsite
      rcases s.virtualSites_entered _ _ _ with heq | heq
      · rw [heq]
        exact hswept site hsite
      · rw [heq]
        exact List.mem_append_left _ (hswept site hsite)
  | take _ _ => exact hswept
  | visit hsweep =>
      intro site hsite
      exact hswept site (by simp [hsweep, hsite])
  | pass _ _ _ =>
      intro site hsite
      exact hsite

/-- Every outcome of a run is reached by steps. -/
theorem steps_run (h : Hierarchy) (o : Options) (clock : Nat → Nat) (turns k : Nat) {s : State}
    (hswept : Swept s) : Steps h s (run h o clock turns k s).state := by
  induction turns generalizing k s with
  | zero => exact .refl
  | succ turns ih =>
      have hturn := State.steps_advance (h := h) (o := o) hswept (clock k)
      rw [run]
      cases hadvance : s.advance h o (clock k) with
      | continued s' =>
          rw [hadvance] at hturn
          have hswept' := hturn.keeps (fun _ _ => Step.swept) hswept
          exact hturn.trans (ih (k + 1) hswept')
      | finished s' => rwa [hadvance] at hturn
      | halted halt => rwa [hadvance] at hturn

/-- What every turn keeps holds after a run that is not interrupted. -/
theorem run_keeps {h : Hierarchy} {o : Options} {P : State → Prop}
    (hturn : ∀ s s' elapsed, s.advance h o elapsed = .continued s' → P s → P s')
    (clock : Nat → Nat) (turns k : Nat) {s s' : State}
    (hrun : run h o clock turns k s = .ok s') (hs : P s) : P s' := by
  induction turns generalizing k s with
  | zero =>
      cases hrun
      exact hs
  | succ turns ih =>
      rw [run] at hrun
      cases hadvance : s.advance h o (clock k) with
      | continued s₁ =>
          rw [hadvance] at hrun
          exact ih (k + 1) hrun (hturn s s₁ (clock k) hadvance hs)
      | finished s₁ =>
          rw [hadvance] at hrun
          cases hrun
          rw [(State.finished_cases hadvance).1]
          exact hs
      | halted halt =>
          rw [hadvance] at hrun
          cases hrun

end JvmReach.Construction
