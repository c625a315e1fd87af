import JvmReach.Proofs.Construction.Termination

/-!
# When a construction is interrupted

Only a phantom type that is not allowed and a time budget that runs out interrupt
a construction. In the first case the type has just been diagnosed. Where phantom
types are allowed and there is no budget, a construction comes to its end whatever
the clock says.
-/

namespace JvmReach.Construction

/-- The construction stopped at a phantom type that it has a diagnostic of. -/
def Halt.IsPhantom (halt : Halt) : Prop :=
  ∃ d ∈ halt.state.diagnostics, ∃ missing, d.problem = .phantom missing ∧
    halt.cause = .phantom d.site missing

/-- Nothing but a phantom type that is not allowed has interrupted the progress. -/
def Progress.Permitted (o : Options) (p : Progress) : Prop :=
  ∀ halt, p = .error halt → o.phantoms = .fail ∧ halt.IsPhantom

namespace Progress

variable {o : Options} {p : Progress}

theorem permitted_ok (o : Options) (s : State) : Permitted o (.ok s) := by
  intro halt herror
  cases herror

theorem Permitted.bind (hp : Permitted o p) {f : State → Progress}
    (hf : ∀ s, Permitted o (f s)) : Permitted o (p >>= f) := by
  cases p with
  | ok s => exact hf s
  | error halt =>
      rintro _ ⟨⟩
      exact hp halt rfl

theorem Permitted.map (hp : Permitted o p) (f : State → State) :
    Permitted o (Except.map f p) := by
  cases p with
  | ok s => exact permitted_ok o (f s)
  | error halt =>
      rintro _ ⟨⟩
      exact hp halt rfl

theorem Permitted.exists_eq_ok (hp : Permitted o p) (ho : o.phantoms = .allow) :
    ∃ s, p = .ok s := by
  cases p with
  | ok s => exact ⟨s, rfl⟩
  | error halt =>
      obtain ⟨hfail, -⟩ := hp halt rfl
      rw [ho] at hfail
      cases hfail

end Progress

namespace State

open Progress

variable (h : Hierarchy) (o : Options) (s : State) (site : CallSite) (call : Invocation)

theorem permitted_missingType (missing : TypeName) :
    Permitted o (s.missingType o site call missing) := by
  rw [missingType]
  cases hphantoms : o.phantoms with
  | allow => exact permitted_ok o _
  | fail =>
      rintro _ ⟨⟩
      exact ⟨hphantoms, _, Std.ExtTreeSet.mem_insert_self, missing, rfl, rfl⟩

theorem permitted_resolveDirect : Permitted o (s.resolveDirect h o site call) := by
  rw [resolveDirect]
  cases h.resolve call.declared with
  | resolved target => exact permitted_ok o _
  | phantom missing => exact s.permitted_missingType o site call missing
  | notFound => exact permitted_ok o _

theorem permitted_resolveVirtual : Permitted o (s.resolveVirtual h o site call) := by
  rw [resolveVirtual]
  cases h.resolve call.declared with
  | resolved target =>
      dsimp only
      split
      · exact permitted_ok o _
      · exact permitted_ok o _
  | phantom missing => exact (s.permitted_missingType o site call missing).map _
  | notFound => exact permitted_ok o _

theorem permitted_operate (operation : Operation) (line? : Option Nat) :
    Permitted o (s.operate h o site operation line?) := by
  cases operation with
  | invoke call =>
      rw [operate, scanCall_eq]
      split
      · exact permitted_ok o _
      · split
        · exact permitted_resolveVirtual h o _ site call
        · exact permitted_resolveDirect h o _ site call
  | _ => exact permitted_ok o _

theorem permitted_scan (caller : MethodRef) (method : Method) (obs : Observation) :
    Permitted o (scan h o caller method s obs) := by
  rw [scan_eq]
  exact (s.permitted_operate h o _ _ _).map _

theorem permitted_foldlM_scan (caller : MethodRef) (method : Method)
    (observed : List Observation) :
    Permitted o (observed.foldlM (scan h o caller method) s) := by
  induction observed generalizing s with
  | nil => exact permitted_ok o s
  | cons obs rest ih =>
      rw [List.foldlM_cons]
      exact (s.permitted_scan h o caller method obs).bind ih

theorem permitted_process (m : MethodRef) : Permitted o (s.process h o m) := by
  rw [process_eq]
  cases h.program.method? m with
  | none => exact permitted_ok o s
  | some method => exact s.permitted_foldlM_scan h o m method _

theorem permitted_revisit : Permitted o (s.revisit h o site) := by
  rw [revisit]
  cases s.sites[site]? with
  | none => exact permitted_ok o s
  | some r => exact s.permitted_resolveVirtual h o site r.call

/-- Without a time budget only a phantom type halts a turn. -/
theorem isPhantom_of_halted {h : Hierarchy} {o : Options} {s : State} {elapsed : Nat}
    {halt : Halt} (hbudget : o.budget? = none) (hadvance : s.advance h o elapsed = .halted halt) :
    o.phantoms = .fail ∧ halt.IsPhantom := by
  have htime : isOutOfTime o elapsed = false := by simp [isOutOfTime, hbudget]
  have hofProgress : ∀ p : Progress, Permitted o p → Turn.ofProgress p = .halted halt →
      o.phantoms = .fail ∧ halt.IsPhantom := by
    intro p hp hhalted
    cases p with
    | ok s' => cases hhalted
    | error halt' =>
        cases hhalted
        exact hp halt rfl
  rw [advance] at hadvance
  split at hadvance
  · simp only [htime, Bool.false_eq_true, if_false] at hadvance
    exact hofProgress _ (permitted_revisit h o _ _) hadvance
  · simp only [htime, Bool.false_eq_true, if_false] at hadvance
    exact hofProgress _ (permitted_process h o _ _) hadvance
  · split at hadvance <;> cases hadvance

end State

theorem permitted_run (h : Hierarchy) {o : Options} (hbudget : o.budget? = none)
    (clock : Nat → Nat) (turns k : Nat) (s : State) :
    Progress.Permitted o (run h o clock turns k s) := by
  induction turns generalizing k s with
  | zero => exact Progress.permitted_ok o s
  | succ turns ih =>
      rw [run]
      cases hadvance : s.advance h o (clock k) with
      | continued s₁ => exact ih (k + 1) s₁
      | finished s₁ => exact Progress.permitted_ok o s₁
      | halted halt =>
          rintro _ ⟨⟩
          exact State.isPhantom_of_halted hbudget hadvance

theorem exists_run_eq_ok (h : Hierarchy) {o : Options} (ho : o.phantoms = .allow)
    (hbudget : o.budget? = none) (clock : Nat → Nat) (turns k : Nat) (s : State) :
    ∃ s', run h o clock turns k s = .ok s' :=
  (permitted_run h hbudget clock turns k s).exists_eq_ok ho

theorem build_of_run {h : Hierarchy} {o : Options} {clock : Nat → Nat} {strategy : Strategy}
    {entries : List MethodRef} {s : State}
    (hrun : run h o clock (turnBound h entries) 0 (initial h strategy entries) = .ok s) :
    build h o clock strategy entries = outcome none s := by
  rw [build, hrun]
  rfl

/-- An outcome that nothing interrupted is that of a run to its end. -/
theorem exists_run_of_build {h : Hierarchy} {o : Options} {clock : Nat → Nat}
    {strategy : Strategy} {entries : List MethodRef}
    (hbuild : (build h o clock strategy entries).interrupt? = none) :
    ∃ s, run h o clock (turnBound h entries) 0 (initial h strategy entries) = .ok s := by
  rw [build] at hbuild
  cases hrun : run h o clock (turnBound h entries) 0 (initial h strategy entries) with
  | ok s => exact ⟨s, rfl⟩
  | error halt =>
      rw [hrun] at hbuild
      cases hbuild

end JvmReach.Construction
