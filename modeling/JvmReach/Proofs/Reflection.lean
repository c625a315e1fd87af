import JvmReach.Reflection
import Mathlib.Data.List.Basic

/-!
# What the tracker follows

The tracker is a machine with three slots. What it tells at a call can be said without it:
by the operations since the call before, which are the window of a position, and by what that
call was. Each slot holds what these determine, and one more operation keeps this so. A call
is where a new window starts, with the class that was started there or the constructor that
was looked up there.
-/

namespace JvmReach

namespace Operation

/-- The text that is loaded. -/
def text? : Operation → Option String
  | constString value => some value
  | _ => none

/-- The class that is loaded as a value. -/
def classValue? : Operation → Option TypeName
  | constClass type => some type
  | _ => none

end Operation

namespace Reflection

def forNames : List MethodRef :=
  [⟨classType, "forName", "(Ljava/lang/String;)Ljava/lang/Class;"⟩,
    ⟨classType, "forName", "(Ljava/lang/String;ZLjava/lang/ClassLoader;)Ljava/lang/Class;"⟩]

def constructorLookups : List MethodRef :=
  [⟨classType, "getConstructor", "([Ljava/lang/Class;)Ljava/lang/reflect/Constructor;"⟩,
    ⟨classType, "getDeclaredConstructor", "([Ljava/lang/Class;)Ljava/lang/reflect/Constructor;"⟩]

def classNewInstance : MethodRef := ⟨classType, "newInstance", "()Ljava/lang/Object;"⟩

def constructorNewInstance : MethodRef :=
  ⟨constructorType, "newInstance", "([Ljava/lang/Object;)Ljava/lang/Object;"⟩

/-- The calls that the tracker tells apart. -/
inductive Shape where
  | forName
  | newInstance
  | constructorLookup
  | constructorCall
  | other

/-- A call has the first shape that its test finds. -/
def shape (call : Invocation) : Shape :=
  if isForName call then .forName
  else if isNewInstance call then .newInstance
  else if isConstructorLookup call then .constructorLookup
  else if isConstructorCall call then .constructorCall
  else .other

theorem isForName_iff (call : Invocation) :
    isForName call = true ↔ call.kind = .static ∧ call.declared ∈ forNames := by
  obtain ⟨⟨owner, name, descriptor⟩, kind, onArray⟩ := call
  simp only [isForName, forNames, Bool.and_eq_true, beq_iff_eq, List.contains_iff_mem,
    List.mem_cons, List.not_mem_nil, or_false, MethodRef.mk.injEq]
  constructor
  · rintro ⟨⟨⟨rfl, rfl⟩, rfl⟩, hdescriptor⟩
    simpa using hdescriptor
  · rintro ⟨rfl, ⟨rfl, rfl, rfl⟩ | ⟨rfl, rfl, rfl⟩⟩
    · simp
    · simp

theorem isConstructorLookup_iff (call : Invocation) :
    isConstructorLookup call = true ↔ call.declared ∈ constructorLookups := by
  obtain ⟨⟨owner, name, descriptor⟩, kind, onArray⟩ := call
  simp only [isConstructorLookup, constructorLookups, Bool.and_eq_true, beq_iff_eq,
    List.contains_iff_mem, List.mem_cons, List.not_mem_nil, or_false, MethodRef.mk.injEq]
  constructor
  · rintro ⟨⟨rfl, rfl | rfl⟩, rfl⟩
    · simp
    · simp
  · rintro (⟨rfl, rfl, rfl⟩ | ⟨rfl, rfl, rfl⟩)
    · simp
    · simp

/-- What the test that has found the shape of a call tells of its reference. -/
theorem declared_of_shape (call : Invocation) :
    match shape call with
    | .forName => call.kind = .static ∧ call.declared ∈ forNames
    | .newInstance => call.declared = classNewInstance
    | .constructorLookup => call.declared ∈ constructorLookups
    | .constructorCall => call.declared = constructorNewInstance
    | .other => True := by
  rw [shape]
  split_ifs with hname hnew hlookup hcall
  · exact (isForName_iff call).1 hname
  · exact beq_iff_eq.1 hnew
  · exact (isConstructorLookup_iff call).1 hlookup
  · exact beq_iff_eq.1 hcall
  · trivial

-- No reference has two shapes, so each shape is told by the reference.

theorem shape_eq_forName_iff (call : Invocation) :
    shape call = .forName ↔ call.kind = .static ∧ call.declared ∈ forNames := by
  constructor
  · intro h
    simpa [h] using declared_of_shape call
  · intro h
    rw [shape, if_pos ((isForName_iff call).2 h)]

theorem shape_eq_newInstance_iff (call : Invocation) :
    shape call = .newInstance ↔ call.declared = classNewInstance := by
  constructor
  · intro h
    simpa [h] using declared_of_shape call
  · obtain ⟨declared, kind, onArray⟩ := call
    rintro rfl
    rfl

theorem shape_eq_constructorLookup_iff (call : Invocation) :
    shape call = .constructorLookup ↔ call.declared ∈ constructorLookups := by
  constructor
  · intro h
    simpa [h] using declared_of_shape call
  · obtain ⟨declared, kind, onArray⟩ := call
    intro h
    rcases List.mem_pair.1 h with rfl | rfl
    · rfl
    · rfl

theorem shape_eq_constructorCall_iff (call : Invocation) :
    shape call = .constructorCall ↔ call.declared = constructorNewInstance := by
  constructor
  · intro h
    simpa [h] using declared_of_shape call
  · obtain ⟨declared, kind, onArray⟩ := call
    rintro rfl
    rfl

/-- The position of the last call before position `k`. -/
def previousCall? (ops : List Operation) : Nat → Option Nat
  | 0 => none
  | k + 1 =>
      match ops[k]? with
      | some (.invoke _) => some k
      | _ => previousCall? ops k

/-- The operations strictly between that call and position `k`, or all of them before `k`. -/
def window (ops : List Operation) (k : Nat) : List Operation :=
  match previousCall? ops k with
  | none => ops.take k
  | some j => (ops.take k).drop (j + 1)

def texts (ops : List Operation) (k : Nat) : List String :=
  (window ops k).filterMap Operation.text?

def classValues (ops : List Operation) (k : Nat) : List TypeName :=
  (window ops k).filterMap Operation.classValue?

/-- The effect at position `k` if a fresh tracker observes the operations in turn. -/
def effectAt? (ops : List Operation) (k : Nat) : Option Effect :=
  (Tracker.effects {} ops)[k]?.join

/-- The class that a call starts. -/
def Effect.started? : Effect → Option TypeName
  | start type => some type
  | construct _ _ => none

/-- The class that the call before position `k` has started. -/
def startedBefore? (ops : List Operation) (k : Nat) : Option TypeName :=
  (previousCall? ops k).bind fun j => (effectAt? ops j).bind Effect.started?

/-- The class value is `c` at position `k`: it was started by the call before and no class was
loaded since, or that call started none and `c` is the only one loaded since. -/
def HoldsClass (ops : List Operation) (k : Nat) (c : TypeName) : Prop :=
  match startedBefore? ops k with
  | some c' => classValues ops k = [] ∧ c = c'
  | none => classValues ops k = [c]

/-- The call before position `k` looked up a constructor of `c`. -/
def LookedUp (ops : List Operation) (k : Nat) (c : TypeName) : Prop :=
  ∃ j call, previousCall? ops k = some j ∧ ops[j]? = some (.invoke call) ∧
    call.declared ∈ constructorLookups ∧ HoldsClass ops j c

theorem previousCall?_of_call {ops : List Operation} {k : Nat} {call : Invocation}
    (h : ops[k]? = some (.invoke call)) : previousCall? ops (k + 1) = some k := by
  rw [previousCall?, h]

theorem previousCall?_of_not_call {ops : List Operation} {k : Nat}
    (h : ∀ call, ops[k]? ≠ some (.invoke call)) :
    previousCall? ops (k + 1) = previousCall? ops k := by
  rw [previousCall?]
  split
  · next call hcall => exact absurd hcall (h call)
  · rfl

theorem previousCall?_eq_some_iff (ops : List Operation) (k j : Nat) :
    previousCall? ops k = some j ↔ j < k ∧ (∃ call, ops[j]? = some (.invoke call)) ∧
      ∀ i, j < i → i < k → ∀ call, ops[i]? ≠ some (.invoke call) := by
  induction k with
  | zero => simp [previousCall?]
  | succ k ih =>
      by_cases hcall : ∃ call, ops[k]? = some (.invoke call)
      · obtain ⟨call, hcall⟩ := hcall
        rw [previousCall?_of_call hcall, Option.some.injEq]
        constructor
        · rintro rfl
          exact ⟨by omega, ⟨call, hcall⟩, fun i _ _ => by omega⟩
        · rintro ⟨hlt, -, hlast⟩
          by_contra hne
          exact hlast k (by omega) (by omega) call hcall
      · rw [not_exists] at hcall
        rw [previousCall?_of_not_call hcall, ih]
        constructor
        · rintro ⟨hlt, hj, hlast⟩
          refine ⟨by omega, hj, fun i hji hik => ?_⟩
          rcases Nat.lt_succ_iff_lt_or_eq.1 hik with hik | rfl
          · exact hlast i hji hik
          · exact hcall
        · rintro ⟨hlt, ⟨call, hj⟩, hlast⟩
          have hne : j ≠ k := by
            rintro rfl
            exact hcall call hj
          exact ⟨by omega, ⟨call, hj⟩, fun i hji hik => hlast i hji (by omega)⟩

theorem window_of_call {ops : List Operation} {k : Nat} {call : Invocation}
    (h : ops[k]? = some (.invoke call)) : window ops (k + 1) = [] := by
  rw [window, previousCall?_of_call h]
  exact List.drop_eq_nil_of_le (List.length_take_le _ _)

theorem window_of_not_call {ops : List Operation} {k : Nat}
    (h : ∀ call, ops[k]? ≠ some (.invoke call)) :
    window ops (k + 1) = window ops k ++ ops[k]?.toList := by
  rw [window, window, previousCall?_of_not_call h, List.take_add_one]
  cases hprevious : previousCall? ops k with
  | none => rfl
  | some j =>
      obtain ⟨hlt, ⟨call, hj⟩, -⟩ := (previousCall?_eq_some_iff ops k j).1 hprevious
      have hlength := (List.getElem?_eq_some_iff.1 hj).1
      apply List.drop_append_of_le_length
      rw [List.length_take]
      omega

namespace Slot

/-- The slot after some constants have been put into it one by one. -/
def ofConstants (values : List String) : Slot :=
  values.foldl (fun slot value => slot.put value) .empty

/-- The slot after an operation that loads a constant into it or none. -/
def load (slot : Slot) : Option String → Slot
  | some value => slot.put value
  | none => slot

theorem ofConstants_append (values : List String) (value? : Option String) :
    ofConstants (values ++ value?.toList) = (ofConstants values).load value? := by
  rw [ofConstants, List.foldl_append]
  cases value? with
  | none => rfl
  | some value => rfl

theorem foldl_put_ambiguous (values : List String) :
    values.foldl (fun slot value => put value slot) ambiguous = ambiguous := by
  induction values with
  | nil => rfl
  | cons value rest ih => exact ih

theorem ofOption_eq_ofConstants (value? : Option String) :
    ofOption value? = ofConstants value?.toList := by
  cases value? with
  | none => rfl
  | some value => rfl

/-- A value is known if it is the only one. -/
theorem value?_ofConstants (values : List String) (value : String) :
    (ofConstants values).value? = some value ↔ values = [value] := by
  match values with
  | [] => simp [ofConstants, value?]
  | [first] => simp [ofConstants, put, value?]
  | first :: second :: rest =>
      have hslot : ofConstants (first :: second :: rest) = .ambiguous := foldl_put_ambiguous rest
      simp [hslot, value?]

theorem value?_ofOption (value? : Option String) : (ofOption value?).value? = value? := by
  cases value? with
  | none => rfl
  | some value => rfl

end Slot

theorem internalName?_eq_some_iff (binary : String) (c : TypeName) :
    internalName? binary = some c ↔ binary ≠ "" ∧ binary.toList.head? ≠ some '[' ∧
      c.toList = binary.toList.map fun ch => if ch = '.' then '/' else ch := by
  rw [internalName?, ne_eq, ← String.toList_eq_nil_iff]
  split
  · next hnil => simp [hnil]
  · next rest harray => simp [harray]
  · next hnil harray =>
      cases hchars : binary.toList with
      | nil => exact absurd hchars hnil
      | cons first rest =>
          have hfirst : first ≠ '[' := by
            rintro rfl
            exact harray rest hchars
          rw [Option.some.injEq, ← String.toList_inj, String.toList_ofList, eq_comm]
          simp [hfirst]

/-- A class that was started counts as the first of the class values. -/
theorem holdsClass_iff (ops : List Operation) (k : Nat) (c : TypeName) :
    HoldsClass ops k c ↔ (startedBefore? ops k).toList ++ classValues ops k = [c] := by
  rw [HoldsClass]
  cases startedBefore? ops k with
  | none => simp
  | some c' =>
      rw [Option.toList_some, List.singleton_append, List.cons.injEq, and_comm]
      exact and_congr_right fun _ => eq_comm

namespace Tracker

variable (t : Tracker) (call : Invocation)

theorem observeCall_eq : t.observeCall call =
    match shape call with
    | .forName =>
        ({ type := .ofOption (t.name.value?.bind internalName?) },
          (t.name.value?.bind internalName?).map .start)
    | .newInstance => ({}, t.type.value?.map (.construct · .noArgument))
    | .constructorLookup => ({ constructorOf := .ofOption t.type.value? }, none)
    | .constructorCall => ({}, t.constructorOf.value?.map (.construct · .any))
    | .other => ({}, none) := by
  rw [observeCall, shape]
  split_ifs <;> rfl

theorem observe_of_not_call {op : Operation} (h : ∀ call, op ≠ .invoke call) :
    t.observe op =
      ({ t with name := t.name.load op.text?, type := t.type.load op.classValue? }, none) := by
  cases op with
  | invoke call => exact absurd rfl (h call)
  | _ => rfl

/-- The tracker after it has observed some operations. -/
def after (t : Tracker) (ops : List Operation) : Tracker :=
  ops.foldl (fun t op => (t.observe op).1) t

@[simp] theorem length_effects (t : Tracker) (operations : List Operation) :
    (t.effects operations).length = operations.length := by
  induction operations generalizing t with
  | nil => rfl
  | cons operation rest ih => simp [effects, ih]

theorem getElem?_effects (t : Tracker) (ops : List Operation) (k : Nat) :
    (t.effects ops)[k]? = ops[k]?.map fun op => ((t.after (ops.take k)).observe op).2 := by
  induction ops generalizing t k with
  | nil => simp [effects]
  | cons op rest ih =>
      cases k with
      | zero => rfl
      | succ k => exact ih _ _

theorem type_observeCall :
    (t.observeCall call).1.type = .ofOption ((t.observeCall call).2.bind Effect.started?) := by
  rw [observeCall_eq]
  cases shape call with
  | forName => cases t.name.value?.bind internalName? <;> rfl
  | newInstance => cases t.type.value? <;> rfl
  | constructorLookup => rfl
  | constructorCall => cases t.constructorOf.value? <;> rfl
  | other => rfl

theorem name_observeCall : (t.observeCall call).1.name = .empty := by
  rw [observeCall_eq]
  cases shape call <;> rfl

theorem value?_constructorOf_observeCall (c : TypeName) :
    (t.observeCall call).1.constructorOf.value? = some c ↔
      call.declared ∈ constructorLookups ∧ t.type.value? = some c := by
  rw [observeCall_eq, ← shape_eq_constructorLookup_iff]
  cases shape call with
  | constructorLookup => simp [Slot.value?_ofOption]
  | _ => simp [Slot.value?]

theorem observeCall_eq_start_iff (c : TypeName) :
    (t.observeCall call).2 = some (.start c) ↔
      (call.kind = .static ∧ call.declared ∈ forNames) ∧
        ∃ name, t.name.value? = some name ∧ internalName? name = some c := by
  rw [observeCall_eq, ← shape_eq_forName_iff]
  cases shape call with
  | forName => simp [Option.bind_eq_some_iff]
  | _ => simp

theorem observeCall_eq_noArgument_iff (c : TypeName) :
    (t.observeCall call).2 = some (.construct c .noArgument) ↔
      call.declared = classNewInstance ∧ t.type.value? = some c := by
  rw [observeCall_eq, ← shape_eq_newInstance_iff]
  cases shape call with
  | forName => cases t.name.value?.bind internalName? <;> simp
  | _ => simp

theorem observeCall_eq_any_iff (c : TypeName) :
    (t.observeCall call).2 = some (.construct c .any) ↔
      call.declared = constructorNewInstance ∧ t.constructorOf.value? = some c := by
  rw [observeCall_eq, ← shape_eq_constructorCall_iff]
  cases shape call with
  | forName => cases t.name.value?.bind internalName? <;> simp
  | _ => simp

end Tracker

theorem effectAt?_of_getElem? {ops : List Operation} {k : Nat} {op : Operation}
    (h : ops[k]? = some op) :
    effectAt? ops k = ((Tracker.after {} (ops.take k)).observe op).2 := by
  rw [effectAt?, Tracker.getElem?_effects, h]
  rfl

theorem effectAt?_of_not_call {ops : List Operation} {k : Nat}
    (h : ∀ call, ops[k]? ≠ some (.invoke call)) : effectAt? ops k = none := by
  rw [effectAt?, Tracker.getElem?_effects]
  cases hop : ops[k]? with
  | none => rfl
  | some op =>
      cases op with
      | invoke call => exact absurd hop (h call)
      | _ => rfl

/-- The slots of a tracker hold what the operations before position `k` determine. -/
structure Follows (ops : List Operation) (k : Nat) (t : Tracker) : Prop where
  name : t.name = .ofConstants (texts ops k)
  type : t.type = .ofConstants ((startedBefore? ops k).toList ++ classValues ops k)
  constructorOf : ∀ c, t.constructorOf.value? = some c ↔ LookedUp ops k c

namespace Follows

variable {ops : List Operation} {k : Nat} {t : Tracker}

theorem value?_name (h : Follows ops k t) (name : String) :
    t.name.value? = some name ↔ texts ops k = [name] := by
  rw [h.name, Slot.value?_ofConstants]

theorem value?_type (h : Follows ops k t) (c : TypeName) :
    t.type.value? = some c ↔ HoldsClass ops k c := by
  rw [h.type, Slot.value?_ofConstants, holdsClass_iff]

theorem call (h : Follows ops k t) {call : Invocation} (hcall : ops[k]? = some (.invoke call))
    (heffect : effectAt? ops k = (t.observeCall call).2) :
    Follows ops (k + 1) (t.observeCall call).1 where
  name := by
    rw [t.name_observeCall, texts, window_of_call hcall]
    rfl
  type := by
    rw [t.type_observeCall, Slot.ofOption_eq_ofConstants, classValues, window_of_call hcall,
      startedBefore?, previousCall?_of_call hcall, ← heffect]
    simp
  constructorOf c := by
    rw [t.value?_constructorOf_observeCall, h.value?_type, LookedUp]
    simp [previousCall?_of_call hcall, hcall]

theorem operation (h : Follows ops k t) {op : Operation} (hop : ops[k]? = some op)
    (hcall : ∀ call, op ≠ .invoke call) : Follows ops (k + 1) (t.observe op).1 := by
  have hquiet : ∀ call, ops[k]? ≠ some (.invoke call) := by
    intro call heq
    exact hcall call (Option.some.inj (hop.symm.trans heq))
  have hwindow : window ops (k + 1) = window ops k ++ [op] := by
    rw [window_of_not_call hquiet, hop, Option.toList_some]
  have hlast : ∀ {α : Type} (f : Operation → Option α), [op].filterMap f = (f op).toList := by
    intro α f
    rw [List.filterMap_eq_flatMap_toList, List.flatMap_singleton]
  rw [t.observe_of_not_call hcall]
  constructor
  · rw [texts, hwindow, List.filterMap_append, hlast, Slot.ofConstants_append, ← texts, ← h.name]
  · rw [classValues, hwindow, List.filterMap_append, hlast, ← List.append_assoc,
      Slot.ofConstants_append, startedBefore?, previousCall?_of_not_call hquiet, ← startedBefore?,
      ← classValues, ← h.type]
  · intro c
    rw [LookedUp, previousCall?_of_not_call hquiet, ← LookedUp]
    exact h.constructorOf c

end Follows

/-- The tracker that observes the operations before a position follows them. -/
theorem follows_after (ops : List Operation) {k : Nat} (hk : k ≤ ops.length) :
    Follows ops k (Tracker.after {} (ops.take k)) := by
  induction k with
  | zero =>
      refine ⟨rfl, rfl, fun c => ?_⟩
      simp [Tracker.after, LookedUp, previousCall?, Slot.value?]
  | succ k ih =>
      have hop : ops[k]? = some ops[k] := List.getElem?_eq_getElem hk
      have hstep := ih (Nat.le_of_succ_le hk)
      rw [List.take_add_one, Tracker.after, List.foldl_append, ← Tracker.after, hop]
      by_cases hcall : ∃ call, ops[k] = .invoke call
      · obtain ⟨call, hcall⟩ := hcall
        rw [hcall] at hop ⊢
        exact hstep.call hop (effectAt?_of_getElem? hop)
      · exact hstep.operation hop (not_exists.1 hcall)

/-- What a tracker that follows the operations tells at a call is the effect there. -/
theorem effectAt?_eq_some_iff {ops : List Operation} {k : Nat} {effect : Effect}
    {p : Invocation → Prop} (h : ∀ call t, Follows ops k t →
      ((t.observeCall call).2 = some effect ↔ p call)) :
    effectAt? ops k = some effect ↔ ∃ call, ops[k]? = some (.invoke call) ∧ p call := by
  have hcall : ∀ call, ops[k]? = some (.invoke call) →
      (effectAt? ops k = some effect ↔ p call) := by
    intro call hcall
    have hk := (List.getElem?_eq_some_iff.1 hcall).1
    rw [effectAt?_of_getElem? hcall]
    exact h call _ (follows_after ops (Nat.le_of_lt hk))
  constructor
  · intro heffect
    by_contra hnone
    have hquiet : ∀ call, ops[k]? ≠ some (.invoke call) := by
      intro call hop
      exact hnone ⟨call, hop, (hcall call hop).1 heffect⟩
    rw [effectAt?_of_not_call hquiet] at heffect
    cases heffect
  · rintro ⟨call, hop, hp⟩
    exact (hcall call hop).2 hp

/-- The effects, one for each operation, are told by the constants since the call before. -/
theorem effectAt?_exact (ops : List Operation) (k : Nat) :
    (Tracker.effects {} ops).length = ops.length ∧
    (effectAt? ops k = none ∨ ∃ call, ops[k]? = some (.invoke call)) ∧
    ∀ c : TypeName,
      (effectAt? ops k = some (.start c) ↔
        ∃ call, ops[k]? = some (.invoke call) ∧ call.kind = .static ∧ call.declared ∈ forNames ∧
          ∃ name, texts ops k = [name] ∧ name ≠ "" ∧ name.toList.head? ≠ some '[' ∧
            c.toList = name.toList.map fun ch => if ch = '.' then '/' else ch) ∧
      (effectAt? ops k = some (.construct c .noArgument) ↔
        ∃ call, ops[k]? = some (.invoke call) ∧ call.declared = classNewInstance ∧
          HoldsClass ops k c) ∧
      (effectAt? ops k = some (.construct c .any) ↔
        ∃ call, ops[k]? = some (.invoke call) ∧ call.declared = constructorNewInstance ∧
          LookedUp ops k c) := by
  refine ⟨Tracker.length_effects {} ops, ?_, fun c => ⟨?_, ?_, ?_⟩⟩
  · by_cases hcall : ∃ call, ops[k]? = some (.invoke call)
    · exact .inr hcall
    · exact .inl (effectAt?_of_not_call (not_exists.1 hcall))
  · apply effectAt?_eq_some_iff
    intro call t ht
    simp only [t.observeCall_eq_start_iff, ht.value?_name, internalName?_eq_some_iff, and_assoc]
  · apply effectAt?_eq_some_iff
    intro call t ht
    rw [t.observeCall_eq_noArgument_iff, ht.value?_type]
  · apply effectAt?_eq_some_iff
    intro call t ht
    rw [t.observeCall_eq_any_iff, ht.constructorOf]

end Reflection

end JvmReach
