import JvmReach.Program.Index

/-!
# Receiver strategies

A strategy decides which concrete types take part in virtual dispatch. It is
told about every entry point and every construction in reachable code. Class
hierarchy analysis admits every type from the start. Rapid type analysis admits
the types seen constructed; its generation counts how often that set has grown,
so that equal generations mean equal sets.
-/

namespace JvmReach

inductive Algorithm where
  | cha
  | rta
deriving DecidableEq, Inhabited

/-- A name that no algorithm has, as it was given. -/
structure UnknownAlgorithm where
  name : String
deriving DecidableEq

namespace Algorithm

/-- The algorithms by increasing name. -/
def all : List Algorithm := [cha, rta]

def name : Algorithm → String
  | cha => "CHA"
  | rta => "RTA"

def description : Algorithm → String
  | cha => "Class-hierarchy analysis over the full subtype closure"
  | rta => "Rapid-type analysis restricted to constructed receiver types"

/-- The algorithm of a name; ASCII letters match in either case. -/
def ofName (name : String) : Except UnknownAlgorithm Algorithm :=
  let folded := name.toList.map Char.toUpper
  match all.find? fun a => a.name.toList == folded with
  | some a => .ok a
  | none => .error ⟨name⟩

/-- One line for each algorithm, the names padded to six columns. -/
def help : String :=
  "Strategies:" ++ String.join (all.map fun a =>
    "\n  " ++ a.name ++ String.ofList (List.replicate (6 - a.name.length) ' ') ++ a.description)

end Algorithm

def UnknownAlgorithm.message (e : UnknownAlgorithm) : String :=
  s!"unsupported call graph algorithm: {e.name} (available: " ++
    ", ".intercalate (Algorithm.all.map Algorithm.name) ++ ")"

inductive Strategy where
  | cha
  | rta (instantiated : Std.ExtTreeSet TypeName) (generation : Nat)

namespace Strategy

def ofAlgorithm : Algorithm → Strategy
  | .cha => cha
  | .rta => rta ∅ 0

def algorithm : Strategy → Algorithm
  | cha => .cha
  | rta .. => .rta

def admits : Strategy → TypeName → Bool
  | cha, _ => true
  | rta instantiated _, type => instantiated.contains type

def generation : Strategy → Nat
  | cha => 0
  | rta _ generation => generation

/-- A construction that changes what the strategy admits. -/
def isNews : Strategy → TypeName → Bool
  | cha, _ => false
  | rta instantiated _, type => !instantiated.contains type

def onInstantiation (s : Strategy) (type : TypeName) : Strategy :=
  match s with
  | cha => cha
  | rta instantiated generation =>
      if instantiated.contains type then s
      else rta (instantiated.insert type) (generation + 1)

@[simp] theorem algorithm_onInstantiation (s : Strategy) (type : TypeName) :
    (s.onInstantiation type).algorithm = s.algorithm := by
  cases s with
  | cha => rfl
  | rta instantiated generation =>
      rw [onInstantiation]
      split <;> rfl

theorem onInstantiation_of_not_isNews {s : Strategy} {type : TypeName}
    (h : s.isNews type = false) : s.onInstantiation type = s := by
  cases s with
  | cha => rfl
  | rta instantiated generation =>
      rw [onInstantiation, if_pos]
      simpa [isNews] using h

/-- A construction admits the constructed type, and only that; class hierarchy
analysis admits it in any case. -/
theorem admits_onInstantiation (s : Strategy) (type other : TypeName) :
    (s.onInstantiation type).admits other ↔
      s.admits other ∨ (s.algorithm = .rta ∧ type = other) := by
  cases s with
  | cha => simp [onInstantiation, admits, algorithm]
  | rta instantiated generation =>
      by_cases h : instantiated.contains type = true
      · rw [onInstantiation, if_pos h]
        constructor
        · exact Or.inl
        · rintro (h' | ⟨-, rfl⟩)
          · exact h'
          · exact h
      · rw [onInstantiation, if_neg h]
        simp [admits, algorithm, or_comm]

/-- A constructor among the roots is run by code outside the program, so its
class counts as constructed. -/
def isConstructorRoot (p : Program) (entry : MethodRef) : Bool :=
  (p.method? entry).any Method.isConstructor

def onEntryPoint (s : Strategy) (p : Program) (entry : MethodRef) : Strategy :=
  if isConstructorRoot p entry then s.onInstantiation entry.owner else s

end Strategy

end JvmReach
