import OptimizedLookup.Flag

/-! Flags by the names they are written with. An environment binds features to values, or to
anything but a value; environments are stacked as flag states are, and `Move` and `Observation` say
what can be done to either stack and what can be seen of it. No number of a feature or a value
occurs here. -/
namespace OptimizedLookup.Flag

inductive Polarity where
  | positive
  | negative
  deriving DecidableEq

abbrev Binding := Option (String × Polarity)

abbrev Environment := String → Binding

def Environment.bind (environment : Environment) (feature : String) (binding : Binding) :
    Environment :=
  fun other => if other = feature then binding else environment other

@[simp] theorem Environment.bind_self (environment : Environment) (feature : String) :
    environment.bind feature (environment feature) = environment := by
  funext other
  unfold bind
  by_cases same : other = feature
  · rw [if_pos same, same]
  · rw [if_neg same]

/-- What the flag's feature is bound to afterwards, or none if the flag forbids the path. -/
def Operation.rebind? (operation : Operation) (current : Binding) : Option Binding :=
  let value := operation.value
  match operation.operator with
  | .positiveSet => some (some (value, .positive))
  | .negativeSet => some (some (value, .negative))
  | .clear => some none
  | .require =>
    if (if value = "" then current ≠ none else current = some (value, .positive)) then some current
    else none
  | .disallow =>
    if (if value = "" then current = none else current ≠ some (value, .positive)) then some current
    else none
  | .unification =>
    match current with
    | none => some (some (value, .positive))
    | some (other, .positive) => if other = value then some (some (value, .positive)) else none
    | some (other, .negative) => if other ≠ value then some (some (value, .positive)) else none

structure Environments where
  base : Environment
  layers : List Environment

namespace Environments

def unbound : Environments := ⟨fun _ => none, []⟩

def top (environments : Environments) : Environment :=
  environments.layers.headD environments.base

def depth (environments : Environments) : Nat := environments.layers.length

def push? (environments : Environments) (operation : Operation) : Option Environments :=
  (operation.rebind? (environments.top operation.feature)).map fun binding =>
    { environments with
      layers := environments.top.bind operation.feature binding :: environments.layers }

def pop (environments : Environments) : Environments :=
  { environments with layers := environments.layers.tail }

end Environments

inductive Move where
  | push (operation : Operation)
  | pop

structure Observation where
  accepted : Option Bool
  depth : Nat
  state : Features
  deriving DecidableEq

/-- What is seen of a stack after each move. A flag that is forbidden leaves it as it is. -/
def Stack.trace : Stack → List Move → List Observation
  | _, [] => []
  | stack, .push operation :: moves =>
    match stack.push? operation with
    | some pushed => ⟨some true, pushed.depth, pushed.top⟩ :: pushed.trace moves
    | none => ⟨some false, stack.depth, stack.top⟩ :: stack.trace moves
  | stack, .pop :: moves => ⟨none, stack.pop.depth, stack.pop.top⟩ :: stack.pop.trace moves

def Environments.trace (view : Environment → Features) : Environments → List Move →
    List Observation
  | _, [] => []
  | environments, .push operation :: moves =>
    match environments.push? operation with
    | some pushed => ⟨some true, pushed.depth, view pushed.top⟩ :: pushed.trace view moves
    | none =>
      ⟨some false, environments.depth, view environments.top⟩ :: environments.trace view moves
  | environments, .pop :: moves =>
    ⟨none, environments.pop.depth, view environments.pop.top⟩ :: environments.pop.trace view moves

end OptimizedLookup.Flag
