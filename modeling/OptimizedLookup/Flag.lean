import OptimizedLookup.Encoding

/-! Flag diacritics: symbols such as `@U.CASE.NOM@` that print as nothing and consume nothing, but
set, clear or test a feature of the path they stand on. An operation carries the names of its
feature and value and the numbers that stand for them; numbers are what paths compare. A stack has
the values of all features on a path, one layer for each flag that the path has passed. -/
namespace OptimizedLookup.Flag

inductive Operator where
  | positiveSet
  | negativeSet
  | require
  | disallow
  | clear
  | unification
  deriving DecidableEq

namespace Operator

def letter : Operator → Char
  | .positiveSet => 'P'
  | .negativeSet => 'N'
  | .require => 'R'
  | .disallow => 'D'
  | .clear => 'C'
  | .unification => 'U'

def ofLetter? : Char → Option Operator
  | 'P' => some .positiveSet
  | 'N' => some .negativeSet
  | 'R' => some .require
  | 'D' => some .disallow
  | 'C' => some .clear
  | 'U' => some .unification
  | _ => none

def ofText? (text : String) : Option Operator :=
  match text.toList with
  | [letter] => ofLetter? letter
  | _ => none

theorem ofLetter?_eq_some_iff {letter : Char} {operator : Operator} :
    ofLetter? letter = some operator ↔ letter = operator.letter := by
  constructor
  · intro h
    unfold ofLetter? at h
    split at h <;> cases h <;> rfl
  · rintro rfl
    cases operator <;> rfl

end Operator

structure Spelling where
  operator : Operator
  feature : List Char
  value : List Char
  deriving DecidableEq

/-- The feature and the value in the text between the operator's dot and the closing sign: one
non-empty part, or two parts, each of which may be empty, with a dot between them. -/
def parts? (body : List Char) : Option (List Char × List Char) :=
  match body.span (· ≠ '.') with
  | ([], []) => none
  | (feature, []) => some (feature, [])
  | (feature, _ :: value) => if '.' ∈ value then none else some (feature, value)

/-- Recognises `@OP.FEATURE@` and `@OP.FEATURE.VALUE@`; every other text is an ordinary symbol. -/
def Spelling.ofText? : List Char → Option Spelling
  | '@' :: letter :: '.' :: rest =>
    if rest.getLast? = some '@' then
      match Operator.ofLetter? letter, parts? rest.dropLast with
      | some operator, some (feature, value) => some ⟨operator, feature, value⟩
      | _, _ => none
    else none
  | _ => none

structure Operation where
  operator : Operator
  feature : String
  value : String
  featureNumber : UInt16
  valueNumber : Int16
  deriving DecidableEq

namespace Operation

def hasValue (operation : Operation) : Bool := operation.value ≠ ""

/-- What a feature with the value `current` has after the flag, or none if the flag forbids the
path. A value is a number, its negation the exclusion of that value, and 0 no value. -/
def outcome? (operation : Operation) (current : Int16) : Option Int16 :=
  let value := operation.valueNumber
  match operation.operator with
  | .positiveSet => some value
  | .negativeSet => some (-value)
  | .require =>
    if (if operation.hasValue then current = value else current ≠ 0) then some current else none
  | .disallow =>
    if (if operation.hasValue then current ≠ value else current = 0) then some current else none
  | .clear => some 0
  | .unification =>
    if current = 0 ∨ current = value ∨ (current < 0 ∧ -current ≠ value) then some value else none

end Operation

abbrev Features := Array Int16

structure Stack where
  base : Features
  layers : List Features
  deriving DecidableEq

namespace Stack

def ofSize (size : Nat) : Stack := ⟨Array.replicate size 0, []⟩

def top (stack : Stack) : Features := stack.layers.headD stack.base

def depth (stack : Stack) : Nat := stack.layers.length

/-- Judges a flag by the layer on top. An accepted flag adds a layer; a forbidden one gives none.
A feature past the end of the layers has no value and keeps none. -/
def push? (stack : Stack) (operation : Operation) : Option Stack :=
  let feature := operation.featureNumber.toNat
  let current := stack.top.getD feature 0
  match operation.outcome? current with
  | none => none
  | some next =>
    let layer := if next = current then stack.top else stack.top.setIfInBounds feature next
    some { stack with layers := layer :: stack.layers }

def pop (stack : Stack) : Stack := { stack with layers := stack.layers.tail }

theorem pop_of_push? {stack pushed : Stack} {operation : Operation}
    (accepted : stack.push? operation = some pushed) : pushed.pop = stack := by
  simp only [push?] at accepted
  split at accepted
  · contradiction
  · cases accepted
    rfl

end Stack

end OptimizedLookup.Flag
