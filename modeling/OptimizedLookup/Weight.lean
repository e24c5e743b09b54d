/-! Weights, and the analyses they belong to. A table stores a weight as a single-precision number
and a path sums its weights in double precision. Both are kept as their bits, since two paths count
as the same only if the bits of their sums are the same. -/
namespace OptimizedLookup

/-- A stored weight: the bits of a single-precision number. -/
structure ArcWeight where
  bits : UInt32
  deriving DecidableEq

structure PathWeight where
  bits : UInt64
  deriving DecidableEq

def PathWeight.ofParts (sign exponent fraction : Nat) : PathWeight :=
  ⟨UInt64.ofNat (sign <<< 63 + exponent <<< 52 + fraction)⟩

namespace ArcWeight

def zero : ArcWeight := ⟨0⟩

def sign (weight : ArcWeight) : Nat := weight.bits.toNat >>> 31
def exponent (weight : ArcWeight) : Nat := weight.bits.toNat >>> 23 % 0x100
def fraction (weight : ArcWeight) : Nat := weight.bits.toNat % 0x800000

def isNaN (weight : ArcWeight) : Bool := weight.exponent = 255 ∧ weight.fraction ≠ 0

/-- The same number in double precision, which holds every single-precision number exactly. The
exponent's bias grows from 127 to 1023 and the fraction by 29 bits; a number too small for its
leading bit to be implicit gets an exponent of its own. What is not a number keeps its sign and
the bits of its fraction, and becomes quiet. -/
def widen (weight : ArcWeight) : PathWeight :=
  let fraction := weight.fraction
  if weight.exponent = 255 then
    let quiet := if fraction = 0 then 0 else 0x8000000000000
    .ofParts weight.sign 2047 ((fraction % 0x400000) <<< 29 + quiet)
  else if weight.exponent ≠ 0 then .ofParts weight.sign (weight.exponent + 896) (fraction <<< 29)
  else if fraction = 0 then .ofParts weight.sign 0 0
  else
    let leading := fraction.log2
    .ofParts weight.sign (leading + 874) ((fraction - 1 <<< leading) <<< (52 - leading))

end ArcWeight

namespace PathWeight

def zero : PathWeight := ⟨0⟩

def toFloat (weight : PathWeight) : Float := Float.ofBits weight.bits

def isNaN (weight : PathWeight) : Bool :=
  0x7FF0000000000000 < weight.bits &&& 0x7FFFFFFFFFFFFFFF

def quiet (weight : PathWeight) : PathWeight := ⟨weight.bits ||| 0x8000000000000⟩

def undefined : PathWeight := ⟨0xFFF8000000000000⟩

/-- The rounded sum. If an operand is not a number the first such operand is the sum. -/
def add (left right : PathWeight) : PathWeight :=
  if left.isNaN then left.quiet
  else if right.isNaN then right.quiet
  else
    let sum := left.toFloat + right.toFloat
    if sum.isNaN then undefined else ⟨sum.toBits⟩

def sameNumber (left right : PathWeight) : Bool := left.toFloat == right.toFloat

end PathWeight

structure Analysis where
  output : String
  weight : PathWeight
  deriving DecidableEq

namespace Analysis

/-- Equality of analyses as values: the weights are compared as numbers. -/
def sameValue (left right : Analysis) : Bool :=
  left.output == right.output && left.weight.sameNumber right.weight

end Analysis

end OptimizedLookup
