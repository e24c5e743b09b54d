import OptimizedLookup.Encoding
import OptimizedLookup.LoadError

/-! The head of a transducer: an optional preamble with metadata of no use for lookup, then 56
bytes of counts and properties. Without the preamble the bytes looked at in search of it are the
first of those 56. -/
namespace OptimizedLookup

inductive Property where
  | weighted
  | deterministic
  | inputDeterministic
  | minimized
  | cyclic
  | hasEpsilonEpsilonTransitions
  | hasInputEpsilonTransitions
  | hasInputEpsilonCycles
  | hasUnweightedInputEpsilonCycles
  deriving DecidableEq

def Property.all : List Property :=
  [.weighted, .deterministic, .inputDeterministic, .minimized, .cyclic,
    .hasEpsilonEpsilonTransitions, .hasInputEpsilonTransitions, .hasInputEpsilonCycles,
    .hasUnweightedInputEpsilonCycles]

def Property.position : Property → Fin 9
  | .weighted => 0
  | .deterministic => 1
  | .inputDeterministic => 2
  | .minimized => 3
  | .cyclic => 4
  | .hasEpsilonEpsilonTransitions => 5
  | .hasInputEpsilonTransitions => 6
  | .hasInputEpsilonCycles => 7
  | .hasUnweightedInputEpsilonCycles => 8

theorem Property.getElem?_all (property : Property) :
    Property.all[property.position.val]? = some property := by
  cases property <;> rfl

/-- What the head of a transducer says about the rest. Its states and transitions are what the
compiler says it counted; lookup never asks for them. -/
structure Header where
  inputSymbols : UInt16
  symbols : UInt16
  indexSize : UInt32
  transitionSize : UInt32
  states : UInt32
  transitions : UInt32
  properties : Vector Bool 9
  byteLength : Nat
  deriving DecidableEq

namespace Header

/-- The bytes that open a preamble: `HFST` and a NUL. -/
def magic : List UInt8 := [0x48, 0x46, 0x53, 0x54, 0x00]

def fixedLength : Nat := 56

def preambleLength : Nat := 8

def has (header : Header) (property : Property) : Bool :=
  header.properties[property.position]

def weighted (header : Header) : Bool := header.has .weighted

def field (block : List UInt8) (offset width : Nat) : Nat :=
  LittleEndian.value ((block.drop offset).take width)

def ofBlock (block : List UInt8) (byteLength : Nat) : Header where
  inputSymbols := UInt16.ofNat (field block 0 2)
  symbols := UInt16.ofNat (field block 2 2)
  indexSize := UInt32.ofNat (field block 4 4)
  transitionSize := UInt32.ofNat (field block 8 4)
  states := UInt32.ofNat (field block 12 4)
  transitions := UInt32.ofNat (field block 16 4)
  properties := Vector.ofFn fun i => field block (20 + 4 * i.val) 4 != 0
  byteLength := byteLength

/-- The first thing in a header that no transducer has: an alphabet without even the empty symbol,
or a table whose size is negative as a signed number and so lies past every address. -/
def defect? (header : Header) : Option FormatError :=
  if header.symbols = 0 then some .emptyAlphabet
  else if transitionBase ≤ header.indexSize then
    some (.negativeTableSize .index header.indexSize.toInt32.toInt)
  else if transitionBase ≤ header.transitionSize then
    some (.negativeTableSize .transition header.transitionSize.toInt32.toInt)
  else none

def checked (header : Header) : Except LoadError Header :=
  match header.defect? with
  | some defect => .error (.format defect)
  | none => .ok header

def readPreamble : Loader Nat := do
  let length ← Loader.read .headerPreamble (.exactly 2)
  let separator ← Loader.readByte .headerPreamble
  if separator ≠ 0 then throw (.format (.invalidPreamble separator))
  let metadata := LittleEndian.value length
  let _ ← Loader.read .headerMetadata (.exactly metadata)
  return metadata

def read : Loader Header := do
  let probe ← Loader.read .header (.exactly magic.length)
  if probe = magic then
    let metadata ← readPreamble
    let block ← Loader.read .header (.exactly fixedLength)
    checked (ofBlock block (fixedLength + preambleLength + metadata))
  else
    let rest ← Loader.read .header (.exactly (fixedLength - magic.length))
    checked (ofBlock (probe ++ rest) fixedLength)

def summary (header : Header) : String :=
  let properties := ", ".intercalate (header.properties.toList.map fun b => toString b)
  "TransducerHeader \x7b symbols: " ++ toString header.symbols
    ++ ", input_symbols: " ++ toString header.inputSymbols
    ++ ", trans_index_table: " ++ toString header.indexSize
    ++ ", trans_target_table: " ++ toString header.transitionSize
    ++ ", states: " ++ toString header.states
    ++ ", transitions: " ++ toString header.transitions
    ++ ", properties: [" ++ properties
    ++ "], header_size: " ++ toString header.byteLength ++ " \x7d"

end Header

end OptimizedLookup
