import OptimizedLookup.Header
import OptimizedLookup.Tokenizer
import OptimizedLookup.Weight

/-! A transducer as it is laid out in bytes: the header, the alphabet, the index table and the
transition table, one after the other. What follows the last record is not looked at.

In the index table the slot of a state tells whether the state is final, and the slots after it, one
per input symbol, tell where in the transition table its transitions on that symbol begin. A record
of the transition table is a transition, or it ends the run before it and tells whether the state
that this run belongs to is final. Records carry a weight only in a weighted table. So a state is a
slot of the one table or a record of the other, and its transitions are found in both. -/
namespace OptimizedLookup

structure Slot where
  input : UInt16
  target : UInt32
  deriving DecidableEq

structure IndexTable where
  slots : Array Slot
  weighted : Bool
  deriving DecidableEq

namespace IndexTable

def slotLength : Nat := 6

def decode : List UInt8 → Array Slot → Array Slot
  | i₀ :: i₁ :: t₀ :: t₁ :: t₂ :: t₃ :: rest, slots =>
    decode rest (slots.push
      ⟨LittleEndian.word16 i₀ i₁, LittleEndian.word32 t₀ t₁ t₂ t₃⟩)
  | _, slots => slots

/-- The sizes of tables are numbers of 32 bits, so the bytes of a table are always counted in 64. -/
theorem bytes_fit (size : UInt32) : size.toNat * slotLength < UInt64.size := by
  have bounded : size.toNat < 4294967296 := size.toNat_lt
  simp only [slotLength, UInt64.size]
  omega

def read (size : Nat) (weighted : Bool) : Loader IndexTable := do
  let bytes ← Loader.read .indexTable (.exactly (size * slotLength))
  return ⟨decode bytes #[], weighted⟩

def size (table : IndexTable) : Nat := table.slots.size

def byteLength (table : IndexTable) : Nat := table.size * slotLength

def input? (table : IndexTable) (slot : Nat) : Option Symbol :=
  table.slots[slot]?.bind fun stored => symbol? stored.input

def target? (table : IndexTable) (slot : Nat) : Option UInt32 :=
  table.slots[slot]?.bind fun stored => OptimizedLookup.target? stored.target

/-- The final weight of a slot. In a weighted table it stands where the target would, and no word
there means "no weight". -/
def finalWeight? (table : IndexTable) (slot : Nat) : Option ArcWeight :=
  table.slots[slot]?.map fun stored => if table.weighted then ⟨stored.target⟩ else .zero

def isFinal (table : IndexTable) (slot : Nat) : Bool :=
  (table.input? slot).isNone && (table.target? slot).isSome

def runStart? (table : IndexTable) (slot : Nat) : Option Nat :=
  (table.target? slot).bind fun target =>
    if transitionBase ≤ target then some (target.toNat - transitionBase.toNat) else none

def summary (table : IndexTable) : String := s!"Index table index: {table.size}"

end IndexTable

/-- The words of a record as they are stored; in a table without weights the weight is zero. -/
structure TransitionRecord where
  input : UInt16
  output : UInt16
  target : UInt32
  weight : ArcWeight
  deriving DecidableEq

structure TransitionTable where
  records : Array TransitionRecord
  weighted : Bool
  deriving DecidableEq

namespace TransitionTable

def recordLength (weighted : Bool) : Nat := if weighted then 12 else 8

def decodeSimple : List UInt8 → Array TransitionRecord → Array TransitionRecord
  | i₀ :: i₁ :: o₀ :: o₁ :: t₀ :: t₁ :: t₂ :: t₃ :: rest, records =>
    decodeSimple rest (records.push
      ⟨LittleEndian.word16 i₀ i₁, LittleEndian.word16 o₀ o₁, LittleEndian.word32 t₀ t₁ t₂ t₃,
        .zero⟩)
  | _, records => records

def decodeWeighted : List UInt8 → Array TransitionRecord → Array TransitionRecord
  | i₀ :: i₁ :: o₀ :: o₁ :: t₀ :: t₁ :: t₂ :: t₃ :: w₀ :: w₁ :: w₂ :: w₃ :: rest, records =>
    decodeWeighted rest (records.push
      ⟨LittleEndian.word16 i₀ i₁, LittleEndian.word16 o₀ o₁, LittleEndian.word32 t₀ t₁ t₂ t₃,
        ⟨LittleEndian.word32 w₀ w₁ w₂ w₃⟩⟩)
  | _, records => records

theorem bytes_fit (size : UInt32) (weighted : Bool) :
    size.toNat * recordLength weighted < UInt64.size := by
  have bounded : size.toNat < 4294967296 := size.toNat_lt
  have narrow : recordLength weighted ≤ 12 := by cases weighted <;> decide
  calc size.toNat * recordLength weighted
    _ ≤ size.toNat * 12 := Nat.mul_le_mul_left _ narrow
    _ < UInt64.size := by
      simp only [UInt64.size]
      omega

def read (size : Nat) (weighted : Bool) : Loader TransitionTable := do
  let bytes ← Loader.read .transitionTable (.exactly (size * recordLength weighted))
  return ⟨if weighted then decodeWeighted bytes #[] else decodeSimple bytes #[], weighted⟩

def size (table : TransitionTable) : Nat := table.records.size

def input? (table : TransitionTable) (index : Nat) : Option Symbol :=
  table.records[index]?.bind fun stored => symbol? stored.input

def output? (table : TransitionTable) (index : Nat) : Option Symbol :=
  table.records[index]?.bind fun stored => symbol? stored.output

def target? (table : TransitionTable) (index : Nat) : Option UInt32 :=
  table.records[index]?.bind fun stored => OptimizedLookup.target? stored.target

/-- The weight of a transition, or the final weight of the state it ends. -/
def weight? (table : TransitionTable) (index : Nat) : Option ArcWeight :=
  table.records[index]?.map TransitionRecord.weight

def isFinal (table : TransitionTable) (index : Nat) : Bool :=
  (table.input? index).isNone && (table.output? index).isNone && table.target? index == some 1

def summary (table : TransitionTable) : String :=
  if table.weighted then s!"Weighted transition table index: {table.size}"
  else s!"Transition table index: {table.size}"

end TransitionTable

structure Transducer where
  header : Header
  alphabet : Alphabet
  trie : LetterTrie
  index : IndexTable
  transitions : TransitionTable

namespace Transducer

def read : Loader Transducer := do
  let header ← Header.read
  let alphabet ← Alphabet.read header.symbols.toNat
  let index ← IndexTable.read header.indexSize.toNat header.weighted
  let transitions ← TransitionTable.read header.transitionSize.toNat header.weighted
  return ⟨header, alphabet, .ofAlphabet alphabet, index, transitions⟩

def load (source : Source) : Except LoadError Transducer := (read.run source).map Prod.fst

def ofBytes (bytes : List UInt8) : Except LoadError Transducer := load (.ofBytes bytes)

def isWeighted (transducer : Transducer) : Bool := transducer.header.weighted

def tokenize (transducer : Transducer) (word : String) : Option (List Symbol) :=
  transducer.trie.tokenize word

end Transducer

inductive State where
  | slot (index : Nat)
  | record (index : Nat)
  deriving DecidableEq

namespace State

def ofTarget (target : UInt32) : State :=
  if transitionBase ≤ target then .record (target.toNat - transitionBase.toNat)
  else .slot target.toNat

def start : State := .slot 0

end State

namespace Transducer

/-- The record at which the transitions of a state on a symbol begin. For a slot this is what the
symbol's own slot points to, provided that slot is in fact the symbol's. -/
def runStart? (transducer : Transducer) (state : State) (symbol : Symbol) : Option Nat :=
  match state with
  | .record index => some (index + 1)
  | .slot index =>
    let slot := index + 1 + symbol.toNat
    if transducer.index.input? slot = some symbol then transducer.index.runStart? slot else none

/-- The record at which the transitions that consume nothing begin. They stand in the place of the
transitions on symbol 0. -/
def freeStart? (transducer : Transducer) (state : State) : Option Nat :=
  transducer.runStart? state 0

def finalWeight? (transducer : Transducer) (state : State) : Option ArcWeight :=
  match state with
  | .slot index =>
    if transducer.index.isFinal index then transducer.index.finalWeight? index else none
  | .record index =>
    if transducer.transitions.isFinal index then transducer.transitions.weight? index else none

end Transducer

end OptimizedLookup
