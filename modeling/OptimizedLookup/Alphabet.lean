import Std.Data.TreeMap
import OptimizedLookup.Flag
import OptimizedLookup.LoadError

/-! The alphabet of a transducer: for every symbol what it prints and, if it is a flag, what it
does. It is written as one NUL-terminated text per symbol. The text of symbol 0 is read and
ignored; every other text is a flag or stands for itself. -/
namespace OptimizedLookup

structure Interning where
  numbers : Std.TreeMap String Nat := ∅

namespace Interning

def size (names : Interning) : Nat := names.numbers.size

def number? (names : Interning) (name : String) : Option Nat := names.numbers[name]?

def intern (names : Interning) (name : String) : Nat × Interning :=
  match names.number? name with
  | some number => (number, names)
  | none => (names.size, ⟨names.numbers.insert name names.size⟩)

end Interning

inductive Entry where
  | epsilon
  | flag (operation : Flag.Operation)
  | literal (text : String)
  deriving DecidableEq

def Entry.key : Entry → String
  | .literal text => text
  | _ => ""

def Entry.operation? : Entry → Option Flag.Operation
  | .flag operation => some operation
  | _ => none

/-- The texts of a file's symbols, taken apart. `symbols` has for each literal that is not empty the
greatest symbol that prints it. -/
structure Alphabet where
  entries : Array Entry
  symbols : Std.TreeMap String Symbol
  featureCount : Nat
  byteLength : Nat

namespace Alphabet

def entry? (alphabet : Alphabet) (symbol : Symbol) : Option Entry :=
  alphabet.entries[symbol.toNat]?

def key? (alphabet : Alphabet) (symbol : Symbol) : Option String :=
  (alphabet.entry? symbol).map Entry.key

def keys (alphabet : Alphabet) : List String := alphabet.entries.toList.map Entry.key

def operation? (alphabet : Alphabet) (symbol : Symbol) : Option Flag.Operation :=
  (alphabet.entry? symbol).bind Entry.operation?

def isFlag (alphabet : Alphabet) (symbol : Symbol) : Bool := (alphabet.operation? symbol).isSome

def operations (alphabet : Alphabet) : List (Symbol × Flag.Operation) :=
  alphabet.entries.toList.zipIdx.filterMap fun (entry, index) =>
    entry.operation?.map fun operation => (UInt16.ofNat index, operation)

def symbol? (alphabet : Alphabet) (text : String) : Option Symbol := alphabet.symbols[text]?

def render (alphabet : Alphabet) (symbols : List Symbol) : String :=
  String.join (symbols.map fun symbol => (alphabet.key? symbol).getD "")

def isEmpty (alphabet : Alphabet) : Bool := alphabet.byteLength = 0

/-- The greatest number of a flag value, which is also how many values there may be. -/
def valueLimit : Nat := 32767

structure Draft where
  entries : Array Entry := #[]
  symbols : Std.TreeMap String Symbol := ∅
  features : Interning := {}
  values : Interning := {}
  byteLength : Nat := 0

namespace Draft

def next (draft : Draft) : Symbol := UInt16.ofNat draft.entries.size

def addFlag (draft : Draft) (flag : Flag.Spelling) : Except FormatError Draft :=
  let feature := String.ofList flag.feature
  let value := String.ofList flag.value
  let (featureIndex, features) := draft.features.intern feature
  let (valueIndex, values) := draft.values.intern value
  if valueIndex < valueLimit then
    .ok { draft with
      entries := draft.entries.push (.flag
        ⟨flag.operator, feature, value, UInt16.ofNat featureIndex, Int16.ofNat (valueIndex + 1)⟩)
      features := features
      values := values }
  else .error .tooManyFlagValues

def addLiteral (draft : Draft) (text : String) : Draft :=
  let symbols := if text.isEmpty then draft.symbols else draft.symbols.insert text draft.next
  { draft with entries := draft.entries.push (.literal text), symbols := symbols }

/-- Takes up the next text, which is ignored if it is the first. -/
def add (draft : Draft) (text : List Char) : Except FormatError Draft :=
  if draft.entries.size = 0 then .ok { draft with entries := draft.entries.push .epsilon }
  else
    match Flag.Spelling.ofText? text with
    | some flag => draft.addFlag flag
    | none => .ok (draft.addLiteral (String.ofList text))

def addBytes (draft : Draft) (bytes : List UInt8) : Except FormatError Draft :=
  match Utf8.decode bytes.dropLast with
  | .error fault => .error (.invalidSymbol draft.next fault)
  | .ok text => { draft with byteLength := draft.byteLength + bytes.length }.add text

def finish (draft : Draft) : Alphabet :=
  ⟨draft.entries, draft.symbols, draft.features.size, draft.byteLength⟩

def read (draft : Draft) : (count : Nat) → Loader Draft
  | 0 => pure draft
  | count + 1 => do
    let bytes ← Loader.read .alphabet .throughNul
    match draft.addBytes bytes with
    | .error error => throw (.format error)
    | .ok draft => draft.read count

end Draft

def read (count : Nat) : Loader Alphabet := do
  let draft ← ({} : Draft).read count
  return draft.finish

def ofTexts (texts : List String) : Except LoadError Alphabet :=
  let bytes := texts.flatMap fun text => text.toUTF8.toList ++ [0]
  ((read texts.length).run (.ofBytes bytes)).map Prod.fst

end Alphabet

end OptimizedLookup
