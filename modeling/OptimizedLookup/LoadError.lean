import OptimizedLookup.Source
import OptimizedLookup.Encoding

/-! Why a transducer cannot be loaded: the bytes end inside a section, the source fails, or the
bytes are there and describe nothing. Each error has one message, a chain of the messages beneath
it, and a form as a failure of the source. -/
namespace OptimizedLookup

inductive Section where
  | header
  | headerPreamble
  | headerMetadata
  | alphabet
  | indexTable
  | transitionTable
  deriving DecidableEq

def Section.name : Section → String
  | .header => "header"
  | .headerPreamble => "header preamble"
  | .headerMetadata => "header metadata"
  | .alphabet => "alphabet"
  | .indexTable => "index table"
  | .transitionTable => "transition table"

inductive TableKind where
  | index
  | transition
  deriving DecidableEq

def TableKind.name : TableKind → String
  | .index => "index"
  | .transition => "transition"

/-- Contents that no transducer has. A negative size is what the stored word means as a signed
number. No size is too large to be counted in bytes (`IndexTable.bytes_fit`,
`TransitionTable.bytes_fit`), so there is no error for that. -/
inductive FormatError where
  | emptyAlphabet
  | negativeTableSize (table : TableKind) (size : Int)
  | invalidPreamble (separator : UInt8)
  | tooManyFlagValues
  | invalidSymbol (index : Symbol) (fault : Utf8.Fault)
  deriving DecidableEq

def hexByte (byte : UInt8) : String :=
  String.ofList [Nat.digitChar (byte.toNat / 16), Nat.digitChar (byte.toNat % 16)]

namespace FormatError

def message : FormatError → String
  | .emptyAlphabet => "Alphabet has no symbols"
  | .negativeTableSize table size => s!"Negative {table.name} table size {size}"
  | .invalidPreamble separator =>
    s!"Expected NUL after header preamble length, got 0x{hexByte separator}"
  | .tooManyFlagValues => "Too many distinct flag diacritic values"
  | .invalidSymbol index _ => s!"Symbol {index} is not valid UTF-8"

def causes : FormatError → List String
  | .invalidSymbol _ fault => [fault.message]
  | _ => []

end FormatError

inductive LoadError where
  | endOfStream (part : Section)
  | io (fault : IoFault)
  | format (error : FormatError)
  deriving DecidableEq

namespace LoadError

def message : LoadError → String
  | .endOfStream part => s!"Unexpected end of stream while reading {part.name}"
  | .io _ => "IO error"
  | .format _ => "Invalid transducer"

def causes : LoadError → List String
  | .endOfStream _ => []
  | .io fault => [fault.text]
  | .format error => error.message :: error.causes

def toIoFault : LoadError → IoFault
  | .endOfStream part => ⟨.unexpectedEnd, (endOfStream part).message⟩
  | .io fault => fault
  | .format error => ⟨.invalidData, error.message⟩

end LoadError

/-- A source that ends inside a section has too few bytes for it. A failure that only says so
counts as the end; every other failure is passed on. -/
def Ending.toLoadError (part : Section) : Ending → LoadError
  | .finished => .endOfStream part
  | .failed fault => if fault.kind = .unexpectedEnd then .endOfStream part else .io fault

abbrev Loader := StateT Source (Except LoadError)

def Loader.read (part : Section) (demand : Demand) : Loader (List UInt8) := fun source =>
  match source.read demand with
  | .ok result => .ok result
  | .error ending => .error (ending.toLoadError part)

def Loader.readByte (part : Section) : Loader UInt8 := do
  let bytes ← Loader.read part (.exactly 1)
  return bytes.headD 0

end OptimizedLookup
