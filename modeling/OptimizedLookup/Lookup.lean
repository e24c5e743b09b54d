import OptimizedLookup.Tape
import OptimizedLookup.Transducer

/-! Looking up a word: every output that the transducer pairs with it. The accepting paths are
searched depth first and in the order of the tables. A state first follows the transitions that
consume nothing, then, if the input goes on, those on its next symbol; if the input is used up and
the state is final, the path is noted. Each step undoes what it did to the context when it comes
back, except that what was found stays found. -/
namespace OptimizedLookup

/-- A structured document, such as a settings file holds. A number that is not written as a whole
one is a fraction, whatever its value. -/
inductive Document where
  | null
  | bool (value : Bool)
  | integer (value : Int)
  | fraction
  | text (value : String)
  | list (items : List Document)
  | record (fields : List (String × Document))
  deriving Inhabited

structure Config where
  maxDepth : Nat := 1024
  deduplicate : Bool := false
  deriving DecidableEq

namespace Document

def toSize? : Document → Option Nat
  | .integer value => if 0 ≤ value ∧ value < 0x10000000000000000 then some value.toNat else none
  | _ => none

def toBool? : Document → Option Bool
  | .bool value => some value
  | _ => none

def field? (fields : List (String × Document)) (name : String) (convert : Document → Option α)
    (default : α) : Option α :=
  match fields.lookup name with
  | some document => convert document
  | none => some default

end Document

namespace Config

/-- The settings that a document describes: a record with any of the two fields by name, or a list
of at most both values in order. What is left out has its default; other fields of a record are
ignored. -/
def ofDocument? : Document → Option Config
  | .record fields => do
    let defaults : Config := {}
    let maxDepth ← Document.field? fields "max_depth" Document.toSize? defaults.maxDepth
    let deduplicate ← Document.field? fields "deduplicate" Document.toBool? defaults.deduplicate
    return { maxDepth, deduplicate }
  | .list [] => some {}
  | .list [depth] => do
    let maxDepth ← depth.toSize?
    return { maxDepth }
  | .list [depth, unique] => do
    let maxDepth ← depth.toSize?
    let deduplicate ← unique.toBool?
    return { maxDepth, deduplicate }
  | _ => none

end Config

structure DepthExceeded where
  limit : Nat
  deriving DecidableEq

def DepthExceeded.message (error : DepthExceeded) : String :=
  s!"Traversal exceeded maximum depth of {error.limit}"

/-- The path that the search is on, and what it has found. The input has its cursor at the next
symbol of the word, the output after the last symbol that the path prints. -/
structure Context where
  input : Tape
  output : Tape
  flags : Flag.Stack
  weight : PathWeight
  found : Array Analysis
  deriving DecidableEq

namespace Context

def ofSymbols (symbols : List Symbol) (featureCount : Nat) : Context where
  input := .ofSymbols symbols
  output := ({} : Tape).put none 0
  flags := .ofSize featureCount
  weight := .zero
  found := #[]

/-- Notes the path as an analysis. Its output ends where the first transition without an output
symbol stands. -/
def note (context : Context) (alphabet : Alphabet) (finalWeight : ArcWeight) : Context :=
  let output := context.output.put none 0
  let analysis : Analysis :=
    ⟨alphabet.render output.symbols, context.weight.add finalWeight.widen⟩
  { context with output := output, found := context.found.push analysis }

end Context

namespace Transducer

abbrev Descent := State → Context → Except DepthExceeded Context

def follow (transducer : Transducer) (descend : Descent) (record : Nat) (context : Context) :
    Except DepthExceeded Context :=
  match transducer.transitions.target? record with
  | none => .ok context
  | some target => do
    let weight := context.weight
    let added := ((transducer.transitions.weight? record).getD .zero).widen
    let symbol := transducer.transitions.output? record
    let after ← descend (.ofTarget target) { context with
      output := (context.output.put symbol 0).advance 1
      weight := weight.add added }
    return { after with output := after.output.retreat 1, weight := weight }

/-- Follows the transitions that consume nothing, among the next `count` records, up to the first
record that is not one. A flag is followed only if it accepts the path. -/
def followFree (transducer : Transducer) (descend : Descent) :
    (count record : Nat) → Context → Except DepthExceeded Context
  | 0, _, context => .ok context
  | count + 1, record, context =>
    match transducer.transitions.input? record with
    | none => .ok context
    | some symbol =>
      if symbol = 0 then do
        let context ← transducer.follow descend record context
        transducer.followFree descend count (record + 1) context
      else
        match transducer.alphabet.operation? symbol with
        | none => .ok context
        | some operation =>
          match context.flags.push? operation with
          | none => transducer.followFree descend count (record + 1) context
          | some flags => do
            let after ← transducer.follow descend record { context with flags := flags }
            transducer.followFree descend count (record + 1)
              { after with flags := after.flags.pop }

def followMatching (transducer : Transducer) (descend : Descent) (symbol : Symbol) :
    (count record : Nat) → Context → Except DepthExceeded Context
  | 0, _, context => .ok context
  | count + 1, record, context =>
    if transducer.transitions.input? record = some symbol then do
      let context ← transducer.follow descend record context
      transducer.followMatching descend symbol count (record + 1) context
    else .ok context

def leaveFree (transducer : Transducer) (descend : Descent) (state : State) (context : Context) :
    Except DepthExceeded Context :=
  match transducer.freeStart? state with
  | none => .ok context
  | some first =>
    transducer.followFree descend (transducer.transitions.size - first) first context

def leaveMatching (transducer : Transducer) (descend : Descent) (state : State)
    (context : Context) : Except DepthExceeded Context :=
  match context.input.get (-1) with
  | none => .ok context
  | some symbol =>
    match transducer.runStart? state symbol with
    | none => .ok context
    | some first =>
      transducer.followMatching descend symbol (transducer.transitions.size - first) first context

/-- Searches from a state on a path that may have `level` more states, this one included. -/
def visit (transducer : Transducer) (limit : Nat) : (level : Nat) → Descent
  | 0, _, _ => .error ⟨limit⟩
  | level + 1, state, context => do
    let context ← transducer.leaveFree (transducer.visit limit level) state context
    match context.input.get 0 with
    | none =>
      match transducer.finalWeight? state with
      | none => return context
      | some weight => return context.note transducer.alphabet weight
    | some _ =>
      let consumed := { context with input := context.input.advance 1 }
      let after ← transducer.leaveMatching (transducer.visit limit level) state consumed
      return { after with
        input := after.input.retreat 1
        output := after.output.put none 0 }

def search (transducer : Transducer) (limit : Nat) (symbols : List Symbol) :
    Except DepthExceeded (List Analysis) := do
  let context := Context.ofSymbols symbols transducer.alphabet.featureCount
  let context ← transducer.visit limit limit .start context
  return context.found.toList

end Transducer

/-- Leaves items out of a list by their keys. Lookup takes it as an argument, and `UniqueBy.inOrder`
is the one it has by default. -/
abbrev UniqueBy := (Analysis → String × UInt64) → List Analysis → List Analysis

def UniqueBy.inOrder : UniqueBy := fun key items =>
  items.foldl (fun kept item =>
    if key item ∈ kept.map key then kept else kept ++ [item]) []

def Analysis.key (analysis : Analysis) : String × UInt64 := (analysis.output, analysis.weight.bits)

namespace Transducer

/-- The analyses of a word, in the order of the search. A word that cannot be split into symbols
has none, and neither has the empty word. -/
def analyze (transducer : Transducer) (word : String) (config : Config := {})
    (uniqueBy : UniqueBy := .inOrder) : Except DepthExceeded (List Analysis) :=
  match transducer.tokenize word with
  | none | some [] => .ok []
  | some symbols => do
    let analyses ← transducer.search config.maxDepth symbols
    return if config.deduplicate then uniqueBy Analysis.key analyses else analyses

end Transducer

end OptimizedLookup
