import OptimizedLookup.Lookup

/-! Paths through the tables, said without the search. An address owns two runs of records, the one
that consumes nothing and the one on the next token; a path takes one record of a run after the
other and is judged by the flags it has passed. The search is measured against these definitions. -/
namespace OptimizedLookup

/-- Where a path stands: an address, the tokens it has still to consume, and the flags it passed. -/
structure Point where
  address : UInt32
  rest : List Symbol
  flags : Flag.Stack

namespace Transducer

/-- The first record of the run of an address on a symbol. An address below the transition table
goes through the slot of the symbol, which has to be the symbol's and to point to a record. -/
inductive RunStart (transducer : Transducer) (symbol : Symbol) : UInt32 → Nat → Prop
  | ofSlot {address target : UInt32} (below : address < transitionBase)
      (own : transducer.index.input? (address.toNat + 1 + symbol.toNat) = some symbol)
      (points : transducer.index.target? (address.toNat + 1 + symbol.toNat) = some target)
      (within : transitionBase ≤ target) :
      RunStart transducer symbol address (target.toNat - transitionBase.toNat)
  | ofRecord {address : UInt32} (within : transitionBase ≤ address) :
      RunStart transducer symbol address (address.toNat - transitionBase.toNat + 1)

def InRun (belongs : Nat → Prop) (first record : Nat) : Prop :=
  first ≤ record ∧ ∀ other, first ≤ other → other ≤ record → belongs other

def ConsumesNothing (transducer : Transducer) (record : Nat) : Prop :=
  ∃ symbol, transducer.transitions.input? record = some symbol ∧
    (symbol = 0 ∨ transducer.alphabet.isFlag symbol = true)

def FreeArc (transducer : Transducer) (address : UInt32) (record : Nat) : Prop :=
  ∃ first, transducer.RunStart 0 address first ∧
    InRun transducer.ConsumesNothing first record

def TokenArc (transducer : Transducer) (token : Symbol) (address : UInt32) (record : Nat) : Prop :=
  ∃ first, transducer.RunStart token address first ∧
    InRun (fun other => transducer.transitions.input? other = some token) first record

/-- One record of a path. A record without a target leads nowhere, and a flag has to be accepted
by the flags that the path passed before it. -/
inductive Step (transducer : Transducer) (point : Point) (record : Nat) : Point → Prop
  | epsilon {address : UInt32} (arc : transducer.FreeArc point.address record)
      (input : transducer.transitions.input? record = some 0)
      (target : transducer.transitions.target? record = some address) :
      Step transducer point record { point with address := address }
  | flag {address : UInt32} {symbol : Symbol} {operation : Flag.Operation} {flags : Flag.Stack}
      (arc : transducer.FreeArc point.address record)
      (input : transducer.transitions.input? record = some symbol) (proper : symbol ≠ 0)
      (isFlag : transducer.alphabet.operation? symbol = some operation)
      (accepted : point.flags.push? operation = some flags)
      (target : transducer.transitions.target? record = some address) :
      Step transducer point record { point with address := address, flags := flags }
  | token {address : UInt32} {token : Symbol} {rest : List Symbol}
      (next : point.rest = token :: rest)
      (arc : transducer.TokenArc token point.address record)
      (target : transducer.transitions.target? record = some address) :
      Step transducer point record { point with address := address, rest := rest }

inductive Follows (transducer : Transducer) : Point → List Nat → Point → Prop
  | nil (point : Point) : Follows transducer point [] point
  | cons {point next last : Point} {record : Nat} {path : List Nat}
      (step : transducer.Step point record next) (rest : transducer.Follows next path last) :
      Follows transducer point (record :: path) last

def origin (transducer : Transducer) (tokens : List Symbol) : Point :=
  ⟨0, tokens, .ofSize transducer.alphabet.featureCount⟩

inductive FinalWeight (transducer : Transducer) : UInt32 → ArcWeight → Prop
  | ofSlot {address : UInt32} {weight : ArcWeight} (below : address < transitionBase)
      (noInput : transducer.index.input? address.toNat = none)
      (target : transducer.index.target? address.toNat ≠ none)
      (stored : transducer.index.finalWeight? address.toNat = some weight) :
      FinalWeight transducer address weight
  | ofRecord {address : UInt32} {weight : ArcWeight} (within : transitionBase ≤ address)
      (noInput : transducer.transitions.input? (address.toNat - transitionBase.toNat) = none)
      (noOutput : transducer.transitions.output? (address.toNat - transitionBase.toNat) = none)
      (mark : transducer.transitions.target? (address.toNat - transitionBase.toNat) = some 1)
      (stored : transducer.transitions.weight? (address.toNat - transitionBase.toNat) =
        some weight) :
      FinalWeight transducer address weight

/-- What a path prints: the outputs of its records up to the first record without one. -/
def outputOf (transducer : Transducer) (path : List Nat) : List Symbol :=
  ((path.map transducer.transitions.output?).takeWhile Option.isSome).reduceOption

def weightOf (transducer : Transducer) (path : List Nat) : PathWeight :=
  path.foldl (fun sum record =>
    sum.add ((transducer.transitions.weight? record).getD .zero).widen) .zero

def analysisOf (transducer : Transducer) (path : List Nat) (final : ArcWeight) : Analysis :=
  ⟨transducer.alphabet.render (transducer.outputOf path),
    (transducer.weightOf path).add final.widen⟩

def Accepts (transducer : Transducer) (tokens : List Symbol) (path : List Nat)
    (analysis : Analysis) : Prop :=
  ∃ last final, transducer.Follows (transducer.origin tokens) path last ∧ last.rest = [] ∧
    transducer.FinalWeight last.address final ∧ analysis = transducer.analysisOf path final

/-- The order of two records at which paths part: a record that consumes nothing comes before one
that consumes a token, and otherwise the order is that of the table. -/
def RecordBefore (transducer : Transducer) (left right : Nat) : Prop :=
  (transducer.ConsumesNothing left ∧ ¬ transducer.ConsumesNothing right) ∨
    ((transducer.ConsumesNothing left ↔ transducer.ConsumesNothing right) ∧ left < right)

/-- The order of paths: by the records at which they part, and a path after its continuations. -/
inductive Before (transducer : Transducer) : List Nat → List Nat → Prop
  | continued (record : Nat) (path : List Nat) : Before transducer (record :: path) []
  | parted {left right : Nat} (before : transducer.RecordBefore left right)
      (leftRest rightRest : List Nat) :
      Before transducer (left :: leftRest) (right :: rightRest)
  | shared (record : Nat) {left right : List Nat} (before : transducer.Before left right) :
      Before transducer (record :: left) (record :: right)

theorem RecordBefore.asymm {transducer : Transducer} {left right : Nat}
    (before : transducer.RecordBefore left right) : ¬ transducer.RecordBefore right left := by
  obtain ⟨free, notFree⟩ | ⟨same, lt⟩ := before
  · rintro (⟨other, -⟩ | ⟨same, -⟩)
    · exact notFree other
    · exact notFree (same.mpr free)
  · rintro (⟨other, notOther⟩ | ⟨-, gt⟩)
    · exact notOther (same.mpr other)
    · exact Nat.lt_asymm lt gt

theorem recordBefore_irrefl (transducer : Transducer) (record : Nat) :
    ¬ transducer.RecordBefore record record :=
  fun before => before.asymm before

theorem Before.asymm {transducer : Transducer} {left right : List Nat}
    (before : transducer.Before left right) : ¬ transducer.Before right left := by
  induction before with
  | continued record path => exact nofun
  | parted before _ _ =>
    intro after
    cases after with
    | parted after => exact before.asymm after
    | shared => exact transducer.recordBefore_irrefl _ before
  | shared record _ ih =>
    intro after
    cases after with
    | parted after => exact transducer.recordBefore_irrefl record after
    | shared _ after => exact ih after

theorem before_irrefl (transducer : Transducer) (path : List Nat) :
    ¬ transducer.Before path path :=
  fun before => before.asymm before

theorem InRun.imp {belongs includes : Nat → Prop} {first record : Nat}
    (run : InRun belongs first record) (wider : ∀ other, belongs other → includes other) :
    InRun includes first record :=
  ⟨run.1, fun other low high => wider other (run.2 other low high)⟩

theorem Follows.append {transducer : Transducer} {point middle last : Point}
    {path more : List Nat} (first : transducer.Follows point path middle)
    (second : transducer.Follows middle more last) :
    transducer.Follows point (path ++ more) last := by
  induction first with
  | nil => exact second
  | cons step _ ih => exact .cons step (ih second)

theorem Follows.split {transducer : Transducer} {point last : Point} {path more : List Nat}
    (follows : transducer.Follows point (path ++ more) last) :
    ∃ middle, transducer.Follows point path middle ∧ transducer.Follows middle more last := by
  induction path generalizing point with
  | nil => exact ⟨point, .nil point, follows⟩
  | cons record path ih =>
    cases follows with
    | cons step rest =>
      obtain ⟨middle, front, back⟩ := ih rest
      exact ⟨middle, .cons step front, back⟩

@[simp] theorem weightOf_nil (transducer : Transducer) : transducer.weightOf [] = .zero := rfl

theorem weightOf_concat (transducer : Transducer) (path : List Nat) (record : Nat) :
    transducer.weightOf (path ++ [record]) = (transducer.weightOf path).add
      ((transducer.transitions.weight? record).getD .zero).widen := by
  simp [weightOf]

end Transducer

end OptimizedLookup
