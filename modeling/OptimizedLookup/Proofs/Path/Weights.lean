import OptimizedLookup.Proofs.Alphabet.Numbering
import OptimizedLookup.Proofs.Path.Analyses

/-! Transducers that differ in their weights alone. The word of a final slot that would be a target
elsewhere is a weight there, and only whether it is empty is ever asked. So two such transducers
have the same paths at every point, and print the same for a word, whichever of them has weights. -/
namespace OptimizedLookup

namespace TransitionTable

variable {left right : TransitionTable}

def SameArcs (left right : TransitionTable) : Prop :=
  left.size = right.size ∧ ∀ record < left.size, left.input? record = right.input? record ∧
    left.output? record = right.output? record ∧ left.target? record = right.target? record

instance (left right : TransitionTable) : Decidable (left.SameArcs right) :=
  inferInstanceAs (Decidable (_ ∧ _))

theorem none_of_size_le {table : TransitionTable} {record : Nat} (past : table.size ≤ record) :
    table.input? record = none ∧ table.output? record = none ∧ table.target? record = none := by
  have absent : table.records[record]? = none := Array.getElem?_eq_none past
  rw [input?, output?, target?, absent]
  exact ⟨rfl, rfl, rfl⟩

theorem SameArcs.all (same : left.SameArcs right) (record : Nat) :
    left.input? record = right.input? record ∧ left.output? record = right.output? record ∧
      left.target? record = right.target? record := by
  by_cases inside : record < left.size
  · exact same.2 record inside
  · -- past the end of both tables there is nothing to differ in
    obtain ⟨input, output, target⟩ := none_of_size_le (Nat.not_lt.mp inside)
    obtain ⟨otherInput, otherOutput, otherTarget⟩ :=
      none_of_size_le (same.1 ▸ Nat.not_lt.mp inside)
    rw [input, output, target, otherInput, otherOutput, otherTarget]
    exact ⟨rfl, rfl, rfl⟩

theorem SameArcs.input? (same : left.SameArcs right) : left.input? = right.input? :=
  funext fun record => (same.all record).1

theorem SameArcs.output? (same : left.SameArcs right) : left.output? = right.output? :=
  funext fun record => (same.all record).2.1

theorem SameArcs.target? (same : left.SameArcs right) : left.target? = right.target? :=
  funext fun record => (same.all record).2.2

theorem SameArcs.isFinal (same : left.SameArcs right) : left.isFinal = right.isFinal := by
  funext record
  rw [TransitionTable.isFinal, TransitionTable.isFinal, same.input?, same.output?, same.target?]

theorem isSome_weight?_of_isFinal {table : TransitionTable} {record : Nat}
    (final : table.isFinal record = true) : (table.weight? record).isSome = true := by
  rw [weight?, Option.isSome_map]
  rw [TransitionTable.isFinal, Bool.and_eq_true, beq_iff_eq] at final
  obtain ⟨stored, found, -⟩ := Option.bind_eq_some_iff.mp final.2
  rw [found]
  rfl

end TransitionTable

namespace IndexTable

variable {left right : IndexTable}

/-- The slots agree in their inputs. Those with an input agree in their targets, the others in
whether there is one. -/
def SameArcs (left right : IndexTable) : Prop :=
  left.size = right.size ∧ ∀ slot < left.size, left.input? slot = right.input? slot ∧
    (left.input? slot ≠ none → left.target? slot = right.target? slot) ∧
    (left.input? slot = none → (left.target? slot).isSome = (right.target? slot).isSome)

instance (left right : IndexTable) : Decidable (left.SameArcs right) :=
  inferInstanceAs (Decidable (_ ∧ _))

theorem none_of_size_le {table : IndexTable} {slot : Nat} (past : table.size ≤ slot) :
    table.input? slot = none ∧ table.target? slot = none := by
  have absent : table.slots[slot]? = none := Array.getElem?_eq_none past
  rw [input?, target?, absent]
  exact ⟨rfl, rfl⟩

theorem SameArcs.all (same : left.SameArcs right) (slot : Nat) :
    left.input? slot = right.input? slot ∧
      (left.input? slot ≠ none → left.target? slot = right.target? slot) ∧
      (left.input? slot = none → (left.target? slot).isSome = (right.target? slot).isSome) := by
  by_cases inside : slot < left.size
  · exact same.2 slot inside
  · obtain ⟨input, target⟩ := none_of_size_le (Nat.not_lt.mp inside)
    obtain ⟨otherInput, otherTarget⟩ := none_of_size_le (same.1 ▸ Nat.not_lt.mp inside)
    rw [input, target, otherInput, otherTarget]
    exact ⟨rfl, fun _ => rfl, fun _ => rfl⟩

theorem SameArcs.isFinal (same : left.SameArcs right) : left.isFinal = right.isFinal := by
  funext slot
  obtain ⟨input, -, mark⟩ := same.all slot
  rw [IndexTable.isFinal, IndexTable.isFinal, ← input]
  cases noInput : left.input? slot with
  | none => rw [mark noInput]
  | some symbol => rfl

theorem SameArcs.runStart? (same : left.SameArcs right) {slot : Nat} {symbol : Symbol}
    (own : left.input? slot = some symbol) : left.runStart? slot = right.runStart? slot := by
  have target := (same.all slot).2.1 (own ▸ Option.some_ne_none symbol)
  rw [IndexTable.runStart?, IndexTable.runStart?, target]

theorem isSome_finalWeight?_of_isFinal {table : IndexTable} {slot : Nat}
    (final : table.isFinal slot = true) : (table.finalWeight? slot).isSome = true := by
  rw [finalWeight?, Option.isSome_map]
  rw [IndexTable.isFinal, Bool.and_eq_true] at final
  obtain ⟨target, points⟩ := Option.isSome_iff_exists.mp final.2
  obtain ⟨stored, found, -⟩ := Option.bind_eq_some_iff.mp points
  rw [found]
  rfl

end IndexTable

namespace Transducer

variable {left right transducer : Transducer}

/-- Two transducers that differ at most in their weights, and in what does not bear on lookup. -/
def SameArcs (left right : Transducer) : Prop :=
  left.alphabet.entries = right.alphabet.entries ∧ left.index.SameArcs right.index ∧
    left.transitions.SameArcs right.transitions

instance (left right : Transducer) : Decidable (left.SameArcs right) :=
  inferInstanceAs (Decidable (_ ∧ _))

def isFinal (transducer : Transducer) : State → Bool
  | .slot index => transducer.index.isFinal index
  | .record index => transducer.transitions.isFinal index

theorem isSome_finalWeight? (transducer : Transducer) (state : State) :
    (transducer.finalWeight? state).isSome = transducer.isFinal state := by
  unfold finalWeight? isFinal
  -- what is final lies inside its table, so that the weight is there too
  cases state with
  | slot index =>
    by_cases final : transducer.index.isFinal index = true
    · simp [final, IndexTable.isSome_finalWeight?_of_isFinal final]
    · simp [final]
  | record index =>
    by_cases final : transducer.transitions.isFinal index = true
    · simp [final, TransitionTable.isSome_weight?_of_isFinal final]
    · simp [final]

def paths (transducer : Transducer) (level : Nat) (point : Point) : List (List Nat) :=
  (transducer.listing level point).map Prod.fst

def stops (transducer : Transducer) (point : Point) : List (List Nat) :=
  if point.rest = [] ∧ transducer.isFinal (.ofTarget point.address) = true then [[]] else []

theorem map_ending (transducer : Transducer) (point : Point) :
    (transducer.ending point).map Prod.fst = transducer.stops point := by
  unfold ending stops
  rw [← isSome_finalWeight?]
  cases point.rest with
  | nil => cases transducer.finalWeight? (.ofTarget point.address) <;> simp
  | cons token rest => simp

theorem paths_succ (transducer : Transducer) (level : Nat) (point : Point) :
    transducer.paths (level + 1) point =
      ((transducer.steps point).flatMap fun (record, next) =>
        (transducer.paths level next).map (record :: ·)) ++ transducer.stops point := by
  rw [paths, listing, List.map_append, map_ending, List.map_flatMap]
  simp only [paths, List.map_map, Function.comp_def]

namespace SameArcs

variable (same : left.SameArcs right)
include same

theorem operation? : left.alphabet.operation? = right.alphabet.operation? := by
  funext symbol
  rw [Alphabet.operation?, Alphabet.operation?, Alphabet.entry?, Alphabet.entry?, same.1]

theorem keys : left.alphabet.keys = right.alphabet.keys := by
  rw [Alphabet.keys, Alphabet.keys, same.1]

theorem render : left.alphabet.render = right.alphabet.render := by
  funext symbols
  unfold Alphabet.render Alphabet.key? Alphabet.entry?
  rw [same.1]

theorem runStart? : left.runStart? = right.runStart? := by
  funext state symbol
  cases state with
  | record index => rfl
  | slot index =>
    have input := (same.2.1.all (index + 1 + symbol.toNat)).1
    unfold Transducer.runStart?
    by_cases own : left.index.input? (index + 1 + symbol.toNat) = some symbol
    · simp only [if_pos own, if_pos (input ▸ own), same.2.1.runStart? own]
    · simp only [if_neg own, if_neg (input ▸ own)]

theorem run : left.run = right.run := by
  funext keeps start
  cases start with
  | none => rfl
  | some first => rw [Transducer.run, Transducer.run, same.2.2.1]

theorem freeArcs : left.freeArcs = right.freeArcs := by
  have free : left.consumesNothing = right.consumesNothing := by
    funext record
    unfold consumesNothing Alphabet.isFlag
    rw [same.2.2.input?, same.operation?]
  funext point
  rw [Transducer.freeArcs, Transducer.freeArcs, same.run, free, freeStart?, freeStart?,
    same.runStart?]

theorem tokenArcs : left.tokenArcs = right.tokenArcs := by
  funext point
  unfold Transducer.tokenArcs hasInput
  rw [same.run, same.runStart?, same.2.2.input?]

theorem steps : left.steps = right.steps := by
  funext point
  unfold Transducer.steps freeStep? tokenStep? pass? arrive?
  rw [same.freeArcs, same.tokenArcs, same.operation?, same.2.2.input?, same.2.2.target?]

theorem stops : left.stops = right.stops := by
  have final : left.isFinal = right.isFinal := by
    funext state
    unfold Transducer.isFinal
    rw [same.2.1.isFinal, same.2.2.isFinal]
  funext point
  rw [Transducer.stops, Transducer.stops, final]

theorem overruns (level : Nat) (point : Point) :
    left.overruns level point = right.overruns level point := by
  induction level generalizing point with
  | zero => rfl
  | succ level ih => simp only [Transducer.overruns, same.steps, ih]

theorem paths (level : Nat) (point : Point) : left.paths level point = right.paths level point := by
  induction level generalizing point with
  | zero => rfl
  | succ level ih => simp only [paths_succ, same.steps, same.stops, ih]

theorem outputOf : left.outputOf = right.outputOf := by
  funext path
  rw [Transducer.outputOf, Transducer.outputOf, same.2.2.output?]

end SameArcs

section Lookup

variable {leftSource rightSource source : Source} {word : String} {config : Config}
  {uniqueBy : UniqueBy}
  {tokens : List Symbol}

theorem featureCount_of_load (loaded : load source = .ok transducer) :
    transducer.alphabet.featureCount = transducer.alphabet.featureNames.length := by
  obtain ⟨texts, count, made, -⟩ := alphabet_of_load loaded
  exact (made.numbered count).featureCount

theorem SameArcs.origin (same : left.SameArcs right) (loaded : load leftSource = .ok left)
    (loadedRight : load rightSource = .ok right) : left.origin = right.origin := by
  funext tokens
  rw [Transducer.origin, Transducer.origin, featureCount_of_load loaded,
    featureCount_of_load loadedRight]
  unfold Alphabet.featureNames Alphabet.operations
  rw [same.1]

theorem SameArcs.tokenize (same : left.SameArcs right) (loaded : load leftSource = .ok left)
    (loadedRight : load rightSource = .ok right) : left.tokenize = right.tokenize := by
  obtain ⟨_, -, -, trie⟩ := alphabet_of_load loaded
  obtain ⟨_, -, -, trieRight⟩ := alphabet_of_load loadedRight
  funext word
  rw [Transducer.tokenize, Transducer.tokenize, trie, trieRight]
  unfold LetterTrie.ofAlphabet
  rw [same.keys]

theorem outputs_eq (split : transducer.tokenize word = some tokens) (nonempty : tokens ≠ [])
    (keep : config.deduplicate = false) :
    (transducer.analyze word config uniqueBy).map (List.map Analysis.output) =
      if transducer.overruns config.maxDepth (transducer.origin tokens) then
        .error ⟨config.maxDepth⟩
      else .ok ((transducer.paths config.maxDepth (transducer.origin tokens)).map fun path =>
        transducer.alphabet.render (transducer.outputOf path)) := by
  rw [analyze_eq split nonempty, keep]
  split
  · rfl
  · refine congrArg Except.ok ?_
    simp only [Bool.false_eq_true, if_false, listedOf, paths, List.map_map, Function.comp_def,
      analysisOf]

/-- Weights never steer the search: lookup in transducers that differ in nothing else prints the
same outputs in the same order, or gives up at the same limit. -/
theorem analyze_outputs_eq (loaded : load leftSource = .ok left)
    (loadedRight : load rightSource = .ok right) (same : left.SameArcs right)
    (keep : config.deduplicate = false) (word : String) :
    (left.analyze word config uniqueBy).map (List.map Analysis.output) =
      (right.analyze word config uniqueBy).map (List.map Analysis.output) := by
  have tokenize := same.tokenize loaded loadedRight
  cases split : left.tokenize word with
  | none =>
    rw [analyze_of_no_tokens (.inr split), analyze_of_no_tokens (.inr (tokenize ▸ split))]
  | some tokens =>
    by_cases empty : tokens = []
    · rw [empty] at split
      have noWord := LetterTrie.tokenize_eq_nil_iff.mp split
      rw [analyze_of_no_tokens (.inl noWord), analyze_of_no_tokens (.inl noWord)]
    · rw [outputs_eq split empty keep, outputs_eq (tokenize ▸ split) empty keep,
        same.origin loaded loadedRight, same.overruns, same.paths, same.render, same.outputOf]

end Lookup

end Transducer

namespace Layout

/-- A transducer without weights that copies one letter and ends in a slot of the index table. -/
def copiesLetter : Layout where
  metadata := none
  inputSymbols := 2
  symbols := 2
  indexSize := 6
  transitionSize := 2
  states := 2
  transitions := 1
  properties := .replicate 9 0
  texts := ["".toList, "a".toList]
  slots := List.flatMap Slot.bytes [.empty, .empty, ⟨1, 0x80000000⟩, ⟨noSymbol, 1⟩, .empty, .empty]
  records := List.flatMap (TransitionRecord.bytes false) [⟨1, 1, 3, .zero⟩, .stop]

def copiesLetterWeighted : Layout :=
  { copiesLetter with
    properties := copiesLetter.properties.set 0 1
    slots := List.flatMap Slot.bytes
      [.empty, .empty, ⟨1, 0x80000000⟩, ⟨noSymbol, 0⟩, .empty, .empty]
    records := List.flatMap (TransitionRecord.bytes true) [⟨1, 1, 3, ⟨0x3F800000⟩⟩, .stop] }

end Layout

namespace Transducer

theorem analyze_outputs_eq_copiesLetter : ∃ left right : Transducer,
    load (.ofBytes Layout.copiesLetter.bytes) = .ok left ∧
    load (.ofBytes Layout.copiesLetterWeighted.bytes) = .ok right ∧
    left.SameArcs right ∧ left.isWeighted = false ∧ right.isWeighted = true ∧
    left.index.target? 3 = some 1 ∧ right.index.target? 3 = some 0 ∧
    (left.analyze "a").map (List.map Analysis.output) = .ok ["a"] ∧
    (right.analyze "a").map (List.map Analysis.output) = .ok ["a"] := by
  have looked : (ofBytes Layout.copiesLetter.bytes).toOption.map (fun left =>
      (ofBytes Layout.copiesLetterWeighted.bytes).toOption.map fun right =>
        (decide (left.SameArcs right ∧ left.isWeighted = false ∧ right.isWeighted = true ∧
          left.index.target? 3 = some 1 ∧ right.index.target? 3 = some 0),
          (left.analyze "a").toOption.map (List.map Analysis.output))) =
      some (some (true, some ["a"])) := by
    decide +kernel
  obtain ⟨left, loaded, viewRight⟩ := exists_ok_of_map looked
  obtain ⟨right, loadedRight, view⟩ := exists_ok_of_map viewRight
  simp only [Prod.mk.injEq, decide_eq_true_eq] at view
  obtain ⟨⟨same, leftWeight, rightWeight, leftSlot, rightSlot⟩, printed⟩ := view
  obtain ⟨analyses, found, outputs⟩ := exists_ok_of_map printed
  have first : (left.analyze "a").map (List.map Analysis.output) = .ok ["a"] := by
    rw [found, ← outputs]
    rfl
  exact ⟨left, right, loaded, loadedRight, same, leftWeight, rightWeight, leftSlot, rightSlot,
    first, (analyze_outputs_eq loaded loadedRight same rfl "a").symm.trans first⟩

end Transducer

end OptimizedLookup
