import Mathlib.Data.List.Sort
import OptimizedLookup.Proofs.Path.Analyses

/-! What flags do to a lookup. A flag forbids its record or lets it be taken like one on symbol 0,
so without flags every path is still there, and maybe more are. Paths keep their order, and so the
analyses found with flags are among those found without, in the same order. -/
namespace OptimizedLookup

def Alphabet.unflag (alphabet : Alphabet) (symbol : Symbol) : Symbol :=
  if alphabet.isFlag symbol then 0 else symbol

namespace TransitionRecord

def withoutFlag (alphabet : Alphabet) (stored : TransitionRecord) : TransitionRecord :=
  if (symbol? stored.input).any alphabet.isFlag then { stored with input := 0 } else stored

variable (alphabet : Alphabet) (stored : TransitionRecord)

theorem input_withoutFlag :
    symbol? (stored.withoutFlag alphabet).input = (symbol? stored.input).map alphabet.unflag := by
  unfold withoutFlag
  cases held : symbol? stored.input with
  | none => exact held
  | some symbol =>
    rw [Option.any_some, Option.map_some, Alphabet.unflag]
    by_cases flag : alphabet.isFlag symbol = true
    · rw [if_pos flag, if_pos flag]
      rfl
    · rw [if_neg flag, if_neg flag]
      exact held

@[simp] theorem output_withoutFlag : (stored.withoutFlag alphabet).output = stored.output := by
  unfold withoutFlag
  split <;> rfl

@[simp] theorem target_withoutFlag : (stored.withoutFlag alphabet).target = stored.target := by
  unfold withoutFlag
  split <;> rfl

@[simp] theorem weight_withoutFlag : (stored.withoutFlag alphabet).weight = stored.weight := by
  unfold withoutFlag
  split <;> rfl

end TransitionRecord

namespace Transducer

/-- The transducer with symbol 0 for every flag in its transition table. -/
def withoutFlags (transducer : Transducer) : Transducer :=
  { transducer with
    transitions := { transducer.transitions with
      records := transducer.transitions.records.map (.withoutFlag transducer.alphabet) } }

section Tables

variable (transducer : Transducer) (record : Nat)

theorem getElem?_withoutFlags :
    transducer.withoutFlags.transitions.records[record]? =
      transducer.transitions.records[record]?.map (.withoutFlag transducer.alphabet) :=
  Array.getElem?_map

theorem input?_withoutFlags :
    transducer.withoutFlags.transitions.input? record =
      (transducer.transitions.input? record).map transducer.alphabet.unflag := by
  rw [TransitionTable.input?, TransitionTable.input?, getElem?_withoutFlags]
  cases transducer.transitions.records[record]? with
  | none => rfl
  | some stored => exact stored.input_withoutFlag transducer.alphabet

@[simp] theorem output?_withoutFlags :
    transducer.withoutFlags.transitions.output? record =
      transducer.transitions.output? record := by
  rw [TransitionTable.output?, TransitionTable.output?, getElem?_withoutFlags]
  cases transducer.transitions.records[record]? <;> simp

@[simp] theorem target?_withoutFlags :
    transducer.withoutFlags.transitions.target? record =
      transducer.transitions.target? record := by
  rw [TransitionTable.target?, TransitionTable.target?, getElem?_withoutFlags]
  cases transducer.transitions.records[record]? <;> simp

@[simp] theorem weight?_withoutFlags :
    transducer.withoutFlags.transitions.weight? record =
      transducer.transitions.weight? record := by
  rw [TransitionTable.weight?, TransitionTable.weight?, getElem?_withoutFlags]
  cases transducer.transitions.records[record]? <;> simp

theorem analysisOf_withoutFlags (path : List Nat) (final : ArcWeight) :
    transducer.withoutFlags.analysisOf path final = transducer.analysisOf path final := by
  have prints : transducer.withoutFlags.transitions.output? = transducer.transitions.output? :=
    funext transducer.output?_withoutFlags
  unfold analysisOf outputOf weightOf
  simp only [prints, weight?_withoutFlags]
  rfl

end Tables

variable {transducer : Transducer} {point next last : Point} {record : Nat} {path : List Nat}

section Arcs

variable {address : UInt32} {symbol token : Symbol} {first : Nat} {final : ArcWeight}

theorem input?_withoutFlags_of_consumesNothing (free : transducer.ConsumesNothing record) :
    transducer.withoutFlags.transitions.input? record = some 0 := by
  obtain ⟨symbol, input, zero | flag⟩ := free
  · rw [input?_withoutFlags, input, zero, Option.map_some, Alphabet.unflag, ite_self]
  · rw [input?_withoutFlags, input, Option.map_some, Alphabet.unflag, if_pos flag]

theorem consumesNothing_withoutFlags :
    transducer.withoutFlags.ConsumesNothing record ↔ transducer.ConsumesNothing record := by
  constructor
  · rintro ⟨_, input, free⟩
    rw [input?_withoutFlags] at input
    obtain ⟨symbol, stored, rfl⟩ := Option.map_eq_some_iff.mp input
    refine ⟨symbol, stored, ?_⟩
    by_cases flag : transducer.alphabet.isFlag symbol = true
    · exact .inr flag
    · rw [Alphabet.unflag, if_neg flag] at free
      exact free
  · intro free
    exact ⟨0, input?_withoutFlags_of_consumesNothing free, .inl rfl⟩

theorem Literal.input?_withoutFlags (literal : transducer.Literal token)
    (input : transducer.transitions.input? record = some token) :
    transducer.withoutFlags.transitions.input? record = some token := by
  rw [Transducer.input?_withoutFlags, input, Option.map_some, Alphabet.unflag, literal.2]
  rfl

theorem RunStart.withoutFlags (start : transducer.RunStart symbol address first) :
    transducer.withoutFlags.RunStart symbol address first := by
  cases start with
  | ofSlot below own points within => exact .ofSlot below own points within
  | ofRecord within => exact .ofRecord within

theorem FreeArc.withoutFlags (arc : transducer.FreeArc address record) :
    transducer.withoutFlags.FreeArc address record := by
  obtain ⟨first, start, run⟩ := arc
  exact ⟨first, start.withoutFlags, run.imp fun _ => consumesNothing_withoutFlags.mpr⟩

theorem TokenArc.withoutFlags (arc : transducer.TokenArc token address record)
    (literal : transducer.Literal token) :
    transducer.withoutFlags.TokenArc token address record := by
  obtain ⟨first, start, run⟩ := arc
  exact ⟨first, start.withoutFlags, run.imp fun _ => literal.input?_withoutFlags⟩

theorem FinalWeight.withoutFlags (ends : transducer.FinalWeight address final) :
    transducer.withoutFlags.FinalWeight address final := by
  cases ends with
  | ofSlot below noInput target stored => exact .ofSlot below noInput target stored
  | ofRecord within noInput noOutput mark stored =>
    refine .ofRecord within ?_ ?_ ?_ ?_
    · rw [input?_withoutFlags, noInput, Option.map_none]
    · rwa [output?_withoutFlags]
    · rwa [target?_withoutFlags]
    · rwa [weight?_withoutFlags]

end Arcs

theorem Step.withoutFlags (step : transducer.Step point record next)
    (literal : ∀ token ∈ point.rest, transducer.Literal token) (flags : Flag.Stack) :
    transducer.withoutFlags.Step { point with flags } record { next with flags } := by
  have target {address : UInt32} (found : transducer.transitions.target? record = some address) :
      transducer.withoutFlags.transitions.target? record = some address := by
    rwa [target?_withoutFlags]
  cases step with
  | epsilon arc _ found =>
    exact .epsilon arc.withoutFlags
      (input?_withoutFlags_of_consumesNothing arc.consumesNothing) (target found)
  | flag arc _ _ _ _ found =>
    exact .epsilon arc.withoutFlags
      (input?_withoutFlags_of_consumesNothing arc.consumesNothing) (target found)
  | @token _ token _ onward arc found =>
    have known : transducer.Literal token := literal token (onward ▸ List.mem_cons_self)
    exact .token onward (arc.withoutFlags known) (target found)

theorem Follows.withoutFlags (follows : transducer.Follows point path last)
    (literal : ∀ token ∈ point.rest, transducer.Literal token) (flags : Flag.Stack) :
    transducer.withoutFlags.Follows { point with flags } path { last with flags } := by
  induction follows with
  | nil => exact .nil _
  | cons step _ ih =>
    have later := ih fun token mem => literal token (step.rest_suffix.mem mem)
    exact .cons (step.withoutFlags literal flags) later

theorem Before.withoutFlags {left right : List Nat} (before : transducer.Before left right) :
    transducer.withoutFlags.Before left right := by
  induction before with
  | continued record path => exact .continued record path
  | parted before leftRest rightRest =>
    refine .parted ?_ leftRest rightRest
    unfold RecordBefore
    rwa [consumesNothing_withoutFlags, consumesNothing_withoutFlags]
  | shared record _ ih => exact .shared record ih

section Lookup

variable {level : Nat} {source : Source} {word : String} {config : Config}
  {uniqueBy : UniqueBy}

theorem overruns_withoutFlags (literal : ∀ token ∈ point.rest, transducer.Literal token)
    (overruns : transducer.overruns level point = true) :
    transducer.withoutFlags.overruns level point = true := by
  obtain ⟨path, last, length, follows⟩ := overruns_iff.mp overruns
  exact overruns_iff.mpr ⟨path, _, length, follows.withoutFlags literal point.flags⟩

theorem mem_listing_withoutFlags (literal : ∀ token ∈ point.rest, transducer.Literal token)
    {final : ArcWeight} (listed : (path, final) ∈ transducer.listing level point) :
    (path, final) ∈ transducer.withoutFlags.listing level point := by
  obtain ⟨short, last, follows, consumed, ends⟩ := mem_listing.mp listed
  exact mem_listing.mpr
    ⟨short, _, follows.withoutFlags literal point.flags, consumed, ends.withoutFlags⟩

theorem listing_sublist_withoutFlags
    (literal : ∀ token ∈ point.rest, transducer.Literal token) :
    (transducer.listing level point).Sublist (transducer.withoutFlags.listing level point) := by
  -- Both listings have their paths in the one order that paths have, each of them once. So it is
  -- enough that all paths of the one are in the other.
  let order (left right : List Nat × ArcWeight) : Prop :=
    transducer.withoutFlags.Before left.1 right.1
  have : Std.Asymm order := ⟨fun _ _ before => before.asymm⟩
  have ordered : (transducer.listing level point).Pairwise order :=
    (pairwise_listing literal).imp Before.withoutFlags
  have orderedAll : (transducer.withoutFlags.listing level point).Pairwise order :=
    pairwise_listing literal
  have inside : transducer.listing level point ⊆ transducer.withoutFlags.listing level point :=
    fun (_, _) listed => mem_listing_withoutFlags literal listed
  have fewer := List.subperm_of_subset ordered.nodup inside
  exact List.sublist_of_subperm_of_pairwise fewer ordered orderedAll

theorem listedOf_sublist_withoutFlags {tokens : List Symbol}
    (literal : ∀ token ∈ tokens, transducer.Literal token) :
    (transducer.listedOf level tokens).Sublist (transducer.withoutFlags.listedOf level tokens) := by
  have origin : transducer.withoutFlags.origin tokens = transducer.origin tokens := rfl
  unfold listedOf
  simp only [origin, analysisOf_withoutFlags]
  exact (listing_sublist_withoutFlags literal).map _

/-- Flags only take analyses away: where lookup without them gives analyses, lookup with them gives
some of these, with the same outputs and weights and in the same order. -/
theorem analyze_sublist_withoutFlags (loaded : load source = .ok transducer)
    (keep : config.deduplicate = false) {all : List Analysis}
    (found : transducer.withoutFlags.analyze word config uniqueBy = .ok all) :
    ∃ analyses, transducer.analyze word config uniqueBy = .ok analyses ∧
      analyses.Sublist all := by
  obtain none | ⟨tokens, split, nonempty⟩ := transducer.no_tokens_or_exists word
  · exact ⟨[], analyze_of_no_tokens none, List.nil_sublist all⟩
  · have literal := literal_of_load loaded split
    -- the alphabet and the trie are the same, and so are the tokens and the origin
    have splitSame : transducer.withoutFlags.tokenize word = some tokens := split
    obtain ⟨short, rfl⟩ := (analyze_eq_ok_iff splitSame nonempty).mp found
    have shorter : transducer.overruns config.maxDepth (transducer.origin tokens) = false := by
      rw [← Bool.not_eq_true] at short ⊢
      exact fun overruns => short (overruns_withoutFlags literal overruns)
    refine ⟨_, (analyze_eq_ok_iff split nonempty).mpr ⟨shorter, rfl⟩, ?_⟩
    rw [keep]
    exact (listedOf_sublist_withoutFlags literal).map Prod.snd

end Lookup

end Transducer

namespace Layout

/-- A transducer that sets a feature and goes on in two ways to its one letter. The second way
requires another value of the feature and prints the letter once more. -/
def forbidsSecond : Layout where
  metadata := none
  inputSymbols := 2
  symbols := 4
  indexSize := 2
  transitionSize := 7
  states := 4
  transitions := 4
  properties := .replicate 9 0
  texts := ["".toList, "a".toList, "@P.F.X@".toList, "@R.F.Y@".toList]
  slots := List.flatMap Slot.bytes [.empty, ⟨0, 0x80000000⟩]
  records := List.flatMap (TransitionRecord.bytes false)
    [⟨2, 0, 0x80000001, .zero⟩, .stop, ⟨0, 0, 0x80000004, .zero⟩, ⟨3, 1, 0x80000004, .zero⟩,
      .stop, ⟨1, 1, 0x80000006, .zero⟩, .final]

end Layout

namespace Transducer

theorem analyze_sublist_withoutFlags_forbidsSecond :
    ∃ (transducer : Transducer) (all analyses : List Analysis),
      load (.ofBytes Layout.forbidsSecond.bytes) = .ok transducer ∧
      transducer.withoutFlags.analyze "a" = .ok all ∧ all.map Analysis.output = ["a", "aa"] ∧
      transducer.analyze "a" = .ok analyses ∧ analyses.map Analysis.output = ["a"] ∧
      analyses.Sublist all := by
  have looked : (ofBytes Layout.forbidsSecond.bytes).toOption.map (fun transducer =>
      ((transducer.analyze "a").toOption.map fun analyses => analyses.map Analysis.output,
        (transducer.withoutFlags.analyze "a").toOption.map fun all => all.map Analysis.output)) =
      some (some ["a"], some ["a", "aa"]) := by
    decide +kernel
  obtain ⟨transducer, loaded, view⟩ := exists_ok_of_map looked
  obtain ⟨outputs, outputsOfAll⟩ := Prod.mk.inj view
  obtain ⟨listed, given, printed⟩ := exists_ok_of_map outputs
  obtain ⟨all, found, printedOfAll⟩ := exists_ok_of_map outputsOfAll
  obtain ⟨analyses, same, sublist⟩ := analyze_sublist_withoutFlags loaded rfl found
  obtain rfl : listed = analyses := Except.ok.inj (given.symm.trans same)
  exact ⟨transducer, all, listed, loaded, found, printedOfAll, given, printed, sublist⟩

end Transducer

end OptimizedLookup
