import Mathlib.Data.List.Perm.Subperm
import Mathlib.Logic.Relation
import OptimizedLookup.Proofs.Path.Analyses

/-! How deep a search can go. Between two tokens a path that takes a record twice has gone round a
loop of free arcs, so without such a loop the records bound its length; a limit above the bound is
only ever exceeded in a loop. -/
namespace OptimizedLookup

namespace Transducer

open Relation

def FreeLink (transducer : Transducer) (address next : UInt32) : Prop :=
  ∃ record, transducer.FreeArc address record ∧
    transducer.transitions.target? record = some next

def Link (transducer : Transducer) (address next : UInt32) : Prop :=
  transducer.FreeLink address next ∨ ∃ token record, transducer.TokenArc token address record ∧
    transducer.transitions.target? record = some next

/-- Some address that the tables lead to from address 0 is led back to by free arcs. -/
def Loops (transducer : Transducer) : Prop :=
  ∃ address, ReflTransGen transducer.Link 0 address ∧ TransGen transducer.FreeLink address address

/-- The records that a path took since its last token, at the address where it stands: none of them
twice, and from the target of each one free arcs lead on to the address. -/
structure Stretch (transducer : Transducer) (address : UInt32) (taken : List Nat) : Prop where
  nodup : taken.Nodup
  within : ∀ record ∈ taken, record < transducer.transitions.size
  leads : ∀ record ∈ taken, ∃ target, transducer.transitions.target? record = some target ∧
    ReflTransGen transducer.FreeLink target address

variable {transducer : Transducer} {address next : UInt32} {record : Nat} {taken : List Nat}

theorem stretch_nil (transducer : Transducer) (address : UInt32) :
    transducer.Stretch address [] :=
  ⟨.nil, nofun, nofun⟩

theorem Stretch.length_le (stretch : transducer.Stretch address taken) :
    taken.length ≤ transducer.transitions.size := by
  have inside : taken ⊆ List.range transducer.transitions.size := fun record mem =>
    List.mem_range.mpr (stretch.within record mem)
  have few := (List.subperm_of_subset stretch.nodup inside).length_le
  rwa [List.length_range] at few

theorem FreeArc.lt_size (arc : transducer.FreeArc address record) :
    record < transducer.transitions.size := by
  obtain ⟨symbol, input, -⟩ := arc.consumesNothing
  exact lt_size_of_input? input

theorem Stretch.onward (stretch : transducer.Stretch address taken)
    (arc : transducer.FreeArc address record)
    (target : transducer.transitions.target? record = some next) :
    TransGen transducer.FreeLink next next ∨ transducer.Stretch next (record :: taken) := by
  have link : transducer.FreeLink address next := ⟨record, arc, target⟩
  by_cases again : record ∈ taken
  · obtain ⟨same, points, reaches⟩ := stretch.leads record again
    obtain rfl : next = same := Option.some.inj (target.symm.trans points)
    exact .inl (TransGen.tail' reaches link)
  · refine .inr ⟨List.nodup_cons.mpr ⟨again, stretch.nodup⟩, ?_, ?_⟩
    · exact List.forall_mem_cons.mpr ⟨arc.lt_size, stretch.within⟩
    · refine List.forall_mem_cons.mpr ⟨⟨next, target, .refl⟩, fun other mem => ?_⟩
      obtain ⟨first, points, reaches⟩ := stretch.leads other mem
      exact ⟨first, points, reaches.tail link⟩

theorem Step.arc {point after : Point} (step : transducer.Step point record after) :
    transducer.transitions.target? record = some after.address ∧
      (transducer.FreeArc point.address record ∧ after.rest = point.rest ∨
        ∃ token, transducer.TokenArc token point.address record ∧
          point.rest = token :: after.rest) := by
  cases step with
  | epsilon arc input target => exact ⟨target, .inl ⟨arc, rfl⟩⟩
  | flag arc input proper isFlag accepted target => exact ⟨target, .inl ⟨arc, rfl⟩⟩
  | token onward arc target => exact ⟨target, .inr ⟨_, arc, onward⟩⟩

theorem Follows.length_le {point last : Point} {path : List Nat} (straight : ¬ transducer.Loops)
    (follows : transducer.Follows point path last)
    (reached : ReflTransGen transducer.Link 0 point.address)
    (stretch : transducer.Stretch point.address taken) :
    path.length + taken.length ≤
      point.rest.length + (point.rest.length + 1) * transducer.transitions.size := by
  -- `taken` are the records since the last token, and each token makes room for one more stretch
  induction follows generalizing taken with
  | nil point =>
    have few := stretch.length_le
    rw [Nat.succ_mul, List.length_nil]
    omega
  | @cons point after last record path step _ ih =>
    obtain ⟨target, ⟨arc, same⟩ | ⟨token, arc, onward⟩⟩ := step.arc
    · have link : transducer.Link point.address after.address := .inl ⟨record, arc, target⟩
      rcases stretch.onward arc target with loop | longer
      · exact absurd ⟨after.address, reached.tail link, loop⟩ straight
      · have rest := ih (reached.tail link) longer
        rw [same, List.length_cons] at rest
        rw [List.length_cons]
        omega
    · have link : transducer.Link point.address after.address := .inr ⟨token, record, arc, target⟩
      have rest := ih (reached.tail link) (stretch_nil transducer after.address)
      have few := stretch.length_le
      rw [List.length_nil] at rest
      rw [onward, List.length_cons, List.length_cons, Nat.succ_mul]
      omega

/-- Where the limit leaves room for every record once before, between and after the tokens, it is
exceeded only if the tables have a loop that consumes nothing; without one there are analyses. -/
theorem analyze_exceeds_in_loops {word : String} {tokens : List Symbol}
    (split : transducer.tokenize word = some tokens) (nonempty : tokens ≠ []) (config : Config)
    (uniqueBy : UniqueBy)
    (room : tokens.length + (tokens.length + 1) * transducer.transitions.size < config.maxDepth) :
    (∀ error, transducer.analyze word config uniqueBy = .error error → transducer.Loops) ∧
    (¬ transducer.Loops →
      ∃ analyses, transducer.analyze word config uniqueBy = .ok analyses) := by
  have short (straight : ¬ transducer.Loops) :
      transducer.overruns config.maxDepth (transducer.origin tokens) = false := by
    rw [← Bool.not_eq_true, overruns_iff_le]
    rintro ⟨path, last, follows, long⟩
    have bounded := follows.length_le straight .refl (stretch_nil transducer 0)
    change path.length + 0 ≤ tokens.length + (tokens.length + 1) * _ at bounded
    omega
  rw [analyze_eq split nonempty]
  constructor
  · intro error found
    refine Classical.byContradiction fun straight => ?_
    rw [short straight] at found
    contradiction
  · intro straight
    rw [short straight]
    exact ⟨_, rfl⟩

end Transducer

namespace Layout

/-- A transducer whose one transition consumes nothing and leads back to where it starts. -/
def stays : Layout where
  metadata := none
  inputSymbols := 2
  symbols := 2
  indexSize := 2
  transitionSize := 2
  states := 1
  transitions := 1
  properties := .replicate 9 0
  texts := ["".toList, "a".toList]
  slots := List.flatMap Slot.bytes [.empty, ⟨0, 0x80000000⟩]
  records := List.flatMap (TransitionRecord.bytes false) [⟨0, 0, 0, .zero⟩, .stop]

end Layout

namespace Transducer

theorem analyze_exceeds_in_loops_stays : ∃ transducer : Transducer,
    load (.ofBytes Layout.stays.bytes) = .ok transducer ∧ transducer.transitions.size = 2 ∧
    transducer.tokenize "a" = some [1] ∧
    (∃ error, transducer.analyze "a" { maxDepth := 6 } = .error error) ∧ transducer.Loops := by
  have looked : (ofBytes Layout.stays.bytes).toOption.map (fun transducer =>
      (transducer.transitions.size, transducer.tokenize "a",
        (transducer.analyze "a" { maxDepth := 6 }).toOption.isSome)) =
      some (2, some [1], false) := by
    decide +kernel
  obtain ⟨transducer, loaded, view⟩ := exists_ok_of_map looked
  obtain ⟨size, outcomes⟩ := Prod.mk.inj view
  obtain ⟨split, given⟩ := Prod.mk.inj outcomes
  obtain ⟨gaveUp, -⟩ := analyze_exceeds_in_loops split (List.cons_ne_nil 1 []) { maxDepth := 6 }
    .inOrder (by rw [size]; decide)
  cases found : transducer.analyze "a" { maxDepth := 6 } with
  | ok analyses =>
    rw [found] at given
    contradiction
  | error error => exact ⟨transducer, loaded, size, split, ⟨error, found⟩, gaveUp error found⟩

end Transducer

end OptimizedLookup
