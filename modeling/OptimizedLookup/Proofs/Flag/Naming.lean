import Mathlib.Data.List.Nodup
import Mathlib.Data.List.Perm.Subperm
import OptimizedLookup.Proofs.Flag.Refinement
import OptimizedLookup.Proofs.Flag.Spelling

/-! The names of an alphabet's flags and their numbers. Features and values are numbered alike:
every name has one number of its own, the numbers have no gaps, and they follow the symbols at which
the names first occur. There are few enough names for all numbers to fit, or else the alphabet is
refused. -/
namespace OptimizedLookup.Alphabet

/-- What the flags of an alphabet are called by `name` is numbered from `base` on, in the order of
the first symbols: one number is less than another if a flag of its name stands in front of all
flags of the other. There are `count` names. -/
structure NumbersInOrder (alphabet : Alphabet) (name : Flag.Operation → String)
    (number : Flag.Operation → Int) (base : Int) (count : Nat) : Prop where
  eq_iff : ∀ left first right second, alphabet.operation? left = some first →
    alphabet.operation? right = some second →
      (number first = number second ↔ name first = name second)
  lt_iff : ∀ left first right second, alphabet.operation? left = some first →
    alphabet.operation? right = some second → (number first < number second ↔
      ∃ early operation, alphabet.operation? early = some operation ∧ name operation = name first ∧
        ∀ late other, alphabet.operation? late = some other → name other = name second →
          early < late)
  dense : ∀ place, (∃ symbol operation, alphabet.operation? symbol = some operation ∧
    number operation = place) ↔ base ≤ place ∧ place < base + count
  distinct : ∃ names : List String, names.Nodup ∧ names.length = count ∧ ∀ text, text ∈ names ↔
    ∃ symbol operation, alphabet.operation? symbol = some operation ∧ name operation = text

def namesBy (alphabet : Alphabet) (name : Flag.Operation → String) : List String :=
  alphabet.operations.map fun pair => name pair.2

variable {alphabet : Alphabet} {name : Flag.Operation → String} {left right : String}

section Names

variable (bounded : alphabet.entries.size ≤ UInt16.size)
include bounded

theorem mem_namesBy_iff {text : String} : text ∈ alphabet.namesBy name ↔
    ∃ symbol operation, alphabet.operation? symbol = some operation ∧ name operation = text := by
  simp only [namesBy, List.mem_map, Prod.exists, mem_operations_iff bounded]

theorem mem_namesBy (name : Flag.Operation → String) {symbol : Symbol} {operation : Flag.Operation}
    (found : alphabet.operation? symbol = some operation) :
    name operation ∈ alphabet.namesBy name :=
  (mem_namesBy_iff bounded).mpr ⟨symbol, operation, found, rfl⟩

theorem idxOf_namesBy_lt_iff (known : right ∈ alphabet.namesBy name) :
    (alphabet.namesBy name).eraseDups.idxOf left < (alphabet.namesBy name).eraseDups.idxOf right ↔
      ∃ early operation, alphabet.operation? early = some operation ∧ name operation = left ∧
        ∀ late other, alphabet.operation? late = some other → name other = right →
          early < late := by
  obtain ⟨front, back, split, fresh⟩ := List.eq_append_cons_of_mem known
  have ordered := pairwise_operations bounded
  obtain ⟨before, rest, whole, rfl, onward⟩ := List.map_eq_append_iff.mp split
  obtain ⟨first, behind, rfl, rfl, -⟩ := List.map_eq_cons_iff.mp onward
  rw [whole, List.pairwise_append, List.pairwise_cons] at ordered
  obtain ⟨-, ⟨firstBefore, -⟩, apart⟩ := ordered
  simp only [← mem_operations_iff bounded, whole]
  rw [split, Interning.idxOf_eraseDups_lt_iff fresh]
  constructor
  · intro mem
    obtain ⟨early, inFront, rfl⟩ := List.mem_map.mp mem
    refine ⟨early.1, early.2, List.mem_append_left _ inFront, rfl, fun late other stands same => ?_⟩
    rcases List.mem_append.mp stands with inFrontToo | behindToo
    · exact absurd (List.mem_map.mpr ⟨_, inFrontToo, same⟩) fresh
    · exact apart _ inFront _ behindToo
  · rintro ⟨early, operation, stands, rfl, least⟩
    have ahead := least first.1 first.2 (List.mem_append_right _ List.mem_cons_self) rfl
    rcases List.mem_append.mp stands with inFront | notInFront
    · exact List.mem_map.mpr ⟨_, inFront, rfl⟩
    · -- nothing that stands behind the first flag of a name is in front of it
      exfalso
      rcases List.mem_cons.mp notInFront with same | behindFirst
      · rw [← same] at ahead
        exact absurd ahead (UInt16.lt_irrefl _)
      · exact absurd ahead (UInt16.lt_asymm (firstBefore _ behindFirst))

theorem numbersInOrder_of_idxOf {number : Flag.Operation → Int} {base : Int}
    (places : ∀ symbol operation, alphabet.operation? symbol = some operation →
      number operation = base + ((alphabet.namesBy name).eraseDups.idxOf (name operation) : Nat)) :
    alphabet.NumbersInOrder name number base (alphabet.namesBy name).eraseDups.length where
  eq_iff left first right second found foundToo := by
    have known := mem_namesBy bounded name found
    rw [places left first found, places right second foundToo]
    exact ⟨fun same => Interning.idxOf_eraseDups_inj known (by omega), fun same => by rw [same]⟩
  lt_iff left first right second found foundToo := by
    have known := mem_namesBy bounded name foundToo
    rw [places left first found, places right second foundToo, ← idxOf_namesBy_lt_iff bounded known]
    omega
  dense place := by
    constructor
    · rintro ⟨symbol, operation, found, rfl⟩
      have within := Interning.idxOf_eraseDups_lt (mem_namesBy bounded name found)
      rw [places symbol operation found]
      omega
    · rintro ⟨least, below⟩
      have within : (place - base).toNat < (alphabet.namesBy name).eraseDups.length := by omega
      have mem := List.mem_eraseDups.mp (List.getElem_mem within)
      obtain ⟨symbol, operation, found, same⟩ := (mem_namesBy_iff bounded).mp mem
      refine ⟨symbol, operation, found, ?_⟩
      rw [places symbol operation found, same, (Interning.nodup_eraseDups _).idxOf_getElem]
      omega
  distinct := ⟨(alphabet.namesBy name).eraseDups, Interning.nodup_eraseDups _, rfl, fun text => by
    rw [List.mem_eraseDups, mem_namesBy_iff bounded]⟩

end Names

variable {texts : List (List Char)}

theorem Of.numbers_features (made : alphabet.Of texts) (count : texts.length < UInt16.size) :
    alphabet.NumbersInOrder Flag.Operation.feature (fun operation => operation.featureNumber.toNat)
      0 alphabet.featureCount := by
  have numbered := made.numbered count
  rw [numbered.featureCount]
  refine numbersInOrder_of_idxOf (made.size_entries_le count) fun symbol operation found => ?_
  have place := numbered.feature symbol operation found
  obtain ⟨within, same⟩ := List.getElem?_eq_some_iff.mp place
  have nodup : alphabet.featureNames.Nodup := Interning.nodup_eraseDups _
  have index : alphabet.featureNames.idxOf operation.feature = operation.featureNumber.toNat := by
    rw [← same, nodup.idxOf_getElem]
  rw [Int.zero_add, ← index]
  rfl

theorem Of.numbers_values (made : alphabet.Of texts) (count : texts.length < UInt16.size) :
    alphabet.NumbersInOrder Flag.Operation.value (fun operation => operation.valueNumber.toInt)
      1 alphabet.valueNames.length := by
  have numbered := made.numbered count
  refine numbersInOrder_of_idxOf (made.size_entries_le count) fun symbol operation found => ?_
  obtain ⟨known, same⟩ := numbered.value symbol operation found
  rw [same, number, toInt_ofNat_valueNumber numbered known, Int.add_comm]
  rfl

def NamesValue (texts : List (List Char)) (value : String) : Prop :=
  ∃ (index : Nat) (text : List Char) (flag : Flag.Spelling), index ≠ 0 ∧ texts[index]? = some text ∧
    Flag.Written text flag ∧ String.ofList flag.value = value

theorem mem_valuesOf_iff {value : String} : value ∈ valuesOf texts ↔ NamesValue texts value := by
  rw [valuesOf, List.mem_map]
  constructor
  · rintro ⟨flag, mem, rfl⟩
    obtain ⟨text, stands, isFlag⟩ := List.mem_filterMap.mp mem
    obtain ⟨index, found⟩ := List.mem_iff_getElem?.mp stands
    rw [List.getElem?_drop] at found
    exact ⟨1 + index, text, flag, by omega, found, Flag.Spelling.written_of_ofText? isFlag, rfl⟩
  · rintro ⟨index, text, flag, later, found, written, rfl⟩
    exact ⟨flag, mem_flagsOf found later (Flag.Spelling.ofText?_of_written written), rfl⟩

theorem lt_length_valuesOf_iff (limit : Nat) : limit < (valuesOf texts).eraseDups.length ↔
    ∃ values : List String, values.Nodup ∧ limit < values.length ∧
      ∀ value ∈ values, NamesValue texts value := by
  constructor
  · intro more
    refine ⟨_, Interning.nodup_eraseDups _, more, fun value mem => ?_⟩
    exact mem_valuesOf_iff.mp (List.mem_eraseDups.mp mem)
  · rintro ⟨values, nodup, more, named⟩
    have inside : values ⊆ (valuesOf texts).eraseDups := fun value mem =>
      List.mem_eraseDups.mpr (mem_valuesOf_iff.mpr (named value mem))
    exact Nat.lt_of_lt_of_le more (List.subperm_of_subset nodup inside).length_le

/-- In an alphabet that is read, equal names and equal numbers go together, for features and for
values of all features, and the numbers of either count the names as they come. Values have numbers
up to 32767; texts whose flags name more values than that are refused, and for nothing else is this
error given. -/
theorem read_numbers (count : Symbol) (source : Source) :
    (∀ alphabet rest, (Alphabet.read count.toNat).run source = .ok (alphabet, rest) →
      alphabet.NumbersInOrder Flag.Operation.feature
        (fun operation => operation.featureNumber.toNat) 0 alphabet.featureCount ∧
      alphabet.featureCount < 0x10000 ∧
      ∃ values ≤ 32767, alphabet.NumbersInOrder Flag.Operation.value
        (fun operation => operation.valueNumber.toInt) 1 values) ∧
    ∀ texts more, texts.length = count.toNat → (∀ text ∈ texts, '\x00' ∉ text) →
      source.contents = texts.flatMap terminated ++ more →
      ((Alphabet.read count.toNat).run source = .error (.format .tooManyFlagValues) ↔
        ∃ values : List String, values.Nodup ∧ 32767 < values.length ∧
          ∀ value ∈ values, NamesValue texts value) := by
  refine ⟨fun alphabet rest found => ?_, fun texts more length clean contents => ?_⟩
  · obtain ⟨texts, length, made⟩ := of_read found
    have bounded : texts.length < UInt16.size := length ▸ count.toNat_lt
    refine ⟨made.numbers_features bounded, ?_, _, ?_, made.numbers_values bounded⟩
    · rw [made.featureCount]
      exact Nat.lt_of_le_of_lt (length_featuresOf_le texts) bounded
    · rw [made.valueNames]
      exact made.bounded
  · rw [← lt_length_valuesOf_iff, ← length]
    have outcome := run_read clean contents
    by_cases fits : (valuesOf texts).eraseDups.length ≤ valueLimit
    · rw [if_pos fits] at outcome
      obtain ⟨alphabet, rest, found, -⟩ := outcome
      rw [found]
      exact iff_of_false nofun (Nat.not_lt.mpr fits)
    · rw [if_neg fits] at outcome
      exact iff_of_true outcome (Nat.lt_of_not_le fits)

def longFlag (size : Nat) : List Char :=
  '@' :: 'N' :: '.' :: (['F'] ++ '.' :: List.replicate size 'x' ++ ['@'])

def manyValues : List (List Char) := [] :: (List.range 32768).map longFlag

theorem namesValue_manyValues {size : Nat} (small : size < 32768) :
    NamesValue manyValues (String.ofList (List.replicate size 'x')) := by
  have undotted : '.' ∉ List.replicate size 'x' := fun mem =>
    absurd (List.eq_of_mem_replicate mem) (by decide)
  have written : Flag.Written (longFlag size) ⟨.negativeSet, ['F'], List.replicate size 'x'⟩ :=
    .valued .negativeSet (show '.' ∉ ['F'] by decide) undotted
  refine ⟨size + 1, longFlag size, _, Nat.succ_ne_zero _, ?_, written, rfl⟩
  rw [manyValues, List.getElem?_cons_succ, List.getElem?_map, List.getElem?_range small]
  rfl

theorem noNul_manyValues : ∀ text ∈ manyValues, '\x00' ∉ text := by
  intro text mem
  rcases List.mem_cons.mp mem with rfl | mem
  · exact List.not_mem_nil
  · obtain ⟨size, -, rfl⟩ := List.mem_map.mp mem
    simp [longFlag, List.mem_replicate]

/-- Flags without a value share the number of the empty one, whatever their features. One flag value
more than there are numbers is too many. -/
theorem read_numbers_shared :
    (∃ alphabet rest positive require disallow,
      let texts := ["", "@P.A.X@", "@R.B@", "a", "@D.A@"].map String.toList
      (Alphabet.read 5).run (.ofBytes (texts.flatMap terminated)) = .ok (alphabet, rest) ∧
      alphabet.operation? 1 = some positive ∧ alphabet.operation? 2 = some require ∧
      alphabet.operation? 4 = some disallow ∧
      require.valueNumber.toInt = disallow.valueNumber.toInt ∧
      (positive.featureNumber.toNat : Int) = disallow.featureNumber.toNat ∧
      (require.featureNumber.toNat : Int) ≠ disallow.featureNumber.toNat ∧
      alphabet.featureCount < 0x10000) ∧
    (Alphabet.read 32769).run (.ofBytes (manyValues.flatMap terminated)) =
      .error (.format .tooManyFlagValues) := by
  constructor
  · let texts := ["", "@P.A.X@", "@R.B@", "a", "@D.A@"].map String.toList
    have looked : ((Alphabet.read 5).run (.ofBytes (texts.flatMap terminated))).toOption.map
        (fun result => (result.1.operation? 1, result.1.operation? 2, result.1.operation? 4)) =
        some (some ⟨.positiveSet, "A", "X", 0, 1⟩, some ⟨.require, "B", "", 1, 2⟩,
          some ⟨.disallow, "A", "", 0, 2⟩) := by
      decide +kernel
    obtain ⟨⟨alphabet, rest⟩, found, view⟩ := exists_ok_of_map looked
    obtain ⟨first, view⟩ := Prod.mk.inj view
    obtain ⟨second, fourth⟩ := Prod.mk.inj view
    obtain ⟨features, few, _, -, values⟩ := (read_numbers 5 _).1 alphabet rest found
    refine ⟨alphabet, rest, _, _, _, found, first, second, fourth, ?_, ?_, ?_, few⟩
    · exact (values.eq_iff 2 _ 4 _ second fourth).mpr rfl
    · exact (features.eq_iff 1 _ 4 _ first fourth).mpr rfl
    · exact mt (features.eq_iff 2 _ 4 _ second fourth).mp (by decide)
  · have contents : (Source.ofBytes (manyValues.flatMap terminated)).contents =
        manyValues.flatMap terminated ++ [] := by
      rw [Source.contents_ofBytes, List.append_nil]
    have length : manyValues.length = (32769 : Symbol).toNat := by
      rw [manyValues, List.length_cons, List.length_map, List.length_range]
      rfl
    have refused := (read_numbers 32769 _).2 manyValues [] length noNul_manyValues contents
    refine refused.mpr ⟨(List.range 32768).map fun size => String.ofList (List.replicate size 'x'),
      ?_, ?_, ?_⟩
    · refine List.nodup_range.map fun size other same => ?_
      have lengths := congrArg String.length same
      simpa using lengths
    · rw [List.length_map, List.length_range]
      decide
    · intro value mem
      obtain ⟨size, inRange, rfl⟩ := List.mem_map.mp mem
      exact namesValue_manyValues (List.mem_range.mp inRange)

end OptimizedLookup.Alphabet
