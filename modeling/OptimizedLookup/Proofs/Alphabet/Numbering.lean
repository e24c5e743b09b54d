import OptimizedLookup.Proofs.Alphabet.Reading
import OptimizedLookup.Proofs.Flag.Environment

/-! The numbers of an alphabet, read off its operations. Features and values are listed in the
order in which flags first name them; the number of a feature is its place in the list, that of a
value is one more, and the sign says whether the value is meant or everything but the value. -/
namespace OptimizedLookup

namespace Alphabet

def featureNames (alphabet : Alphabet) : List String :=
  (alphabet.operations.map fun (_, operation) => operation.feature).eraseDups

def valueNames (alphabet : Alphabet) : List String :=
  (alphabet.operations.map fun (_, operation) => operation.value).eraseDups

def number (alphabet : Alphabet) : Flag.Binding → Int16
  | none => 0
  | some (value, .positive) => Int16.ofNat (alphabet.valueNames.idxOf value + 1)
  | some (value, .negative) => -Int16.ofNat (alphabet.valueNames.idxOf value + 1)

/-- The state that stands for an environment: what each feature is bound to, as a number. -/
def encode (alphabet : Alphabet) (environment : Flag.Environment) : Flag.Features :=
  (alphabet.featureNames.map fun feature => alphabet.number (environment feature)).toArray

def Knows (alphabet : Alphabet) (binding : Flag.Binding) : Prop :=
  ∀ value polarity, binding = some (value, polarity) → value ∈ alphabet.valueNames

variable {alphabet : Alphabet} {texts : List (List Char)}

theorem mem_operations_iff (bounded : alphabet.entries.size ≤ UInt16.size) {symbol : Symbol}
    {operation : Flag.Operation} :
    (symbol, operation) ∈ alphabet.operations ↔ alphabet.operation? symbol = some operation := by
  rw [Alphabet.operation?, Option.bind_eq_some_iff, operations, List.mem_filterMap]
  constructor
  · rintro ⟨⟨entry, index⟩, stored, same⟩
    obtain ⟨_, isFlag, same⟩ := Option.map_eq_some_iff.mp same
    obtain ⟨rfl, rfl⟩ := Prod.mk.inj same
    rw [List.mem_zipIdx_iff_getElem?, Array.getElem?_toList] at stored
    have within := (Array.getElem?_eq_some_iff.mp stored).1
    refine ⟨entry, ?_, isFlag⟩
    rw [Alphabet.entry?, UInt16.toNat_ofNat_of_lt' (Nat.lt_of_lt_of_le within bounded)]
    exact stored
  · rintro ⟨entry, stored, isFlag⟩
    refine ⟨(entry, symbol.toNat), ?_, ?_⟩
    · rw [List.mem_zipIdx_iff_getElem?, Array.getElem?_toList]
      exact stored
    · dsimp only
      rw [isFlag, Option.map_some, UInt16.ofNat_toNat]

theorem pairwise_operations (bounded : alphabet.entries.size ≤ UInt16.size) :
    alphabet.operations.Pairwise fun left right => left.1 < right.1 := by
  have places : alphabet.entries.toList.zipIdx.Pairwise fun left right => left.2 < right.2 := by
    rw [← List.pairwise_map, List.zipIdx_map_snd]
    exact List.pairwise_lt_range'
  rw [operations, List.pairwise_filterMap]
  refine places.imp_of_mem ?_
  rintro ⟨_, index⟩ ⟨_, later⟩ - mem before _ found _ foundLater
  obtain ⟨_, -, rfl⟩ := Option.map_eq_some_iff.mp found
  obtain ⟨_, -, rfl⟩ := Option.map_eq_some_iff.mp foundLater
  rw [List.mem_zipIdx_iff_getElem?, Array.getElem?_toList] at mem
  have within := (Array.getElem?_eq_some_iff.mp mem).1
  dsimp only at within before
  rw [UInt16.lt_iff_toNat_lt, UInt16.toNat_ofNat_of_lt' (by omega),
    UInt16.toNat_ofNat_of_lt' (by omega)]
  exact before

theorem operations_eq_filterMap (alphabet : Alphabet) :
    alphabet.operations.map Prod.snd = alphabet.entries.toList.filterMap Entry.operation? := by
  have entries := List.filterMap_map (f := Prod.fst) (g := Entry.operation?)
    (l := alphabet.entries.toList.zipIdx)
  rw [List.zipIdx_map_fst] at entries
  rw [entries, operations, List.map_filterMap]
  congr 1
  funext (entry, index)
  simp only [Function.comp_apply, Option.map_map]
  exact Option.map_id'

theorem operation?_entryOf {features values : List String} {index : Nat} (later : index ≠ 0)
    (text : List Char) : (entryOf features values index text).operation? =
      (Flag.Spelling.ofText? text).map (operationOf features values) := by
  unfold entryOf
  rw [if_neg later]
  cases Flag.Spelling.ofText? text <;> rfl

theorem Of.operations (made : alphabet.Of texts) :
    alphabet.operations.map Prod.snd =
      (flagsOf texts).map (operationOf (featuresOf texts) (valuesOf texts)) := by
  rw [operations_eq_filterMap, made.entries, flagsOf]
  generalize featuresOf texts = features
  generalize valuesOf texts = values
  cases texts with
  | nil => rfl
  | cons first texts =>
    have later : texts.mapIdx (fun index => entryOf features values (index + 1)) =
        texts.map (entryOf features values 1) := by
      apply List.ext_getElem?
      intro index
      rw [List.getElem?_mapIdx, List.getElem?_map]
      cases texts[index]? <;> rfl
    rw [List.mapIdx_cons, later, List.filterMap_cons_none rfl, List.filterMap_map,
      List.drop_one, List.tail_cons, List.map_filterMap]
    congr 1
    funext text
    exact operation?_entryOf Nat.one_ne_zero text

theorem Of.featureNames (made : alphabet.Of texts) :
    alphabet.featureNames = (featuresOf texts).eraseDups := by
  have operations := congrArg (List.map Flag.Operation.feature) made.operations
  rw [List.map_map, List.map_map] at operations
  exact congrArg List.eraseDups operations

theorem Of.valueNames (made : alphabet.Of texts) :
    alphabet.valueNames = (valuesOf texts).eraseDups := by
  have operations := congrArg (List.map Flag.Operation.value) made.operations
  rw [List.map_map, List.map_map] at operations
  exact congrArg List.eraseDups operations

/-- What the operations of an alphabet have to be for numbers to tell names apart. -/
structure Numbered (alphabet : Alphabet) : Prop where
  featureCount : alphabet.featureCount = alphabet.featureNames.length
  values : alphabet.valueNames.length ≤ 32767
  feature : ∀ symbol operation, alphabet.operation? symbol = some operation →
    alphabet.featureNames[operation.featureNumber.toNat]? = some operation.feature
  value : ∀ symbol operation, alphabet.operation? symbol = some operation →
    operation.value ∈ alphabet.valueNames ∧
      operation.valueNumber = alphabet.number (some (operation.value, .positive))

theorem mem_operations {symbol : Symbol} {operation : Flag.Operation}
    (found : alphabet.operation? symbol = some operation) :
    operation ∈ alphabet.operations.map Prod.snd := by
  rw [operations_eq_filterMap]
  obtain ⟨entry, stored, isFlag⟩ := Option.bind_eq_some_iff.mp found
  refine List.mem_filterMap.mpr ⟨entry, ?_, isFlag⟩
  exact Array.mem_toList_iff.mpr (Array.mem_of_getElem? stored)

theorem length_featuresOf_le (texts : List (List Char)) :
    (featuresOf texts).eraseDups.length ≤ texts.length := by
  have all := Interning.length_eraseDups_append_le [] (featuresOf texts)
  have flags := List.length_filterMap_le Flag.Spelling.ofText? (texts.drop 1)
  rw [List.nil_append, List.eraseDups_nil, List.length_nil, Nat.zero_add] at all
  rw [List.length_drop] at flags
  apply Nat.le_trans all
  rw [featuresOf, List.length_map, flagsOf]
  omega

theorem Of.numbered (made : alphabet.Of texts) (count : texts.length < UInt16.size) :
    alphabet.Numbered := by
  have flag {symbol : Symbol} {operation : Flag.Operation}
      (found : alphabet.operation? symbol = some operation) :
      ∃ flag ∈ flagsOf texts,
        operation = operationOf (featuresOf texts) (valuesOf texts) flag := by
    have mem := mem_operations found
    rw [made.operations] at mem
    obtain ⟨flag, isFlag, same⟩ := List.mem_map.mp mem
    exact ⟨flag, isFlag, same.symm⟩
  refine ⟨?_, ?_, ?_, ?_⟩
  · rw [made.featureCount, made.featureNames]
  · rw [made.valueNames]
    exact made.bounded
  · intro symbol operation found
    obtain ⟨flag, mem, rfl⟩ := flag found
    have known : String.ofList flag.feature ∈ featuresOf texts := List.mem_map.mpr ⟨flag, mem, rfl⟩
    have within := Interning.idxOf_eraseDups_lt known
    have few := length_featuresOf_le texts
    change alphabet.featureNames[(UInt16.ofNat _).toNat]? = _
    rw [made.featureNames, UInt16.toNat_ofNat_of_lt' (by omega),
      List.getElem?_eq_getElem within, List.getElem_idxOf]
    rfl
  · intro symbol operation found
    obtain ⟨flag, mem, rfl⟩ := flag found
    have known : String.ofList flag.value ∈ valuesOf texts := List.mem_map.mpr ⟨flag, mem, rfl⟩
    rw [number, made.valueNames]
    exact ⟨List.mem_eraseDups.mpr known, rfl⟩

end Alphabet

end OptimizedLookup
