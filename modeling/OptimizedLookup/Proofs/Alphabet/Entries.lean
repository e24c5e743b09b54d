import OptimizedLookup.Alphabet
import OptimizedLookup.Proofs.Alphabet.Interning

/-! The alphabet of a list of texts, said in one piece. Reading takes up one text after the other;
`entryOf` says what each text becomes once the features and values of all flags are known. The two
agree as long as there are not too many values, and only then does reading go through. -/
namespace OptimizedLookup.Alphabet

/-- The flags among the texts, of which the first never counts. -/
def flagsOf (texts : List (List Char)) : List Flag.Spelling :=
  (texts.drop 1).filterMap Flag.Spelling.ofText?

def featuresOf (texts : List (List Char)) : List String :=
  (flagsOf texts).map fun flag => String.ofList flag.feature

def valuesOf (texts : List (List Char)) : List String :=
  (flagsOf texts).map fun flag => String.ofList flag.value

def operationOf (features values : List String) (flag : Flag.Spelling) : Flag.Operation where
  operator := flag.operator
  feature := String.ofList flag.feature
  value := String.ofList flag.value
  featureNumber := UInt16.ofNat (features.eraseDups.idxOf (String.ofList flag.feature))
  valueNumber := Int16.ofNat (values.eraseDups.idxOf (String.ofList flag.value) + 1)

def entryOf (features values : List String) (index : Nat) (text : List Char) : Entry :=
  if index = 0 then .epsilon
  else
    match Flag.Spelling.ofText? text with
    | some flag => .flag (operationOf features values flag)
    | none => .literal (String.ofList text)

theorem flagsOf_concat {texts : List (List Char)} (later : texts ≠ []) (text : List Char) :
    flagsOf (texts ++ [text]) = flagsOf texts ++ (Flag.Spelling.ofText? text).toList := by
  have drop : (texts ++ [text]).drop 1 = texts.drop 1 ++ [text] := by
    cases texts with
    | nil => contradiction
    | cons first texts => rfl
  rw [flagsOf, drop, List.filterMap_append, flagsOf]
  cases isFlag : Flag.Spelling.ofText? text <;> simp [isFlag]

theorem mem_flagsOf {texts : List (List Char)} {index : Nat} {text : List Char}
    {flag : Flag.Spelling} (found : texts[index]? = some text) (later : index ≠ 0)
    (isFlag : Flag.Spelling.ofText? text = some flag) : flag ∈ flagsOf texts := by
  obtain ⟨previous, rfl⟩ := Nat.exists_eq_succ_of_ne_zero later
  refine List.mem_filterMap.mpr ⟨text, List.mem_of_getElem? (i := previous) ?_, isFlag⟩
  rwa [List.getElem?_drop, Nat.add_comm]

theorem entryOf_append {texts : List (List Char)} {index : Nat} {text : List Char}
    (found : texts[index]? = some text) {features values : List String} :
    entryOf (featuresOf texts ++ features) (valuesOf texts ++ values) index text =
      entryOf (featuresOf texts) (valuesOf texts) index text := by
  unfold entryOf
  by_cases first : index = 0
  · rw [if_pos first, if_pos first]
  · rw [if_neg first, if_neg first]
    cases isFlag : Flag.Spelling.ofText? text with
    | none => rfl
    | some flag =>
      have mem := mem_flagsOf found first isFlag
      have feature : String.ofList flag.feature ∈ featuresOf texts :=
        List.mem_map.mpr ⟨flag, mem, rfl⟩
      have value : String.ofList flag.value ∈ valuesOf texts :=
        List.mem_map.mpr ⟨flag, mem, rfl⟩
      simp only [operationOf, Interning.idxOf_eraseDups_append feature,
        Interning.idxOf_eraseDups_append value]

structure Draft.Took (draft : Draft) (texts : List (List Char)) : Prop where
  entries : draft.entries.toList = texts.mapIdx (entryOf (featuresOf texts) (valuesOf texts))
  features : draft.features.Numbers (featuresOf texts)
  values : draft.values.Numbers (valuesOf texts)
  bounded : (valuesOf texts).eraseDups.length ≤ valueLimit

namespace Draft

theorem took_nothing : ({} : Draft).Took [] where
  entries := rfl
  features := Interning.numbers_empty
  values := Interning.numbers_empty
  bounded := Nat.zero_le _

variable {draft : Draft} {texts : List (List Char)}

theorem Took.size (took : draft.Took texts) : draft.entries.size = texts.length := by
  rw [← Array.length_toList, took.entries, List.length_mapIdx]

theorem Took.bytes (took : draft.Took texts) (length : Nat) :
    { draft with byteLength := length }.Took texts :=
  ⟨took.entries, took.features, took.values, took.bounded⟩

theorem entries_concat (took : draft.Took texts) {text : List Char} {features values : List String}
    (sameFeatures : featuresOf (texts ++ [text]) = featuresOf texts ++ features)
    (sameValues : valuesOf (texts ++ [text]) = valuesOf texts ++ values) :
    (texts ++ [text]).mapIdx
        (entryOf (featuresOf (texts ++ [text])) (valuesOf (texts ++ [text]))) =
      draft.entries.toList ++
        [entryOf (featuresOf (texts ++ [text])) (valuesOf (texts ++ [text])) texts.length text] := by
  rw [List.mapIdx_concat, took.entries]
  congr 1
  apply List.ext_getElem?
  intro index
  rw [List.getElem?_mapIdx, List.getElem?_mapIdx]
  cases found : texts[index]? with
  | none => rfl
  | some other =>
    rw [Option.map_some, Option.map_some, sameFeatures, sameValues, entryOf_append found]

theorem Took.add (took : draft.Took texts) (text : List Char) :
    if (valuesOf (texts ++ [text])).eraseDups.length ≤ valueLimit then
      ∃ next, draft.add text = .ok next ∧ next.Took (texts ++ [text]) ∧
        next.byteLength = draft.byteLength
    else draft.add text = .error .tooManyFlagValues := by
  unfold Draft.add
  rw [took.size]
  by_cases first : texts = []
  · subst first
    refine ⟨_, rfl, ⟨?_, took.features, took.values, Nat.zero_le _⟩, rfl⟩
    simp [took.entries, featuresOf, valuesOf, flagsOf, entryOf]
  rw [if_neg (mt List.length_eq_zero_iff.mp first)]
  have flags := flagsOf_concat first text
  cases isFlag : Flag.Spelling.ofText? text with
  | none =>
    rw [isFlag, Option.toList_none, List.append_nil] at flags
    have sameFeatures : featuresOf (texts ++ [text]) = featuresOf texts := by
      rw [featuresOf, flags, featuresOf]
    have sameValues : valuesOf (texts ++ [text]) = valuesOf texts := by
      rw [valuesOf, flags, valuesOf]
    rw [sameValues, if_pos took.bounded]
    refine ⟨_, rfl, ⟨?_, ?_, ?_, ?_⟩, rfl⟩
    · rw [entries_concat took (sameFeatures.trans (List.append_nil _).symm)
        (sameValues.trans (List.append_nil _).symm)]
      simp [addLiteral, entryOf, first, isFlag]
    · exact sameFeatures ▸ took.features
    · exact sameValues ▸ took.values
    · exact sameValues ▸ took.bounded
  | some flag =>
    rw [isFlag, Option.toList_some] at flags
    have moreFeatures : featuresOf (texts ++ [text]) =
        featuresOf texts ++ [String.ofList flag.feature] := by
      rw [featuresOf, flags, List.map_append]
      rfl
    have moreValues : valuesOf (texts ++ [text]) =
        valuesOf texts ++ [String.ofList flag.value] := by
      rw [valuesOf, flags, List.map_append]
      rfl
    obtain ⟨featureIndex, features⟩ := took.features.intern (String.ofList flag.feature)
    obtain ⟨valueIndex, values⟩ := took.values.intern (String.ofList flag.value)
    rw [← moreFeatures] at featureIndex features
    rw [← moreValues] at valueIndex values
    have fits : (draft.values.intern (String.ofList flag.value)).1 < valueLimit ↔
        (valuesOf (texts ++ [text])).eraseDups.length ≤ valueLimit := by
      rw [valueIndex, moreValues]
      exact Interning.idxOf_eraseDups_concat_lt_iff took.bounded _
    simp only [addFlag]
    by_cases within : (valuesOf (texts ++ [text])).eraseDups.length ≤ valueLimit
    · rw [if_pos within, if_pos (fits.mpr within)]
      refine ⟨_, rfl, ⟨?_, features, values, within⟩, rfl⟩
      rw [entries_concat took moreFeatures moreValues]
      simp [entryOf, first, isFlag, operationOf, featureIndex, valueIndex]
    · rw [if_neg within, if_neg (mt fits.mp within)]

end Draft

end OptimizedLookup.Alphabet
