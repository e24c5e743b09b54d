import Mathlib.Data.List.TakeDrop
import Mathlib.Data.List.TakeWhile
import OptimizedLookup.Proofs.Alphabet.Reading

/-! How flags are written. `Written` is the grammar, of two forms that never overlap, and a text is
recognized as a flag exactly if it is in it. Recognizing a flag from its bytes, by cutting out what
lies between the first and the last, comes to the same and never cuts through a character. -/
namespace OptimizedLookup

namespace Utf8

/-- The text between two positions in the bytes of a text. There is none if the positions are out of
order, or if one of them is past the end or inside a character. -/
def slice? (text : List Char) (start stop : Nat) : Option (List Char) :=
  let bytes := encode text
  if start ≤ stop ∧ stop ≤ bytes.length then do
    let _ ← (decode (bytes.take start)).toOption
    let _ ← (decode (bytes.drop stop)).toOption
    (decode ((bytes.take stop).drop start)).toOption
  else none

theorem encode_append (front back : List Char) : encode (front ++ back) = encode front ++ encode back :=
  List.flatMap_append

@[simp] theorem decode_encode (text : List Char) : decode (encode text) = .ok text :=
  decode_eq_ok_iff.mpr rfl

theorem slice?_append (front middle back : List Char) :
    slice? (front ++ middle ++ back) (encode front).length (encode (front ++ middle)).length =
      some middle := by
  have before : (encode (front ++ middle ++ back)).take (encode front).length = encode front := by
    rw [List.append_assoc, encode_append, List.take_left]
  have behind : (encode (front ++ middle ++ back)).drop (encode (front ++ middle)).length =
      encode back := by
    rw [encode_append (front ++ middle), List.drop_left]
  have between : ((encode (front ++ middle ++ back)).take (encode (front ++ middle)).length).drop
      (encode front).length = encode middle := by
    rw [encode_append (front ++ middle), List.take_left, encode_append, List.drop_left]
  have inside : (encode front).length ≤ (encode (front ++ middle)).length ∧
      (encode (front ++ middle)).length ≤ (encode (front ++ middle ++ back)).length := by
    simp [encode_append]
  simp only [slice?, if_pos inside, before, behind, between, decode_encode]
  rfl

end Utf8

namespace Flag

/-- The texts of flags: the operator's letter and the feature between signs and behind dots, with or
without a value. Only a flag without a value has to name a feature. -/
inductive Written : List Char → Spelling → Prop
  | plain (operator : Operator) {feature : List Char} (named : feature ≠ [])
      (undotted : '.' ∉ feature) :
      Written ('@' :: operator.letter :: '.' :: (feature ++ ['@'])) ⟨operator, feature, []⟩
  | valued (operator : Operator) {feature value : List Char} (undotted : '.' ∉ feature)
      (undottedValue : '.' ∉ value) :
      Written ('@' :: operator.letter :: '.' :: (feature ++ '.' :: value ++ ['@']))
        ⟨operator, feature, value⟩

variable {text body feature value : List Char} {flag other : Spelling}

theorem span_undotted (undotted : '.' ∉ feature) {more : List Char}
    (stops : ∀ char ∈ more.head?, char = '.') :
    (feature ++ more).span (· ≠ '.') = (feature, more) := by
  have all : ∀ char ∈ feature, decide (char ≠ '.') = true := by
    intro char mem
    simpa using fun same : char = '.' => undotted (same ▸ mem)
  rw [List.span_eq_takeWhile_dropWhile, List.takeWhile_append_of_pos all,
    List.dropWhile_append_of_pos all]
  cases more with
  | nil => simp
  | cons char more => simp [stops char rfl]

theorem parts?_of_undotted (undotted : '.' ∉ body) :
    parts? body = if body = [] then none else some (body, []) := by
  have front : (body ++ []).span (· ≠ '.') = (body, []) := span_undotted undotted nofun
  rw [List.append_nil] at front
  rw [parts?, front]
  cases body <;> rfl

theorem parts?_of_dotted (undotted : '.' ∉ feature) :
    parts? (feature ++ '.' :: value) = if '.' ∈ value then none else some (feature, value) := by
  rw [parts?, span_undotted undotted (by simp)]
  cases feature <;> rfl

theorem undotted_or_exists (body : List Char) :
    '.' ∉ body ∨ ∃ feature value, '.' ∉ feature ∧ body = feature ++ '.' :: value := by
  by_cases dotted : '.' ∈ body
  · obtain ⟨feature, value, split, undotted⟩ := List.eq_append_cons_of_mem dotted
    exact .inr ⟨feature, value, undotted, split⟩
  · exact .inl dotted

namespace Spelling

theorem ofText?_framed (letter : Char) (body : List Char) :
    ofText? ('@' :: letter :: '.' :: (body ++ ['@'])) =
      (Operator.ofLetter? letter).bind fun operator =>
        (parts? body).map fun parts => ⟨operator, parts.1, parts.2⟩ := by
  rw [ofText?, if_pos (List.getLast?_concat ..), List.dropLast_concat]
  cases Operator.ofLetter? letter with
  | none => rfl
  | some operator => cases parts? body <;> rfl

theorem exists_frame_of_ofText? (recognized : ofText? text = some flag) :
    ∃ letter body, text = '@' :: letter :: '.' :: (body ++ ['@']) := by
  unfold ofText? at recognized
  split at recognized
  · next letter rest =>
    obtain ⟨closes, -⟩ := Option.ite_none_right_eq_some.mp recognized
    obtain ⟨body, rfl⟩ := List.getLast?_eq_some_iff.mp closes
    exact ⟨letter, body, rfl⟩
  · contradiction

theorem ofText?_of_written (written : Written text flag) : ofText? text = some flag := by
  cases written with
  | plain operator named undotted =>
    rw [ofText?_framed, Operator.ofLetter?_eq_some_iff.mpr rfl, parts?_of_undotted undotted,
      if_neg named]
    rfl
  | valued operator undotted undottedValue =>
    rw [ofText?_framed, Operator.ofLetter?_eq_some_iff.mpr rfl, parts?_of_dotted undotted,
      if_neg undottedValue]
    rfl

theorem written_of_ofText? (recognized : ofText? text = some flag) : Written text flag := by
  obtain ⟨letter, body, rfl⟩ := exists_frame_of_ofText? recognized
  rw [ofText?_framed] at recognized
  obtain ⟨operator, isOperator, recognized⟩ := Option.bind_eq_some_iff.mp recognized
  obtain ⟨parts, parted, rfl⟩ := Option.map_eq_some_iff.mp recognized
  obtain rfl := Operator.ofLetter?_eq_some_iff.mp isOperator
  obtain undotted | ⟨feature, value, undotted, rfl⟩ := undotted_or_exists body
  · rw [parts?_of_undotted undotted] at parted
    obtain ⟨named, same⟩ := Option.ite_none_left_eq_some.mp parted
    obtain rfl := Option.some.inj same
    exact .plain operator named undotted
  · rw [parts?_of_dotted undotted] at parted
    obtain ⟨undottedValue, same⟩ := Option.ite_none_left_eq_some.mp parted
    obtain rfl := Option.some.inj same
    exact .valued operator undotted undottedValue

theorem ofText?_eq_some_iff : ofText? text = some flag ↔ Written text flag :=
  ⟨written_of_ofText?, ofText?_of_written⟩

theorem ofText?_eq_none_iff : ofText? text = none ↔ ∀ flag, ¬ Written text flag := by
  simp only [Option.eq_none_iff_forall_ne_some, ne_eq, ofText?_eq_some_iff]

def ofPieces (operator : Operator) : List (List Char) → Option Spelling
  | [_, feature] => some ⟨operator, feature, []⟩
  | [_, feature, value] => some ⟨operator, feature, value⟩
  | _ => none

/-- Recognizes a flag by positions: what lies between the first byte and the last is cut out and
split at its dots. The outer option is none if that cut is not possible. -/
def ofSlice? (text : List Char) : Option (Option Spelling) :=
  match text with
  | first :: letter :: third :: _ =>
    if 4 < text.length ∧ first = '@' ∧ text.getLast? = some '@' ∧ third = '.' then
      match Operator.ofLetter? letter with
      | none => some none
      | some operator =>
        (Utf8.slice? text 1 ((Utf8.encode text).length - 1)).map fun body =>
          ofPieces operator (body.splitOn '.')
    else some none
  | _ => some none

theorem ofPieces_splitOn (operator : Operator) {letter : Char} (proper : letter ≠ '.')
    (present : body ≠ []) :
    ofPieces operator ((letter :: '.' :: body).splitOn '.') =
      (parts? body).map fun parts => ⟨operator, parts.1, parts.2⟩ := by
  have letterAlone : '.' ∉ [letter] := by simpa using Ne.symm proper
  have front := List.splitOn_append_cons_self_of_not_mem letterAlone body
  rw [List.singleton_append] at front
  rw [front]
  obtain undotted | ⟨feature, value, undotted, rfl⟩ := undotted_or_exists body
  · rw [List.splitOn_eq_singleton undotted, parts?_of_undotted undotted, if_neg present]
    rfl
  · rw [List.splitOn_append_cons_self_of_not_mem undotted, parts?_of_dotted undotted]
    obtain undottedValue | ⟨front, back, undottedFront, rfl⟩ := undotted_or_exists value
    · rw [List.splitOn_eq_singleton undottedValue, if_neg undottedValue]
      rfl
    · -- a second dot makes a fourth piece
      rw [List.splitOn_append_cons_self_of_not_mem undottedFront, if_pos (by simp)]
      cases split : back.splitOn '.' with
      | nil => exact absurd split (List.splitOn_ne_nil _ _)
      | cons piece pieces => rfl

theorem slice?_framed (letter : Char) (body : List Char) :
    Utf8.slice? ('@' :: letter :: '.' :: (body ++ ['@'])) 1
        ((Utf8.encode ('@' :: letter :: '.' :: (body ++ ['@']))).length - 1) =
      some (letter :: '.' :: body) := by
  have cut := Utf8.slice?_append ['@'] (letter :: '.' :: body) ['@']
  have last : (Utf8.encode (['@'] ++ letter :: '.' :: body)).length =
      (Utf8.encode ('@' :: letter :: '.' :: (body ++ ['@']))).length - 1 := by
    have whole : '@' :: letter :: '.' :: (body ++ ['@']) =
        (['@'] ++ letter :: '.' :: body) ++ ['@'] := by simp
    rw [whole, Utf8.encode_append _ ['@'], List.length_append]
    rfl
  have first : (Utf8.encode ['@']).length = 1 := rfl
  rw [last, first] at cut
  simpa using cut

theorem exists_frame_of_guard {first letter third : Char} {rest : List Char}
    (long : 4 < (first :: letter :: third :: rest).length) (opens : first = '@')
    (closes : (first :: letter :: third :: rest).getLast? = some '@') (dot : third = '.') :
    ∃ body, body ≠ [] ∧ first :: letter :: third :: rest =
      '@' :: letter :: '.' :: (body ++ ['@']) := by
  subst opens dot
  cases rest with
  | nil => contradiction
  | cons char rest =>
    rw [List.getLast?_cons_cons, List.getLast?_cons_cons, List.getLast?_cons_cons,
      List.getLast?_eq_some_iff] at closes
    obtain ⟨body, same⟩ := closes
    refine ⟨body, ?_, by rw [same]⟩
    rintro rfl
    rw [same] at long
    exact absurd long (Nat.lt_irrefl 4)

theorem ofSlice?_eq (text : List Char) : ofSlice? text = some (ofText? text) := by
  by_cases framed : ∃ letter body, body ≠ [] ∧ text = '@' :: letter :: '.' :: (body ++ ['@'])
  · obtain ⟨letter, body, present, rfl⟩ := framed
    have long : 4 < ('@' :: letter :: '.' :: (body ++ ['@'])).length := by
      have := List.length_pos_iff.mpr present
      simp only [List.length_cons, List.length_append, List.length_nil]
      omega
    have closes : ('@' :: letter :: '.' :: (body ++ ['@'])).getLast? = some '@' := by
      simp [List.getLast?_cons]
    rw [ofText?_framed, ofSlice?, if_pos ⟨long, rfl, closes, rfl⟩, slice?_framed]
    cases isOperator : Operator.ofLetter? letter with
    | none => rfl
    | some operator =>
      have proper : letter ≠ '.' := by
        rintro rfl
        contradiction
      exact congrArg some (ofPieces_splitOn operator proper present)
  · have ordinary : ofText? text = none := by
      rw [ofText?_eq_none_iff]
      intro flag written
      cases written with
      | plain operator named => exact framed ⟨_, _, named, rfl⟩
      | valued operator => exact framed ⟨_, _, by simp, rfl⟩
    rw [ordinary]
    unfold ofSlice?
    split
    · next first letter third rest =>
      rw [if_neg]
      rintro ⟨long, opens, closes, dot⟩
      obtain ⟨body, present, same⟩ := exists_frame_of_guard long opens closes dot
      exact framed ⟨letter, body, present, same⟩
    · rfl

end Spelling

def Operation.spelling (operation : Operation) : Spelling :=
  ⟨operation.operator, operation.feature.toList, operation.value.toList⟩

end Flag

namespace Alphabet

variable {alphabet : Alphabet} {texts : List (List Char)} {index : Nat} {text : List Char}

theorem Of.recorded (made : alphabet.Of texts) (count : texts.length < UInt16.size)
    (found : texts[index]? = some text) : alphabet.entry? (UInt16.ofNat index) =
      some (entryOf (featuresOf texts) (valuesOf texts) index text) := by
  have within : index < UInt16.size := Nat.lt_trans (List.getElem?_eq_some_iff.mp found).1 count
  rw [made.entry?_eq, UInt16.toNat_ofNat_of_lt' within, found]
  rfl

theorem Of.written_iff (made : alphabet.Of texts) (count : texts.length < UInt16.size)
    (found : texts[index]? = some text) (later : index ≠ 0) (flag : Flag.Spelling) :
    Flag.Written text flag ↔ ∃ operation,
      alphabet.entry? (UInt16.ofNat index) = some (.flag operation) ∧ operation.spelling = flag := by
  rw [made.recorded count found, entryOf, if_neg later, ← Flag.Spelling.ofText?_eq_some_iff]
  cases Flag.Spelling.ofText? text with
  | none => simp
  | some written => simp [operationOf, Flag.Operation.spelling]

theorem Of.not_written_iff (made : alphabet.Of texts) (count : texts.length < UInt16.size)
    (found : texts[index]? = some text) (later : index ≠ 0) :
    (∀ flag, ¬ Flag.Written text flag) ↔
      alphabet.entry? (UInt16.ofNat index) = some (.literal (String.ofList text)) := by
  rw [made.recorded count found, entryOf, if_neg later, ← Flag.Spelling.ofText?_eq_none_iff]
  cases Flag.Spelling.ofText? text <;> simp

/-- A text behind the first becomes a flag exactly if it is written as one, in one way only, and is
kept as it is otherwise; cutting it at byte positions never fails and comes to the same. -/
theorem read_recognizes {source : Source} {more : List UInt8} (count : texts.length < UInt16.size)
    (clean : ∀ text ∈ texts, '\x00' ∉ text)
    (contents : source.contents = texts.flatMap terminated ++ more) :
    (∀ text, Flag.Spelling.ofSlice? text = some (Flag.Spelling.ofText? text)) ∧
    (∀ text flag other, Flag.Written text flag → Flag.Written text other → flag = other) ∧
    if (valuesOf texts).eraseDups.length ≤ valueLimit then
      ∃ alphabet rest, (Alphabet.read texts.length).run source = .ok (alphabet, rest) ∧
        ∀ index text, index ≠ 0 → texts[index]? = some text →
          (∀ flag, Flag.Written text flag ↔ ∃ operation,
            alphabet.entry? (UInt16.ofNat index) = some (.flag operation) ∧
              operation.spelling = flag) ∧
          ((∀ flag, ¬ Flag.Written text flag) ↔
            alphabet.entry? (UInt16.ofNat index) = some (.literal (String.ofList text)))
    else (Alphabet.read texts.length).run source = .error (.format .tooManyFlagValues) := by
  refine ⟨Flag.Spelling.ofSlice?_eq, fun text flag other written again => ?_, ?_⟩
  · have same := Flag.Spelling.ofText?_of_written written
    exact Option.some.inj (same.symm.trans (Flag.Spelling.ofText?_of_written again))
  · have outcome := run_read clean contents
    by_cases fits : (valuesOf texts).eraseDups.length ≤ valueLimit
    · rw [if_pos fits] at outcome ⊢
      obtain ⟨alphabet, rest, found, -, made⟩ := outcome
      exact ⟨alphabet, rest, found, fun index text later place =>
        ⟨made.written_iff count place later, made.not_written_iff count place later⟩⟩
    · rw [if_neg fits] at outcome ⊢
      exact outcome

/-- A sign inside a feature and characters of several bytes make no difference, empty names do only
where there is no value, and a third dot does always. -/
theorem read_recognizes_similar : ∃ alphabet rest,
    let texts := ["", "@R.é@@", "@C..@", "@P.@", "@P.A.B.C@"].map String.toList
    (Alphabet.read 5).run (.ofBytes (texts.flatMap terminated)) = .ok (alphabet, rest) ∧
    (∃ operation, alphabet.entry? 1 = some (.flag operation) ∧
      operation.spelling = ⟨.require, "é@".toList, []⟩) ∧
    (∃ operation, alphabet.entry? 2 = some (.flag operation) ∧
      operation.spelling = ⟨.clear, [], []⟩) ∧
    alphabet.entry? 3 = some (.literal "@P.@") ∧
    alphabet.entry? 4 = some (.literal "@P.A.B.C@") := by
  let texts := ["", "@R.é@@", "@C..@", "@P.@", "@P.A.B.C@"].map String.toList
  have contents : (Source.ofBytes (texts.flatMap terminated)).contents =
      texts.flatMap terminated ++ [] := by
    rw [Source.contents_ofBytes, List.append_nil]
  obtain ⟨-, -, outcome⟩ := read_recognizes (by decide) (by decide) contents
  rw [if_pos (by decide)] at outcome
  obtain ⟨alphabet, rest, found, slots⟩ := outcome
  obtain ⟨first, -⟩ := slots 1 _ Nat.one_ne_zero rfl
  obtain ⟨second, -⟩ := slots 2 _ (by decide) rfl
  obtain ⟨-, third⟩ := slots 3 _ (by decide) rfl
  obtain ⟨-, fourth⟩ := slots 4 _ (by decide) rfl
  refine ⟨alphabet, rest, found, (first _).mp ?_, (second _).mp ?_, third.mp ?_, fourth.mp ?_⟩
  · exact .plain .require (show "é@".toList ≠ [] by decide) (by decide)
  · exact .valued .clear List.not_mem_nil List.not_mem_nil
  · rw [← Flag.Spelling.ofText?_eq_none_iff]
    rfl
  · rw [← Flag.Spelling.ofText?_eq_none_iff]
    rfl

end Alphabet

end OptimizedLookup
