import OptimizedLookup.Proofs.Loading.Sections

/-! Words and records at their places among bytes. A word is written as the bytes it is read from,
and a table of records of constant width reads each record from its own bytes. -/
namespace OptimizedLookup

def Slot.bytes (slot : Slot) : List UInt8 :=
  LittleEndian.bytes 2 slot.input.toNat ++ LittleEndian.bytes 4 slot.target.toNat

def Slot.empty : Slot := ⟨noSymbol, noTarget⟩

def TransitionRecord.bytes (weighted : Bool) (record : TransitionRecord) : List UInt8 :=
  LittleEndian.bytes 2 record.input.toNat ++ (LittleEndian.bytes 2 record.output.toNat ++
    (LittleEndian.bytes 4 record.target.toNat ++
      if weighted then LittleEndian.bytes 4 record.weight.bits.toNat else []))

def TransitionRecord.stop : TransitionRecord := ⟨noSymbol, noSymbol, noTarget, .zero⟩
def TransitionRecord.final : TransitionRecord := ⟨noSymbol, noSymbol, 1, .zero⟩

namespace Header

theorem field_window {bytes : List UInt8} {start length offset width : Nat}
    (within : offset + width ≤ length) :
    field ((bytes.drop start).take length) offset width = field bytes (start + offset) width := by
  unfold field
  rw [List.drop_take, List.take_take, List.drop_drop, Nat.min_eq_left (by omega)]

theorem field_lt (bytes : List UInt8) (offset width : Nat) : field bytes offset width < LittleEndian.capacity width :=
  Nat.lt_of_lt_of_le (LittleEndian.value_lt _)
    (LittleEndian.capacity_le (List.length_take_le width _))

theorem field_front (width n : Nat) (rest : List UInt8) :
    field (LittleEndian.bytes width n ++ rest) 0 width = n % LittleEndian.capacity width := by
  have front : (LittleEndian.bytes width n ++ rest).take width = LittleEndian.bytes width n :=
    List.take_left' (LittleEndian.length_bytes width n)
  rw [field, List.drop_zero, front, LittleEndian.value_bytes]

theorem field_past (front n : Nat) (rest : List UInt8) (offset width : Nat) :
    field (LittleEndian.bytes front n ++ rest) (front + offset) width =
      field rest offset width := by
  unfold field
  rw [← List.drop_drop, List.drop_left' (LittleEndian.length_bytes front n)]

theorem bytes_field (bytes : List UInt8) (offset width : Nat)
    (within : offset + width ≤ bytes.length) :
    LittleEndian.bytes width (field bytes offset width) ++ bytes.drop (offset + width) =
      bytes.drop offset := by
  have length : ((bytes.drop offset).take width).length = width := by
    rw [List.length_take, List.length_drop]
    omega
  have written := LittleEndian.bytes_value ((bytes.drop offset).take width)
  rw [length] at written
  rw [field, written, ← List.drop_drop, List.take_append_drop]

def written (words : List UInt32) : List UInt8 :=
  words.flatMap fun word => LittleEndian.bytes 4 word.toNat

theorem length_written (words : List UInt32) : (written words).length = 4 * words.length := by
  induction words with
  | nil => rfl
  | cons word words ih =>
    rw [written, List.flatMap_cons, List.length_append, LittleEndian.length_bytes,
      List.length_cons, ← written, ih]
    omega

theorem field_written {words : List UInt32} {index : Nat} {word : UInt32}
    (found : words[index]? = some word) : field (written words) (4 * index) 4 = word.toNat := by
  induction words generalizing index with
  | nil => contradiction
  | cons first words ih =>
    rw [written, List.flatMap_cons, ← written]
    cases index with
    | zero =>
      cases found
      have := word.toNat_lt
      rw [Nat.mul_zero, field_front, LittleEndian.capacity_four, Nat.mod_eq_of_lt (by omega)]
    | succ index =>
      rw [Nat.mul_succ, Nat.add_comm, field_past]
      exact ih found

theorem field_drop (bytes : List UInt8) (start offset width : Nat) :
    field (bytes.drop start) offset width = field bytes (start + offset) width := by
  unfold field
  rw [List.drop_drop]

theorem written_ofFn {bytes : List UInt8} {count : Nat} (whole : bytes.length = 4 * count) :
    written (List.ofFn fun i : Fin count => UInt32.ofNat (field bytes (4 * i.val) 4)) = bytes := by
  induction count generalizing bytes with
  | zero => exact (List.length_eq_zero_iff.mp whole).symm
  | succ count ih =>
    have rest : (bytes.drop 4).length = 4 * count := by
      rw [List.length_drop]
      omega
    have first : (UInt32.ofNat (field bytes 0 4)).toNat = field bytes 0 4 :=
      UInt32.toNat_ofNat_of_lt' (field_lt bytes 0 4)
    have later (i : Fin count) : field bytes (4 * i.succ.val) 4 =
        field (bytes.drop 4) (4 * i.val) 4 := by
      rw [field_drop, Fin.val_succ, Nat.mul_succ, Nat.add_comm]
    rw [List.ofFn_succ, written, List.flatMap_cons, ← written]
    simp only [later, ih rest, Fin.val_zero, Nat.mul_zero, first]
    exact bytes_field bytes 0 4 (by omega)

end Header

/-- Bytes are decoded record by record, each from `width` bytes. -/
structure DecodesEach {α : Type} (decode : List UInt8 → Array α → Array α) (width : Nat)
    (make : List UInt8 → α) : Prop where
  stop : ∀ records, decode [] records = records
  next : ∀ front rest records, front.length = width →
    decode (front ++ rest) records = decode rest (records.push (make front))

theorem DecodesEach.toList_eq {α : Type} {decode : List UInt8 → Array α → Array α} {width : Nat}
    {make : List UInt8 → α} (each : DecodesEach decode width make) {bytes : List UInt8}
    {count : Nat} (whole : bytes.length = count * width) (records : Array α) :
    (decode bytes records).toList = records.toList ++
      (List.range count).map fun i => make ((bytes.drop (i * width)).take width) := by
  induction count generalizing bytes records with
  | zero =>
    obtain rfl := List.length_eq_zero_iff.mp (whole.trans (Nat.zero_mul width))
    rw [each.stop, List.range_zero, List.map_nil, List.append_nil]
  | succ count ih =>
    rw [Nat.succ_mul] at whole
    have front : (bytes.take width).length = width := by
      rw [List.length_take]
      omega
    have rest : (bytes.drop width).length = count * width := by
      rw [List.length_drop]
      omega
    have split := each.next _ (bytes.drop width) records front
    rw [List.take_append_drop] at split
    rw [split, ih rest, Array.toList_push, List.append_assoc, List.range_succ_eq_map,
      List.map_cons, List.map_map, Nat.zero_mul, List.drop_zero]
    simp only [List.singleton_append, List.drop_drop, Function.comp_def, Nat.succ_mul,
      Nat.add_comm]

theorem DecodesEach.getElem?_eq {α : Type} {decode : List UInt8 → Array α → Array α} {width : Nat}
    {make : List UInt8 → α} (each : DecodesEach decode width make) {bytes : List UInt8}
    {count : Nat} (whole : bytes.length = count * width) (index : Nat) :
    (decode bytes #[])[index]? =
      if index < count then some (make ((bytes.drop (index * width)).take width)) else none := by
  rw [← Array.getElem?_toList, each.toList_eq whole, List.nil_append, List.getElem?_map]
  by_cases within : index < count
  · rw [if_pos within, List.getElem?_range within, Option.map_some]
  · rw [if_neg within, List.getElem?_eq_none (by rw [List.length_range]; omega), Option.map_none]

def word16At (bytes : List UInt8) (offset : Nat) : UInt16 := UInt16.ofNat (Header.field bytes offset 2)

def word32At (bytes : List UInt8) (offset : Nat) : UInt32 := UInt32.ofNat (Header.field bytes offset 4)

theorem word16At_window {bytes : List UInt8} {start length offset : Nat}
    (within : offset + 2 ≤ length) :
    word16At ((bytes.drop start).take length) offset = word16At bytes (start + offset) := by
  rw [word16At, Header.field_window within, word16At]

theorem word32At_window {bytes : List UInt8} {start length offset : Nat}
    (within : offset + 4 ≤ length) :
    word32At ((bytes.drop start).take length) offset = word32At bytes (start + offset) := by
  rw [word32At, Header.field_window within, word32At]

theorem word16At_front (word : UInt16) (rest : List UInt8) :
    word16At (LittleEndian.bytes 2 word.toNat ++ rest) 0 = word := by
  have := word.toNat_lt
  apply UInt16.toNat_inj.mp
  rw [word16At, Header.field_front, LittleEndian.capacity_two, UInt16.toNat_ofNat']
  omega

theorem word32At_front (word : UInt32) (rest : List UInt8) :
    word32At (LittleEndian.bytes 4 word.toNat ++ rest) 0 = word := by
  have := word.toNat_lt
  apply UInt32.toNat_inj.mp
  rw [word32At, Header.field_front, LittleEndian.capacity_four, UInt32.toNat_ofNat']
  omega

theorem word16At_past (front n : Nat) (rest : List UInt8) (offset : Nat) :
    word16At (LittleEndian.bytes front n ++ rest) (front + offset) = word16At rest offset := by
  rw [word16At, Header.field_past, word16At]

theorem word32At_past (front n : Nat) (rest : List UInt8) (offset : Nat) :
    word32At (LittleEndian.bytes front n ++ rest) (front + offset) = word32At rest offset := by
  rw [word32At, Header.field_past, word32At]

theorem bytes_word16At (bytes : List UInt8) (offset : Nat) (within : offset + 2 ≤ bytes.length) :
    LittleEndian.bytes 2 (word16At bytes offset).toNat ++ bytes.drop (offset + 2) =
      bytes.drop offset := by
  rw [word16At, UInt16.toNat_ofNat_of_lt' (Header.field_lt bytes offset 2)]
  exact Header.bytes_field bytes offset 2 within

theorem bytes_word32At (bytes : List UInt8) (offset : Nat) (within : offset + 4 ≤ bytes.length) :
    LittleEndian.bytes 4 (word32At bytes offset).toNat ++ bytes.drop (offset + 4) =
      bytes.drop offset := by
  rw [word32At, UInt32.toNat_ofNat_of_lt' (Header.field_lt bytes offset 4)]
  exact Header.bytes_field bytes offset 4 within

namespace IndexTable

structure Decodes (table : IndexTable) (count : Nat) (weighted : Bool) (bytes : List UInt8) :
    Prop where
  size : table.size = count
  input : ∀ slot < count, table.input? slot = symbol? (word16At bytes (6 * slot))
  target : ∀ slot < count,
    table.target? slot = OptimizedLookup.target? (word32At bytes (6 * slot + 2))
  finalWeight : ∀ slot < count, table.finalWeight? slot =
    some (if weighted then ⟨word32At bytes (6 * slot + 2)⟩ else .zero)
  isFinal : ∀ slot < count, table.isFinal slot = true ↔
    word16At bytes (6 * slot) = noSymbol ∧ word32At bytes (6 * slot + 2) ≠ noTarget
  past : ∀ slot, count ≤ slot → table.input? slot = none ∧ table.target? slot = none ∧
    table.finalWeight? slot = none ∧ table.isFinal slot = false

theorem decodesEach : DecodesEach decode slotLength
    fun bytes => ⟨word16At bytes 0, word32At bytes 2⟩ where
  stop _ := rfl
  next front _ _ length :=
    match front, length with
    | [_, _, _, _, _, _], _ => rfl

theorem decodes_decode {bytes : List UInt8} {count : Nat}
    (whole : bytes.length = count * slotLength) (weighted : Bool) :
    Decodes ⟨decode bytes #[], weighted⟩ count weighted bytes := by
  have slots := decodesEach.getElem?_eq whole
  have stored (slot : Nat) (within : slot < count) : (decode bytes #[])[slot]? =
      some ⟨word16At bytes (6 * slot), word32At bytes (6 * slot + 2)⟩ := by
    rw [slots, if_pos within, word16At_window (by decide), word32At_window (by decide),
      Nat.mul_comm]
    rfl
  have missing (slot : Nat) (past : count ≤ slot) : (decode bytes #[])[slot]? = none := by
    rw [slots, if_neg (Nat.not_lt.mpr past)]
  constructor
  · rw [size, ← Array.length_toList, decodesEach.toList_eq whole]
    simp
  · intro slot within
    simp only [input?, stored slot within, Option.bind_some]
  · intro slot within
    simp only [target?, stored slot within, Option.bind_some]
  · intro slot within
    simp only [finalWeight?, stored slot within, Option.map_some]
  · intro slot within
    simp only [isFinal, input?, target?, stored slot within, Option.bind_some, Bool.and_eq_true,
      Option.isNone_iff_eq_none, symbol?_eq_none_iff, Option.isSome_iff_ne_none, ne_eq,
      target?_eq_none_iff]
  · intro slot past
    simp only [isFinal, input?, target?, finalWeight?, missing slot past, Option.bind_none,
      Option.map_none, Option.isSome_none, Bool.and_false, and_self]

end IndexTable

namespace TransitionTable

structure Decodes (table : TransitionTable) (count : Nat) (weighted : Bool)
    (bytes : List UInt8) : Prop where
  size : table.size = count
  input : ∀ record < count,
    table.input? record = symbol? (word16At bytes (recordLength weighted * record))
  output : ∀ record < count,
    table.output? record = symbol? (word16At bytes (recordLength weighted * record + 2))
  target : ∀ record < count, table.target? record =
    OptimizedLookup.target? (word32At bytes (recordLength weighted * record + 4))
  weight : ∀ record < count, table.weight? record =
    some (if weighted then ⟨word32At bytes (recordLength weighted * record + 8)⟩ else .zero)
  isFinal : ∀ record < count, table.isFinal record = true ↔
    word16At bytes (recordLength weighted * record) = noSymbol ∧
    word16At bytes (recordLength weighted * record + 2) = noSymbol ∧
    word32At bytes (recordLength weighted * record + 4) = 1
  past : ∀ record, count ≤ record → table.input? record = none ∧ table.output? record = none ∧
    table.target? record = none ∧ table.weight? record = none ∧ table.isFinal record = false

theorem decodesEach (weighted : Bool) :
    DecodesEach (if weighted then decodeWeighted else decodeSimple) (recordLength weighted)
      fun bytes => ⟨word16At bytes 0, word16At bytes 2, word32At bytes 4,
        if weighted then ⟨word32At bytes 8⟩ else .zero⟩ := by
  cases weighted with
  | true =>
    refine ⟨fun _ => rfl, fun front rest records length => ?_⟩
    match front, length with
    | [_, _, _, _, _, _, _, _, _, _, _, _], _ => rfl
  | false =>
    refine ⟨fun _ => rfl, fun front rest records length => ?_⟩
    match front, length with
    | [_, _, _, _, _, _, _, _], _ => rfl

theorem target?_eq_one_iff {word : UInt32} : OptimizedLookup.target? word = some 1 ↔ word = 1 := by
  unfold OptimizedLookup.target?
  by_cases none : word = noTarget
  · rw [if_pos none, none]
    decide
  · rw [if_neg none, Option.some.injEq]

theorem decodes_decode {bytes : List UInt8} {count : Nat} {weighted : Bool}
    (whole : bytes.length = count * recordLength weighted) :
    Decodes ⟨decode weighted bytes, weighted⟩ count weighted bytes := by
  have same : (if weighted then decodeWeighted else decodeSimple) bytes #[] =
      decode weighted bytes := by
    cases weighted <;> rfl
  have long : 8 ≤ recordLength weighted := by
    cases weighted <;> decide
  have records := (decodesEach weighted).getElem?_eq whole
  rw [same] at records
  have stored (record : Nat) (within : record < count) : (decode weighted bytes)[record]? =
      some ⟨word16At bytes (recordLength weighted * record),
        word16At bytes (recordLength weighted * record + 2),
        word32At bytes (recordLength weighted * record + 4),
        if weighted then ⟨word32At bytes (recordLength weighted * record + 8)⟩ else .zero⟩ := by
    rw [records, if_pos within, word16At_window (by omega), word16At_window (by omega),
      word32At_window (by omega), Nat.mul_comm]
    cases weighted with
    | true => rw [if_pos rfl, if_pos rfl, word32At_window (by decide)]; rfl
    | false => rfl
  have missing (record : Nat) (past : count ≤ record) : (decode weighted bytes)[record]? = none := by
    rw [records, if_neg (Nat.not_lt.mpr past)]
  constructor
  · have length := (decodesEach weighted).toList_eq whole #[]
    rw [same] at length
    rw [size, ← Array.length_toList, length]
    simp
  · intro record within
    simp only [input?, stored record within, Option.bind_some]
  · intro record within
    simp only [output?, stored record within, Option.bind_some]
  · intro record within
    simp only [target?, stored record within, Option.bind_some]
  · intro record within
    simp only [weight?, stored record within, Option.map_some]
  · intro record within
    simp only [isFinal, input?, output?, target?, stored record within, Option.bind_some,
      Bool.and_eq_true, Option.isNone_iff_eq_none, symbol?_eq_none_iff, beq_iff_eq,
      target?_eq_one_iff, and_assoc]
  · intro record past
    simp only [isFinal, input?, output?, target?, weight?, missing record past, Option.bind_none,
      Option.map_none, true_and]
    decide

end TransitionTable

end OptimizedLookup
