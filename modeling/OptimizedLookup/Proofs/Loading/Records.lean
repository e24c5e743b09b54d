import OptimizedLookup.Proofs.Loading.Failures
import OptimizedLookup.Proofs.Loading.Layout

/-! Records and the bytes they are stored in. A table takes the bytes of its records and no others,
and has of each record what the record was written with. The same is had without a table, by reading
each word at its place among the bytes, and such a place is never past their end. -/
namespace OptimizedLookup

structure OutOfBounds where
  start : Nat
  length : Nat
  deriving DecidableEq

/-- Records that are kept as the bytes they are stored in. -/
structure RecordBytes where
  count : Nat
  width : Nat
  bytes : List UInt8

namespace RecordBytes

def read (stored : RecordBytes) (start length : Nat) : Except OutOfBounds Nat :=
  if start + length ≤ stored.bytes.length then
    .ok (LittleEndian.value ((stored.bytes.drop start).take length))
  else .error ⟨start, length⟩

def word? (stored : RecordBytes) (offset length record : Nat) : Except OutOfBounds (Option Nat) :=
  if record < stored.count then some <$> stored.read (stored.width * record + offset) length
  else return none

def symbol? (stored : RecordBytes) (offset record : Nat) : Except OutOfBounds (Option Symbol) := do
  let word ← stored.word? offset 2 record
  return word.bind fun word => OptimizedLookup.symbol? (UInt16.ofNat word)

def target? (stored : RecordBytes) (offset record : Nat) : Except OutOfBounds (Option UInt32) := do
  let word ← stored.word? offset 4 record
  return word.bind fun word => OptimizedLookup.target? (UInt32.ofNat word)

def weight? (stored : RecordBytes) (weighted : Bool) (offset record : Nat) :
    Except OutOfBounds (Option ArcWeight) :=
  if weighted then do
    let word ← stored.word? offset 4 record
    return word.map fun word => ⟨UInt32.ofNat word⟩
  else return if record < stored.count then some .zero else none

def isFinalSlot (stored : RecordBytes) (slot : Nat) : Except OutOfBounds Bool := do
  if (← stored.symbol? 0 slot).isSome then return false
  return (← stored.target? 2 slot).isSome

/-- Whether the record marks a final state. Each word is read only if the words before it may be
those of such a record. -/
def isFinalRecord (stored : RecordBytes) (record : Nat) : Except OutOfBounds Bool := do
  if (← stored.symbol? 0 record).isSome then return false
  if (← stored.symbol? 2 record).isSome then return false
  return (← stored.target? 4 record) == some 1

def Whole (stored : RecordBytes) : Prop := stored.bytes.length = stored.count * stored.width

variable {stored : RecordBytes}

theorem Whole.word?_eq (whole : stored.Whole) {offset length : Nat}
    (inside : offset + length ≤ stored.width) (record : Nat) :
    stored.word? offset length record = .ok (if record < stored.count then
      some (Header.field stored.bytes (stored.width * record + offset) length) else none) := by
  unfold word?
  by_cases within : record < stored.count
  · have upTo : stored.width * (record + 1) ≤ stored.width * stored.count :=
      Nat.mul_le_mul_left _ within
    have fits : stored.width * record + offset + length ≤ stored.bytes.length := by
      rw [whole, Nat.mul_comm stored.count]
      rw [Nat.mul_succ] at upTo
      omega
    rw [if_pos within, if_pos within, read, if_pos fits]
    rfl
  · rw [if_neg within, if_neg within]
    rfl

theorem Whole.symbol?_eq (whole : stored.Whole) {offset : Nat}
    (inside : offset + 2 ≤ stored.width) (record : Nat) :
    stored.symbol? offset record = .ok (if record < stored.count then
      OptimizedLookup.symbol? (word16At stored.bytes (stored.width * record + offset))
      else none) := by
  rw [symbol?, whole.word?_eq inside]
  split <;> rfl

theorem Whole.target?_eq (whole : stored.Whole) {offset : Nat}
    (inside : offset + 4 ≤ stored.width) (record : Nat) :
    stored.target? offset record = .ok (if record < stored.count then
      OptimizedLookup.target? (word32At stored.bytes (stored.width * record + offset))
      else none) := by
  rw [target?, whole.word?_eq inside]
  split <;> rfl

theorem Whole.weight?_eq (whole : stored.Whole) {weighted : Bool} {offset : Nat}
    (inside : weighted = true → offset + 4 ≤ stored.width) (record : Nat) :
    stored.weight? weighted offset record = .ok (if record < stored.count then
      some (if weighted then ⟨word32At stored.bytes (stored.width * record + offset)⟩ else .zero)
      else none) := by
  cases weighted with
  | false => rfl
  | true =>
    rw [weight?, if_pos rfl, whole.word?_eq (inside rfl)]
    split <;> rfl

end RecordBytes

namespace DecodesEach

variable {α β : Type} {decode : List UInt8 → Array α → Array α} {width : Nat}
  {make : List UInt8 → α} {encode : β → List UInt8}

theorem decode_flatMap (each : DecodesEach decode width make)
    (even : ∀ record, (encode record).length = width) (records : List β) (decoded : Array α) :
    (decode (records.flatMap encode) decoded).toList =
      decoded.toList ++ records.map fun record => make (encode record) := by
  induction records generalizing decoded with
  | nil => simp [each.stop]
  | cons record records ih =>
    rw [List.flatMap_cons, each.next _ _ _ (even record), ih]
    simp

end DecodesEach

theorem length_flatMap_even {β : Type} {encode : β → List UInt8} {width : Nat}
    (even : ∀ record, (encode record).length = width) (records : List β) :
    (records.flatMap encode).length = records.length * width := by
  induction records with
  | nil => simp
  | cons record records ih => simp [even record, ih, Nat.succ_mul, Nat.add_comm]

theorem ite_within_eq {α : Type} {count record : Nat} {value found : Option α}
    (own : record < count → found = value) (past : count ≤ record → found = none) :
    (if record < count then value else none) = found := by
  by_cases within : record < count
  · rw [if_pos within, own within]
  · rw [if_neg within, past (Nat.le_of_not_lt within)]

namespace Loader

/-- The loader takes so many bytes from the source, which describe its value, or it runs short of
them in its section. -/
structure Takes {α : Type} (loader : Loader α) (source : Source) (part : Section) (length : Nat)
    (describes : List UInt8 → α → Prop) : Prop where
  enough : length ≤ source.contents.length → ∃ value rest,
    loader.run source = .ok (value, rest) ∧ rest.contents = source.contents.drop length ∧
      describes (source.contents.take length) value
  short : source.contents.length < length → loader.run source = .error (.endOfStream part)

theorem takes_of {α : Type} {loader : Loader α} {part : Section} {length : Nat}
    {make : List UInt8 → α} {describes : List UInt8 → α → Prop}
    (reads : loader.Reads fun used value => used.length = length ∧ value = make used)
    (fails : ∀ {bytes}, bytes.length < length → loader.Fails bytes (.endOfStream part))
    (made : ∀ bytes, bytes.length = length → describes bytes (make bytes)) {source : Source}
    (finished : source.ending = .finished) : loader.Takes source part length describes where
  enough within := by
    have taken : (source.contents.take length).length = length := List.length_take_of_le within
    have split := (List.take_append_drop length source.contents).symm
    obtain ⟨rest, found, left⟩ := reads.complete split ⟨taken, rfl⟩
    exact ⟨_, rest, found, left, made _ taken⟩
  short less := fails less source rfl finished

end Loader

namespace IndexTable

structure Holds (table : IndexTable) (count : Nat) (weighted : Bool) (slots : List Slot) :
    Prop where
  length : slots.length = count
  size : table.size = count
  input : ∀ index slot, slots[index]? = some slot →
    table.input? index = if slot.input = 0xFFFF then none else some slot.input
  target : ∀ index slot, slots[index]? = some slot →
    table.target? index = if slot.target = 0xFFFFFFFF then none else some slot.target
  finalWeight : ∀ index slot, slots[index]? = some slot →
    table.finalWeight? index = some (if weighted then ⟨slot.target⟩ else ⟨0⟩)
  isFinal : ∀ index slot, slots[index]? = some slot →
    (table.isFinal index = true ↔ slot.input = 0xFFFF ∧ slot.target ≠ 0xFFFFFFFF)
  past : ∀ index, count ≤ index → table.input? index = none ∧ table.target? index = none ∧
    table.finalWeight? index = none ∧ table.isFinal index = false

/-- What the table has of a slot is what can be read of it in the bytes, and no read is out of their
bounds. -/
structure ReadsIn (table : IndexTable) (weighted : Bool) (stored : RecordBytes) : Prop where
  input : ∀ slot, stored.symbol? 0 slot = .ok (table.input? slot)
  target : ∀ slot, stored.target? 2 slot = .ok (table.target? slot)
  finalWeight : ∀ slot, stored.weight? weighted 2 slot = .ok (table.finalWeight? slot)
  isFinal : ∀ slot, stored.isFinalSlot slot = .ok (table.isFinal slot)

theorem decode_flatMap_bytes (slots : List Slot) :
    (decode (slots.flatMap Slot.bytes) #[]).toList = slots := by
  have made (slot : Slot) : (⟨word16At slot.bytes 0, word32At slot.bytes 2⟩ : Slot) = slot := by
    have target : word32At slot.bytes (2 + 0) = slot.target := by
      rw [Slot.bytes, word32At_past]
      exact word32At_front slot.target []
    rw [show word16At slot.bytes 0 = slot.input from word16At_front .., target]
  rw [decodesEach.decode_flatMap (fun _ => rfl)]
  simp [made]

theorem holds_decode (slots : List Slot) (weighted : Bool) :
    Holds ⟨decode (slots.flatMap Slot.bytes) #[], weighted⟩ slots.length weighted slots := by
  have stored (index : Nat) : (decode (slots.flatMap Slot.bytes) #[])[index]? = slots[index]? := by
    rw [← Array.getElem?_toList, decode_flatMap_bytes]
  constructor
  · rfl
  · rw [size, ← Array.length_toList, decode_flatMap_bytes]
  · intro index slot found
    simp only [input?, stored, found, Option.bind_some]
    rfl
  · intro index slot found
    simp only [target?, stored, found, Option.bind_some]
    rfl
  · intro index slot found
    simp only [finalWeight?, stored, found, Option.map_some, ArcWeight.zero]
  · intro index slot found
    simp [isFinal, input?, target?, stored, found, Option.isSome_iff_ne_none, noSymbol, noTarget]
  · intro index past
    simp [isFinal, input?, target?, finalWeight?, stored, List.getElem?_eq_none past]

theorem readsIn_decode {bytes : List UInt8} {count : Nat}
    (whole : bytes.length = count * slotLength) (weighted : Bool) :
    ReadsIn ⟨decode bytes #[], weighted⟩ weighted ⟨count, slotLength, bytes⟩ := by
  have decodes := decodes_decode whole weighted
  have stored : (RecordBytes.mk count slotLength bytes).Whole := whole
  have input (slot : Nat) : RecordBytes.symbol? ⟨count, slotLength, bytes⟩ 0 slot =
      .ok (input? ⟨decode bytes #[], weighted⟩ slot) := by
    rw [stored.symbol?_eq (show 0 + 2 ≤ slotLength by decide)]
    exact congrArg _ (ite_within_eq (decodes.input slot) fun past => (decodes.past slot past).1)
  have target (slot : Nat) : RecordBytes.target? ⟨count, slotLength, bytes⟩ 2 slot =
      .ok (target? ⟨decode bytes #[], weighted⟩ slot) := by
    rw [stored.target?_eq (show 2 + 4 ≤ slotLength by decide)]
    exact congrArg _ (ite_within_eq (decodes.target slot) fun past => (decodes.past slot past).2.1)
  refine ⟨input, target, fun slot => ?_, fun slot => ?_⟩
  · rw [stored.weight?_eq fun _ => show 2 + 4 ≤ slotLength by decide]
    exact congrArg _ (ite_within_eq (decodes.finalWeight slot) fun past =>
      (decodes.past slot past).2.2.1)
  · rw [RecordBytes.isFinalSlot, input, target, isFinal]
    cases input? ⟨decode bytes #[], weighted⟩ slot <;> rfl

end IndexTable

namespace TransitionTable

structure Holds (table : TransitionTable) (count : Nat) (weighted : Bool)
    (records : List TransitionRecord) : Prop where
  length : records.length = count
  size : table.size = count
  input : ∀ index record, records[index]? = some record →
    table.input? index = if record.input = 0xFFFF then none else some record.input
  output : ∀ index record, records[index]? = some record →
    table.output? index = if record.output = 0xFFFF then none else some record.output
  target : ∀ index record, records[index]? = some record →
    table.target? index = if record.target = 0xFFFFFFFF then none else some record.target
  weight : ∀ index record, records[index]? = some record →
    table.weight? index = some (if weighted then record.weight else ⟨0⟩)
  isFinal : ∀ index record, records[index]? = some record →
    (table.isFinal index = true ↔
      record.input = 0xFFFF ∧ record.output = 0xFFFF ∧ record.target = 1)
  past : ∀ index, count ≤ index → table.input? index = none ∧ table.output? index = none ∧
    table.target? index = none ∧ table.weight? index = none ∧ table.isFinal index = false

structure ReadsIn (table : TransitionTable) (weighted : Bool) (stored : RecordBytes) : Prop where
  input : ∀ record, stored.symbol? 0 record = .ok (table.input? record)
  output : ∀ record, stored.symbol? 2 record = .ok (table.output? record)
  target : ∀ record, stored.target? 4 record = .ok (table.target? record)
  weight : ∀ record, stored.weight? weighted 8 record = .ok (table.weight? record)
  isFinal : ∀ record, stored.isFinalRecord record = .ok (table.isFinal record)

def kept (weighted : Bool) (record : TransitionRecord) : TransitionRecord :=
  { record with weight := if weighted then record.weight else .zero }

theorem length_bytes (weighted : Bool) (record : TransitionRecord) :
    (record.bytes weighted).length = recordLength weighted := by
  cases weighted <;> rfl

theorem decode_flatMap_bytes (weighted : Bool) (records : List TransitionRecord) :
    (decode weighted (records.flatMap (TransitionRecord.bytes weighted))).toList =
      records.map (kept weighted) := by
  have made (record : TransitionRecord) : (⟨word16At (record.bytes weighted) 0,
      word16At (record.bytes weighted) 2, word32At (record.bytes weighted) 4,
      if weighted then ⟨word32At (record.bytes weighted) 8⟩ else .zero⟩ : TransitionRecord) =
        kept weighted record := by
    have output : word16At (record.bytes weighted) (2 + 0) = record.output := by
      rw [TransitionRecord.bytes, word16At_past, word16At_front]
    have target : word32At (record.bytes weighted) (2 + (2 + 0)) = record.target := by
      rw [TransitionRecord.bytes, word32At_past, word32At_past, word32At_front]
    rw [show word16At (record.bytes weighted) 0 = record.input from word16At_front .., output,
      target]
    cases weighted with
    | false => rfl
    | true =>
      have weight : word32At (record.bytes true) (2 + (2 + (4 + 0))) = record.weight.bits := by
        rw [TransitionRecord.bytes, word32At_past, word32At_past, word32At_past]
        exact word32At_front record.weight.bits []
      rw [kept, if_pos rfl, if_pos rfl, weight]
  have each := (decodesEach weighted).decode_flatMap (length_bytes weighted) records #[]
  simp only [made, List.nil_append] at each
  rw [← each]
  cases weighted <;> rfl

theorem holds_decode (weighted : Bool) (records : List TransitionRecord) :
    Holds ⟨decode weighted (records.flatMap (TransitionRecord.bytes weighted)), weighted⟩
      records.length weighted records := by
  have stored (index : Nat) : (decode weighted
      (records.flatMap (TransitionRecord.bytes weighted)))[index]? =
        records[index]?.map (kept weighted) := by
    rw [← Array.getElem?_toList, decode_flatMap_bytes, List.getElem?_map]
  constructor
  · rfl
  · rw [size, ← Array.length_toList, decode_flatMap_bytes, List.length_map]
  · intro index record found
    simp only [input?, stored, found, Option.map_some, Option.bind_some]
    rfl
  · intro index record found
    simp only [output?, stored, found, Option.map_some, Option.bind_some]
    rfl
  · intro index record found
    simp only [target?, stored, found, Option.map_some, Option.bind_some]
    rfl
  · intro index record found
    simp only [weight?, stored, found, Option.map_some]
    rfl
  · intro index record found
    simp [isFinal, input?, output?, target?, stored, found, kept, target?_eq_one_iff, noSymbol,
      and_assoc]
  · intro index past
    simp [isFinal, input?, output?, target?, weight?, stored, List.getElem?_eq_none past]

theorem readsIn_decode {bytes : List UInt8} {count : Nat} {weighted : Bool}
    (whole : bytes.length = count * recordLength weighted) :
    ReadsIn ⟨decode weighted bytes, weighted⟩ weighted ⟨count, recordLength weighted, bytes⟩ := by
  have decodes := decodes_decode whole
  have stored : (RecordBytes.mk count (recordLength weighted) bytes).Whole := whole
  have long : 4 + 4 ≤ recordLength weighted := by
    cases weighted <;> decide
  have input (record : Nat) :
      RecordBytes.symbol? ⟨count, recordLength weighted, bytes⟩ 0 record =
        .ok (input? ⟨decode weighted bytes, weighted⟩ record) := by
    rw [stored.symbol?_eq (show 0 + 2 ≤ recordLength weighted by omega)]
    exact congrArg _ (ite_within_eq (decodes.input record) fun past => (decodes.past record past).1)
  have output (record : Nat) :
      RecordBytes.symbol? ⟨count, recordLength weighted, bytes⟩ 2 record =
        .ok (output? ⟨decode weighted bytes, weighted⟩ record) := by
    rw [stored.symbol?_eq (show 2 + 2 ≤ recordLength weighted by omega)]
    exact congrArg _ (ite_within_eq (decodes.output record) fun past =>
      (decodes.past record past).2.1)
  have target (record : Nat) :
      RecordBytes.target? ⟨count, recordLength weighted, bytes⟩ 4 record =
        .ok (target? ⟨decode weighted bytes, weighted⟩ record) := by
    rw [stored.target?_eq long]
    exact congrArg _ (ite_within_eq (decodes.target record) fun past =>
      (decodes.past record past).2.2.1)
  refine ⟨input, output, target, fun record => ?_, fun record => ?_⟩
  · have heavy : weighted = true → 8 + 4 ≤ recordLength weighted := by
      rintro rfl
      decide
    rw [stored.weight?_eq heavy]
    exact congrArg _ (ite_within_eq (decodes.weight record) fun past =>
      (decodes.past record past).2.2.2.1)
  · rw [RecordBytes.isFinalRecord, input, output, target, isFinal]
    cases input? ⟨decode weighted bytes, weighted⟩ record with
    | some symbol => rfl
    | none => cases output? ⟨decode weighted bytes, weighted⟩ record <;> rfl

end TransitionTable

/-- A source that finishes has the records of a table or has too few bytes for them. The table that
is read has what the bytes were written with, and reading it anew from the bytes gives the same. -/
theorem tables_take_records (size : UInt32) (weighted : Bool) {source : Source}
    (finished : source.ending = .finished) :
    (IndexTable.read size.toNat weighted).Takes source .indexTable (size.toNat * 6)
      (fun bytes table =>
        (∀ slots, slots.flatMap Slot.bytes = bytes → table.Holds size.toNat weighted slots) ∧
          table.ReadsIn weighted ⟨size.toNat, 6, bytes⟩) ∧
    (TransitionTable.read size.toNat weighted).Takes source .transitionTable
      (size.toNat * if weighted then 12 else 8)
      (fun bytes table =>
        (∀ records, records.flatMap (TransitionRecord.bytes weighted) = bytes →
          table.Holds size.toNat weighted records) ∧
          table.ReadsIn weighted ⟨size.toNat, if weighted then 12 else 8, bytes⟩) := by
  constructor
  · refine Loader.takes_of (IndexTable.reads_read size.toNat weighted)
      (fun short => IndexTable.fails_read short weighted) (fun bytes whole => ⟨?_, ?_⟩) finished
    · rintro slots rfl
      rw [length_flatMap_even fun slot => (rfl : slot.bytes.length = 6)] at whole
      rw [← Nat.eq_of_mul_eq_mul_right (by decide) whole]
      exact IndexTable.holds_decode slots weighted
    · exact IndexTable.readsIn_decode whole weighted
  · refine Loader.takes_of (TransitionTable.reads_read size.toNat weighted)
      (fun short => TransitionTable.fails_read short) (fun bytes whole => ⟨?_, ?_⟩) finished
    · rintro records rfl
      have positive : 0 < TransitionTable.recordLength weighted := by
        cases weighted <;> decide
      rw [length_flatMap_even (TransitionTable.length_bytes weighted)] at whole
      rw [← Nat.eq_of_mul_eq_mul_right positive whole]
      exact TransitionTable.holds_decode weighted records
    · exact TransitionTable.readsIn_decode whole

theorem tables_take_records_weighted :
    let slots : List Slot := [⟨0xFFFF, 0x3FC00000⟩, ⟨0, 0xFFFFFFFF⟩]
    let records : List TransitionRecord :=
      [⟨1, 3, 0x80000001, ⟨0x3F000000⟩⟩, ⟨0xFFFF, 0xFFFF, 1, ⟨0x7FC00001⟩⟩]
    let slotSource : Source := ⟨slots.flatMap Slot.bytes, [.interrupted, .piece [0x2A]], .finished⟩
    let recordSource : Source := ⟨[], [.piece ((records.flatMap (TransitionRecord.bytes true)).take 7),
      .interrupted, .piece ((records.flatMap (TransitionRecord.bytes true)).drop 7)], .finished⟩
    slotSource.ending = .finished ∧ recordSource.ending = .finished ∧
    (∃ table rest, (IndexTable.read (2 : UInt32).toNat true).run slotSource = .ok (table, rest) ∧
      rest.contents = [0x2A] ∧ table.isFinal 0 = true ∧
      table.finalWeight? 0 = some ⟨0x3FC00000⟩ ∧ table.input? 1 = some 0 ∧ table.target? 1 = none ∧
      table.finalWeight? 1 = some ⟨0xFFFFFFFF⟩ ∧ table.finalWeight? 2 = none) ∧
    (∃ table rest, (TransitionTable.read (2 : UInt32).toNat true).run recordSource =
      .ok (table, rest) ∧ rest.contents = [] ∧ table.target? 0 = some 0x80000001 ∧
      table.isFinal 1 = true ∧ table.weight? 1 = some ⟨0x7FC00001⟩ ∧ table.isFinal 2 = false) ∧
    (TransitionTable.read (2 : UInt32).toNat true).run
      ⟨(records.flatMap (TransitionRecord.bytes true)).take 23, [], .finished⟩ =
        .error (.endOfStream .transitionTable) := by
  intro slots records slotSource recordSource
  have finished : slotSource.ending = .finished := rfl
  have finishedToo : recordSource.ending = .finished := rfl
  obtain ⟨index, indexRest, indexRead, indexLeft, holdsSlots, -⟩ :=
    (tables_take_records 2 true finished).1.enough (by decide)
  obtain ⟨table, tableRest, tableRead, tableLeft, holdsRecords, -⟩ :=
    (tables_take_records 2 true finishedToo).2.enough (by decide)
  have holds := holdsSlots slots (by decide)
  have holdsToo := holdsRecords records (by decide)
  refine ⟨finished, finishedToo, ⟨index, indexRest, indexRead, indexLeft.trans (by decide), ?_⟩,
    ⟨table, tableRest, tableRead, tableLeft.trans (by decide), ?_⟩, ?_⟩
  · exact ⟨(holds.isFinal 0 _ rfl).mpr (by decide), holds.finalWeight 0 _ rfl,
      holds.input 1 _ rfl, holds.target 1 _ rfl, holds.finalWeight 1 _ rfl,
      (holds.past 2 (by decide)).2.2.1⟩
  · exact ⟨holdsToo.target 0 _ rfl, (holdsToo.isFinal 1 _ rfl).mpr (by decide),
      holdsToo.weight 1 _ rfl, (holdsToo.past 2 (by decide)).2.2.2.2⟩
  · have cut : (⟨(records.flatMap (TransitionRecord.bytes true)).take 23, [], .finished⟩ :
        Source).ending = .finished := rfl
    exact (tables_take_records 2 true cut).2.short (by decide)

end OptimizedLookup
