import OptimizedLookup.Proofs.Loading.Words

/-! The layout of a transducer, written down: what the sections hold and the bytes they are written
as. Loading goes through exactly for bytes that begin with a valid layout, and what it gives is
described by every such layout, section by section. -/
namespace OptimizedLookup

/-- What a file says before its last record, with the metadata of its preamble if it has one. -/
structure Layout where
  metadata : Option (List UInt8)
  inputSymbols : UInt16
  symbols : UInt16
  indexSize : UInt32
  transitionSize : UInt32
  states : UInt32
  transitions : UInt32
  properties : Vector UInt32 9
  texts : List (List Char)
  slots : List UInt8
  records : List UInt8

namespace Layout

def preambleOf : Option (List UInt8) → List UInt8
  | none => []
  | some metadata => Header.magic ++ (LittleEndian.bytes 2 metadata.length ++ [0] ++ metadata)

def preamble (layout : Layout) : List UInt8 := preambleOf layout.metadata

def block (layout : Layout) : List UInt8 :=
  LittleEndian.bytes 2 layout.inputSymbols.toNat ++
    (LittleEndian.bytes 2 layout.symbols.toNat ++
      (LittleEndian.bytes 4 layout.indexSize.toNat ++
        (LittleEndian.bytes 4 layout.transitionSize.toNat ++
          (LittleEndian.bytes 4 layout.states.toNat ++
            (LittleEndian.bytes 4 layout.transitions.toNat ++
              Header.written layout.properties.toList)))))

def alphabet (layout : Layout) : List UInt8 := layout.texts.flatMap Alphabet.terminated

def bytes (layout : Layout) : List UInt8 :=
  layout.preamble ++ layout.block ++ (layout.alphabet ++ (layout.slots ++ layout.records))

def has (layout : Layout) (property : Property) : Bool :=
  layout.properties.get property.position != 0

def header (layout : Layout) : Header where
  inputSymbols := layout.inputSymbols
  symbols := layout.symbols
  indexSize := layout.indexSize
  transitionSize := layout.transitionSize
  states := layout.states
  transitions := layout.transitions
  properties := layout.properties.map (· != 0)
  byteLength := layout.preamble.length + 56

/-- The counts fit what they count, there is a symbol, tables can be addressed, flags have no more
than 32767 values, and a layout without a preamble does not look like one with it. -/
structure Valid (layout : Layout) : Prop where
  metadata : ∀ metadata, layout.metadata = some metadata → metadata.length < 0x10000
  noMagic : layout.metadata = none → ¬ Header.magic <+: layout.block
  nonempty : 1 ≤ layout.symbols
  indexSize : layout.indexSize < 0x80000000
  transitionSize : layout.transitionSize < 0x80000000
  count : layout.texts.length = layout.symbols.toNat
  noNul : ∀ text ∈ layout.texts, '\x00' ∉ text
  values : (Alphabet.valuesOf layout.texts).eraseDups.length ≤ 32767
  slots : layout.slots.length = 6 * layout.indexSize.toNat
  records : layout.records.length =
    (if layout.properties.get 0 ≠ 0 then 12 else 8) * layout.transitionSize.toNat

/-- Each part of the transducer is what its own bytes say. -/
structure Describes (layout : Layout) (transducer : Transducer) : Prop where
  inputSymbols : transducer.header.inputSymbols = layout.inputSymbols
  symbols : transducer.header.symbols = layout.symbols
  indexSize : transducer.header.indexSize = layout.indexSize
  transitionSize : transducer.header.transitionSize = layout.transitionSize
  states : transducer.header.states = layout.states
  transitions : transducer.header.transitions = layout.transitions
  properties : ∀ property : Property, transducer.header.has property = true ↔
    layout.properties.get property.position ≠ 0
  headLength : transducer.header.byteLength = layout.preamble.length + 56
  alphabetLength : transducer.alphabet.byteLength = layout.alphabet.length
  alphabet : transducer.alphabet.Of layout.texts
  index : transducer.index.Decodes layout.indexSize.toNat (layout.has .weighted) layout.slots
  records : transducer.transitions.Decodes layout.transitionSize.toNat (layout.has .weighted)
    layout.records

theorem length_block (layout : Layout) : layout.block.length = Header.fixedLength := by
  simp only [block, List.length_append, LittleEndian.length_bytes, Header.length_written,
    Vector.length_toList]
  rfl

theorem header_has (layout : Layout) (property : Property) :
    layout.header.has property = layout.has property := by
  unfold Header.has header has
  exact Vector.getElem_map ..

theorem ofBlock_block (layout : Layout) :
    Header.ofBlock layout.block (layout.preamble.length + 56) = layout.header := by
  have inputSymbols : word16At layout.block 0 = layout.inputSymbols := by
    rw [block, word16At_front]
  have symbols : word16At layout.block (2 + 0) = layout.symbols := by
    rw [block, word16At_past, word16At_front]
  have indexSize : word32At layout.block (2 + (2 + 0)) = layout.indexSize := by
    rw [block, word32At_past, word32At_past, word32At_front]
  have transitionSize : word32At layout.block (2 + (2 + (4 + 0))) = layout.transitionSize := by
    rw [block, word32At_past, word32At_past, word32At_past, word32At_front]
  have states : word32At layout.block (2 + (2 + (4 + (4 + 0)))) = layout.states := by
    rw [block, word32At_past, word32At_past, word32At_past, word32At_past, word32At_front]
  have transitions : word32At layout.block (2 + (2 + (4 + (4 + (4 + 0))))) =
      layout.transitions := by
    rw [block, word32At_past, word32At_past, word32At_past, word32At_past, word32At_past,
      word32At_front]
  have properties : (Vector.ofFn fun i : Fin 9 => Header.field layout.block (20 + 4 * i.val) 4 != 0) =
      layout.properties.map (· != 0) := by
    apply Vector.ext
    intro i within
    have found : layout.properties.toList[i]? = some layout.properties[i] := by
      rw [List.getElem?_eq_getElem (by simpa using within), Vector.getElem_toList]
    rw [Vector.getElem_ofFn, Vector.getElem_map,
      show 20 + 4 * i = 2 + (2 + (4 + (4 + (4 + (4 + 4 * i))))) by omega, block,
      Header.field_past, Header.field_past, Header.field_past, Header.field_past,
      Header.field_past, Header.field_past, Header.field_written found]
    rw [Bool.eq_iff_iff, bne_iff_ne, bne_iff_ne, ne_eq, ne_eq, ← UInt32.toNat_inj]
    rfl
  unfold Header.ofBlock header
  rw [Header.mk.injEq]
  exact ⟨inputSymbols, symbols, indexSize, transitionSize, states, transitions, properties, rfl⟩

def ofSections (metadata : Option (List UInt8)) (block : List UInt8) (texts : List (List Char))
    (slots records : List UInt8) : Layout where
  metadata := metadata
  inputSymbols := word16At block 0
  symbols := word16At block 2
  indexSize := word32At block 4
  transitionSize := word32At block 8
  states := word32At block 12
  transitions := word32At block 16
  properties := Vector.ofFn fun i => word32At block (20 + 4 * i.val)
  texts := texts
  slots := slots
  records := records

theorem block_ofSections {metadata : Option (List UInt8)} {block : List UInt8}
    {texts : List (List Char)} {slots records : List UInt8}
    (whole : block.length = Header.fixedLength) :
    (ofSections metadata block texts slots records).block = block := by
  have length : block.length = 56 := whole
  have rest : (block.drop 20).length = 4 * 9 := by
    rw [List.length_drop, length]
  have properties := Header.written_ofFn rest
  simp only [Header.field_drop] at properties
  simp only [Layout.block, ofSections, Vector.toList_ofFn]
  change _ ++ (_ ++ (_ ++ (_ ++ (_ ++ (_ ++ Header.written (List.ofFn fun i : Fin 9 =>
    UInt32.ofNat (Header.field block (20 + 4 * i.val) 4))))))) = block
  rw [properties, bytes_word32At block 16 (by omega), bytes_word32At block 12 (by omega),
    bytes_word32At block 8 (by omega), bytes_word32At block 4 (by omega),
    bytes_word16At block 2 (by omega), bytes_word16At block 0 (by omega), List.drop_zero]

theorem defect?_eq_none_iff {header : Header} : header.defect? = none ↔
    1 ≤ header.symbols ∧ header.indexSize < 0x80000000 ∧
      header.transitionSize < 0x80000000 := by
  unfold Header.defect? transitionBase
  by_cases empty : header.symbols = 0
  · rw [if_pos empty, empty]
    exact ⟨nofun, fun sized => absurd sized.1 (by decide)⟩
  · have nonempty : 1 ≤ header.symbols := by
      rw [UInt16.le_iff_toNat_le]
      exact Nat.pos_of_ne_zero fun zero => empty (UInt16.toNat_inj.mp zero)
    rw [if_neg empty]
    by_cases index : 0x80000000 ≤ header.indexSize
    · simp [index, UInt32.not_lt.mpr index]
    · by_cases transition : 0x80000000 ≤ header.transitionSize
      · simp [index, transition, UInt32.not_lt.mpr transition]
      · simp [index, transition, nonempty, UInt32.not_le.mp index, UInt32.not_le.mp transition]

theorem length_preamble (metadata : List UInt8) :
    (preambleOf (some metadata)).length = Header.preambleLength + metadata.length := by
  simp only [preambleOf, List.length_append, LittleEndian.length_bytes]
  change 5 + (2 + 1 + _) = 8 + _
  omega

theorem header_of_plain {layout : Layout} (stored : layout.metadata = none) :
    layout.header = Header.ofBlock layout.block Header.fixedLength := by
  rw [← ofBlock_block, preamble, stored]
  rfl

theorem header_of_preceded {layout : Layout} {metadata : List UInt8}
    (stored : layout.metadata = some metadata) : layout.header = Header.ofBlock layout.block
      (Header.fixedLength + Header.preambleLength + metadata.length) := by
  rw [← ofBlock_block, preamble, stored, length_preamble]
  congr 1
  change _ = 56 + _ + _
  omega

theorem Valid.flawless {layout : Layout} (valid : layout.Valid) : layout.header.defect? = none :=
  defect?_eq_none_iff.mpr ⟨valid.nonempty, valid.indexSize, valid.transitionSize⟩

theorem value_bytes_length {metadata : List UInt8} (short : metadata.length < 0x10000) :
    LittleEndian.value (LittleEndian.bytes 2 metadata.length) = metadata.length := by
  rw [LittleEndian.value_bytes, LittleEndian.capacity_two, Nat.mod_eq_of_lt short]

theorem Valid.announced {layout : Layout} {metadata : List UInt8} (valid : layout.Valid)
    (stored : layout.metadata = some metadata) :
    metadata.length = LittleEndian.value (LittleEndian.bytes 2 metadata.length) :=
  (value_bytes_length (valid.metadata metadata stored)).symm

theorem Valid.take_block_ne_magic {layout : Layout} (valid : layout.Valid)
    (stored : layout.metadata = none) :
    layout.block.take Header.magic.length ≠ Header.magic := fun isMagic =>
  valid.noMagic stored (List.prefix_iff_eq_take.mpr isMagic.symm)

theorem Valid.spellsHeader {layout : Layout} (valid : layout.Valid) :
    Header.Spells (layout.preamble ++ layout.block) layout.header := by
  have flawless := valid.flawless
  unfold preamble
  cases stored : layout.metadata with
  | none =>
    rw [header_of_plain stored] at flawless ⊢
    exact .plain layout.length_block (valid.take_block_ne_magic stored) flawless
  | some metadata =>
    rw [header_of_preceded stored] at flawless ⊢
    exact .preceded (LittleEndian.length_bytes ..) (valid.announced stored) layout.length_block
      flawless

theorem exists_of_spellsHeader {head : List UInt8} {header : Header}
    (spells : Header.Spells head header) :
    ∃ metadata block, block.length = Header.fixedLength ∧ head = preambleOf metadata ++ block ∧
      (∀ bytes, metadata = some bytes → bytes.length < 0x10000) ∧
      (metadata = none → ¬ Header.magic <+: block) ∧
      header = Header.ofBlock block ((preambleOf metadata).length + 56) ∧
      header.defect? = none := by
  cases spells with
  | plain whole noMagic flawless =>
    refine ⟨none, head, whole, rfl, nofun, fun _ isMagic => ?_, rfl, flawless⟩
    exact noMagic (List.prefix_iff_eq_take.mp isMagic).symm
  | @preceded length metadata block width announced whole flawless =>
    have written : LittleEndian.bytes 2 metadata.length = length := by
      rw [announced, ← width, LittleEndian.bytes_value]
    have small : metadata.length < 0x10000 := by
      have := LittleEndian.value_lt length
      rwa [width, LittleEndian.capacity_two, ← announced] at this
    refine ⟨some metadata, block, whole, ?_, ?_, nofun, ?_, flawless⟩
    · rw [preambleOf, written]
    · rintro _ ⟨⟩
      exact small
    · rw [length_preamble]
      congr 1
      change 56 + _ + _ = _
      omega

theorem weighted_header (layout : Layout) : layout.header.weighted = layout.has .weighted :=
  layout.header_has .weighted

theorem recordLength_has (layout : Layout) :
    TransitionTable.recordLength (layout.has .weighted) =
      if layout.properties.get 0 ≠ 0 then 12 else 8 := by
  unfold TransitionTable.recordLength has
  simp only [bne_iff_ne]
  rfl

theorem Valid.length_slots {layout : Layout} (valid : layout.Valid) :
    layout.slots.length = layout.indexSize.toNat * IndexTable.slotLength := by
  rw [valid.slots, Nat.mul_comm]
  rfl

theorem Valid.length_records {layout : Layout} (valid : layout.Valid) :
    layout.records.length =
      layout.transitionSize.toNat * TransitionTable.recordLength layout.header.weighted := by
  rw [valid.records, weighted_header, recordLength_has, Nat.mul_comm]

theorem Valid.spells {layout : Layout} (valid : layout.Valid) :
    ∃ transducer : Transducer, transducer.Spells layout.bytes ∧ layout.Describes transducer := by
  obtain ⟨draft, added⟩ := Alphabet.Draft.addAll_eq_ok_iff.mpr valid.values
  have made := Alphabet.Draft.of_addAll added
  have recordsLength := valid.length_records
  rw [weighted_header] at recordsLength
  refine ⟨⟨layout.header, draft.finish, .ofAlphabet draft.finish,
    ⟨IndexTable.decode layout.slots #[], layout.has .weighted⟩,
    ⟨TransitionTable.decode (layout.has .weighted) layout.records, layout.has .weighted⟩⟩, ?_, ?_⟩
  · refine ⟨layout.preamble ++ layout.block, layout.alphabet, layout.slots, layout.records, rfl,
      valid.spellsHeader, ⟨layout.texts, valid.count, valid.noNul, rfl, draft, added, rfl⟩, rfl, ?_⟩
    rw [weighted_header]
    exact ⟨⟨valid.length_slots, rfl⟩, recordsLength, rfl⟩
  · refine ⟨rfl, rfl, rfl, rfl, rfl, rfl, fun property => ?_, rfl, made.byteLength, made,
      IndexTable.decodes_decode valid.length_slots _, TransitionTable.decodes_decode recordsLength⟩
    rw [header_has, has, bne_iff_ne]

theorem exists_of_spells {used : List UInt8} {transducer : Transducer}
    (spells : transducer.Spells used) :
    ∃ layout : Layout, layout.Valid ∧ layout.bytes = used := by
  obtain ⟨head, _, slots, records, rfl, spellsHeader,
    ⟨texts, count, noNul, rfl, draft, added, -⟩, -, ⟨slotsLength, -⟩, recordsLength, -⟩ := spells
  obtain ⟨metadata, block, whole, rfl, short, noMagic, made, flawless⟩ :=
    exists_of_spellsHeader spellsHeader
  have sameBlock : (ofSections metadata block texts slots records).block = block :=
    block_ofSections whole
  have sameHeader : transducer.header = (ofSections metadata block texts slots records).header := by
    rw [made, ← ofBlock_block, sameBlock]
    rfl
  obtain ⟨nonempty, indexSize, transitionSize⟩ := defect?_eq_none_iff.mp flawless
  rw [sameHeader] at nonempty indexSize transitionSize slotsLength recordsLength count
  refine ⟨ofSections metadata block texts slots records, ?_, ?_⟩
  · refine ⟨short, fun absent => ?_, nonempty, indexSize, transitionSize, count, noNul,
      Alphabet.Draft.addAll_eq_ok_iff.mp ⟨draft, added⟩, ?_, ?_⟩
    · rw [sameBlock]
      exact noMagic absent
    · exact slotsLength.trans (Nat.mul_comm ..)
    · rwa [weighted_header, recordLength_has, Nat.mul_comm] at recordsLength
  · rw [bytes, sameBlock]
    rfl

/-- A transducer with two paths for one letter, the first of them past a flag. -/
def twoPaths : Layout where
  metadata := none
  inputSymbols := 2
  symbols := 3
  indexSize := 3
  transitionSize := 6
  states := 3
  transitions := 3
  properties := .replicate 9 0
  texts := ["".toList, "a".toList, "@P.C.X@".toList]
  slots := List.flatMap Slot.bytes [.empty, ⟨0, 0x80000000⟩, ⟨1, 0x80000002⟩]
  records := List.flatMap (TransitionRecord.bytes false)
    [⟨2, 0, 0x80000003, .zero⟩, .stop, ⟨1, 1, 0x80000005, .zero⟩, .stop,
      ⟨1, 1, 0x80000005, .zero⟩, .final]

theorem valid_twoPaths : twoPaths.Valid := by
  constructor <;> decide +kernel

end Layout

namespace Transducer

/-- A file is a transducer exactly if it begins with a valid layout, and every part of the
transducer is then read from that part's own bytes. -/
theorem ofBytes_layout (bytes : List UInt8) :
    ((∃ transducer, ofBytes bytes = .ok transducer) ↔
      ∃ layout : Layout, layout.Valid ∧ layout.bytes <+: bytes) ∧
    ∀ (transducer : Transducer) (layout : Layout), ofBytes bytes = .ok transducer →
      layout.Valid → layout.bytes <+: bytes → layout.Describes transducer := by
  have ofValid {layout : Layout} (valid : layout.Valid) (begins : layout.bytes <+: bytes) :
      ∃ transducer, ofBytes bytes = .ok transducer ∧ layout.Describes transducer := by
    obtain ⟨transducer, spells, describes⟩ := valid.spells
    refine ⟨transducer, load_eq_ok_iff.mpr ⟨layout.bytes, ?_, spells⟩, describes⟩
    rwa [Source.contents_ofBytes]
  refine ⟨⟨?_, ?_⟩, ?_⟩
  · rintro ⟨transducer, loaded⟩
    obtain ⟨used, begins, spells⟩ := load_eq_ok_iff.mp loaded
    obtain ⟨layout, valid, rfl⟩ := Layout.exists_of_spells spells
    rw [Source.contents_ofBytes] at begins
    exact ⟨layout, valid, begins⟩
  · rintro ⟨layout, valid, begins⟩
    obtain ⟨transducer, loaded, -⟩ := ofValid valid begins
    exact ⟨transducer, loaded⟩
  · intro transducer layout loaded valid begins
    obtain ⟨other, same, describes⟩ := ofValid valid begins
    rw [loaded] at same
    cases same
    exact describes

theorem ofBytes_layout_twoPaths : ∃ transducer,
    ofBytes Layout.twoPaths.bytes = .ok transducer ∧ Layout.twoPaths.Describes transducer := by
  obtain ⟨accepted, described⟩ := ofBytes_layout Layout.twoPaths.bytes
  obtain ⟨transducer, loaded⟩ :=
    accepted.mpr ⟨Layout.twoPaths, Layout.valid_twoPaths, List.prefix_rfl⟩
  exact ⟨transducer, loaded, described _ _ loaded Layout.valid_twoPaths List.prefix_rfl⟩

end Transducer

end OptimizedLookup
