import OptimizedLookup.Proofs.Alphabet.Reading

/-! The sections of a transducer, each with the bytes that spell it. The counts and the size of a
record are taken from the header, so the grammar of the whole puts the sections one after the other
and lets each depend on the header that was spelled first. -/
namespace OptimizedLookup

namespace Header

/-- The bytes of a head. Without a preamble they must not look like one. -/
inductive Spells : List UInt8 → Header → Prop
  | plain {block : List UInt8} (whole : block.length = fixedLength)
      (noMagic : block.take magic.length ≠ magic)
      (flawless : (ofBlock block fixedLength).defect? = none) :
      Spells block (ofBlock block fixedLength)
  | preceded {length metadata block : List UInt8} (width : length.length = 2)
      (announced : metadata.length = LittleEndian.value length) (whole : block.length = fixedLength)
      (flawless : (ofBlock block (fixedLength + preambleLength + metadata.length)).defect? = none) :
      Spells (magic ++ (length ++ [0] ++ metadata) ++ block)
        (ofBlock block (fixedLength + preambleLength + metadata.length))

theorem checked_eq_ok_iff {header other : Header} :
    header.checked = .ok other ↔ header.defect? = none ∧ other = header := by
  unfold checked
  cases header.defect? with
  | none => simp [eq_comm]
  | some defect => simp

theorem reads_readPreamble : readPreamble.Reads fun used size =>
    ∃ length metadata : List UInt8, used = length ++ [0] ++ metadata ∧ length.length = 2 ∧
      metadata.length = LittleEndian.value length ∧ size = metadata.length := by
  have byte := Loader.reads_exactly .headerPreamble 1 fun bytes => bytes.headD 0
  have skip (length : List UInt8) := Loader.reads_exactly .headerMetadata
    (LittleEndian.value length) fun _ => LittleEndian.value length
  refine ((Loader.reads_read .headerPreamble (.exactly 2)).bind fun length =>
    byte.bind fun separator =>
      (Loader.reads_throw_bind _ _).ite (skip length)).congr fun used size => ?_
  constructor
  · rintro ⟨_, _, length, rfl, ⟨rfl, width⟩, _, metadata, separator, rfl, ⟨single, same⟩, inRest⟩
    obtain ⟨byte, rfl⟩ := List.length_eq_one_iff.mp single
    split at inRest
    · contradiction
    · next nul =>
      obtain ⟨announced, rfl⟩ := inRest
      obtain rfl : byte = 0 := same.symm.trans (Decidable.of_not_not nul)
      exact ⟨length, metadata, (List.append_assoc ..).symm, width, announced, announced.symm⟩
  · rintro ⟨length, metadata, rfl, width, announced, rfl⟩
    refine ⟨length, [0] ++ metadata, length, List.append_assoc .., ⟨rfl, width⟩, [0], metadata, 0,
      rfl, ⟨rfl, rfl⟩, ?_⟩
    rw [if_neg (by decide)]
    exact ⟨announced, announced⟩

theorem reads_read : Header.read.Reads Spells := by
  have readsBlock := Loader.reads_read .header (.exactly fixedLength)
  have readsRest := Loader.reads_read .header (.exactly (fixedLength - magic.length))
  refine ((Loader.reads_read .header (.exactly magic.length)).bind fun probe =>
    (reads_readPreamble.bind fun size => readsBlock.bind fun _ => Loader.reads_liftM _).ite
      (readsRest.bind fun _ => Loader.reads_liftM _)).congr fun used header => ?_
  simp only [checked_eq_ok_iff]
  constructor
  · rintro ⟨probe, _, _, rfl, ⟨rfl, probed⟩, inRest⟩
    split at inRest
    · next isMagic =>
      obtain ⟨_, _, _, rfl, ⟨length, metadata, rfl, width, announced, rfl⟩, block, _, _, rfl,
        ⟨rfl, whole⟩, rfl, flawless, rfl⟩ := inRest
      subst isMagic
      rw [List.append_nil, ← List.append_assoc]
      exact .preceded width announced whole flawless
    · next noMagic =>
      obtain ⟨rest, _, _, rfl, ⟨rfl, restLength⟩, rfl, flawless, rfl⟩ := inRest
      rw [List.append_nil]
      refine .plain ?_ ?_ flawless
      · rw [List.length_append, probed, restLength]
        rfl
      · rwa [← probed, List.take_left]
  · intro spells
    cases spells with
    | plain whole noMagic flawless =>
      have probed : (used.take magic.length).length = magic.length := by
        rw [List.length_take, whole]
        rfl
      refine ⟨used.take magic.length, used.drop magic.length, _,
        (List.take_append_drop _ _).symm, ⟨rfl, probed⟩, ?_⟩
      rw [if_neg noMagic]
      refine ⟨_, [], _, (List.append_nil _).symm, ⟨rfl, ?_⟩, rfl, ?_⟩
      · change (used.drop magic.length).length = fixedLength - magic.length
        rw [List.length_drop, whole]
      · rw [List.take_append_drop]
        exact ⟨flawless, rfl⟩
    | @preceded length metadata block width announced whole flawless =>
      refine ⟨magic, length ++ [0] ++ metadata ++ block, _, List.append_assoc .., ⟨rfl, rfl⟩, ?_⟩
      rw [if_pos rfl]
      exact ⟨_, block, _, rfl, ⟨length, metadata, rfl, width, announced, rfl⟩, block, [], block,
        (List.append_nil _).symm, ⟨rfl, whole⟩, rfl, flawless, rfl⟩

end Header

theorem IndexTable.reads_read (size : Nat) (weighted : Bool) :
    (IndexTable.read size weighted).Reads fun used table =>
      used.length = size * slotLength ∧ table = ⟨decode used #[], weighted⟩ :=
  Loader.reads_exactly .indexTable (size * slotLength)
    fun bytes => IndexTable.mk (decode bytes #[]) weighted

def TransitionTable.decode (weighted : Bool) (bytes : List UInt8) : Array TransitionRecord :=
  if weighted then decodeWeighted bytes #[] else decodeSimple bytes #[]

theorem TransitionTable.reads_read (size : Nat) (weighted : Bool) :
    (TransitionTable.read size weighted).Reads fun used table =>
      used.length = size * recordLength weighted ∧ table = ⟨decode weighted used, weighted⟩ :=
  Loader.reads_exactly .transitionTable (size * recordLength weighted)
    fun bytes => TransitionTable.mk (decode weighted bytes) weighted

namespace Transducer

def Spells (used : List UInt8) (transducer : Transducer) : Prop :=
  ∃ head texts index transitions, used = head ++ (texts ++ (index ++ transitions)) ∧
    Header.Spells head transducer.header ∧
    Alphabet.Spells transducer.header.symbols.toNat texts transducer.alphabet ∧
    transducer.trie = .ofAlphabet transducer.alphabet ∧
    (index.length = transducer.header.indexSize.toNat * IndexTable.slotLength ∧
      transducer.index = ⟨IndexTable.decode index #[], transducer.header.weighted⟩) ∧
    transitions.length = transducer.header.transitionSize.toNat *
      TransitionTable.recordLength transducer.header.weighted ∧
    transducer.transitions =
      ⟨TransitionTable.decode transducer.header.weighted transitions, transducer.header.weighted⟩

theorem reads_read : Transducer.read.Reads Spells := by
  refine (Header.reads_read.bind fun header =>
    (Alphabet.reads_read header.symbols.toNat).bind fun alphabet =>
      (IndexTable.reads_read header.indexSize.toNat header.weighted).bind fun index =>
        (TransitionTable.reads_read header.transitionSize.toNat header.weighted).map
          fun transitions => (⟨header, alphabet, .ofAlphabet alphabet, index, transitions⟩ :
            Transducer)).congr fun used transducer => ?_
  constructor
  · rintro ⟨head, _, header, rfl, spellsHeader, texts, _, alphabet, rfl, spellsAlphabet,
      index, transitions, _, rfl, ⟨indexLength, rfl⟩, _, ⟨transitionsLength, rfl⟩, rfl⟩
    exact ⟨head, texts, index, transitions, rfl, spellsHeader, spellsAlphabet, rfl,
      ⟨indexLength, rfl⟩, transitionsLength, rfl⟩
  · rintro ⟨head, texts, index, transitions, rfl, spellsHeader, spellsAlphabet, sameTrie,
      ⟨indexLength, sameIndex⟩, transitionsLength, sameTransitions⟩
    refine ⟨head, _, transducer.header, rfl, spellsHeader, texts, _, transducer.alphabet, rfl,
      spellsAlphabet, index, transitions, _, rfl, ⟨indexLength, rfl⟩, _,
      ⟨transitionsLength, rfl⟩, ?_⟩
    rw [← sameTrie, ← sameIndex, ← sameTransitions]

theorem load_eq_ok_iff {source : Source} {transducer : Transducer} :
    load source = .ok transducer ↔ ∃ used, used <+: source.contents ∧ Spells used transducer := by
  unfold load
  constructor
  · intro loaded
    cases found : Transducer.read.run source with
    | error error => rw [found] at loaded; contradiction
    | ok result =>
      rw [found] at loaded
      cases loaded
      obtain ⟨used, split, spells⟩ := reads_read.sound found
      exact ⟨used, ⟨_, split.symm⟩, spells⟩
  · rintro ⟨used, ⟨more, split⟩, spells⟩
    obtain ⟨rest, found, -⟩ := reads_read.complete split.symm spells
    rw [found]
    rfl

end Transducer

end OptimizedLookup
