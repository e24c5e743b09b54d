import OptimizedLookup.Lookup
import OptimizedLookup.Proofs.Loading.Verdict

/-! Preambles make no difference. With one in front, the fixed part of a header is read whole;
without one it is read in two parts, of which the first is what was looked at in search of the
preamble. Both come to the same, also where the bytes run short, and from there on only the length
of the header tells them apart, which nothing asks for. -/
namespace OptimizedLookup

namespace Loader

theorem run_read_exactly (part : Section) (count : Nat) (bytes : List UInt8) :
    (Loader.read part (.exactly count)).run (.ofBytes bytes) =
      if count ≤ bytes.length then .ok (bytes.take count, .ofBytes (bytes.drop count))
      else .error (.endOfStream part) := by
  change Loader.read part (.exactly count) (.ofBytes bytes) = _
  generalize drawn : (Demand.exactly count).draw [] bytes = result
  obtain ⟨left, moved, unread⟩ := result
  rw [Loader.read, Source.read, Source.readFrom, Source.ofBytes, drawn]
  by_cases enough : count ≤ bytes.length
  · have meets : (Demand.exactly count).Meets (bytes.take count) := List.length_take_of_le enough
    obtain ⟨_, whole, met⟩ := Demand.draw_of_meets meets [] (bytes.drop count)
    rw [List.take_append_drop, drawn] at whole
    cases whole
    rw [if_pos enough]
    simp [met, Source.ofBytes]
  · have unmet : left.met = false := by
      refine eq_false_of_ne_true fun met => enough ?_
      obtain ⟨used, rfl, -, meets⟩ := Demand.meets_of_draw drawn met
      have length : used.length = count := meets
      rw [List.length_append, length]
      exact Nat.le_add_right _ _
    rw [if_neg enough]
    simp [unmet, Ending.toLoadError]

theorem run_read_front (part : Section) (front back : List UInt8) :
    (Loader.read part (.exactly front.length)).run (.ofBytes (front ++ back)) =
      .ok (front, .ofBytes back) := by
  rw [run_read_exactly, if_pos (by simp), List.take_left, List.drop_left]

theorem run_read_add (part : Section) (front back : Nat) (bytes : List UInt8) :
    (Loader.read part (.exactly (front + back))).run (.ofBytes bytes) =
      (do
        let first ← Loader.read part (.exactly front)
        let second ← Loader.read part (.exactly back)
        return first ++ second : Loader (List UInt8)).run (.ofBytes bytes) := by
  by_cases first : front ≤ bytes.length
  · have found := run_read_exactly part front bytes
    rw [if_pos first] at found
    rw [run_bind_of_ok found]
    have next := run_read_exactly part back (bytes.drop front)
    by_cases second : back ≤ (bytes.drop front).length
    · have both : front + back ≤ bytes.length := by
        rw [List.length_drop] at second
        omega
      rw [if_pos second, List.drop_drop] at next
      rw [run_bind_of_ok next, run_read_exactly, if_pos both, List.take_add]
      rfl
    · have short : ¬ front + back ≤ bytes.length := by
        rw [List.length_drop] at second
        omega
      rw [if_neg second] at next
      rw [run_bind_of_error _ next, run_read_exactly, if_neg short]
  · have failed := run_read_exactly part front bytes
    rw [if_neg first] at failed
    rw [run_bind_of_error _ failed, run_read_exactly, if_neg (by omega)]

end Loader

namespace Header

def readBlock (byteLength : Nat) : Loader Header := do
  let block ← Loader.read .header (.exactly fixedLength)
  checked (ofBlock block byteLength)

def lengthen (count : Nat) (header : Header) : Header :=
  { header with byteLength := header.byteLength + count }

theorem checked_lengthen (count : Nat) (header : Header) :
    (header.lengthen count).checked = header.checked.map (lengthen count) := by
  have same : (header.lengthen count).defect? = header.defect? := rfl
  rw [checked, checked, same]
  cases header.defect? <;> rfl

theorem readBlock_add (byteLength count : Nat) :
    readBlock (byteLength + count) = lengthen count <$> readBlock byteLength := by
  unfold readBlock
  rw [map_bind]
  refine bind_congr fun block => ?_
  change (liftM ((ofBlock block byteLength).lengthen count).checked : Loader Header) = _
  rw [checked_lengthen]
  cases (ofBlock block byteLength).checked <;> rfl

variable {bytes metadata : List UInt8}

theorem run_read_of_not_magic (noMagic : ¬ magic <+: bytes) :
    Header.read.run (.ofBytes bytes) = (readBlock fixedLength).run (.ofBytes bytes) := by
  have parts := Loader.run_read_add .header magic.length (fixedLength - magic.length) bytes
  have whole : magic.length + (fixedLength - magic.length) = fixedLength := rfl
  have probed := Loader.run_read_exactly .header magic.length bytes
  rw [whole] at parts
  rw [readBlock, Loader.run_bind_congr parts, bind_assoc, Header.read]
  by_cases enough : magic.length ≤ bytes.length
  · rw [if_pos enough] at probed
    rw [Loader.run_bind_of_ok probed, Loader.run_bind_of_ok probed,
      if_neg fun isMagic => noMagic (List.prefix_iff_eq_take.mpr isMagic.symm), bind_assoc]
    simp only [pure_bind]
  · rw [if_neg enough] at probed
    rw [Loader.run_bind_of_error _ probed, Loader.run_bind_of_error _ probed]

theorem run_readPreamble (short : metadata.length ≤ 65535) (bytes : List UInt8) :
    readPreamble.run (.ofBytes (LittleEndian.bytes 2 metadata.length ++ [0] ++ metadata ++ bytes)) =
      .ok (metadata.length, .ofBytes bytes) := by
  have announced := Layout.value_bytes_length (Nat.lt_succ_of_le short)
  have length := Loader.run_read_front .headerPreamble (LittleEndian.bytes 2 metadata.length)
    ([0] ++ (metadata ++ bytes))
  have separator : (Loader.readByte .headerPreamble).run (.ofBytes ([0] ++ (metadata ++ bytes))) =
      .ok (0, .ofBytes (metadata ++ bytes)) :=
    Loader.run_bind_of_ok (Loader.run_read_front .headerPreamble [0] (metadata ++ bytes))
  have skipped := Loader.run_read_front .headerMetadata metadata bytes
  rw [LittleEndian.length_bytes] at length
  rw [List.append_assoc, List.append_assoc, readPreamble, Loader.run_bind_of_ok length,
    Loader.run_bind_of_ok separator, if_neg (by decide), announced, Loader.run_bind_of_ok skipped]
  rfl

theorem run_read_preambleOf (short : metadata.length ≤ 65535) (bytes : List UInt8) :
    Header.read.run (.ofBytes (Layout.preambleOf (some metadata) ++ bytes)) =
      (readBlock (fixedLength + (preambleLength + metadata.length))).run (.ofBytes bytes) := by
  have probed := Loader.run_read_front .header magic
    (LittleEndian.bytes 2 metadata.length ++ [0] ++ metadata ++ bytes)
  rw [Layout.preambleOf, List.append_assoc, Header.read, Loader.run_bind_of_ok probed, if_pos rfl,
    Loader.run_bind_of_ok (run_readPreamble short bytes), Nat.add_assoc]
  rfl

end Header

namespace Transducer

def readBehind (header : Header) : Loader Transducer := do
  let alphabet ← Alphabet.read header.symbols.toNat
  let index ← IndexTable.read header.indexSize.toNat header.weighted
  let transitions ← TransitionTable.read header.transitionSize.toNat header.weighted
  return ⟨header, alphabet, .ofAlphabet alphabet, index, transitions⟩

theorem read_eq_bind : read = Header.read >>= readBehind := rfl

def lengthen (count : Nat) (transducer : Transducer) : Transducer :=
  { transducer with header := transducer.header.lengthen count }

theorem readBehind_lengthen (count : Nat) (header : Header) :
    readBehind (header.lengthen count) = lengthen count <$> readBehind header := by
  simp only [readBehind, map_bind, map_pure]
  rfl

section Search

variable {transducer : Transducer} {count : Nat}

theorem followFree_lengthen (descend : Descent) (records record : Nat) (context : Context) :
    (transducer.lengthen count).followFree descend records record context =
      transducer.followFree descend records record context := by
  induction records generalizing record context with
  | zero => rfl
  | succ records ih =>
    simp only [followFree, ih]
    rfl

theorem followMatching_lengthen (descend : Descent) (symbol : Symbol) (records record : Nat)
    (context : Context) :
    (transducer.lengthen count).followMatching descend symbol records record context =
      transducer.followMatching descend symbol records record context := by
  induction records generalizing record context with
  | zero => rfl
  | succ records ih =>
    simp only [followMatching, ih]
    rfl

theorem visit_lengthen (limit level : Nat) :
    (transducer.lengthen count).visit limit level = transducer.visit limit level := by
  induction level with
  | zero => rfl
  | succ level ih =>
    funext state context
    simp only [visit, leaveFree, leaveMatching, followFree_lengthen, followMatching_lengthen, ih]
    rfl

theorem analyze_lengthen (word : String) (config : Config) (uniqueBy : UniqueBy) :
    (transducer.lengthen count).analyze word config uniqueBy =
      transducer.analyze word config uniqueBy := by
  simp only [analyze, search, visit_lengthen]
  rfl

end Search

variable {bytes metadata : List UInt8}

theorem run_read_preambleOf (noMagic : ¬ Header.magic <+: bytes)
    (short : metadata.length ≤ 65535) :
    read.run (.ofBytes (Layout.preambleOf (some metadata) ++ bytes)) =
      (lengthen (8 + metadata.length) <$> read).run (.ofBytes bytes) := by
  have header : Header.read.run (.ofBytes (Layout.preambleOf (some metadata) ++ bytes)) =
      (Header.lengthen (8 + metadata.length) <$> Header.read).run (.ofBytes bytes) := by
    rw [Header.run_read_preambleOf short, StateT.run_map, Header.run_read_of_not_magic noMagic,
      Header.readBlock_add, StateT.run_map]
    rfl
  rw [read_eq_bind, Loader.run_bind_congr header, bind_map_left, map_bind]
  simp only [readBehind_lengthen]

theorem ofBytes_preambleOf_append (noMagic : ¬ Header.magic <+: bytes)
    (short : metadata.length ≤ 65535) :
    ofBytes (Layout.preambleOf (some metadata) ++ bytes) =
      (ofBytes bytes).map (lengthen (8 + metadata.length)) := by
  rw [ofBytes, ofBytes, load, load, run_read_preambleOf noMagic short, StateT.run_map]
  cases read.run (.ofBytes bytes) <;> rfl

/-- A preamble in front of bytes that do not look like one is passed over: what fails without it
fails in the same way, and what loads without it answers in the same way, with the preamble counted
to the length of the header. -/
theorem ofBytes_preceded (noMagic : ¬ Header.magic <+: bytes) (short : metadata.length ≤ 65535) :
    let preceded := Header.magic ++ LittleEndian.bytes 2 metadata.length ++ [0] ++ metadata ++ bytes
    (∀ error, ofBytes bytes = .error error → ofBytes preceded = .error error) ∧
    ∀ transducer, ofBytes bytes = .ok transducer →
      ∃ other, ofBytes preceded = .ok other ∧
        other.header = { transducer.header with
          byteLength := transducer.header.byteLength + (8 + metadata.length) } ∧
        other.alphabet = transducer.alphabet ∧ other.trie = transducer.trie ∧
        other.index = transducer.index ∧ other.transitions = transducer.transitions ∧
        (∀ word, other.tokenize word = transducer.tokenize word) ∧
        ∀ word config uniqueBy, other.analyze word config uniqueBy =
          transducer.analyze word config uniqueBy := by
  intro preceded
  have outcome : ofBytes preceded = (ofBytes bytes).map (lengthen (8 + metadata.length)) := by
    rw [← ofBytes_preambleOf_append noMagic short, Layout.preambleOf, ← List.append_assoc,
      ← List.append_assoc]
  refine ⟨fun error failed => ?_, fun transducer loaded => ?_⟩
  · rw [outcome, failed]
    rfl
  · rw [loaded] at outcome
    exact ⟨transducer.lengthen (8 + metadata.length), outcome, rfl, rfl, rfl, rfl, rfl,
      fun _ => rfl, analyze_lengthen⟩

theorem ofBytes_preceded_twoPaths :
    let preamble : List UInt8 := [0x48, 0x46, 0x53, 0x54, 0x00, 0x02, 0x00, 0x00, 0x61, 0x00]
    (∃ transducer other : Transducer,
      ofBytes Layout.twoPaths.bytes = .ok transducer ∧
      ofBytes (preamble ++ Layout.twoPaths.bytes) = .ok other ∧
      transducer.header.byteLength = 56 ∧ other.header.byteLength = 66 ∧
      (transducer.analyze "a").map (List.map Analysis.output) = .ok ["a", "a"] ∧
      (other.analyze "a").map (List.map Analysis.output) = .ok ["a", "a"]) ∧
    ofBytes [0x48, 0x46] = .error (.endOfStream .header) ∧
    ofBytes (preamble ++ [0x48, 0x46]) = .error (.endOfStream .header) := by
  intro preamble
  have view : (ofBytes Layout.twoPaths.bytes).toOption.map (fun transducer =>
      (transducer.header.byteLength,
        (transducer.analyze "a").toOption.map fun analyses => analyses.map Analysis.output)) =
      some (56, some ["a", "a"]) := by
    decide +kernel
  obtain ⟨transducer, loaded, view⟩ := exists_ok_of_map view
  obtain ⟨length, printed⟩ := Prod.mk.inj view
  obtain ⟨analyses, found, outputs⟩ := exists_ok_of_map printed
  have failed : ofBytes [0x48, 0x46] = .error (.endOfStream .header) :=
    failure?_eq_some_iff.mp (by decide +kernel)
  have noMagic : ¬ Header.magic <+: Layout.twoPaths.bytes := by decide +kernel
  obtain ⟨-, loads⟩ := ofBytes_preceded noMagic (show [0x61, 0x00].length ≤ 65535 by decide)
  obtain ⟨fails, -⟩ := ofBytes_preceded (show ¬ Header.magic <+: [0x48, 0x46] by decide)
    (show [0x61, 0x00].length ≤ 65535 by decide)
  obtain ⟨other, behind, header, -, -, -, -, -, same⟩ := loads transducer loaded
  refine ⟨⟨transducer, other, loaded, behind, length, ?_, ?_, ?_⟩, failed, fails _ failed⟩
  · rw [header, length]
    rfl
  · rw [found, ← outputs]
    rfl
  · rw [same, found, ← outputs]
    rfl

end Transducer

end OptimizedLookup
