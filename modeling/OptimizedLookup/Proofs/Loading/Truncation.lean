import OptimizedLookup.Proofs.Loading.Verdict

/-! Files that are cut off and files with more behind them. Every byte of a transducer belongs to a
section, and a file that ends before the byte runs short in just that section: it is neither taken
for a shorter transducer nor called flawed. Bytes behind what was enough to tell change nothing. -/
namespace OptimizedLookup

theorem Demand.Meets.met_of_draw_take {demand left : Demand} {used moved unread : List UInt8}
    {count : Nat} (meets : demand.Meets used) (short : count < used.length)
    (drawn : demand.draw [] (used.take count) = (left, moved, unread)) : left.met = false := by
  -- a part that met the demand would leave the other bytes of the whole unread
  refine eq_false_of_ne_true fun met => ?_
  obtain ⟨front, split, -, meetsFront⟩ := meets_of_draw drawn met
  obtain ⟨_, whole, -⟩ := draw_of_meets meets [] []
  obtain ⟨_, early, -⟩ := draw_of_meets meetsFront [] (unread ++ used.drop count)
  rw [← List.append_assoc, ← split, List.take_append_drop, ← List.append_nil used, whole] at early
  have nothing := (List.append_eq_nil_iff.mp (Prod.mk.inj (Prod.mk.inj early).2).2.symm).2
  rw [List.append_nil, List.drop_eq_nil_iff] at nothing
  omega

namespace Loader

variable {α β : Type} {loader : Loader α} {used : List UInt8} {value : α}
  {sections : List Section}

/-- The loader takes the bytes for the value, each byte for its section: it runs short in the
section of the first byte that is not there. -/
structure Spans (loader : Loader α) (used : List UInt8) (value : α) (sections : List Section) :
    Prop where
  length : sections.length = used.length
  whole : ∀ source more, source.contents = used ++ more → loader.Gives source (.found value more)
  cut : ∀ source count part, source.contents = used.take count → sections[count]? = some part →
    loader.Gives source (.short part)

theorem spans_pure (value : α) : (pure value : Loader α).Spans [] value [] where
  length := rfl
  whole source _ contents := ⟨source, rfl, contents, rfl⟩
  cut _ _ _ _ found := by contradiction

theorem spans_read (part : Section) {demand : Demand} (meets : demand.Meets used) :
    (Loader.read part demand).Spans used used (List.replicate used.length part) where
  length := List.length_replicate
  whole source more contents := by
    obtain ⟨left, drawn, met⟩ := Demand.draw_of_meets meets [] more
    rw [← contents] at drawn
    have given := gives_read part drawn
    rwa [if_pos met, List.append_nil, List.reverse_reverse] at given
  cut source count owner contents found := by
    rw [List.getElem?_replicate] at found
    split at found
    · next short =>
      cases found
      generalize drawn : demand.draw [] source.contents = result
      obtain ⟨left, moved, unread⟩ := result
      have given := gives_read part drawn
      rw [contents] at drawn
      rwa [meets.met_of_draw_take short drawn] at given
    · contradiction

theorem Spans.bind {next : α → Loader β} {front back : List UInt8} {result : β}
    {frontSections backSections : List Section} (first : loader.Spans front value frontSections)
    (second : (next value).Spans back result backSections) :
    (loader >>= next).Spans (front ++ back) result (frontSections ++ backSections) where
  length := by rw [List.length_append, List.length_append, first.length, second.length]
  whole source more contents := by
    rw [List.append_assoc] at contents
    obtain ⟨after, found, rest, ending⟩ := first.whole source _ contents
    exact .bind found ending (second.whole after more rest)
  cut source count part contents found := by
    rw [List.take_append] at contents
    by_cases inside : count < front.length
    · -- the second loader is never asked
      rw [List.getElem?_append_left (first.length ▸ inside)] at found
      have none : count - front.length = 0 := by omega
      rw [none, List.take_zero, List.append_nil] at contents
      exact run_bind_of_error next (first.cut source count part contents found)
    · rw [List.getElem?_append_right (by rw [first.length]; omega), first.length] at found
      rw [List.take_of_length_le (by omega)] at contents
      obtain ⟨after, ran, rest, ending⟩ := first.whole source _ contents
      exact .bind ran ending (second.cut after _ part rest found)

theorem Spans.map (spans : loader.Spans used value sections) (make : α → β) :
    (loader >>= fun value => pure (make value)).Spans used (make value) sections := by
  have both : (loader >>= fun value => pure (make value)).Spans (used ++ []) (make value)
      (sections ++ []) := spans.bind (spans_pure (make value))
  rwa [List.append_nil, List.append_nil] at both

theorem spans_liftM {result : Except LoadError α} (passed : result = .ok value) :
    (liftM result : Loader α).Spans [] value [] := by
  rw [passed]
  exact spans_pure value

theorem spans_exactly (part : Section) {count : Nat} (exact : used.length = count) :
    (Loader.read part (.exactly count)).Spans used used (List.replicate count part) := by
  have meets : (Demand.exactly count).Meets used := exact
  rw [← exact] at meets ⊢
  exact spans_read part meets

end Loader

namespace Header

theorem spans_plain {probe rest : List UInt8} (probed : probe.length = magic.length)
    (left : rest.length = fixedLength - magic.length) (noMagic : probe ≠ magic)
    (flawless : (ofBlock (probe ++ rest) fixedLength).defect? = none) :
    Header.read.Spans (probe ++ rest) (ofBlock (probe ++ rest) fixedLength)
      (List.replicate fixedLength .header) := by
  have parts : Header.read.Spans (probe ++ (rest ++ [])) (ofBlock (probe ++ rest) fixedLength)
      (List.replicate magic.length .header ++
        (List.replicate (fixedLength - magic.length) .header ++ [])) := by
    refine (Loader.spans_exactly .header probed).bind ?_
    rw [if_neg noMagic]
    exact (Loader.spans_exactly .header left).bind
      (Loader.spans_liftM (checked_eq_ok_iff.mpr ⟨flawless, rfl⟩))
  rw [List.append_nil, List.append_nil, List.replicate_append_replicate] at parts
  exact parts

def preambleSections (metadata : List UInt8) : List Section :=
  List.replicate 3 .headerPreamble ++ List.replicate metadata.length .headerMetadata

theorem spans_readPreamble {length metadata : List UInt8} (width : length.length = 2)
    (announced : metadata.length = LittleEndian.value length) :
    readPreamble.Spans (length ++ [0] ++ metadata) metadata.length (preambleSections metadata) := by
  have byte : ([0] : List UInt8).length = 1 := rfl
  have separator : (Loader.readByte .headerPreamble).Spans [0] 0 [.headerPreamble] :=
    (Loader.spans_exactly .headerPreamble byte).map fun bytes => bytes.headD 0
  have parts : readPreamble.Spans (length ++ ([0] ++ metadata)) (LittleEndian.value length)
      (List.replicate 2 .headerPreamble ++ ([.headerPreamble] ++
        List.replicate (LittleEndian.value length) .headerMetadata)) := by
    refine (Loader.spans_exactly .headerPreamble width).bind (separator.bind ?_)
    rw [if_neg (by decide)]
    exact (Loader.spans_exactly .headerMetadata announced).map fun _ => LittleEndian.value length
  rwa [← announced, ← List.append_assoc, ← List.append_assoc] at parts

theorem spans_preceded {length metadata block : List UInt8} (width : length.length = 2)
    (announced : metadata.length = LittleEndian.value length) (whole : block.length = fixedLength)
    (flawless : (ofBlock block (fixedLength + preambleLength + metadata.length)).defect? = none) :
    Header.read.Spans (magic ++ (length ++ [0] ++ metadata) ++ block)
      (ofBlock block (fixedLength + preambleLength + metadata.length))
      (List.replicate magic.length .header ++ preambleSections metadata ++
        List.replicate fixedLength .header) := by
  have probed : magic.length = magic.length := rfl
  have parts : Header.read.Spans (magic ++ (length ++ [0] ++ metadata ++ (block ++ [])))
      (ofBlock block (fixedLength + preambleLength + metadata.length))
      (List.replicate magic.length .header ++
        (preambleSections metadata ++ (List.replicate fixedLength .header ++ []))) := by
    refine (Loader.spans_exactly .header probed).bind ?_
    rw [if_pos rfl]
    exact (spans_readPreamble width announced).bind ((Loader.spans_exactly .header whole).bind
      (Loader.spans_liftM (checked_eq_ok_iff.mpr ⟨flawless, rfl⟩)))
  rwa [List.append_nil, List.append_nil, ← List.append_assoc, ← List.append_assoc] at parts

end Header

namespace Alphabet

theorem Draft.spans_read {draft final : Draft} {texts : List (List Char)}
    (noNul : ∀ text ∈ texts, '\x00' ∉ text) (added : draft.addAll texts = .ok final) :
    (draft.read texts.length).Spans (texts.flatMap terminated) final
      (List.replicate (texts.flatMap terminated).length .alphabet) := by
  induction texts generalizing draft with
  | nil =>
    cases added
    exact Loader.spans_pure final
  | cons text texts ih =>
    obtain ⟨cleanText, cleanRest⟩ := List.forall_mem_cons.mp noNul
    rw [addAll, List.foldlM_cons] at added
    rw [List.flatMap_cons, List.length_append, ← List.replicate_append_replicate]
    cases addedText : draft.addBytes (terminated text) with
    | error error => rw [addedText] at added; contradiction
    | ok next =>
      rw [addedText] at added
      -- no byte of the text is its closing NUL, so that it runs short up to there
      obtain ⟨clean, -⟩ := addBytes_eq_ok_iff.mpr ⟨text, cleanText, rfl, addedText⟩
      have meets : Demand.throughNul.Meets (terminated text) := ⟨_, rfl, clean⟩
      have onward : resume texts.length (draft.addBytes (terminated text)) =
          next.read texts.length := by rw [addedText, resume]
      have rest := ih cleanRest added
      rw [← onward] at rest
      exact (Loader.spans_read .alphabet meets).bind rest

theorem spans_read {texts : List (List Char)} {draft : Draft}
    (noNul : ∀ text ∈ texts, '\x00' ∉ text) (added : ({} : Draft).addAll texts = .ok draft) :
    (Alphabet.read texts.length).Spans (texts.flatMap terminated) draft.finish
      (List.replicate (texts.flatMap terminated).length .alphabet) :=
  (Draft.spans_read noNul added).map Draft.finish

end Alphabet

theorem IndexTable.spans_read {used : List UInt8} {size : Nat}
    (exact : used.length = size * slotLength) (weighted : Bool) :
    (IndexTable.read size weighted).Spans used ⟨decode used #[], weighted⟩
      (List.replicate used.length .indexTable) := by
  rw [exact]
  exact (Loader.spans_exactly .indexTable exact).map
    fun bytes => IndexTable.mk (decode bytes #[]) weighted

theorem TransitionTable.spans_read {used : List UInt8} {size : Nat} {weighted : Bool}
    (exact : used.length = size * recordLength weighted) :
    (TransitionTable.read size weighted).Spans used ⟨decode weighted used, weighted⟩
      (List.replicate used.length .transitionTable) := by
  rw [exact]
  exact (Loader.spans_exactly .transitionTable exact).map
    fun bytes => TransitionTable.mk (decode weighted bytes) weighted

namespace Layout

def headSections : Option (List UInt8) → List Section
  | none => List.replicate 56 .header
  | some metadata => List.replicate 5 .header ++ List.replicate 3 .headerPreamble ++
      List.replicate metadata.length .headerMetadata ++ List.replicate 56 .header

def sections (layout : Layout) : List Section :=
  headSections layout.metadata ++ (List.replicate layout.alphabet.length .alphabet ++
    (List.replicate layout.slots.length .indexTable ++
      List.replicate layout.records.length .transitionTable))

theorem Valid.spansHeader {layout : Layout} (valid : layout.Valid) :
    Header.read.Spans (layout.preamble ++ layout.block) layout.header
      (headSections layout.metadata) := by
  have flawless := valid.flawless
  unfold preamble
  cases stored : layout.metadata with
  | none =>
    rw [header_of_plain stored] at flawless ⊢
    have noMagic := valid.take_block_ne_magic stored
    have probed : (layout.block.take Header.magic.length).length = Header.magic.length := by
      rw [List.length_take, length_block]
      rfl
    have left : (layout.block.drop Header.magic.length).length =
        Header.fixedLength - Header.magic.length := by
      rw [List.length_drop, length_block]
    rw [← List.take_append_drop Header.magic.length layout.block] at flawless
    rw [preambleOf, List.nil_append, headSections,
      ← List.take_append_drop Header.magic.length layout.block]
    exact Header.spans_plain probed left noMagic flawless
  | some metadata =>
    rw [header_of_preceded stored] at flawless ⊢
    rw [headSections, List.append_assoc (List.replicate 5 _)]
    exact Header.spans_preceded (LittleEndian.length_bytes ..) (valid.announced stored)
      layout.length_block flawless

theorem Valid.spans {layout : Layout} (valid : layout.Valid) :
    ∃ transducer, Transducer.read.Spans layout.bytes transducer layout.sections := by
  obtain ⟨draft, added⟩ := Alphabet.Draft.addAll_eq_ok_iff.mpr valid.values
  have spansTexts := Alphabet.spans_read valid.noNul added
  rw [valid.count] at spansTexts
  exact ⟨_, valid.spansHeader.bind (spansTexts.bind
    ((IndexTable.spans_read valid.length_slots layout.header.weighted).bind
      ((TransitionTable.spans_read valid.length_records).map fun records =>
        Transducer.mk layout.header draft.finish (.ofAlphabet draft.finish) _ records)))⟩

def precededTwoPaths : Layout := { twoPaths with metadata := some [0x61, 0x00] }

theorem valid_precededTwoPaths : precededTwoPaths.Valid := by
  constructor <;> decide +kernel

end Layout

namespace Transducer

/-- A file that is cut off inside its transducer is reported to end in the section that the first
missing byte belongs to. Wherever the end of a file is not what is reported, what stands behind the
file makes no difference. -/
theorem ofBytes_take_and_append (bytes : List UInt8) :
    (∀ transducer rest, Transducer.read.run (.ofBytes bytes) = .ok (transducer, rest) →
      (∃ layout : Layout, layout.Valid ∧ layout.bytes ++ rest.contents = bytes) ∧
      ∀ layout : Layout, layout.Valid → layout.bytes ++ rest.contents = bytes →
        ∀ count < layout.bytes.length, ∃ part, layout.sections[count]? = some part ∧
          ofBytes (bytes.take count) = .error (.endOfStream part)) ∧
    ∀ more, (∀ part, ofBytes bytes ≠ .error (.endOfStream part)) →
      ofBytes (bytes ++ more) = ofBytes bytes := by
  refine ⟨fun transducer rest found => ⟨?_, fun layout valid split count short => ?_⟩,
    fun more settled => ?_⟩
  · obtain ⟨used, split, spells⟩ := reads_read.sound found
    obtain ⟨layout, valid, rfl⟩ := Layout.exists_of_spells spells
    rw [Source.contents_ofBytes] at split
    exact ⟨layout, valid, split.symm⟩
  · obtain ⟨_, spans⟩ := valid.spans
    have within : count < layout.sections.length := spans.length ▸ short
    refine ⟨_, List.getElem?_eq_getElem within, ?_⟩
    have front : bytes.take count = layout.bytes.take count := by
      rw [← split, List.take_append_of_le_length (Nat.le_of_lt short)]
    have failed := spans.cut (.ofBytes (bytes.take count)) count _
      ((Source.contents_ofBytes _).trans front) (List.getElem?_eq_getElem within)
    rw [ofBytes, load, failed]
    rfl
  · obtain ⟨verdict, reports, onward⟩ := load_reports bytes
    have alone := reports (.ofBytes bytes) (Source.contents_ofBytes bytes)
    change ofBytes bytes = verdict.report .finished at alone
    rw [alone] at settled ⊢
    refine onward more ?_
    cases verdict with
    | found _ _ => trivial
    | flawed _ => trivial
    | short part => exact absurd rfl (settled part)

theorem ofBytes_take_and_append_preceded :
    let bytes := Layout.precededTwoPaths.bytes
    ofBytes (bytes.take 3) = .error (.endOfStream .header) ∧
    ofBytes (bytes.take 6) = .error (.endOfStream .headerPreamble) ∧
    ofBytes (bytes.take 9) = .error (.endOfStream .headerMetadata) ∧
    ofBytes (bytes.take 66) = .error (.endOfStream .alphabet) ∧
    ofBytes (bytes.take 142) = .error (.endOfStream .transitionTable) ∧
    ∃ transducer, ofBytes bytes = .ok transducer ∧
      ofBytes (bytes ++ [1, 2, 3]) = .ok transducer := by
  obtain ⟨transducer, spans⟩ := Layout.valid_precededTwoPaths.spans
  have contents := Source.contents_ofBytes Layout.precededTwoPaths.bytes
  obtain ⟨rest, found, left, -⟩ :=
    spans.whole (.ofBytes Layout.precededTwoPaths.bytes) [] (by rw [contents, List.append_nil])
  have loaded : ofBytes Layout.precededTwoPaths.bytes = .ok transducer := by
    rw [ofBytes, load, found]
    rfl
  obtain ⟨cuts, onward⟩ := ofBytes_take_and_append Layout.precededTwoPaths.bytes
  have ends (count : Nat) (part : Section) (within : count < Layout.precededTwoPaths.bytes.length)
      (owner : Layout.precededTwoPaths.sections[count]? = some part) :
      ofBytes (Layout.precededTwoPaths.bytes.take count) = .error (.endOfStream part) := by
    obtain ⟨_, same, failed⟩ := (cuts transducer rest found).2 _ Layout.valid_precededTwoPaths
      (by rw [left, List.append_nil]) count within
    rw [owner] at same
    cases same
    exact failed
  refine ⟨ends 3 _ (by decide +kernel) (by decide +kernel),
    ends 6 _ (by decide +kernel) (by decide +kernel),
    ends 9 _ (by decide +kernel) (by decide +kernel),
    ends 66 _ (by decide +kernel) (by decide +kernel),
    ends 142 _ (by decide +kernel) (by decide +kernel), transducer, loaded, ?_⟩
  have told : ∀ part, ofBytes Layout.precededTwoPaths.bytes ≠ .error (.endOfStream part) := by
    intro part failed
    rw [loaded] at failed
    cases failed
  rw [onward _ told, loaded]

end Transducer

end OptimizedLookup
